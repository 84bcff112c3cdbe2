import DeepProve.Lookup.PaddedTensor
import DeepProve.Lookup.VariantVerifier

/-!
# The weights of dimensions

What the verifier of a lookup computes for the leading dimensions of a shape and for the last two:
the comparisons with the sizes of the dimensions, the batching challenges of the sub tensors, and
the weight of what is filled up.
-/

namespace DeepProve

open Multilinear (eqWeight ltWeight)

/-! ## The weights of the leading dimensions -/

section Weights

variable {F : Type} [CommRing F]

/-- The comparisons with the sizes of dimensions. -/
def ltProd (dims : List (List F × Nat)) : F := (dims.map fun (point, d) => ltWeight point d).prod

/-- The weights of all sub tensors add up to the product of the comparisons. -/
theorem sum_leadWeights (dims : List (List F × Nat)) : (leadWeights dims).sum = ltProd dims := by
  induction dims with
  | nil => simp [leadWeights, ltProd]
  | cons dim dims ih =>
    obtain ⟨point, d⟩ := dim
    have hsum := sum_map_flatMap_range (fun j => (leadWeights dims).map (eqWeight point j * ·)) id d
    rw [List.map_id] at hsum
    have hrow : ∀ j, (((leadWeights dims).map (eqWeight point j * ·)).map id).sum =
        eqWeight point j * ltProd dims := by
      intro j
      rw [List.map_id, ← ih]
      simpa using List.sum_map_mul_left (leadWeights dims) id (eqWeight point j)
    rw [leadWeights, hsum, Finset.sum_congr rfl fun j _ => hrow j, ← Finset.sum_mul]
    rfl

/-- Sizes that are not zero, and points of their numbers of variables. -/
def FitDims (dims : List (List F × Nat)) : Prop :=
  ∀ dim ∈ dims, 0 < dim.2 ∧ dim.1.length = ceilLog2 dim.2 ∧ dim.1.length ≤ 64

omit [CommRing F] in
theorem dimEntries_spec {dims : Shape} {point : List F} (h : point.length = dims.dimVars.sum) :
    ∀ dim ∈ dimEntries dims point, dim.2 ∈ dims ∧ dim.1.length = ceilLog2 dim.2 := by
  induction dims generalizing point with
  | nil =>
    intro dim hdim
    cases hdim
  | cons d dims ih =>
    have hvars : Shape.dimVars (d :: dims) = ceilLog2 d :: Shape.dimVars dims := rfl
    rw [hvars, List.sum_cons] at h
    obtain ⟨htake, hdrop⟩ := splits_of_length h
    rw [dimEntries_cons, List.forall_mem_cons]
    exact ⟨⟨List.mem_cons_self, hdrop⟩,
      fun dim hdim => (ih htake dim hdim).imp_left (List.mem_cons_of_mem _)⟩

omit [CommRing F] in
theorem fitDims_dimEntries {dims : Shape} {point : List F} (h : point.length = dims.dimVars.sum)
    (hdims : ∀ d ∈ dims, 0 < d ∧ ceilLog2 d ≤ 64) : FitDims (dimEntries dims point) := by
  intro dim hdim
  obtain ⟨hmem, hlength⟩ := dimEntries_spec h dim hdim
  exact ⟨(hdims _ hmem).1, hlength, hlength.le.trans (hdims _ hmem).2⟩

/-- The dimensions that are broadcast, which have size one in the slice, and their points. -/
def broadcastDims (dims : List (Nat × Nat × List F)) : List (List F × Nat) :=
  (dims.filter fun (_, unbroadcastDim, _) => unbroadcastDim = 1).map fun (d, _, point) => (point, d)

/-- The dimensions that are broadcast are compared with their sizes. -/
theorem foldlM_broadcastDim {dims : List (Nat × Nat × List F)}
    (h : ∀ dim ∈ dims, (0 < dim.1 ∧ dim.2.2.length = ceilLog2 dim.1 ∧ dim.2.2.length ≤ 64) ∧
      (dim.2.1 = 1 ∨ dim.2.1 = dim.1)) (eval : F) :
    dims.foldlM Shape.broadcastDim eval = .ok (eval * ltProd (broadcastDims dims)) := by
  induction dims generalizing eval with
  | nil => simp [broadcastDims, ltProd, pure, Except.pure]
  | cons dim dims ih =>
    obtain ⟨d, u, point⟩ := dim
    obtain ⟨⟨⟨hd, hlength, h64⟩, hu⟩, hrest⟩ := List.forall_mem_cons.mp h
    dsimp only at hd hlength h64 hu
    rw [List.foldlM_cons]
    by_cases hone : u = 1
    · have hlt : d - 1 < 2 ^ point.length := by
        have hle : d ≤ 2 ^ point.length := hlength ▸ Nat.le_pow_clog (by decide) d
        omega
      have hsub : usizeSub d 1 = .ok (d - 1) := usizeSub_eq_ok.mpr ⟨hd, rfl⟩
      have hstep : Shape.broadcastDim eval (d, u, point) = .ok (eval * ltWeight point d) := by
        unfold Shape.broadcastDim
        simp only [hone, if_true, hsub, Outcome.ok_bind, bitsOf_eq_ok h64,
          evalZeroifierMle_bitList _ _ hlt, Nat.sub_add_cancel hd]
      have hdims : broadcastDims ((d, u, point) :: dims) = (point, d) :: broadcastDims dims := by
        simp [broadcastDims, hone]
      rw [hstep, Outcome.ok_bind, ih hrest, mul_assoc, hdims]
      rfl
    · have hstep : Shape.broadcastDim eval (d, u, point) = .ok eval := by
        obtain rfl := hu.resolve_left hone
        simp [Shape.broadcastDim, hone]
      have hdims : broadcastDims ((d, u, point) :: dims) = broadcastDims dims := by
        simp [broadcastDims, hone]
      rw [hstep, Outcome.ok_bind, ih hrest, hdims]

/-- A dimension that has size one anyway does not count. -/
theorem ltProd_broadcastDims_self {dims : List (List F × Nat)} (h : FitDims dims) :
    ltProd (broadcastDims (dims.map fun (point, d) => (d, d, point))) = 1 := by
  refine List.prod_eq_one fun lt hlt => ?_
  simp only [broadcastDims, List.filter_map, List.map_map, List.mem_map, List.mem_filter] at hlt
  obtain ⟨⟨point, d⟩, ⟨hdim, hone⟩, rfl⟩ := hlt
  obtain rfl : d = 1 := of_decide_eq_true hone
  have hnil : point = [] := List.length_eq_zero_iff.mp (by rw [(h _ hdim).2.1]; rfl)
  simp [hnil, ltWeight, eqWeight]

end Weights

section Broadcast

variable {F : Type}

theorem zip_replicate_zip (dims : List Nat) (points : List (List F)) :
    dims.zip ((List.replicate dims.length 1).zip points) =
      (points.zip dims).map fun (point, d) => (d, 1, point) := by
  induction dims generalizing points with
  | nil => simp
  | cons d dims ih =>
    cases points with
    | nil => simp
    | cons point points =>
      rw [List.length_cons, List.replicate_succ, List.zip_cons_cons, List.zip_cons_cons, ih]
      rfl

theorem zip_self_zip (dims : List Nat) (points : List (List F)) :
    dims.zip (dims.zip points) = (points.zip dims).map fun (point, d) => (d, d, point) := by
  induction dims generalizing points with
  | nil => simp
  | cons d dims ih =>
    cases points with
    | nil => simp
    | cons point points =>
      rw [List.zip_cons_cons, List.zip_cons_cons, ih]
      rfl

@[simp] theorem Shape.length_splitSlices (point : List F) (vars : List Nat) :
    (splitSlices point vars).length = vars.length := by
  induction vars generalizing point with
  | nil => rfl
  | cons v vars ih => rw [splitSlices, List.length_cons, ih, List.length_cons]

variable {lead tail : Shape} {lo hi : List F}

variable [CommRing F]

/-- The comparison with the sizes of the leading dimensions. -/
theorem broadcastingEvaluation_eq_ok (hlo : lo.length = tail.dimVars.sum)
    (hhi : hi.length = lead.dimVars.sum)
    (hdims : ∀ d ∈ (lead ++ tail : Shape), 0 < d ∧ ceilLog2 d ≤ 64) :
    Shape.broadcastingEvaluation (lead ++ tail)
        (Shape.splitSlices (lo ++ hi) (Shape.dimVars (lead ++ tail)))
        (List.replicate lead.length 1 ++ tail) = .ok (ltProd (dimEntries lead hi)) := by
  have hlead := fitDims_dimEntries hhi fun d hd => hdims d (List.mem_append_left _ hd)
  have htail := fitDims_dimEntries hlo fun d hd => hdims d (List.mem_append_right _ hd)
  have hzip : (lead ++ tail).zip ((List.replicate lead.length 1 ++ tail).zip
      (Shape.splitSlices hi lead.dimVars ++ Shape.splitSlices lo tail.dimVars)) =
        (dimEntries lead hi).map (fun (point, d) => (d, 1, point)) ++
          (dimEntries tail lo).map fun (point, d) => (d, d, point) := by
    rw [List.zip_append, List.zip_append, zip_replicate_zip, zip_self_zip]
    · rfl
    · simp [Shape.dimVars]
    · simp [Shape.dimVars]
  rw [Shape.splitSlices_dimVars hhi]
  unfold Shape.broadcastingEvaluation
  have hlt : ltProd (broadcastDims ((dimEntries lead hi).map (fun (point, d) => (d, 1, point)) ++
      (dimEntries tail lo).map fun (point, d) => (d, d, point))) = ltProd (dimEntries lead hi) := by
    have hone := ltProd_broadcastDims_self htail
    rw [broadcastDims] at hone ⊢
    rw [List.filter_append, List.map_append, ltProd, List.map_append, List.prod_append, ← ltProd,
      ← ltProd, hone, mul_one]
    simp [List.filter_map, Function.comp_def]
  rw [hzip, foldlM_broadcastDim, one_mul]
  · rw [hlt]
    simp [Shape.rank, Shape.dimVars]
  · intro dim hdim
    rcases List.mem_append.mp hdim with hdim | hdim
    · obtain ⟨entry, hentry, rfl⟩ := List.mem_map.mp hdim
      exact ⟨hlead entry hentry, .inl rfl⟩
    · obtain ⟨entry, hentry, rfl⟩ := List.mem_map.mp hdim
      exact ⟨htail entry hentry, .inr rfl⟩

end Broadcast

section Batching

variable {F : Type} [CommRing F] {evals : List F → List F}
  (hevals : ∀ point, evals point = (List.range (2 ^ point.length)).map (eqWeight point))

include hevals

/-- The leading dimensions multiply the batching challenges. -/
theorem batch_lead {dims : List (List F × Nat)} (h : ∀ dim ∈ dims, dim.1.length = ceilLog2 dim.2)
    {start skip : Nat} (hskip : start + dims.length ≤ skip) (eqPoint challenges : List F) :
    (dims.zipIdx start).foldl (Shape.batchDim evals skip) (eqPoint, challenges) =
      (eqPoint, challenges.flatMap fun c => (leadWeights dims).map (c * ·)) := by
  induction dims generalizing start challenges with
  | nil => simp [leadWeights]
  | cons dim dims ih =>
    obtain ⟨point, d⟩ := dim
    obtain ⟨hlength, hrest⟩ := List.forall_mem_cons.mp h
    have hd : d ≤ 2 ^ point.length := by
      rw [hlength]
      exact Nat.le_pow_clog (by decide) d
    have htake : (evals point).take d = (List.range d).map (eqWeight point) := by
      rw [hevals, ← List.map_take, List.take_range, Nat.min_eq_left hd]
    rw [List.length_cons] at hskip
    have hstep : Shape.batchDim evals skip (eqPoint, challenges) ((point, d), start) =
        (eqPoint, challenges.flatMap fun c =>
          (List.range d).map fun j => c * eqWeight point j) := by
      simp only [Shape.batchDim]
      rw [if_pos (by omega), htake]
      simp only [List.map_map]
      rfl
    rw [List.zipIdx_cons, List.foldl_cons, hstep, ih hrest (by omega), List.flatMap_assoc]
    congr 1
    apply List.flatMap_congr
    intro c _
    rw [leadWeights, List.flatMap_map, List.map_flatMap]
    apply List.flatMap_congr
    intro j _
    rw [List.map_map]
    apply List.map_congr_left
    intro w _
    exact mul_assoc _ _ _

omit hevals in
/-- The other dimensions do not change the batching challenges. -/
theorem batch_tail (dims : List (List F × Nat)) {start skip : Nat} (hskip : skip ≤ start)
    (eqPoint challenges : List F) :
    (dims.zipIdx start).foldl (Shape.batchDim evals skip) (eqPoint, challenges) =
      ((dims.map Prod.fst).reverse.flatten ++ eqPoint, challenges) := by
  induction dims generalizing start eqPoint with
  | nil => rfl
  | cons dim dims ih =>
    have hstep : Shape.batchDim evals skip (eqPoint, challenges) (dim, start) =
        (dim.1 ++ eqPoint, challenges) := by
      simp only [Shape.batchDim]
      rw [if_neg (by omega)]
    rw [List.zipIdx_cons, List.foldl_cons, hstep, ih (by omega)]
    simp

/-- The batching challenges are the weights of the sub tensors, and the point is the one of their
    dimensions. -/
theorem computeEqPointAndBatchingChallenges_eq_ok {lead tail : Shape} {lo hi : List F}
    (hlo : lo.length = tail.dimVars.sum) (hhi : hi.length = lead.dimVars.sum)
    (hrank : Shape.rank (lead ++ tail) - 2 = lead.length) :
    Shape.computeEqPointAndBatchingChallenges (lead ++ tail) evals (lo ++ hi) =
      .ok (lo, leadWeights (dimEntries lead hi)) := by
  have hsum := Shape.length_append_eq hlo hhi
  have hzip : (Shape.splitSlices (lo ++ hi) (Shape.dimVars (lead ++ tail))).zip (lead ++ tail) =
      dimEntries lead hi ++ dimEntries tail lo := by
    rw [Shape.splitSlices_dimVars hhi, List.zip_append]
    · rfl
    · simp [Shape.dimVars]
  have hlength : (dimEntries lead hi).length = lead.length := by
    simp [dimEntries, Shape.dimVars]
  have hpoint : ((dimEntries tail lo).map Prod.fst).reverse.flatten = lo := by
    rw [dimEntries, List.map_fst_zip (by simp [Shape.dimVars]), Shape.flatten_reverse_splitSlices hlo]
  have hvars : ((lo ++ hi).length == ceilLog2 (2 ^ (Shape.dimVars (lead ++ tail)).sum)) = true := by
    rw [beq_iff_eq, hsum]
    exact (Nat.clog_pow 2 _ (by decide)).symm
  unfold Shape.computeEqPointAndBatchingChallenges
  simp only [Shape.splitPoint_eq_ok _ hsum, Shape.numel_nextPowerOfTwo, hvars, ensure_true,
    Outcome.ok_bind]
  rw [hzip, hrank, List.zipIdx_append, List.foldl_append, batch_lead hevals
    (fun dim hdim => (dimEntries_spec hhi dim hdim).2) (by omega), batch_tail _ (by omega), hpoint]
  simp

/-- **Sub tensors.** The value of a padded tensor, from the point and the batching challenges that
    are computed for its trailing sub tensors. -/
theorem eval_eq_sum_subTensors {shape : Shape} (hpos : ∀ d ∈ shape, 0 < d) {data point : List F}
    (hdata : data.length = shape.numel) (hpoint : point.length = shape.dimVars.sum) :
    ∃ eqPoint challenges,
      shape.computeEqPointAndBatchingChallenges evals point = .ok (eqPoint, challenges) ∧
      challenges.length = (shape.take (shape.rank - 2)).prod ∧
      Multilinear.eval (Multilinear.paddedTable shape (entryAt shape data)) point =
        ((challenges.zip (pieces data (shape.drop (shape.rank - 2)).prod)).map fun (c, chunk) =>
          c * Multilinear.eval (Multilinear.paddedTable (shape.drop (shape.rank - 2))
            (entryAt (shape.drop (shape.rank - 2)) chunk)) eqPoint).sum := by
  obtain ⟨lead, tail, hshape, hlead⟩ : ∃ lead tail, shape = lead ++ tail ∧
      lead.length = shape.rank - 2 :=
    ⟨_, _, (List.take_append_drop (shape.rank - 2) shape).symm, by simp [Shape.rank]⟩
  have hrank : shape.rank - 2 = lead.length := hlead.symm
  subst hshape
  have hvars : point.length = tail.dimVars.sum + lead.dimVars.sum := by
    rw [hpoint, Shape.dimVars, List.map_append, List.sum_append, Nat.add_comm]
    rfl
  obtain ⟨hlo, hhi⟩ : (point.take tail.dimVars.sum).length = tail.dimVars.sum ∧
      (point.drop tail.dimVars.sum).length = lead.dimVars.sum := by
    rw [List.length_take, List.length_drop]
    omega
  have htail : 0 < tail.prod := 
    List.prod_pos_iff_forall_pos_nat.mpr fun d hd => hpos d (List.mem_append_right _ hd)
  have hok := computeEqPointAndBatchingChallenges_eq_ok hevals hlo hhi hrank
  rw [Shape.numel, List.prod_append] at hdata
  have heval := eval_paddedTable_append hlo hhi htail hdata
  rw [List.take_append_drop] at hok heval
  rw [hrank, List.take_left, List.drop_left]
  exact ⟨_, _, hok, length_leadWeights _ _, heval⟩

omit hevals in
theorem eval_eq_sum_subTensors_six : ∃ eqPoint challenges,
    Shape.computeEqPointAndBatchingChallenges [2, 1, 3]
        (fun point => (List.range (2 ^ point.length)).map (eqWeight point)) [4, 5, 6] =
      .ok (eqPoint, challenges) ∧ challenges.length = 2 ∧
      Multilinear.eval (Multilinear.paddedTable [2, 1, 3] (entryAt [2, 1, 3] [1, 2, 3, 4, 5, 6]))
          [4, 5, 6] =
        ((challenges.zip (pieces [1, 2, 3, 4, 5, (6 : Int)] 3)).map fun (c, chunk) =>
          c * Multilinear.eval (Multilinear.paddedTable [1, 3] (entryAt [1, 3] chunk)) eqPoint).sum :=
  eval_eq_sum_subTensors (fun _ => rfl) (by decide) rfl rfl

end Batching

/-! ## The padding of a lookup -/

/-- The last dimensions of a shape: two of them, or the only one. -/
inductive LastDims : Shape → Shape → Nat → Nat → Prop
  | matrix (lead : Shape) (secondLastDim lastDim : Nat) :
      LastDims lead [secondLastDim, lastDim] secondLastDim lastDim
  | vector (lastDim : Nat) : LastDims [] [lastDim] 1 lastDim

theorem lastDims_cases {shape : Shape} {secondLastDim lastDim : Nat}
    (h : shape.lastDims = .ok (secondLastDim, lastDim)) :
    ∃ lead tail, shape = lead ++ tail ∧ LastDims lead tail secondLastDim lastDim := by
  obtain ⟨dims, rfl⟩ : ∃ dims : Shape, shape = dims.reverse := ⟨shape.reverse, by simp⟩
  unfold Shape.lastDims at h
  rw [List.reverse_reverse] at h
  match dims, h with
  | [last], h =>
    obtain ⟨rfl, rfl⟩ := Prod.mk.inj (Except.ok.inj h)
    exact ⟨[], [last], rfl, .vector last⟩
  | last :: secondLast :: rest, h =>
    obtain ⟨rfl, rfl⟩ := Prod.mk.inj (Except.ok.inj h)
    exact ⟨rest.reverse, [secondLast, last], by simp, .matrix _ _ _⟩

namespace LastDims

variable {lead tail : Shape} {secondLastDim lastDim : Nat}
  (h : LastDims lead tail secondLastDim lastDim)

include h

theorem lastDims_eq : Shape.lastDims (lead ++ tail) = .ok (secondLastDim, lastDim) := by
  cases h <;> simp [Shape.lastDims]

theorem rank_sub : Shape.rank (lead ++ tail) - 2 = lead.length := by
  cases h <;> simp [Shape.rank]

theorem prod_eq : tail.prod = secondLastDim * lastDim := by
  cases h <;> simp

theorem vars_eq : tail.dimVars.sum = ceilLog2 secondLastDim + ceilLog2 lastDim := by
  cases h with
  | matrix => simp [Shape.dimVars]
  | vector => simp [Shape.dimVars, ceilLog2]

end LastDims

section Padding

variable {F : Type} [Field F]
variable {point : List F}

theorem evaluateDimLtPoly_eq_ok {d : Nat} (hd : 0 < d) (hlength : point.length = ceilLog2 d)
    (h64 : ceilLog2 d ≤ 64) :
    evaluateDimLtPoly point d = .ok (ltWeight point d) := by
  have hlt : d - 1 < 2 ^ point.length := by
    have hle : d ≤ 2 ^ point.length := hlength ▸ Nat.le_pow_clog (by decide) d
    omega
  have hsub : usizeSub d 1 = .ok (d - 1) := usizeSub_eq_ok.mpr ⟨hd, rfl⟩
  unfold evaluateDimLtPoly
  simp only [hlength, beq_self_eq_true, ensure_true, Outcome.ok_bind, hsub, bitsOf_eq_ok h64]
  rw [← hlength, evalZeroifierMle_bitList _ _ hlt, Nat.sub_add_cancel hd]

/-- Nothing is filled up in a dimension that is a power of two. -/
theorem ltWeight_of_isPowerOfTwo {d : Nat} (hlength : point.length = ceilLog2 d)
    (h : Shape.isPowerOfTwo d = true) : ltWeight point d = 1 := by
  have hpow : d = 2 ^ point.length := by
    rw [hlength]
    exact beq_iff_eq.mp h
  rw [hpow, Multilinear.ltWeight_two_pow]

theorem lastDimPadding_eq_ok {d : Nat} (hd : 0 < d) (hlength : point.length = ceilLog2 d)
    (h64 : ceilLog2 d ≤ 64) :
    lastDimPadding point d = .ok (1 - ltWeight point d) := by
  unfold lastDimPadding
  split
  · next hpow => rw [ltWeight_of_isPowerOfTwo hlength hpow, sub_self]
  · rw [evaluateDimLtPoly_eq_ok hd hlength h64]
    rfl

omit [Field F] in
theorem unbroadcastShape_eq (lead tail : List Nat) :
    ((lead ++ tail).zipIdx.map fun (dim, i) => if i < lead.length then 1 else dim) =
      List.replicate lead.length 1 ++ tail := by
  apply List.ext_getElem
  · simp
  · intro i h _
    by_cases hi : i < lead.length
    · simp [hi]
    · simp [hi, List.getElem_append]

/-- The padding of the last two dimensions, in the sub tensors that are not padding. -/
theorem computeLookupPaddingEvaluation_eq_ok {lead tail : Shape} {secondLastDim lastDim : Nat}
    {lo hi : List F} (h : LastDims lead tail secondLastDim lastDim)
    (hlo : lo.length = tail.dimVars.sum) (hhi : hi.length = lead.dimVars.sum)
    (hdims : ∀ d ∈ (lead ++ tail : Shape), 0 < d ∧ ceilLog2 d ≤ 64) (paddingValue : F) :
    computeLookupPaddingEvaluation paddingValue (lead ++ tail)
        (Shape.splitSlices (lo ++ hi) (Shape.dimVars (lead ++ tail))) =
      .ok (ltProd (dimEntries lead hi) * (1 - ltProd (dimEntries tail lo)) * paddingValue) := by
  have htail := fitDims_dimEntries hlo fun d hd => hdims d (List.mem_append_right _ hd)
  have hbroadcast := broadcastingEvaluation_eq_ok hlo hhi hdims
  unfold computeLookupPaddingEvaluation
  simp only [h.rank_sub, List.drop_left]
  split
  · -- there is no padding in the last dimensions
    next hall =>
    have hone : ltProd (dimEntries tail lo) = 1 := by
      apply List.prod_eq_one
      intro lt hlt
      obtain ⟨⟨point, d⟩, hdim, rfl⟩ := List.mem_map.mp hlt
      have hmem : d ∈ tail := (List.of_mem_zip hdim).2
      exact ltWeight_of_isPowerOfTwo (htail _ hdim).2.1 (List.all_eq_true.mp hall d hmem)
    rw [hone, sub_self, mul_zero, zero_mul]
  · simp only [unbroadcastShape_eq, hbroadcast, Outcome.ok_bind, h.lastDims_eq]
    rw [Shape.splitSlices_dimVars hhi]
    cases h with
    | vector lastDim =>
      obtain rfl := List.length_eq_zero_iff.mp hhi
      obtain ⟨hd, hlength, h64⟩ := htail _ List.mem_cons_self
      have hpoint : (Shape.splitSlices ([] : List F) (Shape.dimVars []) ++
          Shape.splitSlices lo (Shape.dimVars [lastDim]))[Shape.rank ([] ++ [lastDim]) - 1]? =
            some (lo.drop (lo.length - ceilLog2 lastDim)) := rfl
      have hpadding := lastDimPadding_eq_ok hd hlength (hlength ▸ h64)
      simp only [hpoint, unwrap_some, Outcome.ok_bind, hpadding, true_or, if_true]
      simp [ltProd, dimEntries, Shape.splitSlices, Shape.dimVars]
    | matrix lead secondLastDim lastDim =>
      rw [dimEntries_cons, dimEntries_cons] at htail ⊢
      obtain ⟨⟨hs, hslength, hs64⟩, hrest⟩ := List.forall_mem_cons.mp htail
      obtain ⟨hl, hllength, hl64⟩ := hrest _ List.mem_cons_self
      have hpadding := lastDimPadding_eq_ok hl hllength (hllength ▸ hl64)
      have hsecond := evaluateDimLtPoly_eq_ok hs hslength (hslength ▸ hs64)
      have hslices : Shape.splitSlices lo (Shape.dimVars [secondLastDim, lastDim]) =
          [lo.drop (lo.length - ceilLog2 secondLastDim),
            (lo.take (lo.length - ceilLog2 secondLastDim)).drop
              ((lo.take (lo.length - ceilLog2 secondLastDim)).length - ceilLog2 lastDim)] := rfl
      have hrank : Shape.rank (lead ++ [secondLastDim, lastDim]) - 1 = lead.length + 1 := by
        simp [Shape.rank]
      have hlead : (Shape.splitSlices hi (Shape.dimVars lead)).length = lead.length := by
        simp [Shape.dimVars]
      rw [hslices]
      generalize lo.drop (lo.length - ceilLog2 secondLastDim) = sPoint at *
      generalize (lo.take (lo.length - ceilLog2 secondLastDim)).drop
        ((lo.take (lo.length - ceilLog2 secondLastDim)).length - ceilLog2 lastDim) = lPoint at *
      have hlast : (Shape.splitSlices hi (Shape.dimVars lead) ++ [sPoint, lPoint])[lead.length + 1]? =
          some lPoint := by
        rw [← hlead]
        simp
      have hsecondLast : (Shape.splitSlices hi (Shape.dimVars lead) ++
          [sPoint, lPoint])[lead.length]? = some sPoint := by
        rw [← hlead]
        simp
      have hprod : ltProd ((sPoint, secondLastDim) :: (lPoint, lastDim) :: dimEntries [] (List.take
          ((lo.take (lo.length - ceilLog2 secondLastDim)).length - ceilLog2 lastDim)
          (lo.take (lo.length - ceilLog2 secondLastDim)))) =
            ltWeight sPoint secondLastDim * ltWeight lPoint lastDim := by
        simp [ltProd, dimEntries, Shape.splitSlices, Shape.dimVars]
      rw [hprod, hrank]
      simp only [hlast, unwrap_some, Outcome.ok_bind, hpadding]
      split
      · next hpow =>
        -- nothing is filled up in the second last dimension
        have hone : ltWeight sPoint secondLastDim = 1 := by
          apply ltWeight_of_isPowerOfTwo hslength
          rcases hpow with rfl | hpow
          · rfl
          · exact hpow
        rw [hone, one_mul]
      · simp only [hsecondLast, unwrap_some, Outcome.ok_bind, hsecond]
        congr 1
        ring

end Padding

end DeepProve
