import DeepProve.EinSum.Binding

/-!
# Which evaluations are checked, and which are handed on

An Einstein summation of several operations. The expression of the sumcheck reads the evaluations of a
proof by the numbers that the equation gives them, cut to 16 bits; the claims about the inputs are made
of the two halves of the list, whatever its length. So the claims are about the evaluations that were
checked only if the list has the length of the expression.
-/

namespace DeepProve

open Outcome WeightedSums

section Pieces

variable {α β : Type}

theorem getElem?_pieces_eq_some {xs piece : List α} {size i : Nat} :
    (pieces xs size)[i]? = some piece ↔
      i < (xs.length + size - 1) / size ∧ piece = (xs.drop (i * size)).take size := by
  rw [pieces, List.getElem?_map, Option.map_eq_some_iff]
  constructor
  · rintro ⟨j, hj, rfl⟩
    obtain ⟨hlt, hget⟩ := List.getElem?_eq_some_iff.mp hj
    rw [List.length_range] at hlt
    rw [List.getElem_range] at hget
    exact ⟨hlt, by rw [hget]⟩
  · rintro ⟨hlt, rfl⟩
    exact ⟨i, List.getElem?_range hlt, rfl⟩

/-- A list that is cut to the lengths of others, and zipped with them. -/
theorem zip_take_length (xs : List (List α)) (ys : List (List β)) :
    ((xs.zip ys).map fun (x, y) => x.take y.length).zip ys =
      (xs.zip ys).map fun (x, y) => (x.take y.length, y) := by
  induction xs generalizing ys with
  | nil => rfl
  | cons x xs ih =>
    cases ys with
    | nil => rfl
    | cons y ys => simp [ih]

end Pieces

namespace EinSumContext

/-! ## The numbers of the evaluations -/

/-- The numbers of the evaluations of the operations; `f s i j` is the number of evaluation `j` of
    operation `i`, which has `s` of them. -/
def numbering (f : Nat → Nat → Nat → Nat) (sizes : List Nat) : List (List Nat) :=
  sizes.zipIdx.map fun (s, i) => (List.range s).map (f s i)

/-- The evaluations of the left input that the expression reads, for every operation. -/
def occursLeft (sizes : List Nat) : List (List Nat) :=
  numbering (fun s i j => (j + i * s) % 2 ^ 16) sizes

/-- Those of the right inputs. -/
def occursRight (sizes : List Nat) : List (List Nat) :=
  numbering (fun s i j => (j + (sizes.length * s + i * s)) % 2 ^ 16) sizes

/-- The chunks of a list, as many of each as there are coefficients; all chunks have the size of the
    first operation. -/
def cutBySizes {α : Type} (sizes : List Nat) (xs : List α) : List (List α) :=
  ((pieces xs (sizes.headD 0)).zip sizes).map fun (piece, s) => piece.take s

/-- The evaluations that the claim about the left input is made of. -/
def claimedLeft (sizes : List Nat) (len : Nat) : List (List Nat) :=
  cutBySizes sizes ((List.range len).take (len / 2))

/-- The evaluations that the claims about the right inputs are made of. -/
def claimedRight (sizes : List Nat) (len : Nat) : List (List Nat) :=
  cutBySizes sizes ((List.range len).drop (len / 2))

variable {sizes : List Nat}

theorem getElem?_cutBySizes_eq_some {α : Type} {xs chunk : List α} {i : Nat} :
    (cutBySizes sizes xs)[i]? = some chunk ↔ ∃ s, sizes[i]? = some s ∧
      i < (xs.length + sizes.headD 0 - 1) / sizes.headD 0 ∧
        chunk = ((xs.drop (i * sizes.headD 0)).take (sizes.headD 0)).take s := by
  rw [cutBySizes, List.getElem?_map, Option.map_eq_some_iff]
  constructor
  · rintro ⟨⟨piece, s⟩, hzip, rfl⟩
    obtain ⟨hpiece, hs⟩ := List.getElem?_zip_eq_some.mp hzip
    obtain ⟨hlt, rfl⟩ := getElem?_pieces_eq_some.mp hpiece
    exact ⟨s, hs, hlt, rfl⟩
  · rintro ⟨s, hs, hlt, rfl⟩
    exact ⟨(_, s), List.getElem?_zip_eq_some.mpr ⟨getElem?_pieces_eq_some.mpr ⟨hlt, rfl⟩, hs⟩, rfl⟩

theorem getElem?_numbering {f : Nat → Nat → Nat → Nat} {i s : Nat} (h : sizes[i]? = some s) :
    (numbering f sizes)[i]? = some ((List.range s).map (f s i)) := by
  rw [numbering, List.getElem?_map, List.getElem?_zipIdx, h]
  simp

/-- When a chunk of consecutive numbers is a given list of as many as there are coefficients. -/
theorem chunk_eq_iff {first n s₀ s i : Nat} {f : Nat → Nat} (hs : 0 < s) :
    (((List.range' first n).drop (i * s₀)).take s₀).take s = (List.range s).map f ↔
      s ≤ s₀ ∧ i * s₀ + s ≤ n ∧ ∀ j < s, first + i * s₀ + j = f j := by
  constructor
  · intro h
    have hlength := congrArg List.length h
    simp only [List.length_take, List.length_drop, List.length_range', List.length_range,
      List.length_map] at hlength
    have hentry : ∀ j < s, first + i * s₀ + j = f j := by
      intro j hj
      have hj' := congrArg (·[j]?) h
      rw [List.getElem?_take_of_lt hj, List.getElem?_take_of_lt (by omega), List.getElem?_drop,
        List.getElem?_range' (by omega), List.getElem?_map, List.getElem?_range hj] at hj'
      have := Option.some.inj hj'
      omega
    exact ⟨by omega, by omega, hentry⟩
  · rintro ⟨hle, hfits, hentry⟩
    apply List.ext_getElem?
    intro j
    by_cases hj : j < s
    · rw [List.getElem?_take_of_lt hj, List.getElem?_take_of_lt (by omega), List.getElem?_drop,
        List.getElem?_range' (by omega), List.getElem?_map, List.getElem?_range hj, Option.map_some,
        ← hentry j hj]
      congr 1
      omega
    · rw [List.getElem?_eq_none, List.getElem?_eq_none]
      · simpa using hj
      · simp
        omega

/-- When the chunks of consecutive numbers are given lists, operation by operation. -/
theorem cutBySizes_eq_iff {first n : Nat} (hpos : ∀ s ∈ sizes, 0 < s) {f : Nat → Nat → Nat → Nat} :
    cutBySizes sizes (List.range' first n) = numbering f sizes ↔
      ∀ i s, sizes[i]? = some s →
        s ≤ sizes.headD 0 ∧ i * sizes.headD 0 + s ≤ n ∧
          ∀ j < s, first + i * sizes.headD 0 + j = f s i j := by
  constructor
  · intro h i s hs
    have hchunk := (congrArg (·[i]?) h).trans (getElem?_numbering hs)
    obtain ⟨s', hs', _, heq⟩ := getElem?_cutBySizes_eq_some.mp hchunk
    obtain rfl := Option.some.inj (hs'.symm.trans hs)
    exact (chunk_eq_iff (hpos _ (List.mem_of_getElem? hs))).mp heq.symm
  · intro h
    apply List.ext_getElem?
    intro i
    cases hs : sizes[i]? with
    | none =>
      have hle := List.getElem?_eq_none_iff.mp hs
      rw [List.getElem?_eq_none, List.getElem?_eq_none]
      · simpa [numbering] using hle
      · simp only [cutBySizes, List.length_map, List.length_zip]
        omega
    | some s =>
      rw [getElem?_numbering hs, getElem?_cutBySizes_eq_some]
      have hs0 := hpos _ (List.mem_of_getElem? hs)
      obtain ⟨hle, hfits, hentry⟩ := h i s hs
      refine ⟨s, hs, ?_, ((chunk_eq_iff hs0).mpr ⟨hle, hfits, hentry⟩).symm⟩
      rw [List.length_range', Nat.lt_iff_add_one_le, Nat.le_div_iff_mul_le (by omega), Nat.succ_mul]
      omega

/-- All operations have stacked axes of one size, and the evaluations those of the expression; one
    more at the end does no harm. -/
structure Fits (sizes : List Nat) (len : Nat) : Prop where
  uniform : ∀ s ∈ sizes, s = sizes.headD 0
  half : len / 2 = sizes.length * sizes.headD 0
  ids : 2 * (sizes.length * sizes.headD 0) ≤ 2 ^ 16

/-- The claims are made of the evaluations that the expression reads. -/
theorem claimed_eq_occurring_iff (hne : sizes ≠ []) (hpos : ∀ s ∈ sizes, 0 < s) {len : Nat} :
    claimedLeft sizes len = occursLeft sizes ∧ claimedRight sizes len = occursRight sizes ↔
      Fits sizes len := by
  have hleft : (List.range len).take (len / 2) = List.range' 0 (len / 2) := by
    rw [List.take_range, Nat.min_eq_left (Nat.div_le_self _ _), List.range_eq_range']
  have hright : (List.range len).drop (len / 2) = List.range' (len / 2) (len - len / 2) := by
    rw [List.range_eq_range', List.drop_range']
    congr 1
    omega
  have hr : 0 < sizes.length := List.length_pos_iff.mpr hne
  obtain ⟨s₀, hs₀⟩ : ∃ s₀, sizes[0]? = some s₀ := ⟨_, List.getElem?_eq_getElem hr⟩
  have hhead : sizes.headD 0 = s₀ := by
    rw [List.headD_eq_head?_getD, List.head?_eq_getElem?, hs₀]
    rfl
  have hs₀pos := hpos _ (List.mem_of_getElem? hs₀)
  rw [claimedLeft, claimedRight, hleft, hright, occursLeft, occursRight, cutBySizes_eq_iff hpos,
    cutBySizes_eq_iff hpos, hhead]
  constructor
  · rintro ⟨hl, hrt⟩
    -- the evaluations before those of operation `i` are as many as its number says
    have huniform : ∀ (i s : Nat), sizes[i]? = some s → s = s₀ := by
      intro i s hs
      obtain ⟨hle, _, hentry⟩ := hl i s hs
      have hfirst := hentry 0 (hpos _ (List.mem_of_getElem? hs))
      have hmul : i * s ≤ i * s₀ := Nat.mul_le_mul_left i hle
      rw [Nat.mod_eq_of_lt (by omega)] at hfirst
      rcases Nat.eq_zero_or_pos i with rfl | hi
      · exact Option.some.inj (hs.symm.trans hs₀)
      · exact Nat.eq_of_mul_eq_mul_left hi (by omega)
    -- the last operation reads up to the end of both halves
    obtain ⟨last, hlast⟩ : ∃ last, sizes[sizes.length - 1]? = some last :=
      ⟨_, List.getElem?_eq_getElem (by omega)⟩
    obtain rfl := huniform _ _ hlast
    obtain ⟨_, hfits, hleftLast⟩ := hl _ _ hlast
    obtain ⟨_, _, hrightLast⟩ := hrt _ _ hlast
    obtain ⟨_, _, hrightFirst⟩ := hrt _ _ hs₀
    have hmul : (sizes.length - 1) * last + last = sizes.length * last := by
      rw [← Nat.succ_mul]
      congr 1
      omega
    have hfirst := hrightFirst 0 hs₀pos
    rw [Nat.zero_add, Nat.zero_mul, Nat.add_zero, Nat.add_zero] at hfirst
    have hhalf : len / 2 = sizes.length * last :=
      Nat.le_antisymm (hfirst ▸ Nat.mod_le _ _) (by omega)
    have hend := hrightLast (last - 1) (by omega)
    refine ⟨fun s hs => ?_, by rw [hhead, hhalf], ?_⟩
    · obtain ⟨i, hi⟩ := List.mem_iff_getElem?.mp hs
      rw [hhead]
      exact huniform i s hi
    · rw [hhead]
      omega
  · rintro ⟨huniform, hhalf, hids⟩
    rw [hhead] at huniform hhalf hids
    have hsize : ∀ (i s : Nat), sizes[i]? = some s → s = s₀ ∧ i * s₀ + s₀ ≤ sizes.length * s₀ := by
      intro i s hs
      obtain ⟨hi, _⟩ := List.getElem?_eq_some_iff.mp hs
      have := Nat.mul_le_mul_right s₀ (Nat.succ_le_of_lt hi)
      rw [Nat.succ_mul] at this
      exact ⟨huniform s (List.mem_of_getElem? hs), this⟩
    constructor
    · intro i s hs
      obtain ⟨rfl, hfits⟩ := hsize i s hs
      refine ⟨le_refl _, by omega, fun j hj => ?_⟩
      rw [Nat.mod_eq_of_lt (by omega)]
      omega
    · intro i s hs
      obtain ⟨rfl, hfits⟩ := hsize i s hs
      refine ⟨le_refl _, by omega, fun j hj => ?_⟩
      rw [Nat.mod_eq_of_lt (by omega)]
      omega

/-! ## What the expression says of them -/

variable {F : Type} [Field F] {D : DpCrypto F}

/-- The evaluations with the given numbers. -/
def evalsAt (e : List F) (numbers : List Nat) : List F := numbers.map fun n => e.getD n 0

/-- The sum of the products of two lists of evaluations, with the coefficients of the operation. -/
def productSum (coeffs left right : List F) : F :=
  ((coeffs.zip (left.zip right)).map fun (c, l, r) => c * l * r).sum

/-- What the expression of the sumcheck says of the evaluations it reads. -/
def expressionValue (challenge : F) (coeffs : List (List F)) (e : List F) : F :=
  let sizes := coeffs.map List.length
  (coeffs.zipIdx.map fun (c, i) => challenge ^ i *
    productSum c (evalsAt e ((occursLeft sizes).getD i []))
      (evalsAt e ((occursRight sizes).getD i []))).sum

theorem productSum_evalsAt {c e : List F} {f g : Nat → Nat} :
    productSum c (evalsAt e ((List.range c.length).map fun j => f j % 2 ^ 16))
        (evalsAt e ((List.range c.length).map fun j => g j % 2 ^ 16)) =
      (c.zipIdx.map fun (c, j) => c * evaluationAt e (f j) * evaluationAt e (g j)).sum := by
  have hlist : c.zip ((evalsAt e ((List.range c.length).map fun j => f j % 2 ^ 16)).zip
      (evalsAt e ((List.range c.length).map fun j => g j % 2 ^ 16))) =
        c.zipIdx.map fun (c, j) => (c, evaluationAt e (f j), evaluationAt e (g j)) := by
    apply List.ext_getElem
    · simp [evalsAt]
    · intro i hi hi'
      simp [evalsAt, evaluationAt]
  rw [productSum, hlist, List.map_map]
  rfl

/-- The operations of the expression, added up from the left. -/
theorem eval_operations (hD : D.Lawful) {e : List F} {challenge : F} {r : Nat}
    {l : List (List F × Nat)} (hne : ∀ op ∈ l, op.1 ≠ [])
    (hlength : ∀ op ∈ l, r * op.1.length + op.2 * op.1.length + op.1.length ≤ e.length)
    {acc : D.Expression} {v : F}
    (hacc : D.eval e [challenge] acc = .ok v) :
    ∃ expression, l.foldlM (fun acc (coeffs, i) => do
        let products ← productsExpression D coeffs (i * coeffs.length)
          (r * coeffs.length + i * coeffs.length)
        .ok (D.add acc (D.mul (D.challenge 0 i 1 0) products))) acc = .ok expression ∧
      D.eval e [challenge] expression = .ok (v + (l.map fun (c, i) => challenge ^ i *
        (c.zipIdx.map fun (c', j) => c' * evaluationAt e (j + i * c.length) *
          evaluationAt e (j + (r * c.length + i * c.length))).sum).sum) := by
  induction l generalizing acc v with
  | nil => exact ⟨acc, rfl, by simpa using hacc⟩
  | cons op l ih =>
    obtain ⟨c, i⟩ := op
    obtain ⟨hc, hne⟩ := List.forall_mem_cons.mp hne
    obtain ⟨hfits, hlength⟩ := List.forall_mem_cons.mp hlength
    dsimp only at hc hfits
    obtain ⟨products, hproducts, hvalue⟩ := @eval_productsExpression _ _ _ hD _ [challenge] _ _ _
      (Nat.le_add_left (i * c.length) (r * c.length)) hfits hc
    have hchallenge := hD.challenge e [challenge] 0 i 1 0 challenge rfl
    have hfirst := hD.add _ _ _ _ _ _ hacc (hD.mul _ _ _ _ _ _ hchallenge hvalue)
    obtain ⟨expression, hrest, hsum⟩ := ih hne hlength hfirst
    refine ⟨expression, ?_, ?_⟩
    · rw [List.foldlM_cons]
      dsimp only
      rw [hproducts, Outcome.ok_bind, Outcome.ok_bind]
      exact hrest
    · rw [hsum, List.map_cons, List.sum_cons]
      congr 1
      ring

/-- The expression of the sumcheck, when there are enough evaluations. -/
theorem eval_buildEinsumExpression_of_fits (hD : D.Lawful) {ctx : EinSumContext}
    {coeffs : List (List F)} (hcount : coeffs.length = ctx.mapping.inputCount - 1)
    (hne : ∀ c ∈ coeffs, c ≠ []) {e : List F} (hfits : Fits (coeffs.map List.length) e.length)
    (challenge : F) :
    ∃ expression, ctx.buildEinsumExpression D coeffs = .ok expression ∧
      D.eval e [challenge] expression = .ok (expressionValue challenge coeffs e) := by
  obtain ⟨huniform, hhalf, _⟩ := hfits
  rw [List.length_map] at hhalf
  -- operation `i` reads up to the end of its part of the right half
  have hlength : ∀ op ∈ coeffs.zipIdx, coeffs.length * op.1.length + op.2 * op.1.length +
      op.1.length ≤ e.length := by
    intro op hop
    have hsize := huniform _ (List.mem_map_of_mem (List.fst_mem_of_mem_zipIdx hop))
    have hlt : op.2 + 1 ≤ coeffs.length := by simpa using List.snd_lt_of_mem_zipIdx hop
    have hmul := Nat.mul_le_mul_right op.1.length hlt
    rw [← hsize] at hhalf
    rw [Nat.succ_mul] at hmul
    omega
  obtain ⟨expression, hbuild, hvalue⟩ := eval_operations hD (r := coeffs.length)
    (fun op hop => hne _ (List.fst_mem_of_mem_zipIdx hop)) hlength (hD.constant e [challenge] 0)
  refine ⟨expression, ?_, ?_⟩
  · rw [buildEinsumExpression, if_pos hcount, ← hcount]
    exact hbuild
  · rw [hvalue, zero_add, expressionValue]
    congr 2
    apply List.map_congr_left
    intro op hop
    have hget : (coeffs.map List.length)[op.2]? = some op.1.length := by
      rw [List.getElem?_map, List.mem_zipIdx_iff_getElem?.mp hop]
      rfl
    dsimp only
    rw [List.getD_eq_getElem?_getD, List.getD_eq_getElem?_getD, occursLeft, occursRight,
      getElem?_numbering hget, getElem?_numbering hget, Option.getD_some, Option.getD_some,
      List.length_map, productSum_evalsAt]

end EinSumContext

end DeepProve
