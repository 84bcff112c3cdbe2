import DeepProve.EinSum.Grammar

/-!
# The axes of a parsed equation

Once the terms are parsed, an axis is built for each name; it has to be in the left and a right
input, or in one of them and an output. The places of the right inputs are a list of the length of
the outputs. The axes are sorted by the first place of their name in the inputs.
-/

namespace DeepProve

open Outcome Pieces

/-! ## The types of the axes -/

/-- Every axis of an output is in an input, and every other one in the left and in a right input. -/
def AxesOccur (inputParts outputDims : List (List Char)) : Prop :=
  ∀ c, ((∃ dims ∈ outputDims, c ∈ dims) →
      c ∈ inputParts.headD [] ∨ ∃ dims ∈ inputParts.tail, c ∈ dims) ∧
    ((∃ dims ∈ inputParts, c ∈ dims) → (¬ ∃ dims ∈ outputDims, c ∈ dims) →
      c ∈ inputParts.headD [] ∧ ∃ dims ∈ inputParts.tail, c ∈ dims)

section Types

variable {inputParts outputDims biasDims : List (List Char)}

/-- Where an axis is present for it to have a type. -/
theorem typeOf_isOk_iff (lhs rhs out : Bool) :
    (∃ axisType, Axis.typeOf lhs rhs out = .ok axisType) ↔
      (out = true → lhs = true ∨ rhs = true) ∧ (out = false → lhs = true ∧ rhs = true) := by
  cases lhs <;> cases rhs <;> cases out <;> simp [Axis.typeOf]

theorem settles_typeOf (lhs rhs out : Bool) : Settles (Axis.typeOf lhs rhs out) := by
  cases lhs <;> cases rhs <;> cases out <;>
    first | exact settles_ok _ | exact settles_err _

/-- All places of the right inputs are there, so only the type of the axis matters. -/
theorem ofTerms_eq (biasDims : List (List Char)) (hcount : outputDims.length + 1 = inputParts.length) (repr : Char) :
    ∃ axis : AxisType → Axis, Axis.ofTerms inputParts outputDims biasDims repr =
      (Axis.typeOf ((inputParts.headD []).contains repr) (inputParts.tail.any (·.contains repr))
        (outputDims.any (·.contains repr))).map axis := by
  have htail : inputParts.tail.length = outputDims.length := by
    rw [List.length_tail]
    omega
  refine ⟨fun axisType => {
    lhsInput := Dimension.inTerm (inputParts.headD []) repr
    rhsInputs := inputParts.tail.map (Dimension.inTerm · repr) ++
      List.replicate (outputDims.length - inputParts.tail.length) .absent
    outputs := outputDims.map (Dimension.inTerm · repr)
    biases := biasDims.map (Dimension.inTerm · repr)
    repr := repr
    axisType := axisType }, ?_⟩
  unfold Axis.ofTerms
  rw [foldlM_setRhsInput _ _ htail.le, ok_bind, Dimension.isPresent_inTerm]
  cases Axis.typeOf ((inputParts.headD []).contains repr) (inputParts.tail.any (·.contains repr))
    (outputDims.any (·.contains repr)) <;> rfl

theorem settles_ofTerms (hcount : outputDims.length + 1 = inputParts.length) (repr : Char) :
    Settles (Axis.ofTerms inputParts outputDims biasDims repr) := by
  obtain ⟨axis, h⟩ := ofTerms_eq biasDims hcount repr
  rw [h]
  rcases settles_typeOf ((inputParts.headD []).contains repr)
    (inputParts.tail.any (·.contains repr)) (outputDims.any (·.contains repr)) with
      ⟨axisType, h⟩ | ⟨msg, h⟩
  · rw [h]
    exact settles_ok _
  · rw [h]
    exact settles_err _

/-- The axes of all names are accepted. -/
theorem ofTerms_isOk_iff (hcount : outputDims.length + 1 = inputParts.length) (repr : Char) :
    (∃ axis, Axis.ofTerms inputParts outputDims biasDims repr = .ok axis) ↔
      ((∃ dims ∈ outputDims, repr ∈ dims) →
        repr ∈ inputParts.headD [] ∨ ∃ dims ∈ inputParts.tail, repr ∈ dims) ∧
      ((¬ ∃ dims ∈ outputDims, repr ∈ dims) →
        repr ∈ inputParts.headD [] ∧ ∃ dims ∈ inputParts.tail, repr ∈ dims) := by
  obtain ⟨axis, h⟩ := ofTerms_eq biasDims hcount repr
  have hany : ∀ parts : List (List Char), (parts.any (·.contains repr)) = true ↔
      ∃ dims ∈ parts, repr ∈ dims := by
    intro parts
    simp
  have hmap : (∃ a, Axis.ofTerms inputParts outputDims biasDims repr = .ok a) ↔
      ∃ axisType, Axis.typeOf ((inputParts.headD []).contains repr)
        (inputParts.tail.any (·.contains repr)) (outputDims.any (·.contains repr)) =
          .ok axisType := by
    rw [h]
    cases Axis.typeOf ((inputParts.headD []).contains repr)
      (inputParts.tail.any (·.contains repr)) (outputDims.any (·.contains repr)) <;>
        simp [Except.map]
  rw [hmap, typeOf_isOk_iff, hany, hany, List.contains_iff_mem, ← Bool.not_eq_true, hany]

theorem mem_flatten_iff {c : Char} :
    c ∈ (inputParts ++ outputDims).flatten ↔
      (∃ dims ∈ inputParts, c ∈ dims) ∨ ∃ dims ∈ outputDims, c ∈ dims := by
  rw [List.flatten_append, List.mem_append, List.mem_flatten, List.mem_flatten]

/-- When the axes of the terms are accepted, in any order of the names. -/
theorem fromTermsIn_isOk_iff {names : List Char}
    (hnames : ∀ c, c ∈ names ↔ c ∈ (inputParts ++ outputDims).flatten)
    (hcount : outputDims.length + 1 = inputParts.length) :
    (∃ m, AxesMapping.fromTermsIn names inputParts outputDims biasDims = .ok m) ↔
      AxesOccur inputParts outputDims := by
  have hall : (∃ m, AxesMapping.fromTermsIn names inputParts outputDims biasDims = .ok m) ↔
      ∀ c ∈ names, ∃ axis, Axis.ofTerms inputParts outputDims biasDims c = .ok axis := by
    constructor
    · rintro ⟨m, h⟩ c hc
      obtain ⟨axes, haxes, _⟩ := bind_eq_ok.mp h
      obtain ⟨axis, _, haxis⟩ := exists_eq_ok_of_mapM haxes hc
      exact ⟨axis, haxis⟩
    · intro h
      obtain ⟨axes, haxes⟩ := exists_mapM_eq_ok h
      exact ⟨_, bind_eq_ok.mpr ⟨axes, haxes, rfl⟩⟩
  rw [hall]
  constructor
  · intro h c
    refine ⟨fun hout => ?_, fun hin hnot => ?_⟩
    · have hc := (hnames c).mpr (mem_flatten_iff.mpr (.inr hout))
      exact ((ofTerms_isOk_iff hcount c).mp (h c hc)).1 hout
    · have hc := (hnames c).mpr (mem_flatten_iff.mpr (.inl hin))
      exact ((ofTerms_isOk_iff hcount c).mp (h c hc)).2 hnot
  · intro h c hc
    refine (ofTerms_isOk_iff hcount c).mpr ⟨(h c).1, fun hnot => ?_⟩
    rcases mem_flatten_iff.mp ((hnames c).mp hc) with hin | hout
    · exact (h c).2 hin hnot
    · exact absurd hout hnot

theorem settles_fromTermsIn (names : List Char)
    (hcount : outputDims.length + 1 = inputParts.length) :
    Settles (AxesMapping.fromTermsIn names inputParts outputDims biasDims) :=
  settles_bind.mpr ⟨settles_mapM.mpr fun _ _ _ _ _ _ => settles_ofTerms hcount _,
    fun _ _ => settles_ok _⟩

end Types

/-! ## The order of the axes -/

section Order

variable {inputParts outputDims biasDims : List (List Char)}

/-- All places of the inputs, with the names there. -/
def places (inputParts : List (List Char)) : List (Nat × Nat × Char) :=
  inputParts.zipIdx.flatMap fun (dims, i) => dims.zipIdx.map fun (c, pos) => (i, pos, c)

theorem map_places : (places inputParts).map (fun tuple => tuple.2.2) = inputParts.flatten := by
  have hgen : ∀ k, ((inputParts.zipIdx k).flatMap fun (dims, i) =>
      dims.zipIdx.map fun (c, pos) => (i, pos, c)).map (fun tuple => tuple.2.2) =
        inputParts.flatten := by
    induction inputParts with
    | nil => exact fun _ => rfl
    | cons dims parts ih =>
      intro k
      rw [List.zipIdx_cons, List.flatMap_cons, List.map_append, ih, List.flatten_cons, List.map_map]
      congr 1
      exact List.zipIdx_map_fst 0 dims
  exact hgen 0

theorem mem_places {i pos : Nat} {c : Char} :
    (i, pos, c) ∈ places inputParts ↔ ∃ dims, inputParts[i]? = some dims ∧ dims[pos]? = some c := by
  simp only [places, List.mem_flatMap, List.mem_map, Prod.exists, List.mem_zipIdx_iff_getElem?]
  constructor
  · rintro ⟨dims, j, hdims, d, p, hd, heq⟩
    obtain ⟨rfl, rfl, rfl⟩ : j = i ∧ p = pos ∧ d = c := by simpa using heq
    exact ⟨dims, hdims, hd⟩
  · rintro ⟨dims, hdims, hc⟩
    exact ⟨dims, i, hdims, c, pos, hc, rfl⟩

/-- One place is strictly before another. -/
def StrictlyBefore (a b : Nat × Nat × Char) : Prop := a.1 < b.1 ∨ a.1 = b.1 ∧ a.2.1 < b.2.1

/-- The number of a later entry is larger. -/
theorem zipIdx_pairwise {α : Type} (xs : List α) :
    xs.zipIdx.Pairwise fun a b => a.2 < b.2 := by
  have h : (xs.zipIdx.map Prod.snd).Pairwise (· < ·) := by
    rw [List.zipIdx_map_snd]
    exact List.pairwise_lt_range'
  exact List.pairwise_map.mp h

theorem places_pairwise : (places inputParts).Pairwise StrictlyBefore := by
  refine List.pairwise_flatMap.mpr ⟨?_, ?_⟩
  · rintro ⟨dims, i⟩ _
    refine List.pairwise_map.mpr ((zipIdx_pairwise dims).imp fun hlt => ?_)
    exact .inr ⟨rfl, hlt⟩
  · refine (zipIdx_pairwise inputParts).imp ?_
    rintro ⟨dims, i⟩ ⟨dims', j⟩ hlt x hx y hy
    obtain ⟨_, _, rfl⟩ := List.mem_map.mp hx
    obtain ⟨_, _, rfl⟩ := List.mem_map.mp hy
    exact .inl hlt

variable {a b : Nat × Nat × Char}

theorem StrictlyBefore.ne (h : StrictlyBefore a b) : a ≠ b := by
  rintro rfl
  rcases h with h | ⟨_, h⟩ <;> exact absurd h (lt_irrefl _)

/-- The order of tuples is the lexicographic one. -/
theorem occursBefore_iff :
    AxesMapping.occursBefore a b = true ↔ StrictlyBefore a b ∨
      a.1 = b.1 ∧ a.2.1 = b.2.1 ∧ a.2.2 ≤ b.2.2 := by
  simp only [AxesMapping.occursBefore, StrictlyBefore, Bool.or_eq_true, Bool.and_eq_true,
    decide_eq_true_eq, beq_iff_eq]
  tauto

theorem occursBefore_antisymm (hab : AxesMapping.occursBefore a b = true)
    (hba : AxesMapping.occursBefore b a = true) : a = b := by
  rw [occursBefore_iff, StrictlyBefore] at hab hba
  have hfst : a.1 = b.1 := by omega
  have hsnd : a.2.1 = b.2.1 := by omega
  have hchar : a.2.2 = b.2.2 := Char.le_antisymm (by grind) (by grind)
  exact Prod.ext hfst (Prod.ext hsnd hchar)

theorem occursBefore_trans {c : Nat × Nat × Char} (hab : AxesMapping.occursBefore a b = true)
    (hbc : AxesMapping.occursBefore b c = true) : AxesMapping.occursBefore a c = true := by
  rw [occursBefore_iff, StrictlyBefore] at *
  have hchar : a.2.2 ≤ b.2.2 → b.2.2 ≤ c.2.2 → a.2.2 ≤ c.2.2 := Char.le_trans
  by_cases hlt : a.1 < c.1 ∨ a.1 = c.1 ∧ a.2.1 < c.2.1
  · exact .inl hlt
  · exact .inr ⟨by omega, by omega, hchar (by grind) (by grind)⟩

theorem occursBefore_total (a b : Nat × Nat × Char) :
    (AxesMapping.occursBefore a b || AxesMapping.occursBefore b a) = true := by
  rw [Bool.or_eq_true, occursBefore_iff, occursBefore_iff, StrictlyBefore, StrictlyBefore]
  have hchar : a.2.2 ≤ b.2.2 ∨ b.2.2 ≤ a.2.2 := Char.le_total _ _
  grind

variable {axes : List Axis}

/-- The inputs of an axis that is described. -/
theorem DescribesAxis.inputs_eq {axis : Axis}
    (h : DescribesAxis inputParts outputDims biasDims axis) (hne : inputParts ≠ []) :
    axis.inputs = inputParts.map (Dimension.inTerm · axis.repr) := by
  obtain ⟨dims, parts, rfl⟩ := List.exists_cons_of_ne_nil hne
  rw [Axis.inputs, h.lhsInput, h.rhsInputs]
  rfl

/-- The places of one axis. -/
theorem mem_occurrences {axis : Axis} (h : DescribesAxis inputParts outputDims biasDims axis)
    (hne : inputParts ≠ []) (hnodup : ∀ dims ∈ inputParts, dims.Nodup) {i pos : Nat} {c : Char} :
    (i, pos, c) ∈ AxesMapping.occurrences axis ↔ (i, pos, c) ∈ places inputParts ∧ c = axis.repr := by
  rw [mem_places, AxesMapping.occurrences, h.inputs_eq hne, List.mem_filterMap]
  simp only [Prod.exists, List.mem_zipIdx_iff_getElem?, List.getElem?_map, Option.map_eq_some_iff]
  constructor
  · rintro ⟨_, j, ⟨dims, hdims, rfl⟩, hplace⟩
    cases hdim : Dimension.inTerm dims axis.repr with
    | absent => simp [hdim] at hplace
    | present p =>
      obtain ⟨rfl, rfl, rfl⟩ : j = i ∧ p = pos ∧ axis.repr = c := by simpa [hdim] using hplace
      have hget := (Dimension.inTerm_eq_present
        (hnodup dims (List.mem_of_getElem? hdims))).mp hdim
      exact ⟨⟨dims, hdims, hget⟩, rfl⟩
  · rintro ⟨⟨dims, hdims, hget⟩, rfl⟩
    have hdim := (Dimension.inTerm_eq_present
      (hnodup dims (List.mem_of_getElem? hdims))).mpr hget
    exact ⟨_, i, ⟨dims, hdims, rfl⟩, by simp [hdim]⟩

theorem nodup_occurrences (axis : Axis) : (AxesMapping.occurrences axis).Nodup := by
  refine List.Pairwise.filterMap (R := fun a b : Dimension × Nat => a.2 < b.2) _ ?_
    (zipIdx_pairwise axis.inputs)
  rintro ⟨d, i⟩ ⟨d', j⟩ hlt x hx y hy
  cases d <;> cases d' <;> simp at hx hy
  subst hx hy
  simp only [ne_eq, Prod.mk.injEq, not_and]
  intro heq
  exact absurd hlt (by omega)

/-- The sorted places of all axes are the places of the inputs, one input after the other. -/
theorem mergeSort_occurrences (hne : inputParts ≠ []) (hnodup : ∀ dims ∈ inputParts, dims.Nodup)
    (haxes : ∀ axis ∈ axes, DescribesAxis inputParts outputDims biasDims axis)
    (hnames : (axes.map Axis.repr).Nodup)
    (hmem : ∀ c ∈ inputParts.flatten, c ∈ axes.map Axis.repr) :
    (axes.flatMap AxesMapping.occurrences).mergeSort AxesMapping.occursBefore =
      places inputParts := by
  have hmemIff : ∀ {i pos : Nat} {c : Char},
      (i, pos, c) ∈ axes.flatMap AxesMapping.occurrences ↔ (i, pos, c) ∈ places inputParts := by
    intro i pos c
    rw [List.mem_flatMap]
    constructor
    · rintro ⟨axis, haxis, hocc⟩
      exact ((mem_occurrences (haxes axis haxis) hne hnodup).mp hocc).1
    · intro hplace
      have hc : c ∈ inputParts.flatten := by
        rw [← map_places]
        exact List.mem_map_of_mem (f := fun tuple => tuple.2.2) hplace
      obtain ⟨axis, haxis, rfl⟩ := List.mem_map.mp (hmem c hc)
      exact ⟨axis, haxis, (mem_occurrences (haxes axis haxis) hne hnodup).mpr ⟨hplace, rfl⟩⟩
  have hnodupOcc : (axes.flatMap AxesMapping.occurrences).Nodup := by
    refine List.pairwise_flatMap.mpr ⟨fun axis _ => nodup_occurrences axis, ?_⟩
    refine (List.pairwise_map.mp hnames).imp_of_mem fun {a b} ha hb hrepr x hx y hy heq => hrepr ?_
    subst heq
    exact ((mem_occurrences (haxes a ha) hne hnodup).mp hx).2.symm.trans
      ((mem_occurrences (haxes b hb) hne hnodup).mp hy).2
  have hperm : (axes.flatMap AxesMapping.occurrences).Perm (places inputParts) :=
    (List.perm_ext_iff_of_nodup hnodupOcc (places_pairwise.imp StrictlyBefore.ne)).mpr
      fun _ => hmemIff
  have hsorted : ((axes.flatMap AxesMapping.occurrences).mergeSort
      AxesMapping.occursBefore).Pairwise fun a b => AxesMapping.occursBefore a b = true :=
    @List.pairwise_mergeSort _ AxesMapping.occursBefore (fun _ _ _ hab hbc =>
      occursBefore_trans hab hbc) occursBefore_total _
  have hplaces : (places inputParts).Pairwise fun a b => AxesMapping.occursBefore a b = true :=
    places_pairwise.imp fun h => occursBefore_iff.mpr (.inl h)
  exact List.Perm.eq_of_pairwise (fun _ _ _ _ => occursBefore_antisymm) hsorted hplaces
    ((List.mergeSort_perm _ _).trans hperm)

/-- The axes are in the order in which their names occur first. -/
theorem sort_pairwise (hne : inputParts ≠ []) (hnodup : ∀ dims ∈ inputParts, dims.Nodup)
    (haxes : ∀ axis ∈ axes, DescribesAxis inputParts outputDims biasDims axis)
    (hnames : (axes.map Axis.repr).Nodup)
    (hmem : ∀ c, c ∈ inputParts.flatten ↔ c ∈ axes.map Axis.repr) :
    (AxesMapping.sort axes).Pairwise fun a b =>
      inputParts.flatten.idxOf a.repr < inputParts.flatten.idxOf b.repr := by
  have hkey : ∀ axis : Axis, ((axes.flatMap AxesMapping.occurrences).mergeSort
      AxesMapping.occursBefore).findIdx (fun tuple => tuple.2.2 == axis.repr) =
        inputParts.flatten.idxOf axis.repr := by
    intro axis
    rw [mergeSort_occurrences hne hnodup haxes hnames fun c => (hmem c).mp, ← map_places,
      List.idxOf, List.findIdx_map]
    rfl
  have hperm : (AxesMapping.sort axes).Perm axes := List.mergeSort_perm _ _
  have hle : (AxesMapping.sort axes).Pairwise fun a b =>
      inputParts.flatten.idxOf a.repr ≤ inputParts.flatten.idxOf b.repr := by
    unfold AxesMapping.sort
    simp only [hkey]
    refine (List.pairwise_mergeSort (fun a b c hab hbc => ?_) (fun a b => ?_) axes).imp
      fun h => of_decide_eq_true h
    · exact decide_eq_true ((of_decide_eq_true hab).trans (of_decide_eq_true hbc))
    · rw [Bool.or_eq_true, decide_eq_true_iff, decide_eq_true_iff]
      exact Nat.le_total _ _
  have hne' : (AxesMapping.sort axes).Pairwise fun a b => a.repr ≠ b.repr :=
    List.pairwise_map.mp ((hperm.map Axis.repr).nodup_iff.mpr hnames)
  refine (hle.and hne').imp_of_mem fun {a b} ha _ h => Nat.lt_of_le_of_ne h.1 fun heq => h.2 ?_
  -- names at the same place are the same
  have hmemA := (hmem a.repr).mpr (List.mem_map_of_mem (hperm.mem_iff.mp ha))
  exact List.idxOf_inj hmemA |>.mp heq

end Order

/-! ## The accepted equations -/

/-- A term of a name, with white space only behind it. -/
def Term.Spelled (t : Term) (s : List Char) : Prop :=
  t.name ≠ [] ∧ ∃ behind, Blank behind ∧ t.Written behind s

variable {s : List Char}

theorem Term.Spelled.loose {t : Term} (h : t.Spelled s) : t.Loose s := by
  obtain ⟨_, behind, _, hwritten⟩ := h
  exact ⟨behind, hwritten⟩

section Readings

variable {R R' : Term → List Char → Prop} {allowed : List Char → Prop} {s : List Char}

theorem OutputTerm.Reads.imp (hR : ∀ t s, R t s → R' t s) {o : OutputTerm}
    (h : o.Reads R allowed s) : o.Reads R' allowed s := by
  refine ⟨h.name, fun hb => ⟨(h.plain hb).1, hR _ _ (h.plain hb).2⟩, fun b hb => ?_⟩
  obtain ⟨hname, hsub, front, back, hs, hplus, hterm, hbias⟩ := h.biased b hb
  exact ⟨hname, hsub, front, back, hs, hplus, hR _ _ hterm, hR _ _ hbias⟩

theorem EquationTerms.Reads.imp (hR : ∀ t s, R t s → R' t s) {e : EquationTerms}
    (h : e.Reads R allowed s) : e.Reads R' allowed s := by
  obtain ⟨left, rights, outs, hs, ⟨hat, hcolon, hlhs⟩, ⟨hrest, hrights, hrhs⟩, ⟨houts, hos⟩, hpair⟩ :=
    h.eq
  exact ⟨h.names, h.rhs_ne_nil, h.outputs_ne_nil, left, rights, outs, hs,
    ⟨hat, hcolon, hR _ _ hlhs⟩, ⟨hrest, hrights, hrhs.imp hR⟩,
    ⟨houts, hos.imp fun _ _ => OutputTerm.Reads.imp hR⟩, hpair⟩

end Readings

namespace EquationTerms

variable {e : EquationTerms} {s : List Char}

/-- The terms of an equation of the grammar. -/
structure Accepted (e : EquationTerms) (s : List Char) : Prop where
  reads : e.Reads Term.Spelled NotReserved s
  counts : e.rhs.length = e.outputs.length
  axesOccur : AxesOccur e.inputParts e.outputDims

/-- The axes of an input are different. -/
theorem Reads.nodup (h : e.Reads Term.Loose NotReserved s) : ∀ dims ∈ e.inputParts, dims.Nodup := by
  obtain ⟨left, rights, _, _, ⟨_, _, _, hlhs⟩, ⟨_, _, hrhs⟩, _⟩ := h.eq
  intro dims hdims
  rcases List.mem_cons.mp hdims with rfl | hdims
  · exact hlhs.dims_nodup
  · obtain ⟨t, ht, rfl⟩ := List.mem_map.mp hdims
    obtain ⟨j, hj, rfl⟩ := List.getElem_of_mem ht
    obtain ⟨_, hwritten⟩ := hrhs.get hj (hrhs.length_eq ▸ hj)
    exact hwritten.dims_nodup

theorem length_inputParts (hcount : e.rhs.length = e.outputs.length) :
    e.outputDims.length + 1 = e.inputParts.length := by
  simp [outputDims, inputParts, hcount]

end EquationTerms

/-- The code takes a term without a name, ignores what stands behind the closing parenthesis of a term,
    and does not compare the number of outputs with the number of right inputs. A string with none of
    this. -/
structure WithoutSlip (s : List Char) : Prop where
  spelled : ∀ e : EquationTerms, e.Reads Term.Loose NotReserved s → e.Reads Term.Spelled NotReserved s
  counts : ∀ e : EquationTerms, e.Reads Term.Loose NotReserved s → e.rhs.length = e.outputs.length

/-- The elements of a list, each once, in some order. -/
def IsHashOrder (hashOrder : List Char → List Char) : Prop :=
  ∀ cs, (hashOrder cs).Nodup ∧ ∀ c, c ∈ hashOrder cs ↔ c ∈ cs

section Accepted

variable {hashOrder : List Char → List Char} {e : EquationTerms} {s : List Char}

/-- What is left to do once the equation is read. -/
theorem fromString_eq (h : e.Reads Term.Loose NotReserved s) :
    AxesMapping.fromString hashOrder s = AxesMapping.fromTermsIn
      (hashOrder (e.inputParts ++ e.outputDims).flatten) e.inputParts e.outputDims e.biasDims := by
  unfold AxesMapping.fromString
  rw [parseEquation_eq_ok_iff.mpr ⟨e, rfl, h⟩]
  rfl

theorem fromString_isOk_iff (hhash : IsHashOrder hashOrder) (h : e.Reads Term.Loose NotReserved s)
    (hcount : e.rhs.length = e.outputs.length) :
    (∃ m, AxesMapping.fromString hashOrder s = .ok m) ↔ AxesOccur e.inputParts e.outputDims := by
  rw [fromString_eq h]
  exact fromTermsIn_isOk_iff (hhash _).2 (EquationTerms.length_inputParts hcount)

/-- An equation of the grammar is accepted, and its axes are in order. -/
theorem fromString_of_accepted (hhash : IsHashOrder hashOrder) (h : e.Accepted s) :
    ∃ m, AxesMapping.fromString hashOrder s = .ok m ∧
      Describes e.inputParts e.outputDims e.biasDims m ∧ m.axes.Pairwise fun a b =>
        e.inputParts.flatten.idxOf a.repr < e.inputParts.flatten.idxOf b.repr := by
  have hloose := h.reads.imp fun _ _ => Term.Spelled.loose
  have hcount := EquationTerms.length_inputParts h.counts
  obtain ⟨m, hm⟩ := (fromString_isOk_iff hhash hloose h.counts).mpr h.axesOccur
  refine ⟨m, hm, ?_⟩
  rw [fromString_eq hloose] at hm
  obtain ⟨hnodup, hnames⟩ := hhash (e.inputParts ++ e.outputDims).flatten
  have hdescribes := fromTermsIn_describes hnodup hnames hcount hm
  refine ⟨hdescribes, ?_⟩
  obtain ⟨axes, _, hsort⟩ := bind_eq_ok.mp hm
  obtain rfl := Except.ok.inj hsort
  have hperm : (AxesMapping.sort axes).Perm axes := List.mergeSort_perm _ _
  have haxes : ∀ axis ∈ axes, DescribesAxis e.inputParts e.outputDims e.biasDims axis :=
    fun axis haxis => hdescribes.axis axis (hperm.mem_iff.mpr haxis)
  have hdistinct : (axes.map Axis.repr).Nodup := (hperm.map _).nodup_iff.mp hdescribes.nodup
  refine sort_pairwise (List.cons_ne_nil _ _) hloose.nodup haxes hdistinct fun c => ?_
  rw [← (hperm.map Axis.repr).mem_iff, hdescribes.mem c, ← List.mem_flatten, mem_flatten_iff,
    List.mem_flatten]
  refine ⟨.inl, fun hc => hc.elim id fun hout => ?_⟩
  -- an axis of an output is one of an input
  rcases (h.axesOccur c).1 hout with hlhs | ⟨dims, hdims, hc⟩
  · exact ⟨_, List.mem_cons_self, hlhs⟩
  · exact ⟨dims, List.mem_cons_of_mem _ hdims, hc⟩

end Accepted

/-- The pieces that are read as terms. -/
theorem EquationTerms.Reads.pieces {R : Term → List Char → Prop} {allowed : List Char → Prop}
    {e : EquationTerms} {inputs outputs : List Char} (h : e.Reads R allowed s)
    (hsides : AxesMapping.sidesOf s = .ok (inputs, outputs)) :
    ∃ left rights, (inputs.splitOnP fun c => c == '@' || c == ':') = left :: rights ∧
      R e.lhs left ∧ List.Forall₂ R e.rhs rights ∧
      List.Forall₂ (OutputTerm.Reads R allowed) e.outputs (outputs.splitOn ':') := by
  obtain ⟨left, rights, outs, hs, ⟨hat, hcolon, hlhs⟩, ⟨hrest, hrightsColon, hrhs⟩,
    ⟨houtsColon, hos⟩, hleftPair, hrightPair⟩ := h.eq
  have hrightsNe : rights ≠ [] := by
    rintro rfl
    exact h.rhs_ne_nil (List.forall₂_nil_right_iff.mp hrhs)
  have houtsNe : outs ≠ [] := by
    rintro rfl
    exact h.outputs_ne_nil (List.forall₂_nil_right_iff.mp hos)
  obtain ⟨rfl, rfl⟩ := Prod.mk.inj (Except.ok.inj
    (hsides.symm.trans (sidesOf_eq_ok_iff.mpr ⟨hs, hleftPair, hrightPair⟩)))
  refine ⟨left, rights, ?_, hlhs, hrhs, ?_⟩
  · rw [splitInputs ⟨hat, hcolon⟩ hrest, List.splitOn_intercalate ':' hrightsColon hrightsNe]
  · rwa [List.splitOn_intercalate ':' houtsColon houtsNe]

/-- A term is read in one way. -/
theorem Term.Loose.unique {t t' : Term} (h : t.Loose s) (h' : t'.Loose s) :
    t.name = t'.name ∧ t.dims = t'.dims := by
  have hread : parseTerm 0 s = .ok (t.name, t.dims) := parseTerm_eq_ok_iff.mpr h
  have hread' : parseTerm 0 s = .ok (t'.name, t'.dims) := parseTerm_eq_ok_iff.mpr h'
  exact Prod.mk.inj (Except.ok.inj (hread.symm.trans hread'))

/-- A text that starts with a letter and ends with its last closing parenthesis. -/
theorem Term.Loose.spelled {t : Term} {c : Char} {rest : List Char} (h : t.Loose (c :: rest))
    (hupper : c.isUpper) (hlast : Pieces.lastIdxOf? (c :: rest) ')' = some rest.length) :
    t.Spelled (c :: rest) := by
  obtain ⟨behind, hwritten⟩ := h
  obtain ⟨before, after, inner, hs, hbefore, hafter, hinner⟩ := hwritten.eq
  refine ⟨fun hname => ?_, behind, ?_, hwritten⟩
  · -- the first character would be white space or the opening parenthesis
    have hblank : ∀ d ∈ before ++ t.name ++ after, isWhitespace d := by
      simpa [hname, Blank, or_imp, forall_and] using And.intro hbefore hafter
    cases hfront : before ++ t.name ++ after with
    | nil =>
      rw [hfront] at hs
      obtain rfl := (List.cons.inj hs).1
      cases hupper
    | cons d front =>
      rw [hfront] at hs hblank
      obtain rfl := (List.cons.inj hs).1
      exact not_isWhitespace_of_isUpper hupper (hblank c List.mem_cons_self)
  · have hidx := Pieces.lastIdxOf?_eq_some_iff.mpr ⟨_, behind, hs, hwritten.not_mem_behind, rfl⟩
    have hplace := Option.some.inj (hlast.symm.trans hidx)
    have hlength := congrArg List.length hs
    rw [List.length_append, List.length_cons, List.length_cons, ← hplace] at hlength
    obtain rfl : behind = [] := List.eq_nil_of_length_eq_zero (by omega)
    exact fun _ hc => nomatch hc

/-- An equation of two inputs and an output without a bias. -/
theorem reads_pair {R : Term → List Char → Prop} {allowed : List Char → Prop} {a b c : Term}
    {left right out : List Char} (ha : R a left) (hb : R b right) (hc : R c out)
    (hnames : allowed a.name ∧ allowed b.name ∧ allowed c.name)
    (hseparators : '@' ∉ left ∧ ':' ∉ left ∧ '@' ∉ right ∧ ':' ∉ right ∧ ':' ∉ out ∧ '+' ∉ out)
    (hpair : Pieces.NoPair '-' '>' (left ++ '@' :: right) ∧ Pieces.NoPair '-' '>' out) :
    EquationTerms.Reads R allowed ⟨a, [b], [⟨c, none⟩]⟩
      (left ++ '@' :: right ++ '-' :: '>' :: out) := by
  obtain ⟨hleftAt, hleftColon, hrightAt, hrightColon, houtColon, houtPlus⟩ := hseparators
  have hjoin : ∀ s : List Char, [':'].intercalate [s] = s := fun s => by simp [List.intercalate]
  refine ⟨⟨hnames.1, ?_⟩, List.cons_ne_nil _ _, List.cons_ne_nil _ _, left, [right], [out], ?_,
    ⟨hleftAt, hleftColon, ha⟩, ⟨?_, ?_, .cons hb .nil⟩, ⟨?_, .cons ?_ .nil⟩, ?_⟩
  · simpa using hnames.2.1
  · rw [hjoin, hjoin]
  · rwa [hjoin]
  · simpa using hrightColon
  · simpa using houtColon
  · exact ⟨hnames.2.2, fun _ => ⟨houtPlus, hc⟩, fun _ h => nomatch h⟩
  · rwa [hjoin, hjoin]

/-- A term without white space. -/
structure Term.Plain (t : Term) (s : List Char) : Prop where
  eq : s = t.name ++ '(' :: t.dims ++ [')']
  name_ne_nil : t.name ≠ []
  name_upper : ∀ c ∈ t.name, c.isUpper
  dims_ne_nil : t.dims ≠ []
  dims_lower : ∀ c ∈ t.dims, c.isLower
  dims_nodup : t.dims.Nodup

theorem not_isWhitespace_of_isLower {c : Char} (h : c.isLower) : ¬ isWhitespace c := by
  have hle : 97 ≤ c.toNat ∧ c.toNat ≤ 122 := by
    simpa [Char.isLower, UInt32.le_iff_toNat_le] using h
  simp [isWhitespace]
  omega

theorem Term.Plain.spelled {t : Term} (h : t.Plain s) : t.Spelled s := by
  have hblank : Blank [] := fun _ h => nomatch h
  refine ⟨h.name_ne_nil, [], hblank, ⟨[], [], t.dims, ?_, hblank, hblank, ?_⟩, h.name_upper,
    h.dims_ne_nil, h.dims_lower, h.dims_nodup, List.not_mem_nil⟩
  · rw [h.eq, List.nil_append, List.append_nil]
  · refine List.filter_eq_self.mpr fun c hc => ?_
    simpa using not_isWhitespace_of_isLower (h.dims_lower c hc)

/-- The terms of an equation without white space, of any names. -/
structure EquationTerms.Plain (e : EquationTerms) (s : List Char) : Prop where
  reads : e.Reads Term.Plain (fun _ => True) s
  counts : e.rhs.length = e.outputs.length
  axesOccur : AxesOccur e.inputParts e.outputDims

/-- The equation `left@B(i)->C(i)`. -/
def productWith (left : List Char) : List Char :=
  left ++ '@' :: ['B', '(', 'i', ')'] ++ '-' :: '>' :: ['C', '(', 'i', ')']

/-- `A(i)@B(i)->C(i)` -/
def productEquation : List Char := productWith ['A', '(', 'i', ')']

/-- The product of two vectors is read in one way. -/
theorem productEquation_reads {e : EquationTerms}
    (h : e.Reads Term.Loose NotReserved productEquation) :
    ∃ a b c, e = ⟨a, [b], [⟨c, none⟩]⟩ ∧ a.Loose ['A', '(', 'i', ')'] ∧
      b.Loose ['B', '(', 'i', ')'] ∧ c.Loose ['C', '(', 'i', ')'] ∧
      NotReserved a.name ∧ NotReserved b.name ∧ NotReserved c.name := by
  have hsides : AxesMapping.sidesOf productEquation =
      .ok (['A', '(', 'i', ')', '@', 'B', '(', 'i', ')'], ['C', '(', 'i', ')']) := rfl
  have houts : ['C', '(', 'i', ')'].splitOn ':' = [['C', '(', 'i', ')']] := rfl
  obtain ⟨left, rights, hinputs, hlhs, hrhs, hos⟩ := h.pieces hsides
  obtain ⟨rfl, rfl⟩ := List.cons.inj hinputs
  rw [houts] at hos
  obtain ⟨a, rhs, outputs⟩ := e
  cases hrhs with
  | @cons b _ rhs _ hb hrhs =>
    cases hrhs
    cases hos with
    | @cons o _ outputs _ ho hos =>
      cases hos
      obtain ⟨c, bias⟩ := o
      cases bias with
      | none =>
        exact ⟨a, b, c, rfl, hlhs, hb, (ho.plain rfl).2, h.names.1,
          h.names.2 b List.mem_cons_self, ho.name⟩
      | some bias =>
        obtain ⟨_, _, front, back, hs, _⟩ := ho.biased bias rfl
        have hplus : '+' ∈ ['C', '(', 'i', ')'] := hs ▸ by simp
        exact absurd hplus (by decide)

theorem productEquation_withoutSlip : WithoutSlip productEquation := by
  refine ⟨fun e he => ?_, fun e he => ?_⟩
  · obtain ⟨a, b, c, rfl, ha, hb, hc, hnames⟩ := productEquation_reads he
    exact reads_pair (ha.spelled rfl rfl) (hb.spelled rfl rfl) (hc.spelled rfl rfl) hnames
      (by decide) (by decide)
  · obtain ⟨a, b, c, rfl, _⟩ := productEquation_reads he
    rfl

/-- The terms of the product, for a left input of the given name. -/
def productTerms (name : List Char) : EquationTerms :=
  ⟨⟨name, ['i']⟩, [⟨['B'], ['i']⟩], [⟨⟨['C'], ['i']⟩, none⟩]⟩

theorem productTerms_axesOccur (name : List Char) :
    AxesOccur (productTerms name).inputParts (productTerms name).outputDims := by
  intro c
  simp [productTerms, EquationTerms.inputParts, EquationTerms.outputDims]

/-- A term of one axis. -/
theorem plain_name {name : List Char} (hne : name ≠ []) (h : ∀ c ∈ name, c.isUpper) :
    Term.Plain ⟨name, ['i']⟩ (name ++ ['(', 'i', ')']) :=
  ⟨by simp, hne, h, List.cons_ne_nil _ _, by simp [Char.isLower], by simp⟩

theorem plain_letter (c : Char) (h : c.isUpper) : Term.Plain ⟨[c], ['i']⟩ [c, '(', 'i', ')'] :=
  plain_name (List.cons_ne_nil _ _) (by simpa using h)

theorem plain_biasName : Term.Plain ⟨biasName, ['i']⟩ ['B', 'I', 'A', 'S', '(', 'i', ')'] :=
  plain_name (List.cons_ne_nil _ _) (by simp [biasName, Char.isUpper])

/-- The product of two vectors is accepted. -/
theorem productEquation_accepted : (productTerms ['A']).Accepted productEquation := by
  refine ⟨?_, rfl, productTerms_axesOccur _⟩
  exact reads_pair (plain_letter 'A' rfl).spelled (plain_letter 'B' rfl).spelled
    (plain_letter 'C' rfl).spelled (by decide) (by decide) (by decide)

theorem isHashOrder_dedup : IsHashOrder List.dedup :=
  fun cs => ⟨cs.nodup_dedup, fun _ => List.mem_dedup⟩

/-- `BIAS(i)@B(i)->C(i)` -/
def biasEquation : List Char := productWith ['B', 'I', 'A', 'S', '(', 'i', ')']

/-- ` A(i)@B(i)->C(i)` -/
def spacedEquation : List Char := productWith [' ', 'A', '(', 'i', ')']

/-- The name of a bias is not taken for an input. -/
theorem biasEquation_not_ok (m : AxesMapping) :
    AxesMapping.fromString List.dedup biasEquation ≠ .ok m := by
  intro hm
  obtain ⟨dims, hdims, _⟩ := bind_eq_ok.mp hm
  obtain ⟨e, _, he⟩ := parseEquation_eq_ok_iff.mp hdims
  have hsides : AxesMapping.sidesOf biasEquation =
      .ok (['B', 'I', 'A', 'S', '(', 'i', ')', '@', 'B', '(', 'i', ')'], ['C', '(', 'i', ')']) := rfl
  obtain ⟨left, rights, hinputs, hlhs, _⟩ := he.pieces hsides
  obtain ⟨rfl, rfl⟩ := List.cons.inj hinputs
  exact he.names.1 (hlhs.unique plain_biasName.spelled.loose).1

theorem spacedEquation_not_plain (e : EquationTerms) : ¬ e.Plain spacedEquation := by
  intro h
  have hsides : AxesMapping.sidesOf spacedEquation =
      .ok ([' ', 'A', '(', 'i', ')', '@', 'B', '(', 'i', ')'], ['C', '(', 'i', ')']) := rfl
  obtain ⟨left, rights, hinputs, hlhs, _⟩ := h.reads.pieces hsides
  obtain ⟨rfl, rfl⟩ := List.cons.inj hinputs
  obtain ⟨c, name, hname⟩ := List.exists_cons_of_ne_nil hlhs.name_ne_nil
  have heq := hlhs.eq
  rw [hname] at heq
  obtain rfl := (List.cons.inj heq).1
  exact absurd (hlhs.name_upper ' ' (hname ▸ List.mem_cons_self)) (by decide)

end DeepProve
