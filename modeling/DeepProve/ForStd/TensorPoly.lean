import DeepProve.ForStd.Assignments
import DeepProve.ForStd.Multilinear

/-!
# Polynomials of padded tensors

A tensor is a function of its indices. It is padded with zeros so that all sizes are powers of two,
and laid out with the last axis running fastest; so the coordinates of the last axis are the first of
a point. The value at a point is a sum over the indices of the tensor itself, each entry weighted
along every axis.
-/

namespace Multilinear

open Assignments

variable {F : Type*} [CommRing F]

/-- The number of entries of a padded tensor. -/
def paddedSize (sizes : List Nat) : Nat := (sizes.map fun n => 2 ^ Nat.clog 2 n).prod

/-- The table of a padded tensor. -/
def paddedTable : List Nat → (List Nat → F) → Nat → F
  | [], tensor, _ => tensor []
  | n :: sizes, tensor, k =>
    if k / paddedSize sizes < n then
      paddedTable sizes (fun index => tensor (k / paddedSize sizes :: index)) (k % paddedSize sizes)
    else
      0

/-- The slices of a point, one for each axis, have the lengths of the axes. -/
def Fits (sizes : List Nat) (slices : List (List F)) : Prop :=
  slices.map List.length = sizes.map (Nat.clog 2)

/-- The value at a point, given by its slices. -/
def tensorEval : List Nat → (List Nat → F) → List (List F) → F
  | [], tensor, _ => tensor []
  | _ :: _, _, [] => 0
  | n :: sizes, tensor, slice :: slices =>
    ∑ i ∈ Finset.range n, eqWeight slice i * tensorEval sizes (fun index => tensor (i :: index)) slices

theorem paddedSize_cons (n : Nat) (sizes : List Nat) :
    paddedSize (n :: sizes) = 2 ^ Nat.clog 2 n * paddedSize sizes := rfl

omit [CommRing F] in
/-- The coordinates of all slices are those of the padded tensor. -/
theorem two_pow_length_flatten {sizes : List Nat} {slices : List (List F)} (h : Fits sizes slices) :
    2 ^ slices.reverse.flatten.length = paddedSize sizes := by
  unfold Fits at h
  induction sizes generalizing slices with
  | nil =>
    obtain rfl := List.map_eq_nil_iff.mp h
    rfl
  | cons n sizes ih =>
    cases slices with
    | nil => cases h
    | cons slice slices =>
      obtain ⟨hslice, hslices⟩ := List.cons.inj h
      rw [List.reverse_cons, List.flatten_append, List.length_append, List.flatten_singleton, pow_add,
        ih hslices, hslice, paddedSize_cons, mul_comm]

/-- The value of a padded tensor at a point. -/
theorem eval_paddedTable {sizes : List Nat} {slices : List (List F)} (h : Fits sizes slices)
    (tensor : List Nat → F) :
    eval (paddedTable sizes tensor) slices.reverse.flatten = tensorEval sizes tensor slices := by
  induction sizes generalizing slices tensor with
  | nil =>
    obtain rfl := List.map_eq_nil_iff.mp h
    simp [paddedTable, tensorEval]
  | cons n sizes ih =>
    cases slices with
    | nil => cases h
    | cons slice slices =>
      obtain ⟨hslice, hslices⟩ := List.cons.inj h
      have hblock := two_pow_length_flatten hslices
      have hn : n ≤ 2 ^ slice.length := by
        rw [hslice]
        exact Nat.le_pow_clog Nat.one_lt_two n
      rw [List.reverse_cons, List.flatten_append, List.flatten_singleton, eval_append_of_lt hn]
      · rw [tensorEval]
        refine Finset.sum_congr rfl fun i hi => congrArg (eqWeight slice i * ·) ?_
        rw [← ih hslices]
        apply eval_congr
        intro k hk
        rw [hblock] at hk ⊢
        have hpos : 0 < paddedSize sizes := Nat.zero_lt_of_lt hk
        have hdiv : (i * paddedSize sizes + k) / paddedSize sizes = i := by
          rw [Nat.mul_comm, Nat.mul_add_div hpos, Nat.div_eq_of_lt hk, Nat.add_zero]
        have hmod : (i * paddedSize sizes + k) % paddedSize sizes = k := by
          rw [Nat.mul_comm, Nat.mul_add_mod, Nat.mod_eq_of_lt hk]
        rw [paddedTable, hdiv, hmod, if_pos (Finset.mem_range.mp hi)]
      · intro k hk
        rw [hblock] at hk
        rw [paddedTable, if_neg (Nat.not_lt.mpr hk)]

section Named

variable {α : Type*}

/-- The weight of an assignment along the given axes. -/
def weight (names : List α) (point : α → List F) (σ : α → Nat) : F :=
  (names.map fun c => eqWeight (point c) (σ c)).prod

@[simp] theorem weight_nil (point : α → List F) (σ : α → Nat) : weight [] point σ = 1 := rfl

theorem weight_cons (c : α) (names : List α) (point : α → List F) (σ : α → Nat) :
    weight (c :: names) point σ = eqWeight (point c) (σ c) * weight names point σ := rfl

theorem weight_append (names names' : List α) (point : α → List F) (σ : α → Nat) :
    weight (names ++ names') point σ = weight names point σ * weight names' point σ := by
  rw [weight, List.map_append, List.prod_append]
  rfl

variable {names : List α}

theorem weight_perm {names' : List α} (h : names.Perm names') (point : α → List F) (σ : α → Nat) :
    weight names point σ = weight names' point σ :=
  (h.map _).prod_eq

theorem weight_congr {point point' : α → List F} {σ σ' : α → Nat}
    (h : ∀ c ∈ names, point c = point' c ∧ σ c = σ' c) :
    weight names point σ = weight names point' σ' := by
  unfold weight
  congr 1
  apply List.map_congr_left
  intro c hc
  rw [(h c hc).1, (h c hc).2]

/-- The value at a point as a sum over the assignments to the axes of the tensor. -/
theorem tensorEval_eq_sumOver [DecidableEq α] (hnodup : names.Nodup) {sizes : List Nat}
    (hlength : names.length = sizes.length) (tensor : List Nat → F) (point : α → List F) :
    tensorEval sizes tensor (names.map point) =
      sumOver (names.zip sizes) fun σ => tensor (names.map σ) * weight names point σ := by
  induction names generalizing sizes tensor with
  | nil =>
    obtain rfl := List.length_eq_zero_iff.mp hlength.symm
    simp [tensorEval]
  | cons c names ih =>
    cases sizes with
    | nil => cases hlength
    | cons n sizes =>
      rw [List.nodup_cons] at hnodup
      rw [List.map_cons, tensorEval, List.zip_cons_cons, sumOver_cons]
      refine Finset.sum_congr rfl fun i _ => ?_
      rw [ih hnodup.2 (Nat.succ.inj hlength), mul_sumOver]
      refine sumOver_congr fun σ _ => ?_
      -- the index of the first axis is not one of the others
      have hother : ∀ b ∈ names, Function.update σ c i b = σ b := by
        intro b hb
        have hne : b ≠ c := fun heq => hnodup.1 (heq ▸ hb)
        exact Function.update_of_ne hne _ _
      rw [List.map_cons, Function.update_self, List.map_congr_left hother, weight_cons,
        Function.update_self, weight_congr fun b hb => ⟨rfl, hother b hb⟩]
      ring

/-! ## Slices -/

/-- Axes with their sizes. -/
def axesOf (size : α → Nat) (names : List α) : List (α × Nat) := names.map fun c => (c, size c)

@[simp] theorem axesOf_map_fst (size : α → Nat) (names : List α) :
    (axesOf size names).map Prod.fst = names := by
  unfold axesOf
  rw [List.map_map]
  exact List.map_id names

theorem zip_map_eq_axesOf (size : α → Nat) (names : List α) :
    names.zip (names.map size) = axesOf size names := by
  have hzip := List.zip_map' (f := id) (g := size) (l := names)
  rwa [List.map_id] at hzip

variable [DecidableEq α]

/-- The value of a slice at a point: the selected axes are at the indices of `σ`. -/
def sliceValue (size : α → Nat) (names : List α) (selected : α → Bool) (tensor : List Nat → F)
    (point : α → List F) (σ : α → Nat) : F :=
  sumOver (axesOf size (names.filter fun c => !selected c)) fun τ =>
    tensor (names.map (override (names.filter selected) σ τ)) *
      weight (names.filter fun c => !selected c) point τ

/-- The value at a point is the weighted sum of those of the slices. -/
theorem tensorEval_eq_sum_slices (hnodup : names.Nodup) (size : α → Nat) (selected : α → Bool)
    (tensor : List Nat → F) (point : α → List F) :
    tensorEval (names.map size) tensor (names.map point) =
      sumOver (axesOf size (names.filter selected)) fun σ =>
        weight (names.filter selected) point σ *
          sliceValue size names selected tensor point σ := by
  have hperm : (names.filter selected ++ names.filter fun c => !selected c).Perm names :=
    List.filter_append_perm selected names
  have haxes : (axesOf size names).Perm (axesOf size (names.filter selected) ++
      axesOf size (names.filter fun c => !selected c)) := by
    unfold axesOf
    rw [← List.map_append]
    exact (hperm.map _).symm
  have hlength : names.length = (names.map size).length := by rw [List.length_map]
  rw [tensorEval_eq_sumOver hnodup hlength, zip_map_eq_axesOf,
    sumOver_perm haxes (by rwa [axesOf_map_fst]), sumOver_append, axesOf_map_fst]
  refine sumOver_congr fun σ _ => ?_
  rw [sliceValue, mul_sumOver]
  refine sumOver_congr fun τ _ => ?_
  have hselected : ∀ c ∈ names.filter selected,
      point c = point c ∧ override (names.filter selected) σ τ c = σ c :=
    fun c hc => ⟨rfl, if_pos hc⟩
  have hother : ∀ c ∈ names.filter fun c => !selected c,
      point c = point c ∧ override (names.filter selected) σ τ c = τ c := by
    intro c hc
    have hnot : c ∉ names.filter selected := by
      intro hmem
      have hc := (List.mem_filter.mp hc).2
      rw [(List.mem_filter.mp hmem).2] at hc
      cases hc
    exact ⟨rfl, if_neg hnot⟩
  rw [← weight_perm hperm, weight_append, weight_congr hselected, weight_congr hother]
  ring

/-! ## Broadcasting -/

/-- The weights of all assignments add up to the product over the axes. -/
theorem sumOver_weight (size : α → Nat) (hnodup : names.Nodup) (point : α → List F) :
    sumOver (axesOf size names) (weight names point) =
      (names.map fun c => ltWeight (point c) (size c)).prod := by
  induction names with
  | nil => exact sumOver_nil _
  | cons c names ih =>
    rw [List.nodup_cons] at hnodup
    rw [axesOf, List.map_cons, sumOver_cons, List.map_cons, List.prod_cons, ← ih hnodup.2, ltWeight,
      Finset.sum_mul]
    refine Finset.sum_congr rfl fun i _ => ?_
    rw [mul_sumOver]
    refine sumOver_congr fun σ _ => ?_
    -- the index of the first axis is not one of the others
    have hother : ∀ b ∈ names, point b = point b ∧ Function.update σ c i b = σ b := by
      intro b hb
      have hne : b ≠ c := fun heq => hnodup.1 (heq ▸ hb)
      exact ⟨rfl, Function.update_of_ne hne _ _⟩
    rw [weight_cons, Function.update_self, weight_congr hother]

/-- The tensor along all axes whose entries are those of a tensor along some of them. -/
def broadcast (names axes : List α) (tensor : List Nat → F) (index : List Nat) : F :=
  tensor (axes.map fun c => index.getD (names.idxOf c) 0)

omit [CommRing F] in
theorem broadcast_map {axes : List α} (hsub : ∀ c ∈ axes, c ∈ names) (tensor : List Nat → F)
    (σ : α → Nat) : broadcast names axes tensor (names.map σ) = tensor (axes.map σ) := by
  unfold broadcast
  congr 1
  apply List.map_congr_left
  intro c hc
  rw [List.getD_eq_getElem?_getD, List.getElem?_map, List.getElem?_idxOf (hsub c hc)]
  rfl

/-- The value of a broadcast tensor: each axis that is new compares its coordinates with its size. -/
theorem tensorEval_broadcast {axes : List α} (hnames : names.Nodup) (haxes : axes.Nodup)
    (hsub : ∀ c ∈ axes, c ∈ names) (size : α → Nat) (tensor : List Nat → F) (point : α → List F) :
    tensorEval (names.map size) (broadcast names axes tensor) (names.map point) =
      tensorEval (axes.map size) tensor (axes.map point) *
        ((names.filter (· ∉ axes)).map fun c => ltWeight (point c) (size c)).prod := by
  generalize hnew : names.filter (· ∉ axes) = new
  have hnodup : new.Nodup := hnew ▸ hnames.filter _
  have hdisjoint : ∀ c ∈ new, c ∉ axes := by
    intro c hc
    rw [← hnew, List.mem_filter] at hc
    exact of_decide_eq_true hc.2
  have hperm : names.Perm (axes ++ new) := by
    refine (List.perm_ext_iff_of_nodup hnames ?_).mpr fun c => ?_
    · exact List.nodup_append.mpr
        ⟨haxes, hnodup, fun a ha b hb heq => hdisjoint b hb (heq ▸ ha)⟩
    · rw [← hnew, List.mem_append, List.mem_filter, decide_eq_true_iff]
      have := hsub c
      tauto
  have hall : (axesOf size names).Perm (axesOf size axes ++ axesOf size new) := by
    unfold axesOf
    rw [← List.map_append]
    exact hperm.map _
  have hlength : ∀ l : List α, l.length = (l.map size).length := fun l => (List.length_map _).symm
  rw [tensorEval_eq_sumOver hnames (hlength _), tensorEval_eq_sumOver haxes (hlength _),
    zip_map_eq_axesOf, zip_map_eq_axesOf, sumOver_perm hall (by rwa [axesOf_map_fst]), sumOver_append,
    axesOf_map_fst, ← sumOver_weight size hnodup, sumOver_mul]
  refine sumOver_congr fun σ _ => ?_
  rw [mul_sumOver]
  refine sumOver_congr fun τ _ => ?_
  have hold : ∀ c ∈ axes, point c = point c ∧ override axes σ τ c = σ c :=
    fun c hc => ⟨rfl, if_pos hc⟩
  have hrest : ∀ c ∈ new, point c = point c ∧ override axes σ τ c = τ c :=
    fun c hc => ⟨rfl, if_neg (hdisjoint c hc)⟩
  have hindex : axes.map (override axes σ τ) = axes.map σ :=
    List.map_congr_left fun c hc => (hold c hc).2
  rw [broadcast_map hsub, hindex, weight_perm hperm, weight_append, weight_congr hold,
    weight_congr hrest, mul_assoc]

end Named

end Multilinear
