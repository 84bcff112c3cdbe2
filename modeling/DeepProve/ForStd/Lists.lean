import Mathlib

/-!
# Lists

Facts about lists that are walked in step, about lists of blocks of the same length, and about
strictly increasing lists.
-/

namespace List

variable {α β : Type} {l : List α}

theorem exists_of_forall₂_left {R : α → β → Prop} {as : List α} {bs : List β} (h : Forall₂ R as bs)
    {a : α} (ha : a ∈ as) : ∃ b ∈ bs, R a b := by
  induction h with
  | nil => cases ha
  | cons hab _ ih =>
    rcases mem_cons.mp ha with rfl | ha
    · exact ⟨_, mem_cons_self, hab⟩
    · obtain ⟨b, hb, hab⟩ := ih ha
      exact ⟨b, mem_cons_of_mem _ hb, hab⟩

theorem getElem?_of_forall₂ {R : α → β → Prop} {r : List β} (h : Forall₂ R l r) {i : Nat} {a : α}
    {b : β} (ha : l[i]? = some a) (hb : r[i]? = some b) :
    R a b := by
  induction h generalizing i with
  | nil => cases ha
  | cons hab _ ih =>
    cases i with
    | zero =>
      obtain rfl := Option.some.inj ha
      obtain rfl := Option.some.inj hb
      exact hab
    | succ i => exact ih ha hb

/-- Rows of equal length, one after the other. -/
theorem flatMap_range_map_range (f : Nat → Nat → α) (rows len : Nat) :
    (range rows).flatMap (fun r => (range len).map (f r)) =
      (range (rows * len)).map fun i => f (i / len) (i % len) := by
  induction rows with
  | zero => simp
  | succ rows ih =>
    rw [range_succ, flatMap_append, ih, flatMap_singleton, Nat.succ_mul,
      range_add, map_append, map_map]
    congr 1
    apply map_congr_left
    intro c hc
    have hc := mem_range.mp hc
    rw [Function.comp_apply, Nat.mul_comm rows, Nat.mul_add_div (by omega), Nat.div_eq_of_lt hc,
      Nat.mul_add_mod, Nat.mod_eq_of_lt hc, Nat.add_zero]

/-- A block of a list of blocks. -/
theorem take_drop_flatMap {f : α → List β} {c j : Nat} (hlength : ∀ a ∈ l, (f a).length = c)
    (hj : j < l.length) :
    ((l.flatMap f).drop (j * c)).take c = f l[j] := by
  induction l generalizing j with
  | nil => cases hj
  | cons a l ih =>
    obtain ⟨ha, hl⟩ := forall_mem_cons.mp hlength
    rw [flatMap_cons]
    cases j with
    | zero => rw [Nat.zero_mul, drop_zero, ← ha, take_left, getElem_cons_zero]
    | succ j =>
      rw [Nat.succ_mul, Nat.add_comm, ← drop_drop, ← ha, drop_left, ha,
        ih hl (Nat.lt_of_succ_lt_succ hj), getElem_cons_succ]

/-- A list beside its image. -/
theorem zip_map_self (f : α → β) (l : List α) :
    l.zip (l.map f) = l.map fun a => (a, f a) := by
  induction l with
  | nil => rfl
  | cons a l ih => rw [map_cons, zip_cons_cons, ih, map_cons]

theorem map_fst_zip_sublist (l : List α) (r : List β) :
    ((l.zip r).map Prod.fst).Sublist l := by
  induction l generalizing r with
  | nil => exact Sublist.refl _
  | cons a l ih =>
    cases r with
    | nil => exact nil_sublist _
    | cons b r => exact (ih r).cons_cons a

/-- A function that is defined on all of a list. -/
theorem map_some_filterMap {f : α → Option β} (h : ∀ a ∈ l, ∃ b, f a = some b) :
    (l.filterMap f).map some = l.map f := by
  induction l with
  | nil => rfl
  | cons a l ih =>
    obtain ⟨⟨b, hb⟩, hl⟩ := forall_mem_cons.mp h
    rw [filterMap_cons, hb, map_cons, map_cons, hb, ih hl]

theorem length_filterMap_of_forall {f : α → Option β} (h : ∀ a ∈ l, ∃ b, f a = some b) :
    (l.filterMap f).length = l.length := by
  have hmap := congrArg length (map_some_filterMap h)
  rwa [length_map, length_map] at hmap

section Sorted

variable {α : Type} [LinearOrder α]

theorem mem_destutter_ne {l : List α} {a : α} : a ∈ l.destutter (· ≠ ·) ↔ a ∈ l := by
  refine ⟨fun h => (destutter_sublist _ l).subset h, fun h => ?_⟩
  have hgen : ∀ (l : List α) (b : α), a ∈ b :: l → a ∈ l.destutter' (· ≠ ·) b := by
    intro l
    induction l with
    | nil => exact fun b h => h
    | cons c l ih =>
      intro b h
      by_cases hbc : b = c
      · rw [destutter'_cons_neg _ (not_not.mpr hbc)]
        apply ih
        rcases mem_cons.mp h with rfl | h
        · exact mem_cons_self
        · rwa [hbc]
      · rw [destutter'_cons_pos _ hbc]
        rcases mem_cons.mp h with rfl | h
        · exact mem_cons_self
        · exact mem_cons_of_mem _ (ih c h)
  cases l with
  | nil => cases h
  | cons b l => exact hgen l b h

/-- A sorted list without its repetitions. -/
theorem pairwise_lt_destutter_ne {l : List α} (h : l.Pairwise (· ≤ ·)) :
    (l.destutter (· ≠ ·)).Pairwise (· < ·) := by
  have hle : (l.destutter (· ≠ ·)).Pairwise (· ≤ ·) := h.sublist (destutter_sublist _ l)
  have hne := isChain_destutter (· ≠ ·) l
  rw [← isChain_iff_pairwise, isChain_iff_getElem] at hle ⊢
  rw [isChain_iff_getElem] at hne
  exact fun i hi => lt_of_le_of_ne (hle i hi) (hne i hi)

/-- In a strictly increasing list an element stands behind the smaller ones. -/
theorem countP_lt_eq_of_getElem? {l : List α} (h : l.Pairwise (· < ·)) {i : Nat} {a : α}
    (ha : l[i]? = some a) : l.countP (· < a) = i := by
  induction l generalizing i with
  | nil => cases ha
  | cons b l ih =>
    obtain ⟨hb, hl⟩ := pairwise_cons.mp h
    cases i with
    | zero =>
      obtain rfl := Option.some.inj ha
      rw [countP_eq_zero]
      intro c hc
      rcases mem_cons.mp hc with rfl | hc
      · simp
      · simpa using le_of_lt (hb c hc)
    | succ i =>
      have hlt : b < a := hb a (mem_of_getElem? ha)
      rw [countP_cons_of_pos (by simpa using hlt), ih hl ha]

end Sorted

/-- A list of numbers without repetitions has all numbers below `n` exactly if `n` of its entries
    are below `n`. -/
theorem countP_lt_eq_iff {l : List Nat} (h : l.Nodup) {n : Nat} :
    l.countP (· < n) = n ↔ ∀ m < n, m ∈ l := by
  have hsub : l.filter (· < n) ⊆ range n := by
    intro m hm
    simpa using (mem_filter.mp hm).2
  have hsubperm : (l.filter (· < n)).Subperm (range n) := (h.filter _).subperm hsub
  rw [countP_eq_length_filter]
  constructor
  · intro hlength m hm
    have hperm := hsubperm.perm_of_length_le (by rw [hlength, length_range])
    exact (mem_filter.mp (hperm.mem_iff.mpr (mem_range.mpr hm))).1
  · intro hall
    have hle : (range n).length ≤ (l.filter (· < n)).length := by
      apply (nodup_range.subperm _).length_le
      intro m hm
      have hm := mem_range.mp hm
      exact mem_filter.mpr ⟨hall m hm, by simpa using hm⟩
    rw [length_range] at hle
    have hge := hsubperm.length_le
    rw [length_range] at hge
    omega

theorem countP_lt_le {l : List Nat} (h : l.Nodup) (n : Nat) : l.countP (· < n) ≤ n := by
  have hsub : l.filter (· < n) ⊆ range n := by
    intro m hm
    simpa using (mem_filter.mp hm).2
  have hle := ((h.filter _).subperm hsub).length_le
  rwa [← countP_eq_length_filter, length_range] at hle

/-- What the entries that satisfy one of two exclusive conditions contribute. -/
theorem count_flatMap_filter_or [BEq β] {p q : α → Bool} {f : α → List β}
    (hpq : ∀ a ∈ l, p a = true → q a = false) (b : β) :
    ((l.filter fun a => p a || q a).flatMap f).count b =
      ((l.filter p).flatMap f).count b + ((l.filter q).flatMap f).count b := by
  induction l with
  | nil => simp
  | cons a l ih =>
    obtain ⟨ha, hl⟩ := forall_mem_cons.mp hpq
    have ih := ih hl
    cases hp : p a with
    | true =>
      have hq := ha hp
      simp only [filter_cons, hp, hq, Bool.true_or, if_true, flatMap_cons, count_append, ih,
        Bool.false_eq_true, if_false]
      omega
    | false =>
      cases hq : q a with
      | true =>
        simp only [filter_cons, hp, hq, Bool.or_true, if_true, flatMap_cons, count_append, ih,
          Bool.false_eq_true, if_false]
        omega
      | false =>
        simp only [filter_cons, hp, hq, Bool.or_false, Bool.false_eq_true, if_false, ih]

/-- The entry that is erased, and what is left. -/
theorem perm_cons_eraseIdx {i : Nat} {a : α} (h : l[i]? = some a) :
    l.Perm (a :: l.eraseIdx i) := by
  obtain ⟨hi, rfl⟩ := getElem?_eq_some_iff.mp h
  exact (getElem_cons_eraseIdx_perm hi).symm

/-! ## Loops that agree on the entries of a list -/

section Monadic

variable {m : Type → Type} [Monad m] {α β : Type} {l : List α}

theorem foldlM_congr_of_mem {f g : β → α → m β} (h : ∀ a ∈ l, ∀ b, f b a = g b a) (b : β) :
    l.foldlM f b = l.foldlM g b := by
  induction l generalizing b with
  | nil => rfl
  | cons a l ih =>
    obtain ⟨ha, hl⟩ := forall_mem_cons.mp h
    rw [foldlM_cons, foldlM_cons, ha b]
    exact congrArg (g b a >>= ·) (funext fun b' => ih hl b')

theorem mapM_congr_of_mem [LawfulMonad m] {f g : α → m β} (h : ∀ a ∈ l, f a = g a) :
    l.mapM f = l.mapM g := by
  induction l with
  | nil => rfl
  | cons a l ih =>
    obtain ⟨ha, hl⟩ := forall_mem_cons.mp h
    rw [mapM_cons, mapM_cons, ha, ih hl]

end Monadic

end List
