import DeepProve.ForStd.ExtTreeMap

/-!
# Counting

How often each element of a list is there, as a map from elements to counts, and the
map that two such maps are added up to. A map that covers a finite set and increases no
weight keeps the weights, since their sum does not change.
-/

namespace Std.ExtTreeMap

variable {α : Type*} {cmp : α → α → Ordering} [TransCmp cmp]

/-- `*self.entry(key).or_default() += n`. -/
def addCount (self : ExtTreeMap α Nat cmp) (key : α) (n : Nat) : ExtTreeMap α Nat cmp :=
  self.insert key ((self[key]?).getD 0 + n)

/-- How often each element of a list is there. -/
def counts (l : List α) : ExtTreeMap α Nat cmp :=
  l.foldl (fun m v => m.addCount v 1) ∅

/-- The counts of another map are added. -/
def addCounts (self other : ExtTreeMap α Nat cmp) : ExtTreeMap α Nat cmp :=
  other.toList.foldl (fun m (key, n) => m.addCount key n) self

variable [LawfulEqCmp cmp] [DecidableEq α]

theorem getElem?_addCount (m : ExtTreeMap α Nat cmp) (key k : α) (n : Nat) :
    (m.addCount key n)[k]? = if key = k then some ((m[k]?).getD 0 + n) else m[k]? := by
  rw [addCount, getElem?_insert]
  by_cases hkey : key = k
  · subst hkey
    simp
  · simp [hkey]

theorem getElem?_foldl_addCount (entries : List (α × Nat)) (m : ExtTreeMap α Nat cmp) (k : α) :
    (entries.foldl (fun m (key, n) => m.addCount key n) m)[k]? =
      if k ∈ entries.map Prod.fst then
        some ((m[k]?).getD 0 + ((entries.filter (·.1 = k)).map Prod.snd).sum)
      else m[k]? := by
  induction entries generalizing m with
  | nil => simp
  | cons entry entries ih =>
    obtain ⟨key, n⟩ := entry
    rw [List.foldl_cons, ih, getElem?_addCount]
    by_cases hkey : key = k
    · subst hkey
      by_cases hrest : key ∈ entries.map Prod.fst
      · simp [hrest, Nat.add_assoc]
      · have hnone : entries.filter (·.1 = key) = [] := by
          rw [List.filter_eq_nil_iff]
          intro e he
          simp only [decide_eq_true_eq]
          exact fun heq => hrest (List.mem_map.mpr ⟨e, he, heq⟩)
        simp [hrest, hnone]
    · have hmem : k ∈ ((key, n) :: entries).map Prod.fst ↔ k ∈ entries.map Prod.fst := by
        simp [Ne.symm hkey]
      simp only [hmem, if_neg hkey, List.filter_cons, decide_eq_true_eq]

/-- An element is counted as often as it is there. -/
theorem getElem?_counts (l : List α) (k : α) :
    (counts l : ExtTreeMap α Nat cmp)[k]? = if k ∈ l then some (l.count k) else none := by
  have hsum : (((l.map fun v => (v, 1)).filter (·.1 = k)).map Prod.snd).sum = l.count k := by
    induction l with
    | nil => rfl
    | cons v l ih =>
      rw [List.map_cons, List.filter_cons, List.count_cons]
      by_cases hv : v = k
      · simp [hv, ih, Nat.add_comm]
      · simp [hv, ih]
  have hfold : ∀ m : ExtTreeMap α Nat cmp, l.foldl (fun m v => m.addCount v 1) m =
      (l.map fun v => (v, 1)).foldl (fun m (key, n) => m.addCount key n) m := by
    intro m
    rw [List.foldl_map]
  rw [counts, hfold, getElem?_foldl_addCount]
  simp [hsum]

/-- The counts of two lists add up to those of both together. -/
theorem addCounts_counts (l l' : List α) :
    addCounts (counts l : ExtTreeMap α Nat cmp) (counts l') = counts (l ++ l') := by
  apply ext_getElem?
  intro k
  have hkeys : k ∈ (counts l' : ExtTreeMap α Nat cmp).toList.map Prod.fst ↔ k ∈ l' := by
    rw [map_fst_toList_eq_keys, mem_keys, mem_iff_isSome_getElem?, getElem?_counts]
    split <;> simp [*]
  have hsum : (((counts l' : ExtTreeMap α Nat cmp).toList.filter (·.1 = k)).map Prod.snd).sum =
      l'.count k := by
    have hrest : ((counts l' : ExtTreeMap α Nat cmp).erase k).toList.filter (·.1 = k) = [] := by
      rw [List.filter_eq_nil_iff]
      rintro ⟨key, n⟩ hmem heq
      obtain rfl : key = k := of_decide_eq_true heq
      rw [mem_toList_iff_getElem?_eq_some, getElem?_erase] at hmem
      simp at hmem
    rw [(((toList_perm_erase (counts l' : ExtTreeMap α Nat cmp) k).filter _).map _).sum_eq,
      List.filter_append, hrest, List.append_nil, getElem?_counts]
    split
    · simp
    · next hk => simp [List.count_eq_zero_of_not_mem hk]
  rw [addCounts, getElem?_foldl_addCount, hsum, getElem?_counts, getElem?_counts]
  simp only [hkeys, List.mem_append, List.count_append]
  by_cases hl : k ∈ l
  · by_cases hl' : k ∈ l'
    · simp [hl, hl']
    · simp [hl, hl', List.count_eq_zero_of_not_mem hl']
  · by_cases hl' : k ∈ l'
    · simp [hl, hl', List.count_eq_zero_of_not_mem hl]
    · simp [hl, hl']

theorem isEmpty_counts (l : List α) :
    (counts l : ExtTreeMap α Nat cmp).isEmpty = l.isEmpty := by
  cases l with
  | nil => exact isEmpty_empty
  | cons v l =>
    have hget : (counts (v :: l) : ExtTreeMap α Nat cmp)[v]? = some ((v :: l).count v) := by
      rw [getElem?_counts, if_pos List.mem_cons_self]
    rw [List.isEmpty_cons, isEmpty_eq_false_iff]
    intro hempty
    rw [hempty, getElem?_empty] at hget
    cases hget

omit [DecidableEq α] in
/-- Maps with the same keys list them in the same order. -/
theorem keys_eq_keys_iff {β γ : Type*} {m : ExtTreeMap α β cmp} {m' : ExtTreeMap α γ cmp} :
    m.keys = m'.keys ↔ ∀ k, k ∈ m ↔ k ∈ m' := by
  constructor
  · intro h k
    rw [← mem_keys, ← mem_keys, h]
  · intro h
    have hmap : m.map (fun _ _ => ()) = m'.map (fun _ _ => ()) := by
      apply ext_getElem?
      intro k
      have hk := h k
      rw [mem_iff_isSome_getElem?, mem_iff_isSome_getElem?] at hk
      rw [getElem?_map, getElem?_map]
      cases hm : m[k]? <;> cases hm' : m'[k]? <;> simp [hm, hm'] at hk ⊢
    rw [← keys_map (f := fun _ _ => ()), hmap, keys_map]

end Std.ExtTreeMap

/-- A map that covers a finite set and does not increase a weight keeps it. -/
theorem Finset.eq_of_subset_image_of_le {α : Type} [DecidableEq α] {s : Finset α} {f : α → α}
    (weight : α → Nat) (hcover : s ⊆ s.image f) (hle : ∀ a ∈ s, weight (f a) ≤ weight a) :
    ∀ a ∈ s, weight (f a) = weight a := by
  have hcard : (s.image f).card ≤ s.card := card_image_le
  have himage : s = s.image f := eq_of_subset_of_card_le hcover hcard
  have hinj : Set.InjOn f s := card_image_iff.mp (by rw [← himage])
  have hsum : ∑ a ∈ s, weight (f a) = ∑ a ∈ s, weight a := by
    rw [← sum_image hinj, ← himage]
  exact (sum_eq_sum_iff_of_le hle).mp hsum
