import DeepProve.ForStd.ExtTreeMap

/-!
# Entries grouped by their key

A map whose values are lists, built by pushing one entry after the other.
-/

namespace Std.ExtTreeMap

variable {α β : Type} {cmp : α → α → Ordering} [TransCmp cmp]

/-- `self.entry(key).or_insert(vec![]).push(value)`. -/
def pushAt (self : ExtTreeMap α (List β) cmp) (key : α) (value : β) : ExtTreeMap α (List β) cmp :=
  self.insert key ((self[key]?).getD [] ++ [value])

/-- The entries, grouped by their key. -/
def grouped (entries : List (α × β)) : ExtTreeMap α (List β) cmp :=
  entries.foldl (fun m (key, value) => m.pushAt key value) ∅

/-- The entries of the groups. -/
def ungrouped (m : ExtTreeMap α (List β) cmp) : List (α × β) :=
  m.toList.flatMap fun (key, values) => values.map fun value => (key, value)

variable [LawfulEqCmp cmp]

theorem ungrouped_pushAt_perm (m : ExtTreeMap α (List β) cmp) (key : α) (value : β) :
    (m.pushAt key value).ungrouped.Perm ((key, value) :: m.ungrouped) := by
  have hnew : (m.pushAt key value).ungrouped.Perm
      (((m[key]?.getD []).map fun v => (key, v)) ++ (key, value) :: (m.erase key).ungrouped) := by
    refine ((m.toList_insert_perm_erase key _).flatMap_right _).trans (List.Perm.of_eq ?_)
    simp [ungrouped]
  have hold : m.ungrouped.Perm
      (((m[key]?.getD []).map fun v => (key, v)) ++ (m.erase key).ungrouped) := by
    refine ((m.toList_perm_erase key).flatMap_right _).trans (List.Perm.of_eq ?_)
    cases m[key]? with
    | none => simp [ungrouped]
    | some values => simp [ungrouped]
  exact hnew.trans (List.perm_middle.trans (hold.symm.cons _))

theorem ungrouped_foldl_pushAt_perm (entries : List (α × β)) (m : ExtTreeMap α (List β) cmp) :
    (entries.foldl (fun m (key, value) => m.pushAt key value) m).ungrouped.Perm
      (entries ++ m.ungrouped) := by
  induction entries generalizing m with
  | nil => exact List.Perm.refl _
  | cons entry entries ih =>
    exact (ih _).trans (((ungrouped_pushAt_perm m entry.1 entry.2).append_left entries).trans
      List.perm_middle)

variable (cmp) in
/-- The groups hold the entries. -/
theorem ungrouped_grouped_perm (entries : List (α × β)) :
    (grouped entries : ExtTreeMap α (List β) cmp).ungrouped.Perm entries := by
  have hperm := ungrouped_foldl_pushAt_perm entries (∅ : ExtTreeMap α (List β) cmp)
  rwa [ungrouped, ungrouped, toList_eq_nil_iff.mpr rfl, List.flatMap_nil, List.append_nil] at hperm

omit [LawfulEqCmp cmp] in
/-- No group is empty. -/
theorem ne_nil_of_getElem?_grouped {entries : List (α × β)} {key : α} {values : List β}
    (h : (grouped entries : ExtTreeMap α (List β) cmp)[key]? = some values) : values ≠ [] := by
  have hgen : ∀ (entries : List (α × β)) (m : ExtTreeMap α (List β) cmp),
      (∀ values, m[key]? = some values → values ≠ []) →
        ∀ values, (entries.foldl (fun m (key, value) => m.pushAt key value) m)[key]? = some values →
          values ≠ [] := by
    intro entries
    induction entries with
    | nil => exact fun m hm => hm
    | cons entry entries ih =>
      refine fun m hm => ih _ fun values hvalues => ?_
      replace hvalues : (m.pushAt entry.1 entry.2)[key]? = some values := hvalues
      rw [pushAt, getElem?_insert] at hvalues
      split at hvalues
      · rw [← Option.some.inj hvalues]
        exact List.append_ne_nil_of_right_ne_nil _ (List.cons_ne_nil _ _)
      · exact hm values hvalues
  refine hgen entries ∅ (fun values hvalues => ?_) values h
  rw [getElem?_empty] at hvalues
  exact nomatch hvalues

theorem mem_ungrouped {m : ExtTreeMap α (List β) cmp} {key : α} {value : β} :
    (key, value) ∈ m.ungrouped ↔ ∃ values, m[key]? = some values ∧ value ∈ values := by
  rw [ungrouped, List.mem_flatMap]
  constructor
  · rintro ⟨⟨key', values⟩, hgroup, hmem⟩
    obtain ⟨value', hvalue, heq⟩ := List.mem_map.mp hmem
    obtain ⟨rfl, rfl⟩ := Prod.mk.inj heq
    exact ⟨values, mem_toList_iff_getElem?_eq_some.mp hgroup, hvalue⟩
  · rintro ⟨values, hgroup, hvalue⟩
    exact ⟨(key, values), mem_toList_iff_getElem?_eq_some.mpr hgroup,
      List.mem_map.mpr ⟨value, hvalue, rfl⟩⟩

/-- A group is there for each key that comes with an entry. -/
theorem mem_grouped {entries : List (α × β)} {key : α} :
    key ∈ (grouped entries : ExtTreeMap α (List β) cmp) ↔ ∃ value, (key, value) ∈ entries := by
  have hmem : ∀ value, (key, value) ∈ entries ↔
      ∃ values, (grouped entries : ExtTreeMap α (List β) cmp)[key]? = some values ∧ value ∈ values :=
    fun value => (ungrouped_grouped_perm cmp entries).mem_iff.symm.trans mem_ungrouped
  rw [mem_iff_isSome_getElem?, Option.isSome_iff_exists]
  constructor
  · rintro ⟨values, hgroup⟩
    obtain ⟨value, hvalue⟩ := List.exists_mem_of_ne_nil _ (ne_nil_of_getElem?_grouped hgroup)
    exact ⟨value, (hmem value).mpr ⟨values, hgroup, hvalue⟩⟩
  · rintro ⟨value, hvalue⟩
    obtain ⟨values, hgroup, -⟩ := (hmem value).mp hvalue
    exact ⟨values, hgroup⟩

end Std.ExtTreeMap
