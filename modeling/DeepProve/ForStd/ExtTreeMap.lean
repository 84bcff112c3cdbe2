import Mathlib

/-!
# Tree map lemmas for the standard library

Facts about the entry list of a `Std.ExtTreeMap` after an insertion or an
erasure, stated up to permutation: they let an argument about "all entries of
the map" follow one update at a time.
-/

namespace Std.ExtTreeMap

variable {α β : Type*} {cmp : α → α → Ordering} [TransCmp cmp]

/-- The entries of a map are pairwise distinct, since their keys are. -/
theorem nodup_toList (m : ExtTreeMap α β cmp) : m.toList.Nodup := by
  have h := m.nodup_keys
  rw [← m.map_fst_toList_eq_keys] at h
  exact List.Nodup.of_map _ h

/-- The values, in the order of their keys. -/
theorem values_eq_map_snd_toList (m : ExtTreeMap α β cmp) : m.values = m.toList.map Prod.snd := by
  have hfold : m.values = m.foldr (fun _ v acc => v :: acc) [] := rfl
  rw [hfold, foldr_eq_foldr_toList]
  induction m.toList with
  | nil => rfl
  | cons e l ih => rw [List.foldr_cons, ih, List.map_cons]

variable [LawfulEqCmp cmp]

theorem mem_values (m : ExtTreeMap α β cmp) {v : β} : v ∈ m.values ↔ ∃ k : α, m[k]? = some v := by
  rw [values_eq_map_snd_toList]
  simp only [List.mem_map, Prod.exists, exists_eq_right, mem_toList_iff_getElem?_eq_some]

variable {k : α}

/-- Inserting under a fresh key adds one entry. -/
theorem toList_insert_perm (m : ExtTreeMap α β cmp) (v : β) (h : m[k]? = none) :
    (m.insert k v).toList.Perm ((k, v) :: m.toList) := by
  have hk : (k, v) ∉ m.toList := by
    rw [mem_toList_iff_getElem?_eq_some, h]; simp
  rw [List.perm_ext_iff_of_nodup (nodup_toList _)
    (List.nodup_cons.mpr ⟨hk, nodup_toList m⟩)]
  rintro ⟨k', v'⟩
  rw [mem_toList_iff_getElem?_eq_some, getElem?_insert, List.mem_cons,
    mem_toList_iff_getElem?_eq_some]
  by_cases hkk : k = k'
  · subst hkk
    simp [h, ReflCmp.compare_self, eq_comm]
  · simp [hkk, Ne.symm hkk]

/-- Erasing a present key removes its entry. -/
theorem toList_erase_perm (m : ExtTreeMap α β cmp) {v : β} (h : m[k]? = some v) :
    m.toList.Perm ((k, v) :: (m.erase k).toList) := by
  have hk : (k, v) ∉ (m.erase k).toList := by
    rw [mem_toList_iff_getElem?_eq_some, getElem?_erase]; simp
  rw [List.perm_ext_iff_of_nodup (nodup_toList _)
    (List.nodup_cons.mpr ⟨hk, nodup_toList _⟩)]
  rintro ⟨k', v'⟩
  rw [mem_toList_iff_getElem?_eq_some, List.mem_cons, mem_toList_iff_getElem?_eq_some,
    getElem?_erase]
  by_cases hkk : k = k'
  · subst hkk
    simp [h, eq_comm]
  · simp [hkk, Ne.symm hkk]

/-- Inserting replaces the entry of the key. -/
theorem toList_insert_perm_erase (m : ExtTreeMap α β cmp) (k : α) (v : β) :
    (m.insert k v).toList.Perm ((k, v) :: (m.erase k).toList) := by
  have heq : (m.erase k).insert k v = m.insert k v := by
    apply ext_getElem?
    intro k'
    rw [getElem?_insert, getElem?_insert, getElem?_erase]
    split <;> rfl
  rw [← heq]
  apply toList_insert_perm
  rw [getElem?_erase, if_pos ReflCmp.compare_self]

theorem erase_of_getElem?_eq_none (m : ExtTreeMap α β cmp) (h : m[k]? = none) : m.erase k = m := by
  apply ext_getElem?
  intro k'
  rw [getElem?_erase]
  split
  · next hk => rw [← LawfulEqCmp.eq_of_compare hk, h]
  · rfl

/-- Set the entry of a key apart, if there is one. -/
theorem toList_perm_erase (m : ExtTreeMap α β cmp) (k : α) :
    m.toList.Perm ((m[k]?.map (Prod.mk k)).toList ++ (m.erase k).toList) := by
  cases h : m[k]? with
  | some v => exact toList_erase_perm m h
  | none =>
    rw [m.erase_of_getElem?_eq_none h]
    exact List.Perm.refl _

/-- A loop that takes the value of each key out of a map: with distinct keys, a
    loop over the values found. -/
theorem foldlM_remove {M : Type → Type} [Monad M] [LawfulMonad M]
    {α β σ V γ : Type} {cmp : α → α → Ordering} [TransCmp cmp] [LawfulEqCmp cmp]
    {f : ExtTreeMap α β cmp × σ → α × V → M (ExtTreeMap α β cmp × σ)} {step : σ → γ → M σ}
    {g : V → β → γ} (hsome : ∀ acc entry b, acc.1[entry.1]? = some b →
      f acc entry = step acc.2 (g entry.2 b) >>= fun s => pure (acc.1.erase entry.1, s))
    (hnone : ∀ acc entry, acc.1[entry.1]? = none → f acc entry = pure acc)
    (entries : List (α × V)) (hkeys : (entries.map Prod.fst).Nodup)
    (m : ExtTreeMap α β cmp) (s : σ) :
    entries.foldlM f (m, s) =
      (entries.filterMap fun entry => m[entry.1]?.map (g entry.2)).foldlM step s >>=
        fun s => pure (entries.foldl (fun m entry => m.erase entry.1) m, s) := by
  induction entries generalizing m s with
  | nil => simp
  | cons entry entries ih =>
    obtain ⟨hnew, hkeys⟩ := List.nodup_cons.mp hkeys
    rw [List.foldlM_cons, List.foldl_cons, List.filterMap_cons]
    cases hget : m[entry.1]? with
    | none =>
      rw [hnone _ _ hget, pure_bind, ih hkeys, m.erase_of_getElem?_eq_none hget]
      rfl
    | some b =>
      -- the later entries have other keys
      have hlater : entries.filterMap (fun e => (m.erase entry.1)[e.1]?.map (g e.2)) =
          entries.filterMap fun e => m[e.1]?.map (g e.2) := by
        apply List.filterMap_congr
        intro e he
        have hne : entry.1 ≠ e.1 := by
          intro heq
          exact hnew (List.mem_map.mpr ⟨e, he, heq.symm⟩)
        rw [getElem?_erase, if_neg fun hcmp => hne (LawfulEqCmp.eq_of_compare hcmp)]
      rw [hsome _ _ _ hget]
      simp only [bind_assoc, pure_bind, ih hkeys, Option.map_some, List.foldlM_cons, hlater]

variable {l : List (α × β)} {m : ExtTreeMap α β cmp}

/-- Two entries of a map with the same key are the same entry. -/
theorem eq_of_mem_toList {v v' : β} (h : (k, v) ∈ m.toList) (h' : (k, v') ∈ m.toList) :
    v = v' := by
  rw [mem_toList_iff_getElem?_eq_some] at h h'
  exact Option.some.inj (h.symm.trans h')

/-- Entries with fresh and distinct keys are all kept. -/
theorem toList_foldl_insert_perm (m : ExtTreeMap α β cmp) (hkeys : (l.map Prod.fst).Nodup)
    (hfresh : ∀ e ∈ l, m[e.1]? = none) :
    (l.foldl (fun m (k, v) => m.insert k v) m).toList.Perm (l ++ m.toList) := by
  induction l generalizing m with
  | nil => exact List.Perm.refl _
  | cons e l ih =>
    obtain ⟨hnew, hkeys⟩ := List.nodup_cons.mp hkeys
    obtain ⟨he, hfresh⟩ := List.forall_mem_cons.mp hfresh
    have hlater : ∀ e' ∈ l, (m.insert e.1 e.2)[e'.1]? = none := by
      intro e' he'
      have hne : e.1 ≠ e'.1 := by
        intro heq
        exact hnew (List.mem_map.mpr ⟨e', he', heq.symm⟩)
      rw [getElem?_insert, if_neg fun hcmp => hne (LawfulEqCmp.eq_of_compare hcmp), hfresh e' he']
    have hinsert : (l ++ (m.insert e.1 e.2).toList).Perm (l ++ e :: m.toList) :=
      (toList_insert_perm m e.2 he).append_left l
    rw [List.foldl_cons]
    exact ((ih _ hkeys hlater).trans hinsert).trans List.perm_middle

omit [LawfulEqCmp cmp] in
/-- The keys of the entries of a map are distinct, in whatever order the entries are. -/
theorem nodup_keys_of_toList_perm (h : m.toList.Perm l) : (l.map Prod.fst).Nodup := by
  have hkeys := m.nodup_keys
  rw [← m.map_fst_toList_eq_keys] at hkeys
  exact (h.map Prod.fst).nodup_iff.mp hkeys

/-- A map made of entries keeps them all exactly if their keys are distinct. -/
theorem toList_foldl_insert_perm_iff :
    (l.foldl (fun m (k, v) => m.insert k v) (∅ : ExtTreeMap α β cmp)).toList.Perm l ↔
      (l.map Prod.fst).Nodup := by
  constructor
  · exact nodup_keys_of_toList_perm
  · intro h
    have hperm := toList_foldl_insert_perm (∅ : ExtTreeMap α β cmp) h fun _ _ => getElem?_empty
    rwa [toList_eq_nil_iff.mpr rfl, List.append_nil] at hperm

/-- Insert in bulk the graph of a partial function `F`. -/
theorem getElem?_insertMany_of_mem_iff {F : α → Option β} (m : ExtTreeMap α β cmp)
    (h : ∀ k v, (k, v) ∈ l ↔ F k = some v) (a : α) :
    (m.insertMany l)[a]? = (F a).or m[a]? := by
  classical
  have hgen : ∀ (l' : List (α × β)) (m : ExtTreeMap α β cmp),
      (∀ k v, (k, v) ∈ l' → F k = some v) →
      (m.insertMany l')[a]? = if a ∈ l'.map Prod.fst then F a else m[a]? := by
    intro l'
    induction l' with
    | nil => simp
    | cons p l' ih =>
      intro m hl'
      obtain ⟨k, v⟩ := p
      have hk : F k = some v := hl' k v (List.mem_cons_self ..)
      rw [insertMany_cons, ih _ fun k' v' hmem => hl' k' v' (List.mem_cons_of_mem _ hmem),
        getElem?_insert]
      by_cases hka : k = a
      · subst hka
        simp [hk]
      · simp [hka, Ne.symm hka]
  rw [hgen l m fun k v => (h k v).mp]
  cases hF : F a with
  | some v =>
    rw [if_pos (List.mem_map_of_mem ((h a v).mpr hF))]
    rfl
  | none =>
    rw [if_neg]
    · rfl
    · intro hmem
      obtain ⟨⟨k, v⟩, hkv, rfl⟩ := List.mem_map.mp hmem
      rw [h, hF] at hkv
      exact nomatch hkv

/-- What is found in a map made of entries is one of the entries. -/
theorem mem_of_getElem?_insertMany {v : β}
    (h : ((∅ : ExtTreeMap α β cmp).insertMany l)[k]? = some v) : (k, v) ∈ l := by
  have hgen : ∀ (l : List (α × β)) (m : ExtTreeMap α β cmp), (m.insertMany l)[k]? = some v →
      (k, v) ∈ l ∨ m[k]? = some v := by
    intro l
    induction l with
    | nil => exact fun m h => .inr (by simpa using h)
    | cons e l ih =>
      intro m h
      rw [insertMany_cons] at h
      rcases ih _ h with hmem | hget
      · exact .inl (List.mem_cons_of_mem _ hmem)
      · rw [getElem?_insert] at hget
        split at hget
        · rename_i hk
          obtain rfl := LawfulEqCmp.eq_of_compare hk
          obtain rfl := Option.some.inj hget
          exact .inl List.mem_cons_self
        · exact .inr hget
  rcases hgen l ∅ h with hmem | hget
  · exact hmem
  · simp at hget

/-- Two maps whose values correspond have corresponding entries, in the same order. -/
theorem forall₂_toList {γ : Type*} {R : β → γ → Prop} {m' : ExtTreeMap α γ cmp}
    (h : ∀ k : α, Option.Rel R m[k]? m'[k]?) :
    List.Forall₂ (fun e e' => e.1 = e'.1 ∧ R e.2 e'.2) m.toList m'.toList := by
  have hmem : ∀ k, k ∈ m.keys ↔ k ∈ m'.keys := by
    intro k
    rw [mem_keys, mem_keys, mem_iff_isSome_getElem?, mem_iff_isSome_getElem?]
    have hk := h k
    generalize m[k]? = o, m'[k]? = o' at hk
    cases hk with
    | some _ => simp
    | none => simp
  have hkeys : m.keys = m'.keys := by
    refine List.Perm.eq_of_pairwise ?_ m.ordered_keys m'.ordered_keys
      ((List.perm_ext_iff_of_nodup m.nodup_keys m'.nodup_keys).mpr hmem)
    intro a b _ _ hlt hgt
    rw [OrientedCmp.gt_of_lt hlt] at hgt
    exact nomatch hgt
  rw [← map_fst_toList_eq_keys, ← map_fst_toList_eq_keys] at hkeys
  have hlength : m.toList.length = m'.toList.length := by
    simpa using congrArg List.length hkeys
  refine List.forall₂_iff_get.mpr ⟨hlength, fun i hi hi' => ?_⟩
  have hkey : (m.toList.get ⟨i, hi⟩).1 = (m'.toList.get ⟨i, hi'⟩).1 := by
    have hget := congrArg (fun l => l[i]?) hkeys
    simp only [List.getElem?_map, List.getElem?_eq_getElem hi, List.getElem?_eq_getElem hi',
      Option.map_some, Option.some.injEq] at hget
    exact hget
  have hvalue := mem_toList_iff_getElem?_eq_some.mp (List.get_mem m.toList ⟨i, hi⟩)
  have hvalue' := mem_toList_iff_getElem?_eq_some.mp (List.get_mem m'.toList ⟨i, hi'⟩)
  have hrel := h (m.toList.get ⟨i, hi⟩).1
  rw [hvalue, hkey, hvalue'] at hrel
  cases hrel with
  | some hR => exact ⟨hkey, hR⟩

/-- Another value for a key leaves the entries where they are. -/
theorem toList_insert_of_toList {before after : List (α × β)} {v : β}
    (h : m.toList = before ++ (k, v) :: after) (v' : β) :
    (m.insert k v').toList = before ++ (k, v') :: after := by
  have hnodup := m.nodup_keys
  rw [← m.map_fst_toList_eq_keys, h, List.map_append, List.map_cons, List.nodup_append] at hnodup
  obtain ⟨-, hafter, hdistinct⟩ := hnodup
  have hbefore : ∀ e ∈ before, e.1 ≠ k := fun e he =>
    hdistinct e.1 (List.mem_map_of_mem he) k List.mem_cons_self
  have hafter : ∀ e ∈ after, e.1 ≠ k := by
    intro e he heq
    exact (List.nodup_cons.mp hafter).1 (heq ▸ (List.mem_map_of_mem he : e.1 ∈ after.map Prod.fst))
  -- entries with other keys are the same in both lists
  have hmem : ∀ e : α × β, e ∈ (m.insert k v').toList ↔ e ∈ before ++ (k, v') :: after := by
    intro ⟨k', x⟩
    have hentry : (k', x) ∈ m.toList ↔ (k', x) ∈ before ++ (k, v) :: after := by rw [h]
    rw [mem_toList_iff_getElem?_eq_some] at hentry
    rw [mem_toList_iff_getElem?_eq_some, getElem?_insert]
    by_cases hk : k = k'
    · subst hk
      have hnone : ∀ x : β, (k, x) ∉ before ∧ (k, x) ∉ after :=
        fun x => ⟨fun hx => hbefore _ hx rfl, fun hx => hafter _ hx rfl⟩
      simp [ReflCmp.compare_self, hnone x, eq_comm]
    · simp [hk, hentry, Ne.symm hk]
  have hordered := m.ordered_keys_toList
  rw [h] at hordered
  refine List.Perm.eq_of_pairwise ?_ (m.insert k v').ordered_keys_toList ?_
    ((List.perm_ext_iff_of_nodup (nodup_toList _) ?_).mpr hmem)
  · intro a b _ _ hlt hgt
    rw [OrientedCmp.gt_of_lt hlt] at hgt
    exact nomatch hgt
  · simpa only [List.pairwise_append, List.pairwise_cons, List.mem_cons, forall_eq_or_imp]
      using hordered
  · refine List.Nodup.of_map Prod.fst ?_
    rw [List.map_append, List.map_cons]
    have hnodup := m.nodup_keys
    rwa [← m.map_fst_toList_eq_keys, h, List.map_append, List.map_cons] at hnodup

end Std.ExtTreeMap
