import DeepProve.Model.Denotation

/-!
# Handles and their uses

What the operations of a `HandleLifetimeRunner` do to the handles and to the numbers of uses that
are left, and how the uses of a port divide among the nodes.
-/

namespace DeepProve

variable {L T : Type}

/-! ## Uses of a port -/

namespace Graph

variable (g : ModelGraph L)

/-- What the given nodes read. -/
def readBy (visited : List NodeId) : List NodeOutput := visited.flatMap g.inputKeys

variable {g}

theorem count_inputKeys (n : NodeId) (key : NodeOutput) :
    (g.inputKeys n).count key =
      ((g.edges.toList.filter fun e => e.2.target == n).flatMap fun e => e.2.linkKeys).count key :=
  (inputKeys_perm n).count_eq key

variable {visited : List NodeId}

/-- Different nodes read from different edges. -/
theorem count_readBy (h : visited.Nodup) (key : NodeOutput) :
    (g.readBy visited).count key =
      ((g.edges.toList.filter fun e => visited.contains e.2.target).flatMap
        fun e => e.2.linkKeys).count key := by
  induction visited with
  | nil => simp [readBy]
  | cons n visited ih =>
    obtain ⟨hn, hvisited⟩ := List.nodup_cons.mp h
    have hexclusive : ∀ e ∈ g.edges.toList, (e.2.target == n) = true →
        visited.contains e.2.target = false := by
      intro e _ he
      rw [eq_of_beq he]
      simpa using hn
    have hsplit := List.count_flatMap_filter_or (f := fun e => e.2.linkKeys) hexclusive key
    have hfilter : ∀ e : EdgeId × Edge Unit, (n :: visited).contains e.2.target =
        (e.2.target == n || visited.contains e.2.target) := fun e => List.contains_cons
    simp only [hfilter]
    rw [hsplit, ← ih hvisited, ← count_inputKeys, readBy, List.flatMap_cons, List.count_append]
    rfl

/-- What layers and the outputs of the model read is counted separately. -/
theorem count_readBy_add_outputKeys_le (h : visited.Nodup)
    (hinner : ∀ n ∈ visited, ∃ layer, g.nodes[n]? = some (.inner layer)) (key : NodeOutput) :
    (g.readBy visited).count key + g.outputKeys.count key ≤ g.usedKeys.count key := by
  have hexclusive : ∀ e ∈ g.edges.toList, visited.contains e.2.target = true →
      (g.nodes[e.2.target]?).any Node.isOutput = false := by
    intro e _ he
    obtain ⟨layer, hlayer⟩ := hinner e.2.target (by simpa using he)
    rw [hlayer]
    rfl
  have hsplit := List.count_flatMap_filter_or (f := fun e => e.2.linkKeys) hexclusive key
  have hsub := (List.filter_sublist (l := g.edges.toList) (p := fun e =>
    visited.contains e.2.target || (g.nodes[e.2.target]?).any Node.isOutput)).flatMap
      (fun e => e.2.linkKeys)
  have hle := hsub.count_le key
  rw [hsplit, ← count_readBy h] at hle
  exact hle

/-- What the layers read that have not run yet is among the uses left. -/
theorem count_readBy_add_inputKeys_le {n : NodeId} (h : (visited ++ [n]).Nodup)
    (hinner : ∀ m ∈ visited ++ [n], ∃ layer, g.nodes[m]? = some (.inner layer)) (key : NodeOutput) :
    (g.readBy visited).count key + (g.inputKeys n).count key ≤ g.usedKeys.count key := by
  have hle := count_readBy_add_outputKeys_le h hinner key
  rw [readBy, List.flatMap_append, List.count_append] at hle
  simp only [List.flatMap_cons, List.flatMap_nil, List.append_nil] at hle
  rw [readBy]
  omega

end Graph

namespace HandleLifetimeRunner

variable {runner : HandleLifetimeRunner T}

theorem getD_countUses (counts : HashMap NodeOutput Nat) (keys : List NodeOutput)
    (key : NodeOutput) :
    ((countUses counts keys)[key]?).getD 0 = (counts[key]?).getD 0 + keys.count key := by
  induction keys generalizing counts with
  | nil => rfl
  | cons k keys ih =>
    have hstep : countUses counts (k :: keys) = countUses (counts.addCount k 1) keys := rfl
    rw [hstep, ih, Std.ExtTreeMap.getElem?_addCount, List.count_cons]
    by_cases hk : k = key
    · subst hk
      simp only [if_true, Option.getD_some, beq_self_eq_true]
      omega
    · simp [hk]

/-! ## New handles -/

theorem handleUsageCount_insertHandle (runner : HandleLifetimeRunner T) (handle : TensorHandle T) :
    (runner.insertHandle handle).handleUsageCount = runner.handleUsageCount := by
  rw [insertHandle]
  split <;> rfl

theorem uses_insertHandle (runner : HandleLifetimeRunner T) (handle : TensorHandle T)
    (key : NodeOutput) : (runner.insertHandle handle).uses key = runner.uses key := by
  rw [uses, uses, handleUsageCount_insertHandle]

theorem getElem?_insertHandle (runner : HandleLifetimeRunner T) (handle : TensorHandle T)
    (key : NodeOutput) :
    (runner.insertHandle handle).storagekeyToHandle[key]? =
      if handle.storageKey = key then
        some (if runner.uses handle.storageKey = 0 then handle.dry else handle)
      else runner.storagekeyToHandle[key]? := by
  rw [insertHandle]
  split
  · next h =>
    rw [Std.ExtTreeMap.getElem?_insert]
    simp
  · next h =>
    rw [Std.ExtTreeMap.getElem?_insert]
    simp

theorem history_insertHandle (runner : HandleLifetimeRunner T) (handle : TensorHandle T) :
    (runner.insertHandle handle).history = runner.history ++
      if runner.uses handle.storageKey = 0 then [.dried handle.storageKey] else [] := by
  rw [insertHandle]
  split
  · rfl
  · exact (List.append_nil _).symm

theorem uses_foldl_insertHandle (handles : List (TensorHandle T)) (runner : HandleLifetimeRunner T)
    (key : NodeOutput) : (handles.foldl insertHandle runner).uses key = runner.uses key := by
  induction handles generalizing runner with
  | nil => rfl
  | cons handle handles ih => rw [List.foldl_cons, ih, uses_insertHandle]

/-- Other keys keep their handles. -/
theorem getElem?_foldl_insertHandle_of_notMem (handles : List (TensorHandle T))
    (runner : HandleLifetimeRunner T) {key : NodeOutput}
    (h : key ∉ handles.map TensorHandle.storageKey) :
    (handles.foldl insertHandle runner).storagekeyToHandle[key]? =
      runner.storagekeyToHandle[key]? := by
  induction handles generalizing runner with
  | nil => rfl
  | cons handle handles ih =>
    simp only [List.map_cons, List.mem_cons, not_or] at h
    rw [List.foldl_cons, ih _ h.2, getElem?_insertHandle, if_neg (Ne.symm h.1)]

/-- A new handle that is still to be used is kept as it is. -/
theorem getElem?_foldl_insertHandle {handles : List (TensorHandle T)}
    (runner : HandleLifetimeRunner T) (hkeys : (handles.map TensorHandle.storageKey).Nodup)
    {handle : TensorHandle T} (hmem : handle ∈ handles) (huses : 0 < runner.uses handle.storageKey) :
    (handles.foldl insertHandle runner).storagekeyToHandle[handle.storageKey]? = some handle := by
  induction handles generalizing runner with
  | nil => cases hmem
  | cons first handles ih =>
    obtain ⟨hfirst, hkeys⟩ := List.nodup_cons.mp hkeys
    rw [List.foldl_cons]
    rcases List.mem_cons.mp hmem with rfl | hmem
    · rw [getElem?_foldl_insertHandle_of_notMem _ _ hfirst, getElem?_insertHandle, if_pos rfl,
        if_neg (Nat.ne_of_gt huses)]
    · exact ih _ hkeys hmem (by rwa [uses_insertHandle])

/-- What nothing uses is dried at once. -/
theorem history_foldl_insertHandle (handles : List (TensorHandle T))
    (runner : HandleLifetimeRunner T) :
    ∃ driedKeys : List NodeOutput, (handles.foldl insertHandle runner).history =
      runner.history ++ driedKeys.map RunEvent.dried ∧ ∀ key ∈ driedKeys, runner.uses key = 0 := by
  induction handles generalizing runner with
  | nil => exact ⟨[], (List.append_nil _).symm, by simp⟩
  | cons handle handles ih =>
    obtain ⟨driedKeys, hhistory, hdried⟩ := ih (runner.insertHandle handle)
    simp only [uses_insertHandle] at hdried
    rw [List.foldl_cons, hhistory, history_insertHandle]
    by_cases huses : runner.uses handle.storageKey = 0
    · refine ⟨handle.storageKey :: driedKeys, ?_, List.forall_mem_cons.mpr ⟨huses, hdried⟩⟩
      rw [if_pos huses, List.append_assoc, List.map_cons, List.singleton_append]
    · exact ⟨driedKeys, by rw [if_neg huses, List.append_nil], hdried⟩

/-! ## Used handles -/

/-- A use is counted off; the last one dries the handle. -/
theorem consume_eq_ok {key : NodeOutput} {handle : TensorHandle T} (huses : 0 < runner.uses key)
    (hhandle : runner.storagekeyToHandle[key]? = some handle) :
    ∃ (runner' : HandleLifetimeRunner T) (driedKeys : List NodeOutput),
      runner.consume key = .ok runner' ∧
      (∀ k : NodeOutput, runner'.uses k + (if k = key then 1 else 0) = runner.uses k) ∧
      (∀ k : NodeOutput, 0 < runner'.uses k → runner'.storagekeyToHandle[k]? = runner.storagekeyToHandle[k]?) ∧
      (∀ k : NodeOutput, (runner'.storagekeyToHandle[k]?).isSome = (runner.storagekeyToHandle[k]?).isSome) ∧
      runner'.history = runner.history ++ driedKeys.map RunEvent.dried ∧
      ∀ k ∈ driedKeys, runner'.uses k = 0 := by
  obtain ⟨curr, hcurr⟩ : ∃ curr, runner.handleUsageCount[key]? = some (curr + 1) := by
    rw [uses] at huses
    cases hcount : runner.handleUsageCount[key]? with
    | none => simp [hcount] at huses
    | some count =>
      rw [hcount, Option.getD_some] at huses
      exact ⟨count - 1, by rw [Nat.sub_add_cancel huses]⟩
  have hcounts : ∀ k, (((runner.handleUsageCount.insert key curr)[k]?).getD 0) +
      (if k = key then 1 else 0) = runner.uses k := by
    intro k
    rw [Std.ExtTreeMap.getElem?_insert, uses]
    by_cases hk : key = k
    · subst hk
      simp [hcurr]
    · simp [hk, Ne.symm hk]
  have hleft : runner.usesLeft key = .ok curr := by rw [usesLeft, hcurr]
  rw [consume, hleft, Outcome.ok_bind]
  dsimp only
  by_cases hzero : curr = 0
  · refine ⟨{ storagekeyToHandle := runner.storagekeyToHandle.insert key handle.dry
              handleUsageCount := runner.handleUsageCount.insert key curr
              history := runner.history ++ [.dried key] }, [key], ?_, hcounts, ?_, ?_, rfl, ?_⟩
    · rw [if_pos hzero, getByStorageKey, hhandle]
      rfl
    · intro k hk
      have hne : key ≠ k := by
        rintro rfl
        simp [uses, hzero] at hk
      show (runner.storagekeyToHandle.insert key handle.dry)[k]? = _
      rw [Std.ExtTreeMap.getElem?_insert]
      simp [hne]
    · intro k
      show ((runner.storagekeyToHandle.insert key handle.dry)[k]?).isSome = _
      rw [Std.ExtTreeMap.getElem?_insert]
      by_cases hk : key = k
      · subst hk
        simp [hhandle]
      · simp [hk]
    · simp [uses, hzero]
  · exact ⟨{ runner with handleUsageCount := runner.handleUsageCount.insert key curr }, [],
      by rw [if_neg hzero], hcounts, fun _ _ => rfl, fun _ => rfl, (List.append_nil _).symm, by simp⟩

/-- Counting off the inputs of a layer. -/
theorem foldlM_consume (keys : List NodeOutput) (runner : HandleLifetimeRunner T)
    (huses : ∀ key, keys.count key ≤ runner.uses key)
    (hhandles : ∀ key ∈ keys, (runner.storagekeyToHandle[key]?).isSome) :
    ∃ (runner' : HandleLifetimeRunner T) (driedKeys : List NodeOutput),
      keys.foldlM consume runner = .ok runner' ∧
      (∀ k : NodeOutput, runner'.uses k + keys.count k = runner.uses k) ∧
      (∀ k : NodeOutput, 0 < runner'.uses k → runner'.storagekeyToHandle[k]? = runner.storagekeyToHandle[k]?) ∧
      runner'.history = runner.history ++ driedKeys.map RunEvent.dried ∧
      ∀ k ∈ driedKeys, runner'.uses k = 0 := by
  induction keys generalizing runner with
  | nil =>
    exact ⟨runner, [], rfl, fun _ => rfl, fun _ _ => rfl, (List.append_nil _).symm, by simp⟩
  | cons key keys ih =>
    obtain ⟨hkey, hkeys⟩ := List.forall_mem_cons.mp hhandles
    obtain ⟨handle, hhandle⟩ := Option.isSome_iff_exists.mp hkey
    have hpos : 0 < runner.uses key := by
      have hle := huses key
      rw [List.count_cons_self] at hle
      omega
    obtain ⟨runner₁, dried₁, hstep, hcounts₁, hsame₁, hsome₁, hhistory₁, hdried₁⟩ :=
      consume_eq_ok hpos hhandle
    obtain ⟨runner', dried', hrest, hcounts', hsame', hhistory', hdried'⟩ := ih runner₁
      (fun k => by
        have hle := huses k
        have heq := hcounts₁ k
        rw [List.count_cons] at hle
        by_cases hk : k = key
        · subst hk
          simp only [beq_self_eq_true, if_true] at hle heq
          omega
        · simp only [if_neg hk, beq_iff_eq, Ne.symm hk, if_false] at hle heq
          omega)
      (fun k hk => by rw [hsome₁]; exact hkeys k hk)
    refine ⟨runner', dried₁ ++ dried', ?_, fun k => ?_, fun k hk => ?_, ?_, fun k hk => ?_⟩
    · rw [List.foldlM_cons, hstep, Outcome.ok_bind, hrest]
    · have heq₁ := hcounts₁ k
      have heq' := hcounts' k
      rw [List.count_cons]
      by_cases hk : k = key
      · subst hk
        simp only [beq_self_eq_true, if_true] at heq₁ ⊢
        omega
      · simp only [if_neg hk, beq_iff_eq, Ne.symm hk, if_false] at heq₁ ⊢
        omega
    · have heq' := hcounts' k
      rw [hsame' k hk, hsame₁ k (by omega)]
    · rw [hhistory', hhistory₁, List.append_assoc, List.map_append]
    · -- a count that has come to zero stays there
      rcases List.mem_append.mp hk with hk | hk
      · have heq' := hcounts' k
        have hzero := hdried₁ k hk
        omega
      · exact hdried' k hk

end HandleLifetimeRunner

end DeepProve
