import DeepProve.ForStd.Dag

/-!
# Visiting a graph in rounds

The vertices that are left are scanned in a fixed order, again and again; a
vertex is visited as soon as it is reached in a scan and all its dependencies
have been visited. `Late k v` characterizes the vertices that are left after
`k` rounds, by the steps against the scan order on the dependency paths to `v`.
-/

namespace RoundVisit

variable {V : Type*} [DecidableEq V] (deps : V → List V)

/-- One scan over the vertices: those visited in it. -/
def scan : Finset V → List V → List V
  | _, [] => []
  | visited, v :: l =>
    if ∀ d ∈ deps v, d ∈ visited then v :: scan (insert v visited) l else scan visited l

/-- The vertices visited so far, in the order of the visit, and those left,
    after a number of rounds. -/
def rounds (order : List V) : Nat → List V × List V
  | 0 => ([], order)
  | n + 1 =>
    let (done, left) := rounds order n
    let new := scan deps done.toFinset left
    (done ++ new, left.filter (· ∉ new))

/-- Every vertex of the list comes after its dependencies, as long as these are
    not in `visited`. -/
def Ordered : Finset V → List V → Prop
  | _, [] => True
  | visited, v :: l => (∀ d ∈ deps v, d ∈ visited) ∧ Ordered (insert v visited) l

/-- A path of dependencies leads to `v` that makes `k` steps against the order
    `r` in which the vertices are scanned. -/
inductive Late (r : V → V → Prop) : Nat → V → Prop
  | zero (v : V) : Late r 0 v
  | along {k : Nat} {d v : V} : d ∈ deps v → r d v → Late r k d → Late r k v
  | against {k : Nat} {d v : V} : d ∈ deps v → r v d → Late r k d → Late r (k + 1) v

variable {deps} {r : V → V → Prop}

theorem Ordered.append {visited : Finset V} {l l' : List V} (hl : Ordered deps visited l)
    (hl' : Ordered deps (visited ∪ l.toFinset) l') : Ordered deps visited (l ++ l') := by
  induction l generalizing visited with
  | nil => simpa using hl'
  | cons v l ih =>
    refine ⟨hl.1, ih hl.2 ?_⟩
    rwa [List.toFinset_cons, Finset.union_insert, ← Finset.insert_union] at hl'

/-- The dependencies of a vertex are among the vertices before it. -/
theorem Ordered.mem_of_append {visited : Finset V} {l l' : List V} {v d : V}
    (hl : Ordered deps visited (l ++ v :: l')) (hd : d ∈ deps v) : d ∈ visited ∨ d ∈ l := by
  induction l generalizing visited with
  | nil => exact .inl (hl.1 d hd)
  | cons w l ih =>
    rcases ih hl.2 with hmem | hmem
    · rcases Finset.mem_insert.mp hmem with hmem | hmem
      · exact .inr (hmem ▸ List.mem_cons_self ..)
      · exact .inl hmem
    · exact .inr (List.mem_cons_of_mem _ hmem)

theorem scan_sublist (deps : V → List V) (visited : Finset V) (l : List V) : (scan deps visited l).Sublist l := by
  induction l generalizing visited with
  | nil => exact List.Sublist.refl _
  | cons v l ih =>
    rw [scan]
    split
    · exact (ih _).cons_cons v
    · exact (ih _).cons v

theorem ordered_scan (visited : Finset V) (l : List V) :
    Ordered deps visited (scan deps visited l) := by
  induction l generalizing visited with
  | nil => trivial
  | cons v l ih =>
    rw [scan]
    split
    · rename_i hdeps
      exact ⟨hdeps, ih _⟩
    · exact ih _

omit [DecidableEq V] in
theorem Late.of_succ {k : Nat} {v : V} (hv : Late deps r (k + 1) v) : Late deps r k v := by
  generalize hk : k + 1 = n at hv
  induction hv generalizing k with
  | zero v => omega
  | along hd hr _ ih => exact .along hd hr (ih hk)
  | @against n d v hd hr hlate ih =>
    obtain rfl : k = n := by omega
    cases k with
    | zero => exact .zero v
    | succ k => exact .against hd hr (ih rfl)

omit [DecidableEq V] in
/-- What makes a vertex late once more. -/
theorem late_succ_iff {k : Nat} {v : V} :
    Late deps r (k + 1) v ↔
      ∃ d ∈ deps v, (r d v ∧ Late deps r (k + 1) d) ∨ (r v d ∧ Late deps r k d) := by
  constructor
  · intro hv
    cases hv with
    | along hd hr hlate => exact ⟨_, hd, .inl ⟨hr, hlate⟩⟩
    | against hd hr hlate => exact ⟨_, hd, .inr ⟨hr, hlate⟩⟩
  · intro ⟨d, hd, hcases⟩
    rcases hcases with ⟨hr, hlate⟩ | ⟨hr, hlate⟩
    · exact .along hd hr hlate
    · exact .against hd hr hlate

/-- On an acyclic graph no vertex is late more often than its depth. -/
theorem Late.le_depth {order : List V} (hacyclic : Dag.Acyclic fun d v => d ∈ deps v)
    (hdeps : ∀ v ∈ order, ∀ d ∈ deps v, d ∈ order) {k : Nat} {v : V} (hv : Late deps r k v)
    (hmem : v ∈ order) : k ≤ Dag.depth (fun d v => d ∈ deps v) order.toFinset v := by
  induction hv with
  | zero v => exact Nat.zero_le _
  | @along k d v hd _ _ ih =>
    have hdmem := hdeps v hmem d hd
    have hlt := Dag.depth_lt_depth hacyclic (List.mem_toFinset.mpr hdmem) hd
    have hle := ih hdmem
    omega
  | @against k d v hd _ _ ih =>
    have hdmem := hdeps v hmem d hd
    have hlt := Dag.depth_lt_depth hacyclic (List.mem_toFinset.mpr hdmem) hd
    have hle := ih hdmem
    omega

/-! ## What is left after a number of rounds -/

section Rounds

variable [IsStrictTotalOrder V r] {order : List V}

/-- In round `k + 1` the vertices are visited that are not late `k + 1` times.
    `l` is the rest of the scan, and what was scanned before it precedes it. -/
theorem mem_scan_iff {k : Nat} (hirrefl : ∀ v, v ∉ deps v)
    (hdeps : ∀ v ∈ order, ∀ d ∈ deps v, d ∈ order) (l : List V) (hl : l.Pairwise r)
    (hlate : ∀ v ∈ l, v ∈ order ∧ Late deps r k v) (visited : Finset V)
    (hvisited : ∀ d ∈ order, d ∈ visited ↔ ¬Late deps r (k + 1) d ∧ (Late deps r k d → d ∉ l))
    (hbefore : ∀ d ∈ order, Late deps r k d → d ∉ l → ∀ w ∈ l, r d w) (v : V) :
    v ∈ scan deps visited l ↔ v ∈ l ∧ ¬Late deps r (k + 1) v := by
  induction l generalizing visited with
  | nil => simp [scan]
  | cons w l ih =>
    obtain ⟨hw, hl⟩ := List.pairwise_cons.mp hl
    obtain ⟨hworder, hwlate⟩ := hlate w (List.mem_cons_self ..)
    have hwl : w ∉ l := fun hmem => irrefl_of r w (hw w hmem)
    have hready : (∀ d ∈ deps w, d ∈ visited) ↔ ¬Late deps r (k + 1) w := by
      rw [late_succ_iff]
      constructor
      · intro hall ⟨d, hd, hcases⟩
        obtain ⟨hnot, hscanned⟩ := (hvisited d (hdeps w hworder d hd)).mp (hall d hd)
        rcases hcases with ⟨-, hdlate⟩ | ⟨hr, hdlate⟩
        · exact hnot hdlate
        · -- a later vertex cannot have been scanned already
          have hrd := hbefore d (hdeps w hworder d hd) hdlate (hscanned hdlate) w
            (List.mem_cons_self ..)
          exact asymm_of r hr hrd
      · intro hnot d hd
        have hdorder := hdeps w hworder d hd
        rw [hvisited d hdorder]
        rcases trichotomous_of r d w with hr | hdw | hr
        · refine ⟨fun hdlate => hnot ⟨d, hd, .inl ⟨hr, hdlate⟩⟩, fun _ hmem => ?_⟩
          rcases List.mem_cons.mp hmem with hdw | hmem
          · exact hirrefl w (hdw ▸ hd)
          · exact asymm_of r hr (hw d hmem)
        · exact absurd (hdw ▸ hd) (hirrefl w)
        · have hdnot : ¬Late deps r k d := fun hdlate => hnot ⟨d, hd, .inr ⟨hr, hdlate⟩⟩
          exact ⟨fun hdlate => hdnot hdlate.of_succ, fun hdlate => absurd hdlate hdnot⟩
    have hbefore' : ∀ d ∈ order, Late deps r k d → d ∉ l → ∀ u ∈ l, r d u := by
      intro d hd hdlate hdl u hu
      by_cases hdw : d = w
      · exact hdw ▸ hw u hu
      · exact hbefore d hd hdlate (by simp [hdw, hdl]) u (List.mem_cons_of_mem _ hu)
    have hlate' : ∀ v ∈ l, v ∈ order ∧ Late deps r k v :=
      fun v hv => hlate v (List.mem_cons_of_mem _ hv)
    rw [scan]
    split
    · rename_i hall
      have hnot := hready.mp hall
      rw [List.mem_cons, List.mem_cons, ih hl hlate' _ ?_ hbefore']
      · by_cases hvw : v = w
        · simp [hvw, hnot]
        · simp [hvw]
      · intro d hd
        by_cases hdw : d = w
        · simp [hdw, hnot, hwl]
        · simp [hdw, hvisited d hd]
    · rename_i hall
      have hwlate' : Late deps r (k + 1) w := by
        by_contra hnot
        exact hall (hready.mpr hnot)
      rw [List.mem_cons, ih hl hlate' _ ?_ hbefore']
      · by_cases hvw : v = w
        · simp [hvw, hwlate', hwl]
        · simp [hvw]
      · intro d hd
        by_cases hdw : d = w
        · simp [hdw, hvisited w hworder, hwlate']
        · simp [hdw, hvisited d hd]

/-- The vertices of a round and those left after it. -/
private theorem scan_append_filter_perm (visited : Finset V) {l : List V} (hl : l.Nodup) :
    (scan deps visited l ++ l.filter (· ∉ scan deps visited l)).Perm l := by
  have hsub := scan_sublist deps visited l
  have hnew : (scan deps visited l).Perm (l.filter (· ∈ scan deps visited l)) := by
    rw [List.perm_ext_iff_of_nodup (hl.sublist hsub) (hl.filter _)]
    intro v
    rw [List.mem_filter, decide_eq_true_eq]
    exact ⟨fun hv => ⟨hsub.subset hv, hv⟩, fun hv => hv.2⟩
  refine (hnew.append_right _).trans ?_
  have hsplit := List.filter_append_perm (fun v => decide (v ∈ scan deps visited l)) l
  simpa only [decide_not] using hsplit

/-- After `k` rounds the vertices late `k` times are left; the others have been
    visited, each after its dependencies. -/
structure AfterRounds (deps : V → List V) (r : V → V → Prop) (order : List V) (k : Nat) : Prop where
  left : ∀ v, v ∈ (rounds deps order k).2 ↔ v ∈ order ∧ Late deps r k v
  sublist : (rounds deps order k).2.Sublist order
  perm : ((rounds deps order k).1 ++ (rounds deps order k).2).Perm order
  ordered : Ordered deps ∅ (rounds deps order k).1

theorem afterRounds (hirrefl : ∀ v, v ∉ deps v) (hdeps : ∀ v ∈ order, ∀ d ∈ deps v, d ∈ order)
    (horder : order.Pairwise r) (k : Nat) : AfterRounds deps r order k := by
  have hnodup : order.Nodup := by
    refine List.nodup_iff_pairwise_ne.mpr (horder.imp fun {a b} hab heq => ?_)
    exact irrefl_of r a (heq ▸ hab)
  induction k with
  | zero =>
    exact {
      left := fun v => ⟨fun hv => ⟨hv, .zero v⟩, fun hv => hv.1⟩
      sublist := List.Sublist.refl _
      perm := List.Perm.refl _
      ordered := trivial }
  | succ k ih =>
    obtain ⟨hleft, hsub, hperm, hordered⟩ := ih
    have hdone : ∀ d ∈ order, d ∈ (rounds deps order k).1 ↔ ¬Late deps r k d := by
      intro d hd
      have hdisj := (List.nodup_append.mp (hperm.nodup_iff.mpr hnodup)).2.2
      have hmem : d ∈ (rounds deps order k).1 ∨ d ∈ (rounds deps order k).2 := by
        rw [← List.mem_append, hperm.mem_iff]
        exact hd
      constructor
      · intro hd₁ hdlate
        exact hdisj d hd₁ d ((hleft d).mpr ⟨hd, hdlate⟩) rfl
      · intro hdnot
        exact hmem.resolve_right fun hd₂ => hdnot ((hleft d).mp hd₂).2
    have hscan := mem_scan_iff (k := k) hirrefl hdeps (rounds deps order k).2 (horder.sublist hsub)
      (fun v hv => (hleft v).mp hv) (rounds deps order k).1.toFinset
      (fun d hd => by
        rw [List.mem_toFinset, hdone d hd]
        constructor
        · exact fun hnot => ⟨fun hdlate => hnot hdlate.of_succ, fun hdlate => absurd hdlate hnot⟩
        · exact fun h hdlate => h.2 hdlate ((hleft d).mpr ⟨hd, hdlate⟩))
      (fun d hd hdlate hdl => absurd ((hleft d).mpr ⟨hd, hdlate⟩) hdl)
    have hnext : rounds deps order (k + 1) =
        ((rounds deps order k).1 ++
            scan deps (rounds deps order k).1.toFinset (rounds deps order k).2,
          (rounds deps order k).2.filter
            (· ∉ scan deps (rounds deps order k).1.toFinset (rounds deps order k).2)) := rfl
    exact {
      left := by
        intro v
        rw [hnext, List.mem_filter, decide_eq_true_eq, hscan, hleft]
        constructor
        · intro ⟨hv, hnot⟩
          refine ⟨hv.1, ?_⟩
          by_contra hlate
          exact hnot ⟨hv, hlate⟩
        · exact fun ⟨hv, hlate⟩ => ⟨⟨hv, hlate.of_succ⟩, fun hnot => hnot.2 hlate⟩
      sublist := by
        rw [hnext]
        exact List.filter_sublist.trans hsub
      perm := by
        rw [hnext, List.append_assoc]
        exact ((scan_append_filter_perm _ (hnodup.sublist hsub)).append_left _).trans hperm
      ordered := by
        rw [hnext]
        refine hordered.append ?_
        rw [Finset.empty_union]
        exact ordered_scan _ _ }

end Rounds

/-! ## What can be visited at all -/

section Founded

/-- Every chain of dependencies from `v` ends, and stays among the vertices of `order`. -/
inductive Founded (deps : V → List V) (order : List V) : V → Prop
  | intro (v : V) : v ∈ order → (∀ d ∈ deps v, Founded deps order d) → Founded deps order v

variable {order : List V}

omit [DecidableEq V] in
theorem Founded.mem {v : V} (hv : Founded deps order v) : v ∈ order := by
  cases hv with
  | intro _ hmem _ => exact hmem

variable {visited : Finset V}

/-- A scan visits founded vertices only. -/
theorem founded_of_mem_scan (hvisited : ∀ d ∈ visited, Founded deps order d) {l : List V}
    (hl : ∀ v ∈ l, v ∈ order) {v : V} (hv : v ∈ scan deps visited l) :
    Founded deps order v := by
  induction l generalizing visited with
  | nil => exact absurd hv List.not_mem_nil
  | cons w l ih =>
    obtain ⟨hw, hl⟩ := List.forall_mem_cons.mp hl
    rw [scan] at hv
    split at hv
    · rename_i hready
      have hfounded : Founded deps order w := .intro w hw fun d hd => hvisited d (hready d hd)
      have hinsert : ∀ d ∈ insert w visited, Founded deps order d := by
        intro d hd
        rcases Finset.mem_insert.mp hd with rfl | hd
        · exact hfounded
        · exact hvisited d hd
      rcases List.mem_cons.mp hv with rfl | hv
      · exact hfounded
      · exact ih hinsert hl hv
    · exact ih hvisited hl hv

/-- A vertex whose dependencies have all been visited is found by the next scan. -/
theorem mem_scan_of_ready {l : List V} {v : V} (hv : v ∈ l) (hready : ∀ d ∈ deps v, d ∈ visited) :
    v ∈ scan deps visited l := by
  induction l generalizing visited with
  | nil => exact absurd hv List.not_mem_nil
  | cons w l ih =>
    rw [scan]
    rcases List.mem_cons.mp hv with rfl | hv
    · rw [if_pos hready]
      exact List.mem_cons_self
    · split
      · have hready' : ∀ d ∈ deps v, d ∈ insert w visited :=
          fun d hd => Finset.mem_insert_of_mem (hready d hd)
        exact List.mem_cons_of_mem _ (ih hv hready')
      · exact ih hv hready

omit [DecidableEq V] in
/-- If not all founded vertices have been visited, one of them is ready. -/
theorem Founded.exists_ready {v : V} (hv : Founded deps order v) (hnot : v ∉ visited) :
    ∃ w ∈ order, w ∉ visited ∧ ∀ d ∈ deps w, d ∈ visited := by
  induction hv with
  | intro v hmem _ ih =>
    by_cases hready : ∀ d ∈ deps v, d ∈ visited
    · exact ⟨v, hmem, hnot, hready⟩
    · -- a dependency that has not been visited is founded too
      have hex : ∃ d, d ∈ deps v ∧ d ∉ visited := by
        by_contra hall
        exact hready fun d hd => by_contra fun hd' => hall ⟨d, hd, hd'⟩
      obtain ⟨d, hd, hd'⟩ := hex
      exact ih d hd hd'

end Founded

end RoundVisit
