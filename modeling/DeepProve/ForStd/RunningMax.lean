import Mathlib

/-!
# Evaluations that share a running maximum

Every item has a measure, and the items of a call are finished with the largest measure of this and
of earlier calls. Items that are evaluated in several calls may be finished with a smaller maximum than
in one call.
-/

namespace RunningMax

variable {ρ ω ε : Type} (measure : ρ → Except ε Nat) (finish : Nat → ρ → ω)

/-- One call. -/
def evaluate (top : Nat) (items : List ρ) : Except ε (Nat × List ω) := do
  let measures ← items.mapM measure
  let top := measures.foldl max top
  return (top, items.map (finish top))

/-- Calls one after the other. -/
def evaluateSegments : Nat → List (List ρ) → Except ε (List ω)
  | _, [] => .ok []
  | top, segment :: segments => do
    let (top, outputs) ← evaluate measure finish top segment
    let rest ← evaluateSegments top segments
    return outputs ++ rest

/-- The measure of an item that has one. -/
def size (item : ρ) : Nat :=
  match measure item with
  | .ok n => n
  | .error _ => 0

/-- The largest measure. -/
def largest (items : List ρ) : Nat := (items.map (size measure)).foldl max 0

variable {measure finish}

theorem foldl_max (l : List Nat) (a : Nat) : l.foldl max a = max a (l.foldl max 0) := by
  induction l generalizing a with
  | nil => exact (Nat.max_zero a).symm
  | cons b l ih =>
    rw [List.foldl_cons, List.foldl_cons, ih, ih (max 0 b), Nat.zero_max]
    exact max_assoc a b _

theorem largest_append (xs ys : List ρ) :
    largest measure (xs ++ ys) = max (largest measure xs) (largest measure ys) := by
  rw [largest, List.map_append, List.foldl_append, foldl_max]
  rfl

variable {segments : List (List ρ)} {items : List ρ}

theorem le_largest {item : ρ} (h : item ∈ items) :
    size measure item ≤ largest measure items := by
  induction items with
  | nil => cases h
  | cons other items ih =>
    have hcons : largest measure (other :: items) =
        max (size measure other) (largest measure items) := by
      rw [largest, List.map_cons, List.foldl_cons, Nat.zero_max, foldl_max]
      rfl
    rw [hcons]
    rcases List.mem_cons.mp h with rfl | h
    · exact le_max_left _ _
    · exact (ih h).trans (le_max_right _ _)

theorem mapM_measure (h : ∀ item ∈ items, ∃ n, measure item = .ok n) :
    items.mapM measure = .ok (items.map (size measure)) := by
  induction items with
  | nil => rfl
  | cons item items ih =>
    obtain ⟨⟨n, hn⟩, hitems⟩ := List.forall_mem_cons.mp h
    have hsize : size measure item = n := by
      rw [size, hn]
    rw [List.mapM_cons, hn, ih hitems, List.map_cons, hsize]
    rfl

theorem exists_mapM_eq_error (h : ∃ item ∈ items, ∀ n, measure item ≠ .ok n) :
    ∃ e, items.mapM measure = .error e := by
  induction items with
  | nil => simp at h
  | cons item items ih =>
    rw [List.mapM_cons]
    cases hitem : measure item with
    | error e => exact ⟨e, rfl⟩
    | ok n =>
      obtain ⟨other, hother, hnone⟩ := h
      rcases List.mem_cons.mp hother with rfl | hother
      · exact absurd hitem (hnone n)
      · obtain ⟨e, he⟩ := ih ⟨other, hother, hnone⟩
        rw [he]
        exact ⟨e, rfl⟩

/-- A call whose items all have measures. -/
theorem evaluate_eq_ok (h : ∀ item ∈ items, ∃ n, measure item = .ok n) (top : Nat) :
    evaluate measure finish top items = .ok (max top (largest measure items),
      items.map (finish (max top (largest measure items)))) := by
  rw [evaluate, mapM_measure h, largest, ← foldl_max]
  rfl

/-- The first item without a measure ends the calls. -/
theorem evaluateSegments_eq_error {e : ε} (h : segments.flatten.mapM measure = .error e)
    (top : Nat) :
    evaluateSegments measure finish top segments = .error e := by
  induction segments generalizing top with
  | nil => cases h
  | cons segment segments ih =>
    rw [List.flatten_cons, List.mapM_append] at h
    rw [evaluateSegments, evaluate]
    cases hsegment : segment.mapM measure with
    | error e' =>
      rw [hsegment] at h
      cases h
      rfl
    | ok measures =>
      rw [hsegment] at h
      cases hrest : segments.flatten.mapM measure with
      | ok _ =>
        rw [hrest] at h
        cases h
      | error e' =>
        rw [hrest] at h
        cases h
        have hlater := ih hrest (measures.foldl max top)
        change (do
          let rest ← evaluateSegments measure finish (measures.foldl max top) segments
          return segment.map (finish (measures.foldl max top)) ++ rest) = _
        rw [hlater]
        rfl

/-- Several calls give what one call gives, for an arbitrary maximum before and at the end. -/
theorem evaluateSegments_eq_ok_iff (h : ∀ item ∈ segments.flatten, ∃ n, measure item = .ok n)
    (top last : Nat) :
    evaluateSegments measure finish top segments = .ok (segments.flatten.map (finish last)) ↔
      ∀ before segment after, segments = before ++ segment :: after → ∀ item ∈ segment,
        finish (max top (largest measure (before.flatten ++ segment))) item = finish last item := by
  induction segments generalizing top with
  | nil =>
    constructor
    · intro _ before segment after hsplit
      simp at hsplit
    · intro _
      rfl
  | cons first segments ih =>
    rw [List.flatten_cons] at h
    have hfirst : evaluate measure finish top first = .ok (max top (largest measure first),
        first.map (finish (max top (largest measure first)))) :=
      evaluate_eq_ok (fun item hitem => h item (List.mem_append_left _ hitem)) top
    have hlater := ih (fun item hitem => h item (List.mem_append_right _ hitem))
      (max top (largest measure first))
    -- the outputs of the first call, and those of the later ones
    have houtputs : evaluateSegments measure finish top (first :: segments) =
        .ok ((first :: segments).flatten.map (finish last)) ↔
          first.map (finish (max top (largest measure first))) = first.map (finish last) ∧
            evaluateSegments measure finish (max top (largest measure first)) segments =
              .ok (segments.flatten.map (finish last)) := by
      rw [evaluateSegments, hfirst, List.flatten_cons, List.map_append]
      change (do
        let rest ← evaluateSegments measure finish (max top (largest measure first)) segments
        return first.map (finish (max top (largest measure first))) ++ rest) = _ ↔ _
      cases evaluateSegments measure finish (max top (largest measure first)) segments with
      | error e =>
        constructor
        · intro hok
          exact nomatch hok
        · rintro ⟨-, hok⟩
          exact nomatch hok
      | ok rest =>
        change Except.ok _ = Except.ok _ ↔ _
        rw [Except.ok.injEq, Except.ok.injEq]
        constructor
        · intro happend
          exact List.append_inj happend (by simp)
        · rintro ⟨hhead, htail⟩
          rw [hhead, htail]
    rw [houtputs, hlater, List.map_inj_left]
    constructor
    · rintro ⟨hhead, htail⟩ before segment after hsplit item hitem
      cases before with
      | nil =>
        obtain ⟨rfl, rfl⟩ := List.cons.inj hsplit
        exact hhead item hitem
      | cons other before =>
        obtain ⟨rfl, hrest⟩ := List.cons.inj hsplit
        have hitem := htail before segment after hrest item hitem
        rwa [max_assoc, ← largest_append, ← List.append_assoc, ← List.flatten_cons] at hitem
    · intro hall
      constructor
      · intro item hitem
        exact hall [] first segments rfl item hitem
      · intro before segment after hsplit item hitem
        have hitem := hall (first :: before) segment after (by rw [hsplit, List.cons_append]) item hitem
        rwa [List.flatten_cons, List.append_assoc, largest_append, ← max_assoc] at hitem

/-- Several calls give what one call gives exactly if an item has no measure, or every item is
    finished in the same way with the maximum of its call as with the one of all items. -/
theorem evaluateSegments_eq_iff :
    evaluateSegments measure finish 0 segments =
        (evaluate measure finish 0 segments.flatten).map Prod.snd ↔
      (∃ item ∈ segments.flatten, ∀ n, measure item ≠ .ok n) ∨
        ∀ before segment after, segments = before ++ segment :: after → ∀ item ∈ segment,
          finish (largest measure (before.flatten ++ segment)) item =
            finish (largest measure segments.flatten) item := by
  by_cases h : ∀ item ∈ segments.flatten, ∃ n, measure item = .ok n
  · have hnot : ¬ ∃ item ∈ segments.flatten, ∀ n, measure item ≠ .ok n := by
      rintro ⟨item, hitem, hnone⟩
      obtain ⟨n, hn⟩ := h item hitem
      exact hnone n hn
    have hall : (evaluate measure finish 0 segments.flatten).map Prod.snd =
        .ok (segments.flatten.map (finish (largest measure segments.flatten))) := by
      rw [evaluate_eq_ok h, Nat.zero_max]
      rfl
    rw [hall, evaluateSegments_eq_ok_iff h, or_iff_right hnot]
    simp only [Nat.zero_max]
  · push Not at h
    -- the error of the first item that has no measure
    obtain ⟨e, he⟩ := exists_mapM_eq_error h
    rw [evaluateSegments_eq_error he, evaluate, he]
    constructor
    · intro _
      exact Or.inl h
    · intro _
      rfl

end RunningMax
