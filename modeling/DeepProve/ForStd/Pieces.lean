import Mathlib

/-!
# Pieces of a list

A list is cut at the first or the last occurrence of an element, at all occurrences of an element or
of a pair of elements, and trimmed at both ends. Each is described by the pieces: the list is made
of them, and the separators do not occur where they would have been cut before.
-/

namespace Pieces

variable {α : Type} [DecidableEq α]

/-! ## Occurrences -/

variable {xs l : List α} {a : α}

/-- The first occurrence. -/
theorem idxOf?_eq_some_iff {i : Nat} :
    xs.idxOf? a = some i ↔ ∃ l r, xs = l ++ a :: r ∧ a ∉ l ∧ l.length = i := by
  rw [List.idxOf?_eq_some_iff]
  constructor
  · rintro ⟨hi, hget, hfirst⟩
    refine ⟨xs.take i, xs.drop (i + 1), ?_, ?_, by simp; omega⟩
    · rw [← hget, List.getElem_cons_drop, List.take_append_drop]
    · intro hmem
      obtain ⟨j, hj, heq⟩ := List.getElem_of_mem hmem
      rw [List.length_take] at hj
      rw [List.getElem_take] at heq
      exact hfirst j (by omega) heq
  · rintro ⟨l, r, rfl, hl, rfl⟩
    refine ⟨by simp, by simp, fun j hj heq => ?_⟩
    rw [List.getElem_append_left hj] at heq
    exact hl (heq ▸ List.getElem_mem hj)

/-- The place of the last occurrence. -/
def lastIdxOf? (xs : List α) (a : α) : Option Nat :=
  (xs.reverse.idxOf? a).map fun i => xs.length - 1 - i

theorem lastIdxOf?_eq_some_iff {i : Nat} :
    lastIdxOf? xs a = some i ↔ ∃ l r, xs = l ++ a :: r ∧ a ∉ r ∧ l.length = i := by
  unfold lastIdxOf?
  rw [Option.map_eq_some_iff]
  constructor
  · rintro ⟨j, hj, rfl⟩
    obtain ⟨l, r, hxs, hl, rfl⟩ := idxOf?_eq_some_iff.mp hj
    have hxs : xs = r.reverse ++ a :: l.reverse := by
      rw [← List.reverse_reverse xs, hxs]
      simp
    refine ⟨r.reverse, l.reverse, hxs, by simpa using hl, ?_⟩
    rw [hxs]
    simp
  · rintro ⟨l, r, rfl, hr, rfl⟩
    refine ⟨r.length, idxOf?_eq_some_iff.mpr ⟨r.reverse, l.reverse, ?_, by simpa using hr, ?_⟩, ?_⟩
    · simp
    · simp
    · simp

/-! ## Trimming -/

variable {p : α → Bool}

/-- Both ends are trimmed. -/
def trim (p : α → Bool) (xs : List α) : List α := (xs.dropWhile p).rdropWhile p

omit [DecidableEq α] in
/-- What is trimmed. -/
theorem exists_trim (p : α → Bool) (xs : List α) :
    ∃ before after, xs = before ++ trim p xs ++ after ∧ (∀ a ∈ before, p a) ∧
      ∀ a ∈ after, p a := by
  refine ⟨xs.takeWhile p, (xs.dropWhile p).rtakeWhile p, ?_, ?_, ?_⟩
  · rw [trim, List.append_assoc, List.rdropWhile_append_rtakeWhile, List.takeWhile_append_dropWhile]
  · exact fun a ha => List.mem_takeWhile_imp ha
  · exact fun a ha => List.mem_rtakeWhile_imp ha

omit [DecidableEq α] in
theorem dropWhile_append_of_forall {r : List α} (h : ∀ a ∈ l, p a) :
    (l ++ r).dropWhile p = r.dropWhile p := by
  rw [List.dropWhile_append, List.dropWhile_eq_nil_iff.mpr h]
  rfl

omit [DecidableEq α] in
theorem dropWhile_of_forall_not (h : ∀ a ∈ xs, ¬ p a) : xs.dropWhile p = xs := by
  cases xs with
  | nil => rfl
  | cons a xs => exact List.dropWhile_cons_of_neg (h a List.mem_cons_self)

omit [DecidableEq α] in
/-- Nothing but the ends is trimmed. -/
theorem trim_eq {before middle after : List α} (hbefore : ∀ a ∈ before, p a)
    (hmiddle : ∀ a ∈ middle, ¬ p a) (hafter : ∀ a ∈ after, p a) :
    trim p (before ++ middle ++ after) = middle := by
  unfold trim
  rw [List.append_assoc, dropWhile_append_of_forall hbefore]
  cases middle with
  | nil =>
    rw [List.nil_append, List.dropWhile_eq_nil_iff.mpr hafter]
    rfl
  | cons a middle =>
    rw [List.cons_append, List.dropWhile_cons_of_neg (hmiddle a List.mem_cons_self), List.rdropWhile,
      ← List.cons_append, List.reverse_append, dropWhile_append_of_forall (by simpa using hafter),
      dropWhile_of_forall_not fun x hx => hmiddle x (List.mem_reverse.mp hx), List.reverse_reverse]

omit [DecidableEq α] in
/-- A trimmed element is of the ends. -/
theorem mem_trim (h : a ∈ xs) (ha : ¬ p a) : a ∈ trim p xs := by
  obtain ⟨before, after, hxs, hbefore, hafter⟩ := exists_trim p xs
  rw [hxs] at h
  simp only [List.mem_append] at h
  rcases h with (h | h) | h
  · exact absurd (hbefore a h) ha
  · exact h
  · exact absurd (hafter a h) ha

/-! ## Cutting at an element -/

/-- The element does not occur in the pieces. -/
theorem not_mem_of_mem_splitOn {piece : List α} (h : piece ∈ xs.splitOn a) :
    a ∉ piece := by
  induction xs generalizing piece with
  | nil =>
    rw [List.splitOn_nil] at h
    rw [List.mem_singleton.mp h]
    exact List.not_mem_nil
  | cons x xs ih =>
    rw [List.splitOn_cons_eq_if_modifyHead] at h
    split at h
    · rcases List.mem_cons.mp h with rfl | h
      · exact List.not_mem_nil
      · exact ih h
    · next hne =>
      obtain ⟨first, rest, hsplit⟩ := List.exists_cons_of_ne_nil (List.splitOn_ne_nil a xs)
      rw [hsplit, List.modifyHead_cons] at h
      rcases List.mem_cons.mp h with rfl | h
      · have hfirst := ih (hsplit ▸ List.mem_cons_self)
        intro hmem
        rcases List.mem_cons.mp hmem with rfl | hmem
        · exact hne BEq.rfl
        · exact hfirst hmem
      · exact ih (hsplit ▸ List.mem_cons_of_mem _ h)

omit [DecidableEq α] in
/-- Separators that agree on the list. -/
theorem splitOnP_congr {p q : α → Bool} (h : ∀ a ∈ xs, p a = q a) :
    xs.splitOnP p = xs.splitOnP q := by
  induction xs with
  | nil => rw [List.splitOnP_nil, List.splitOnP_nil]
  | cons a xs ih =>
    obtain ⟨ha, hxs⟩ := List.forall_mem_cons.mp h
    rw [List.splitOnP_cons_eq_if_modifyHead, List.splitOnP_cons_eq_if_modifyHead, ha, ih hxs]

/-! ## Cutting at a pair -/

/-- The list is cut wherever one element follows the other. -/
def splitOnPair (a b : α) : List α → List (List α)
  | [] => [[]]
  | [c] => [[c]]
  | c :: d :: xs =>
    if c = a ∧ d = b then
      [] :: splitOnPair a b xs
    else
      (splitOnPair a b (d :: xs)).modifyHead (c :: ·)

/-- The pair does not occur. -/
def NoPair (a b : α) (xs : List α) : Prop := splitOnPair a b xs = [xs]

instance (a b : α) (xs : List α) : Decidable (NoPair a b xs) :=
  inferInstanceAs (Decidable (splitOnPair a b xs = [xs]))

theorem splitOnPair_cons_of_eq (a b : α) (xs : List α) :
    splitOnPair a b (a :: b :: xs) = [] :: splitOnPair a b xs := if_pos ⟨rfl, rfl⟩

theorem splitOnPair_ne_nil (a b : α) (xs : List α) : splitOnPair a b xs ≠ [] := by
  fun_induction splitOnPair a b xs with
  | case1 => simp
  | case2 c => simp
  | case3 xs => simp
  | case4 c d xs hne ih => simpa using ih

theorem splitOnPair_cons_of_not {b c d : α} (h : ¬ (c = a ∧ d = b)) :
    splitOnPair a b (c :: d :: xs) = (splitOnPair a b (d :: xs)).modifyHead (c :: ·) :=
  if_neg h

/-- An element in front, where it makes no pair. -/
theorem NoPair.cons {a b c : α} {xs : List α} (h : NoPair a b xs)
    (hc : ∀ d ∈ xs.head?, ¬ (c = a ∧ d = b)) : NoPair a b (c :: xs) := by
  cases xs with
  | nil => rfl
  | cons d xs =>
    rw [NoPair, splitOnPair_cons_of_not (hc d rfl), h]
    rfl

theorem NoPair.tail {b c d : α} (h : NoPair a b (c :: d :: xs)) :
    ¬ (c = a ∧ d = b) ∧ NoPair a b (d :: xs) := by
  have hne : ¬ (c = a ∧ d = b) := by
    rintro ⟨rfl, rfl⟩
    rw [NoPair, splitOnPair_cons_of_eq] at h
    cases (List.cons.inj h).1
  refine ⟨hne, ?_⟩
  rw [NoPair, splitOnPair_cons_of_not hne] at h
  obtain ⟨first, rest, hsplit⟩ := List.exists_cons_of_ne_nil (splitOnPair_ne_nil a b (d :: xs))
  rw [hsplit, List.modifyHead_cons] at h
  obtain ⟨hfirst, rfl⟩ := List.cons.inj h
  rw [NoPair, hsplit, (List.cons.inj hfirst).2]

/-- The first piece ends at the first pair. -/
theorem splitOnPair_append {b : α} (hab : a ≠ b) (hl : NoPair a b l) (xs : List α) :
    splitOnPair a b (l ++ a :: b :: xs) = l :: splitOnPair a b xs := by
  induction l with
  | nil => rw [List.nil_append, splitOnPair_cons_of_eq]
  | cons c l ih =>
    cases l with
    | nil =>
      rw [List.cons_append, List.nil_append, splitOnPair_cons_of_not fun h => hab h.2,
        splitOnPair_cons_of_eq]
      rfl
    | cons d l =>
      obtain ⟨hne, htail⟩ := hl.tail
      rw [List.cons_append, List.cons_append, splitOnPair_cons_of_not hne]
      show (splitOnPair a b ((d :: l) ++ a :: b :: xs)).modifyHead (c :: ·) = _
      rw [ih htail]
      rfl

/-- The first of several pieces is followed by the pair. -/
theorem eq_append_of_splitOnPair {b : α} {rest : List (List α)} (h : splitOnPair a b xs = l :: rest)
    (hrest : rest ≠ []) :
    ∃ ys, xs = l ++ a :: b :: ys ∧ NoPair a b l ∧ splitOnPair a b ys = rest := by
  fun_induction splitOnPair a b xs generalizing l with
  | case1 => exact absurd (List.cons.inj h).2.symm hrest
  | case2 c => exact absurd (List.cons.inj h).2.symm hrest
  | case3 c d xs heq =>
    obtain ⟨rfl, rfl⟩ := heq
    obtain ⟨rfl, rfl⟩ := List.cons.inj h
    exact ⟨xs, rfl, rfl, rfl⟩
  | case4 c d xs hne ih =>
    obtain ⟨first, others, hsplit⟩ := List.exists_cons_of_ne_nil (splitOnPair_ne_nil a b (d :: xs))
    rw [hsplit, List.modifyHead_cons] at h
    obtain ⟨rfl, rfl⟩ := List.cons.inj h
    obtain ⟨ys, hxs, hfirst, hys⟩ := ih hsplit
    refine ⟨ys, by rw [hxs, List.cons_append], hfirst.cons ?_, hys⟩
    intro e he
    cases first with
    | nil => cases he
    | cons e' first =>
      obtain rfl := (List.cons.inj hxs).1
      obtain rfl := Option.some.inj he
      exact hne

/-- A single piece is the whole list. -/
theorem eq_of_splitOnPair {b : α} (h : splitOnPair a b xs = [l]) : xs = l := by
  fun_induction splitOnPair a b xs generalizing l with
  | case1 => exact (List.cons.inj h).1
  | case2 c => exact (List.cons.inj h).1
  | case3 c d xs heq => exact absurd (List.cons.inj h).2 (splitOnPair_ne_nil a b xs)
  | case4 c d xs hne ih =>
    obtain ⟨first, others, hsplit⟩ := List.exists_cons_of_ne_nil (splitOnPair_ne_nil a b (d :: xs))
    rw [hsplit, List.modifyHead_cons] at h
    obtain ⟨rfl, rfl⟩ := List.cons.inj h
    rw [ih hsplit]

/-- A list that is cut once. -/
theorem splitOnPair_eq_two_iff {b : α} (hab : a ≠ b) {r : List α} :
    splitOnPair a b xs = [l, r] ↔ xs = l ++ a :: b :: r ∧ NoPair a b l ∧ NoPair a b r := by
  constructor
  · intro h
    obtain ⟨ys, hxs, hl, hys⟩ := eq_append_of_splitOnPair h (List.cons_ne_nil _ _)
    obtain rfl := eq_of_splitOnPair hys
    exact ⟨hxs, hl, hys⟩
  · rintro ⟨rfl, hl, hr⟩
    rw [splitOnPair_append hab hl, hr]

end Pieces
