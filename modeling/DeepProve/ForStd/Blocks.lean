import Mathlib

/-!
# Blocks laid out one after another

Items of various widths take up consecutive blocks of a vector, in the order of a
list. `layout` gives every item the start of its block. Two lists with the same
items can place an item differently; they agree on all items that take up any
room exactly if they list these in the same order.

The second part is about lists in the order of a key: going through the keys from
the largest down and collecting the items of each key sorts a list and leaves a
sorted list alone.
-/

namespace Blocks

variable {α : Type*}

/-- Every item with the start of its block. -/
def layout (width : α → Nat) : Nat → List α → List (α × Nat)
  | _, [] => []
  | start, a :: l => (a, start) :: layout width (start + width a) l

/-- The length of the vector the items take up. -/
def total (width : α → Nat) (l : List α) : Nat := (l.map width).sum

@[simp] theorem total_nil (width : α → Nat) : total width [] = 0 := rfl

@[simp] theorem total_cons (width : α → Nat) (a : α) (l : List α) :
    total width (a :: l) = width a + total width l := by
  simp [total]

@[simp] theorem total_append (width : α → Nat) (l l' : List α) :
    total width (l ++ l') = total width l + total width l' := by
  simp [total]

theorem total_filter_add (width : α → Nat) (p : α → Bool) (l : List α) :
    total width (l.filter p) + total width (l.filter fun a => !p a) = total width l := by
  induction l with
  | nil => rfl
  | cons a l ih =>
    cases ha : p a <;> simp [ha] <;> omega

@[simp] theorem layout_nil (width : α → Nat) (start : Nat) : layout width start [] = [] := rfl

@[simp] theorem layout_cons (width : α → Nat) (start : Nat) (a : α) (l : List α) :
    layout width start (a :: l) = (a, start) :: layout width (start + width a) l := rfl

theorem layout_append (width : α → Nat) (start : Nat) (l l' : List α) :
    layout width start (l ++ l') =
      layout width start l ++ layout width (start + total width l) l' := by
  induction l generalizing start with
  | nil => simp
  | cons a l ih => simp [ih, Nat.add_assoc]

@[simp] theorem length_layout (width : α → Nat) (start : Nat) (l : List α) :
    (layout width start l).length = l.length := by
  induction l generalizing start with
  | nil => rfl
  | cons a l ih => simp [ih]

theorem map_fst_layout (width : α → Nat) (start : Nat) (l : List α) :
    (layout width start l).map Prod.fst = l := by
  induction l generalizing start with
  | nil => rfl
  | cons a l ih => simp [ih]

variable {width : α → Nat} {l : List α}
variable {start : Nat}

theorem mem_of_mem_layout {p : α × Nat} (h : p ∈ layout width start l) : p.1 ∈ l := by
  rw [← map_fst_layout width start l]
  exact List.mem_map_of_mem h

/-- Items of the same widths are laid out alike. -/
theorem exists_layout_of_forall₂ {β : Type*} {width' : β → Nat} {R : α → β → Prop}
    (hwidth : ∀ a b, R a b → width a = width' b) {l' : List β} (h : List.Forall₂ R l l') {i : Nat}
    {a : α} {s : Nat} (hi : (layout width start l)[i]? = some (a, s)) :
    ∃ b, (layout width' start l')[i]? = some (b, s) ∧ R a b := by
  induction h generalizing start i with
  | nil => cases hi
  | @cons a' b' l l' hab _ ih =>
    cases i with
    | zero =>
      cases hi
      exact ⟨b', rfl, hab⟩
    | succ i =>
      rw [layout_cons, List.getElem?_cons_succ] at hi
      rw [layout_cons, List.getElem?_cons_succ, ← hwidth a' b' hab]
      exact ih hi

/-- No block ends after the vector does. -/
theorem bounds_of_mem_layout {p : α × Nat} (h : p ∈ layout width start l) :
    start ≤ p.2 ∧ p.2 + width p.1 ≤ start + total width l := by
  induction l generalizing start with
  | nil => cases h
  | cons a l ih =>
    rw [total_cons]
    cases List.mem_cons.mp h with
    | inl heq =>
      subst heq
      exact ⟨Nat.le_refl _, by show start + width a ≤ _; omega⟩
    | inr hmem =>
      have hrest := ih hmem
      omega

/-- A block ends before the blocks that come later start. -/
theorem pairwise_layout (width : α → Nat) (start : Nat) (l : List α) :
    (layout width start l).Pairwise fun p q => p.2 + width p.1 ≤ q.2 := by
  induction l generalizing start with
  | nil => exact List.Pairwise.nil
  | cons a l ih => exact List.Pairwise.cons (fun _ hq => (bounds_of_mem_layout hq).1) (ih _)

/-- Items without room do not move the others. -/
theorem filter_layout (width : α → Nat) (start : Nat) (l : List α) :
    (layout width start l).filter (fun p => 0 < width p.1) =
      layout width start (l.filter fun a => 0 < width a) := by
  induction l generalizing start with
  | nil => rfl
  | cons a l ih =>
    by_cases ha : 0 < width a
    · rw [layout_cons, List.filter_cons_of_pos (by simpa using ha),
        List.filter_cons_of_pos (by simpa using ha), layout_cons, ih]
    · have hzero : width a = 0 := by omega
      rw [layout_cons, List.filter_cons_of_neg (by simpa using ha),
        List.filter_cons_of_neg (by simpa using ha), ih, hzero, Nat.add_zero]

/-- In a list that is in order of a key, the blocks of a layout are in that order. -/
theorem key_le_of_start_lt {key : α → Nat} {p q : α × Nat}
    (hl : l.Pairwise fun a b => key b ≤ key a) (hp : p ∈ layout width start l)
    (hq : q ∈ layout width start l) (hlt : p.2 < q.2) : key q.1 ≤ key p.1 := by
  have hkeys : (layout width start l).Pairwise fun p q => key q.1 ≤ key p.1 := by
    rw [← map_fst_layout width start l] at hl
    exact List.pairwise_map.mp hl
  -- One of the two blocks comes first in the list, and it is not that of `q`
  let before (p q : α × Nat) : Prop := p.2 + width p.1 ≤ q.2 ∧ key q.1 ≤ key p.1
  have hordered : (layout width start l).Pairwise fun p q => before p q ∨ before q p :=
    ((pairwise_layout width start l).and hkeys).imp Or.inl
  have hsymm : Std.Symm fun p q => before p q ∨ before q p := ⟨fun _ _ => Or.symm⟩
  have hne : p ≠ q := fun h => absurd hlt (by rw [h]; exact Nat.lt_irrefl _)
  cases hordered.forall hp hq hne with
  | inl h => exact h.2
  | inr h =>
    have hle : q.2 + width q.1 ≤ p.2 := h.1
    omega

section Keys

variable (key : α → Nat)

/-- The items of each of the keys in turn. -/
def byKeys (keys : List Nat) (l : List α) : List α :=
  keys.flatMap fun k => l.filter fun a => key a = k

@[simp] theorem byKeys_nil (l : List α) : byKeys key [] l = [] := rfl

@[simp] theorem byKeys_cons (k : Nat) (keys : List Nat) (l : List α) :
    byKeys key (k :: keys) l = (l.filter fun a => key a = k) ++ byKeys key keys l := rfl

theorem byKeys_append (keys keys' : List Nat) (l : List α) :
    byKeys key (keys ++ keys') l = byKeys key keys l ++ byKeys key keys' l :=
  List.flatMap_append

variable {keys : List Nat}

theorem mem_byKeys {l : List α} {a : α} :
    a ∈ byKeys key keys l ↔ a ∈ l ∧ key a ∈ keys := by
  simp only [byKeys, List.mem_flatMap, List.mem_filter, decide_eq_true_eq]
  constructor
  · intro ⟨k, hk, ha, heq⟩
    exact ⟨ha, heq ▸ hk⟩
  · intro ⟨ha, hk⟩
    exact ⟨key a, hk, ha, rfl⟩

theorem filter_byKeys (p : α → Bool) (keys : List Nat) (l : List α) :
    (byKeys key keys l).filter p = byKeys key keys (l.filter p) := by
  rw [byKeys, List.filter_flatMap, byKeys]
  congr 1
  funext k
  simp only [List.filter_filter, Bool.and_comm]

theorem pairwise_byKeys (hkeys : keys.Pairwise fun j k => k < j) (l : List α) :
    (byKeys key keys l).Pairwise fun a b => key b ≤ key a := by
  induction hkeys with
  | nil => exact List.Pairwise.nil
  | @cons k keys hk _ ih =>
    rw [byKeys_cons, List.pairwise_append]
    have hfirst : ∀ a ∈ l.filter (fun a => key a = k), key a = k := fun a ha => by
      simpa using (List.mem_filter.mp ha).2
    refine ⟨List.pairwise_of_forall_mem_list ?_, ih, ?_⟩
    · intro a ha b hb
      rw [hfirst a ha, hfirst b hb]
    · intro a ha b hb
      rw [hfirst a ha]
      exact Nat.le_of_lt (hk _ ((mem_byKeys key).mp hb).2)

/-- In a list that is in order, the items with the largest key come first. -/
theorem eq_filter_append_filter {k : Nat} {l : List α}
    (hl : l.Pairwise fun a b => key b ≤ key a) (hk : ∀ a ∈ l, key a ≤ k) :
    (l.filter fun a => key a = k) ++ (l.filter fun a => key a ≠ k) = l := by
  induction hl with
  | nil => rfl
  | @cons a l ha hl ih =>
    have hrest := ih fun b hb => hk b (List.mem_cons_of_mem _ hb)
    by_cases heq : key a = k
    · rw [List.filter_cons_of_pos (by simpa using heq), List.filter_cons_of_neg (by simpa using heq),
        List.cons_append, hrest]
    · -- no later item can have the key either
      have hlt : ∀ b ∈ a :: l, key b ≠ k := by
        intro b hb
        have hak := hk a List.mem_cons_self
        cases List.mem_cons.mp hb with
        | inl h => rw [h]; exact heq
        | inr h =>
          have hba := ha b h
          omega
      rw [List.filter_eq_nil_iff.mpr (by simpa using hlt),
        List.filter_eq_self.mpr (by simpa using hlt), List.nil_append]

/-- The items of the largest key do not matter to the other keys. -/
theorem byKeys_filter_ne {k : Nat} (hk : ∀ j ∈ keys, j < k) (l : List α) :
    byKeys key keys (l.filter fun a => key a ≠ k) = byKeys key keys l := by
  rw [← filter_byKeys, List.filter_eq_self.mpr]
  intro a ha
  have hlt := hk _ ((mem_byKeys key).mp ha).2
  simpa using Nat.ne_of_lt hlt

/-- A list that is in order is left alone, if all its keys are gone through. -/
theorem byKeys_eq_self (hkeys : keys.Pairwise fun j k => k < j) {l : List α}
    (hl : l.Pairwise fun a b => key b ≤ key a) (hmem : ∀ a ∈ l, key a ∈ keys) :
    byKeys key keys l = l := by
  induction hkeys generalizing l with
  | nil =>
    cases l with
    | nil => rfl
    | cons a l => exact absurd (hmem a List.mem_cons_self) List.not_mem_nil
  | @cons k keys hk _ ih =>
    have hle : ∀ a ∈ l, key a ≤ k := by
      intro a ha
      cases List.mem_cons.mp (hmem a ha) with
      | inl h => exact Nat.le_of_eq h
      | inr h => exact Nat.le_of_lt (hk _ h)
    have hself := ih (hl.filter fun a => key a ≠ k) (by
      intro a ha
      obtain ⟨hal, hne⟩ := List.mem_filter.mp ha
      exact (List.mem_cons.mp (hmem a hal)).resolve_left (by simpa using hne))
    rw [byKeys_cons, ← byKeys_filter_ne key hk l, hself, eq_filter_append_filter key hl hle]

/-- Every item is collected once at most. -/
theorem total_byKeys_le (width : α → Nat) (hkeys : keys.Pairwise fun j k => k < j) (l : List α) :
    total width (byKeys key keys l) ≤ total width l := by
  induction hkeys generalizing l with
  | nil => exact Nat.zero_le _
  | @cons k keys hk _ ih =>
    have hparts := total_filter_add width (fun a => decide (key a = k)) l
    have hrest := ih (l.filter fun a => key a ≠ k)
    rw [byKeys_filter_ne key hk] at hrest
    rw [byKeys_cons, total_append]
    simp only [ne_eq, decide_not] at hrest
    omega

end Keys

/-- Two ways to lay the items out, one in the order of a key: they place every item
    that takes up room alike exactly if these items are listed in the order of the
    key, and have keys that are gone through. -/
theorem layout_subset_byKeys_iff (width key : α → Nat) {keys : List Nat}
    (hkeys : keys.Pairwise fun j k => k < j) :
    (∀ p ∈ layout width 0 l, 0 < width p.1 → p ∈ layout width 0 (byKeys key keys l)) ↔
      (l.filter fun a => 0 < width a).Pairwise (fun a b => key b ≤ key a) ∧
        ∀ a ∈ l, 0 < width a → key a ∈ keys := by
  constructor
  · intro h
    constructor
    · have hblocks := pairwise_layout width 0 (l.filter fun a => 0 < width a)
      rw [← map_fst_layout width 0 (l.filter fun a => 0 < width a), List.pairwise_map]
      refine List.Pairwise.imp_of_mem ?_ hblocks
      intro p q hp hq hpq
      rw [← filter_layout, List.mem_filter] at hp hq
      have hwp : 0 < width p.1 := by simpa using hp.2
      have hwq : 0 < width q.1 := by simpa using hq.2
      exact key_le_of_start_lt (pairwise_byKeys key hkeys l) (h p hp.1 hwp) (h q hq.1 hwq)
        (by omega)
    · intro a ha hwa
      rw [← map_fst_layout width 0 l, List.mem_map] at ha
      obtain ⟨p, hp, rfl⟩ := ha
      exact ((mem_byKeys key).mp (mem_of_mem_layout (h p hp hwa))).2
  · intro ⟨hsorted, hmem⟩ p hp hwp
    have hself := byKeys_eq_self key hkeys hsorted (by
      intro a ha
      obtain ⟨hal, hwa⟩ := List.mem_filter.mp ha
      exact hmem a hal (by simpa using hwa))
    have hsame : (layout width 0 (byKeys key keys l)).filter (fun p => 0 < width p.1) =
        (layout width 0 l).filter fun p => 0 < width p.1 := by
      rw [filter_layout, filter_byKeys, hself, filter_layout]
    have hpos : p ∈ (layout width 0 l).filter fun p => 0 < width p.1 :=
      List.mem_filter.mpr ⟨hp, by simpa using hwp⟩
    rw [← hsame] at hpos
    exact (List.mem_filter.mp hpos).1

end Blocks
