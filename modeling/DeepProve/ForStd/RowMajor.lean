import Mathlib

/-!
# Row-major arrays with wider dimensions

The entries of an array are stored row after row. If every dimension is made wider, the entries move
apart: after each block of a dimension that has become wider there is a gap. Where they move to is
determined by the blocks and the gaps, and these are determined by it.
-/

namespace RowMajor

variable (w : Nat → Nat)

/-- Where an entry moves to if the dimensions `ds` are made as wide as `w` says. -/
def spread : List Nat → Nat → Nat
  | [], k => k
  | _ :: ds, k => k / ds.prod * (ds.map w).prod + spread ds (k % ds.prod)

/-- The blocks that are followed by a gap, and the lengths of the gaps; the smallest block first. The
    blocks of the whole array are among them. -/
def blockGaps : List Nat → List (Nat × Nat)
  | [] => []
  | d :: ds => blockGaps ds ++ if w d = d then [] else [((d :: ds).prod, (w d - d) * (ds.map w).prod)]

/-- The gaps between the entries. -/
def gaps (ds : List Nat) : List (Nat × Nat) := (blockGaps w ds).filter fun entry => entry.1 < ds.prod

/-- The lengths of the gaps before an entry. -/
def gapsBefore (L : List (Nat × Nat)) (k : Nat) : Nat := (L.map fun (block, gap) => k / block * gap).sum

@[simp] theorem gapsBefore_nil (k : Nat) : gapsBefore [] k = 0 := rfl

@[simp] theorem gapsBefore_cons (block gap : Nat) (L : List (Nat × Nat)) (k : Nat) :
    gapsBefore ((block, gap) :: L) k = k / block * gap + gapsBefore L k := rfl

theorem gapsBefore_append (L M : List (Nat × Nat)) (k : Nat) :
    gapsBefore (L ++ M) k = gapsBefore L k + gapsBefore M k := by
  simp [gapsBefore]

variable {ds : List Nat} {L : List (Nat × Nat)}

theorem pos_of_prod_cons_pos {d : Nat} (h : 0 < (d :: ds).prod) : 0 < d ∧ 0 < ds.prod := by
  rw [List.prod_cons] at h
  exact ⟨Nat.pos_of_mul_pos_right h, Nat.pos_of_mul_pos_left h⟩

theorem prod_le_prod_map {w : Nat → Nat} (hw : ∀ d, d ≤ w d) (ds : List Nat) :
    ds.prod ≤ (ds.map w).prod := by
  induction ds with
  | nil => exact le_rfl
  | cons d ds ih =>
    rw [List.prod_cons, List.map_cons, List.prod_cons]
    exact Nat.mul_le_mul (hw d) ih

/-! ## Moving the entries -/

/-- Every block of the leading dimension moves as a whole. -/
theorem spread_block (hpos : 0 < ds.prod) (d q k : Nat) :
    spread w (d :: ds) (q * ds.prod + k) = q * (ds.map w).prod + spread w (d :: ds) k := by
  rw [spread, spread, Nat.mul_comm q, Nat.mul_add_div hpos, Nat.mul_add_mod, Nat.add_mul, Nat.add_assoc]

variable {w}

/-- An entry moves by the gaps before it. -/
theorem spread_eq_add_gaps (hw : ∀ d, d ≤ w d) (hpos : 0 < ds.prod) (d k : Nat) :
    spread w (d :: ds) k = k + gapsBefore (blockGaps w ds) k := by
  induction ds generalizing d k with
  | nil => simp [spread, blockGaps, Nat.mod_one]
  | cons e ds ih =>
    have hds := (pos_of_prod_cons_pos hpos).2
    have hgap : gapsBefore (if w e = e then [] else [(e * ds.prod, (w e - e) * (ds.map w).prod)]) k =
        k / (e * ds.prod) * ((w e - e) * (ds.map w).prod) := by
      split
      · next heq => simp [heq]
      · simp
    have hsplit : k = k / (e * ds.prod) * e * ds.prod + k % (e * ds.prod) := by
      rw [Nat.mul_assoc, Nat.mul_comm (k / _), Nat.div_add_mod]
    -- without the gap of this dimension, its blocks would follow each other
    have hrest := spread_block w hds d (k / (e * ds.prod) * e) (k % (e * ds.prod))
    rw [← hsplit, ih hds d k] at hrest
    have hinner : spread w (d :: ds) (k % (e * ds.prod)) = spread w (e :: ds) (k % (e * ds.prod)) := rfl
    have hwide : w e = e + (w e - e) := (Nat.add_sub_cancel' (hw e)).symm
    rw [spread, blockGaps, gapsBefore_append, List.prod_cons, hgap, ← Nat.add_assoc, hrest, hinner,
      List.map_cons, List.prod_cons]
    conv => lhs; rw [hwide]
    ring

/-- Gaps after larger blocks do not count. -/
theorem gapsBefore_filter {n k : Nat} (hk : k < n) :
    gapsBefore (L.filter fun entry => entry.1 < n) k = gapsBefore L k := by
  induction L with
  | nil => rfl
  | cons entry L ih =>
    obtain ⟨block, gap⟩ := entry
    rw [gapsBefore_cons, List.filter_cons]
    split
    · rw [gapsBefore_cons, ih]
    · next hblock =>
      have hlt : k < block :=
        Nat.lt_of_lt_of_le hk (Nat.le_of_not_lt (by simpa only [decide_eq_true_eq] using hblock))
      rw [ih, Nat.div_eq_of_lt hlt, Nat.zero_mul, Nat.zero_add]

/-- The gap after the whole array does not count either. -/
theorem spread_eq_add_gaps_of_lt {d : Nat} (hw : ∀ d, d ≤ w d) {k : Nat} (hk : k < (d :: ds).prod) :
    spread w (d :: ds) k = k + gapsBefore (gaps w (d :: ds)) k := by
  have hpos := (pos_of_prod_cons_pos (Nat.zero_lt_of_lt hk)).2
  rw [spread_eq_add_gaps hw hpos, gaps, gapsBefore_filter hk, blockGaps, gapsBefore_append]
  split
  · simp
  · rw [gapsBefore_cons, Nat.div_eq_of_lt hk, Nat.zero_mul, gapsBefore_nil, Nat.add_zero]

/-! ## The gaps are determined -/

/-- The blocks grow, and there is a gap after each. -/
structure Proper (L : List (Nat × Nat)) : Prop where
  sorted : L.Pairwise fun a b => a.1 < b.1
  block : ∀ a ∈ L, 0 < a.1
  gap : ∀ a ∈ L, 0 < a.2

theorem Proper.filter (h : Proper L) (q : Nat × Nat → Bool) :
    Proper (L.filter q) where
  sorted := h.sorted.filter q
  block := fun a ha => h.block a (List.mem_of_mem_filter ha)
  gap := fun a ha => h.gap a (List.mem_of_mem_filter ha)

theorem Proper.tail {a : Nat × Nat} (h : Proper (a :: L)) : Proper L where
  sorted := (List.pairwise_cons.mp h.sorted).2
  block := fun b hb => h.block b (List.mem_cons_of_mem _ hb)
  gap := fun b hb => h.gap b (List.mem_cons_of_mem _ hb)

/-- A dimension that is made wider has a gap. -/
theorem proper_blockGaps (hw : ∀ d, d ≤ w d) (hpos : 0 < ds.prod) (hone : w 1 = 1) :
    Proper (blockGaps w ds) ∧ ∀ a ∈ blockGaps w ds, a.1 ≤ ds.prod := by
  induction ds with
  | nil => exact ⟨⟨List.Pairwise.nil, by simp [blockGaps], by simp [blockGaps]⟩, by simp [blockGaps]⟩
  | cons d ds ih =>
    obtain ⟨hd, hds⟩ := pos_of_prod_cons_pos hpos
    obtain ⟨hproper, hle⟩ := ih hds
    have hgrow : ds.prod ≤ (d :: ds).prod := by
      rw [List.prod_cons]
      exact Nat.le_mul_of_pos_left _ hd
    rw [blockGaps]
    split
    · rw [List.append_nil]
      exact ⟨hproper, fun a ha => (hle a ha).trans hgrow⟩
    · next hwide =>
      have htwo : 2 ≤ d := by
        rcases Nat.lt_or_ge 1 d with h | h
        · exact h
        · have hd : d = 1 := by omega
          rw [hd] at hwide
          exact absurd hone hwide
      have hlt : ds.prod < (d :: ds).prod := by
        rw [List.prod_cons]
        exact (Nat.lt_mul_iff_one_lt_left hds).mpr htwo
      have hgap : 0 < (w d - d) * (ds.map w).prod := by
        have hwd := hw d
        exact Nat.mul_pos (by omega) (hds.trans_le (prod_le_prod_map hw ds))
      refine ⟨⟨?_, ?_, ?_⟩, ?_⟩
      · rw [List.pairwise_append]
        refine ⟨hproper.sorted, List.pairwise_singleton _ _, fun a ha b hb => ?_⟩
        rw [List.mem_singleton.mp hb]
        exact (hle a ha).trans_lt hlt
      · simp only [List.mem_append, List.mem_singleton]
        rintro a (ha | rfl)
        · exact hproper.block a ha
        · exact hpos
      · simp only [List.mem_append, List.mem_singleton]
        rintro a (ha | rfl)
        · exact hproper.gap a ha
        · exact hgap
      · simp only [List.mem_append, List.mem_singleton]
        rintro a (ha | rfl)
        · exact (hle a ha).trans hgrow
        · exact le_rfl

theorem proper_gaps (hw : ∀ d, d ≤ w d) (hpos : 0 < ds.prod) (hone : w 1 = 1) :
    Proper (gaps w ds) ∧ ∀ a ∈ gaps w ds, a.1 < ds.prod :=
  ⟨(proper_blockGaps hw hpos hone).1.filter _, fun _ ha => of_decide_eq_true (List.mem_filter.mp ha).2⟩

/-- No gap comes before an entry of the first block. -/
theorem gapsBefore_eq_zero {k : Nat} (h : ∀ a ∈ L, k < a.1) :
    gapsBefore L k = 0 := by
  induction L with
  | nil => rfl
  | cons a L ih =>
    obtain ⟨ha, hL⟩ := List.forall_mem_cons.mp h
    rw [← Prod.mk.eta (p := a), gapsBefore_cons, ih hL, Nat.div_eq_of_lt ha, Nat.zero_mul]

/-- After the first block there is the first gap. -/
theorem Proper.gapsBefore_first {block gap : Nat} (h : Proper ((block, gap) :: L)) :
    gapsBefore ((block, gap) :: L) block = gap := by
  have hblock : 0 < block := h.block _ List.mem_cons_self
  rw [gapsBefore_cons, Nat.div_self hblock, Nat.one_mul,
    gapsBefore_eq_zero fun a ha => (List.pairwise_cons.mp h.sorted).1 a ha, Nat.add_zero]

/-- The first gaps of two arrays are found at the first entry that moves. -/
theorem Proper.eq_of_gapsBefore_eq {n : Nat} {M : List (Nat × Nat)} (hL : Proper L) (hM : Proper M)
    (hLn : ∀ a ∈ L, a.1 < n) (hMn : ∀ a ∈ M, a.1 < n)
    (h : ∀ k < n, gapsBefore L k = gapsBefore M k) : L = M := by
  -- at the first block of `L` nothing of `M` has moved, unless it starts with that block
  have hfirst : ∀ {block gap : Nat} {L M : List (Nat × Nat)}, Proper ((block, gap) :: L) → block < n →
      (∀ k < n, gapsBefore ((block, gap) :: L) k = gapsBefore M k) → ∃ a ∈ M, a.1 ≤ block := by
    intro block gap L M hproper hblock heq
    by_contra hnone
    push Not at hnone
    have hgap := heq block hblock
    rw [hproper.gapsBefore_first, gapsBefore_eq_zero hnone] at hgap
    exact Nat.ne_of_gt (hproper.gap _ List.mem_cons_self) hgap
  induction L generalizing M with
  | nil =>
    cases M with
    | nil => rfl
    | cons a M =>
      obtain ⟨_, hmem, -⟩ := hfirst hM (hMn _ List.mem_cons_self) fun k hk => (h k hk).symm
      cases hmem
  | cons a L ih =>
    obtain ⟨block, gap⟩ := a
    have hblock : block < n := hLn _ List.mem_cons_self
    cases M with
    | nil =>
      obtain ⟨_, hmem, -⟩ := hfirst hL hblock h
      cases hmem
    | cons b M =>
      obtain ⟨block', gap'⟩ := b
      have hblock' : block' < n := hMn _ List.mem_cons_self
      have hle : block' ≤ block := by
        obtain ⟨c, hc, hcle⟩ := hfirst hL hblock h
        rcases List.mem_cons.mp hc with rfl | hc
        · exact hcle
        · exact (Nat.le_of_lt ((List.pairwise_cons.mp hM.sorted).1 c hc)).trans hcle
      have hge : block ≤ block' := by
        obtain ⟨c, hc, hcle⟩ := hfirst hM hblock' fun k hk => (h k hk).symm
        rcases List.mem_cons.mp hc with rfl | hc
        · exact hcle
        · exact (Nat.le_of_lt ((List.pairwise_cons.mp hL.sorted).1 c hc)).trans hcle
      obtain rfl := Nat.le_antisymm hle hge
      have hgap := h block' hblock'
      rw [hL.gapsBefore_first, hM.gapsBefore_first] at hgap
      obtain rfl := hgap
      congr 1
      apply ih hL.tail hM.tail (fun a ha => hLn a (List.mem_cons_of_mem _ ha))
        fun a ha => hMn a (List.mem_cons_of_mem _ ha)
      intro k hk
      have hk := h k hk
      rw [gapsBefore_cons, gapsBefore_cons] at hk
      exact Nat.add_left_cancel hk

/-- Nothing has moved in an array without entries. -/
theorem gaps_of_prod_eq_zero (h : ds.prod = 0) : gaps w ds = [] := by
  simp [gaps, h]

/-- A dimension of one entry makes no gap. -/
theorem gaps_insertIdx_one (hone : w 1 = 1) {i : Nat} (hi : i ≤ ds.length) :
    gaps w (ds.insertIdx i 1) = gaps w ds := by
  have hinsert : ∀ (ds : List Nat) (i : Nat), i ≤ ds.length →
      blockGaps w (ds.insertIdx i 1) = blockGaps w ds ∧ (ds.insertIdx i 1).prod = ds.prod ∧
        ((ds.insertIdx i 1).map w).prod = (ds.map w).prod := by
    intro ds
    induction ds with
    | nil =>
      intro i hi
      obtain rfl : i = 0 := Nat.le_zero.mp hi
      simp [blockGaps, hone]
    | cons d ds ih =>
      intro i hi
      cases i with
      | zero => simp [blockGaps, hone]
      | succ i =>
        obtain ⟨hblocks, hprod, hwide⟩ := ih i (Nat.le_of_succ_le_succ hi)
        simp only [List.insertIdx_succ_cons, blockGaps, List.prod_cons, List.map_cons, hblocks, hprod, hwide,
          and_self]
  obtain ⟨hblocks, hprod, -⟩ := hinsert ds i hi
  rw [gaps, gaps, hblocks, hprod]

/-- Two shapes of an array move all its entries alike if they have the same gaps. -/
theorem gaps_eq_iff (hw : ∀ d, d ≤ w d) (hone : w 1 = 1) {es : List Nat} (hds : ds ≠ [])
    (hes : es ≠ []) (hprod : ds.prod = es.prod) :
    gaps w ds = gaps w es ↔ ∀ k < ds.prod, spread w ds k = spread w es k := by
  obtain ⟨d, ds, rfl⟩ := List.exists_cons_of_ne_nil hds
  obtain ⟨e, es, rfl⟩ := List.exists_cons_of_ne_nil hes
  constructor
  · intro heq k hk
    rw [spread_eq_add_gaps_of_lt hw hk, spread_eq_add_gaps_of_lt hw (hprod ▸ hk), heq]
  · intro h
    rcases Nat.eq_zero_or_pos (d :: ds).prod with hzero | hpos
    · rw [gaps_of_prod_eq_zero hzero, gaps_of_prod_eq_zero (hprod ▸ hzero)]
    · obtain ⟨hproper, hlt⟩ := proper_gaps hw hpos hone
      obtain ⟨hproper', hlt'⟩ := proper_gaps hw (hprod ▸ hpos) hone
      apply hproper.eq_of_gapsBefore_eq hproper' hlt fun a ha => hprod ▸ hlt' a ha
      intro k hk
      have hspread := h k hk
      rw [spread_eq_add_gaps_of_lt hw hk, spread_eq_add_gaps_of_lt hw (hprod ▸ hk)] at hspread
      exact Nat.add_left_cancel hspread

/-! ## No two entries move to the same place -/

theorem spread_lt (hw : ∀ d, d ≤ w d) {k : Nat} (hk : k < ds.prod) :
    spread w ds k < (ds.map w).prod := by
  induction ds generalizing k with
  | nil => simpa [spread] using hk
  | cons d ds ih =>
    rw [List.prod_cons] at hk
    have hpos : 0 < ds.prod := Nat.pos_of_mul_pos_left (Nat.zero_lt_of_lt hk)
    have hlead : k / ds.prod < w d := ((Nat.div_lt_iff_lt_mul hpos).mpr hk).trans_le (hw d)
    have hrest := ih (Nat.mod_lt k hpos)
    rw [spread, List.map_cons, List.prod_cons]
    calc k / ds.prod * (ds.map w).prod + spread w ds (k % ds.prod)
        < (k / ds.prod + 1) * (ds.map w).prod := by
          rw [Nat.succ_mul]
          exact Nat.add_lt_add_left hrest _
      _ ≤ w d * (ds.map w).prod := Nat.mul_le_mul_right _ hlead

end RowMajor
