import DeepProve.Convolution.Verify
import DeepProve.ForStd.Dft
import DeepProve.Vec

/-!
# The fast Fourier transform

`fft.rs`: the entries are brought into the order of their reversed bits, and then each stage turns
two neighbouring transforms into one of twice the size.
-/

namespace DeepProve

open Dft
open List (cells)

/-- `get_root_of_unity`. -/
def getRootOfUnity {F : Type} (L : PolyLibrary F) (n : Nat) : Outcome F :=
  okOr (L.rootOfUnity (2 ^ n)) s!"Cannot compute 2^{n}-th root of unity"

/-- `usize::BITS`. -/
abbrev usizeBits : Nat := 64

/-- `bitreverse_permutation`; all bits of an index are reversed, and the lowest ones dropped. -/
def bitreversePermutation (length : Nat) : Outcome (List Nat) := do
  let logn ← ilog2 length
  let shift := usizeBits - logn
  if shift < usizeBits then
    .ok ((List.range length).map fun i => bitrev usizeBits i / 2 ^ shift)
  else
    .error (.panic "attempt to shift right with overflow")

/-- `bitreverse`. -/
def bitreverse {α : Type} (d : List α) : Outcome (List α) := do
  let permutation ← bitreversePermutation d.length
  let swaps := permutation.zipIdx.filter fun (new, orig) => decide (orig < new)
  swaps.foldlM (fun d (new, orig) => Vec.swap d orig new) d

section Fft

variable {F : Type} [Field F]

/-- The body of the loop over one chunk, of length `i`. -/
def butterfly (n : Nat) (twiddle : List F) (i : Nat) (chunk : List F) (k : Nat) :
    Outcome (List F) := do
  let halfI := i / 2
  let u ← Vec.get chunk k
  let upper ← Vec.get chunk (k + halfI)
  let factor ← Vec.get twiddle (n / i * k)
  let l := upper * factor
  let chunk ← Vec.set chunk k (u + l)
  Vec.set chunk (k + halfI) (u - l)

/-- One round of the loop: all chunks of length `i`. -/
def stage (n : Nat) (twiddle : List F) (i : Nat) (v : List F) : Outcome (List F) := do
  let chunks ← chunksOf v i
  let chunks ← chunks.mapM fun chunk => (List.range (i / 2)).foldlM (butterfly n twiddle i) chunk
  .ok chunks.flatten

/-- `while i <= n`. -/
def stages (n : Nat) (twiddle : List F) : Nat → Nat → List F → Outcome (List F)
  | 0, i, v => if i ≤ n then .error .outOfFuel else .ok v
  | fuel + 1, i, v =>
    if i ≤ n then do
      let v ← stage n twiddle i v
      stages n twiddle fuel (i * 2) v
    else
      .ok v

/-- The loop that fills the table. -/
def fillTwiddle (n : Nat) (twiddle : List F) : Outcome (List F) :=
  (List.range' 2 (n - 2)).foldlM (fun twiddle i => do
      let last ← Vec.get twiddle (i - 1)
      let first ← Vec.get twiddle 1
      Vec.set twiddle i (last * first))
    twiddle

variable [DecidableEq F]

/-- `fft`; the flag is set for the inverse transform. The index `i` of the last loop is a `usize`
    and is doubled in each round. -/
def fft (L : PolyLibrary F) (v : List F) (flag : Bool) : Outcome (List F) := do
  ensure (Shape.isPowerOfTwo v.length) "Input vector to fft must be a power of two"
  let n := v.length
  let logn ← ilog2 n
  let v ← bitreverse v
  let twiddle := List.replicate n (0 : F)
  let twiddle ← Vec.set twiddle 0 1
  let root ← getRootOfUnity L logn
  let twiddle ← Vec.set twiddle 1 root
  let twiddle ←
    if flag then do
      let root ← Vec.get twiddle 1
      let inverse ← inverseOrPanic root "Root of unity should not be zero"
      Vec.set twiddle 1 inverse
    else
      .ok twiddle
  let twiddle ← fillTwiddle n twiddle
  let v ← stages n twiddle usizeBits 2 v
  if flag then do
    let ilen ← inverseOrPanic ((n : F)) "Tried to invert zero"
    .ok (v.map fun val => val * ilen)
  else
    .ok v

end Fft

/-! ## The permutation -/

section Permutation

variable {α : Type} {k : Nat}

theorem ilog2_two_pow (k : Nat) : ilog2 (2 ^ k) = .ok k := by
  rw [ilog2, if_neg (Nat.two_pow_pos k).ne', Nat.log2_two_pow]

theorem bitreversePermutation_two_pow (hk : 0 < k) (hbits : k ≤ usizeBits) :
    bitreversePermutation (2 ^ k) = .ok (cells (2 ^ k) (bitrev k)) := by
  have hshift : usizeBits - k < usizeBits := by
    show 64 - k < 64
    omega
  rw [bitreversePermutation, ilog2_two_pow, Outcome.ok_bind]
  simp only [if_pos hshift]
  congr 1
  apply List.cells_congr
  intro i hi
  have hsplit : usizeBits = k + (usizeBits - k) := by
    show 64 = k + (64 - k)
    change k ≤ 64 at hbits
    omega
  conv_lhs => rw [hsplit, Nat.add_sub_cancel_left]
  exact bitrev_div hi

/-- Each pair of places is swapped once. -/
theorem foldl_swaps (f : Nat → α) {m : Nat} (hm : m ≤ 2 ^ k) {p : Nat} (hp : p < 2 ^ k) :
    (List.range m).foldl (fun f i => if i < bitrev k i then
        Function.update (Function.update f i (f (bitrev k i))) (bitrev k i) (f i) else f) f p =
      if min p (bitrev k p) < m then f (bitrev k p) else f p := by
  induction m generalizing p with
  | zero => simp
  | succ m ih =>
    have hmk : m < 2 ^ k := hm
    have hrev := bitrev_bitrev hmk
    have hrevp := bitrev_bitrev hp
    have hrevlt := bitrev_lt k m
    rw [List.range_succ, List.foldl_append, List.foldl_cons, List.foldl_nil]
    have ih := fun {p} hp => ih (p := p) (by omega) hp
    by_cases hswap : m < bitrev k m
    · rw [if_pos hswap]
      by_cases hpr : p = bitrev k m
      · subst hpr
        rw [Function.update_self, ih hmk, hrev, if_neg (by omega), if_pos (by omega)]
      · rw [Function.update_of_ne hpr]
        by_cases hpm : p = m
        · subst hpm
          rw [Function.update_self, ih hrevlt, hrev, if_neg (by omega), if_pos (by omega)]
        · have hne : bitrev k p ≠ m := by
            intro h
            rw [h] at hrevp
            exact hpr hrevp.symm
          have hiff : min p (bitrev k p) < m + 1 ↔ min p (bitrev k p) < m := by omega
          rw [Function.update_of_ne hpm, ih hp]
          simp only [hiff]
    · -- the pair has been swapped at its smaller place, or is one place
      rw [if_neg hswap, ih hp]
      by_cases hpm : p = m
      · subst hpm
        by_cases heq : bitrev k p = p
        · rw [heq]
          simp
        · rw [if_pos (by omega), if_pos (by omega)]
      · by_cases hne : bitrev k p = m
        · rw [hne] at hrevp
          rw [if_pos (by omega), if_pos (by omega)]
        · have hiff : min p (bitrev k p) < m + 1 ↔ min p (bitrev k p) < m := by omega
          simp only [hiff]

theorem bitreverse_cells (hk : 0 < k) (hbits : k ≤ usizeBits) (f : Nat → α) :
    bitreverse (cells (2 ^ k) f) = .ok (cells (2 ^ k) fun i => f (bitrev k i)) := by
  have hzip : (cells (2 ^ k) (bitrev k)).zipIdx =
      (List.range (2 ^ k)).map fun i => (bitrev k i, i) := by
    apply List.ext_getElem
    · simp
    · intro i _ _
      simp [cells]
  have hswap : ∀ pair ∈ ((List.range (2 ^ k)).map fun i => (bitrev k i, i)).filter
        fun (new, orig) => decide (orig < new),
      ∀ f : Nat → α, Vec.swap (cells (2 ^ k) f) pair.2 pair.1 = .ok (cells (2 ^ k)
        (Function.update (Function.update f pair.2 (f pair.1)) pair.1 (f pair.2))) := by
    intro pair hpair f
    obtain ⟨hmem, _⟩ := List.mem_filter.mp hpair
    obtain ⟨i, hi, rfl⟩ := List.mem_map.mp hmem
    exact Vec.swap_cells (List.mem_range.mp hi) (bitrev_lt k i)
  rw [bitreverse, List.length_cells, bitreversePermutation_two_pow hk hbits, Outcome.ok_bind, hzip]
  dsimp only
  rw [Vec.foldlM_cells hswap, List.foldl_filter, List.foldl_map]
  congr 1
  apply List.cells_congr
  intro p hp
  have hfold := foldl_swaps f (Nat.le_refl _) hp
  simp only [decide_eq_true_eq]
  rw [hfold, if_pos (lt_of_le_of_lt (Nat.min_le_left _ _) hp)]

end Permutation

/-! ## The stages -/

section Stages

variable {F : Type} [Field F]

/-- What a butterfly makes of two entries at the distance `h`. -/
def butterflyUpdate (h : Nat) (t : Nat → F) (f : Nat → F) (k : Nat) : Nat → F :=
  Function.update (Function.update f k (f k + f (k + h) * t k)) (k + h) (f k - f (k + h) * t k)

theorem butterfly_cells {n i h : Nat} {tw f : Nat → F} {k : Nat} (hi : i = 2 * h) (hk : k < h)
    (htw : n / i * k < n) :
    butterfly n (cells n tw) i (cells i f) k =
      .ok (cells i (butterflyUpdate h (fun k => tw (n / i * k)) f k)) := by
  have hhalf : i / 2 = h := by omega
  rw [butterfly, hhalf]
  dsimp only
  rw [Vec.get_cells (by omega), Outcome.ok_bind, Vec.get_cells (by omega), Outcome.ok_bind,
    Vec.get_cells htw, Outcome.ok_bind, Vec.set_cells (by omega), Outcome.ok_bind,
    Vec.set_cells (by omega)]
  rfl

/-- The butterflies of one chunk do not depend on each other. -/
theorem foldl_butterflyUpdate (h : Nat) (t f : Nat → F) {m : Nat} (hm : m ≤ h) :
    ∀ k < h, (List.range m).foldl (butterflyUpdate h t) f k =
        (if k < m then f k + f (k + h) * t k else f k) ∧
      (List.range m).foldl (butterflyUpdate h t) f (k + h) =
        if k < m then f k - f (k + h) * t k else f (k + h) := by
  induction m with
  | zero => simp
  | succ m ih =>
    intro k hk
    have hmh : m < h := hm
    obtain ⟨hlow, hhigh⟩ := ih hmh.le k hk
    obtain ⟨hmlow, hmhigh⟩ := ih hmh.le m hmh
    rw [if_neg (lt_irrefl m)] at hmlow hmhigh
    rw [List.range_succ, List.foldl_append, List.foldl_cons, List.foldl_nil, butterflyUpdate, hmlow,
      hmhigh]
    by_cases hkm : k = m
    · subst hkm
      rw [Function.update_of_ne (by omega), Function.update_self, Function.update_self]
      simp
    · have hiff : k < m + 1 ↔ k < m := by omega
      rw [Function.update_of_ne (by omega), Function.update_of_ne hkm,
        Function.update_of_ne (by omega), Function.update_of_ne (by omega), hlow, hhigh]
      simp only [hiff, and_self]

theorem pieces_cells {α : Type} {q i : Nat} (hi : 0 < i) (f : Nat → α) :
    pieces (cells (q * i) f) i = (List.range q).map fun c => cells i fun j => f (c * i + j) := by
  have hcount : (q * i + i - 1) / i = q := by
    rw [Nat.add_sub_assoc hi, Nat.mul_comm, Nat.mul_add_div hi, Nat.div_eq_of_lt (by omega),
      Nat.add_zero]
  rw [pieces, List.length_cells, hcount]
  apply List.map_congr_left
  intro c hc
  apply List.take_drop_cells
  calc c * i + i = (c + 1) * i := by ring
    _ ≤ q * i := Nat.mul_le_mul_right i (List.mem_range.mp hc)

/-- One stage, chunk by chunk. -/
theorem stage_cells {q h : Nat} (hh : 0 < h) (tw f : Nat → F) :
    ∃ g, stage (q * (2 * h)) (cells (q * (2 * h)) tw) (2 * h) (cells (q * (2 * h)) f) =
        .ok (cells (q * (2 * h)) g) ∧
      ∀ c, ∀ k < h,
        g (c * (2 * h) + k) = f (c * (2 * h) + k) + f (c * (2 * h) + k + h) * tw (q * k) ∧
        g (c * (2 * h) + k + h) = f (c * (2 * h) + k) - f (c * (2 * h) + k + h) * tw (q * k) := by
  have hpos : 0 < 2 * h := by omega
  have hquot : q * (2 * h) / (2 * h) = q := Nat.mul_div_cancel q hpos
  have hhalf : 2 * h / 2 = h := by omega
  let chunk : Nat → Nat → F := fun c =>
    (List.range h).foldl (butterflyUpdate h fun k => tw (q * k)) fun j => f (c * (2 * h) + j)
  have hchunks : ((List.range q).map fun c => cells (2 * h) fun j => f (c * (2 * h) + j)).mapM
      (fun chunk => (List.range (2 * h / 2)).foldlM
        (butterfly (q * (2 * h)) (cells (q * (2 * h)) tw) (2 * h)) chunk) =
      .ok ((List.range q).map fun c => cells (2 * h) (chunk c)) := by
    rw [List.mapM_map]
    apply Outcome.mapM_eq_ok_map
    intro c hc
    have hstep : ∀ k ∈ List.range h, ∀ f,
        butterfly (q * (2 * h)) (cells (q * (2 * h)) tw) (2 * h) (cells (2 * h) f) k =
          .ok (cells (2 * h) (butterflyUpdate h (fun k => tw (q * k)) f k)) := by
      intro k hk f
      have hk := List.mem_range.mp hk
      have hc := List.mem_range.mp hc
      have hlt : q * (2 * h) / (2 * h) * k < q * (2 * h) := by
        rw [hquot]
        exact Nat.mul_lt_mul_of_pos_left (by omega) (by omega)
      have hcells : butterfly (q * (2 * h)) (cells (q * (2 * h)) tw) (2 * h) (cells (2 * h) f) k =
          _ := butterfly_cells rfl hk hlt
      rwa [hquot] at hcells
    rw [hhalf]
    exact Vec.foldlM_cells hstep _
  refine ⟨fun p => chunk (p / (2 * h)) (p % (2 * h)), ?_, ?_⟩
  · rw [stage, chunksOf_eq_ok.mpr ⟨hpos.ne', rfl⟩, Outcome.ok_bind, pieces_cells hpos, hchunks,
      Outcome.ok_bind, List.flatten_cells q (2 * h) chunk hpos]
  · intro c k hk
    have hdiv : ∀ j < 2 * h, (c * (2 * h) + j) / (2 * h) = c ∧ (c * (2 * h) + j) % (2 * h) = j := by
      intro j hj
      rw [Nat.mul_comm c, Nat.mul_add_div hpos, Nat.mul_add_mod, Nat.div_eq_of_lt hj,
        Nat.mod_eq_of_lt hj]
      exact ⟨rfl, rfl⟩
    obtain ⟨hlow, hhigh⟩ := foldl_butterflyUpdate h (fun k => tw (q * k))
      (fun j => f (c * (2 * h) + j)) (Nat.le_refl h) k hk
    rw [if_pos hk] at hlow hhigh
    dsimp only
    rw [Nat.add_assoc, (hdiv k (by omega)).1, (hdiv k (by omega)).2, (hdiv (k + h) (by omega)).1,
      (hdiv (k + h) (by omega)).2]
    exact ⟨hlow, hhigh⟩

/-- After `s` stages every block of `2 ^ s` entries is the transform of the entries that it had at
    first, in the order of their reversed bits. -/
def StageDone (w : F) (k : Nat) (b : Nat → F) (s : Nat) (f : Nat → F) : Prop :=
  ∀ c < 2 ^ (k - s), ∀ j < 2 ^ s,
    f (c * 2 ^ s + j) = dft (w ^ 2 ^ (k - s)) (2 ^ s) (fun t => b (c * 2 ^ s + bitrev s t)) j

variable {w : F} {k : Nat} {b tw : Nat → F}

theorem stageDone_zero (w : F) (k : Nat) (b : Nat → F) : StageDone w k b 0 b := by
  intro c _ j hj
  obtain rfl : j = 0 := by omega
  simp [dft, bitrev]

/-- Each stage doubles the blocks. -/
theorem StageDone.succ (hw : IsPrimitiveRoot w (2 ^ k)) (htw : ∀ p < 2 ^ k, tw p = w ^ p) {s : Nat}
    (hs : s < k) {f : Nat → F} (hdone : StageDone w k b s f) :
    ∃ g, stage (2 ^ k) (cells (2 ^ k) tw) (2 ^ (s + 1)) (cells (2 ^ k) f) =
        .ok (cells (2 ^ k) g) ∧ StageDone w k b (s + 1) g := by
  have hsize : 2 ^ (k - (s + 1)) * (2 * 2 ^ s) = 2 ^ k := by
    rw [← pow_succ', ← pow_add, Nat.sub_add_cancel hs]
  have hdouble : 2 ^ (k - s) = 2 * 2 ^ (k - (s + 1)) := by
    rw [← pow_succ', Nat.sub_add_eq, Nat.sub_add_cancel (by omega)]
  have hsquare : (w ^ 2 ^ (k - (s + 1))) ^ 2 = w ^ 2 ^ (k - s) := by
    rw [← pow_mul, hdouble, Nat.mul_comm]
  have hroot : (w ^ 2 ^ (k - (s + 1))) ^ 2 ^ s = -1 := by
    apply pow_half_eq_neg_one
    apply hw.pow (Nat.two_pow_pos k)
    rw [← pow_add, Nat.sub_add_cancel hs]
  obtain ⟨g, hstage, hg⟩ := stage_cells (q := 2 ^ (k - (s + 1))) (Nat.two_pow_pos s) tw f
  rw [hsize, ← pow_succ'] at hstage
  refine ⟨g, hstage, ?_⟩
  intro c hc j hj
  -- the two halves of a block are the blocks `2 * c` and `2 * c + 1` of the stage before
  have hblocks : ∀ j < 2 ^ s,
      f (c * (2 * 2 ^ s) + j) = dft (w ^ 2 ^ (k - s)) (2 ^ s)
        (fun t => b (c * 2 ^ (s + 1) + bitrev s t)) j ∧
      f (c * (2 * 2 ^ s) + j + 2 ^ s) = dft (w ^ 2 ^ (k - s)) (2 ^ s)
        (fun t => b (c * 2 ^ (s + 1) + (2 ^ s + bitrev s t))) j := by
    intro j hj
    have hlow := hdone (2 * c) (by omega) j hj
    have hhigh := hdone (2 * c + 1) (by omega) j hj
    have hbase : 2 * c * 2 ^ s = c * 2 ^ (s + 1) := by rw [pow_succ]; ring
    have hbase' : (2 * c + 1) * 2 ^ s = c * 2 ^ (s + 1) + 2 ^ s := by rw [pow_succ]; ring
    rw [hbase] at hlow
    rw [hbase', Nat.add_right_comm] at hhigh
    simp only [Nat.add_assoc] at hhigh
    rw [← pow_succ', Nat.add_assoc]
    exact ⟨hlow, hhigh⟩
  have htwiddle : ∀ j < 2 ^ s, tw (2 ^ (k - (s + 1)) * j) = (w ^ 2 ^ (k - (s + 1))) ^ j := by
    intro j hj
    rw [← pow_mul]
    apply htw
    rw [← hsize]
    exact Nat.mul_lt_mul_of_pos_left (by omega) (Nat.two_pow_pos _)
  rcases Nat.lt_or_ge j (2 ^ s) with hlow | hhigh
  · rw [dft_bitrev_low _ s (fun i => b (c * 2 ^ (s + 1) + i)), hsquare, pow_succ', (hg c j hlow).1,
      (hblocks j hlow).1, (hblocks j hlow).2, htwiddle j hlow, pow_succ']
  · obtain ⟨i, rfl⟩ := Nat.exists_eq_add_of_le' hhigh
    have hi : i < 2 ^ s := by
      rw [pow_succ] at hj
      omega
    rw [dft_bitrev_high _ s (fun i => b (c * 2 ^ (s + 1) + i)) i hroot, hsquare, pow_succ',
      ← Nat.add_assoc, (hg c i hi).2, (hblocks i hi).1, (hblocks i hi).2, htwiddle i hi, pow_succ']

/-- After all stages the transform is done. -/
theorem stages_cells (hw : IsPrimitiveRoot w (2 ^ k)) (htw : ∀ p < 2 ^ k, tw p = w ^ p) {s : Nat}
    (hs : s ≤ k) {fuel : Nat} (hfuel : k ≤ fuel + s) {f : Nat → F} (hdone : StageDone w k b s f) :
    ∃ g, stages (2 ^ k) (cells (2 ^ k) tw) fuel (2 ^ (s + 1)) (cells (2 ^ k) f) =
        .ok (cells (2 ^ k) g) ∧ StageDone w k b k g := by
  have hgt : ∀ {s}, k ≤ s → ¬ 2 ^ (s + 1) ≤ 2 ^ k := by
    intro s hks
    exact not_le.mpr (Nat.pow_lt_pow_right (by decide) (by omega))
  induction fuel generalizing s f with
  | zero =>
    obtain rfl : s = k := by omega
    exact ⟨f, by rw [stages, if_neg (hgt (le_refl s))], hdone⟩
  | succ fuel ih =>
    rcases Nat.lt_or_ge s k with hlt | hge
    · obtain ⟨f', hstage, hdone'⟩ := hdone.succ hw htw hlt
      obtain ⟨g, hrest, hg⟩ := ih hlt (by omega) hdone'
      refine ⟨g, ?_, hg⟩
      rw [stages, if_pos (Nat.pow_le_pow_right (by decide) hlt), hstage, Outcome.ok_bind, ← pow_succ,
        hrest]
    · obtain rfl : s = k := by omega
      exact ⟨f, by rw [stages, if_neg (hgt (le_refl s))], hdone⟩

end Stages

/-! ## The transform -/

section Transform

variable {F : Type} [Field F] {n k : Nat}

/-- The table holds the powers of its first entry. -/
theorem fillTwiddle_cells {f : Nat → F} (h0 : f 0 = 1) (hn : 2 ≤ n) :
    ∃ tw, fillTwiddle n (cells n f) = .ok (cells n tw) ∧ ∀ p < n, tw p = f 1 ^ p := by
  let upd : (Nat → F) → Nat → Nat → F := fun f i => Function.update f i (f (i - 1) * f 1)
  have hstep : ∀ i ∈ List.range' 2 (n - 2), ∀ f : Nat → F,
      (do
        let last ← Vec.get (cells n f) (i - 1)
        let first ← Vec.get (cells n f) 1
        Vec.set (cells n f) i (last * first)) = .ok (cells n (upd f i)) := by
    intro i hi f
    have hi := List.mem_range'_1.mp hi
    rw [Vec.get_cells (by omega), Outcome.ok_bind, Vec.get_cells (by omega), Outcome.ok_bind,
      Vec.set_cells (by omega)]
  -- the entries before the index are powers, and the others do not matter
  have hpowers : ∀ m, ∀ p < m + 2, (List.range' 2 m).foldl upd f p = f 1 ^ p := by
    intro m
    induction m with
    | zero =>
      intro p hp
      obtain rfl | rfl : p = 0 ∨ p = 1 := by omega
      · rw [pow_zero]
        exact h0
      · rw [pow_one]
        rfl
    | succ m ih =>
      intro p hp
      rw [List.range'_1_concat, List.foldl_append, List.foldl_cons, List.foldl_nil]
      by_cases hlast : p = 2 + m
      · have hprev : 2 + m - 1 = 1 + m := by omega
        rw [hlast]
        show Function.update _ _ _ _ = _
        rw [Function.update_self, hprev, ih (1 + m) (by omega), ih 1 (by omega), pow_one, ← pow_succ,
          Nat.add_right_comm]
      · show Function.update _ _ _ _ = _
        rw [Function.update_of_ne hlast, ih p (by omega)]
  refine ⟨_, Vec.foldlM_cells hstep f, ?_⟩
  intro p hp
  exact hpowers (n - 2) p (by omega)

/-- What `fft` computes before the scaling. -/
theorem fft_stages (hbits : k ≤ usizeBits) {root : F}
    (hw : IsPrimitiveRoot root (2 ^ k)) {tw : Nat → F} (htw : ∀ p < 2 ^ k, tw p = root ^ p)
    (f : Nat → F) :
    stages (2 ^ k) (cells (2 ^ k) tw) usizeBits 2 (cells (2 ^ k) fun i => f (bitrev k i)) =
      .ok (cells (2 ^ k) (dft root (2 ^ k) f)) := by
  obtain ⟨g, hstages, hg⟩ := stages_cells hw htw (Nat.zero_le k) (show k ≤ usizeBits + 0 from hbits)
    (stageDone_zero root k fun i => f (bitrev k i))
  rw [Nat.zero_add, pow_one] at hstages
  rw [hstages]
  congr 1
  apply List.cells_congr
  intro j hj
  have hblock := hg 0 (Nat.two_pow_pos _) j hj
  rw [Nat.zero_mul, Nat.zero_add, Nat.sub_self, pow_zero, pow_one] at hblock
  rw [hblock]
  apply dft_congr
  intro i hi
  show f (bitrev k (0 + bitrev k i)) = f i
  rw [Nat.zero_add, bitrev_bitrev hi]

variable [DecidableEq F] {L : PolyLibrary F} {w : F}

theorem isPowerOfTwo_two_pow (k : Nat) : Shape.isPowerOfTwo (2 ^ k) = true := by
  rw [Shape.isPowerOfTwo, nextPowerOfTwo, Nat.clog_pow 2 k (by decide), beq_self_eq_true]

/-- The transform, and the inverse one. -/
theorem fft_cells (hk : 0 < k) (hbits : k ≤ usizeBits) (hroot : L.rootOfUnity (2 ^ k) = some w)
    (hw : IsPrimitiveRoot w (2 ^ k)) (f : Nat → F) :
    fft L (cells (2 ^ k) f) false = .ok (cells (2 ^ k) (dft w (2 ^ k) f)) ∧
      fft L (cells (2 ^ k) f) true =
        .ok (cells (2 ^ k) fun j => dft w⁻¹ (2 ^ k) f j * ((2 ^ k : Nat) : F)⁻¹) := by
  have htwo : 2 ≤ 2 ^ k := by
    calc 2 = 2 ^ 1 := rfl
      _ ≤ 2 ^ k := Nat.pow_le_pow_right (by decide) hk
  have hne : w ≠ 0 := hw.ne_zero (by omega)
  have hlength : ((2 ^ k : Nat) : F) ≠ 0 := by
    have : NeZero (2 ^ k) := ⟨by omega⟩
    exact hw.neZero'.ne
  have hget : getRootOfUnity L k = .ok w := by rw [getRootOfUnity, hroot, okOr_some]
  have hstart : ∀ a : F, ∃ tw, (fillTwiddle (2 ^ k) (cells (2 ^ k)
        (Function.update (Function.update (fun _ => 0) 0 1) 1 a)) = .ok (cells (2 ^ k) tw)) ∧
      ∀ p < 2 ^ k, tw p = a ^ p := by
    intro a
    obtain ⟨tw, hfill, htw⟩ := fillTwiddle_cells
      (f := Function.update (Function.update (fun _ => 0) 0 1) 1 a) (by simp) htwo
    exact ⟨tw, hfill, by simpa using htw⟩
  constructor
  · obtain ⟨tw, hfill, htw⟩ := hstart w
    unfold fft
    simp only [List.length_cells, isPowerOfTwo_two_pow, ensure_true, Outcome.ok_bind, ilog2_two_pow,
      bitreverse_cells hk hbits, List.replicate_eq_cells, Vec.set_cells (show 0 < 2 ^ k by omega),
      hget, Vec.set_cells (show 1 < 2 ^ k by omega), hfill, fft_stages hbits hw htw]
    rfl
  · obtain ⟨tw, hfill, htw⟩ := hstart w⁻¹
    unfold fft
    simp only [List.length_cells, isPowerOfTwo_two_pow, ensure_true, Outcome.ok_bind, ilog2_two_pow,
      bitreverse_cells hk hbits, List.replicate_eq_cells, Vec.set_cells (show 0 < 2 ^ k by omega),
      hget, Vec.set_cells (show 1 < 2 ^ k by omega), Vec.get_cells (show 1 < 2 ^ k by omega),
      Function.update_self, inverseOrPanic, if_neg hne, Function.update_idem, if_true,
      hfill, fft_stages hbits hw.inv htw, if_neg hlength, List.map_cells]

/-- A discrete Fourier transform of vectors of one length: the sums of the entries times powers of
    a root of unity, with the inverse transform. -/
structure IsTransform (transform : List F → Bool → Outcome (List F)) (root : F) (n : Nat) :
    Prop where
  forward : ∀ v : List F, v.length = n → transform v false =
    .ok (cells n fun j => ∑ i ∈ Finset.range n, v.getD i 0 * root ^ (i * j))
  leftInverse : ∀ v : List F, v.length = n →
    (transform v false >>= fun v => transform v true) = .ok v
  rightInverse : ∀ v : List F, v.length = n →
    (transform v true >>= fun v => transform v false) = .ok v
  convolution : ∀ u v : List F, u.length = n → v.length = n →
    (do
      let u ← transform u false
      let v ← transform v false
      transform (List.zipWith (· * ·) u v) true) =
    .ok (cells n (cyclic n (fun i => u.getD i 0) fun i => v.getD i 0))

/-- `fft` is a discrete Fourier transform. A `Vec` has less than `2 ^ 63` entries. -/
theorem fft_isTransform (hk : 0 < k) (hlen : 2 ^ k < 2 ^ 63) (hroot : L.rootOfUnity (2 ^ k) = some w)
    (hw : IsPrimitiveRoot w (2 ^ k)) : IsTransform (fft L) w (2 ^ k) := by
  have hbits : k ≤ usizeBits := by
    have hlt := (Nat.pow_lt_pow_iff_right (by decide)).mp hlen
    show k ≤ 64
    omega
  have hlength : ((2 ^ k : Nat) : F) ≠ 0 := by
    have : NeZero (2 ^ k) := ⟨(Nat.two_pow_pos k).ne'⟩
    exact hw.neZero'.ne
  have hcells : ∀ v : List F, v.length = 2 ^ k → v = cells (2 ^ k) fun i => v.getD i 0 := by
    intro v hv
    let : Inhabited F := ⟨0⟩
    rw [← hv]
    exact List.eq_cells v
  -- the inverse transform of a transform
  have hundo : ∀ f : Nat → F, fft L (cells (2 ^ k) (dft w (2 ^ k) f)) true = .ok (cells (2 ^ k) f) := by
    intro f
    rw [(fft_cells hk hbits hroot hw _).2]
    congr 1
    apply List.cells_congr
    intro j hj
    rw [dft_inv_dft hw f hj, mul_comm, inv_mul_cancel_left₀ hlength]
  constructor
  case forward =>
    intro v hv
    conv_lhs => rw [hcells v hv]
    exact (fft_cells hk hbits hroot hw _).1
  case leftInverse =>
    intro v hv
    rw [hcells v hv, (fft_cells hk hbits hroot hw _).1]
    exact hundo _
  case rightInverse =>
    intro v hv
    rw [hcells v hv, (fft_cells hk hbits hroot hw _).2, Outcome.ok_bind,
      (fft_cells hk hbits hroot hw _).1]
    congr 1
    apply List.cells_congr
    intro j hj
    have hscale : dft w (2 ^ k) (fun j => dft w⁻¹ (2 ^ k) (fun i => v.getD i 0) j *
        ((2 ^ k : Nat) : F)⁻¹) j =
        dft w (2 ^ k) (dft w⁻¹ (2 ^ k) fun i => v.getD i 0) j * ((2 ^ k : Nat) : F)⁻¹ := by
      unfold dft
      rw [Finset.sum_mul]
      exact Finset.sum_congr rfl fun i _ => mul_right_comm _ _ _
    have hback := dft_inv_dft hw.inv (fun i => v.getD i 0) hj
    rw [inv_inv] at hback
    rw [hscale, hback, mul_comm, inv_mul_cancel_left₀ hlength]
  case convolution =>
    intro u v hu hv
    conv_lhs => rw [hcells u hu, hcells v hv]
    rw [(fft_cells hk hbits hroot hw _).1, (fft_cells hk hbits hroot hw _).1]
    simp only [Outcome.ok_bind]
    rw [List.zipWith_cells, ← hundo]
    congr 1
    apply List.cells_congr
    intro j _
    rw [dft_cyclic hw]

end Transform

/-! ## Vectors of four entries -/

section FourEntries

instance fact_prime_thirteen : Fact (Nat.Prime 13) := ⟨by decide⟩

/-- The evaluations of multilinear polynomials, and the fourth root of unity. -/
def fourthRoots : PolyLibrary (ZMod 13) where
  rootOfUnity n := if n = 4 then some 5 else none
  evals point := (List.range (2 ^ point.length)).map (Multilinear.eqWeight point)
  evaluate evaluations point :=
    if evaluations.length = 2 ^ point.length then .ok (Multilinear.eval (evaluations.getD · 0) point)
    else .error (.panic "the number of variables differs")

theorem isPrimitiveRoot_five : IsPrimitiveRoot (5 : ZMod 13) (2 ^ 2) := by
  apply IsPrimitiveRoot.mk_of_lt _ (by decide) (by decide)
  intro l hpos hlt
  interval_cases l <;> decide

theorem fft_isTransform_four : IsTransform (fft fourthRoots) 5 (2 ^ 2) :=
  fft_isTransform (by decide) (by decide) rfl isPrimitiveRoot_five

example : fft fourthRoots [1, 2, 3, 4] false = .ok [10, 1, 11, 8] := by decide +kernel

end FourEntries

end DeepProve
