import DeepProve.Convolution.Fft
import DeepProve.ForStd.PowerEval

/-!
# The transform, at a point

`phi_pow_init` and `phi_g_init` of `iop/prover.rs`: the matrix of a transform is summed over its rows
with the weights of a point. A round of butterflies takes one more coordinate of the point, from the
last one to the first, and doubles the number of the entries; the entries after each round are kept.

The forward direction wants the lower half of the entries only, so that its last round does not double
them.
-/

namespace DeepProve

open List (cells)
open Multilinear (powerEval)

section Model

variable {F : Type} [Field F] [DecidableEq F] (L : PolyLibrary F)

/-- `phi_pow_init`. -/
def phiPowInit (phiMul : List F) (n : Nat) (isFft : Bool) : Outcome (List F) := do
  let length := 2 ^ n
  let rou ← getRootOfUnity L n
  let phi ← if isFft then inverseOrPanic rou "Tried to invert 0 in FFT prover" else .ok rou
  let phiMul ← Vec.set phiMul 0 1
  (List.range' 1 (length - 1)).foldlM (fun phiMul i => do
      let last ← Vec.get phiMul (i - 1)
      Vec.set phiMul i (last * phi))
    phiMul

/-- The body of the loop over `b`. -/
def phiButterfly (rx phiMul : List F) (n i : Nat) (phiG : List F) (b : Nat) : Outcome (List F) := do
  let l := b
  let r := b ^^^ 2 ^ (i - 1)
  let m := n - i
  let coordinate ← Vec.get rx m
  let power ← Vec.get phiMul (b * 2 ^ m)
  let tmp1 := 1 - coordinate
  let tmp2 := coordinate * power
  let value ← Vec.get phiG l
  let phiG ← Vec.set phiG r (value * (tmp1 - tmp2))
  let value ← Vec.get phiG l
  Vec.set phiG l (value * (tmp1 + tmp2))

/-- The body of the loop over `i`. The forward direction has no test `i < n`: there it always holds. -/
def phiRound (rx phiMul : List F) (n : Nat) (state : List F × List (List F)) (i : Nat) :
    Outcome (List F × List (List F)) := do
  let (phiG, midPhiG) := state
  let phiG ← (List.range (2 ^ (i - 1))).foldlM (phiButterfly rx phiMul n i) phiG
  if i < n then do
    let copy ← sliceTo phiG (2 ^ i)
    let midPhiG ← Vec.set midPhiG (i - 1) copy
    .ok (phiG, midPhiG)
  else
    .ok (phiG, midPhiG)

/-- The body of the last loop of the forward direction. -/
def phiTruncated (rx : List F) (phiG : List F) (entry : F × Nat) : Outcome (List F) := do
  let (item, b) := entry
  let coordinate ← Vec.get rx 0
  let tmp1 := 1 - coordinate
  let tmp2 := coordinate * item
  let value ← Vec.get phiG b
  Vec.set phiG b (value * (tmp1 + tmp2))

/-- `phi_g_init`; the flag is set for the inverse transform. -/
def phiGInit (phiG : List F) (midPhiG : List (List F)) (rx : List F) (scale : F) (n : Nat)
    (isFft : Bool) : Outcome (List F × List (List F)) := do
  let phiMul ← phiPowInit L (List.replicate (2 ^ n) 0) n isFft
  if isFft then do
    let phiG ← Vec.set phiG 0 scale
    let phiG ← Vec.set phiG 1 scale
    (List.range' 1 n).foldlM (phiRound rx phiMul n) (phiG, midPhiG)
  else do
    let phiG ← Vec.set phiG 0 scale
    let (phiG, midPhiG) ← (List.range' 1 (n - 1)).foldlM (phiRound rx phiMul n) (phiG, midPhiG)
    let phiG ← (phiMul.zipIdx.take (2 ^ (n - 1))).foldlM (phiTruncated rx) phiG
    .ok (phiG, midPhiG)

end Model

/-! ## The powers -/

section Powers

variable {F : Type} [Field F] [DecidableEq F] {L : PolyLibrary F}

/-- The root that a direction uses. -/
def directedRoot (w : F) (isFft : Bool) : F := if isFft then w⁻¹ else w

theorem phiPowInit_eq_ok {w : F} {n : Nat} (hroot : L.rootOfUnity (2 ^ n) = some w)
    (hw : IsPrimitiveRoot w (2 ^ n)) (isFft : Bool) (f : Nat → F) :
    phiPowInit L (cells (2 ^ n) f) n isFft = .ok (cells (2 ^ n) (directedRoot w isFft ^ ·)) := by
  have hpos := Nat.two_pow_pos n
  have hget : getRootOfUnity L n = .ok w := by rw [getRootOfUnity, hroot, okOr_some]
  -- the entries up to the index are powers
  have hpowers : ∀ a : F, ∀ m, ∀ p < m + 1,
      (List.range' 1 m).foldl (fun f i => Function.update f i (f (i - 1) * a))
        (Function.update f 0 1) p = a ^ p := by
    intro a m
    induction m with
    | zero =>
      intro p hp
      obtain rfl : p = 0 := by omega
      rw [pow_zero]
      exact Function.update_self 0 1 f
    | succ m ih =>
      intro p hp
      rw [List.range'_1_concat, List.foldl_append, List.foldl_cons, List.foldl_nil]
      by_cases hlast : p = 1 + m
      · rw [hlast, Function.update_self, Nat.add_sub_cancel_left, ih m (by omega), ← pow_succ,
          Nat.add_comm]
      · rw [Function.update_of_ne hlast, ih p (by omega)]
  have hloop : ∀ a : F, (do
      let phiMul ← Vec.set (cells (2 ^ n) f) 0 1
      (List.range' 1 (2 ^ n - 1)).foldlM (fun phiMul i => do
          let last ← Vec.get phiMul (i - 1)
          Vec.set phiMul i (last * a))
        phiMul) = .ok (cells (2 ^ n) (a ^ ·)) := by
    intro a
    rw [Vec.set_cells hpos, Outcome.ok_bind, Vec.foldlM_cells]
    · congr 1
      apply List.cells_congr
      intro p hp
      exact hpowers a (2 ^ n - 1) p (by omega)
    · intro i hi f
      have hi := List.mem_range'_1.mp hi
      rw [Vec.get_cells (by omega), Outcome.ok_bind, Vec.set_cells (by omega)]
  rw [phiPowInit, hget, Outcome.ok_bind]
  cases isFft with
  | false => exact hloop w
  | true =>
    dsimp only
    rw [if_pos rfl, inverseOrPanic, if_neg (hw.ne_zero hpos.ne')]
    exact hloop w⁻¹

end Powers

/-! ## The rounds -/

section Rounds

variable {F : Type} [Field F]

/-- The entry `b` after `i` rounds: the last `i` coordinates of the point are summed. -/
def phiLevel (a scale : F) (rx : List F) (i b : Nat) : F :=
  scale * powerEval ((a ^ 2 ^ (rx.length - i)) ^ b) (rx.drop (rx.length - i))

/-- The entries that are kept after a round. -/
def phiMiddle (a scale : F) (rx : List F) (l : Nat) : List F :=
  cells (2 ^ (l + 1)) (phiLevel a scale rx (l + 1))

variable {a scale : F} {rx : List F} {n : Nat}

theorem phiLevel_zero (b : Nat) : phiLevel a scale rx 0 b = scale := by
  rw [phiLevel, Nat.sub_zero, List.drop_length, Multilinear.powerEval_nil, mul_one]

variable {i : Nat}

omit [Field F] in
/-- The coordinate that a round takes. -/
theorem drop_eq_cons (hi : i < rx.length) :
    ∃ r, rx[rx.length - (i + 1)]? = some r ∧
      rx.drop (rx.length - (i + 1)) = r :: rx.drop (rx.length - i) := by
  have hlt : rx.length - (i + 1) < rx.length := by omega
  have hnext : rx.length - (i + 1) + 1 = rx.length - i := by omega
  refine ⟨rx[rx.length - (i + 1)], List.getElem?_eq_getElem hlt, ?_⟩
  rw [List.drop_eq_getElem_cons hlt, hnext]

theorem sq_pow_two_pow (hi : i < rx.length) :
    (a ^ 2 ^ (rx.length - (i + 1))) ^ 2 = a ^ 2 ^ (rx.length - i) := by
  rw [← pow_mul, ← pow_succ]
  congr 2
  omega

theorem phiLevel_succ (hi : i < rx.length) {r : F} (hr : rx[rx.length - (i + 1)]? = some r)
    (b : Nat) :
    phiLevel a scale rx (i + 1) b =
      phiLevel a scale rx i b * (1 - r + r * a ^ (b * 2 ^ (rx.length - (i + 1)))) := by
  obtain ⟨r', hr', hdrop⟩ := drop_eq_cons hi
  obtain rfl : r = r' := Option.some.inj (hr.symm.trans hr')
  rw [phiLevel, phiLevel, hdrop, Multilinear.powerEval_pow, sq_pow_two_pow hi, ← pow_mul, Nat.mul_comm b]
  ring

theorem phiLevel_succ_add (ha : IsPrimitiveRoot a (2 ^ rx.length)) (hi : i < rx.length) {r : F}
    (hr : rx[rx.length - (i + 1)]? = some r) (b : Nat) :
    phiLevel a scale rx (i + 1) (2 ^ i + b) =
      phiLevel a scale rx i b * (1 - r - r * a ^ (b * 2 ^ (rx.length - (i + 1)))) := by
  obtain ⟨r', hr', hdrop⟩ := drop_eq_cons hi
  obtain rfl : r = r' := Option.some.inj (hr.symm.trans hr')
  have hhalf : (a ^ 2 ^ (rx.length - (i + 1))) ^ 2 ^ i = -1 := by
    obtain ⟨s, hs⟩ := Nat.exists_eq_succ_of_ne_zero (by omega : rx.length ≠ 0)
    rw [hs] at ha
    rw [← pow_mul, ← pow_add, show rx.length - (i + 1) + i = s by omega]
    exact Dft.pow_half_eq_neg_one ha
  rw [phiLevel, phiLevel, hdrop, Multilinear.powerEval_pow_add hhalf, sq_pow_two_pow hi, ← pow_mul,
    Nat.mul_comm b]
  ring

/-- What a butterfly makes of an entry, at the distance `h`. -/
def phiUpdate (h : Nat) (r : F) (t : Nat → F) (f : Nat → F) (b : Nat) : Nat → F :=
  Function.update (Function.update f (h + b) (f b * (1 - r - r * t b))) b (f b * (1 - r + r * t b))

theorem xor_two_pow {b k : Nat} (hb : b < 2 ^ k) : b ^^^ 2 ^ k = 2 ^ k + b := by
  have hquot : (b ^^^ 2 ^ k) / 2 ^ k = 1 := by
    rw [Nat.xor_div_two_pow, Nat.div_eq_of_lt hb, Nat.div_self (Nat.two_pow_pos k), Nat.zero_xor]
  have hrest : (b ^^^ 2 ^ k) % 2 ^ k = b := by
    rw [Nat.xor_mod_two_pow, Nat.mod_eq_of_lt hb, Nat.mod_self, Nat.xor_zero]
  have hdiv := Nat.div_add_mod (b ^^^ 2 ^ k) (2 ^ k)
  rw [hquot, hrest, Nat.mul_one] at hdiv
  exact hdiv.symm

theorem phiButterfly_cells (hi : i < rx.length) {r : F} (hr : rx[rx.length - (i + 1)]? = some r)
    {b : Nat} (hb : b < 2 ^ i) (t f : Nat → F) :
    phiButterfly rx (cells (2 ^ rx.length) t) rx.length (i + 1) (cells (2 ^ rx.length) f) b =
      .ok (cells (2 ^ rx.length)
        (phiUpdate (2 ^ i) r (fun b => t (b * 2 ^ (rx.length - (i + 1)))) f b)) := by
  have hhalf : 2 ^ i + 2 ^ i ≤ 2 ^ rx.length := by
    calc 2 ^ i + 2 ^ i = 2 ^ (i + 1) := by rw [pow_succ, Nat.mul_two]
      _ ≤ 2 ^ rx.length := Nat.pow_le_pow_right (by decide) hi
  have hpower : b * 2 ^ (rx.length - (i + 1)) < 2 ^ rx.length := by
    calc b * 2 ^ (rx.length - (i + 1)) < 2 ^ i * 2 ^ (rx.length - (i + 1)) :=
          Nat.mul_lt_mul_of_pos_right hb (Nat.two_pow_pos _)
      _ ≤ 2 ^ rx.length := by
          rw [← pow_add]
          exact Nat.pow_le_pow_right (by decide) (by omega)
  have hcoordinate : Vec.get rx (rx.length - (i + 1)) = .ok r := by rw [Vec.get, hr, unwrap_some]
  rw [phiButterfly, Nat.add_sub_cancel, xor_two_pow hb, hcoordinate, Outcome.ok_bind,
    Vec.get_cells hpower, Outcome.ok_bind]
  dsimp only
  rw [Vec.get_cells (by omega), Outcome.ok_bind, Vec.set_cells (by omega), Outcome.ok_bind,
    Vec.get_cells (by omega), Outcome.ok_bind, Vec.set_cells (by omega),
    Function.update_of_ne (by omega)]
  rfl

/-- The butterflies of a round do not depend on each other. -/
theorem foldl_phiUpdate (h : Nat) (r : F) (t f : Nat → F) {m : Nat} (hm : m ≤ h) (b : Nat) :
    (List.range m).foldl (phiUpdate h r t) f b =
      if b < m then f b * (1 - r + r * t b)
      else if h ≤ b ∧ b < h + m then f (b - h) * (1 - r - r * t (b - h)) else f b := by
  induction m generalizing b with
  | zero => simp
  | succ m ih =>
    have ih := fun b => ih (by omega) b
    have hlast : (List.range m).foldl (phiUpdate h r t) f m = f m := by
      rw [ih m, if_neg (lt_irrefl m), if_neg (by omega)]
    rw [List.range_succ, List.foldl_append, List.foldl_cons, List.foldl_nil, phiUpdate, hlast]
    by_cases hbm : b = m
    · subst hbm
      rw [Function.update_self, if_pos (by omega)]
    · rw [Function.update_of_ne hbm]
      by_cases hbh : b = h + m
      · subst hbh
        rw [Function.update_self, if_neg (by omega), if_pos (by omega), Nat.add_sub_cancel_left]
      · have hlow : b < m + 1 ↔ b < m := by omega
        have hhigh : h ≤ b ∧ b < h + (m + 1) ↔ h ≤ b ∧ b < h + m := by omega
        rw [Function.update_of_ne hbh, ih b]
        simp only [hlow, hhigh]

/-- What a round computes: the entries of the next level. -/
theorem foldl_phiButterfly (ha : IsPrimitiveRoot a (2 ^ rx.length)) (hi : i < rx.length)
    {f : Nat → F} (hf : ∀ b < 2 ^ i, f b = phiLevel a scale rx i b) :
    ∃ g, (List.range (2 ^ i)).foldlM
        (phiButterfly rx (cells (2 ^ rx.length) (a ^ ·)) rx.length (i + 1)) (cells (2 ^ rx.length) f) =
          .ok (cells (2 ^ rx.length) g) ∧
      (∀ b < 2 ^ (i + 1), g b = phiLevel a scale rx (i + 1) b) ∧ ∀ b, 2 ^ (i + 1) ≤ b → g b = f b := by
  obtain ⟨r, hr, -⟩ := drop_eq_cons hi
  have hcells := Vec.foldlM_cells (fun b hb (f : Nat → F) =>
    phiButterfly_cells hi hr (List.mem_range.mp hb) (a ^ ·) f) f
  have hfold := foldl_phiUpdate (2 ^ i) r (fun b => a ^ (b * 2 ^ (rx.length - (i + 1)))) f
    (Nat.le_refl (2 ^ i))
  have hpow : 2 ^ (i + 1) = 2 ^ i + 2 ^ i := by rw [pow_succ, Nat.mul_two]
  refine ⟨_, hcells, ?_, ?_⟩
  · intro b hb
    rw [hfold b]
    by_cases hlow : b < 2 ^ i
    · rw [if_pos hlow, hf b hlow, phiLevel_succ hi hr]
    · obtain ⟨c, rfl⟩ := Nat.exists_eq_add_of_le (Nat.not_lt.mp hlow)
      have hc : c < 2 ^ i := by omega
      rw [if_neg hlow, if_pos ⟨Nat.le_add_right _ _, by omega⟩, Nat.add_sub_cancel_left, hf c hc,
        phiLevel_succ_add ha hi hr]
  · intro b hb
    rw [hfold b, if_neg (by omega), if_neg (by omega)]

/-- The kept entries after `k` rounds. -/
def midAfter (a scale : F) (rx : List F) (k l : Nat) : List F :=
  if l < k then phiMiddle a scale rx l else []

/-- The entries after `k` rounds, and those that are kept. -/
structure PhiRounds (a scale : F) (rx : List F) (f₀ : Nat → F) (k : Nat)
    (state : List F × List (List F)) : Prop where
  phiG : ∃ f, state.1 = cells (2 ^ rx.length) f ∧ (∀ b < 2 ^ k, f b = phiLevel a scale rx k b) ∧
    ∀ b, 2 ^ k ≤ b → f b = f₀ b
  midPhiG : state.2 = cells (rx.length - 1) (midAfter a scale rx k)

theorem PhiRounds.succ (ha : IsPrimitiveRoot a (2 ^ rx.length)) {f₀ : Nat → F} {k : Nat}
    (hk : k < rx.length) {state : List F × List (List F)} (h : PhiRounds a scale rx f₀ k state) :
    ∃ next, phiRound rx (cells (2 ^ rx.length) (a ^ ·)) rx.length state (k + 1) = .ok next ∧
      PhiRounds a scale rx f₀ (k + 1) next := by
  obtain ⟨phiG, midPhiG⟩ := state
  obtain ⟨⟨f, hstate, hfilled, habove⟩, hmid⟩ := h
  dsimp only at hstate hmid
  obtain ⟨g, hloop, hg, hrest⟩ := foldl_phiButterfly ha hk hfilled
  have hphiG : ∃ f, cells (2 ^ rx.length) g = cells (2 ^ rx.length) f ∧
      (∀ b < 2 ^ (k + 1), f b = phiLevel a scale rx (k + 1) b) ∧ ∀ b, 2 ^ (k + 1) ≤ b → f b = f₀ b := by
    refine ⟨g, rfl, hg, ?_⟩
    intro b hb
    have hle : 2 ^ k ≤ 2 ^ (k + 1) := Nat.pow_le_pow_right (by decide) (Nat.le_succ k)
    rw [hrest b hb, habove b (hle.trans hb)]
  rw [phiRound, hstate, hmid, Nat.add_sub_cancel, hloop, Outcome.ok_bind]
  by_cases hlast : k + 1 < rx.length
  · -- the entries of the level are kept
    have hpow : 2 ^ (k + 1) ≤ 2 ^ rx.length := Nat.pow_le_pow_right (by decide) hk
    have hcopy : sliceTo (cells (2 ^ rx.length) g) (2 ^ (k + 1)) = .ok (phiMiddle a scale rx k) := by
      have htake := List.take_drop_cells (f := g) (show 0 + 2 ^ (k + 1) ≤ 2 ^ rx.length by omega)
      rw [List.drop_zero] at htake
      rw [sliceTo, if_pos (by rwa [List.length_cells]), htake, phiMiddle]
      congr 1
      apply List.cells_congr
      intro b hb
      rw [Nat.zero_add, hg b hb]
    rw [if_pos hlast, hcopy, Outcome.ok_bind, Vec.set_cells (by omega), Outcome.ok_bind]
    refine ⟨_, rfl, hphiG, ?_⟩
    apply List.cells_congr
    intro l _
    by_cases hl : l = k
    · rw [hl, Function.update_self, midAfter, if_pos (Nat.lt_succ_self k)]
    · have hiff : l < k + 1 ↔ l < k := by omega
      rw [Function.update_of_ne hl, midAfter, midAfter]
      simp only [hiff]
  · rw [if_neg hlast]
    refine ⟨_, rfl, hphiG, ?_⟩
    apply List.cells_congr
    intro l hl
    rw [midAfter, midAfter, if_pos (by omega), if_pos (by omega)]

/-- The rounds, from the first one on. -/
theorem phiRounds_eq_ok (ha : IsPrimitiveRoot a (2 ^ rx.length)) {f₀ : Nat → F} (h0 : f₀ 0 = scale)
    {k : Nat} (hk : k ≤ rx.length) :
    ∃ state, (List.range' 1 k).foldlM (phiRound rx (cells (2 ^ rx.length) (a ^ ·)) rx.length)
        (cells (2 ^ rx.length) f₀, cells (rx.length - 1) fun _ => []) = .ok state ∧
      PhiRounds a scale rx f₀ k state := by
  induction k with
  | zero =>
    refine ⟨_, rfl, ⟨f₀, rfl, ?_, fun _ _ => rfl⟩, ?_⟩
    · intro b hb
      obtain rfl : b = 0 := by omega
      rw [phiLevel_zero, h0]
    · apply List.cells_congr
      intro l _
      rw [midAfter, if_neg (Nat.not_lt_zero l)]
  | succ k ih =>
    obtain ⟨state, hrun, hstate⟩ := ih (by omega)
    obtain ⟨next, hround, hnext⟩ := hstate.succ ha hk
    refine ⟨next, ?_, hnext⟩
    rw [List.range'_1_concat, List.foldlM_append, hrun, Outcome.ok_bind, List.foldlM_cons,
      Nat.add_comm 1 k, hround, Outcome.ok_bind]
    rfl

end Rounds

/-! ## The entries at the end -/

section Init

variable {F : Type} [Field F] [DecidableEq F] {L : PolyLibrary F} {w : F} {rx : List F}

/-- What the levels are kept for: all but the last. -/
def phiMiddles (a scale : F) (rx : List F) : List (List F) :=
  cells (rx.length - 1) (phiMiddle a scale rx)

omit [DecidableEq F] in
/-- The last level is the row of the matrix at the point. -/
theorem phiLevel_length (a scale : F) (rx : List F) (b : Nat) :
    phiLevel a scale rx rx.length b =
      scale * ∑ x ∈ Finset.range (2 ^ rx.length), Multilinear.eqWeight rx x * a ^ (x * b) := by
  rw [phiLevel, Nat.sub_self, List.drop_zero, pow_zero, pow_one, powerEval, Multilinear.eval]
  congr 1
  apply Finset.sum_congr rfl
  intro x _
  rw [← pow_mul, Nat.mul_comm b x, mul_comm]

omit [DecidableEq F] in
theorem midAfter_all {a scale : F} {k : Nat} (hk : rx.length - 1 ≤ k) :
    cells (rx.length - 1) (midAfter a scale rx k) = phiMiddles a scale rx := by
  apply List.cells_congr
  intro l hl
  rw [midAfter, if_pos (by omega)]

/-- The inverse direction. -/
theorem phiGInit_inverse (hroot : L.rootOfUnity (2 ^ rx.length) = some w)
    (hw : IsPrimitiveRoot w (2 ^ rx.length)) (hn : 0 < rx.length) (scale : F) :
    phiGInit L (List.replicate (2 ^ rx.length) 0) (List.replicate (rx.length - 1) []) rx scale rx.length
        true =
      .ok (cells (2 ^ rx.length) (phiLevel w⁻¹ scale rx rx.length), phiMiddles w⁻¹ scale rx) := by
  have hsize : 2 ≤ 2 ^ rx.length := by
    calc 2 = 2 ^ 1 := rfl
      _ ≤ 2 ^ rx.length := Nat.pow_le_pow_right (by decide) hn
  have hpowers := phiPowInit_eq_ok hroot hw true fun _ => 0
  have hstart : Function.update (Function.update (fun _ => (0 : F)) 0 scale) 1 scale 0 = scale := by
    rw [Function.update_of_ne (by decide), Function.update_self]
  obtain ⟨⟨phiG, midPhiG⟩, hrun, ⟨f, hphiG, hf, -⟩, hmid⟩ :=
    phiRounds_eq_ok (a := w⁻¹) hw.inv hstart (Nat.le_refl rx.length)
  dsimp only at hphiG hmid
  rw [phiGInit, List.replicate_eq_cells, List.replicate_eq_cells, hpowers, Outcome.ok_bind, if_pos rfl,
    Vec.set_cells (by omega), Outcome.ok_bind, Vec.set_cells (by omega), Outcome.ok_bind]
  refine hrun.trans ?_
  rw [hphiG, hmid, midAfter_all (by omega)]
  congr 2
  exact List.cells_congr hf

/-- The forward direction: the upper half is not filled. -/
theorem phiGInit_forward (hroot : L.rootOfUnity (2 ^ rx.length) = some w)
    (hw : IsPrimitiveRoot w (2 ^ rx.length)) (hn : 0 < rx.length) (scale : F) :
    phiGInit L (List.replicate (2 ^ rx.length) 0) (List.replicate (rx.length - 1) []) rx scale rx.length
        false =
      .ok (cells (2 ^ rx.length) (fun b =>
          if b < 2 ^ (rx.length - 1) then phiLevel w scale rx rx.length b else 0),
        phiMiddles w scale rx) := by
  have hpos := Nat.two_pow_pos rx.length
  have hhalf : 2 ^ (rx.length - 1) ≤ 2 ^ rx.length := Nat.pow_le_pow_right (by decide) (by omega)
  have hpowers := phiPowInit_eq_ok hroot hw false fun _ => 0
  have hstart : Function.update (fun _ => (0 : F)) 0 scale 0 = scale := by
    rw [Function.update_self]
  obtain ⟨⟨phiG, midPhiG⟩, hrun, ⟨f, hphiG, hf, habove⟩, hmid⟩ :=
    phiRounds_eq_ok (a := w) hw hstart (Nat.sub_le rx.length 1)
  dsimp only at hphiG hmid
  -- the first coordinate, for the entries of the lower half
  obtain ⟨r, hr, -⟩ := drop_eq_cons (show rx.length - 1 < rx.length by omega)
  have hzero : rx.length - (rx.length - 1 + 1) = 0 := by omega
  have hget : Vec.get rx 0 = .ok r := by
    rw [hzero] at hr
    rw [Vec.get, hr, unwrap_some]
  have hentries : ((cells (2 ^ rx.length) (w ^ ·)).zipIdx.take (2 ^ (rx.length - 1))) =
      (List.range (2 ^ (rx.length - 1))).map fun b => (w ^ b, b) := by
    apply List.ext_getElem
    · simp
      omega
    · intro i _ _
      simp [cells]
  have hlast : ∀ b ∈ List.range (2 ^ (rx.length - 1)), ∀ f : Nat → F,
      phiTruncated rx (cells (2 ^ rx.length) f) (w ^ b, b) =
        .ok (cells (2 ^ rx.length) (Function.update f b (f b * (1 - r + r * w ^ b)))) := by
    intro b hb f
    have hb := List.mem_range.mp hb
    rw [phiTruncated, hget, Outcome.ok_bind]
    dsimp only
    rw [Vec.get_cells (by omega), Outcome.ok_bind, Vec.set_cells (by omega)]
  have hfold : ∀ m ≤ 2 ^ (rx.length - 1), ∀ b,
      (List.range m).foldl (fun f b => Function.update f b (f b * (1 - r + r * w ^ b))) f b =
        if b < m then f b * (1 - r + r * w ^ b) else f b := by
    intro m hm b
    induction m generalizing b with
    | zero => simp
    | succ m ih =>
      rw [List.range_succ, List.foldl_append, List.foldl_cons, List.foldl_nil]
      by_cases hbm : b = m
      · rw [hbm, Function.update_self, ih (by omega) m, if_neg (lt_irrefl m),
          if_pos (Nat.lt_succ_self m)]
      · have hiff : b < m + 1 ↔ b < m := by omega
        rw [Function.update_of_ne hbm, ih (by omega) b]
        simp only [hiff]
  rw [phiGInit, List.replicate_eq_cells, List.replicate_eq_cells, hpowers, Outcome.ok_bind,
    if_neg Bool.false_ne_true, Vec.set_cells hpos, Outcome.ok_bind]
  refine (congrArg (· >>= _) hrun).trans ?_
  rw [Outcome.ok_bind]
  dsimp only
  rw [hphiG, hmid, midAfter_all (Nat.le_refl _)]
  show (do
    let phiG ← ((cells (2 ^ rx.length) (w ^ ·)).zipIdx.take (2 ^ (rx.length - 1))).foldlM
      (phiTruncated rx) (cells (2 ^ rx.length) f)
    Except.ok (phiG, phiMiddles w scale rx)) = _
  rw [hentries, List.foldlM_map, Vec.foldlM_cells hlast, Outcome.ok_bind]
  congr 2
  apply List.cells_congr
  intro b _
  rw [hfold _ (Nat.le_refl _) b]
  by_cases hb : b < 2 ^ (rx.length - 1)
  · have hsucc : phiLevel w scale rx (rx.length - 1 + 1) b = _ := phiLevel_succ (by omega) hr b
    rw [hzero, pow_zero, Nat.mul_one, Nat.sub_add_cancel hn] at hsucc
    rw [if_pos hb, if_pos hb, hf b hb, hsucc]
  · have hbne : b ≠ 0 := by
      rintro rfl
      exact hb (Nat.two_pow_pos _)
    rw [if_neg hb, if_neg hb, habove b (not_lt.mp hb), Function.update_of_ne hbne]

end Init

end DeepProve
