import DeepProve.PolyCommit.Basic
import DeepProve.ForStd.Multilinear

/-!
# What the helpers for chunks compute

The coefficients of the chunks are the weights of the vertices of the hypercube
at the last coordinates of the claim's point; what is left of the point is where
the chunks are evaluated. The helpers return exactly when the number of chunks is
a power of two and the point has enough coordinates.
-/

namespace DeepProve

variable {F : Type} [CommRing F]

theorem identityEval_eq_eqPoly (r1 r2 : List F) : identityEval r1 r2 = Multilinear.eqPoly r1 r2 := by
  rw [identityEval, Multilinear.eqPoly, List.prod_eq_foldl, List.foldl_map]

/-- The `eq` polynomial at the bits of a number is the weight of that vertex. -/
theorem identityEval_bits (hi : List F) (num : Nat) :
    identityEval hi (((List.range hi.length).map fun i => num / 2 ^ i % 2).map
      fun (b : Nat) => (b : F)) = Multilinear.eqWeight hi num := by
  rw [identityEval_eq_eqPoly, List.map_map]
  induction hi generalizing num with
  | nil => rfl
  | cons z hi ih =>
    have hshift : ∀ i, num / 2 ^ (i + 1) % 2 = num / 2 / 2 ^ i % 2 := by
      intro i
      rw [pow_succ, mul_comm, Nat.div_div_eq_div_mul]
    have htail := ih (num / 2)
    simp only [Multilinear.eqPoly, Function.comp_def] at htail ⊢
    rw [List.length_cons, List.range_succ_eq_map, List.map_cons, List.map_map, List.zip_cons_cons,
      List.map_cons, List.prod_cons, Multilinear.eqWeight, ← htail]
    simp only [Function.comp_def, Nat.succ_eq_add_one, hshift, pow_zero, Nat.div_one]
    congr 1
    -- the lowest bit selects one of the two summands
    obtain hbit | hbit := Nat.mod_two_eq_zero_or_one num
    · rw [hbit, if_neg (by omega), Nat.cast_zero]
      ring
    · rw [hbit, if_pos rfl, Nat.cast_one]
      ring

/-- The evaluation the verifier computes is that of the padded `eq` polynomial. -/
theorem paddedEq_eq_eval (eqPoint r : List F) (h : eqPoint.length ≤ r.length) :
    (r.drop eqPoint.length).foldl (fun acc p => acc * (1 - p))
        (identityEval (r.take eqPoint.length) eqPoint) =
      Multilinear.eval (Multilinear.zeroPad eqPoint.length (Multilinear.eqWeight eqPoint)) r := by
  have hfold : ∀ (l : List F) (a : F),
      l.foldl (fun acc p => acc * (1 - p)) a = a * (l.map fun p => 1 - p).prod := by
    intro l
    induction l with
    | nil => simp
    | cons p l ih =>
      intro a
      rw [List.foldl_cons, ih, List.map_cons, List.prod_cons, mul_assoc]
  have hlen : (r.take eqPoint.length).length = eqPoint.length := by
    rw [List.length_take]
    omega
  have hpad := Multilinear.eval_zeroPad (Multilinear.eqWeight eqPoint) (r.take eqPoint.length)
    (r.drop eqPoint.length)
  rw [List.take_append_drop, hlen, Multilinear.eval_eqWeight _ _ hlen.symm] at hpad
  rw [hfold, hpad, identityEval_eq_eqPoly, Multilinear.eqPoly_comm]

namespace ChunkedCommitment

variable {P : Type} [ChunkedCommitment P]

/-- A point for the polynomial: the number of chunks is a power of two, and there
    are coordinates to select a chunk. -/
def Fits (c : P) (point : List F) : Prop :=
  ∃ b, numChunks c = 2 ^ b ∧ b ≤ point.length ∧ b ≤ 64

/-- The number of coordinates that select the chunk. -/
def batchingVars (c : P) : Nat := Nat.log 2 (numChunks c)

/-- The coordinates of a point at which the chunks are evaluated. -/
def chunkPoint (c : P) (point : List F) : List F := point.take (point.length - batchingVars c)

/-- The coordinates of a point that weigh the chunks. -/
def batchingCoords (c : P) (point : List F) : List F := point.drop (point.length - batchingVars c)

/-- `C_1 = eq(0, r_{m+1}..r_n), ..., C_M = eq(M-1, r_{m+1}..r_n)`. -/
def chunkCoeffs (c : P) (point : List F) : List F :=
  (List.range (numChunks c)).map (Multilinear.eqWeight (batchingCoords c point))

variable {point : List F} {c : P}

theorem batchingVars_of_numChunks {b : Nat} (h : numChunks c = 2 ^ b) :
    batchingVars c = b := by
  rw [batchingVars, h, Nat.log_pow (by omega)]

@[simp] theorem chunkCoeffs_length (c : P) (point : List F) :
    (chunkCoeffs c point).length = numChunks c := by
  simp [chunkCoeffs]

omit [CommRing F] in
theorem batchingCoords_length (h : Fits c point) :
    (batchingCoords c point).length = batchingVars c := by
  obtain ⟨b, hb, hlen, _⟩ := h
  rw [batchingCoords, List.length_drop, batchingVars_of_numChunks hb]
  omega

omit [CommRing F] in
theorem chunkPoint_append_batchingCoords (c : P) (point : List F) :
    chunkPoint c point ++ batchingCoords c point = point := List.take_append_drop _ _

variable {D : DpCrypto F}

theorem splitPoint_eq_ok (hD : D.Lawful) {parts : List F × List F} :
    splitPoint D c point = .ok parts ↔
      (∃ b, numChunks c = 2 ^ b ∧ b ≤ point.length) ∧
        parts = (chunkPoint c point, batchingCoords c point) := by
  simp only [splitPoint, Outcome.bind_eq_ok, hD.log2Strict, usizeSub_eq_ok, Except.ok.injEq,
    List.splitAt_eq]
  constructor
  · rintro ⟨b, hb, _, ⟨hle, rfl⟩, rfl⟩
    refine ⟨⟨b, hb, hle⟩, ?_⟩
    rw [chunkPoint, batchingCoords, batchingVars_of_numChunks hb]
  · rintro ⟨⟨b, hb, hle⟩, rfl⟩
    refine ⟨b, hb, _, ⟨hle, rfl⟩, ?_⟩
    rw [chunkPoint, batchingCoords, batchingVars_of_numChunks hb]

/-- `eq_point_per_chunk` gives the point of the chunks. -/
theorem eqPointPerChunk_eq_ok (hD : D.Lawful) {eqPoint : List F} :
    eqPointPerChunk D c point = .ok eqPoint ↔
      (∃ b, numChunks c = 2 ^ b ∧ b ≤ point.length) ∧ eqPoint = chunkPoint c point := by
  simp only [eqPointPerChunk, Outcome.bind_eq_ok, splitPoint_eq_ok hD, Except.ok.injEq]
  constructor
  · rintro ⟨_, ⟨hb, rfl⟩, rfl⟩
    exact ⟨hb, rfl⟩
  · rintro ⟨hb, rfl⟩
    exact ⟨_, ⟨hb, rfl⟩, rfl⟩

/-- `batching_coefficients_for_chunks` gives the weights of the chunks. -/
theorem batchingCoefficientsForChunks_eq_ok (hD : D.Lawful) {coeffs : List F} :
    batchingCoefficientsForChunks D c point = .ok coeffs ↔
      Fits c point ∧ coeffs = chunkCoeffs c point := by
  simp only [batchingCoefficientsForChunks, Outcome.bind_eq_ok, hD.log2Strict,
    splitPoint_eq_ok hD]
  have hbits : ∀ b, numChunks c = 2 ^ b → b ≤ point.length → b ≤ 64 →
      (List.range (numChunks c)).mapM (fun i => do
        let bits ← toBitSequenceLe i b
        .ok (identityEval (batchingCoords c point) (bits.map fun (b : Nat) => (b : F)))) =
      (.ok (chunkCoeffs c point) : Outcome (List F)) := by
    intro b hb hle h64
    have hfits : Fits c point := ⟨b, hb, hle, h64⟩
    have hlen := batchingCoords_length hfits
    rw [batchingVars_of_numChunks hb] at hlen
    simp only [toBitSequenceLe, if_pos h64, Outcome.ok_bind]
    apply Outcome.mapM_eq_ok_map
    intro i _
    rw [← hlen, identityEval_bits]
  constructor
  · rintro ⟨b, hb, _, ⟨⟨b', hb', hle⟩, rfl⟩, hmap⟩
    obtain rfl : b' = b := Nat.pow_right_injective (le_refl 2) (hb'.symm.trans hb)
    by_cases h64 : b' ≤ 64
    · rw [hbits b' hb hle h64, Except.ok.injEq] at hmap
      exact ⟨⟨b', hb, hle, h64⟩, hmap.symm⟩
    · -- there is a first chunk, and its number has no 65 bits
      obtain ⟨n, hn⟩ := Nat.exists_eq_succ_of_ne_zero (Nat.two_pow_pos b').ne'
      rw [hb, hn, List.range_succ_eq_map, List.mapM_cons, toBitSequenceLe, if_neg h64,
        Outcome.error_bind, Outcome.error_bind] at hmap
      nomatch hmap
  · rintro ⟨⟨b, hb, hle, h64⟩, rfl⟩
    exact ⟨b, hb, _, ⟨⟨b, hb, hle⟩, rfl⟩, hbits b hb hle h64⟩

/-- A polynomial cut into a power of two of chunks, of at least no variables. -/
def Splits (c : P) : Prop := ∃ b, numChunks c = 2 ^ b ∧ b ≤ numVars c

/-- The number of variables of a chunk. -/
def chunkNumVars (c : P) : Nat := numVars c - batchingVars c

theorem numVarsForChunk_eq_ok (hD : D.Lawful) {n : Nat} :
    numVarsForChunk D c = .ok n ↔ Splits c ∧ n = chunkNumVars c := by
  simp only [numVarsForChunk, Outcome.bind_eq_ok, hD.log2Strict, usizeSub_eq_ok]
  constructor
  · rintro ⟨b, hb, hle, rfl⟩
    refine ⟨⟨b, hb, hle⟩, ?_⟩
    rw [chunkNumVars, batchingVars_of_numChunks hb]
  · rintro ⟨⟨b, hb, hle⟩, rfl⟩
    refine ⟨b, hb, hle, ?_⟩
    rw [chunkNumVars, batchingVars_of_numChunks hb]

end ChunkedCommitment

end DeepProve
