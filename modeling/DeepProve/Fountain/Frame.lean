import DeepProve.ForStd.Bytes
import DeepProve.ForStd.DistinctValues
import DeepProve.Outcome

/-!
# Frames of the fountain code

`arkhe-soc-tlm/src/fountain_decoder.rs` (`FountainFrame`) and the selection loop that the encoder
has as well.

The hash and the generator are parameters. The generator, once seeded, draws a sequence of indices
below `k`. A hash set is walked over in an order that is a parameter too.
-/

namespace DeepProve

namespace Fountain

def headerSize : Nat := 20

def trailerSize : Nat := 32

def magic : Nat := 0x41525448

/-- The hash, and the indices that a seeded generator draws below a bound. -/
structure Env where
  hash : List UInt8 → List UInt8
  draw (seed k n : Nat) : Nat

/-- What is relied on: the hash has 32 bytes, the draws are below the bound, and every index is
    drawn at some time. -/
structure Env.Lawful (env : Env) : Prop where
  length_hash (data : List UInt8) : (env.hash data).length = trailerSize
  draw_lt {k : Nat} (hk : 0 < k) (seed n : Nat) : env.draw seed k n < k
  exists_draw {k i : Nat} (hi : i < k) (seed : Nat) : ∃ n, env.draw seed k n = i

/-- An order in which a hash set is walked over. -/
structure HashOrder where
  order : List Nat → List Nat
  perm (l : List Nat) : (order l).Perm l

/-- The order in which the indices were inserted. -/
def HashOrder.inserted : HashOrder := ⟨id, fun _ => .refl _⟩

variable (env : Env)

/-- `while selected.len() < degree`: the loop after `n` draws. -/
def selectLoop (seed k degree : Nat) : Nat → Nat → List Nat → Outcome (List Nat)
  | fuel, n, selected =>
    if selected.length < degree then
      if k = 0 then
        .error (.panic "cannot sample empty range")
      else
        match fuel with
        | 0 => .error .outOfFuel
        | fuel + 1 =>
          let idx := env.draw seed k n
          selectLoop seed k degree fuel (n + 1)
            (if idx ∈ selected then selected else selected ++ [idx])
    else
      .ok selected

/-- The indices that are selected, in the order in which they are drawn. -/
def selectIndices (fuel seed k degree : Nat) : Outcome (List Nat) :=
  selectLoop env seed k degree fuel 0 []

structure FountainFrame where
  sessionId : Nat
  seqNum : Nat
  k : Nat
  blockSize : Nat
  degree : Nat
  seed : Nat
  payload : List UInt8
  deriving DecidableEq

/-- The number that is read from the bytes `start..stop`. -/
def field (data : List UInt8) (start stop : Nat) : Nat :=
  fromLeBytes ((data.drop start).take (stop - start))

/-- The checks of `parse`: the length, the magic number and the hash. -/
def accepts (data : List UInt8) : Bool :=
  let payloadEnd := data.length - trailerSize
  decide (headerSize + 6 + trailerSize ≤ data.length) && field data 0 4 == magic &&
    env.hash (data.take payloadEnd) == data.drop payloadEnd

/-- The length of the payload, as the header has it. -/
def payloadLen (data : List UInt8) : Nat := field data 16 20

/-- The frame that the header and the payload describe. -/
def frameOf (data : List UInt8) : FountainFrame where
  sessionId := field data 4 8
  seqNum := field data 8 12
  k := field data 12 14
  blockSize := field data 14 16
  degree := field data 20 22
  seed := field data 22 26
  payload := (data.drop 26).take (payloadLen data)

/-- `parse`. -/
def FountainFrame.parse (data : List UInt8) : Outcome (Option FountainFrame) :=
  if accepts env data then
    -- the payload is cut out of the whole string, the hash included
    if 26 + payloadLen data ≤ data.length then
      .ok (some (frameOf data))
    else
      .error (.panic "range end index out of range for slice")
  else
    .ok none

/-- `source_indices`. -/
def FountainFrame.sourceIndices (fuel : Nat) (order : HashOrder) (self : FountainFrame) :
    Outcome (List Nat) := do
  let selected ← selectIndices env fuel self.seed self.k self.degree
  .ok (order.order selected)

/-! ## The selection -/

variable {env} {fuel seed k degree : Nat}

theorem selectLoop_of_le {n : Nat} {selected : List Nat} (h : degree ≤ selected.length) :
    selectLoop env seed k degree fuel n selected = .ok selected := by
  cases fuel with
  | zero => rw [selectLoop, if_neg (Nat.not_lt.mpr h)]
  | succ fuel => rw [selectLoop, if_neg (Nat.not_lt.mpr h)]

/-- The range to draw from is empty. -/
theorem selectLoop_zero {n : Nat} {selected : List Nat} (h : selected.length < degree) :
    selectLoop env seed 0 degree fuel n selected =
      .error (.panic "cannot sample empty range") := by
  cases fuel with
  | zero => rw [selectLoop, if_pos h, if_pos rfl]
  | succ fuel => rw [selectLoop, if_pos h, if_pos rfl]

variable {l : List Nat}

/-- The loop stops at the first draw after which there are enough indices. -/
theorem selectLoop_eq_ok_iff (hk : 0 < k) {n : Nat} :
    selectLoop env seed k degree fuel n (distinctValues (env.draw seed k) n) = .ok l ↔
      ∃ m, n ≤ m ∧ m ≤ n + fuel ∧ l = distinctValues (env.draw seed k) m ∧ degree ≤ l.length ∧
        ∀ j, n ≤ j → j < m → (distinctValues (env.draw seed k) j).length < degree := by
  induction fuel generalizing n with
  | zero =>
    rw [selectLoop]
    by_cases hlt : (distinctValues (env.draw seed k) n).length < degree
    · rw [if_pos hlt, if_neg hk.ne']
      refine ⟨(fun h => nomatch h), ?_⟩
      rintro ⟨m, hnm, hmn, rfl, hdegree, _⟩
      obtain rfl : m = n := by omega
      omega
    · rw [if_neg hlt, Except.ok.injEq]
      constructor
      · rintro rfl
        exact ⟨n, le_rfl, le_rfl, rfl, not_lt.mp hlt, fun j hj hj' => by omega⟩
      · rintro ⟨m, hnm, hmn, rfl, _, _⟩
        obtain rfl : m = n := by omega
        rfl
  | succ fuel ih =>
    rw [selectLoop]
    by_cases hlt : (distinctValues (env.draw seed k) n).length < degree
    · rw [if_pos hlt, if_neg hk.ne']
      show selectLoop env seed k degree fuel (n + 1) (distinctValues (env.draw seed k) (n + 1)) = _ ↔ _
      rw [ih]
      constructor
      · rintro ⟨m, hnm, hmn, hl, hdegree, hbefore⟩
        refine ⟨m, by omega, by omega, hl, hdegree, fun j hj hjm => ?_⟩
        rcases Nat.eq_or_lt_of_le hj with rfl | hj
        · exact hlt
        · exact hbefore j hj hjm
      · rintro ⟨m, hnm, hmn, rfl, hdegree, hbefore⟩
        have hne : n ≠ m := by
          rintro rfl
          omega
        exact ⟨m, by omega, by omega, rfl, hdegree, fun j hj hjm => hbefore j (by omega) hjm⟩
    · rw [if_neg hlt, Except.ok.injEq]
      constructor
      · rintro rfl
        exact ⟨n, le_rfl, by omega, rfl, not_lt.mp hlt, fun j hj hj' => by omega⟩
      · rintro ⟨m, hnm, _, rfl, _, hbefore⟩
        rcases Nat.eq_or_lt_of_le hnm with rfl | hnm
        · rfl
        · exact absurd (hbefore n le_rfl hnm) hlt

/-- The loop with indices left to select draws from a range that is not empty. -/
theorem selectIndices_eq_ok_iff : selectIndices env fuel seed k degree = .ok l ↔
    (degree = 0 ∧ l = []) ∨ 0 < degree ∧ 0 < k ∧ ∃ m, m ≤ fuel ∧
      l = distinctValues (env.draw seed k) m ∧ degree ≤ l.length ∧
        ∀ j < m, (distinctValues (env.draw seed k) j).length < degree := by
  unfold selectIndices
  rcases Nat.eq_zero_or_pos degree with rfl | hdegree
  · rw [selectLoop_of_le (Nat.zero_le _)]
    simp [eq_comm]
  · rcases Nat.eq_zero_or_pos k with rfl | hk
    · rw [selectLoop_zero hdegree]
      simp [hdegree.ne']
    · have hloop : selectLoop env seed k degree fuel 0 [] = .ok l ↔ _ :=
        selectLoop_eq_ok_iff hk
      rw [hloop]
      simp [hdegree, hdegree.ne', hk]

/-- What is known of selected indices. -/
structure Selects (env : Env) (seed k degree : Nat) (l : List Nat) : Prop where
  length_eq : l.length = degree
  nodup : l.Nodup
  head? : 0 < degree → l.head? = some (env.draw seed k 0)
  pos : 0 < degree → 0 < k

theorem selects_of_eq_ok (h : selectIndices env fuel seed k degree = .ok l) :
    Selects env seed k degree l := by
  rcases selectIndices_eq_ok_iff.mp h with ⟨rfl, rfl⟩ | ⟨hdegree, hk, m, _, rfl, hle, hbefore⟩
  · exact ⟨rfl, List.nodup_nil, fun h => absurd h (Nat.lt_irrefl 0),
      fun h => absurd h (Nat.lt_irrefl 0)⟩
  · cases m with
    | zero => exact absurd hdegree (Nat.not_lt.mpr hle)
    | succ m =>
      have hlast := hbefore m (Nat.lt_succ_self m)
      have hstep : (distinctValues (env.draw seed k) (m + 1)).length ≤ _ :=
        length_distinctValues_succ_le m
      exact ⟨by omega, nodup_distinctValues _, fun _ => head?_distinctValues_succ m, fun _ => hk⟩

theorem lt_of_mem_selectIndices (hlawful : env.Lawful)
    (h : selectIndices env fuel seed k degree = .ok l) {i : Nat} (hi : i ∈ l) : i < k := by
  rcases selectIndices_eq_ok_iff.mp h with ⟨_, rfl⟩ | ⟨_, hk, m, _, rfl, _⟩
  · cases hi
  · obtain ⟨n, _, rfl⟩ := mem_distinctValues.mp hi
    exact hlawful.draw_lt hk seed n

/-- The fuel does not matter once the loop ends. -/
theorem selectIndices_unique {fuel' : Nat} {l' : List Nat}
    (h : selectIndices env fuel seed k degree = .ok l)
    (h' : selectIndices env fuel' seed k degree = .ok l') : l = l' := by
  rcases selectIndices_eq_ok_iff.mp h with ⟨hzero, rfl⟩ | ⟨hpos, _, m, _, rfl, hle, hbefore⟩
  · rcases selectIndices_eq_ok_iff.mp h' with ⟨_, rfl⟩ | ⟨hpos, _⟩
    · rfl
    · omega
  · rcases selectIndices_eq_ok_iff.mp h' with ⟨hzero, _⟩ | ⟨_, _, m', _, rfl, hle', hbefore'⟩
    · omega
    · rcases Nat.lt_trichotomy m m' with hlt | rfl | hlt
      · exact absurd (hbefore' m hlt) (Nat.not_lt.mpr hle)
      · rfl
      · exact absurd (hbefore m' hlt) (Nat.not_lt.mpr hle')

theorem selectIndices_mono {fuel' : Nat} (hle : fuel ≤ fuel')
    (h : selectIndices env fuel seed k degree = .ok l) :
    selectIndices env fuel' seed k degree = .ok l := by
  rw [selectIndices_eq_ok_iff] at h ⊢
  rcases h with h | ⟨hpos, hk, m, hm, hrest⟩
  · exact .inl h
  · exact .inr ⟨hpos, hk, m, hm.trans hle, hrest⟩

/-- The loop ends if there are as many indices as it selects; otherwise it draws from an empty range
    or never ends. -/
theorem exists_selectIndices_iff (hlawful : env.Lawful) :
    (∃ fuel l, selectIndices env fuel seed k degree = .ok l) ↔ degree ≤ k := by
  constructor
  · rintro ⟨fuel, l, h⟩
    rcases selectIndices_eq_ok_iff.mp h with ⟨rfl, _⟩ | ⟨_, hk, m, _, rfl, hle, _⟩
    · exact Nat.zero_le k
    · exact hle.trans (length_distinctValues_le (hlawful.draw_lt hk seed) m)
  · intro hle
    rcases Nat.eq_zero_or_pos degree with rfl | hdegree
    · exact ⟨0, [], selectIndices_eq_ok_iff.mpr (.inl ⟨rfl, rfl⟩)⟩
    · have hall : ∃ m, k ≤ (distinctValues (env.draw seed k) m).length :=
        exists_le_length_distinctValues fun i hi => hlawful.exists_draw hi seed
      have hex : ∃ m, degree ≤ (distinctValues (env.draw seed k) m).length := by
        obtain ⟨m, hm⟩ := hall
        exact ⟨m, hle.trans hm⟩
      -- the first draw after which there are enough
      refine ⟨Nat.find hex, _, selectIndices_eq_ok_iff.mpr (.inr ⟨hdegree, by omega, Nat.find hex,
        le_rfl, rfl, Nat.find_spec hex, fun j hj => not_le.mp (Nat.find_min hex hj)⟩)⟩

/-- The loop does not return an error. -/
theorem selectIndices_ne_err (fuel : Nat) (msg : String) :
    selectIndices env fuel seed k degree ≠ .error (.err msg) := by
  have hloop : ∀ fuel n l, selectLoop env seed k degree fuel n l ≠ .error (.err msg) := by
    intro fuel
    induction fuel with
    | zero =>
      intro n l h
      rw [selectLoop] at h
      split at h
      · split at h <;> cases h
      · cases h
    | succ fuel ih =>
      intro n l h
      rw [selectLoop] at h
      split at h
      · split at h
        · cases h
        · exact ih _ _ h
      · cases h
  exact hloop fuel 0 []

end Fountain

end DeepProve
