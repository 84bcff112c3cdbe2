import Mathlib

/-!
# Numbers as bytes

The bytes of a number from the lowest up, and byte strings that are added bit by bit.
-/

namespace DeepProve

/-- `to_le_bytes` of a number with `width` bytes. -/
def toLeBytes : Nat → Nat → List UInt8
  | 0, _ => []
  | width + 1, n => UInt8.ofNat n :: toLeBytes width (n / 256)

/-- `from_le_bytes`. -/
def fromLeBytes : List UInt8 → Nat
  | [] => 0
  | b :: bytes => b.toNat + 256 * fromLeBytes bytes

@[simp] theorem length_toLeBytes (width n : Nat) : (toLeBytes width n).length = width := by
  induction width generalizing n with
  | zero => rfl
  | succ width ih => rw [toLeBytes, List.length_cons, ih]

theorem fromLeBytes_toLeBytes {width n : Nat} (h : n < 256 ^ width) :
    fromLeBytes (toLeBytes width n) = n := by
  induction width generalizing n with
  | zero =>
    rw [pow_zero] at h
    simp [toLeBytes, fromLeBytes]
    omega
  | succ width ih =>
    have hlt : n / 256 < 256 ^ width := by
      rw [Nat.div_lt_iff_lt_mul (by decide), ← Nat.pow_succ]
      exact h
    rw [toLeBytes, fromLeBytes, ih hlt, UInt8.toNat_ofNat']
    show n % 256 + 256 * (n / 256) = n
    omega

/-! ## Exclusive or -/

/-- Exclusive or of a byte string with the start of another: the bytes that are left stay. -/
def xorPrefix : List UInt8 → List UInt8 → List UInt8
  | a :: as, b :: bs => (a ^^^ b) :: xorPrefix as bs
  | as, [] => as
  | [], _ => []

@[simp] theorem xorPrefix_nil (as : List UInt8) : xorPrefix as [] = as := by cases as <;> rfl

@[simp] theorem nil_xorPrefix (bs : List UInt8) : xorPrefix [] bs = [] := by cases bs <;> rfl

theorem xorPrefix_cons (a b : UInt8) (as bs : List UInt8) :
    xorPrefix (a :: as) (b :: bs) = (a ^^^ b) :: xorPrefix as bs := rfl

@[simp] theorem length_xorPrefix (as bs : List UInt8) : (xorPrefix as bs).length = as.length := by
  induction as generalizing bs with
  | nil => rw [nil_xorPrefix]
  | cons a as ih =>
    cases bs with
    | nil => rfl
    | cons b bs => rw [xorPrefix_cons, List.length_cons, ih, List.length_cons]

theorem xorPrefix_assoc {bs cs : List UInt8} (h : cs.length = bs.length) (as : List UInt8) :
    xorPrefix (xorPrefix as bs) cs = xorPrefix as (xorPrefix bs cs) := by
  induction as generalizing bs cs with
  | nil => simp
  | cons a as ih =>
    cases bs with
    | nil => rw [List.length_eq_zero_iff.mp h]; simp
    | cons b bs =>
      cases cs with
      | nil => cases h
      | cons c cs =>
        rw [xorPrefix_cons, xorPrefix_cons, xorPrefix_cons, xorPrefix_cons, ih (Nat.succ.inj h),
          UInt8.xor_assoc]

theorem xorPrefix_comm {as bs : List UInt8} (h : as.length = bs.length) :
    xorPrefix as bs = xorPrefix bs as := by
  induction as generalizing bs with
  | nil => rw [List.length_eq_zero_iff.mp h.symm]
  | cons a as ih =>
    cases bs with
    | nil => cases h
    | cons b bs => rw [xorPrefix_cons, xorPrefix_cons, ih (Nat.succ.inj h), UInt8.xor_comm]

theorem xorPrefix_self (as : List UInt8) : xorPrefix as as = List.replicate as.length 0 := by
  induction as with
  | nil => rfl
  | cons a as ih => rw [xorPrefix_cons, ih, UInt8.xor_self, List.length_cons, List.replicate_succ]

theorem replicate_xorPrefix (as : List UInt8) : xorPrefix (List.replicate as.length 0) as = as := by
  induction as with
  | nil => rfl
  | cons a as ih => rw [List.length_cons, List.replicate_succ, xorPrefix_cons, ih,
    UInt8.zero_xor]

/-- Adding the same string twice changes nothing. -/
theorem xorPrefix_xorPrefix_self {as bs : List UInt8} (h : as.length = bs.length) :
    xorPrefix (xorPrefix as bs) bs = as := by
  rw [xorPrefix_assoc rfl, xorPrefix_self, ← h, xorPrefix_comm (by rw [List.length_replicate]),
    replicate_xorPrefix]

/-- The sum of blocks of the same size. -/
def xorAll (size : Nat) (blocks : List (List UInt8)) : List UInt8 :=
  blocks.foldl xorPrefix (List.replicate size 0)

theorem length_xorAll (size : Nat) (blocks : List (List UInt8)) :
    (xorAll size blocks).length = size := by
  unfold xorAll
  induction blocks using List.reverseRecOn with
  | nil => exact List.length_replicate
  | append_singleton blocks block ih =>
    rw [List.foldl_append]
    exact (length_xorPrefix _ _).trans ih

variable {blocks : List (List UInt8)} {size : Nat}

theorem foldl_xorPrefix {start : List UInt8} (hstart : start.length = size)
    (h : ∀ block ∈ blocks, block.length = size) :
    blocks.foldl xorPrefix start = xorPrefix start (xorAll size blocks) := by
  induction blocks using List.reverseRecOn with
  | nil =>
    have hcomm : xorPrefix start (List.replicate size 0) = start := by
      rw [xorPrefix_comm (by rw [hstart, List.length_replicate]), ← hstart, replicate_xorPrefix]
    exact hcomm.symm
  | append_singleton blocks block ih =>
    have hall : ∀ b ∈ blocks, b.length = size := fun b hb => h b (List.mem_append_left _ hb)
    have hlast := h block (List.mem_append_right _ (List.mem_singleton_self _))
    have hlength := length_xorAll size blocks
    have happend : xorAll size (blocks ++ [block]) = xorPrefix (xorAll size blocks) block :=
      List.foldl_append
    rw [List.foldl_append, ih hall, happend]
    exact xorPrefix_assoc (hlast.trans hlength.symm) start

theorem xorAll_cons {block : List UInt8} (hblock : block.length = size)
    (h : ∀ b ∈ blocks, b.length = size) :
    xorAll size (block :: blocks) = xorPrefix block (xorAll size blocks) := by
  have hstart : xorPrefix (List.replicate size 0) block = block := by
    rw [← hblock, replicate_xorPrefix]
  rw [xorAll, List.foldl_cons, hstart, foldl_xorPrefix hblock h]

theorem xorAll_append (blocks : List (List UInt8)) {blocks' : List (List UInt8)}
    (h : ∀ b ∈ blocks', b.length = size) :
    xorAll size (blocks ++ blocks') = xorPrefix (xorAll size blocks) (xorAll size blocks') := by
  rw [xorAll, List.foldl_append]
  exact foldl_xorPrefix (length_xorAll size blocks) h

/-- The order of the blocks does not matter. -/
theorem xorAll_perm {blocks' : List (List UInt8)} (hperm : blocks.Perm blocks')
    (h : ∀ b ∈ blocks, b.length = size) : xorAll size blocks = xorAll size blocks' := by
  induction hperm with
  | nil => rfl
  | cons b hperm ih =>
    obtain ⟨hb, hrest⟩ := List.forall_mem_cons.mp h
    rw [xorAll_cons hb hrest, ih hrest,
      xorAll_cons hb fun c hc => hrest c (hperm.mem_iff.mpr hc)]
  | swap b c blocks =>
    obtain ⟨hc, hrest⟩ := List.forall_mem_cons.mp h
    obtain ⟨hb, hrest⟩ := List.forall_mem_cons.mp hrest
    have hlength := length_xorAll size blocks
    rw [xorAll_cons hc (List.forall_mem_cons.mpr ⟨hb, hrest⟩), xorAll_cons hb hrest,
      xorAll_cons hb (List.forall_mem_cons.mpr ⟨hc, hrest⟩), xorAll_cons hc hrest,
      ← xorPrefix_assoc (hlength.trans hb.symm), ← xorPrefix_assoc (hlength.trans hc.symm),
      xorPrefix_comm (hc.trans hb.symm)]
  | trans hperm _ ih ih' =>
    rw [ih h, ih' fun b hb => h b (hperm.mem_iff.mpr hb)]

end DeepProve
