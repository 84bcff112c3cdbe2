import Mathlib

/-!
# The bits of sums of products

A domain is an interval of integers; its bits are those of its largest magnitude. A product of
values of two domains has the bits of both together, and a sum of `2 ^ c` products has `c` bits
more. A signed number of `n` bits has one value less on the positive side: the sum is one of
`n + 1` bits for `n` bits of magnitude unless it is exactly `2 ^ n`.
-/

namespace BitWidth

/-- The values of a domain. -/
def Within (domain : Int × Int) (x : Int) : Prop := domain.1 ≤ x ∧ x ≤ domain.2

instance (domain : Int × Int) (x : Int) : Decidable (Within domain x) :=
  inferInstanceAs (Decidable (_ ∧ _))

/-- The signed numbers of `n` bits. -/
def InSigned (n : Nat) (x : Int) : Prop := -2 ^ (n - 1) ≤ x ∧ x < 2 ^ (n - 1)

instance (n : Nat) (x : Int) : Decidable (InSigned n x) := inferInstanceAs (Decidable (_ ∧ _))

/-- The bits of the largest magnitude. -/
def bits (domain : Int × Int) : Nat := Nat.clog 2 (max domain.2.natAbs domain.1.natAbs)

/-- Both domains reach their largest magnitude with one sign, and the magnitudes are powers of
    two. -/
def ReachesBits (d e : Int × Int) : Prop :=
  d.1 = -2 ^ bits d ∧ e.1 = -2 ^ bits e ∨ d.2 = 2 ^ bits d ∧ e.2 = 2 ^ bits e

instance (d e : Int × Int) : Decidable (ReachesBits d e) := inferInstanceAs (Decidable (_ ∨ _))

/-- The number of products is a power of two. -/
def FillsBits (count : Nat) : Prop := count = 2 ^ Nat.clog 2 count

instance (count : Nat) : Decidable (FillsBits count) := inferInstanceAs (Decidable (_ = _))

variable {d e : Int × Int}

theorem neg_two_pow_le_fst (d : Int × Int) : -2 ^ bits d ≤ d.1 := by
  have h : d.1.natAbs ≤ 2 ^ bits d :=
    Nat.le_trans (Nat.le_max_right _ _) (Nat.le_pow_clog (by decide) _)
  have hcast : ((2 ^ bits d : Nat) : Int) = 2 ^ bits d := by push_cast; rfl
  omega

theorem snd_le_two_pow (d : Int × Int) : d.2 ≤ 2 ^ bits d := by
  have h : d.2.natAbs ≤ 2 ^ bits d :=
    Nat.le_trans (Nat.le_max_left _ _) (Nat.le_pow_clog (by decide) _)
  have hcast : ((2 ^ bits d : Nat) : Int) = 2 ^ bits d := by push_cast; rfl
  omega

variable {zs : List Int} {x : Int}

theorem Within.abs_le_two_pow (hx : Within d x) : |x| ≤ 2 ^ bits d := by
  have hlo := neg_two_pow_le_fst d
  have hhi := snd_le_two_pow d
  exact abs_le.mpr ⟨hlo.trans hx.1, hx.2.trans hhi⟩

/-- The magnitude of a product. -/
theorem Within.abs_mul_le_two_pow {w : Int} (hx : Within d x) (hw : Within e w) :
    |x * w| ≤ 2 ^ (bits d + bits e) := by
  rw [abs_mul, pow_add]
  exact mul_le_mul hx.abs_le_two_pow hw.abs_le_two_pow (abs_nonneg w) (by positivity)

/-- A product is at most the power of two, and equal to it only for the largest magnitudes. -/
theorem Within.reachesBits {w : Int} (hx : Within d x) (hw : Within e w)
    (h : 2 ^ (bits d + bits e) ≤ x * w) : ReachesBits d e := by
  have hd := hx.abs_le_two_pow
  have he := hw.abs_le_two_pow
  have hpd : (0 : Int) < 2 ^ bits d := by positivity
  have hpe : (0 : Int) < 2 ^ bits e := by positivity
  have hprod : (2 : Int) ^ bits d * 2 ^ bits e ≤ |x| * |w| := by
    rw [← pow_add, ← abs_mul]
    exact h.trans (le_abs_self _)
  have hxw : 0 < x * w := lt_of_lt_of_le (by positivity) h
  -- neither factor can be smaller
  have hxd : |x| = 2 ^ bits d := le_antisymm hd (by nlinarith [abs_nonneg w])
  have hwe : |w| = 2 ^ bits e := le_antisymm he (by nlinarith [abs_nonneg x])
  rcases pos_and_pos_or_neg_and_neg_of_mul_pos hxw with ⟨hx0, hw0⟩ | ⟨hx0, hw0⟩
  · rw [abs_of_pos hx0] at hxd
    rw [abs_of_pos hw0] at hwe
    exact .inr ⟨le_antisymm (snd_le_two_pow d) (hxd ▸ hx.2),
      le_antisymm (snd_le_two_pow e) (hwe ▸ hw.2)⟩
  · rw [abs_of_neg hx0] at hxd
    rw [abs_of_neg hw0] at hwe
    refine .inl ⟨le_antisymm ?_ (neg_two_pow_le_fst d), le_antisymm ?_ (neg_two_pow_le_fst e)⟩
    · have := hx.1
      omega
    · have := hw.1
      omega

/-- A sum of terms of bounded magnitude. -/
theorem abs_sum_le {m : Int} (h : ∀ z ∈ zs, |z| ≤ m) :
    |zs.sum| ≤ zs.length * m := by
  induction zs with
  | nil => simp
  | cons z zs ih =>
    have hz := h z List.mem_cons_self
    have hzs := ih fun z' hz' => h z' (List.mem_cons_of_mem _ hz')
    have hadd := abs_add_le z zs.sum
    rw [List.sum_cons, List.length_cons]
    push_cast
    linarith

/-- The magnitude of a sum of products. -/
theorem abs_sum_le_two_pow (h : ∀ z ∈ zs, ∃ x w, Within d x ∧ Within e w ∧ z = x * w) :
    |zs.sum| ≤ 2 ^ (bits d + bits e + Nat.clog 2 zs.length) := by
  have hterm : ∀ z ∈ zs, |z| ≤ 2 ^ (bits d + bits e) := by
    intro z hz
    obtain ⟨x, w, hx, hw, rfl⟩ := h z hz
    exact hx.abs_mul_le_two_pow hw
  have hlength : (zs.length : Int) ≤ 2 ^ Nat.clog 2 zs.length := by
    exact_mod_cast Nat.le_pow_clog (by decide) zs.length
  calc |zs.sum| ≤ zs.length * 2 ^ (bits d + bits e) := abs_sum_le hterm
    _ ≤ 2 ^ Nat.clog 2 zs.length * 2 ^ (bits d + bits e) :=
        mul_le_mul_of_nonneg_right hlength (by positivity)
    _ = 2 ^ (bits d + bits e + Nat.clog 2 zs.length) := by rw [pow_add _ (_ + _), mul_comm]

/-- A sum of products that reaches the power of two has the largest products, and fills the bits
    of their number. -/
theorem reachesBits_of_le_sum (h : ∀ z ∈ zs, ∃ x w, Within d x ∧ Within e w ∧ z = x * w)
    (hle : 2 ^ (bits d + bits e + Nat.clog 2 zs.length) ≤ zs.sum) :
    FillsBits zs.length ∧ ReachesBits d e := by
  have hpos : (0 : Int) < 2 ^ (bits d + bits e) := by positivity
  have hlength : (zs.length : Int) ≤ 2 ^ Nat.clog 2 zs.length := by
    exact_mod_cast Nat.le_pow_clog (by decide) zs.length
  have hsplit : (2 : Int) ^ (bits d + bits e + Nat.clog 2 zs.length) =
      2 ^ Nat.clog 2 zs.length * 2 ^ (bits d + bits e) := by rw [pow_add _ (_ + _), mul_comm]
  have hterm : ∀ z ∈ zs, |z| ≤ 2 ^ (bits d + bits e) := by
    intro z hz
    obtain ⟨x, w, hx, hw, rfl⟩ := h z hz
    exact hx.abs_mul_le_two_pow hw
  have hsum := (le_abs_self _).trans (abs_sum_le hterm)
  have hfills : (2 : Int) ^ Nat.clog 2 zs.length ≤ zs.length :=
    le_of_mul_le_mul_right ((hsplit ▸ hle).trans hsum) hpos
  refine ⟨by exact_mod_cast le_antisymm hlength hfills, ?_⟩
  by_contra hnot
  -- then every product is smaller
  have hsmall : ∀ z ∈ zs, z ≤ 2 ^ (bits d + bits e) - 1 := by
    intro z hz
    obtain ⟨x, w, hx, hw, rfl⟩ := h z hz
    by_contra hlarge
    exact hnot (hx.reachesBits hw (by omega))
  have hbound := List.sum_le_card_nsmul zs _ hsmall
  rw [nsmul_eq_mul] at hbound
  have hone : (1 : Int) ≤ zs.length := by
    have : (0 : Int) < 2 ^ Nat.clog 2 zs.length := by positivity
    omega
  rw [hsplit] at hle
  nlinarith

/-- A sum of products is a signed number unless the largest products fill the bits. -/
theorem inSigned_sum (h : ∀ z ∈ zs, ∃ x w, Within d x ∧ Within e w ∧ z = x * w)
    (hnot : ¬ (FillsBits zs.length ∧ ReachesBits d e)) :
    InSigned (bits d + bits e + Nat.clog 2 zs.length + 1) zs.sum := by
  have habs := abs_le.mp (abs_sum_le_two_pow h)
  refine ⟨habs.1, ?_⟩
  by_contra hle
  exact hnot (reachesBits_of_le_sum h (not_lt.mp hle))

/-- The largest products are above the signed numbers. -/
theorem exists_not_inSigned {count : Nat} (hd : d.1 ≤ d.2) (he : e.1 ≤ e.2)
    (hcount : FillsBits count) (hreaches : ReachesBits d e) :
    ∃ x w, Within d x ∧ Within e w ∧
      ¬ InSigned (bits d + bits e + Nat.clog 2 count + 1) (count * (x * w)) := by
  have hsplit : (2 : Int) ^ (bits d + bits e + Nat.clog 2 count) =
      count * (2 ^ bits d * 2 ^ bits e) := by
    have hcast : (count : Int) = 2 ^ Nat.clog 2 count := by exact_mod_cast hcount
    rw [hcast, pow_add _ (_ + _), pow_add, mul_comm]
  rcases hreaches with ⟨hd1, he1⟩ | ⟨hd2, he2⟩
  · refine ⟨d.1, e.1, ⟨le_rfl, hd⟩, ⟨le_rfl, he⟩, fun hin => ?_⟩
    have hlt : count * (d.1 * e.1) < (2 : Int) ^ (bits d + bits e + Nat.clog 2 count) := hin.2
    rw [hsplit, hd1, he1, neg_mul_neg] at hlt
    exact lt_irrefl _ hlt
  · refine ⟨d.2, e.2, ⟨hd, le_rfl⟩, ⟨he, le_rfl⟩, fun hin => ?_⟩
    have hlt : count * (d.2 * e.2) < (2 : Int) ^ (bits d + bits e + Nat.clog 2 count) := hin.2
    rw [hsplit, hd2, he2] at hlt
    exact lt_irrefl _ hlt

/-- Any number but zero leaves the signed numbers with one of them. -/
theorem exists_not_inSigned_add {n : Nat} {s : Int} (hs : s ≠ 0) :
    ∃ b, InSigned n b ∧ ¬ InSigned n (s + b) := by
  have hpos : (0 : Int) < 2 ^ (n - 1) := by positivity
  unfold InSigned
  rcases lt_or_gt_of_ne hs with hneg | hpos'
  · exact ⟨-2 ^ (n - 1), ⟨by omega, by omega⟩, by omega⟩
  · exact ⟨2 ^ (n - 1) - 1, ⟨by omega, by omega⟩, by omega⟩

/-- A signed number of more bits. -/
theorem InSigned.mono {m n : Nat} (h : InSigned m x) (hle : m ≤ n) : InSigned n x := by
  have hpow : (2 : Int) ^ (m - 1) ≤ 2 ^ (n - 1) := pow_le_pow_right₀ (by decide) (by omega)
  exact ⟨(neg_le_neg hpow).trans h.1, lt_of_lt_of_le h.2 hpow⟩

/-- The product with a number of `k` bits. -/
theorem InSigned.mul {n k : Nat} {m : Int} (h : InSigned n x) (hn : 0 < n) (hm : 0 ≤ m)
    (hk : m ≤ 2 ^ k) : InSigned (n + k) (x * m) := by
  have hsplit : (2 : Int) ^ (n + k - 1) = 2 ^ (n - 1) * 2 ^ k := by
    rw [← pow_add]
    congr 1
    omega
  have hpos : (0 : Int) < 2 ^ (n - 1) := by positivity
  have hpk : (0 : Int) < 2 ^ k := by positivity
  obtain ⟨hlo, hhi⟩ := h
  unfold InSigned
  rw [hsplit]
  refine ⟨by nlinarith, ?_⟩
  rcases hm.eq_or_lt with rfl | hm
  · nlinarith
  · calc x * m ≤ (2 ^ (n - 1) - 1) * m := mul_le_mul_of_nonneg_right (by omega) hm.le
      _ < 2 ^ (n - 1) * m := by nlinarith
      _ ≤ 2 ^ (n - 1) * 2 ^ k := mul_le_mul_of_nonneg_left hk hpos.le

end BitWidth
