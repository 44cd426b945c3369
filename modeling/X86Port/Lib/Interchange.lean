import Mathlib.Data.Rat.Floor
import X86Port.Lib.Rounding

/-!
# Binary interchange formats

A pattern is a number: a sign bit above an exponent field above a fraction field. Its value has
an implied leading one, unless the exponent is zero, which has the scale of exponent one.

* `encode_fields`: a pattern is its three fields put together.
* `Normal.log_value`, `roundSig_value`: the leading bit of a normal, and that a pattern's value
  has no more bits than the fraction and the leading one.
* `Normal.eq_of_value`: normals with one sign and one value are one pattern.
-/

namespace X86Port.Lib.Rounding

structure Format where
  /-- The number of fraction bits. -/
  field : ℕ
  expBits : ℕ
  field_pos : 0 < field
  expBits_pos : 1 < expBits

namespace Format

variable (F : Format) (n : ℕ)

def width : ℕ := F.field + F.expBits + 1

def bias : ℤ := 2 ^ (F.expBits - 1) - 1

/-- The all-ones exponent. -/
def expMax : ℕ := 2 ^ F.expBits - 1

def negative : Bool := n.testBit (F.field + F.expBits)

def exponent : ℕ := n / 2 ^ F.field % 2 ^ F.expBits

def fraction : ℕ := n % 2 ^ F.field

def encode (negative : Bool) (exponent fraction : ℕ) : ℕ :=
  negative.toNat * 2 ^ (F.field + F.expBits) + exponent * 2 ^ F.field + fraction

/-- The fraction with the leading one that the exponent implies. -/
def significand : ℕ := if F.exponent n = 0 then F.fraction n else 2 ^ F.field + F.fraction n

/-- What the pattern of a finite number stands for. -/
def value : ℚ :=
  signed (F.negative n)
    ((F.significand n : ℚ) * 2 ^ (max (F.exponent n : ℤ) 1 - F.bias - F.field))

def Normal : Prop := F.exponent n ≠ 0 ∧ F.exponent n ≠ F.expMax

def Zero : Prop := F.exponent n = 0 ∧ F.fraction n = 0

/-- The value's leading bit is that of some normal. -/
def InRange (q : ℚ) : Prop := 1 ≤ Int.log 2 |q| + F.bias ∧ Int.log 2 |q| + F.bias < F.expMax

instance : DecidablePred F.InRange := fun q => by
  unfold InRange
  infer_instance

variable {F n}

/-! ## The fields -/

theorem fraction_lt : F.fraction n < 2 ^ F.field := Nat.mod_lt _ (Nat.two_pow_pos _)

theorem exponent_lt : F.exponent n < 2 ^ F.expBits := Nat.mod_lt _ (Nat.two_pow_pos _)

theorem exponent_le : F.exponent n ≤ F.expMax := Nat.le_sub_one_of_lt exponent_lt

theorem low_eq : F.exponent n * 2 ^ F.field + F.fraction n = n % 2 ^ (F.field + F.expBits) := by
  rw [fraction, exponent, pow_add, Nat.mod_mul]
  ring

theorem top_eq (h : n < 2 ^ F.width) : n / 2 ^ (F.field + F.expBits) = (F.negative n).toNat := by
  have hlt : n / 2 ^ (F.field + F.expBits) < 2 := by
    rw [Nat.div_lt_iff_lt_mul (Nat.two_pow_pos _), mul_comm, ← pow_succ]
    exact h
  rw [negative, Nat.toNat_testBit, Nat.mod_eq_of_lt hlt]

theorem encode_fields (h : n < 2 ^ F.width) :
    F.encode (F.negative n) (F.exponent n) (F.fraction n) = n := by
  rw [encode, add_assoc, low_eq, ← top_eq h, Nat.div_add_mod']

section Encode

variable {b : Bool} {e f : ℕ}

theorem low_lt (he : e < 2 ^ F.expBits) (hf : f < 2 ^ F.field) :
    e * 2 ^ F.field + f < 2 ^ (F.field + F.expBits) := by
  calc e * 2 ^ F.field + f < e * 2 ^ F.field + 2 ^ F.field := by omega
    _ = (e + 1) * 2 ^ F.field := by ring
    _ ≤ 2 ^ F.expBits * 2 ^ F.field := Nat.mul_le_mul_right _ he
    _ = 2 ^ (F.field + F.expBits) := by rw [← pow_add, add_comm]

theorem encode_lt (he : e < 2 ^ F.expBits) (hf : f < 2 ^ F.field) :
    F.encode b e f < 2 ^ F.width := by
  have hlow := low_lt he hf
  have hb : b.toNat ≤ 1 := b.toNat_le
  rw [encode, width, pow_succ, add_assoc]
  calc _ < b.toNat * 2 ^ (F.field + F.expBits) + 2 ^ (F.field + F.expBits) := by omega
    _ ≤ 1 * 2 ^ (F.field + F.expBits) + 2 ^ (F.field + F.expBits) := by
      have := Nat.mul_le_mul_right (2 ^ (F.field + F.expBits)) hb
      omega
    _ = _ := by ring

theorem negative_encode (he : e < 2 ^ F.expBits) (hf : f < 2 ^ F.field) :
    F.negative (F.encode b e f) = b := by
  rw [negative, encode, add_assoc, mul_comm, Nat.testBit_two_pow_mul_add _ (low_lt he hf)]
  cases b <;> simp

theorem fraction_encode (hf : f < 2 ^ F.field) : F.fraction (F.encode b e f) = f := by
  have hmul : F.encode b e f = (b.toNat * 2 ^ F.expBits + e) * 2 ^ F.field + f := by
    rw [encode, pow_add]
    ring
  rw [fraction, hmul, Nat.mul_add_mod', Nat.mod_eq_of_lt hf]

theorem exponent_encode (he : e < 2 ^ F.expBits) (hf : f < 2 ^ F.field) :
    F.exponent (F.encode b e f) = e := by
  have hmul : F.encode b e f = (b.toNat * 2 ^ F.expBits + e) * 2 ^ F.field + f := by
    rw [encode, pow_add]
    ring
  rw [exponent, hmul, mul_comm _ (2 ^ F.field), Nat.mul_add_div (Nat.two_pow_pos _),
    Nat.div_eq_of_lt hf, add_zero, Nat.mul_add_mod', Nat.mod_eq_of_lt he]

end Encode

/-! ## Values -/

theorem Normal.significand_eq (h : F.Normal n) : F.significand n = 2 ^ F.field + F.fraction n :=
  if_neg h.1

theorem Normal.value_eq (h : F.Normal n) :
    F.value n = signed (F.negative n)
      (((2 ^ F.field + F.fraction n : ℕ) : ℚ) * 2 ^ ((F.exponent n : ℤ) - F.bias - F.field)) := by
  have h1 : (1 : ℤ) ≤ F.exponent n := by
    have := h.1
    omega
  rw [value, h.significand_eq, max_eq_left h1]

theorem Zero.value_eq (h : F.Zero n) : F.value n = 0 := by
  rw [value, significand, if_pos h.1, h.2]
  cases F.negative n <;> simp [signed]

theorem Normal.log_value (h : F.Normal n) : Int.log 2 |F.value n| = F.exponent n - F.bias := by
  have hlt := fraction_lt (F := F) (n := n)
  have hlo : (2 : ℚ) ^ ((F.field + 1 : ℤ) - 1) ≤ (2 ^ F.field + F.fraction n : ℕ) := by
    rw [add_sub_cancel_right, zpow_natCast]
    exact_mod_cast Nat.le_add_right _ _
  have hhi : ((2 ^ F.field + F.fraction n : ℕ) : ℚ) < 2 ^ (F.field + 1 : ℤ) := by
    have hnat : 2 ^ F.field + F.fraction n < 2 ^ (F.field + 1) := by
      rw [pow_succ]
      omega
    exact_mod_cast hnat
  rw [h.value_eq, abs_signed, log_mul_zpow hlo hhi]
  ring

theorem Normal.inRange (h : F.Normal n) : F.InRange (F.value n) := by
  have hle := exponent_le (F := F) (n := n)
  obtain ⟨h0, hmax⟩ := h
  rw [InRange, Normal.log_value ⟨h0, hmax⟩, sub_add_cancel]
  omega

theorem significand_lt : F.significand n < 2 ^ (F.field + 1) := by
  have hlt := fraction_lt (F := F) (n := n)
  rw [significand, pow_succ]
  split <;> omega

theorem roundSig_value (n : ℕ) : roundSig (F.field + 1) (F.value n) = F.value n := by
  have hbits : |(F.significand n : ℤ)| < 2 ^ (F.field + 1) := by
    rw [abs_of_nonneg (Int.natCast_nonneg _)]
    exact_mod_cast significand_lt
  rw [value, roundSig_signed]
  congr 1
  exact roundSig_eq_self hbits (by push_cast; rfl)

theorem Normal.value_ne_zero (h : F.Normal n) : F.value n ≠ 0 := by
  have hpos : (0 : ℚ) < (2 ^ F.field + F.fraction n : ℕ) := by
    exact_mod_cast Nat.add_pos_left (Nat.two_pow_pos _) _
  have habs : 0 < |F.value n| := by
    rw [h.value_eq, abs_signed]
    exact abs_pos.mpr (mul_pos hpos (zpow_two_pos _)).ne'
  exact abs_pos.mp habs

theorem Normal.eq_of_value {m : ℕ} (hm : F.Normal m) (hn : F.Normal n) (hmlt : m < 2 ^ F.width)
    (hnlt : n < 2 ^ F.width) (hneg : F.negative m = F.negative n)
    (hvalue : F.value m = F.value n) : m = n := by
  have hexp : F.exponent m = F.exponent n := by
    have hlog := hm.log_value
    rw [hvalue, hn.log_value] at hlog
    omega
  have hfrac : F.fraction m = F.fraction n := by
    rw [hm.value_eq, hn.value_eq, hneg, signed_inj, hexp,
      mul_left_inj' (zpow_two_pos _).ne'] at hvalue
    have hnat : 2 ^ F.field + F.fraction m = 2 ^ F.field + F.fraction n := by
      exact_mod_cast hvalue
    omega
  rw [← encode_fields hmlt, ← encode_fields hnlt, hneg, hexp, hfrac]

theorem Zero.eq_of_negative {m : ℕ} (hm : F.Zero m) (hn : F.Zero n) (hmlt : m < 2 ^ F.width)
    (hnlt : n < 2 ^ F.width) (hneg : F.negative m = F.negative n) : m = n := by
  rw [← encode_fields hmlt, ← encode_fields hnlt, hneg, hm.1, hn.1, hm.2, hn.2]

end Format

end X86Port.Lib.Rounding
