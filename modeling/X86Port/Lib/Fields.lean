import Mathlib.Data.Nat.Bitwise

/-!
# Fields of a word

A word that is put together from fields which do not overlap, and a field read back.

* `field`: the bits of a number from one place on.
* `toNat_or_shiftLeft`: a part above those that are there.
* `field_add_above`, `field_add_at`: the fields of the old part, and of the new one.
* `toNat_masked`: a shift and a mask read a field.
-/

namespace X86Port.Lib.Fields

/-- The `k` bits from bit `s` on. -/
def field (a s k : Nat) : Nat := a / 2 ^ s % 2 ^ k

section

variable {a b n s k : Nat}

theorem field_add_above (h : s + k ≤ n) : field (a + b * 2 ^ n) s k = field a s k := by
  have hsplit : b * 2 ^ n = b * 2 ^ (n - s - k) * 2 ^ k * 2 ^ s := by
    rw [Nat.mul_assoc, Nat.mul_assoc, ← Nat.pow_add, ← Nat.pow_add]
    congr 2
    omega
  unfold field
  rw [hsplit, Nat.add_mul_div_right _ _ (Nat.two_pow_pos s), Nat.add_mul_mod_self_right]

theorem field_add_at (ha : a < 2 ^ n) : field (a + b * 2 ^ n) n k = b % 2 ^ k := by
  unfold field
  rw [Nat.add_mul_div_right _ _ (Nat.two_pow_pos n), Nat.div_eq_of_lt ha, Nat.zero_add]

end

variable {w : Nat} {x y : BitVec w} {n : Nat}

theorem toNat_or_shiftLeft (hx : x.toNat < 2 ^ n) (hy : y.toNat * 2 ^ n < 2 ^ w) :
    (x ||| y <<< n).toNat = x.toNat + y.toNat * 2 ^ n := by
  rw [BitVec.toNat_or, BitVec.toNat_shiftLeft, Nat.shiftLeft_eq, Nat.mod_eq_of_lt hy, Nat.or_comm,
    Nat.mul_comm, ← Nat.two_pow_add_eq_or_of_lt hx, Nat.add_comm]

theorem toNat_masked (x : BitVec w) (s : Nat) {k : Nat} (hk : k ≤ w) :
    (x >>> s &&& BitVec.ofNat w (2 ^ k - 1)).toNat = field x.toNat s k := by
  have hmask : 2 ^ k - 1 < 2 ^ w :=
    Nat.lt_of_lt_of_le (Nat.sub_one_lt (Nat.two_pow_pos k).ne')
      (Nat.pow_le_pow_right (by decide) hk)
  rw [BitVec.toNat_and, BitVec.toNat_ushiftRight, BitVec.toNat_ofNat, Nat.mod_eq_of_lt hmask,
    Nat.and_two_pow_sub_one_eq_mod, Nat.shiftRight_eq_div_pow]
  rfl

end X86Port.Lib.Fields
