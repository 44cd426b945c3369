import Mathlib.Tactic.SplitIfs

/-!
# Sums and differences modulo a power of two

Numbers below `2 * H` are read unsigned, or signed with `H` as the first negative number
(`signed`). `Sum H X Y c Z` says that `Z` is `X + Y + c` with at most one wrap; a
difference `X - Y - c` is the sum read the other way round.

* `Sum.carry_iff`: the unsigned wrap, seen from the result.
* `Sum.overflow_iff`, `Sum.underflow_iff`: the signed wrap, from the three signs.
* `Sum.carry_bit`: the carry into one bit is what the three bits there leave over.
-/

namespace X86Port.Lib

/-- The signed reading of a number below `2 * H`. -/
def signed (H X : Nat) : Int := if X < H then X else (X : Int) - 2 * H

/-- The range of the signed reading. -/
def Fits (H : Nat) (v : Int) : Prop := -(H : Int) ≤ v ∧ v < H

instance (H : Nat) (v : Int) : Decidable (Fits H v) := inferInstanceAs (Decidable (_ ∧ _))

/-- `Z` is `X + Y + c` modulo `2 * H`, for a carry in `c`. -/
structure Sum (H X Y c Z : Nat) : Prop where
  left : X < 2 * H
  right : Y < 2 * H
  carry : c ≤ 1
  result : Z < 2 * H
  value : Z = X + Y + c ∨ Z + 2 * H = X + Y + c

namespace Sum

variable {H X Y c Z : Nat}

theorem of_mod (hX : X < 2 * H) (hY : Y < 2 * H) (hc : c ≤ 1) :
    Sum H X Y c ((X + Y + c) % (2 * H)) where
  left := hX
  right := hY
  carry := hc
  result := Nat.mod_lt _ (by omega)
  value := by
    rcases Nat.lt_or_ge (X + Y + c) (2 * H) with h | h
    · exact Or.inl (Nat.mod_eq_of_lt h)
    · rw [Nat.mod_eq_sub_mod h, Nat.mod_eq_of_lt (by omega)]
      exact Or.inr (by omega)

theorem carry_iff (h : Sum H X Y 0 Z) : Z < X ↔ 2 * H ≤ X + Y := by
  obtain ⟨hX, hY, -, hZ, hv⟩ := h
  omega

/-- The sum of two like signs has the other sign exactly when it does not fit. -/
theorem overflow_iff (h : Sum H X Y c Z) :
    ((H ≤ X ↔ H ≤ Y) ∧ ¬ (H ≤ Z ↔ H ≤ X)) ↔ ¬ Fits H (signed H X + signed H Y + c) := by
  obtain ⟨hX, hY, hc, hZ, hv⟩ := h
  unfold Fits signed
  split_ifs <;> omega

/-- The difference of two unlike signs has the sign of the subtrahend exactly when it does
not fit. -/
theorem underflow_iff (h : Sum H Z Y c X) :
    (¬ (H ≤ X ↔ H ≤ Y) ∧ ¬ (H ≤ Z ↔ H ≤ X)) ↔ ¬ Fits H (signed H X - signed H Y - c) := by
  obtain ⟨hZ, hY, hc, hX, hv⟩ := h
  unfold Fits signed
  split_ifs <;> omega

/-- The carry out of the low four bits. -/
theorem carry_bit (h : Sum H X Y c Z) (hH : 16 ∣ H) :
    (X / 16 + Y / 16 + Z / 16) % 2 = 1 ↔ 16 ≤ X % 16 + Y % 16 + c := by
  obtain ⟨hX, hY, hc, hZ, hv⟩ := h
  obtain ⟨k, rfl⟩ := hH
  omega

/-- The borrow into the low four bits. -/
theorem borrow_bit (h : Sum H Z Y c X) (hH : 16 ∣ H) :
    (X / 16 + Y / 16 + Z / 16) % 2 = 1 ↔ X % 16 < Y % 16 + c := by
  obtain ⟨hX, hY, hc, hZ, hv⟩ := h
  obtain ⟨k, rfl⟩ := hH
  omega

end Sum

end X86Port.Lib
