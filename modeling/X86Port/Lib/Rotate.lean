import Mathlib.Tactic.SplitIfs

/-!
# Rotations of a bit vector

A rotation is known by the position each bit comes from (`rotatedFrom`). Turns add up
(`rotateLeft_rotateLeft`, `rotateRight_rotateRight`), so a loop of single turns is one
rotation.
-/

namespace X86Port.Lib

/-- The bit a rotation to the left by `k` brings to position `i`. -/
def rotatedFrom (n k i : Nat) : Nat := if i < k % n then i + n - k % n else i - k % n

theorem rotatedFrom_lt {n k i : Nat} (hi : i < n) : rotatedFrom n k i < n := by
  have := Nat.mod_lt k (show 0 < n by omega)
  unfold rotatedFrom
  split_ifs <;> omega

theorem getLsbD_rotateLeft_eq {n : Nat} (x : BitVec n) (k : Nat) {i : Nat} (hi : i < n) :
    (x.rotateLeft k).getLsbD i = x.getLsbD (rotatedFrom n k i) := by
  have := Nat.mod_lt k (show 0 < n by omega)
  rw [BitVec.getLsbD_rotateLeft]
  unfold rotatedFrom
  by_cases h : i < k % n
  · rw [if_pos h, decide_eq_true h, cond_true]
    congr 1
    omega
  · rw [if_neg h, decide_eq_false h, cond_false, decide_eq_true hi, Bool.true_and]

theorem rotatedFrom_rotatedFrom {n a b i : Nat} (hi : i < n) :
    rotatedFrom n a (rotatedFrom n b i) = rotatedFrom n (a + b) i := by
  have hn : 0 < n := by omega
  have ha := Nat.mod_lt a hn
  have hb := Nat.mod_lt b hn
  have hc := Nat.mod_lt (a + b) hn
  have hwrap : (a + b) % n = a % n + b % n ∨ (a + b) % n + n = a % n + b % n := by
    rw [Nat.add_mod]
    rcases Nat.lt_or_ge (a % n + b % n) n with h | h
    · exact Or.inl (Nat.mod_eq_of_lt h)
    · rw [Nat.mod_eq_sub_mod h, Nat.mod_eq_of_lt (by omega)]
      exact Or.inr (by omega)
  unfold rotatedFrom
  generalize a % n = A at *
  generalize b % n = B at *
  generalize (a + b) % n = C at *
  split_ifs <;> omega

theorem rotateLeft_rotateLeft {n : Nat} (x : BitVec n) (a b : Nat) :
    (x.rotateLeft a).rotateLeft b = x.rotateLeft (a + b) := by
  apply BitVec.eq_of_getLsbD_eq
  intro i hi
  rw [getLsbD_rotateLeft_eq _ _ hi, getLsbD_rotateLeft_eq _ _ (rotatedFrom_lt hi),
    getLsbD_rotateLeft_eq _ _ hi, rotatedFrom_rotatedFrom hi]

/-- A rotation to the right is the rotation to the left by the rest of the turn. -/
theorem rotateRight_eq_rotateLeft {n : Nat} (x : BitVec n) (k : Nat) :
    x.rotateRight k = x.rotateLeft (n - k % n) := by
  apply BitVec.eq_of_getLsbD_eq
  intro i hi
  have hk := Nat.mod_lt k (show 0 < n by omega)
  rw [getLsbD_rotateLeft_eq _ _ hi, BitVec.getLsbD_rotateRight]
  unfold rotatedFrom
  rcases Nat.eq_zero_or_pos (k % n) with h | h
  · simp [h, hi]
  · rw [Nat.mod_eq_of_lt (show n - k % n < n by omega)]
    by_cases hlt : i < n - k % n
    · rw [if_pos hlt, decide_eq_true hlt, cond_true]
      congr 1
      omega
    · rw [if_neg hlt, decide_eq_false hlt, cond_false, decide_eq_true hi, Bool.true_and]

theorem rotateRight_rotateRight {n : Nat} (x : BitVec n) (a b : Nat) :
    (x.rotateRight a).rotateRight b = x.rotateRight (a + b) := by
  apply BitVec.eq_of_getLsbD_eq
  intro i hi
  have hn : 0 < n := by omega
  have hb := Nat.mod_lt b hn
  have hab := Nat.mod_lt (a + b) hn
  -- both turns end the same distance short of whole turns
  have hturn : (n - a % n + (n - b % n)) % n = (n - (a + b) % n) % n := by
    have ha := Nat.mod_lt a hn
    rw [Nat.add_mod a b n] at *
    rcases Nat.lt_or_ge (a % n + b % n) n with h | h
    · rw [Nat.mod_eq_of_lt h, show n - a % n + (n - b % n) = n - (a % n + b % n) + n by omega,
        Nat.add_mod_right]
    · rw [Nat.mod_eq_sub_mod h, Nat.mod_eq_of_lt (show a % n + b % n - n < n by omega)]
      congr 1
      omega
  rw [rotateRight_eq_rotateLeft, rotateRight_eq_rotateLeft, rotateRight_eq_rotateLeft,
    rotateLeft_rotateLeft, ← BitVec.rotateLeft_mod_eq_rotateLeft, hturn,
    BitVec.rotateLeft_mod_eq_rotateLeft]

end X86Port.Lib
