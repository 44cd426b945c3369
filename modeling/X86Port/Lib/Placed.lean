import Mathlib.Data.BitVec

/-!
# Words of placed fields

A word that is put together with shifts and disjunctions, and the field that is read back: what
was placed there, or nothing of what was placed beside it.

* `extract_placed`, `extract_beside`: a field read as a whole.
* `getLsbD_placed`: one bit.
* `placed_masked_off`, `placed_masked_on`: a field outside a mask, and one inside.
-/

namespace X86Port.Lib

variable {n w : Nat} (x : BitVec w) {k s l : Nat}

@[simp] theorem getLsbD_placed (k i : Nat) :
    (x.setWidth n <<< k).getLsbD i = (decide (k ≤ i ∧ i < n) && x.getLsbD (i - k)) := by
  rw [BitVec.getLsbD_shiftLeft, BitVec.getLsbD_setWidth]
  by_cases h : k ≤ i
  · by_cases h' : i < n
    · simp [h, h', show i - k < n by omega]
    · simp [h']
  · simp [h, show i < k by omega]

@[simp] theorem extract_placed (h : k + w ≤ n) : (x.setWidth n <<< k).extractLsb' k w = x := by
  apply BitVec.eq_of_getLsbD_eq
  intro i hi
  rw [BitVec.getLsbD_extractLsb', getLsbD_placed, Nat.add_sub_cancel_left]
  simp [hi, show k + i < n by omega]

@[simp] theorem extract_lowest (h : w ≤ n) : (x.setWidth n).extractLsb' 0 w = x := by
  have := extract_placed (k := 0) x (show 0 + w ≤ n by omega)
  rwa [BitVec.shiftLeft_zero] at this

@[simp] theorem extract_beside (h : k + w ≤ s ∨ s + l ≤ k) :
    (x.setWidth n <<< k).extractLsb' s l = 0 := by
  apply BitVec.eq_of_getLsbD_eq
  intro i hi
  rw [BitVec.getLsbD_extractLsb', getLsbD_placed]
  rcases h with h | h
  · simp [BitVec.getLsbD_of_ge x (s + i - k) (by omega)]
  · simp [show ¬ k ≤ s + i by omega]

@[simp] theorem extract_above (h : w ≤ s) : (x.setWidth n).extractLsb' s l = 0 := by
  have := extract_beside (n := n) (k := 0) (l := l) x (.inl (show 0 + w ≤ s by omega))
  rwa [BitVec.shiftLeft_zero] at this

/-- A bit of a placed field is the field's own, or none. -/
theorem placed_bit {i : Nat} (h : (x.setWidth n <<< k).getLsbD i = true) : k ≤ i ∧ i - k < w := by
  rw [getLsbD_placed, Bool.and_eq_true, decide_eq_true_eq] at h
  exact ⟨h.1.1, BitVec.lt_of_getLsbD h.2⟩

theorem placed_masked_off {mask : BitVec n} (h : mask.extractLsb' k w = 0) :
    (x.setWidth n <<< k) &&& mask = 0 := by
  apply BitVec.eq_of_getLsbD_eq
  intro i hi
  rw [BitVec.getLsbD_and]
  cases hx : (x.setWidth n <<< k).getLsbD i with
  | false => exact (BitVec.getLsbD_zero).symm
  | true =>
    obtain ⟨hk, hw⟩ := placed_bit x hx
    have hbit := congrArg (BitVec.getLsbD · (i - k)) h
    rw [BitVec.getLsbD_extractLsb', decide_eq_true hw, Nat.add_sub_cancel' hk] at hbit
    exact hbit.trans (BitVec.getLsbD_zero.trans BitVec.getLsbD_zero.symm)

theorem placed_masked_on {mask : BitVec n} (h : mask.extractLsb' k w = BitVec.allOnes w) :
    (x.setWidth n <<< k) &&& mask = x.setWidth n <<< k := by
  apply BitVec.eq_of_getLsbD_eq
  intro i hi
  rw [BitVec.getLsbD_and]
  cases hx : (x.setWidth n <<< k).getLsbD i with
  | false => rfl
  | true =>
    obtain ⟨hk, hw⟩ := placed_bit x hx
    have hbit := congrArg (BitVec.getLsbD · (i - k)) h
    rw [BitVec.getLsbD_extractLsb', decide_eq_true hw, Nat.add_sub_cancel' hk,
      BitVec.getLsbD_allOnes, decide_eq_true hw] at hbit
    exact hbit

theorem lowest_masked_on {mask : BitVec n} (h : mask.extractLsb' 0 w = BitVec.allOnes w) :
    x.setWidth n &&& mask = x.setWidth n := by
  have := placed_masked_on x h
  rwa [BitVec.shiftLeft_zero] at this

theorem lowest_masked_off {mask : BitVec n} (h : mask.extractLsb' 0 w = 0) :
    x.setWidth n &&& mask = 0 := by
  have := placed_masked_off x h
  rwa [BitVec.shiftLeft_zero] at this

end X86Port.Lib
