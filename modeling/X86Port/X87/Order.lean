import X86Port.X87.Canonical

/-!
# The order of a storage

Each storage has its own order of the values: the unit's on the ten-byte type, the operators of
the compiler and a comparison of the patterns on binary128.

* `F128.compare_eq`: the comparison of the patterns is the order of the numbers.
* `Storage.ordered`: a NaN, the operators and the order of a storage all go by one number.
-/

namespace X86Port.X87

open Lib.Rounding

/-! ## A pattern as its two words -/

namespace F128

variable {a b : F128}

theorem pattern_lt (v : F128) : v.pattern < 2 ^ binary128.width := by
  have hhi := v.hi.isLt
  have hlo := v.lo.isLt
  rw [pattern, show binary128.width = 128 from rfl]
  omega

theorem pattern_inj : a.pattern = b.pattern ↔ a.hi = b.hi ∧ a.lo = b.lo := by
  have ha := a.lo.isLt
  have hb := b.lo.isLt
  rw [pattern, pattern, ← BitVec.toNat_inj, ← BitVec.toNat_inj]
  omega

theorem pattern_lt_iff : b.pattern < a.pattern ↔ b.hi < a.hi ∨ b.hi = a.hi ∧ b.lo < a.lo := by
  have ha := a.lo.isLt
  have hb := b.lo.isLt
  rw [pattern, pattern, BitVec.lt_def, BitVec.lt_def, ← BitVec.toNat_inj]
  omega

theorem toNat_exponent (v : F128) : v.exponent.toNat = binary128.exponent v.pattern := by
  have hhi := v.hi.isLt
  have hlo := v.lo.isLt
  have hmask : f128ExpMask.toNat = 2 ^ 15 - 1 := rfl
  rw [exponent, BitVec.toNat_and, hmask, Nat.and_two_pow_sub_one_eq_mod, BitVec.toNat_setWidth,
    BitVec.toNat_ushiftRight, Nat.shiftRight_eq_div_pow, Format.exponent, pattern]
  change _ = (v.hi.toNat * 2 ^ 64 + v.lo.toNat) / 2 ^ 112 % 2 ^ 15
  omega

theorem mantissaIsZero_iff (v : F128) :
    v.mantissaIsZero = true ↔ binary128.fraction v.pattern = 0 := by
  have hlo := v.lo.isLt
  have hmask : f128HiMantMask.toNat = 2 ^ 48 - 1 := rfl
  rw [mantissaIsZero, decide_eq_true_iff, ← BitVec.toNat_inj, ← BitVec.toNat_inj, BitVec.toNat_and,
    hmask, Nat.and_two_pow_sub_one_eq_mod, Format.fraction, pattern]
  change v.lo.toNat = 0 ∧ v.hi.toNat % 2 ^ 48 = 0 ↔
    (v.hi.toNat * 2 ^ 64 + v.lo.toNat) % 2 ^ 112 = 0
  omega

theorem negative_eq_pattern (v : F128) : v.negative = binary128.negative v.pattern := by
  have hlo := v.lo.isLt
  rw [negative_eq, BitVec.getLsbD, Format.negative, pattern, Nat.testBit_eq_decide_div_mod_eq,
    Nat.testBit_eq_decide_div_mod_eq, decide_eq_decide]
  change _ ↔ (v.hi.toNat * 2 ^ 64 + v.lo.toNat) / 2 ^ 127 % 2 = 1
  omega

theorem isNan_eq (v : F128) : v.isNan = v.number.isNone := by
  rw [Bool.eq_iff_iff, isNan, Bool.and_eq_true, decide_eq_true_iff, Bool.not_eq_true',
    ← Bool.not_eq_true, mantissaIsZero_iff, Option.isNone_iff_eq_none, number,
    Format.number_eq_none_iff, ← toNat_exponent, ← BitVec.toNat_inj]
  rfl

theorem isZero_iff (v : F128) : v.isZero = true ↔ binary128.magnitude v.pattern = 0 := by
  rw [isZero, Bool.and_eq_true, decide_eq_true_iff, mantissaIsZero_iff, Format.magnitude_eq,
    ← toNat_exponent, ← BitVec.toNat_inj, Nat.add_eq_zero_iff, Nat.mul_eq_zero,
    or_iff_left (Nat.two_pow_pos _).ne']
  rfl

/-- The choice by the greater word is the choice by the lesser one, turned around. -/
theorem choice_eq (less negative : Bool) :
    (if less ≠ negative then Ordering.gt else Ordering.lt) =
      if less = negative then Ordering.lt else Ordering.gt := by
  cases less <;> cases negative <;> rfl

theorem compare_eq_patternOrder (a b : F128) :
    compare a b = binary128.patternOrder a.pattern b.pattern := by
  rw [compare, Format.patternOrder, negative_eq_pattern, negative_eq_pattern, choice_eq, choice_eq]
  by_cases hzero : a.isZero = true ∧ b.isZero = true
  · have hmagnitude := hzero
    rw [isZero_iff, isZero_iff] at hmagnitude
    rw [if_pos hzero, if_pos hmagnitude]
  have hmagnitude := hzero
  rw [isZero_iff, isZero_iff] at hmagnitude
  rw [if_neg hzero, if_neg hmagnitude]
  by_cases hhi : a.hi = b.hi
  · rw [if_neg (not_not.2 hhi)]
    by_cases hlo : a.lo = b.lo
    · rw [if_pos hlo, if_pos (pattern_inj.2 ⟨hhi, hlo⟩)]
    · have hlt : b.pattern < a.pattern ↔ b.lo < a.lo := by
        rw [pattern_lt_iff, hhi]
        simp
      rw [if_neg hlo, if_neg fun h => hlo (pattern_inj.1 h).2, decide_eq_decide.2 hlt]
  · have hlt : b.pattern < a.pattern ↔ b.hi < a.hi := by
      rw [pattern_lt_iff]
      exact or_iff_left fun h => hhi h.1.symm
    rw [if_pos (show a.hi ≠ b.hi from hhi), if_neg fun h => hhi (pattern_inj.1 h).1,
      decide_eq_decide.2 hlt]

theorem compare_eq {x y : Line} (ha : a.number = some x) (hb : b.number = some y) :
    compare a b = cmp x y := by
  rw [compare_eq_patternOrder,
    Format.patternOrder_eq ha hb (pattern_lt a) (pattern_lt b)]

end F128

/-! ## A host that goes by one number -/

/-- What the values of a storage stand for. -/
def Storage.number {L : Type} {H : FloatHost L} : Storage L H → L → Option Line
  | .native _ => Ext80.number
  | .pair _ _ => F128.number

/-- NaNs, operators and order are those of the numbers, and `0.0` is zero. -/
structure FloatHost.Ordered {L : Type} (H : FloatHost L) (number : L → Option Line) : Prop where
  isNan : ∀ v, H.isNan v = (number v).isNone
  lt : ∀ x y, H.lt x y = onNumbers number (fun a b => decide (a < b)) x y
  eq : ∀ x y, H.eq x y = onNumbers number (fun a b => decide (a = b)) x y
  order : ∀ x y, H.order x y = orderOf number x y
  zero : number H.zero = some (.finite 0)

theorem Storage.ordered {L : Type} {H : FloatHost L} (storage : Storage L H) :
    H.Ordered storage.number := by
  cases storage with
  | native U =>
    refine ⟨fun _ => rfl, fun _ _ => rfl, fun _ _ => rfl, fun _ _ => rfl, ?_⟩
    change Ext80.number ⟨0, 0⟩ = _
    rw [Ext80.number, if_neg (by decide), if_neg (by decide), Ext80.Zero.value_eq ⟨rfl, rfl⟩]
  | pair S B =>
    refine ⟨F128.isNan_eq, fun _ _ => rfl, fun _ _ => rfl, fun x y => ?_, ?_⟩
    · change (if x.isNan || y.isNan then none else some (F128.compare x y)) = orderOf F128.number x y
      rw [F128.isNan_eq, F128.isNan_eq, orderOf]
      cases hx : F128.number x with
      | none => rfl
      | some a =>
        cases hy : F128.number y with
        | none => rfl
        | some b => exact congrArg some (F128.compare_eq hx hy)
    · change F128.number ⟨0, 0⟩ = _
      rw [F128.number, Format.number, if_neg (by decide), Format.value_eq_signed,
        Format.size_eq_zero_iff.2 (by decide)]
      simp [signed]

end X86Port.X87
