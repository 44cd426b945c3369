import X86Port.Simd.Rearrange
import Mathlib.Algebra.Order.BigOperators.Group.List
import Mathlib.Tactic.Linarith

/-!
# Packed integer arithmetic

What each lane of the arithmetic of `x86p_simd_int` holds.

* `int32_ok`, `addWrapped_eq`, …: the arithmetic of one lane in `int32_t`.
* `pmaddwdLane_eq`, `pmaddwdLane_overflow`: the one sum that `int32_t` may not hold.
* `arithmetic_exact`: every lane is the function of its name of the same lanes of the operands.
-/

namespace X86Port.Simd

open Lib Lib.Lanes

/-! ## What the names say -/

section Functions

variable {w : Nat}

/-- The nearest signed value of `w` bits. -/
def nearestSigned (w : Nat) (v : Int) : BitVec w :=
  BitVec.ofInt w (clamp (-2 ^ (w - 1)) (2 ^ (w - 1) - 1) v)

/-- The nearest unsigned value of `w` bits. -/
def nearestUnsigned (w : Nat) (v : Int) : BitVec w := BitVec.ofInt w (clamp 0 (2 ^ w - 1) v)

def mask (w : Nat) (p : Prop) [Decidable p] : BitVec w := if p then BitVec.allOnes w else 0

def roundedAverage (x y : BitVec w) : BitVec w := BitVec.ofNat w ((x.toNat + y.toNat + 1) / 2)

def signedMin (x y : BitVec w) : BitVec w := if x.toInt ≤ y.toInt then x else y

def signedMax (x y : BitVec w) : BitVec w := if x.toInt ≤ y.toInt then y else x

def unsignedMin (x y : BitVec w) : BitVec w := if x.toNat ≤ y.toNat then x else y

def unsignedMax (x y : BitVec w) : BitVec w := if x.toNat ≤ y.toNat then y else x

/-- The sum of the products of the signed words. -/
def dotProduct (x y : U32) : Int :=
  (lane 16 x 0).toInt * (lane 16 y 0).toInt + (lane 16 x 1).toInt * (lane 16 y 1).toInt

/-- The sum of the absolute differences of the unsigned bytes. -/
def absoluteDifferences (x y : U64) : Nat :=
  ((List.range 8).map fun k => ((lane 8 x k).toNat - (lane 8 y k).toNat : Int).natAbs).sum

/-- The product of the low doublewords. -/
def lowProduct (x y : U64) : Nat := (lane 32 x 0).toNat * (lane 32 y 0).toNat

/-- Each lane of the result is the function of the same lanes of the operands. -/
def Each (w : Nat) (f : BitVec w → BitVec w → BitVec w) (a b out : Vec) : Prop :=
  Elements w a.bytes (fun i => f (lane w a.b i) (lane w b.b i)) out

/-- Each lane of the result is the same lane of `a`, shifted by the quadword of `b`. -/
def EachShifted (w : Nat) (f : BitVec w → Nat → BitVec w) (a b out : Vec) : Prop :=
  Elements w a.bytes (fun i => f (lane w a.b i) (lane 64 b.b 0).toNat) out

end Functions

/-- What an arithmetic operation leaves. -/
def Lanewise (op : SimdOp) (a b out : Vec) : Prop :=
  match op with
  | .pand => Each 8 (fun x y => x &&& y) a b out
  | .pandn => Each 8 (fun x y => ~~~x &&& y) a b out
  | .por => Each 8 (fun x y => x ||| y) a b out
  | .pxor => Each 8 (fun x y => x ^^^ y) a b out
  | .paddb => Each 8 (fun x y => x + y) a b out
  | .paddw => Each 16 (fun x y => x + y) a b out
  | .paddd => Each 32 (fun x y => x + y) a b out
  | .paddq => Each 64 (fun x y => x + y) a b out
  | .psubb => Each 8 (fun x y => x - y) a b out
  | .psubw => Each 16 (fun x y => x - y) a b out
  | .psubd => Each 32 (fun x y => x - y) a b out
  | .psubq => Each 64 (fun x y => x - y) a b out
  | .paddsb => Each 8 (fun x y => nearestSigned 8 (x.toInt + y.toInt)) a b out
  | .paddsw => Each 16 (fun x y => nearestSigned 16 (x.toInt + y.toInt)) a b out
  | .psubsb => Each 8 (fun x y => nearestSigned 8 (x.toInt - y.toInt)) a b out
  | .psubsw => Each 16 (fun x y => nearestSigned 16 (x.toInt - y.toInt)) a b out
  | .paddusb => Each 8 (fun x y => nearestUnsigned 8 (x.toNat + y.toNat)) a b out
  | .paddusw => Each 16 (fun x y => nearestUnsigned 16 (x.toNat + y.toNat)) a b out
  | .psubusb => Each 8 (fun x y => nearestUnsigned 8 (x.toNat - y.toNat)) a b out
  | .psubusw => Each 16 (fun x y => nearestUnsigned 16 (x.toNat - y.toNat)) a b out
  | .pcmpeqb => Each 8 (fun x y => mask 8 (x = y)) a b out
  | .pcmpeqw => Each 16 (fun x y => mask 16 (x = y)) a b out
  | .pcmpeqd => Each 32 (fun x y => mask 32 (x = y)) a b out
  | .pcmpgtb => Each 8 (fun x y => mask 8 (y.toInt < x.toInt)) a b out
  | .pcmpgtw => Each 16 (fun x y => mask 16 (y.toInt < x.toInt)) a b out
  | .pcmpgtd => Each 32 (fun x y => mask 32 (y.toInt < x.toInt)) a b out
  | .pavgb => Each 8 roundedAverage a b out
  | .pavgw => Each 16 roundedAverage a b out
  | .pminub => Each 8 unsignedMin a b out
  | .pmaxub => Each 8 unsignedMax a b out
  | .pminsw => Each 16 signedMin a b out
  | .pmaxsw => Each 16 signedMax a b out
  | .pmullw => Each 16 (fun x y => x * y) a b out
  | .pmulhw => Each 16 (fun x y => BitVec.ofInt 16 (x.toInt * y.toInt / 2 ^ 16)) a b out
  | .pmulhuw => Each 16 (fun x y => BitVec.ofNat 16 (x.toNat * y.toNat / 2 ^ 16)) a b out
  | .pmuludq => Each 64 (fun x y => BitVec.ofNat 64 (lowProduct x y)) a b out
  | .pmaddwd => Each 32 (fun x y => BitVec.ofInt 32 (dotProduct x y)) a b out
  | .psadbw => Each 64 (fun x y => BitVec.ofNat 64 (absoluteDifferences x y)) a b out
  | .psllw => EachShifted 16 (fun x c => x <<< c) a b out
  | .pslld => EachShifted 32 (fun x c => x <<< c) a b out
  | .psllq => EachShifted 64 (fun x c => x <<< c) a b out
  | .psrlw => EachShifted 16 (fun x c => x >>> c) a b out
  | .psrld => EachShifted 32 (fun x c => x >>> c) a b out
  | .psrlq => EachShifted 64 (fun x c => x >>> c) a b out
  | .psraw => EachShifted 16 (fun x c => x.sshiftRight c) a b out
  | .psrad => EachShifted 32 (fun x c => x.sshiftRight c) a b out
  | _ => False

def arithmetic : List SimdOp :=
  [.pand, .pandn, .por, .pxor, .paddb, .paddw, .paddd, .paddq, .psubb, .psubw, .psubd, .psubq,
    .paddsb, .paddsw, .psubsb, .psubsw, .paddusb, .paddusw, .psubusb, .psubusw, .pcmpeqb,
    .pcmpeqw, .pcmpeqd, .pcmpgtb, .pcmpgtw, .pcmpgtd, .pavgb, .pavgw, .pminub, .pmaxub, .pminsw,
    .pmaxsw, .pmullw, .pmulhw, .pmulhuw, .pmuludq, .pmaddwd, .psadbw, .psllw, .pslld, .psllq,
    .psrlw, .psrld, .psrlq, .psraw, .psrad]

/-- A doubleword lane whose four words are all -32768. -/
def MostNegative (a b : Vec) : Prop :=
  ∃ i < a.bytes / 4, (a.u16 (i * 2)).toInt = -32768 ∧ (b.u16 (i * 2)).toInt = -32768 ∧
    (a.u16 (i * 2 + 1)).toInt = -32768 ∧ (b.u16 (i * 2 + 1)).toInt = -32768

/-! ## The nearest value -/

section Nearest

variable {w : Nat} {v : Int}

theorem toNat_nearestUnsigned : ((nearestUnsigned w v).toNat : Int) = clamp 0 (2 ^ w - 1) v := by
  have hpow : (0 : Int) < 2 ^ w := Int.pow_pos (by decide)
  have hmem := clamp_mem (v := v) (show (0 : Int) ≤ 2 ^ w - 1 by omega)
  unfold nearestUnsigned
  rw [BitVec.toNat_ofInt, Int.toNat_of_nonneg (Int.emod_nonneg _ (by exact_mod_cast hpow.ne')),
    Int.emod_eq_of_lt hmem.1 (by push_cast; omega)]

theorem toInt_nearestSigned (hw : 0 < w) :
    (nearestSigned w v).toInt = clamp (-2 ^ (w - 1)) (2 ^ (w - 1) - 1) v := by
  have hpow : (0 : Int) < 2 ^ (w - 1) := Int.pow_pos (by decide)
  have hmem := clamp_mem (v := v) (show (-2 ^ (w - 1) : Int) ≤ 2 ^ (w - 1) - 1 by omega)
  exact BitVec.toInt_ofInt_eq_self hw hmem.1 (by omega)

/-- No value of the width is nearer. -/
theorem nearestUnsigned_nearest (u : BitVec w) :
    |v - (nearestUnsigned w v).toNat| ≤ |v - u.toNat| := by
  have hu : (u.toNat : Int) < 2 ^ w := by exact_mod_cast u.isLt
  rw [toNat_nearestUnsigned]
  exact clamp_nearest (by omega) (by omega)

theorem nearestSigned_nearest (hw : 0 < w) (u : BitVec w) :
    |v - (nearestSigned w v).toInt| ≤ |v - u.toInt| := by
  rw [toInt_nearestSigned hw]
  exact clamp_nearest (BitVec.le_toInt u) (by have := BitVec.toInt_lt (x := u); omega)

end Nearest

/-! ## One lane in `int32_t` -/

section Lanes

variable {w : Nat} {x y : BitVec w} {v : Int}

theorem int32_ok (hlo : -2 ^ 31 ≤ v) (hhi : v < 2 ^ 31) : int32 v = .ok v := if_pos ⟨hlo, hhi⟩

theorem ok_bind {α β : Type} (z : α) (f : α → Except IntStop β) : (.ok z >>= f) = f z := rfl

theorem toNat_lt (hw : w ≤ 16) (x : BitVec w) : x.toNat < 65536 :=
  lt_of_lt_of_le x.isLt (Nat.pow_le_pow_right (by decide) hw)

theorem toInt_bounds (hw : w ≤ 16) (x : BitVec w) : -32768 ≤ x.toInt ∧ x.toInt < 32768 := by
  have hpow : (2 : Int) ^ w ≤ 2 ^ 16 := by
    exact_mod_cast Nat.pow_le_pow_right (n := 2) (by decide) hw
  have hle := BitVec.le_two_mul_toInt (x := x)
  have hlt := BitVec.two_mul_toInt_lt (x := x)
  omega

theorem ofInt_toNat (x : BitVec w) : BitVec.ofInt w x.toNat = x := by
  rw [BitVec.ofInt_natCast, BitVec.ofNat_toNat, BitVec.setWidth_eq]

theorem addWrapped_eq (hw : w ≤ 16) (x y : BitVec w) : addWrapped x y = .ok (x + y) := by
  have hx := toNat_lt hw x
  have hy := toNat_lt hw y
  unfold addWrapped
  rw [int32_ok (by omega) (by omega)]
  change Except.ok (BitVec.ofInt w (x.toNat + y.toNat)) = _
  rw [BitVec.ofInt_add, ofInt_toNat, ofInt_toNat]

theorem subWrapped_eq (hw : w ≤ 16) (x y : BitVec w) : subWrapped x y = .ok (x - y) := by
  have hx := toNat_lt hw x
  have hy := toNat_lt hw y
  unfold subWrapped
  rw [int32_ok (by omega) (by omega)]
  change Except.ok (BitVec.ofInt w (x.toNat - y.toNat)) = _
  rw [Int.sub_eq_add_neg, BitVec.ofInt_add, BitVec.ofInt_neg, ofInt_toNat, ofInt_toNat,
    BitVec.sub_eq_add_neg]

section Saturated

variable {sat : Int → BitVec w} {near : Int → BitVec w} (hsat : ∀ v, sat v = near v) (hw : w ≤ 16)

include hsat hw

theorem addSigned_eq (x y : BitVec w) : addSigned x y sat = .ok (near (x.toInt + y.toInt)) := by
  have hx := toInt_bounds hw x
  have hy := toInt_bounds hw y
  unfold addSigned
  rw [int32_ok (by omega) (by omega), ← hsat]
  rfl

theorem subSigned_eq (x y : BitVec w) : subSigned x y sat = .ok (near (x.toInt - y.toInt)) := by
  have hx := toInt_bounds hw x
  have hy := toInt_bounds hw y
  unfold subSigned
  rw [int32_ok (by omega) (by omega), ← hsat]
  rfl

theorem addUnsigned_eq (x y : BitVec w) :
    addUnsigned x y sat = .ok (near (x.toNat + y.toNat)) := by
  have hx := toNat_lt hw x
  have hy := toNat_lt hw y
  unfold addUnsigned
  rw [int32_ok (by omega) (by omega), ← hsat]
  rfl

theorem subUnsigned_eq (x y : BitVec w) :
    subUnsigned x y sat = .ok (near (x.toNat - y.toNat)) := by
  have hx := toNat_lt hw x
  have hy := toNat_lt hw y
  unfold subUnsigned
  rw [int32_ok (by omega) (by omega), ← hsat]
  rfl

end Saturated

theorem equalMask_eq (x y : BitVec w) : equalMask x y = .ok (mask w (x = y)) := by
  unfold equalMask mask
  congr 1
  simp only [Int.natCast_inj, BitVec.toNat_inj]

theorem greaterMask_eq (x y : BitVec w) :
    greaterMask x y = .ok (mask w (y.toInt < x.toInt)) := rfl

theorem allOnes_dword : BitVec.allOnes 32 = 0xFFFFFFFF := by decide

theorem pcmpeqd_eq (x y : U32) : pcmpeqd x y = .ok (mask 32 (x = y)) := by
  unfold pcmpeqd mask
  rw [allOnes_dword]
  rfl

theorem pcmpgtd_eq (x y : U32) : pcmpgtd x y = .ok (mask 32 (y.toInt < x.toInt)) := by
  unfold pcmpgtd mask
  rw [allOnes_dword]
  rfl

theorem average_eq (hw : w ≤ 16) (x y : BitVec w) : average x y = .ok (roundedAverage x y) := by
  have hx := toNat_lt hw x
  have hy := toNat_lt hw y
  have hsum : int32 ((x.toNat : Int) + y.toNat) = .ok (x.toNat + y.toNat) :=
    int32_ok (by omega) (by omega)
  have hrounded : int32 ((x.toNat : Int) + y.toNat + 1) = .ok (x.toNat + y.toNat + 1) :=
    int32_ok (by omega) (by omega)
  unfold average
  rw [hsum, ok_bind, hrounded, ok_bind]
  have hhalf : ((x.toNat : Int) + y.toNat + 1) >>> (1 : Nat) = ((x.toNat + y.toNat + 1) / 2 : Nat) := by
    rw [Int.shiftRight_eq_div_pow]
    omega
  rw [hhalf, BitVec.ofInt_natCast]
  rfl

theorem pminub_eq (x y : U8) : pminub x y = .ok (unsignedMin x y) := by
  unfold pminub unsignedMin
  split_ifs with hlt hle hle
  · exact congrArg Except.ok (ofInt_toNat x)
  · omega
  · have heq : x = y := BitVec.eq_of_toNat_eq (by omega)
    rw [heq]
    exact congrArg Except.ok (ofInt_toNat y)
  · exact congrArg Except.ok (ofInt_toNat y)

theorem pmaxub_eq (x y : U8) : pmaxub x y = .ok (unsignedMax x y) := by
  unfold pmaxub unsignedMax
  split_ifs with hlt hle hle
  · omega
  · exact congrArg Except.ok (ofInt_toNat x)
  · exact congrArg Except.ok (ofInt_toNat y)
  · omega

theorem pminsw_eq (x y : U16) : pminsw x y = .ok (signedMin x y) := by
  unfold pminsw signedMin
  split_ifs with hlt hle hle
  · exact congrArg Except.ok BitVec.ofInt_toInt
  · omega
  · have heq : x = y := BitVec.eq_of_toInt_eq (by omega)
    rw [heq]
    exact congrArg Except.ok BitVec.ofInt_toInt
  · exact congrArg Except.ok BitVec.ofInt_toInt

theorem pmaxsw_eq (x y : U16) : pmaxsw x y = .ok (signedMax x y) := by
  unfold pmaxsw signedMax
  split_ifs with hlt hle hle
  · omega
  · exact congrArg Except.ok BitVec.ofInt_toInt
  · exact congrArg Except.ok BitVec.ofInt_toInt
  · omega

/-- A product of signed words, and the one that is the greatest. -/
theorem product_bounds (x y : U16) : -2 ^ 30 ≤ x.toInt * y.toInt ∧ x.toInt * y.toInt ≤ 2 ^ 30 ∧
    (x.toInt * y.toInt = 2 ^ 30 ↔ x.toInt = -32768 ∧ y.toInt = -32768) := by
  obtain ⟨hx, hx'⟩ := toInt_bounds (by decide) x
  obtain ⟨hy, hy'⟩ := toInt_bounds (by decide) y
  refine ⟨by nlinarith, by nlinarith, fun heq => ?_, fun ⟨h1, h2⟩ => by rw [h1, h2]; rfl⟩
  constructor
  · by_contra hne
    have hlt : -32767 ≤ x.toInt := by omega
    nlinarith
  · by_contra hne
    have hlt : -32767 ≤ y.toInt := by omega
    nlinarith

theorem int32_product (x y : U16) : int32 (x.toInt * y.toInt) = .ok (x.toInt * y.toInt) := by
  obtain ⟨hlo, hhi, -⟩ := product_bounds x y
  exact int32_ok (by omega) (by omega)

theorem pmullw_eq (x y : U16) : pmullw x y = .ok (x * y) := by
  unfold pmullw
  rw [int32_product, ok_bind, BitVec.ofInt_mul, BitVec.ofInt_toInt, BitVec.ofInt_toInt]
  rfl

theorem pmulhw_eq (x y : U16) :
    pmulhw x y = .ok (BitVec.ofInt 16 (x.toInt * y.toInt / 2 ^ 16)) := by
  have hhigh : (x.toInt * y.toInt) >>> (16 : Nat) = x.toInt * y.toInt / 2 ^ 16 :=
    Int.shiftRight_eq_div_pow _ _
  unfold pmulhw
  rw [int32_product, ok_bind, hhigh]
  generalize x.toInt * y.toInt / 2 ^ 16 = q
  refine congrArg Except.ok (BitVec.eq_of_toInt_eq ?_)
  rw [BitVec.toInt_ofInt, BitVec.toInt_ofInt]
  exact Int.emod_bmod q (2 ^ 16)

theorem pmulhuw_eq (x y : U16) :
    pmulhuw x y = .ok (BitVec.ofNat 16 (x.toNat * y.toNat / 2 ^ 16)) := by
  have hprod : x.toNat * y.toNat < 2 ^ 16 * 2 ^ 16 :=
    Nat.mul_lt_mul_of_lt_of_lt x.isLt y.isLt
  have hx := x.isLt
  have hy := y.isLt
  unfold pmulhuw
  refine congrArg Except.ok (BitVec.eq_of_toNat_eq ?_)
  rw [BitVec.toNat_setWidth, BitVec.toNat_ushiftRight, BitVec.toNat_mul, BitVec.toNat_setWidth,
    BitVec.toNat_setWidth, BitVec.toNat_ofNat,
    Nat.mod_eq_of_lt (show x.toNat < 2 ^ 32 by omega),
    Nat.mod_eq_of_lt (show y.toNat < 2 ^ 32 by omega),
    Nat.mod_eq_of_lt (show x.toNat * y.toNat < 2 ^ 32 by omega), Nat.shiftRight_eq_div_pow]

end Lanes

/-! ## Shifts -/

section Shifts

variable {w c : Nat}

theorem shiftCount_eq (b : Vec) :
    shiftCount b = if (lane 64 b.b 0).toNat > 255 then 256 else (lane 64 b.b 0).toNat := by
  unfold shiftCount
  rfl

/-- Counts that the loops take for 256 give what 256 gives. -/
theorem shiftLeft_count (x : BitVec w) (hw : w ≤ 256) (c : Nat) :
    x <<< (if c > 255 then 256 else c) = x <<< c := by
  split_ifs with hc
  · rw [BitVec.shiftLeft_eq_zero hw, BitVec.shiftLeft_eq_zero (by omega)]
  · rfl

theorem ushiftRight_count (x : BitVec w) (hw : w ≤ 256) (c : Nat) :
    x >>> (if c > 255 then 256 else c) = x >>> c := by
  split_ifs with hc
  · rw [BitVec.ushiftRight_eq_zero hw, BitVec.ushiftRight_eq_zero (by omega)]
  · rfl

/-- From the width on, and one below it, an arithmetic shift leaves the sign bits. -/
theorem sshiftRight_signs {x : BitVec w} (hc : w - 1 ≤ c) :
    x.sshiftRight c = x.sshiftRight (w - 1) := by
  apply BitVec.eq_of_getLsbD_eq
  intro i hi
  rw [BitVec.getLsbD_sshiftRight, BitVec.getLsbD_sshiftRight, BitVec.msb_eq_getLsbD_last]
  congr 1
  split_ifs with h1 h2 h2
  · rw [show c + i = w - 1 + i by omega]
  · rw [show c + i = w - 1 by omega]
  · rw [show w - 1 + i = w - 1 by omega]
  · rfl

theorem sshiftRight_count (x : BitVec w) (hw : w ≤ 256) (c : Nat) :
    x.sshiftRight (if c > 255 then 256 else c) = x.sshiftRight c := by
  split_ifs with hc
  · rw [sshiftRight_signs (show w - 1 ≤ 256 by omega), sshiftRight_signs (show w - 1 ≤ c by omega)]
  · rfl

theorem psllw_eq (x : U16) (c : Nat) : psllw x c = .ok (x <<< c) := by
  unfold psllw
  split_ifs with hc
  · rw [BitVec.shiftLeft_eq_zero (by omega)]
    rfl
  · have hx : x.toNat * 2 ^ c < 2 ^ 16 * 2 ^ 15 :=
      Nat.mul_lt_mul_of_lt_of_le x.isLt (Nat.pow_le_pow_right (by decide) (by omega)) (by decide)
    have hcast : (x.toNat : Int) * 2 ^ c = (x.toNat * 2 ^ c : Nat) := by push_cast; rfl
    rw [hcast, int32_ok (by omega) (by omega), ok_bind, BitVec.ofInt_natCast]
    refine congrArg Except.ok (BitVec.eq_of_toNat_eq ?_)
    rw [BitVec.toNat_ofNat, BitVec.toNat_shiftLeft, Nat.shiftLeft_eq]

theorem psrlw_eq (x : U16) (c : Nat) : psrlw x c = .ok (x >>> c) := by
  unfold psrlw
  split_ifs with hc
  · rw [BitVec.ushiftRight_eq_zero (by omega)]
    rfl
  · rfl

theorem psraw_eq (x : U16) (c : Nat) : psraw x c = .ok (x.sshiftRight c) := by
  unfold psraw
  split_ifs with hc
  · rw [sshiftRight_signs (show 16 - 1 ≤ c by omega)]
    rfl
  · rfl

theorem pslld_eq (x : U32) (c : Nat) : pslld x c = .ok (x <<< c) := by
  unfold pslld
  split_ifs with hc
  · rw [BitVec.shiftLeft_eq_zero (by omega)]
    rfl
  · rfl

theorem psrld_eq (x : U32) (c : Nat) : psrld x c = .ok (x >>> c) := by
  unfold psrld
  split_ifs with hc
  · rw [BitVec.ushiftRight_eq_zero (by omega)]
    rfl
  · rfl

theorem psrad_eq (x : U32) (c : Nat) : psrad x c = .ok (x.sshiftRight c) := by
  unfold psrad
  split_ifs with hc
  · rw [sshiftRight_signs (show 32 - 1 ≤ c by omega)]
    rfl
  · rfl

theorem psllq_eq (x : U64) (c : Nat) : psllq x c = .ok (x <<< c) := by
  unfold psllq
  split_ifs with hc
  · rw [BitVec.shiftLeft_eq_zero (by omega)]
    rfl
  · rfl

theorem psrlq_eq (x : U64) (c : Nat) : psrlq x c = .ok (x >>> c) := by
  unfold psrlq
  split_ifs with hc
  · rw [BitVec.ushiftRight_eq_zero (by omega)]
    rfl
  · rfl

end Shifts

/-! ## Multiply-add, sum of differences, and the unsigned product -/

section Combined

variable {a b : Vec} {i : Nat}

theorem u16_pair (v : Vec) (i : Nat) : v.u16 (i * 2) = lane 16 (lane 32 v.b i) 0 ∧
    v.u16 (i * 2 + 1) = lane 16 (lane 32 v.b i) 1 := by
  unfold Vec.u16
  rw [lane_lane (W := 32) (c := 2) rfl (by decide), lane_lane (W := 32) (c := 2) rfl (by decide),
    Nat.mul_comm i 2]
  exact ⟨rfl, rfl⟩

theorem pmaddwdLane_eq (hne : ¬ ((a.u16 (i * 2)).toInt = -32768 ∧ (b.u16 (i * 2)).toInt = -32768 ∧
    (a.u16 (i * 2 + 1)).toInt = -32768 ∧ (b.u16 (i * 2 + 1)).toInt = -32768)) :
    pmaddwdLane a b i = .ok (BitVec.ofInt 32 (dotProduct (lane 32 a.b i) (lane 32 b.b i))) := by
  obtain ⟨hlo, hhi, htop⟩ := product_bounds (a.u16 (i * 2)) (b.u16 (i * 2))
  obtain ⟨hlo', hhi', htop'⟩ := product_bounds (a.u16 (i * 2 + 1)) (b.u16 (i * 2 + 1))
  unfold pmaddwdLane
  rw [int32_product, ok_bind, int32_product, ok_bind, int32_ok (by omega) ?_, ok_bind]
  · unfold dotProduct
    rw [(u16_pair a i).1, (u16_pair a i).2, (u16_pair b i).1, (u16_pair b i).2]
    rfl
  · by_contra hge
    -- both products are the greatest one
    have h1 := htop.mp (by omega)
    have h2 := htop'.mp (by omega)
    exact hne ⟨h1.1, h1.2, h2.1, h2.2⟩

theorem pmaddwdLane_overflow (h1 : (a.u16 (i * 2)).toInt = -32768)
    (h2 : (b.u16 (i * 2)).toInt = -32768) (h3 : (a.u16 (i * 2 + 1)).toInt = -32768)
    (h4 : (b.u16 (i * 2 + 1)).toInt = -32768) :
    pmaddwdLane a b i = .error .signedOverflow := by
  unfold pmaddwdLane
  rw [int32_product, ok_bind, int32_product, ok_bind, h1, h2, h3, h4]
  rfl

theorem foldl_add_ofNat (n : Nat → Nat) (s : U32) (l : List Nat) :
    l.foldl (fun s k => s + BitVec.ofNat 32 (n k)) s = s + BitVec.ofNat 32 (l.map n).sum := by
  induction l generalizing s with
  | nil => simp
  | cons k l ih =>
    rw [List.foldl_cons, ih, List.map_cons, List.sum_cons, BitVec.ofNat_add, BitVec.add_assoc]

/-- One absolute difference. -/
theorem difference_eq (x y : U8) (s : U32) :
    (do let d ← int32 (x.toNat - y.toNat)
        return s + BitVec.ofInt 32 (← if d < 0 then int32 (-d) else pure d) :
          Except IntStop U32) = .ok (s + BitVec.ofNat 32 ((x.toNat - y.toNat : Int).natAbs)) := by
  have hx := x.isLt
  have hy := y.isLt
  rw [int32_ok (by omega) (by omega), ok_bind]
  split_ifs with hneg
  · rw [int32_ok (by omega) (by omega), ok_bind, ← BitVec.ofInt_natCast,
      Int.ofNat_natAbs_of_nonpos hneg.le]
    rfl
  · rw [← BitVec.ofInt_natCast, Int.natAbs_of_nonneg (Int.not_lt.mp hneg)]
    rfl

theorem psadbwLane_eq : psadbwLane a b i =
    .ok (BitVec.ofNat 64 (absoluteDifferences (lane 64 a.b i) (lane 64 b.b i))) := by
  let n (k : Nat) : Nat := ((a.u8 (i * 8 + k)).toNat - (b.u8 (i * 8 + k)).toNat : Int).natAbs
  have hbyte (v : Vec) (k : Nat) (hk : k < 8) : v.u8 (i * 8 + k) = lane 8 (lane 64 v.b i) k := by
    rw [lane_lane (W := 64) (c := 8) rfl hk, Nat.mul_comm 8 i]
    rfl
  have hsum : ((List.range 8).map n).sum =
      absoluteDifferences (lane 64 a.b i) (lane 64 b.b i) := by
    unfold absoluteDifferences
    congr 1
    refine List.map_congr_left fun k hk => ?_
    rw [List.mem_range] at hk
    simp only [n, hbyte a k hk, hbyte b k hk]
  have hbound : ((List.range 8).map n).sum ≤ 8 * 255 := by
    refine (List.sum_le_card_nsmul _ 255 fun m hm => ?_).trans (by simp)
    obtain ⟨k, -, rfl⟩ := List.mem_map.mp hm
    have hx := (a.u8 (i * 8 + k)).isLt
    have hy := (b.u8 (i * 8 + k)).isLt
    simp only [n]
    omega
  unfold psadbwLane
  simp only [difference_eq]
  change (List.foldlM (fun s k => pure (s + BitVec.ofNat 32 (n k))) (0 : U32) (List.range 8) >>=
    fun sum : U32 => (pure (sum.setWidth 64) : Except IntStop U64)) = _
  rw [List.foldlM_pure, foldl_add_ofNat, hsum]
  refine congrArg Except.ok (BitVec.eq_of_toNat_eq ?_)
  rw [hsum] at hbound
  simp only [BitVec.ofNat_eq_ofNat, BitVec.zero_add, BitVec.toNat_setWidth, BitVec.toNat_ofNat]
  omega

theorem pmuludqLane_eq : pmuludqLane a b i =
    .ok (BitVec.ofNat 64 (lowProduct (lane 64 a.b i) (lane 64 b.b i))) := by
  have hlow (v : Vec) : v.u32 (i * 2) = lane 32 (lane 64 v.b i) 0 := by
    unfold Vec.u32
    rw [lane_lane (W := 64) (c := 2) rfl (by decide), Nat.mul_comm i 2]
    rfl
  unfold pmuludqLane lowProduct
  rw [hlow, hlow]
  refine congrArg Except.ok (BitVec.eq_of_toNat_eq ?_)
  generalize lane 32 (lane 64 a.b i) 0 = x
  generalize lane 32 (lane 64 b.b i) 0 = y
  rw [BitVec.toNat_mul, BitVec.toNat_setWidth, BitVec.toNat_setWidth, BitVec.toNat_ofNat,
    Nat.mod_eq_of_lt (show x.toNat < 2 ^ 64 by omega),
    Nat.mod_eq_of_lt (show y.toNat < 2 ^ 64 by omega)]

end Combined

/-! ## Every lane -/

section Whole

variable {a b : Vec} {imm : U8} {w n : Nat}

theorem lanes_ok {f : Nat → Except IntStop (BitVec w)} {g : Nat → BitVec w}
    (hroom : w * n ≤ 128) (hcount : 8 * a.bytes / w ≤ n) (hf : ∀ i < n, f i = .ok (g i)) :
    ∃ out, likeFirst a (forLanes n f 0) = .ok out ∧ Elements w a.bytes g out := by
  obtain ⟨r, hr, hlanes⟩ := forLanes_ok (v := (0 : BitVec 128)) hroom hf
  refine ⟨⟨r, a.bytes⟩, ?_, rfl, fun j hj => hlanes j (lt_of_lt_of_le hj hcount)⟩
  unfold likeFirst
  rw [hr]
  rfl

variable (hn : a.bytes = 8 ∨ a.bytes = 16)

include hn

theorem byteLanes_ok {f : U8 → U8 → Except IntStop U8} {g : U8 → U8 → U8}
    (hf : ∀ x y, f x y = .ok (g x y)) : ∃ out, byteLanes a b f = .ok out ∧ Each 8 g a b out :=
  lanes_ok (by omega) (by omega) fun _ _ => hf _ _

theorem bitwise_ok (f : U8 → U8 → U8) : ∃ out, bitwise a b f = .ok out ∧ Each 8 f a b out :=
  lanes_ok (by omega) (by omega) fun _ _ => rfl

theorem wordLanes_ok {f : U16 → U16 → Except IntStop U16} {g : U16 → U16 → U16}
    (hf : ∀ x y, f x y = .ok (g x y)) : ∃ out, wordLanes a b f = .ok out ∧ Each 16 g a b out :=
  lanes_ok (by omega) (by omega) fun _ _ => hf _ _

theorem dwordLanes_ok {f : U32 → U32 → Except IntStop U32} {g : U32 → U32 → U32}
    (hf : ∀ x y, f x y = .ok (g x y)) : ∃ out, dwordLanes a b f = .ok out ∧ Each 32 g a b out :=
  lanes_ok (by omega) (by omega) fun _ _ => hf _ _

theorem qwordLanes_ok {f : U64 → U64 → Except IntStop U64} {g : U64 → U64 → U64}
    (hf : ∀ x y, f x y = .ok (g x y)) : ∃ out, qwordLanes a b f = .ok out ∧ Each 64 g a b out :=
  lanes_ok (by omega) (by omega) fun _ _ => hf _ _

theorem wordShift_ok {f : U16 → Nat → Except IntStop U16} {g : U16 → Nat → U16}
    (hf : ∀ x c, f x c = .ok (g x c)) (hg : ∀ x c, g x (if c > 255 then 256 else c) = g x c) :
    ∃ out, wordShift a b f = .ok out ∧ EachShifted 16 g a b out :=
  lanes_ok (by omega) (by omega) fun _ _ => by rw [hf, shiftCount_eq, hg]; rfl

theorem dwordShift_ok {f : U32 → Nat → Except IntStop U32} {g : U32 → Nat → U32}
    (hf : ∀ x c, f x c = .ok (g x c)) (hg : ∀ x c, g x (if c > 255 then 256 else c) = g x c) :
    ∃ out, dwordShift a b f = .ok out ∧ EachShifted 32 g a b out :=
  lanes_ok (by omega) (by omega) fun _ _ => by rw [hf, shiftCount_eq, hg]; rfl

theorem qwordShift_ok {f : U64 → Nat → Except IntStop U64} {g : U64 → Nat → U64}
    (hf : ∀ x c, f x c = .ok (g x c)) (hg : ∀ x c, g x (if c > 255 then 256 else c) = g x c) :
    ∃ out, qwordShift a b f = .ok out ∧ EachShifted 64 g a b out :=
  lanes_ok (by omega) (by omega) fun _ _ => by rw [hf, shiftCount_eq, hg]; rfl

theorem psadbw_ok : ∃ out, psadbw a b = .ok out ∧
    Each 64 (fun x y => BitVec.ofNat 64 (absoluteDifferences x y)) a b out :=
  lanes_ok (by omega) (by omega) fun _ _ => psadbwLane_eq

theorem pmuludq_ok : ∃ out, pmuludq a b = .ok out ∧
    Each 64 (fun x y => BitVec.ofNat 64 (lowProduct x y)) a b out :=
  lanes_ok (by omega) (by omega) fun _ _ => pmuludqLane_eq

theorem pmaddwd_iff : (∃ out, pmaddwd a b = .ok out ∧
    Each 32 (fun x y => BitVec.ofInt 32 (dotProduct x y)) a b out) ↔ ¬ MostNegative a b := by
  constructor
  · rintro ⟨out, hrun, -⟩ ⟨i, hi, h1, h2, h3, h4⟩
    obtain ⟨e, he⟩ := forLanes_error (v := (0 : BitVec 128)) hi (pmaddwdLane_overflow h1 h2 h3 h4)
    unfold pmaddwd likeFirst at hrun
    rw [he] at hrun
    cases hrun
  · intro hnone
    exact lanes_ok (by omega) (by omega) fun i hi =>
      pmaddwdLane_eq fun h => hnone ⟨i, hi, h⟩

theorem lanewise_of_ne {op : SimdOp} (hop : op ∈ arithmetic) (hne : op ≠ .pmaddwd) :
    ∃ out, simdInt a b imm op = .ok out ∧ Lanewise op a b out := by
  simp only [arithmetic, List.mem_cons, List.not_mem_nil, or_false] at hop
  rcases hop with rfl | rfl | rfl | rfl | rfl | rfl | rfl | rfl | rfl | rfl | rfl | rfl | rfl |
    rfl | rfl | rfl | rfl | rfl | rfl | rfl | rfl | rfl | rfl | rfl | rfl | rfl | rfl | rfl |
    rfl | rfl | rfl | rfl | rfl | rfl | rfl | rfl | rfl | rfl | rfl | rfl | rfl | rfl | rfl |
    rfl | rfl | rfl
  · exact bitwise_ok hn fun x y => x &&& y
  · exact bitwise_ok hn fun x y => ~~~x &&& y
  · exact bitwise_ok hn fun x y => x ||| y
  · exact bitwise_ok hn fun x y => x ^^^ y
  · exact byteLanes_ok hn (addWrapped_eq (by decide))
  · exact wordLanes_ok hn (addWrapped_eq (by decide))
  · exact dwordLanes_ok hn fun _ _ => rfl
  · exact qwordLanes_ok hn fun _ _ => rfl
  · exact byteLanes_ok hn (subWrapped_eq (by decide))
  · exact wordLanes_ok hn (subWrapped_eq (by decide))
  · exact dwordLanes_ok hn fun _ _ => rfl
  · exact qwordLanes_ok hn fun _ _ => rfl
  · exact byteLanes_ok hn (addSigned_eq satS8_eq (by decide))
  · exact wordLanes_ok hn (addSigned_eq satS16_eq (by decide))
  · exact byteLanes_ok hn (subSigned_eq satS8_eq (by decide))
  · exact wordLanes_ok hn (subSigned_eq satS16_eq (by decide))
  · exact byteLanes_ok hn (addUnsigned_eq satU8_eq (by decide))
  · exact wordLanes_ok hn (addUnsigned_eq satU16_eq (by decide))
  · exact byteLanes_ok hn (subUnsigned_eq satU8_eq (by decide))
  · exact wordLanes_ok hn (subUnsigned_eq satU16_eq (by decide))
  · exact byteLanes_ok hn equalMask_eq
  · exact wordLanes_ok hn equalMask_eq
  · exact dwordLanes_ok hn pcmpeqd_eq
  · exact byteLanes_ok hn greaterMask_eq
  · exact wordLanes_ok hn greaterMask_eq
  · exact dwordLanes_ok hn pcmpgtd_eq
  · exact byteLanes_ok hn (average_eq (by decide))
  · exact wordLanes_ok hn (average_eq (by decide))
  · exact byteLanes_ok hn pminub_eq
  · exact byteLanes_ok hn pmaxub_eq
  · exact wordLanes_ok hn pminsw_eq
  · exact wordLanes_ok hn pmaxsw_eq
  · exact wordLanes_ok hn pmullw_eq
  · exact wordLanes_ok hn pmulhw_eq
  · exact wordLanes_ok hn pmulhuw_eq
  · exact pmuludq_ok hn
  · exact absurd rfl hne
  · exact psadbw_ok hn
  · exact wordShift_ok hn psllw_eq fun x => shiftLeft_count x (by decide)
  · exact dwordShift_ok hn pslld_eq fun x => shiftLeft_count x (by decide)
  · exact qwordShift_ok hn psllq_eq fun x => shiftLeft_count x (by decide)
  · exact wordShift_ok hn psrlw_eq fun x => ushiftRight_count x (by decide)
  · exact dwordShift_ok hn psrld_eq fun x => ushiftRight_count x (by decide)
  · exact qwordShift_ok hn psrlq_eq fun x => ushiftRight_count x (by decide)
  · exact wordShift_ok hn psraw_eq fun x => sshiftRight_count x (by decide)
  · exact dwordShift_ok hn psrad_eq fun x => sshiftRight_count x (by decide)

/-- Every lane is the function of its name of the same lanes, and every sum on the way is one
that C defines, except PMADDWD of a lane whose four words are all -32768. -/
theorem arithmetic_exact {op : SimdOp} (hop : op ∈ arithmetic) (imm : U8) :
    (∃ out, simdInt a b imm op = .ok out ∧ Lanewise op a b out) ↔
      ¬ (op = .pmaddwd ∧ MostNegative a b) := by
  by_cases hop' : op = .pmaddwd
  · subst hop'
    exact (pmaddwd_iff hn).trans (by simp)
  · exact iff_of_true (lanewise_of_ne hn hop hop') fun h => hop' h.1

end Whole

/-- Words of -32768. -/
def lowest : Vec := ⟨0x80008000800080008000800080008000, 16⟩

theorem lowest_sum : ∃ out, simdInt lowest lowest 0 .paddsw = .ok out ∧
    Lanewise .paddsw lowest lowest out :=
  (arithmetic_exact (.inr rfl) (by decide) 0).mpr fun h => absurd h.1 (by decide)

/-- C leaves the sum of the two products undefined. -/
theorem lowest_pmaddwd : ¬ ∃ out, simdInt lowest lowest 0 .pmaddwd = .ok out ∧
    Lanewise .pmaddwd lowest lowest out := fun h =>
  (pmaddwd_iff (.inr rfl)).mp h ⟨0, by decide, by decide, by decide, by decide, by decide⟩

end X86Port.Simd
