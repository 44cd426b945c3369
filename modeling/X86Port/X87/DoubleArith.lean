import X86Port.X87.FloatHost
import X86Port.X87.Narrow

/-!
# Arithmetic in the host's binary64

The mode of `x87_double_arith.c` and `x87_double_fn.c`: operands that round to a normal binary64
or to zero are given to the host's own operators, and a result that is neither is refused.
-/

namespace X86Port.X87

open Lib.Rounding

/-- The host's binary64 as patterns: its operators and the functions of its library. -/
structure Binary64 where
  apply : X87Op → U64 → U64 → U64
  sqrt : U64 → U64
  sin : U64 → U64
  cos : U64 → U64
  tan : U64 → U64
  atan2 : U64 → U64 → U64

def x87PcSingle : U16 := 0x0000#16

def doubleControlApplies (control : U16) : Bool :=
  control &&& x87RcMask = x87RcNearest ∧ control &&& x87PcMask ≠ x87PcSingle

def ext80ToDouble (v : Ext80) (out : Option U64) : Bool × Option U64 :=
  ext80NarrowNearest v 8 out

def kF64ExpMax : U64 := 0x7FF#64

/-- `x86p_ext80_of_double`. -/
def ext80OfDouble (bits : U64) (out : Option Ext80) : Bool × Option Ext80 :=
  let exponent := bits >>> 52 &&& kF64ExpMax
  if exponent = kF64ExpMax ∨ (exponent = 0 ∧ bits <<< 1 ≠ 0) then (false, out)
  else if exponent = 0 then (true, some ⟨0, (bits >>> 63).setWidth 16 <<< 15⟩)
  else
    match ext80FromF64Bits bits with
    | some wide => (true, some wide)
    | none => (false, out)

namespace Binary64

variable (B : Binary64)

/-- `x86p_ext80_double_arith`. -/
def ext80DoubleArith (control : U16) (op : X87Op) (x y : Ext80) (out : Option Ext80) :
    Bool × Option Ext80 :=
  if doubleControlApplies control = false then (false, out)
  else
    match ext80ToDouble x (some 0), ext80ToDouble y (some 0) with
    | (true, some a), (true, some b) => ext80OfDouble (B.apply op a b) out
    | _, _ => (false, out)

/-- The exponent of 2^63, the end of the reduction range. -/
def kTrigRange : U64 := 1086#64

def outOfRange (a : U64) : Bool := kTrigRange ≤ (a >>> 52 &&& kF64ExpMax)

/-- A negative number that is not a zero. -/
def belowZero (a : U64) : Bool := a >>> 63 ≠ 0 ∧ a <<< 1 ≠ 0

def one : U64 := 0x3FF0000000000000#64

/-- The values of `x86p_x87_double_fn` before they are put back into the register format. -/
def doubleValues (fn : X87Fn) (a b : U64) : Option (U64 × U64) :=
  match fn with
  | .sqrt => if belowZero a then none else some (B.sqrt a, 0)
  | .sin => if outOfRange a then none else some (B.sin a, 0)
  | .cos => if outOfRange a then none else some (B.cos a, 0)
  | .sinCos => if outOfRange a then none else some (B.sin a, B.cos a)
  | .ptan => if outOfRange a then none else some (B.tan a, one)
  | .patan => some (B.atan2 b a, 0)
  | _ => none

/-- A value of the unit, where the conversion answers. -/
def operand (v : Ext80) : Option U64 :=
  match ext80ToDouble v (some 0) with
  | (true, some a) => some a
  | _ => none

def result (v : U64) : Option Ext80 :=
  match ext80OfDouble v (some ⟨0, 0⟩) with
  | (true, some r) => some r
  | _ => none

/-- `x86p_x87_double_fn` up to its writes. Only FPATAN looks at its second operand. -/
def doubleFn (fn : X87Fn) (control : U16) (a b : Ext80) : Option (Ext80 × Ext80) :=
  if doubleControlApplies control = false then none
  else do
    let x ← operand a
    let y ← if fn = .patan then operand b else some 0
    let values ← B.doubleValues fn x y
    let r0 ← result values.1
    let r1 ← result values.2
    pure (r0, r1)

end Binary64

end X86Port.X87
