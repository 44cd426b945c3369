import X86Port.X87.Integer
import X86Port.X87.RegisterFile

/-!
# What the unit takes from its host

The registers are ten-byte encodings; most instructions see them as the host's `long double` and
put their result back through it. `FloatHost` is that type with the operators of C on it, the
conversions at the edge of the file, and the routines that compute.

* `get`, `set`, `push`: the accessors that go through the host's type.
* `arithRaw`, `compare`, `applyFn`: the operations of `x87.c` and `x87_fn_stack.c`.
-/

namespace X86Port.X87

open Cpu (Flags flagsSetExplicit eflagsFixed flagCF flagPF flagZF)

/-! ## The host -/

inductive X87Op where
  | add
  | sub
  | mul
  | div
  deriving DecidableEq

inductive X87Const where
  | zero
  | one
  | pi
  | log2E
  | log2T
  | ln2
  | log102
  deriving DecidableEq

inductive X87Fn where
  | sqrt
  | sin
  | cos
  | sinCos
  | ptan
  | patan
  | yl2x
  | yl2xp1
  | f2xm1
  | scale
  | rndint
  | xtract
  | prem
  | prem1
  | abs
  | chs
  deriving DecidableEq

/-- The classes of `fpclassify`. -/
inductive FpClass where
  | nan
  | infinite
  | zero
  | subnormal
  | normal
  deriving DecidableEq

/-- What `x86p_x87_fn` writes through its pointers. -/
structure FnResult (L : Type) where
  r0 : L
  r1 : L
  pushed : Bool
  sw : U16

/-- `order` is the order that `x86p_x87_compare` finds, and `none` beside a NaN. `arith` gives the
result of an operation and the status bits that come with it, which never hold SF: a stack fault
is the unit's own. `copiesExceptions` is set where the routines are software. -/
structure FloatHost (L : Type) where
  longOf : Ext80 → L
  regOf : L → Ext80
  zero : L
  isNan : L → Bool
  lt : L → L → Bool
  eq : L → L → Bool
  neg : L → L
  abs : L → L
  signbit : L → Bool
  classify : L → FpClass
  order : L → L → Option Ordering
  constant : X87Const → U16 → L
  regOfF32 : U32 → Ext80
  regOfF64 : U64 → Ext80
  f32OfReg : U16 → Ext80 → U32
  f64OfReg : U16 → Ext80 → U64
  dividesByZero : Ext80 → Ext80 → Bool
  arith : U16 → U8 → X87Op → Ext80 → Ext80 → Ext80 × U16
  arith_sf : ∀ control mode op x y, (arith control mode op x y).2 &&& x87Sf = 0
  fn : X87Fn → U16 → L → L → Option (FnResult L)
  doubleFn : X87Fn → U16 → Ext80 → Ext80 → Option (Ext80 × Ext80)
  copiesExceptions : Bool

namespace FloatHost

variable {L : Type} (H : FloatHost L)

/-! ## The accessors -/

def get (f : Fpu) (i : Fin 8) : Option L := (f.read i).map H.longOf

def set (f : Fpu) (i : Fin 8) (v : L) : Fpu := f.write i (H.regOf v)

def push (f : Fpu) (v : L) : Bool × Fpu := f.pushValue (H.regOf v)

/-- FLD ST(i): the position is read before the push renumbers it. -/
def loadFrom (f : Fpu) (i : Fin 8) : Fpu :=
  match H.get f i with
  | none => f
  | some v => (H.push f v).2

/-- A taken FCMOV. -/
def moveFrom (f : Fpu) (i : Fin 8) : Fpu :=
  match H.get f i with
  | none => f
  | some v => H.set f 0 v

def pushConstant (f : Fpu) (c : X87Const) : Fpu := (H.push f (H.constant c f.control)).2

/-! ## Arithmetic -/

/-- `x86p_x87_arith_raw`. -/
def arithRaw (f : Fpu) (op : X87Op) (dst : Fin 8) (src : Ext80) (reverse : Bool) : Bool × Fpu :=
  match f.read dst with
  | none => (false, f.raise x87StackFault)
  | some a =>
    let x := if reverse then src else a
    let y := if reverse then a else src
    let f := if op = .div ∧ H.dividesByZero x y then f.raise x87Ze else f
    let (r, raised) := H.arith f.control f.doubleArith op x y
    (true, (f.raise raised).write dst r)

/-! ## Comparisons -/

/-- The condition bits of an order. -/
def orderBits : Ordering → U16
  | .lt => x87C0
  | .eq => x87C3
  | .gt => 0

/-- `x86p_x87_compare`. -/
def compare (f : Fpu) (other : L) : Bool × Fpu :=
  match H.get f 0 with
  | none => (false, f.raise x87StackFault)
  | some a =>
    let f := f.lower x87Conditions
    match H.order a other with
    | none => (true, (f.raise (x87C0 ||| x87C2 ||| x87C3)).raise x87Ie)
    | some order => (true, f.raise (orderBits order))

def compareRegister (f : Fpu) (index : Fin 8) (pops : ℕ) : Fpu :=
  match H.get f index with
  | none => f
  | some other => (H.compare f other).2.pops pops

/-- `x86p_x87_test`; the last condition of the source is `!(v > 0)`. -/
def test (f : Fpu) : Fpu :=
  match H.get f 0 with
  | none => f
  | some v =>
    let f := f.lower x87Conditions
    if H.lt v H.zero then f.raise x87C0
    else if H.eq v H.zero then f.raise x87C3
    else if ¬ H.lt H.zero v then f.raise (x87C0 ||| x87C2 ||| x87C3)
    else f

/-- `x86p_x87_compare_flags`. -/
def compareFlags (f : Fpu) (flags : Flags) (index : Fin 8) : Bool × Fpu × Flags :=
  match H.get f 0, H.get f index with
  | some x, some y =>
    let result := if H.isNan x || H.isNan y then eflagsFixed ||| (flagZF ||| flagPF ||| flagCF)
      else if H.lt x y then eflagsFixed ||| flagCF
      else if H.eq x y then eflagsFixed ||| flagZF
      else eflagsFixed
    (true, f.lower x87C1, flagsSetExplicit result)
  | _, _ => (false, f, flags)

def compareFlagsPop (f : Fpu) (flags : Flags) (index : Fin 8) (pops : ℕ) : Fpu × Flags :=
  let (ok, f, flags) := H.compareFlags f flags index
  if ok then (f.pops pops, flags) else (f, flags)

/-! ## Moves inside the file -/

def exchange (f : Fpu) (index : Fin 8) : Fpu :=
  match H.get f 0, H.get f index with
  | some a, some b => H.set (H.set f 0 b) index a
  | _, _ => f

/-- `x86p_x87_sign`. -/
def sign (f : Fpu) (absolute : Bool) : Fpu :=
  match H.get f 0 with
  | none => f
  | some v => H.set f 0 (if absolute then H.abs v else H.neg v)

def classBits : FpClass → U16
  | .nan => x87C0
  | .infinite => x87C2 ||| x87C0
  | .zero => x87C3
  | .subnormal => x87C3 ||| x87C2
  | .normal => x87C2

def examine (f : Fpu) : Fpu :=
  let f := f.lower x87Conditions
  match H.get f 0 with
  | none => f.raise (x87C3 ||| x87C0)
  | some v => (if H.signbit v then f.raise x87C1 else f).raise (classBits (H.classify v))

end FloatHost

/-! ## The function unit -/

namespace X87Fn

/-- The functions that take `ST(1)` too. -/
def twoOperand : X87Fn → Bool
  | patan | yl2x | yl2xp1 | scale | prem | prem1 => true
  | _ => false

/-- The functions that leave one result for both registers. -/
def consumes : X87Fn → Bool
  | patan | yl2x | yl2xp1 => true
  | _ => false

/-- The functions that have a binary64 form. -/
def hasDouble : X87Fn → Bool
  | sqrt | sin | cos | sinCos | ptan | patan => true
  | _ => false

/-- The functions whose binary64 form pushes a second result. -/
def doublePushes : X87Fn → Bool
  | sinCos | ptan => true
  | _ => false

/-- The condition bits a function writes: FSQRT defines only C1. -/
def written : X87Fn → U16
  | sqrt => x87C1
  | _ => x87Conditions

end X87Fn

namespace FloatHost

variable {L : Type} (H : FloatHost L)

/-- The writes of `x86p_x87_double_fn`, in the order `x86p_x87_apply_fn` makes them. -/
def storeDouble (f : Fpu) (fn : X87Fn) (r : Ext80 × Ext80) : Fpu :=
  let f := f.lower fn.written
  let f := (if fn = .patan then f.popValue.2 else f).write 0 r.1
  if fn.doublePushes then (f.pushValue r.2).2 else f

/-- `x86p_x87_double_fn`: `none` where the binary64 form does not answer, which it decides before
it writes. Only FPATAN reads `ST(1)`. -/
def answerDouble (f : Fpu) (fn : X87Fn) : Option Fpu :=
  (f.read 0).bind fun a =>
    if fn.doublePushes ∧ f.tag f.above ≠ tagEmpty then none
    else if ¬ fn.hasDouble then none
    else
      ((if fn = .patan then f.read 1 else some ⟨0, 0⟩).bind fun b =>
        H.doubleFn fn f.control a b).map (storeDouble f fn)

/-- The status that a function leaves. -/
def fnStatus (f : Fpu) (fn : X87Fn) (sw : U16) : Fpu :=
  let f := (f.lower fn.written).raise (sw &&& fn.written)
  if H.copiesExceptions then f.raise (sw &&& x87Exceptions) else f

def storeFn (f : Fpu) (fn : X87Fn) (r : FnResult L) : Fpu :=
  let f := H.fnStatus f fn r.sw
  if fn.consumes then H.set f.popValue.2 0 r.r0
  else
    let f := H.set f 0 r.r0
    if r.pushed then (H.push f r.r1).2 else f

/-- `x86p_x87_apply_fn`: `none` where the host has no such function. -/
def applyFn (f : Fpu) (fn : X87Fn) : Option Fpu :=
  match if f.doubleArith ≠ 0 then H.answerDouble f fn else none with
  | some f => some f
  | none =>
    match H.get f 0, (if fn.twoOperand then H.get f 1 else some H.zero) with
    | some a, some b => (H.fn fn f.control a b).map (H.storeFn f fn)
    | _, _ => some f

end FloatHost

end X86Port.X87
