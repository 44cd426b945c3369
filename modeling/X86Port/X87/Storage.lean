import X86Port.Lib.InterchangeOrder
import X86Port.X87.AddSub
import X86Port.X87.Binary128
import X86Port.X87.DoubleArith
import X86Port.X87.Multiply

/-!
# The two storages of the unit

A host whose `long double` is the ten-byte encoding keeps the registers in it and computes on its
own unit. Elsewhere the registers are the significand and the sign with the exponent, the
`long double` is a binary128, and the routines are software behind the exact reassembly.

* `Ext80.number`, `F128.number`: what the values of the two types stand for.
* `HostUnit`, `SoftFloat`: the code that the two storages call and that is not part of the unit.
* `FloatHost.native`, `FloatHost.pair`: the two hosts; `Storage` is either of them.
-/

namespace X86Port.X87

open Lib.Rounding

/-! ## Numbers -/

namespace Ext80

/-- What an encoding stands for, and nothing for a NaN or an encoding that the unit refuses. -/
def number (v : Ext80) : Option Line :=
  if v.exponent = 0x7FFF then
    if v.signif = ext80IntegerBit then some (.infinity v.negative) else none
  else if v.exponent ≠ 0 ∧ v.integerBit = false then none
  else some (.finite v.value)

def flipSign (v : Ext80) : Ext80 := ⟨v.signif, v.signExp ^^^ ext80SignBit⟩

def clearSign (v : Ext80) : Ext80 := ⟨v.signif, v.signExp &&& ext80ExpMask⟩

def classify (v : Ext80) : FpClass :=
  match v.number with
  | none => .nan
  | some _ =>
    if v.exponent = 0x7FFF then .infinite
    else if v.signif = 0 then .zero
    else if v.exponent = 0 then .subnormal
    else .normal

end Ext80

def binary128 : Format := ⟨112, 15, by decide, by decide⟩

namespace F128

def pattern (v : F128) : ℕ := v.hi.toNat * 2 ^ 64 + v.lo.toNat

def number (v : F128) : Option Line := binary128.number v.pattern

def exponent (v : F128) : U32 := ((v.hi >>> 48).setWidth 32) &&& f128ExpMask

def mantissaIsZero (v : F128) : Bool := v.lo = 0 ∧ v.hi &&& f128HiMantMask = 0

/-- `x86p_f128_is_zero`. -/
def isZero (v : F128) : Bool := v.exponent = 0 && v.mantissaIsZero

/-- `x86p_f128_is_nan`. -/
def isNan (v : F128) : Bool := v.exponent = f128ExpMask && !v.mantissaIsZero

def negative (v : F128) : Bool := v.hi &&& f128SignBit ≠ 0

/-- `x86p_f128_compare`, of two values that are no NaNs. -/
def compare (a b : F128) : Ordering :=
  if a.isZero ∧ b.isZero then .eq
  else if a.negative ≠ b.negative then if a.negative then .lt else .gt
  else if a.hi ≠ b.hi then if decide (b.hi < a.hi) ≠ a.negative then .gt else .lt
  else if a.lo = b.lo then .eq
  else if decide (b.lo < a.lo) ≠ a.negative then .gt else .lt

def flipSign (v : F128) : F128 := ⟨v.lo, v.hi ^^^ f128SignBit⟩

def clearSign (v : F128) : F128 := ⟨v.lo, v.hi &&& ~~~f128SignBit⟩

def classify (v : F128) : FpClass :=
  if v.isNan then .nan
  else if v.exponent = f128ExpMask then .infinite
  else if v.isZero then .zero
  else if v.exponent = 0 then .subnormal
  else .normal

end F128

/-- An operator of the language on two numbers, which a NaN makes false. -/
def onNumbers {L : Type} (number : L → Option Line) (p : Line → Line → Bool) (x y : L) : Bool :=
  match number x, number y with
  | some a, some b => p a b
  | _, _ => false

/-- The order that a comparison finds. -/
def orderOf {L : Type} (number : L → Option Line) (x y : L) : Option Ordering :=
  match number x, number y with
  | some a, some b => some (cmp a b)
  | _, _ => none

/-! ## A host with the ten-byte type -/

/-- The x87 unit of such a host, behind assembly and the conversions of the compiler. -/
structure HostUnit where
  constant : X87Const → Ext80
  widenF32 : U32 → Ext80
  widenF64 : U64 → Ext80
  narrowF32 : U16 → Ext80 → U32
  narrowF64 : U16 → Ext80 → U64
  arith : U16 → X87Op → Ext80 → Ext80 → Ext80
  fn : X87Fn → U16 → Ext80 → Ext80 → Option (FnResult Ext80)

namespace FloatHost

/-- The registers are the type. No status of the host reaches the unit. -/
def native (U : HostUnit) : FloatHost Ext80 where
  longOf v := v
  regOf v := v
  zero := ⟨0, 0⟩
  isNan v := v.number.isNone
  lt := onNumbers Ext80.number fun a b => decide (a < b)
  eq := onNumbers Ext80.number fun a b => decide (a = b)
  neg := Ext80.flipSign
  abs := Ext80.clearSign
  signbit := Ext80.negative
  classify := Ext80.classify
  order := orderOf Ext80.number
  constant c _ := U.constant c
  regOfF32 := U.widenF32
  regOfF64 := U.widenF64
  f32OfReg := U.narrowF32
  f64OfReg := U.narrowF64
  dividesByZero x y :=
    onNumbers Ext80.number (fun a b => decide (a = b)) y ⟨0, 0⟩ &&
      !onNumbers Ext80.number (fun a b => decide (a = b)) x ⟨0, 0⟩ && x.number.isSome
  arith control _ op x y := (U.arith control op x y, 0)
  arith_sf _ _ _ _ _ := by simp
  fn := U.fn
  doubleFn _ _ _ _ := none
  copiesExceptions := false

end FloatHost

/-! ## A host with binary128 -/

/-- The software routines behind the pair. They report exceptions and the direction of a rounding,
never a stack fault. -/
structure SoftFloat where
  toF128 : Ext80 → F128
  toExt80 : F128 → Ext80
  constant : X87Const → U16 → Ext80
  narrowF32 : U16 → Ext80 → U32
  narrowF64 : U16 → Ext80 → U64
  arith : U16 → X87Op → Ext80 → Ext80 → Ext80 × U16
  arith_sf : ∀ control op x y, (arith control op x y).2 &&& x87Sf = 0
  fn : X87Fn → U16 → Ext80 → Ext80 → Option (FnResult Ext80)

namespace SoftFloat

variable (S : SoftFloat)

/-- `narrow`: the value of a register as a `long double`. -/
def narrow (value : Ext80) : F128 :=
  match ext80ToF128Exact value (some ⟨0, 0⟩) with
  | (true, some exact) => exact
  | _ => S.toF128 value

/-- `widen`: the register of a `long double`. -/
def widen (value : F128) : Ext80 :=
  match f128ToExt80Exact (some value) (some ⟨0, 0⟩) with
  | (true, some exact) => exact
  | _ => S.toExt80 value

/-- What an ordinary operation answered, with the status bits it raised. -/
def answered : Outcome → Option (Ext80 × U16)
  | (true, some r, some raised) => some (r, raised)
  | _ => none

/-- The answer of the binary64 mode. -/
def doubleAnswer (B : Binary64) (control : U16) (op : X87Op) (x y : Ext80) : Option Ext80 :=
  match B.ext80DoubleArith control op x y (some ⟨0, 0⟩) with
  | (true, some r) => some r
  | _ => none

/-- The ordinary cases of an operation that does not divide by zero. -/
def ordinaryArith (B : Binary64) (control : U16) (mode : U8) (op : X87Op) (x y : Ext80) :
    Option (Ext80 × U16) :=
  match if mode ≠ 0 then doubleAnswer B control op x y else none with
  | some r => some (r, 0)
  | none =>
    match op with
    | .mul => answered (ext80MulOrdinary control x y (some ⟨0, 0⟩) (some 0))
    | .add => (ext80AddOrdinary control x y false (some ⟨0, 0⟩) (some 0)).bind answered
    | .sub => (ext80AddOrdinary control x y true (some ⟨0, 0⟩) (some 0)).bind answered
    | .div => none

def regIsNan (v : Ext80) : Bool := v.signExp &&& ext80ExpMask = 0x7FFF#16 ∧ v.signif <<< 1 ≠ 0

def dividesByZero (x y : Ext80) : Bool := ext80IsZero y && !ext80IsZero x && !regIsNan x

def pairArith (B : Binary64) (control : U16) (mode : U8) (op : X87Op) (x y : Ext80) :
    Ext80 × U16 :=
  if op = .div ∧ dividesByZero x y then S.arith control op x y
  else (ordinaryArith B control mode op x y).getD (S.arith control op x y)

theorem sf_of_raised {raised : U16} (h : raised &&& ~~~(kInexact ||| kRoundedUp) = 0) :
    raised &&& x87Sf = 0 := by
  have hsub : ~~~(kInexact ||| kRoundedUp) &&& x87Sf = x87Sf := by decide
  rw [← hsub, ← BitVec.and_assoc, h]
  exact BitVec.zero_and

theorem answered_sf {q : ℚ} {negative : Bool} {result : Outcome} {answer : Ext80 × U16}
    (hanswers : result.1 = true → Answers q negative 0 result) (h : answered result = some answer) :
    answer.2 &&& x87Sf = 0 := by
  have hdone : result.1 = true := by
    rcases result with ⟨_ | _, r, f⟩
    · cases h
    · rfl
  obtain ⟨z, raised, rfl, -, -, -, hraised, -⟩ := hanswers hdone
  rw [← Option.some_inj.1 h]
  change (0#16 ||| raised) &&& x87Sf = 0
  rw [BitVec.zero_or]
  exact sf_of_raised hraised

theorem ordinaryArith_sf (B : Binary64) {control : U16} {mode : U8} {op : X87Op} {x y : Ext80}
    {answer : Ext80 × U16} (h : ordinaryArith B control mode op x y = some answer) :
    answer.2 &&& x87Sf = 0 := by
  have hsum (subtract : Bool)
      (hbind : (ext80AddOrdinary control x y subtract (some ⟨0, 0⟩) (some 0)).bind answered =
        some answer) : answer.2 &&& x87Sf = 0 := by
    obtain ⟨result, hresult, -, hanswers, -⟩ :=
      add_correctly_rounded control x y subtract ⟨0, 0⟩ 0
    rw [hresult] at hbind
    exact answered_sf hanswers hbind
  unfold ordinaryArith at h
  cases hdouble : if mode ≠ 0 then doubleAnswer B control op x y else none with
  | some r =>
    rw [hdouble] at h
    rw [← Option.some_inj.1 h]
    exact BitVec.zero_and
  | none =>
    rw [hdouble] at h
    cases op with
    | add => exact hsum false h
    | sub => exact hsum true h
    | mul => exact answered_sf (mul_correctly_rounded control x y ⟨0, 0⟩ 0).2.1 h
    | div => cases h

theorem pairArith_sf (B : Binary64) (control : U16) (mode : U8) (op : X87Op) (x y : Ext80) :
    (S.pairArith B control mode op x y).2 &&& x87Sf = 0 := by
  rw [pairArith]
  split
  · exact S.arith_sf _ _ _ _
  · cases h : ordinaryArith B control mode op x y with
    | none => exact S.arith_sf _ _ _ _
    | some answer => exact ordinaryArith_sf B h

def narrowOrdinary (control : U16) (v : Ext80) (width : ℕ) : Option U64 :=
  if control &&& x87RcMask = x87RcNearest then
    match ext80NarrowNearest v width (some 0) with
    | (true, some bits) => some bits
    | _ => none
  else none

/-- `x86p_x87_fn_software_control`: the operands and the results cross as a `long double`. -/
def softwareFn (fn : X87Fn) (control : U16) (a b : F128) : Option (FnResult F128) :=
  (S.fn fn control (S.widen a) (S.widen b)).map fun r =>
    ⟨S.narrow r.r0, if r.pushed then S.narrow r.r1 else ⟨0, 0⟩, r.pushed, r.sw⟩

end SoftFloat

namespace FloatHost

/-- The host behind the pair of a significand and a sign with the exponent. -/
def pair (S : SoftFloat) (B : Binary64) : FloatHost F128 where
  longOf := S.narrow
  regOf := S.widen
  zero := ⟨0, 0⟩
  isNan := F128.isNan
  lt := onNumbers F128.number fun a b => decide (a < b)
  eq := onNumbers F128.number fun a b => decide (a = b)
  neg := F128.flipSign
  abs := F128.clearSign
  signbit := F128.negative
  classify := F128.classify
  order x y := if x.isNan || y.isNan then none else some (F128.compare x y)
  constant c control := S.narrow (S.constant c control)
  regOfF32 bits := (ext80FromF32Bits bits).getD ⟨0, 0⟩
  regOfF64 bits := (ext80FromF64Bits bits).getD ⟨0, 0⟩
  f32OfReg control v :=
    ((SoftFloat.narrowOrdinary control v 4).map (·.setWidth 32)).getD (S.narrowF32 control v)
  f64OfReg control v := (SoftFloat.narrowOrdinary control v 8).getD (S.narrowF64 control v)
  dividesByZero := SoftFloat.dividesByZero
  arith := S.pairArith B
  arith_sf := S.pairArith_sf B
  fn := S.softwareFn
  doubleFn := B.doubleFn
  copiesExceptions := true

end FloatHost

/-- The supported storages, with the type their values are computed in. -/
inductive Storage : (L : Type) → FloatHost L → Type 1 where
  | native (U : HostUnit) : Storage Ext80 (.native U)
  | pair (S : SoftFloat) (B : Binary64) : Storage F128 (.pair S B)

end X86Port.X87
