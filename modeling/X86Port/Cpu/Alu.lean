import Mathlib.Logic.Function.Iterate
import X86Port.Cpu.Flags

/-!
# The integer ALU

`alu.c`: what an operation produces and what it does to the flags, in one call.
-/

namespace X86Port.Cpu

inductive AluOp where
  | add
  | or
  | adc
  | sbb
  | and
  | sub
  | xor
  | cmp
  | test
  | shl
  | shr
  | sar
  | rol
  | ror
  | rcl
  | rcr
deriving DecidableEq

inductive AluUnOp where
  | not
  | neg
  | inc
  | dec
deriving DecidableEq

/-- The current flags are materialised, the two bits replaced and the word stored. -/
def setCfOfOnly (f : Flags) (cf of : Bool) : Flags :=
  flagsSetExplicit
    (eflags f &&& ~~~(flagCF ||| flagOF) ||| flagIf cf flagCF ||| flagIf of flagOF)

/-- The carry as the word `1` or `0`. -/
def carryWord (f : Flags) : U32 := if flagCf f then 1 else 0

/-- One round of the loop of RCL: the operand and the carry, as words. -/
def rclStep (w : Width) (s : U32 × U32) : U32 × U32 :=
  ((s.1 <<< 1 ||| s.2) &&& widthMask w, s.1 >>> (w.bits - 1) &&& 1#32)

/-- One round of the loop of RCR. -/
def rcrStep (w : Width) (s : U32 × U32) : U32 × U32 :=
  ((s.1 >>> 1 ||| s.2 <<< (w.bits - 1)) &&& widthMask w, s.1 &&& 1#32)

def alu (op : AluOp) (a b : U32) (w : Width) (f : Flags) : Option (U32 × Flags) :=
  let m := widthMask w
  let nbits := w.bits
  let a := a &&& m
  let b := b &&& m
  match op with
  | .add =>
    let r := (a + b) &&& m
    (flagsSet f .add a b r w).map fun f' => (r, f')
  | .sub | .cmp =>
    let r := (a - b) &&& m
    (flagsSet f .sub a b r w).map fun f' => (r, f')
  | .or =>
    let r := (a ||| b) &&& m
    (flagsSet f .logic a b r w).map fun f' => (r, f')
  | .and | .test =>
    let r := (a &&& b) &&& m
    (flagsSet f .logic a b r w).map fun f' => (r, f')
  | .xor =>
    let r := (a ^^^ b) &&& m
    (flagsSet f .logic a b r w).map fun f' => (r, f')
  | .adc =>
    let cin := carryWord f
    let r := (a + b + cin) &&& m
    some (r, flagsSetExplicit (flagsAdc a b cin r w))
  | .sbb =>
    let cin := carryWord f
    let r := (a - b - cin) &&& m
    some (r, flagsSetExplicit (flagsSbb a b cin r w))
  | .shl =>
    let count := b &&& 0x1F#32
    if count = 0 then some (a, f)
    else
      let r := if count.toNat ≥ nbits then 0 else (a <<< count.toNat) &&& m
      (flagsSet f .shl a count r w).map fun f' => (r, f')
  | .shr =>
    let count := b &&& 0x1F#32
    if count = 0 then some (a, f)
    else
      let r := if count.toNat ≥ nbits then 0 else (a >>> count.toNat) &&& m
      (flagsSet f .shr a count r w).map fun f' => (r, f')
  | .sar =>
    let count := b &&& 0x1F#32
    if count = 0 then some (a, f)
    else
      let sign := bit a (nbits - 1)
      let r :=
        if count.toNat ≥ nbits then (if sign then m else 0)
        else
          (a >>> count.toNat) &&& m |||
            (if sign then (m <<< (nbits - count.toNat)) &&& m else 0)
      (flagsSet f .sar a count r w).map fun f' => (r, f')
  | .rol =>
    if b &&& 0x1F#32 = 0 then some (a, f)
    else
      let count := (b &&& 0x1F#32).toNat % nbits
      let r := if count = 0 then a else (a <<< count ||| a >>> (nbits - count)) &&& m
      let cf := bit r 0
      some (r, setCfOfOnly f cf (bit r (nbits - 1) ^^ cf))
  | .ror =>
    if b &&& 0x1F#32 = 0 then some (a, f)
    else
      let count := (b &&& 0x1F#32).toNat % nbits
      let r := if count = 0 then a else (a >>> count ||| a <<< (nbits - count)) &&& m
      let cf := bit r (nbits - 1)
      some (r, setCfOfOnly f cf (bit r (nbits - 1) ^^ bit r (nbits - 2)))
  | .rcl =>
    if b &&& 0x1F#32 = 0 then some (a, f)
    else
      let count := (b &&& 0x1F#32).toNat % (nbits + 1)
      let (r, cf) := (rclStep w)^[count] (a, carryWord f)
      some (r, setCfOfOnly f (decide (cf ≠ 0)) (bit r (nbits - 1) ^^ decide (cf ≠ 0)))
  | .rcr =>
    if b &&& 0x1F#32 = 0 then some (a, f)
    else
      let count := (b &&& 0x1F#32).toNat % (nbits + 1)
      let (r, cf) := (rcrStep w)^[count] (a, carryWord f)
      some (r, setCfOfOnly f (decide (cf ≠ 0)) (bit r (nbits - 1) ^^ bit r (nbits - 2)))

def aluUnary (op : AluUnOp) (a : U32) (w : Width) (f : Flags) : Option (U32 × Flags) :=
  let m := widthMask w
  let a := a &&& m
  match op with
  | .not => some (~~~a &&& m, f)
  | .neg =>
    let r := (0 - a) &&& m
    (flagsSet f .sub 0 a r w).map fun f' => (r, f')
  | .inc =>
    let r := (a + 1) &&& m
    (flagsSet f .inc a 1 r w).map fun f' => (r, f')
  | .dec =>
    let r := (a - 1) &&& m
    (flagsSet f .dec a 1 r w).map fun f' => (r, f')

end X86Port.Cpu
