import X86Port.Word

/-!
# Lazy EFLAGS

`flags.c`: a flag-writing operation records what it did (kind, operands, result, width)
and each flag is derived when something asks. A fatal diagnostic of the source is `none`.
-/

namespace X86Port.Cpu

/-! ## Operand widths -/

/-- The operand widths of the source, 1, 2 and 4 bytes; another width is a fatal
diagnostic wherever one is recorded. -/
inductive Width where
  | byte
  | word
  | dword
deriving DecidableEq

def Width.bytes : Width → Nat
  | byte => 1
  | word => 2
  | dword => 4

def Width.bits (w : Width) : Nat := w.bytes * 8

def widthMask : Width → U32
  | .byte => 0xFF#32
  | .word => 0xFFFF#32
  | .dword => 0xFFFFFFFF#32

/-- `(v >> i) & 1u`, tested. -/
def bit (v : U32) (i : Nat) : Bool := decide (v >>> i &&& 1#32 ≠ 0#32)

def msb (v : U32) (w : Width) : Bool := bit v (w.bits - 1)

/-! ## The recorded state -/

inductive FlagKind where
  | none
  | add
  | sub
  | logic
  | inc
  | dec
  | shl
  | shr
  | sar
  | explicit
deriving DecidableEq

def FlagKind.isShift : FlagKind → Bool
  | shl | shr | sar => true
  | _ => false

/-- `a` is the first operand, or the EFLAGS word of an explicit kind; `b` the second
operand or the shift count. The kind `none` has recorded no width and reads none. -/
structure Flags where
  a : U32
  b : U32
  r : U32
  kind : FlagKind
  w : Width
  carryIn : U8
deriving DecidableEq

def flagCF : U32 := 1#32 <<< 0
def flagPF : U32 := 1#32 <<< 2
def flagAF : U32 := 1#32 <<< 4
def flagZF : U32 := 1#32 <<< 6
def flagSF : U32 := 1#32 <<< 7
def flagOF : U32 := 1#32 <<< 11

def eflagsFixed : U32 := 0x00000202#32

def arithFlags : U32 := flagCF ||| flagPF ||| flagAF ||| flagZF ||| flagSF ||| flagOF

/-- Bit 0 of the folded byte of `x86p_flag_pf`: even parity of the low byte. -/
def evenParity (r : U32) : Bool :=
  let v := r &&& 0xFF#32
  let v := v ^^^ v >>> 4
  let v := v ^^^ v >>> 2
  let v := v ^^^ v >>> 1
  bit (~~~v) 0

/-- `flag` where `set`, else no bit. -/
def flagIf (set : Bool) (flag : U32) : U32 := if set then flag else 0#32

/-! ## The derived flags -/

def flagZf (f : Flags) : Bool :=
  match f.kind with
  | .none => false
  | .explicit => decide (f.a &&& flagZF ≠ 0)
  | _ => if f.w = .dword then decide (f.r = 0) else decide (f.r &&& widthMask f.w = 0)

def flagSf (f : Flags) : Bool :=
  match f.kind with
  | .none => false
  | .explicit => decide (f.a &&& flagSF ≠ 0)
  | _ => msb f.r f.w

def flagPf (f : Flags) : Bool :=
  match f.kind with
  | .none => false
  | .explicit => decide (f.a &&& flagPF ≠ 0)
  | _ => evenParity f.r

def flagCf (f : Flags) : Bool :=
  match f.kind with
  | .sub =>
    if f.w = .dword then decide (f.a < f.b)
    else decide (f.a &&& widthMask f.w < f.b &&& widthMask f.w)
  | .logic | .none => false
  | .add =>
    if f.w = .dword then decide (f.r < f.a)
    else decide (f.r &&& widthMask f.w < f.a &&& widthMask f.w)
  | .inc | .dec => decide (f.carryIn ≠ 0)
  | .explicit => decide (f.a &&& flagCF ≠ 0)
  -- past the width the operand has run out for SHL and SHR; SAR keeps feeding in the sign
  | .shl => if f.b.toNat > f.w.bits then false else bit f.a (f.w.bits - f.b.toNat)
  | .shr => if f.b.toNat > f.w.bits then false else bit f.a (f.b.toNat - 1)
  | .sar => if f.b.toNat > f.w.bits then msb f.a f.w else bit f.a (f.b.toNat - 1)

def flagOf (f : Flags) : Bool :=
  let sa := msb f.a f.w
  let sb := msb f.b f.w
  let sr := msb f.r f.w
  let m := widthMask f.w
  let signBit : U32 := 1#32 <<< (f.w.bits - 1)
  match f.kind with
  | .none | .logic | .sar => false
  | .explicit => decide (f.a &&& flagOF ≠ 0)
  | .add => sa == sb && sr != sa
  | .sub => sa != sb && sr != sa
  | .inc => decide (f.r &&& m = signBit)
  | .dec => decide (f.a &&& m = signBit)
  | .shl => sr ^^ flagCf f
  | .shr => if f.b = 1 then sa else false

def flagAf (f : Flags) : Bool :=
  match f.kind with
  | .none | .logic => false
  | .explicit => decide (f.a &&& flagAF ≠ 0)
  | .add | .sub | .inc | .dec => bit (f.a ^^^ f.b ^^^ f.r) 4
  | .shl | .shr | .sar => true

/-- The materialised word. -/
def eflags (f : Flags) : U32 :=
  match f.kind with
  | .none => eflagsFixed
  | .explicit => f.a &&& arithFlags ||| eflagsFixed
  | .logic =>
    eflagsFixed ||| flagIf (flagZf f) flagZF ||| flagIf (flagSf f) flagSF |||
      flagIf (flagPf f) flagPF
  | _ =>
    eflagsFixed ||| flagIf (flagCf f) flagCF ||| flagIf (flagPf f) flagPF |||
      flagIf (flagAf f) flagAF ||| flagIf (flagZf f) flagZF ||| flagIf (flagSf f) flagSF |||
      flagIf (flagOf f) flagOF

/-! ## Recording -/

/-- The carry is read from `f` before it is overwritten. A shift by zero writes no flags,
so recording one is fatal. -/
def flagsSet (f : Flags) (kind : FlagKind) (a b r : U32) (w : Width) : Option Flags :=
  if kind.isShift ∧ b = 0 then
    none
  else
    some ⟨a, b, r, kind, w, if flagCf f then 1 else 0⟩

def flagsSetExplicit (eflags : U32) : Flags :=
  ⟨eflags, 0, 0, .explicit, .dword, if eflags &&& flagCF ≠ 0 then 1 else 0⟩

/-! ## ADC and SBB -/

/-- The word both eager computations end with, from the carry out and the overflow. -/
def eagerWord (a b r : U32) (w : Width) (cf of : Bool) : U32 :=
  flagIf cf flagCF ||| flagIf (decide (r = 0)) flagZF ||| flagIf (msb r w) flagSF |||
    flagIf of flagOF ||| flagIf (bit (a ^^^ b ^^^ r) 4) flagAF |||
    flagIf (evenParity r) flagPF ||| eflagsFixed

/-- `(full >> (w * 8)) & 1u` of a 64-bit sum or difference, tested. -/
def carryOut (full : U64) (w : Width) : Bool := decide (full >>> w.bits &&& 1#64 ≠ 0#64)

def flagsAdc (a b carryIn r : U32) (w : Width) : U32 :=
  let m := widthMask w
  let carryIn : U32 := if carryIn ≠ 0 then 1 else 0
  let full : U64 := (a &&& m).setWidth 64 + (b &&& m).setWidth 64 + carryIn.setWidth 64
  let a := a &&& m
  let b := b &&& m
  let r := r &&& m
  eagerWord a b r w (carryOut full w) (bit (~~~(a ^^^ b) &&& (a ^^^ r)) (w.bits - 1))

def flagsSbb (a b carryIn r : U32) (w : Width) : U32 :=
  let m := widthMask w
  let carryIn : U32 := if carryIn ≠ 0 then 1 else 0
  let full : U64 := (a &&& m).setWidth 64 - (b &&& m).setWidth 64 - carryIn.setWidth 64
  let a := a &&& m
  let b := b &&& m
  let r := r &&& m
  eagerWord a b r w (carryOut full w) (bit ((a ^^^ b) &&& (a ^^^ r)) (w.bits - 1))

end X86Port.Cpu
