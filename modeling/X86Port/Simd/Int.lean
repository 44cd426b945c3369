import X86Port.Simd.Vec

/-!
# The packed integer lanes

`simd_int.c`. The arithmetic that C does in `int32_t` goes through `int32`, which has no value
where C has none.

* `unpack`, `pack`, `byteShift`, …: the loops, each with its own order of stores.
* `byteLanes`, `wordLanes`, …: the lane loops of each width.
* `simdInt`: `x86p_simd_int`.
-/

namespace X86Port.Simd

open Lib.Lanes

/-- How `x86p_simd_int` does not give a vector: it answers 0, or C leaves it undefined. -/
inductive IntStop where
  | unsupported | signedOverflow
  deriving DecidableEq, Repr

/-- A result of signed arithmetic in `int32_t`. -/
def int32 (v : Int) : Except IntStop Int :=
  if -2 ^ 31 ≤ v ∧ v < 2 ^ 31 then .ok v else .error .signedOverflow

/-! ## Saturation -/

def satU8 (v : Int) : U8 := BitVec.ofInt 8 (if v < 0 then 0 else if v > 255 then 255 else v)

def satS8 (v : Int) : U8 :=
  BitVec.ofInt 8 (if v < -128 then -128 else if v > 127 then 127 else v)

def satU16 (v : Int) : U16 :=
  BitVec.ofInt 16 (if v < 0 then 0 else if v > 65535 then 65535 else v)

def satS16 (v : Int) : U16 :=
  BitVec.ofInt 16 (if v < -32768 then -32768 else if v > 32767 then 32767 else v)

/-! ## Byte and word lanes -/

section Lanes

variable {w : Nat} (x y : BitVec w)

def addWrapped : Except IntStop (BitVec w) := return BitVec.ofInt w (← int32 (x.toNat + y.toNat))

def subWrapped : Except IntStop (BitVec w) := return BitVec.ofInt w (← int32 (x.toNat - y.toNat))

def addSigned (sat : Int → BitVec w) : Except IntStop (BitVec w) :=
  return sat (← int32 (x.toInt + y.toInt))

def subSigned (sat : Int → BitVec w) : Except IntStop (BitVec w) :=
  return sat (← int32 (x.toInt - y.toInt))

def addUnsigned (sat : Int → BitVec w) : Except IntStop (BitVec w) :=
  return sat (← int32 (x.toNat + y.toNat))

def subUnsigned (sat : Int → BitVec w) : Except IntStop (BitVec w) :=
  return sat (← int32 (x.toNat - y.toNat))

def equalMask : Except IntStop (BitVec w) :=
  return if (x.toNat : Int) = y.toNat then BitVec.allOnes w else 0

def greaterMask : Except IntStop (BitVec w) :=
  return if x.toInt > y.toInt then BitVec.allOnes w else 0

/-- Rounded, not truncated. -/
def average : Except IntStop (BitVec w) := do
  let sum ← int32 (x.toNat + y.toNat)
  let rounded ← int32 (sum + 1)
  return BitVec.ofInt w (rounded >>> (1 : Nat))

end Lanes

section Bytes

variable (x y : U8)

def paddb : Except IntStop U8 := addWrapped x y

def psubb : Except IntStop U8 := subWrapped x y

def paddsb : Except IntStop U8 := addSigned x y satS8

def psubsb : Except IntStop U8 := subSigned x y satS8

def paddusb : Except IntStop U8 := addUnsigned x y satU8

def psubusb : Except IntStop U8 := subUnsigned x y satU8

def pcmpeqb : Except IntStop U8 := equalMask x y

def pcmpgtb : Except IntStop U8 := greaterMask x y

def pavgb : Except IntStop U8 := average x y

def pminub : Except IntStop U8 :=
  return BitVec.ofInt 8 (if (x.toNat : Int) < y.toNat then x.toNat else y.toNat)

def pmaxub : Except IntStop U8 :=
  return BitVec.ofInt 8 (if (x.toNat : Int) > y.toNat then x.toNat else y.toNat)

end Bytes

section Words

variable (x y : U16)

def paddw : Except IntStop U16 := addWrapped x y

def psubw : Except IntStop U16 := subWrapped x y

def paddsw : Except IntStop U16 := addSigned x y satS16

def psubsw : Except IntStop U16 := subSigned x y satS16

def paddusw : Except IntStop U16 := addUnsigned x y satU16

def psubusw : Except IntStop U16 := subUnsigned x y satU16

def pcmpeqw : Except IntStop U16 := equalMask x y

def pcmpgtw : Except IntStop U16 := greaterMask x y

def pavgw : Except IntStop U16 := average x y

def pminsw : Except IntStop U16 :=
  return BitVec.ofInt 16 (if x.toInt < y.toInt then x.toInt else y.toInt)

def pmaxsw : Except IntStop U16 :=
  return BitVec.ofInt 16 (if x.toInt > y.toInt then x.toInt else y.toInt)

def pmullw : Except IntStop U16 := return BitVec.ofInt 16 (← int32 (x.toInt * y.toInt))

/-- The high half of a signed product. -/
def pmulhw : Except IntStop U16 :=
  return BitVec.ofInt 16 (((← int32 (x.toInt * y.toInt)) >>> (16 : Nat)) % 0x10000)

def pmulhuw : Except IntStop U16 :=
  return ((x.setWidth 32 * y.setWidth 32) >>> 16).setWidth 16

end Words

/-! ## Doubleword and quadword lanes -/

section Doublewords

variable (x y : U32)

def paddd : Except IntStop U32 := return x + y

def psubd : Except IntStop U32 := return x - y

def pcmpeqd : Except IntStop U32 := return if x = y then 0xFFFFFFFF else 0

def pcmpgtd : Except IntStop U32 := return if x.toInt > y.toInt then 0xFFFFFFFF else 0

end Doublewords

def paddq (x y : U64) : Except IntStop U64 := return x + y

def psubq (x y : U64) : Except IntStop U64 := return x - y

/-! ## The lane loops -/

/-- A result of the width of the destination. -/
def likeFirst (a : Vec) (r : Except IntStop (BitVec 128)) : Except IntStop Vec :=
  return { b := ← r, bytes := a.bytes }

section Loops

variable (a b : Vec)

def bitwise (f : U8 → U8 → U8) : Except IntStop Vec :=
  likeFirst a (forLanes a.bytes (fun i => return f (a.u8 i) (b.u8 i)) 0)

def byteLanes (f : U8 → U8 → Except IntStop U8) : Except IntStop Vec :=
  likeFirst a (forLanes a.bytes (fun i => f (a.u8 i) (b.u8 i)) 0)

def wordLanes (f : U16 → U16 → Except IntStop U16) : Except IntStop Vec :=
  likeFirst a (forLanes (a.bytes / 2) (fun i => f (a.u16 i) (b.u16 i)) 0)

def dwordLanes (f : U32 → U32 → Except IntStop U32) : Except IntStop Vec :=
  likeFirst a (forLanes (a.bytes / 4) (fun i => f (a.u32 i) (b.u32 i)) 0)

def qwordLanes (f : U64 → U64 → Except IntStop U64) : Except IntStop Vec :=
  likeFirst a (forLanes (a.bytes / 8) (fun i => f (a.u64 i) (b.u64 i)) 0)

/-! ## Shifts -/

/-- The count is the whole quadword, not masked. -/
def shiftCount : Nat := if b.u64 0 > 255 then 256 else (b.u64 0).toNat

def psllw (x : U16) (c : Nat) : Except IntStop U16 :=
  if c > 15 then return 0 else return BitVec.ofInt 16 (← int32 (x.toNat * 2 ^ c))

def psrlw (x : U16) (c : Nat) : Except IntStop U16 :=
  if c > 15 then return 0 else return x >>> c

/-- Saturates to all sign bits. -/
def psraw (x : U16) (c : Nat) : Except IntStop U16 :=
  return BitVec.ofInt 16 (x.toInt >>> if c > 15 then 15 else c)

def pslld (x : U32) (c : Nat) : Except IntStop U32 := if c > 31 then return 0 else return x <<< c

def psrld (x : U32) (c : Nat) : Except IntStop U32 := if c > 31 then return 0 else return x >>> c

def psrad (x : U32) (c : Nat) : Except IntStop U32 :=
  return BitVec.ofInt 32 (x.toInt >>> if c > 31 then 31 else c)

def psllq (x : U64) (c : Nat) : Except IntStop U64 := if c > 63 then return 0 else return x <<< c

def psrlq (x : U64) (c : Nat) : Except IntStop U64 := if c > 63 then return 0 else return x >>> c

def wordShift (f : U16 → Nat → Except IntStop U16) : Except IntStop Vec :=
  likeFirst a (forLanes (a.bytes / 2) (fun i => f (a.u16 i) (shiftCount b)) 0)

def dwordShift (f : U32 → Nat → Except IntStop U32) : Except IntStop Vec :=
  likeFirst a (forLanes (a.bytes / 4) (fun i => f (a.u32 i) (shiftCount b)) 0)

def qwordShift (f : U64 → Nat → Except IntStop U64) : Except IntStop Vec :=
  likeFirst a (forLanes (a.bytes / 8) (fun i => f (a.u64 i) (shiftCount b)) 0)

/-! ## Multiply-add, sum of differences, and the unsigned product -/

/-- The sum is made in `int32_t`. -/
def pmaddwdLane (i : Nat) : Except IntStop U32 := do
  let lo ← int32 ((a.u16 (i * 2)).toInt * (b.u16 (i * 2)).toInt)
  let hi ← int32 ((a.u16 (i * 2 + 1)).toInt * (b.u16 (i * 2 + 1)).toInt)
  return BitVec.ofInt 32 (← int32 (lo + hi))

def pmaddwd : Except IntStop Vec :=
  likeFirst a (forLanes (a.bytes / 4) (pmaddwdLane a b) 0)

def psadbwLane (i : Nat) : Except IntStop U64 := do
  let sum ← (List.range 8).foldlM (fun (sum : U32) k => do
    let d ← int32 ((a.u8 (i * 8 + k)).toNat - (b.u8 (i * 8 + k)).toNat)
    return sum + BitVec.ofInt 32 (← if d < 0 then int32 (-d) else pure d)) 0
  return sum.setWidth 64

def psadbw : Except IntStop Vec :=
  likeFirst a (forLanes (a.bytes / 8) (psadbwLane a b) 0)

def pmuludqLane (i : Nat) : Except IntStop U64 :=
  return (a.u32 (i * 2)).setWidth 64 * (b.u32 (i * 2)).setWidth 64

def pmuludq : Except IntStop Vec :=
  likeFirst a (forLanes (a.bytes / 8) (pmuludqLane a b) 0)

/-! ## Rearrangements -/

/-- `memcpy` of `n` bytes of `s` from `source` on. -/
def memcpy (r : BitVec 128) (target : Nat) (s : BitVec 128) (source n : Nat) : BitVec 128 :=
  setBits r (8 * target) (s.extractLsb' (8 * source) (8 * n))

/-- An interleave for each quadword of the operands. -/
def unpack (elem : Nat) (high : Bool) : Vec :=
  let lanes := a.bytes / 8
  let per := 8 / elem
  { b := (List.range lanes).foldl (fun r l =>
      let base := l * 8
      (List.range (per / 2)).foldl (fun r i =>
        let source := base + (if high then per / 2 else 0) * elem + i * elem
        let target := base + i * 2 * elem
        memcpy (memcpy r target a.b source elem) (target + elem) b.b source elem) r) 0
    bytes := a.bytes }

/-- The words of the destination fill the low half and those of the source the high one. -/
def packWords (sat : Int → U8) : Vec :=
  let n := a.bytes / 2
  { b := (List.range n).foldl (fun r i =>
      setLane (setLane r i (sat (a.u16 i).toInt)) (n + i) (sat (b.u16 i).toInt)) 0
    bytes := a.bytes }

def packDwords (sat : Int → U16) : Vec :=
  let n := a.bytes / 4
  { b := (List.range n).foldl (fun r i =>
      setLane (setLane r i (sat (a.u32 i).toInt)) (n + i) (sat (b.u32 i).toInt)) 0
    bytes := a.bytes }

variable (imm : U8)

/-- The element that field `i` of the immediate selects. -/
def selected (i : Nat) : Nat := ((imm >>> (i * 2)) &&& 3).toNat

def pshufw : Vec where
  b := (List.range 4).foldl (fun r i => setLane r i (b.u16 (selected imm i))) 0
  bytes := 8

def pshufd : Vec where
  b := (List.range 4).foldl (fun r i => setLane r i (b.u32 (selected imm i))) 0
  bytes := 16

/-- The half is shuffled and the other one copied. -/
def pshufHalf (half : Nat) : Vec where
  b := (List.range 4).foldl
    (fun r i => setLane r (half + i) (b.u16 (half + selected imm i))) b.b
  bytes := 16

/-- A byte shift of the whole register, by the count in the low byte of `b`. -/
def byteShift (left : Bool) : Vec :=
  let c := (b.u8 0).toNat
  { b := if c < 16 then (List.range 16).foldl (fun r i =>
        if left ∧ i ≥ c then setLane r i (a.u8 (i - c))
        else if ¬ left ∧ i + c < 16 then setLane r i (a.u8 (i + c)) else r) 0 else 0
    bytes := 16 }

/-- The quadword of each operand. -/
def unpackQdq (half : Nat) : Vec where
  b := setLane (setLane 0 0 (a.u64 half)) 1 (b.u64 half)
  bytes := 16

/-! ## The operations -/

/-- `x86p_simd_int`. -/
def simdInt (op : SimdOp) : Except IntStop Vec :=
  match op with
  | .pand => bitwise a b fun x y => x &&& y
  | .pandn => bitwise a b fun x y => ~~~x &&& y
  | .por => bitwise a b fun x y => x ||| y
  | .pxor => bitwise a b fun x y => x ^^^ y
  | .paddb => byteLanes a b paddb
  | .psubb => byteLanes a b psubb
  | .paddsb => byteLanes a b paddsb
  | .psubsb => byteLanes a b psubsb
  | .paddusb => byteLanes a b paddusb
  | .psubusb => byteLanes a b psubusb
  | .pcmpeqb => byteLanes a b pcmpeqb
  | .pcmpgtb => byteLanes a b pcmpgtb
  | .pavgb => byteLanes a b pavgb
  | .pminub => byteLanes a b pminub
  | .pmaxub => byteLanes a b pmaxub
  | .paddw => wordLanes a b paddw
  | .psubw => wordLanes a b psubw
  | .paddsw => wordLanes a b paddsw
  | .psubsw => wordLanes a b psubsw
  | .paddusw => wordLanes a b paddusw
  | .psubusw => wordLanes a b psubusw
  | .pcmpeqw => wordLanes a b pcmpeqw
  | .pcmpgtw => wordLanes a b pcmpgtw
  | .pavgw => wordLanes a b pavgw
  | .pminsw => wordLanes a b pminsw
  | .pmaxsw => wordLanes a b pmaxsw
  | .pmullw => wordLanes a b pmullw
  | .pmulhw => wordLanes a b pmulhw
  | .pmulhuw => wordLanes a b pmulhuw
  | .paddd => dwordLanes a b paddd
  | .psubd => dwordLanes a b psubd
  | .pcmpeqd => dwordLanes a b pcmpeqd
  | .pcmpgtd => dwordLanes a b pcmpgtd
  | .paddq => qwordLanes a b paddq
  | .psubq => qwordLanes a b psubq
  | .punpcklbw => .ok (unpack a b 1 false)
  | .punpcklwd => .ok (unpack a b 2 false)
  | .punpckldq => .ok (unpack a b 4 false)
  | .punpckhbw => .ok (unpack a b 1 true)
  | .punpckhwd => .ok (unpack a b 2 true)
  | .punpckhdq => .ok (unpack a b 4 true)
  | .packuswb => .ok (packWords a b satU8)
  | .packsswb => .ok (packWords a b satS8)
  | .packssdw => .ok (packDwords a b satS16)
  | .psllw => wordShift a b psllw
  | .psrlw => wordShift a b psrlw
  | .psraw => wordShift a b psraw
  | .pslld => dwordShift a b pslld
  | .psrld => dwordShift a b psrld
  | .psrad => dwordShift a b psrad
  | .psllq => qwordShift a b psllq
  | .psrlq => qwordShift a b psrlq
  | .pmaddwd => pmaddwd a b
  | .psadbw => psadbw a b
  | .pshufw => .ok (pshufw b imm)
  | .pshufd => .ok (pshufd b imm)
  | .pshuflw => .ok (pshufHalf b imm 0)
  | .pshufhw => .ok (pshufHalf b imm 4)
  | .pslldq => .ok (byteShift a b true)
  | .psrldq => .ok (byteShift a b false)
  | .punpcklqdq => .ok (unpackQdq a b 0)
  | .punpckhqdq => .ok (unpackQdq a b 1)
  | .pmuludq => pmuludq a b
  | _ => .error .unsupported

end Loops

end X86Port.Simd
