import X86Port.Word
import X86Port.Lib.Lanes

/-!
# SIMD values

The operations of `simd.h` and the vector of `simd_internal.h`.
-/

namespace X86Port.Simd

open Lib.Lanes

/-- `X86pSimdOp`, those that are refused among them. -/
inductive SimdOp where
  | movq | movd | movaps | movss | movlps | movhps | movhlps | movlhps | movmskps | movmskpd
  | movsd | maskmovdqu | pmovmskb | pand | pandn | por | pxor | paddb | paddw | paddd | paddq
  | paddsb | paddsw | paddusb | paddusw | psubb | psubw | psubd | psubq | psubsb | psubsw
  | psubusb | psubusw | pcmpeqb | pcmpeqw | pcmpeqd | pcmpgtb | pcmpgtw | pcmpgtd | punpcklbw
  | punpcklwd | punpckldq | punpckhbw | punpckhwd | punpckhdq | packuswb | packsswb | packssdw
  | psllw | pslld | psllq | psrlw | psrld | psrlq | psraw | psrad | pmullw | pmulhw | pmulhuw
  | pmaddwd | pavgb | pavgw | pminub | pmaxub | pminsw | pmaxsw | psadbw | pextrw | pinsrw
  | pshufw | pshufd | pshuflw | pshufhw | pslldq | psrldq | punpcklqdq | punpckhqdq | pmuludq
  | addps | subps | mulps | divps | minps | maxps | sqrtps | addss | subss | mulss | divss
  | minss | maxss | sqrtss | andps | andnps | orps | xorps | cmpps | cmpss | comiss | ucomiss
  | shufps | unpcklps | unpckhps | cvtsi2ss | cvtss2si | cvttss2si | cvtpi2ps | cvtps2pi
  | cvttps2pi | cvtdq2ps | cvtps2dq | cvttps2dq | addpd | subpd | mulpd | divpd | minpd | maxpd
  | sqrtpd | addsd | subsd | mulsd | divsd | minsd | maxsd | sqrtsd | cmppd | cmpsd | comisd
  | ucomisd | shufpd | cvtps2pd | cvtpd2ps | cvtss2sd | cvtsd2ss | cvtdq2pd | cvtpd2dq
  | cvttpd2dq | cvtsi2sd | cvtsd2si | cvttsd2si | cvtpi2pd | cvtpd2pi | cvttpd2pi | pf | emms
  | ldmxcsr | stmxcsr | fence | prefetch | rcpps | rcpss | rsqrtps | rsqrtss
  deriving DecidableEq, Repr

/-- `X86pVec`: sixteen bytes, the first in the lowest bits, and how many of them are live. -/
structure Vec where
  b : BitVec 128
  bytes : Nat
  deriving DecidableEq

namespace Vec

def u8 (v : Vec) (i : Nat) : U8 := lane 8 v.b i

def u16 (v : Vec) (i : Nat) : U16 := lane 16 v.b i

def u32 (v : Vec) (i : Nat) : U32 := lane 32 v.b i

def u64 (v : Vec) (i : Nat) : U64 := lane 64 v.b i

end Vec

end X86Port.Simd
