import X86Port.Arm64.Transfers

/-!
# The straight-line calls of the encoder

* `A64Op`: the calls of `emit_arm64.h` that are not branches.
* `A64Op.Legal`: the operands that a call can take.
* `A64Op.Means`: what it is asked for.
* `op_does`: that is what its words do.
-/

namespace X86Port.Arm64

inductive A64Op where
  | movWImm32 (dst : RegNo) (imm : U32)
  | movXImm64 (dst : RegNo) (imm : U64)
  | movXImm64Fixed (dst : RegNo) (imm : U64)
  | movXX (dst src : RegNo)
  | movWW (dst src : RegNo)
  | load32 (dst base : RegNo) (disp : U32)
  | store32 (base : RegNo) (disp : U32) (src : RegNo)
  | storePair32 (base : RegNo) (disp : U32) (a b : RegNo)
  | load64 (dst base : RegNo) (disp : U32)
  | store64 (base : RegNo) (disp : U32) (src : RegNo)
  | load8Zx (dst base : RegNo) (disp : U32)
  | store8Reg (base : RegNo) (disp : U32) (src : RegNo)
  | load16Zx (dst base : RegNo) (disp : U32)
  | store16Reg (base : RegNo) (disp : U32) (src : RegNo)
  | store8Imm (base : RegNo) (disp : U32) (imm : U8)
  | store16Imm (base : RegNo) (disp : U32) (imm : U16)
  | store32Imm (base : RegNo) (disp imm : U32)
  | lea64 (dst base : RegNo) (disp : U32)
  | aluWW (op : A64Alu) (dst src : RegNo)
  | aluXX (op : A64Alu) (dst src : RegNo)
  | mulW (dst a b : RegNo)
  | aluWWW (op : A64Alu) (dst a b : RegNo)
  | aluWImm (op : A64Alu) (dst : RegNo) (imm : U32)
  | aluXImm (op : A64Alu) (dst : RegNo) (imm : U32)
  | revW (dst : RegNo)
  | shlWImm (dst : RegNo) (count : U8)
  | shlWWImm (dst src : RegNo) (count : U8)
  | sarWImm (dst : RegNo) (count : U8)
  | lsrWImm (dst : RegNo) (count : U8)
  | addXWUxtw (dst base offset : RegNo)
  | shiftWW (op : A64Shift) (dst src count : RegNo)
  | lsrXImm (dst src : RegNo) (count : U8)
  | cmpWW (a b : RegNo)
  | cmnWW (a b : RegNo)
  | cmpXX (a b : RegNo)
  | cmpWImm (a : RegNo) (imm : U32)
  | subsXImm (dst : RegNo) (imm : U32)
  | tstWW (a b : RegNo)
  | tstWBit0 (a : RegNo)
  | cselW (cc : BitVec 4) (dst a b : RegNo)
  | csetW (cc : BitVec 4) (dst : RegNo)
  | aluWMem (op : A64Alu) (dst base : RegNo) (disp : U32)
  | loadQ (vreg base : RegNo) (disp : U32)
  | storeQ (base : RegNo) (disp : U32) (vreg : RegNo)
  | movQQ (vdst vsrc : RegNo)
  | loadQAt (vreg base : RegNo)
  | storeQAt (base vreg : RegNo)
  | bfiW (dst src : RegNo) (lsb width : U32)
  | ubfxW (dst src : RegNo) (lsb width : U32)
  | ubfxX (dst src : RegNo) (lsb width : U32)
  | lslXImm (dst src : RegNo) (count : U32)
  | lslWWImm (dst src : RegNo) (count : U32)
  | aluXXLsl (op : A64Alu) (dst a b : RegNo) (shift : U32)
  | aluWWLsl (op : A64Alu) (dst a b : RegNo) (shift : U32)
  | eorWWLsr (dst a b : RegNo) (shift : U32)
  | orrXBit (dst : RegNo) (bit : U32)
  | pushPair (a b : RegNo)
  | popPair (a b : RegNo)
  | subSpImm (imm : U32)
  | addSpImm (imm : U32)

namespace A64Op

def emit : A64Op → A64Emit → A64Emit
  | movWImm32 dst imm, e => e.movWImm32 dst imm
  | movXImm64 dst imm, e => e.movXImm64 dst imm
  | movXImm64Fixed dst imm, e => e.movXImm64Fixed dst imm
  | movXX dst src, e => e.movXX dst src
  | movWW dst src, e => e.movWW dst src
  | load32 dst base disp, e => e.load32 dst base disp
  | store32 base disp src, e => e.store32 base disp src
  | storePair32 base disp a b, e => e.storePair32 base disp a b
  | load64 dst base disp, e => e.load64 dst base disp
  | store64 base disp src, e => e.store64 base disp src
  | load8Zx dst base disp, e => e.load8Zx dst base disp
  | store8Reg base disp src, e => e.store8Reg base disp src
  | load16Zx dst base disp, e => e.load16Zx dst base disp
  | store16Reg base disp src, e => e.store16Reg base disp src
  | store8Imm base disp imm, e => e.store8Imm base disp imm
  | store16Imm base disp imm, e => e.store16Imm base disp imm
  | store32Imm base disp imm, e => e.store32Imm base disp imm
  | lea64 dst base disp, e => e.lea64 dst base disp
  | aluWW op dst src, e => e.aluWW op dst src
  | aluXX op dst src, e => e.aluXX op dst src
  | mulW dst a b, e => e.mulW dst a b
  | aluWWW op dst a b, e => e.aluWWW op dst a b
  | aluWImm op dst imm, e => e.aluWImm op dst imm
  | aluXImm op dst imm, e => e.aluXImm op dst imm
  | revW dst, e => e.revW dst
  | shlWImm dst count, e => e.shlWImm dst count
  | shlWWImm dst src count, e => e.shlWWImm dst src count
  | sarWImm dst count, e => e.sarWImm dst count
  | lsrWImm dst count, e => e.lsrWImm dst count
  | addXWUxtw dst base offset, e => e.addXWUxtw dst base offset
  | shiftWW op dst src count, e => e.shiftWW op dst src count
  | lsrXImm dst src count, e => e.lsrXImm dst src count
  | cmpWW a b, e => e.cmpWW a b
  | cmnWW a b, e => e.cmnWW a b
  | cmpXX a b, e => e.cmpXX a b
  | cmpWImm a imm, e => e.cmpWImm a imm
  | subsXImm dst imm, e => e.subsXImm dst imm
  | tstWW a b, e => e.tstWW a b
  | tstWBit0 a, e => e.tstWBit0 a
  | cselW cc dst a b, e => e.cselW cc dst a b
  | csetW cc dst, e => e.csetW cc dst
  | aluWMem op dst base disp, e => e.aluWMem op dst base disp
  | loadQ vreg base disp, e => e.loadQ vreg base disp
  | storeQ base disp vreg, e => e.storeQ base disp vreg
  | movQQ vdst vsrc, e => e.movQQ vdst vsrc
  | loadQAt vreg base, e => e.loadQAt vreg base
  | storeQAt base vreg, e => e.storeQAt base vreg
  | bfiW dst src lsb width, e => e.bfiW dst src lsb width
  | ubfxW dst src lsb width, e => e.ubfxW dst src lsb width
  | ubfxX dst src lsb width, e => e.ubfxX dst src lsb width
  | lslXImm dst src count, e => e.lslXImm dst src count
  | lslWWImm dst src count, e => e.lslWWImm dst src count
  | aluXXLsl op dst a b shift, e => e.aluXXLsl op dst a b shift
  | aluWWLsl op dst a b shift, e => e.aluWWLsl op dst a b shift
  | eorWWLsr dst a b shift, e => e.eorWWLsr dst a b shift
  | orrXBit dst bit, e => e.orrXBit dst bit
  | pushPair a b, e => e.pushPair a b
  | popPair a b, e => e.popPair a b
  | subSpImm imm, e => e.subSpImm imm
  | addSpImm imm, e => e.addSpImm imm

/-- The state that is asked for. -/
def effect : A64Op → A64State → A64State
  | movWImm32 dst imm, s => s.write dst imm
  | movXImm64 dst imm, s | movXImm64Fixed dst imm, s => s.write dst imm
  | movXX dst src, s => s.write dst (s.x src)
  | movWW dst src, s => s.write dst (s.w src)
  | load32 dst base disp, s => s.write dst (s.load (s.addr base disp) 4)
  | store32 base disp src, s => s.store (s.addr base disp) 4 (s.w src)
  | storePair32 base disp a b, s => s.storeTwo (s.addr base disp) (s.w a) (s.w b)
  | load64 dst base disp, s => s.write dst (s.load (s.addr base disp) 8)
  | store64 base disp src, s => s.store (s.addr base disp) 8 (s.x src)
  | load8Zx dst base disp, s => s.write dst (s.load (s.addr base disp) 1)
  | store8Reg base disp src, s => s.store (s.addr base disp) 1 ((s.x src).setWidth 8)
  | load16Zx dst base disp, s => s.write dst (s.load (s.addr base disp) 2)
  | store16Reg base disp src, s => s.store (s.addr base disp) 2 ((s.x src).setWidth 16)
  | store8Imm base disp imm, s => s.store (s.addr base disp) 1 imm
  | store16Imm base disp imm, s => s.store (s.addr base disp) 2 imm
  | store32Imm base disp imm, s => s.store (s.addr base disp) 4 imm
  | lea64 dst base disp, s => s.setSp dst (s.addr base disp)
  | aluWW op dst src, s => s.write dst (op.eval (s.w dst) (s.w src))
  | aluXX op dst src, s => s.write dst (op.eval (s.x dst) (s.x src))
  | mulW dst a b, s => s.write dst (s.w a * s.w b)
  | aluWWW op dst a b, s => s.write dst (op.eval (s.w a) (s.w b))
  | aluWImm op dst imm, s => s.write dst (op.eval (s.w dst) imm)
  | aluXImm op dst imm, s => s.write dst (op.eval (s.x dst) (imm.setWidth 64))
  | revW dst, s => s.write dst (swapBytes (s.w dst))
  | shlWImm dst count, s => s.write dst (s.w dst <<< (count.toNat % 32))
  | shlWWImm dst src count, s => s.write dst (s.w src <<< (count.toNat % 32))
  | sarWImm dst count, s => s.write dst ((s.w dst).sshiftRight (count.toNat % 32))
  | lsrWImm dst count, s => s.write dst (s.w dst >>> (count.toNat % 32))
  | addXWUxtw dst base offset, s => s.setSp dst (s.gpr base + (s.w offset).setWidth 64)
  | shiftWW op dst src count, s => s.write dst (op.eval (s.w src) ((s.w count).toNat % 32))
  | lsrXImm dst src count, s => s.write dst (s.x src >>> (count.toNat % 64))
  | cmpWW a b, s => s.compared true (s.w a) (s.w b)
  | cmnWW a b, s => s.compared false (s.w a) (s.w b)
  | cmpXX a b, s => s.compared true (s.x a) (s.x b)
  | cmpWImm a imm, s => s.compared true (s.w a) imm
  | subsXImm dst imm, s =>
    (s.compared true (s.x dst) (imm.setWidth 64)).write dst (s.x dst - imm.setWidth 64)
  | tstWW a b, s => s.logicFlags (s.w a &&& s.w b)
  | tstWBit0 a, s => s.logicFlags (s.w a &&& 1)
  | cselW cc dst a b, s => s.write dst (if s.holds cc then s.w a else s.w b)
  | csetW cc dst, s => s.write dst (if s.holds cc then 1#32 else 0#32)
  | aluWMem op dst base disp, s =>
    s.write dst (op.eval (s.w dst) (s.load (s.addr base disp) 4))
  | loadQ vreg base disp, s => s.setVec vreg (s.load (s.addr base disp) 16)
  | storeQ base disp vreg, s => s.store (s.addr base disp) 16 (s.vec vreg)
  | movQQ vdst vsrc, s => s.setVec vdst (s.vec vsrc)
  | loadQAt vreg base, s => s.setVec vreg (s.load (s.gpr base) 16)
  | storeQAt base vreg, s => s.store (s.gpr base) 16 (s.vec vreg)
  | bfiW dst src lsb width, s =>
    s.write dst (insertBits (s.w dst) (s.w src) lsb.toNat width.toNat)
  | ubfxW dst src lsb width, s => s.write dst (bitsFrom (s.w src) lsb.toNat width.toNat)
  | ubfxX dst src lsb width, s => s.write dst (bitsFrom (s.x src) lsb.toNat width.toNat)
  | lslXImm dst src count, s => s.write dst (s.x src <<< count.toNat)
  | lslWWImm dst src count, s => s.write dst (s.w src <<< count.toNat)
  | aluXXLsl op dst a b shift, s => s.write dst (op.eval (s.x a) (s.x b <<< shift.toNat))
  | aluWWLsl op dst a b shift, s => s.write dst (op.eval (s.w a) (s.w b <<< shift.toNat))
  | eorWWLsr dst a b shift, s => s.write dst (s.w a ^^^ s.w b >>> shift.toNat)
  | orrXBit dst bit, s => s.write dst (s.x dst ||| 1#64 <<< bit.toNat)
  | pushPair a b, s => s.pushed (s.x a) (s.x b)
  | popPair a b, s => s.popped a b
  | subSpImm imm, s => s.setSp 31 (s.gpr 31 - imm.setWidth 64)
  | addSpImm imm, s => s.setSp 31 (s.gpr 31 + imm.setWidth 64)

/-- The scratch registers that the call may lose. -/
def lost : A64Op → List RegNo
  | load32 dst _ disp => (lostFor disp 4).erase dst
  | load64 dst _ disp => (lostFor disp 8).erase dst
  | load8Zx dst _ disp => (lostFor disp 1).erase dst
  | load16Zx dst _ disp => (lostFor disp 2).erase dst
  | store32 _ disp _ => lostFor disp 4
  | storePair32 _ disp _ _ => lostFor disp 4 ++ lostFor (disp + 4) 4
  | store64 _ disp _ => lostFor disp 8
  | store8Reg _ disp _ => lostFor disp 1
  | store16Reg _ disp _ => lostFor disp 2
  | store8Imm _ disp _ => 9 :: lostFor disp 1
  | store16Imm _ disp _ => 9 :: lostFor disp 2
  | store32Imm _ disp _ | aluWMem _ _ _ disp => 9 :: lostFor disp 4
  | loadQ _ _ disp | storeQ _ disp _ => lostFor disp 16
  | lea64 dst _ disp => lostTo dst disp
  | aluWImm _ _ _ | aluXImm _ _ _ | cmpWImm _ _ => [9]
  | _ => []

/-- What the call is to do. Two calls may find that nothing is to be done, and then leave the upper
half of the register as it is. -/
def Means : A64Op → A64State → A64State → Prop
  | load32 dst base disp, s, t =>
    TakesW (lostFor disp 4) dst (s.load (s.addr base disp) 4) s t
  | shlWWImm dst src count, s, t => TakesW [] dst (s.w src <<< (count.toNat % 32)) s t
  | o, s, t => EqBut o.lost (o.effect s) t

/-- What no store-immediate can reach: its constant is lost on the way. -/
def ConstantReach (base : RegNo) (disp : U32) (bytes : Nat) : Prop :=
  ((A64Emit.fitsScaledUnsigned disp bytes).isSome ∨ Near disp) ∧ base ≠ 9

/-- The operands that the call can take. Those it refuses are not among the conditions: they make
the buffer overflow. -/
def Legal : A64Op → Prop
  | load32 _ base disp => Reachable base disp 4
  | load64 _ base disp => Reachable base disp 8
  | load8Zx _ base disp => Reachable base disp 1
  | load16Zx _ base disp => Reachable base disp 2
  | store32 base disp src => Reachable base disp 4 ∧ src ∉ lostFor disp 4 ∧ base ∉ lostFor disp 4
  | storePair32 base disp a b =>
    Reachable base disp 4 ∧ Reachable base (disp + 4) 4 ∧
      (∀ r ∈ [base, a, b], r ∉ lostFor disp 4 ++ lostFor (disp + 4) 4) ∧ disp.toInt < 2 ^ 31 - 4
  | store64 base disp src => Reachable base disp 8 ∧ src ∉ lostFor disp 8
  | store8Reg base disp src => Reachable base disp 1 ∧ src ∉ lostFor disp 1
  | store16Reg base disp src => Reachable base disp 2 ∧ src ∉ lostFor disp 2
  | store8Imm base disp _ => ConstantReach base disp 1
  | store16Imm base disp _ => ConstantReach base disp 2
  | store32Imm base disp _ => ConstantReach base disp 4 ∧ base ∉ lostFor disp 4
  | loadQ _ base disp | storeQ base disp _ => Reachable base disp 16
  | lea64 dst base disp => Near disp ∨ base ≠ 31 ∧ base ≠ constantRegister dst ∧ dst ≠ 31
  | aluWMem _ dst base disp => Reachable base disp 4 ∧ dst ∉ 9 :: lostFor disp 4
  | aluWImm _ dst _ => dst ≠ 31 ∧ dst ≠ 9
  -- AND, ORR and EOR with a short immediate come out as ADD
  | aluXImm op dst imm => (op = .add ∨ op = .sub ∨ ¬ FitsImm imm) ∧ dst ≠ 31 ∧ dst ≠ 9
  | cmpWImm a _ => a ≠ 31 ∧ a ≠ 9
  | subsXImm dst _ | orrXBit dst _ => dst ≠ 31
  | csetW cc _ => cc.toNat < 14
  -- the sum that is checked wraps
  | bfiW _ _ lsb width | ubfxW _ _ lsb width | ubfxX _ _ lsb width =>
    lsb.toNat + width.toNat < 2 ^ 32
  | popPair a b => a ≠ b
  | subSpImm imm | addSpImm imm => imm ≤ 0xFFF
  | _ => True

end A64Op

section

variable {e e' : A64Emit} {f : A64State → A64State}

theorem Emits.does_exactly (h : Emits e e' f) : Does e e' fun s t => EqBut [] (f s) t :=
  h.does fun _ => EqBut.refl [] _

end

/-- A field that lies in its register, or a call that is refused. -/
theorem does_field {e e' : A64Emit} {f : A64State → A64State} {lsb width : U32} {k : Nat}
    (hk : k < 2 ^ 32) (hwrap : lsb.toNat + width.toNat < 2 ^ 32)
    (hrefused : width = 0 ∨ BitVec.ofNat 32 k < lsb + width → e' = e.refuse)
    (h : width ≠ 0 → lsb.toNat + width.toNat ≤ k → Emits e e' f) :
    Does e e' fun s t => EqBut [] (f s) t := by
  by_cases hbad : width = 0 ∨ BitVec.ofNat 32 k < lsb + width
  · rw [hrefused hbad]
    exact does_refused e
  · obtain ⟨hwidth, hle⟩ := not_or.mp hbad
    refine (h hwidth ?_).does_exactly
    have hle' : (lsb + width).toNat ≤ (BitVec.ofNat 32 k).toNat := BitVec.not_lt.mp hle
    rwa [BitVec.toNat_add, Nat.mod_eq_of_lt hwrap, BitVec.toNat_ofNat, Nat.mod_eq_of_lt hk] at hle'

theorem does_aluLsl (e : A64Emit) (sf : Bool) (op : A64Alu) (dst a b : RegNo) (shift : U32) :
    Does e (e.aluLsl sf op dst a b shift) fun s t =>
      EqBut [] (s.write dst (op.eval (s.read sf a) (s.read sf b <<< shift.toNat))) t := by
  by_cases hbad : (op ≠ .add ∧ op ≠ .orr) ∨ (if sf then 63 else 31) < shift
  · unfold A64Emit.aluLsl
    rw [if_pos hbad]
    exact does_refused e
  · obtain ⟨hop, hshift⟩ := not_or.mp hbad
    refine (emits_aluLsl e dst a b ?_ ?_).does_exactly
    · by_cases hadd : op = .add
      · exact .inl hadd
      · exact .inr (not_not.mp fun horr => hop ⟨hadd, horr⟩)
    · cases sf with
      | false => exact Nat.lt_succ_of_le (BitVec.not_lt.mp hshift)
      | true => exact Nat.lt_succ_of_le (BitVec.not_lt.mp hshift)

theorem does_shlWWImm (e : A64Emit) (dst src : RegNo) (count : U8) :
    Does e (e.shlWWImm dst src count) fun s t =>
      TakesW [] dst (s.w src <<< (count.toNat % 32)) s t := by
  have hcount := toNat_count5 count
  unfold A64Emit.shlWWImm
  dsimp only
  by_cases hzero : (count.setWidth 32 &&& 31 : U32) = 0
  · have hn : count.toNat % 32 = 0 := by
      rw [← hcount, hzero]
      rfl
    rw [if_pos hzero, hn]
    split_ifs with hne
    · refine (emits_movWW e dst src).does fun s => .inl ?_
      rw [BitVec.shiftLeft_zero]
      exact EqBut.refl _ _
    · refine (Emits.refl e).does fun s => .inr ⟨rfl, ?_⟩
      rw [BitVec.shiftLeft_zero, not_not.mp hne]
  rw [if_neg hzero]
  exact (emits_lsl e dst src hcount (Nat.mod_lt _ (by decide))).does fun s => .inl (EqBut.refl _ _)

theorem op_does (o : A64Op) (h : o.Legal) (e : A64Emit) : Does e (o.emit e) o.Means := by
  cases o with
  | movWImm32 dst imm => exact (emits_movWImm32 e dst imm).does_exactly
  | movXImm64 dst imm => exact (emits_movXImm64 e dst imm).does_exactly
  | movXImm64Fixed dst imm => exact (emits_movXImm64Fixed e dst imm).does_exactly
  | movXX dst src => exact (emits_movXX e dst src).does_exactly
  | movWW dst src => exact (emits_movWW e dst src).does_exactly
  | load32 dst base disp => exact does_load32 e h
  | store32 base disp src => exact does_store32 e h.1 h.2.1 h.2.2
  | storePair32 base disp a b => exact does_storePair32 e h.1 h.2.1 h.2.2.1 h.2.2.2
  | load64 dst base disp => exact @does_load e dst base disp 3 8 rfl h
  | store64 base disp src =>
    refine (@does_store e src base disp 3 8 rfl h.1 h.2).mono fun s t ht => ?_
    rwa [BitVec.setWidth_eq] at ht
  | load8Zx dst base disp => exact @does_load e dst base disp 0 1 rfl h
  | store8Reg base disp src => exact @does_store e src base disp 0 1 rfl h.1 h.2
  | load16Zx dst base disp => exact @does_load e dst base disp 1 2 rfl h
  | store16Reg base disp src => exact @does_store e src base disp 1 2 rfl h.1 h.2
  | store8Imm base disp imm =>
    refine (@does_storeConstant e base disp 0 1 rfl (by decide) h.1 h.2 (imm.setWidth 32)).mono
      fun s t ht => ?_
    rwa [BitVec.setWidth_setWidth_of_le _ (by decide), BitVec.setWidth_eq] at ht
  | store16Imm base disp imm =>
    refine (@does_storeConstant e base disp 1 2 rfl (by decide) h.1 h.2 (imm.setWidth 32)).mono
      fun s t ht => ?_
    rwa [BitVec.setWidth_setWidth_of_le _ (by decide), BitVec.setWidth_eq] at ht
  | store32Imm base disp imm => exact does_store32Imm e h.1.1 h.1.2 h.2 imm
  | lea64 dst base disp => exact does_lea64 e h
  | aluWW op dst src => exact (emits_alu e false dst dst src op).does_exactly
  | aluXX op dst src =>
    refine (emits_alu e true dst dst src op).does fun s => ?_
    rw [s.read_x, s.read_x]
    exact EqBut.refl _ _
  | mulW dst a b => exact (emits_mulW e dst a b).does_exactly
  | aluWWW op dst a b => exact (emits_alu e false dst a b op).does_exactly
  | aluWImm op dst imm => exact does_aluWImm e op imm h.1 h.2
  | aluXImm op dst imm => exact does_aluXImm e h.1 h.2.1 h.2.2
  | revW dst => exact (emits_revW e dst).does_exactly
  | shlWImm dst count => exact (emits_shlWImm e dst count).does_exactly
  | shlWWImm dst src count => exact does_shlWWImm e dst src count
  | sarWImm dst count => exact (emits_sarWImm e dst count).does_exactly
  | lsrWImm dst count => exact (emits_lsrWImm e dst count).does_exactly
  | addXWUxtw dst base offset => exact (emits_addXWUxtw e dst base offset).does_exactly
  | shiftWW op dst src count => exact (emits_shiftWW e dst src count op).does_exactly
  | lsrXImm dst src count => exact (emits_lsrXImm e dst src count).does_exactly
  | cmpWW a b => exact (emits_compareReg e a b false true).does_exactly
  | cmnWW a b => exact (emits_compareReg e a b false false).does_exactly
  | cmpXX a b => exact (emits_cmpXX e a b).does_exactly
  | cmpWImm a imm => exact does_cmpWImm e imm h.1 h.2
  | subsXImm dst imm =>
    by_cases himm : imm ≤ 0xFFF
    · exact (emits_subsXImm e dst himm h).does_exactly
    · change Does e (e.subsXImm dst imm) _
      rw [A64Emit.subsXImm, if_pos (BitVec.not_le.mp himm)]
      exact does_refused e
  | tstWW a b => exact (emits_tstWW e a b).does_exactly
  | tstWBit0 a => exact (emits_tstWBit0 e a).does_exactly
  | cselW cc dst a b => exact (emits_cselW e a b dst cc).does_exactly
  | csetW cc dst => exact (emits_csetW e dst h).does_exactly
  | aluWMem op dst base disp => exact does_aluWMem e op h.1 h.2
  | loadQ vreg base disp => exact does_loadQ e h
  | storeQ base disp vreg => exact does_storeQ e h
  | movQQ vdst vsrc => exact (emits_movQQ e vsrc).does_exactly
  | loadQAt vreg base => exact (emits_loadQAt e).does_exactly
  | storeQAt base vreg => exact (emits_storeQAt e).does_exactly
  | bfiW dst src lsb width =>
    exact does_field (by decide) h (fun hbad => if_pos hbad) (emits_bfiW e dst src)
  | ubfxW dst src lsb width =>
    exact does_field (by decide) h (fun hbad => if_pos hbad) (emits_ubfxW e dst src)
  | ubfxX dst src lsb width =>
    exact does_field (by decide) h (fun hbad => if_pos hbad) (emits_ubfxX e dst src)
  | lslXImm dst src count =>
    by_cases hbad : count = 0 ∨ 63 < count
    · change Does e (e.lslXImm dst src count) _
      rw [A64Emit.lslXImm, if_pos hbad]
      exact does_refused e
    · obtain ⟨hpos, hle⟩ := not_or.mp hbad
      exact (emits_lslXImm e dst src hpos (BitVec.not_lt.mp hle)).does_exactly
  | lslWWImm dst src count =>
    by_cases hbad : count = 0 ∨ 31 < count
    · change Does e (e.lslWWImm dst src count) _
      rw [A64Emit.lslWWImm, if_pos hbad]
      exact does_refused e
    · obtain ⟨hpos, hle⟩ := not_or.mp hbad
      exact (emits_lslWWImm e dst src hpos (BitVec.not_lt.mp hle)).does_exactly
  | aluXXLsl op dst a b shift =>
    refine (does_aluLsl e true op dst a b shift).mono fun s t ht => ?_
    rwa [s.read_x, s.read_x] at ht
  | aluWWLsl op dst a b shift => exact does_aluLsl e false op dst a b shift
  | eorWWLsr dst a b shift =>
    by_cases hbad : 31 < shift
    · change Does e (e.eorWWLsr dst a b shift) _
      rw [A64Emit.eorWWLsr, if_pos hbad]
      exact does_refused e
    · exact (emits_eorWWLsr e dst a b (BitVec.not_lt.mp hbad)).does_exactly
  | orrXBit dst bit =>
    by_cases hbad : 63 < bit
    · change Does e (e.orrXBit dst bit) _
      rw [A64Emit.orrXBit, if_pos hbad]
      exact does_refused e
    · exact (emits_orrXBit e dst (BitVec.not_lt.mp hbad) h).does_exactly
  | pushPair a b => exact (emits_pushPair e).does_exactly
  | popPair a b => exact (emits_popPair e h).does_exactly
  | subSpImm imm => exact (emits_spImm e true h).does_exactly
  | addSpImm imm => exact (emits_spImm e false h).does_exactly

end X86Port.Arm64
