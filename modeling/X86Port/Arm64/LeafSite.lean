import X86Port.Jit.NativeCall

/-!
# Leaves on AArch64

`emit_call_exit`, `emit_leaf_call`, `emit_leaf_site`, `emit_site_refill` and
`emit_call_indirect_exit` of `jit_arm64_branch.c`, with the CALL before them, over the
instructions they emit. The refill of a site stands in the block's tail.

* `ends_callLeaf`, `ends_reload`, `ends_miss`: from each label on.
* `ends_callIndirect`, `ends_callRel`: the code of a CALL comes to what `Jit.call` says.
-/

namespace X86Port.Arm64

open Jit (CallHeap Left LeafSearch NativeAbi NativeEnv NativeState SiteHome)
open Lib.JumpCode (Item Reached Machine Ends behind)

/-- `X86pA64Reg`; number 31 is the zero register where these instructions name it. -/
inductive A64Reg where
  | x0
  | x1
  | x2
  | x3
  | x4
  | x5
  | x6
  | x7
  | x8
  | x9
  | x10
  | x11
  | x12
  | x13
  | x14
  | x15
  | x16
  | x17
  | x18
  | x19
  | x20
  | x21
  | x22
  | x23
  | x24
  | x25
  | x26
  | x27
  | x28
  | x29
  | x30
  | zr
deriving DecidableEq

inductive LeafLabel where
  | miss
  | callLeaf
  | reload
  | ordinary
  | taken
deriving DecidableEq

inductive LeafCond where
  | eq
  | ne
  | cs
  | al
deriving DecidableEq

/-- One emitter a constructor, besides the routines that the CALL shares with other
instructions: the read of its operand into the target register, the push of W0, and the exits. -/
inductive LeafInsn where
  | movXImm (dst : A64Reg) (imm : U64)
  | movWImm (dst : A64Reg) (imm : U32)
  | movX (dst src : A64Reg)
  | movW (dst src : A64Reg)
  | load32 (dst base : A64Reg) (disp : Nat)
  | load64 (dst base : A64Reg) (disp : Nat)
  | store32 (base : A64Reg) (disp : Nat) (src : A64Reg)
  | cmpW (a b : A64Reg)
  | cmpWImm (a : A64Reg) (imm : U32)
  | cmpX (a b : A64Reg)
  | tstW (a b : A64Reg)
  | blr (r : A64Reg)
  | readTarget
  | pushX0
  | exitFrom (r : A64Reg)
  | exit (dest : U32)

abbrev LeafCode := List (Item LeafInsn LeafCond LeafLabel)

/-- The registers that a called function keeps. -/
def calleeKeeps : A64Reg → Bool
  | .x19 | .x20 | .x21 | .x22 | .x23 | .x24 | .x25 | .x26 | .x27 | .x28 | .x29 => true
  | _ => false

def readKeeps : A64Reg → Bool
  | .x19 => true
  | _ => false

/-- The push writes X10 to X12, and not the target register. -/
def pushKeeps : A64Reg → Bool
  | .x15 | .x19 => true
  | _ => false

/-- `CPU_REG`. -/
def cpuReg : A64Reg := .x19

/-- `TARGET_REG`. -/
def targetReg : A64Reg := .x15

def leafAbi : NativeAbi A64Reg where
  cpu := cpuReg
  target := targetReg
  arg₀ := .x0
  arg₁ := .x1
  result := .x0
  pushed := .x0
  calleeKeeps := calleeKeeps
  readKeeps := readKeeps
  pushKeeps := pushKeeps

section

variable {γ : Type} {capacity : Nat} (E : NativeEnv A64Reg γ capacity)

/-- The second operand of a comparison. -/
def operand (s : NativeState A64Reg γ capacity) (r : A64Reg) : U64 :=
  if r = .zr then 0 else s.reg r

/-- A comparison sets the carry when it borrows nothing. -/
def execLeaf : LeafInsn → NativeState A64Reg γ capacity →
    Reached (NativeState A64Reg γ capacity) (Left γ 64 capacity)
  | .movXImm dst imm, s => .next (s.set dst imm)
  | .movWImm dst imm, s => .next (s.setLow dst imm)
  | .movX dst src, s => .next (s.set dst (s.reg src))
  | .movW dst src, s => .next (s.setLow dst (s.low src))
  | .load32 dst base disp, s => E.load32 dst base disp s
  | .load64 dst base disp, s => E.loadPtr dst base disp s
  | .store32 base disp src, s => E.store32 base disp (s.low src) s
  | .cmpW a b, s => .next (s.flags (decide (s.low a = s.low b)) (decide (s.low b ≤ s.low a)))
  | .cmpWImm a imm, s => .next (s.flags (decide (s.low a = imm)) (decide (imm ≤ s.low a)))
  | .cmpX a b, s =>
    .next (s.flags (decide (s.reg a = operand s b)) (decide (operand s b ≤ s.reg a)))
  | .tstW a b, s => .next (s.flags (decide (s.low a &&& s.low b = 0)) false)
  | .blr r, s => E.callThrough leafAbi r s
  | .readTarget, s => E.readTarget leafAbi s
  | .pushX0, s => E.push leafAbi s
  | .exitFrom r, s => .leave (s.heap.leave (some (s.low r)))
  | .exit dest, s => .leave (s.heap.leave (some dest))

def LeafCond.holds : LeafCond → NativeState A64Reg γ capacity → Bool
  | .eq, s => s.zf
  | .ne, s => !s.zf
  | .cs, s => s.cf
  | .al, _ => true

def leafMachine :
    Machine LeafInsn LeafCond (NativeState A64Reg γ capacity) (Left γ 64 capacity) :=
  ⟨execLeaf E, LeafCond.holds⟩

end

/-! ## What is emitted -/

section

variable {capacity : Nat} (H : SiteHome 64 capacity)

/-- `x86p_a64_emit_store32_imm` of the target, and the call of a leaf. -/
def emitLeafCall (leaf : U64) (returnEip target : U32) : LeafCode := [
  .insn (.movWImm .x9 target),
  .insn (.store32 cpuReg H.eip .x9),
  .insn (.movX .x0 cpuReg),
  .insn (.movXImm .x9 leaf),
  .insn (.blr .x9),
  .insn (.tstW .x0 .x0),
  .jump .ne .taken,
  .insn (.exit target),
  .label .taken,
  .insn (.exit returnEip)]

/-- `leaf` is the resolver's answer, zero without a resolver. -/
def emitCallRel (leaf : U64) (returnEip target : U32) : LeafCode :=
  ([.insn (.movWImm .x0 returnEip), .insn .pushX0] : LeafCode) ++
    if leaf ≠ 0 then emitLeafCall H leaf returnEip target else [.insn (.exit target)]

def emitLeafSite (site : Fin capacity) (returnEip : U32) : LeafCode := [
  .insn (.movXImm .x2 (H.sitePtr site)),
  .insn (.load32 .x3 .x2 Jit.targetAt),
  .insn (.cmpW targetReg .x3),
  .jump .ne .miss,
  .insn (.load64 .x3 .x2 Jit.leafAt),
  .insn (.cmpX .x3 .zr),
  .jump .eq .ordinary,
  .insn (.store32 cpuReg H.eip targetReg),
  .label .callLeaf,
  .insn (.movX .x0 cpuReg),
  .insn (.blr .x3),
  .insn (.tstW .x0 .x0),
  .jump .eq .reload,
  .insn (.exit returnEip),
  .label .reload,
  .insn (.load32 targetReg cpuReg H.eip),
  .label .ordinary,
  .insn (.exitFrom targetReg)]

def emitSiteRefill : LeafCode := [
  .label .miss,
  .insn (.load32 .x3 .x2 Jit.refillsAt),
  .insn (.cmpWImm .x3 Jit.leafSiteRefills),
  .jump .cs .ordinary,
  .insn (.store32 cpuReg H.eip targetReg),
  .insn (.movX .x0 .x2),
  .insn (.movW .x1 targetReg),
  .insn (.movXImm .x9 H.fill),
  .insn (.blr .x9),
  .insn (.movX .x3 .x0),
  .insn (.cmpX .x3 .zr),
  .jump .ne .callLeaf,
  .jump .al .reload]

/-- `site` is the claim's answer, none without a pool. The last piece is the block's tail. -/
def emitCallIndirect (site : Option (Fin capacity)) (returnEip : U32) : LeafCode :=
  ([.insn .readTarget, .insn (.movWImm .x0 returnEip), .insn .pushX0] : LeafCode) ++
    match site with
    | some i => emitLeafSite H i returnEip ++ emitSiteRefill H
    | none => [.insn (.exitFrom targetReg)]

end

/-! ## One instruction -/

section Insn

variable {γ : Type} {capacity : Nat} {E : NativeEnv A64Reg γ capacity}
  {s : NativeState A64Reg γ capacity}

theorem operand_zr (s : NativeState A64Reg γ capacity) : operand s .zr = 0 := if_pos rfl

/-- A leaf on the guest CPU. -/
theorem exec_callLeaf (r : A64Reg) (harg : s.reg .x0 = E.home.cpu) :
    execLeaf E (.blr r) s = .next ((E.left.after calleeKeeps s
      (s.heap.callLeaf E.host (s.reg r)).2).setInt .x0
        ((E.left.reg s .x0 >>> 32).setWidth 32) (s.heap.callLeaf E.host (s.reg r)).1) :=
  NativeEnv.callThrough_leaf r harg

/-- The fill function on a site and a target. -/
theorem exec_callFill {r : A64Reg} {site : Fin capacity} (hr : s.reg r = E.home.fill)
    (harg : s.reg .x0 = E.home.sitePtr site) :
    execLeaf E (.blr r) s = .next ((E.left.after calleeKeeps s
      (s.heap.fill E.host site (s.low .x1)).2).set .x0
        (s.heap.fill E.host site (s.low .x1)).1) :=
  NativeEnv.callThrough_fill hr harg

theorem exec_readTarget {target : U32} (h : E.callee s.heap.guest.rest = some target) :
    execLeaf E .readTarget s =
      .next ((E.left.after readKeeps s s.heap).setLow targetReg target) :=
  NativeEnv.readTarget_some h

theorem exec_push {ret : U32} {rest : γ} (h : E.host.push ret s.heap.guest.rest = some rest) :
    execLeaf E .pushX0 (s.setLow .x0 ret) =
      .next (E.left.after pushKeeps (s.setLow .x0 ret) (s.heap.withRest rest)) :=
  NativeEnv.push_some h

theorem exec_push_none {ret : U32} (h : E.host.push ret s.heap.guest.rest = none) :
    execLeaf E .pushX0 (s.setLow .x0 ret) = .leave (s.heap.leave none) :=
  NativeEnv.push_none h

end Insn

/-! ## The code of a leaf site -/

section Indirect

variable {γ : Type} {capacity : Nat} {E : NativeEnv A64Reg γ capacity}
  {s : NativeState A64Reg γ capacity}
  {site : Fin capacity} {ret target : U32} {code : LeafCode}

theorem ends_ordinary
    (hcode : behind .ordinary (emitCallIndirect E.home (some site) ret) = some code)
    (htarget : s.low targetReg = target) :
    Ends (leafMachine E) (emitCallIndirect E.home (some site) ret) code s
      (s.heap.leave (some target)) := by
  cases hcode
  subst htarget
  exact .leave rfl

/-- After a call, the target is the one kept in EIP. -/
theorem ends_reload
    (hcode : behind .reload (emitCallIndirect E.home (some site) ret) = some code)
    (hcpu : s.reg cpuReg = E.home.cpu) (htarget : s.heap.guest.eip = target) :
    Ends (leafMachine E) (emitCallIndirect E.home (some site) ret) code s
      (s.heap.leave (some target)) := by
  cases hcode
  refine .next (NativeEnv.load32_eip hcpu _) (.label ?_)
  exact ends_ordinary rfl ((s.low_setLow _ _).trans htarget)

/-- The leaf in X3, entered with EIP at the target. -/
theorem ends_callLeaf {leaf : U64}
    (hcode : behind .callLeaf (emitCallIndirect E.home (some site) ret) = some code)
    (hcpu : s.reg cpuReg = E.home.cpu) (htarget : s.heap.guest.eip = target)
    (hreg : s.reg .x3 = leaf) (hleaf : E.host.Declines leaf s.heap.guest) :
    Ends (leafMachine E) (emitCallIndirect E.home (some site) ret) code s
      ((s.heap.callLeaf E.host leaf).2.leave
        (some (if (s.heap.callLeaf E.host leaf).1 = 0 then target else ret))) := by
  subst hreg
  cases hcode
  have hx3 : (s.set .x0 (s.reg cpuReg)).reg .x3 = s.reg .x3 := s.set_ne (by decide) _
  refine .next rfl (.next (exec_callLeaf _ ?_) (.next rfl ?_))
  · rw [NativeState.set_self, hcpu]
  rw [hx3, NativeState.set_heap]
  by_cases hanswer : (s.heap.callLeaf E.host (s.reg .x3)).1 = 0
  · have hsame := hleaf hanswer
    rw [if_pos hanswer]
    refine .taken ?_ rfl (ends_reload rfl ?_ ((congrArg Jit.LeafGuest.eip hsame).trans htarget))
    · rw [NativeState.low_setInt, hanswer]
      rfl
    · rw [NativeState.flags_reg, NativeState.setInt, NativeState.set_ne _ (by decide),
        Jit.after_reg _ _ rfl, NativeState.set_ne _ (by decide), hcpu]
  · rw [if_neg hanswer]
    refine .passed ?_ (.leave rfl)
    rw [NativeState.low_setInt, BitVec.and_self]
    exact decide_eq_false hanswer

/-- The registers at the call of the fill function. -/
def fillArgs (E : NativeEnv A64Reg γ capacity) (s : NativeState A64Reg γ capacity) :
    NativeState A64Reg γ capacity :=
  let s₁ := s.set .x0 (s.reg .x2)
  (s₁.setLow .x1 (s₁.low targetReg)).set .x9 E.home.fill

theorem fillArgs_site : (fillArgs E s).reg .x0 = s.reg .x2 := by
  rw [fillArgs, NativeState.set_ne _ (by decide), NativeState.setLow_ne _ (by decide),
    NativeState.set_self]

theorem fillArgs_target : (fillArgs E s).low .x1 = s.low targetReg := by
  rw [fillArgs, NativeState.low_set_ne _ (by decide), NativeState.low_setLow,
    NativeState.low_set_ne _ (by decide)]

theorem fillArgs_cpu : (fillArgs E s).reg cpuReg = s.reg cpuReg := by
  rw [fillArgs, NativeState.set_ne _ (by decide), NativeState.setLow_ne _ (by decide),
    NativeState.set_ne _ (by decide)]

/-- The fill function and what it finds, behind the check of the refills. -/
theorem ends_refill {item item' item'' : Item LeafInsn LeafCond LeafLabel}
    (hcode : behind .miss (emitCallIndirect E.home (some site) ret) =
      some (item :: item' :: item'' :: code))
    (hcpu : s.reg cpuReg = E.home.cpu) (hsite : s.reg .x2 = E.home.sitePtr site)
    (htarget : s.low targetReg = target)
    (hleaf : (s.heap.fill E.host site target).1 ≠ 0 →
      E.host.Declines (s.heap.fill E.host site target).1
        ⟨target, s.heap.guest.rest⟩) :
    Ends (leafMachine E) (emitCallIndirect E.home (some site) ret) code s
      (Jit.takeLeaf E.host (s.heap.fill E.host site target).1 target ret
        (s.heap.fill E.host site target).2) := by
  cases hcode
  refine .next (NativeEnv.store32_eip hcpu _) ?_
  rw [htarget]
  generalize hs₁ : s.withHeap (s.heap.withEip target) = s₁
  have hreg₁ : s₁.reg = s.reg := by rw [← hs₁, NativeState.withHeap_reg]
  have hheap₁ : s₁.heap = s.heap.withEip target := by rw [← hs₁]; rfl
  have hcpu₂ : (fillArgs E s₁).reg cpuReg = E.home.cpu := by rw [fillArgs_cpu, hreg₁, hcpu]
  have hsite₂ : (fillArgs E s₁).reg .x0 = E.home.sitePtr site := by
    rw [fillArgs_site, hreg₁, hsite]
  have htarget₂ : (fillArgs E s₁).low .x1 = target := by
    rw [fillArgs_target, NativeState.low, hreg₁, ← htarget]
    rfl
  have hheap₂ : (fillArgs E s₁).heap = s.heap.withEip target := hheap₁
  refine .next rfl (.next rfl (.next rfl (.next (exec_callFill (s := fillArgs E s₁)
    (NativeState.set_self _ _ _) hsite₂) (.next rfl (.next rfl ?_)))))
  rw [htarget₂, hheap₂]
  generalize hs₃ : (E.left.after calleeKeeps (fillArgs E s₁)
    ((s.heap.withEip target).fill E.host site target).2).set .x0
      ((s.heap.withEip target).fill E.host site target).1 = s₃
  have hcpu₃ : (s₃.set .x3 (s₃.reg .x0)).reg cpuReg = E.home.cpu := by
    rw [NativeState.set_ne _ (by decide), ← hs₃, NativeState.set_ne _ (by decide),
      Jit.after_reg _ _ rfl, hcpu₂]
  have hx3 : (s₃.set .x3 (s₃.reg .x0)).reg .x3 =
      (s.heap.fill E.host site target).1 := by
    rw [NativeState.set_self, ← hs₃, NativeState.set_self]
    rfl
  have hheap₃ : s₃.heap = ((s.heap.withEip target).fill E.host site target).2 := by
    rw [← hs₃, NativeState.set_heap, Jit.after_heap]
  rw [hx3, operand_zr]
  by_cases hnone : (s.heap.fill E.host site target).1 = 0
  · rw [hnone, Jit.takeLeaf_zero]
    have hleave : s₃.heap.leave (some target) =
        (s.heap.fill E.host site target).2.leave (some target) := by
      rewrite [hheap₃]
      rfl
    rw [← hleave]
    exact .passed rfl (.taken rfl rfl (ends_reload rfl hcpu₃ (congrArg (·.guest.eip) hheap₃)))
  · rw [Jit.takeLeaf_of_ne hnone]
    have hentered : s₃.heap = (s.heap.fill E.host site target).2.withEip target := hheap₃
    rw [← hentered]
    refine .taken (congrArg (!·) (decide_eq_false hnone)) rfl (ends_callLeaf rfl hcpu₃
      (congrArg (·.guest.eip) hheap₃) hx3 ?_)
    rw [NativeState.flags_heap, NativeState.set_heap, hheap₃]
    exact hleaf hnone

/-- The refill, with the site in X2. -/
theorem ends_miss
    (hcode : behind .miss (emitCallIndirect E.home (some site) ret) = some code)
    (hcpu : s.reg cpuReg = E.home.cpu) (hsite : s.reg .x2 = E.home.sitePtr site)
    (htarget : s.low targetReg = target) (hmiss : (s.heap.pool.site site).target ≠ target)
    (hleaf : (s.heap.siteLeaf E.host site target).1 ≠ 0 →
      E.host.Declines (s.heap.siteLeaf E.host site target).1
        ⟨target, s.heap.guest.rest⟩) :
    Ends (leafMachine E) (emitCallIndirect E.home (some site) ret) code s
      (Jit.takeLeaf E.host (s.heap.siteLeaf E.host site target).1 target ret
        (s.heap.siteLeaf E.host site target).2) := by
  cases hcode
  have htarget₁ : (s.setLow .x3 (s.heap.pool.site site).refills).low targetReg = target := by
    rw [NativeState.low_setLow_ne _ (by decide), htarget]
  refine .next (NativeEnv.load32_refills hsite _) (.next rfl ?_)
  rw [NativeState.low_setLow]
  by_cases hrefills : (s.heap.pool.site site).refills < Jit.leafSiteRefills
  · have hfound : s.heap.siteLeaf E.host site target =
        s.heap.fill E.host site target := by
      rw [CallHeap.siteLeaf, if_neg hmiss, if_pos hrefills]
    rw [hfound] at hleaf ⊢
    refine .passed (decide_eq_false (BitVec.not_le.mpr hrefills))
      (ends_refill rfl ?_ ?_ htarget₁ hleaf)
    · rw [NativeState.flags_reg, NativeState.setLow_ne _ (by decide), hcpu]
    · rw [NativeState.flags_reg, NativeState.setLow_ne _ (by decide), hsite]
  · have hfound : s.heap.siteLeaf E.host site target = (0, s.heap) := by
      rw [CallHeap.siteLeaf, if_neg hmiss, if_neg hrefills]
    rw [hfound, Jit.takeLeaf_zero]
    exact .taken (decide_eq_true (BitVec.not_lt.mp hrefills)) rfl (ends_ordinary rfl htarget₁)

/-- A site that has seen the target, its leaf in X3. -/
theorem ends_hit {leaf : U64} (hcode : (emitLeafSite E.home site ret).drop 5 ++
      emitSiteRefill E.home = code)
    (hcpu : s.reg cpuReg = E.home.cpu) (htarget : s.low targetReg = target)
    (hreg : s.reg .x3 = leaf)
    (hleaf : leaf ≠ 0 → E.host.Declines leaf ⟨target, s.heap.guest.rest⟩) :
    Ends (leafMachine E) (emitCallIndirect E.home (some site) ret) code s
      (Jit.takeLeaf E.host leaf target ret s.heap) := by
  subst hcode
  refine .next rfl ?_
  rw [hreg, operand_zr]
  by_cases hnone : leaf = 0
  · rw [hnone, Jit.takeLeaf_zero]
    exact .taken rfl rfl (ends_ordinary rfl htarget)
  · rw [Jit.takeLeaf_of_ne hnone]
    refine .passed (decide_eq_false hnone)
      (.next (NativeEnv.store32_eip (by exact hcpu) _) (.label ?_))
    subst htarget
    exact ends_callLeaf rfl hcpu rfl hreg (hleaf hnone)

/-- The whole site, the return address pushed and the target in its register. -/
theorem ends_leafSite (hcpu : s.reg cpuReg = E.home.cpu) (htarget : s.low targetReg = target)
    (hleaf : (s.heap.siteLeaf E.host site target).1 ≠ 0 →
      E.host.Declines (s.heap.siteLeaf E.host site target).1
        ⟨target, s.heap.guest.rest⟩) :
    Ends (leafMachine E) (emitCallIndirect E.home (some site) ret)
      (emitLeafSite E.home site ret ++ emitSiteRefill E.home) s
      (Jit.takeLeaf E.host (s.heap.siteLeaf E.host site target).1 target ret
        (s.heap.siteLeaf E.host site target).2) := by
  generalize hs₁ : s.set .x2 (E.home.sitePtr site) = s₁
  have hheap₁ : s₁.heap = s.heap := by rw [← hs₁, NativeState.set_heap]
  have hsite₁ : s₁.reg .x2 = E.home.sitePtr site := by
    rw [← hs₁, NativeState.set_self]
  have hcpu₁ : s₁.reg cpuReg = E.home.cpu := by rw [← hs₁, NativeState.set_ne _ (by decide), hcpu]
  have htarget₁ : s₁.low targetReg = target := by
    rw [← hs₁, NativeState.low_set_ne _ (by decide), htarget]
  rw [← hheap₁] at hleaf ⊢
  refine .next (congrArg Reached.next hs₁) (.next (NativeEnv.load32_target hsite₁ _) (.next rfl ?_))
  generalize hs₂ : s₁.setLow .x3 (s₁.heap.pool.site site).target = s₂
  have hheap₂ : s₂.heap = s₁.heap := by rw [← hs₂, NativeState.setLow_heap]
  have hsite₂ : s₂.reg .x2 = E.home.sitePtr site := by
    rw [← hs₂, NativeState.setLow_ne _ (by decide), hsite₁]
  have hcpu₂ : s₂.reg cpuReg = E.home.cpu := by
    rw [← hs₂, NativeState.setLow_ne _ (by decide), hcpu₁]
  have htarget₂ : s₂.low targetReg = target := by
    rw [← hs₂, NativeState.low_setLow_ne _ (by decide), htarget₁]
  have hseen₂ : s₂.low .x3 = (s₂.heap.pool.site site).target := by
    rw [hheap₂, ← hs₂, NativeState.low_setLow]
  rw [← hheap₂] at hleaf ⊢
  rw [htarget₂, hseen₂]
  by_cases hmiss : (s₂.heap.pool.site site).target = target
  · have hfound : s₂.heap.siteLeaf E.host site target =
        ((s₂.heap.pool.site site).leaf, s₂.heap) := by
      rw [CallHeap.siteLeaf, if_pos hmiss]
    rw [hfound] at hleaf ⊢
    refine .passed (congrArg (!·) (decide_eq_true hmiss.symm))
      (.next (NativeEnv.loadPtr_leaf (by exact hsite₂) _) ?_)
    refine ends_hit rfl ?_ ?_ (NativeState.set_self _ _ _) hleaf
    · rw [NativeState.set_ne _ (by decide), NativeState.flags_reg, hcpu₂]
    · rw [NativeState.low_set_ne _ (by decide)]
      exact htarget₂
  · exact .taken (congrArg (!·) (decide_eq_false (Ne.symm hmiss))) rfl
      (ends_miss rfl hcpu₂ hsite₂ htarget₂ hmiss hleaf)

/-- An indirect CALL. -/
theorem ends_callIndirect (hcpu : s.reg cpuReg = E.home.cpu) (claimed : Option (Fin capacity))
    (hleaf : ∀ target rest,
      ((LeafSearch.indirect claimed).find E.host target (s.heap.withRest rest)).1 ≠ 0 →
      E.host.Declines ((LeafSearch.indirect claimed).find E.host target (s.heap.withRest rest)).1
        ⟨target, rest⟩) :
    Ends (leafMachine E) (emitCallIndirect E.home claimed ret)
      (emitCallIndirect E.home claimed ret) s
      (Jit.call E.host E.callee (.indirect claimed) ret s.heap) := by
  unfold Jit.call
  cases hcallee : E.callee s.heap.guest.rest with
  | none => exact .leave (NativeEnv.readTarget_none hcallee)
  | some target =>
    refine .next (exec_readTarget hcallee) (.next rfl ?_)
    generalize hs₁ : (E.left.after readKeeps s s.heap).setLow targetReg target = s₁
    have hheap₁ : s₁.heap = s.heap := by rw [← hs₁, NativeState.setLow_heap, Jit.after_heap]
    have hcpu₁ : s₁.reg cpuReg = E.home.cpu := by
      rw [← hs₁, NativeState.setLow_ne _ (by decide), Jit.after_reg _ _ rfl, hcpu]
    have htarget₁ : s₁.low targetReg = target := by
      rw [← hs₁, NativeState.low_setLow]
    rw [← hheap₁] at hleaf ⊢
    cases hpush : E.host.push ret s₁.heap.guest.rest with
    | none => exact .leave (exec_push_none hpush)
    | some rest =>
      refine .next (exec_push hpush) ?_
      generalize hs₂ : E.left.after pushKeeps (s₁.setLow .x0 ret) (s₁.heap.withRest rest) = s₂
      have hheap₂ : s₂.heap = s₁.heap.withRest rest := by rw [← hs₂, Jit.after_heap]
      have hcpu₂ : s₂.reg cpuReg = E.home.cpu := by
        rw [← hs₂, Jit.after_reg _ _ rfl, NativeState.setLow_ne _ (by decide), hcpu₁]
      have htarget₂ : s₂.low targetReg = target := by
        rw [← hs₂, Jit.after_low _ _ rfl, NativeState.low_setLow_ne _ (by decide), htarget₁]
      have hrest₂ : s₂.heap.guest.rest = rest := congrArg (·.guest.rest) hheap₂
      have hleaf₂ := hleaf target rest
      rw [← hheap₂, ← hrest₂] at hleaf₂
      dsimp only
      rw [← hheap₂]
      cases claimed with
      | none =>
        rw [LeafSearch.find, Jit.takeLeaf_zero, ← htarget₂]
        exact .leave rfl
      | some site => exact ends_leafSite hcpu₂ htarget₂ hleaf₂

end Indirect

/-! ## The code of a direct CALL -/

section Direct

variable {γ : Type} {capacity : Nat} {E : NativeEnv A64Reg γ capacity}
  {s : NativeState A64Reg γ capacity}
  {ret target : U32} {leaf : U64}

/-- A leaf known at translation. -/
theorem ends_leafCall {prog : LeafCode}
    (hprog : behind .taken prog = some [.insn (.exit ret)]) (hcpu : s.reg cpuReg = E.home.cpu)
    (hnone : leaf ≠ 0) :
    Ends (leafMachine E) prog (emitLeafCall E.home leaf ret target) s
      (Jit.takeLeaf E.host leaf target ret s.heap) := by
  rw [Jit.takeLeaf_of_ne hnone]
  generalize hs₁ : s.setLow .x9 target = s₁
  have hheap₁ : s₁.heap = s.heap := by rw [← hs₁, NativeState.setLow_heap]
  have hcpu₁ : s₁.reg cpuReg = E.home.cpu := by
    rw [← hs₁, NativeState.setLow_ne _ (by decide), hcpu]
  have htarget₁ : s₁.low .x9 = target := by rw [← hs₁, NativeState.low_setLow]
  refine .next (congrArg Reached.next hs₁) (.next (NativeEnv.store32_eip hcpu₁ _) ?_)
  rw [htarget₁, hheap₁]
  generalize hs₂ : s₁.withHeap (s.heap.withEip target) = s₂
  have hheap₂ : s₂.heap = s.heap.withEip target := by rw [← hs₂]; rfl
  have hcpu₂ : s₂.reg cpuReg = E.home.cpu := by rw [← hs₂, NativeState.withHeap_reg, hcpu₁]
  generalize hs₃ : (s₂.set .x0 (s₂.reg cpuReg)).set .x9 leaf = s₃
  have hheap₃ : s₃.heap = s.heap.withEip target := by
    rw [← hs₃, NativeState.set_heap, NativeState.set_heap, hheap₂]
  have hx9 : s₃.reg .x9 = leaf := by rw [← hs₃, NativeState.set_self]
  have harg₃ : s₃.reg .x0 = E.home.cpu := by
    rw [← hs₃, NativeState.set_ne _ (by decide), NativeState.set_self, hcpu₂]
  refine .next rfl (.next (congrArg Reached.next hs₃)
    (.next (exec_callLeaf _ harg₃) (.next rfl ?_)))
  rw [hx9, hheap₃, NativeState.low_setInt, BitVec.and_self]
  by_cases hanswer : ((s.heap.withEip target).callLeaf E.host leaf).1 = 0
  · rw [if_pos hanswer]
    exact .passed (congrArg (!·) (decide_eq_true hanswer)) (.leave rfl)
  · rw [if_neg hanswer]
    exact .taken (congrArg (!·) (decide_eq_false hanswer)) hprog (.leave rfl)

/-- A direct CALL. -/
theorem ends_callRel (hcpu : s.reg cpuReg = E.home.cpu) (leafed : Bool) :
    Ends (leafMachine E) (emitCallRel E.home (E.host.directLeaf leafed target) ret target)
      (emitCallRel E.home (E.host.directLeaf leafed target) ret target) s
      (Jit.call E.host (fun _ => some target) (.direct leafed) ret s.heap) := by
  unfold Jit.call
  refine .next rfl ?_
  cases hpush : E.host.push ret s.heap.guest.rest with
  | none => exact .leave (exec_push_none hpush)
  | some rest =>
    refine .next (exec_push hpush) ?_
    generalize hs₁ : E.left.after pushKeeps (s.setLow .x0 ret) (s.heap.withRest rest) = s₁
    have hheap₁ : s₁.heap = s.heap.withRest rest := by rw [← hs₁, Jit.after_heap]
    have hcpu₁ : s₁.reg cpuReg = E.home.cpu := by
      rw [← hs₁, Jit.after_reg _ _ rfl, NativeState.setLow_ne _ (by decide), hcpu]
    dsimp only [LeafSearch.find]
    rw [← hheap₁]
    by_cases hnone : E.host.directLeaf leafed target = 0
    · rw [hnone, Jit.takeLeaf_zero]
      exact .leave rfl
    · have hcode : emitCallRel E.home (E.host.directLeaf leafed target) ret target =
          .insn (.movWImm .x0 ret) :: .insn .pushX0 ::
            emitLeafCall E.home (E.host.directLeaf leafed target) ret target := by
        rewrite [emitCallRel, if_pos hnone]
        rfl
      rw [hcode, if_pos hnone]
      exact ends_leafCall rfl hcpu₁ hnone

end Direct

end X86Port.Arm64
