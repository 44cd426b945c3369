import X86Port.Jit.NativeCall
import X86Port.X64.CacheFlow

/-!
# Leaves on x86-64

`emit_call_rel`, `emit_leaf_call`, `emit_leaf_site` and `emit_call_indirect` of `jit_x64_branch.c`
over the instructions they emit.

* `ends_callLeaf`, `ends_reload`, `ends_miss`: from each label on.
* `ends_callIndirect`, `ends_callRel`: the code of a CALL comes to what `Jit.call` says.
-/

namespace X86Port.X64

open Jit (CallHeap Left LeafSearch NativeAbi NativeEnv NativeState SiteHome)
open Lib.JumpCode (Item Reached Machine Ends behind)

inductive LeafLabel where
  | callLeaf
  | miss
  | reload
  | ordinary
  | taken
deriving DecidableEq

inductive LeafCond where
  | z
  | nz
  | nb
deriving DecidableEq

/-- One emitter a constructor, besides the routines that the CALL shares with other
instructions: the read of its operand into the target register, the push of ESI, and the
exits. -/
inductive LeafInsn where
  | movImm64 (dst : HostReg) (imm : U64)
  | movImm32 (dst : HostReg) (imm : U32)
  | mov64 (dst src : HostReg)
  | mov32 (dst src : HostReg)
  | load32 (dst base : HostReg) (disp : Nat)
  | load64 (dst base : HostReg) (disp : Nat)
  | store32 (base : HostReg) (disp : Nat) (src : HostReg)
  | store32Imm (base : HostReg) (disp : Nat) (imm : U32)
  | cmpMem32 (r base : HostReg) (disp : Nat)
  | cmpImm32 (r : HostReg) (imm : U32)
  | cmpImm64 (r : HostReg) (imm : U64)
  | test32 (a b : HostReg)
  | call (r : HostReg)
  | readTarget
  | pushRsi
  | exitFrom (r : HostReg)
  | exit (dest : U32)

abbrev LeafCode := List (Item LeafInsn LeafCond LeafLabel)

/-- The registers that both ABIs make a called function keep. -/
def calleeKeeps : HostReg → Bool
  | .rbx | .rsp | .rbp | .r12 | .r13 | .r14 | .r15 => true
  | _ => false

def readKeeps : HostReg → Bool
  | .rbx | .rsp => true
  | _ => false

/-- The push writes EAX, R11, the scratch of its bounds check and the guest register cache, and
not the target register. -/
def pushKeeps : HostReg → Bool
  | .rbx | .rsp | .rdx => true
  | _ => false

/-- `CPU_REG`. -/
def cpuReg : HostReg := .rbx

/-- `TARGET_REG`. -/
def targetReg : HostReg := .rdx

def leafAbi (abi : HostAbi) : NativeAbi HostReg where
  cpu := cpuReg
  target := targetReg
  arg₀ := abi.arg 0
  arg₁ := abi.arg 1
  result := .rax
  pushed := .rsi
  calleeKeeps := calleeKeeps
  readKeeps := readKeeps
  pushKeeps := pushKeeps

section

variable {γ : Type} {capacity : Nat} (abi : HostAbi) (E : NativeEnv HostReg γ capacity)

def execLeaf : LeafInsn → NativeState HostReg γ capacity →
    Reached (NativeState HostReg γ capacity) (Left γ 64 capacity)
  | .movImm64 dst imm, s => .next (s.set dst imm)
  | .movImm32 dst imm, s => .next (s.setLow dst imm)
  | .mov64 dst src, s => .next (s.set dst (s.reg src))
  | .mov32 dst src, s => .next (s.setLow dst (s.low src))
  | .load32 dst base disp, s => E.load32 dst base disp s
  | .load64 dst base disp, s => E.loadPtr dst base disp s
  | .store32 base disp src, s => E.store32 base disp (s.low src) s
  | .store32Imm base disp imm, s => E.store32 base disp imm s
  | .cmpMem32 r base disp, s =>
    match E.home.load32 s.heap (s.addr base disp) with
    | some v => .next (s.flags (decide (s.low r = v)) (decide (s.low r < v)))
    | none => .trap
  | .cmpImm32 r imm, s => .next (s.flags (decide (s.low r = imm)) (decide (s.low r < imm)))
  | .cmpImm64 r imm, s => .next (s.flags (decide (s.reg r = imm)) (decide (s.reg r < imm)))
  | .test32 a b, s => .next (s.flags (decide (s.low a &&& s.low b = 0)) false)
  | .call r, s => E.callThrough (leafAbi abi) r s
  | .readTarget, s => E.readTarget (leafAbi abi) s
  | .pushRsi, s => E.push (leafAbi abi) s
  | .exitFrom r, s => .leave (s.heap.leave (some (s.low r)))
  | .exit dest, s => .leave (s.heap.leave (some dest))

def LeafCond.holds : LeafCond → NativeState HostReg γ capacity → Bool
  | .z, s => s.zf
  | .nz, s => !s.zf
  | .nb, s => !s.cf

def leafMachine :
    Machine LeafInsn LeafCond (NativeState HostReg γ capacity) (Left γ 64 capacity) :=
  ⟨execLeaf abi E, LeafCond.holds⟩

end

/-! ## What is emitted -/

section

variable {capacity : Nat} (abi : HostAbi) (H : SiteHome 64 capacity)

def emitLeafCall (leaf : U64) (returnEip target : U32) : LeafCode := [
  .insn (.store32Imm cpuReg H.eip target),
  .insn (.mov64 (abi.arg 0) cpuReg),
  .insn (.movImm64 .rax leaf),
  .insn (.call .rax),
  .insn (.test32 .rax .rax),
  .jump .nz .taken,
  .insn (.exit target),
  .label .taken,
  .insn (.exit returnEip)]

/-- `leaf` is the resolver's answer, zero without a resolver. -/
def emitCallRel (leaf : U64) (returnEip target : U32) : LeafCode :=
  ([.insn (.movImm32 .rsi returnEip), .insn .pushRsi] : LeafCode) ++
    if leaf ≠ 0 then emitLeafCall abi H leaf returnEip target else [.insn (.exit target)]

def emitLeafSite (site : Fin capacity) (returnEip : U32) : LeafCode := [
  .insn (.movImm64 .rax (H.sitePtr site)),
  .insn (.cmpMem32 targetReg .rax Jit.targetAt),
  .jump .nz .miss,
  .insn (.load64 .rax .rax Jit.leafAt),
  .insn (.cmpImm64 .rax 0),
  .jump .z .ordinary,
  .insn (.store32 cpuReg H.eip targetReg),
  .label .callLeaf,
  .insn (.mov64 (abi.arg 0) cpuReg),
  .insn (.call .rax),
  .insn (.test32 .rax .rax),
  .jump .z .reload,
  .insn (.exit returnEip),
  .label .miss,
  .insn (.load32 .rcx .rax Jit.refillsAt),
  .insn (.cmpImm32 .rcx Jit.leafSiteRefills),
  .jump .nb .ordinary,
  .insn (.store32 cpuReg H.eip targetReg),
  .insn (.mov32 (abi.arg 1) targetReg),
  .insn (.mov64 (abi.arg 0) .rax),
  .insn (.movImm64 .rax H.fill),
  .insn (.call .rax),
  .insn (.cmpImm64 .rax 0),
  .jump .nz .callLeaf,
  .label .reload,
  .insn (.load32 targetReg cpuReg H.eip),
  .label .ordinary,
  .insn (.exitFrom targetReg)]

/-- `site` is the claim's answer, none without a pool. -/
def emitCallIndirect (site : Option (Fin capacity)) (returnEip : U32) : LeafCode :=
  ([.insn .readTarget, .insn (.movImm32 .rsi returnEip), .insn .pushRsi] : LeafCode) ++
    match site with
    | some i => emitLeafSite abi H i returnEip
    | none => [.insn (.exitFrom targetReg)]

end

/-! ## One instruction -/

section Insn

variable {γ : Type} {capacity : Nat} {abi : HostAbi} {E : NativeEnv HostReg γ capacity}
  {s : NativeState HostReg γ capacity}

/-- A leaf on the guest CPU. -/
theorem exec_callLeaf (r : HostReg) (harg : s.reg (abi.arg 0) = E.home.cpu) :
    execLeaf abi E (.call r) s = .next ((E.left.after calleeKeeps s
      (s.heap.callLeaf E.host (s.reg r)).2).setInt .rax
        ((E.left.reg s .rax >>> 32).setWidth 32) (s.heap.callLeaf E.host (s.reg r)).1) :=
  NativeEnv.callThrough_leaf r harg

/-- The fill function on a site and a target. -/
theorem exec_callFill {r : HostReg} {site : Fin capacity} (hr : s.reg r = E.home.fill)
    (harg : s.reg (abi.arg 0) = E.home.sitePtr site) :
    execLeaf abi E (.call r) s = .next ((E.left.after calleeKeeps s
      (s.heap.fill E.host site (s.low (abi.arg 1))).2).set .rax
        (s.heap.fill E.host site (s.low (abi.arg 1))).1) :=
  NativeEnv.callThrough_fill hr harg

theorem exec_readTarget {target : U32} (h : E.callee s.heap.guest.rest = some target) :
    execLeaf abi E .readTarget s =
      .next ((E.left.after readKeeps s s.heap).setLow targetReg target) :=
  NativeEnv.readTarget_some h

theorem exec_push {ret : U32} {rest : γ} (h : E.host.push ret s.heap.guest.rest = some rest) :
    execLeaf abi E .pushRsi (s.setLow .rsi ret) =
      .next (E.left.after pushKeeps (s.setLow .rsi ret) (s.heap.withRest rest)) :=
  NativeEnv.push_some h

theorem exec_push_none {ret : U32} (h : E.host.push ret s.heap.guest.rest = none) :
    execLeaf abi E .pushRsi (s.setLow .rsi ret) = .leave (s.heap.leave none) :=
  NativeEnv.push_none h

theorem exec_cmpTarget (abi : HostAbi) {base : HostReg} {site : Fin capacity}
    (hbase : s.reg base = E.home.sitePtr site) (r : HostReg) :
    execLeaf abi E (.cmpMem32 r base Jit.targetAt) s =
      .next (s.flags (decide (s.low r = (s.heap.pool.site site).target))
        (decide (s.low r < (s.heap.pool.site site).target))) := by
  rw [execLeaf, Jit.addr_site hbase (by decide), SiteHome.load32_target]

theorem holds_test {r : HostReg} (h : s.low r = 0) :
    LeafCond.z.holds (s.flags (decide (s.low r &&& s.low r = 0)) false) = true := by
  rw [h]
  rfl

theorem holds_test_not {r : HostReg} (h : s.low r ≠ 0) :
    LeafCond.z.holds (s.flags (decide (s.low r &&& s.low r = 0)) false) = false := by
  rw [BitVec.and_self]
  exact decide_eq_false h

theorem arg_ne (abi : HostAbi) :
    abi.arg 0 ≠ cpuReg ∧ abi.arg 0 ≠ .rax ∧ abi.arg 0 ≠ abi.arg 1 ∧ abi.arg 1 ≠ cpuReg ∧
      abi.arg 1 ≠ .rax := by
  cases abi <;> decide

end Insn

/-! ## The code of a leaf site -/

section Indirect

variable {γ : Type} {capacity : Nat} {abi : HostAbi} {E : NativeEnv HostReg γ capacity}
  {s : NativeState HostReg γ capacity}
  {site : Fin capacity} {ret target : U32} {code : LeafCode}

theorem ends_ordinary
    (hcode : behind .ordinary (emitCallIndirect abi E.home (some site) ret) = some code)
    (htarget : s.low targetReg = target) :
    Ends (leafMachine abi E) (emitCallIndirect abi E.home (some site) ret) code s
      (s.heap.leave (some target)) := by
  cases hcode
  subst htarget
  exact .leave rfl

/-- After a call, the target is the one kept in EIP. -/
theorem ends_reload
    (hcode : behind .reload (emitCallIndirect abi E.home (some site) ret) = some code)
    (hcpu : s.reg cpuReg = E.home.cpu) (htarget : s.heap.guest.eip = target) :
    Ends (leafMachine abi E) (emitCallIndirect abi E.home (some site) ret) code s
      (s.heap.leave (some target)) := by
  cases hcode
  refine .next (NativeEnv.load32_eip hcpu _) (.label ?_)
  exact ends_ordinary rfl ((s.low_setLow _ _).trans htarget)

/-- The leaf in RAX, entered with EIP at the target. -/
theorem ends_callLeaf
    (hcode : behind .callLeaf (emitCallIndirect abi E.home (some site) ret) = some code)
    (hcpu : s.reg cpuReg = E.home.cpu) (htarget : s.heap.guest.eip = target)
    (hleaf : E.host.Declines (s.reg .rax) s.heap.guest) :
    Ends (leafMachine abi E) (emitCallIndirect abi E.home (some site) ret) code s
      ((s.heap.callLeaf E.host (s.reg .rax)).2.leave
        (some (if (s.heap.callLeaf E.host (s.reg .rax)).1 = 0 then target else ret))) := by
  cases hcode
  obtain ⟨hargCpu, hargRax, -⟩ := arg_ne abi
  have hrax : (s.set (abi.arg 0) (s.reg cpuReg)).reg .rax = s.reg .rax :=
    s.set_ne hargRax.symm _
  refine .next rfl (.next (exec_callLeaf _ ?_) (.next rfl ?_))
  · rw [NativeState.set_self, hcpu]
  rw [hrax, NativeState.set_heap]
  by_cases hanswer : (s.heap.callLeaf E.host (s.reg .rax)).1 = 0
  · refine .taken (holds_test (by rw [NativeState.low_setInt, hanswer])) rfl ?_
    have hsame := hleaf hanswer
    rw [if_pos hanswer]
    refine ends_reload rfl ?_ ((congrArg Jit.LeafGuest.eip hsame).trans htarget)
    rw [NativeState.flags_reg, NativeState.setInt, NativeState.set_ne _ (by decide),
      Jit.after_reg _ _ rfl, NativeState.set_ne _ hargCpu.symm, hcpu]
  · refine .passed (holds_test_not (by rw [NativeState.low_setInt]; exact hanswer)) ?_
    rw [if_neg hanswer]
    exact .leave rfl

/-- The registers at the call of the fill function. -/
def fillArgs (abi : HostAbi) (E : NativeEnv HostReg γ capacity)
    (s : NativeState HostReg γ capacity) : NativeState HostReg γ capacity :=
  let s₁ := s.setLow (abi.arg 1) (s.low targetReg)
  (s₁.set (abi.arg 0) (s₁.reg .rax)).set .rax E.home.fill

theorem fillArgs_site : (fillArgs abi E s).reg (abi.arg 0) = s.reg .rax := by
  obtain ⟨-, hargRax, -, -, harg₁⟩ := arg_ne abi
  rw [fillArgs, NativeState.set_ne _ hargRax, NativeState.set_self,
    NativeState.setLow_ne _ harg₁.symm]

theorem fillArgs_target : (fillArgs abi E s).low (abi.arg 1) = s.low targetReg := by
  obtain ⟨-, -, hargs, -, harg₁⟩ := arg_ne abi
  have hlow := s.low_setLow (abi.arg 1) (s.low targetReg)
  rwa [fillArgs, NativeState.low, NativeState.set_ne _ harg₁, NativeState.set_ne _ hargs.symm]

theorem fillArgs_cpu : (fillArgs abi E s).reg cpuReg = s.reg cpuReg := by
  obtain ⟨harg₀, -, -, harg₁, -⟩ := arg_ne abi
  rw [fillArgs, NativeState.set_ne _ (by decide), NativeState.set_ne _ harg₀.symm,
    NativeState.setLow_ne _ harg₁.symm]

/-- The fill function and what it finds, behind the check of the refills. -/
theorem ends_refill {item item' item'' : Item LeafInsn LeafCond LeafLabel}
    (hcode : behind .miss (emitCallIndirect abi E.home (some site) ret) =
      some (item :: item' :: item'' :: code))
    (hcpu : s.reg cpuReg = E.home.cpu) (hsite : s.reg .rax = E.home.sitePtr site)
    (htarget : s.low targetReg = target)
    (hleaf : (s.heap.fill E.host site target).1 ≠ 0 →
      E.host.Declines (s.heap.fill E.host site target).1
        ⟨target, s.heap.guest.rest⟩) :
    Ends (leafMachine abi E) (emitCallIndirect abi E.home (some site) ret) code s
      (Jit.takeLeaf E.host (s.heap.fill E.host site target).1 target ret
        (s.heap.fill E.host site target).2) := by
  cases hcode
  refine .next (NativeEnv.store32_eip hcpu _) ?_
  rw [htarget]
  generalize hs₁ : s.withHeap (s.heap.withEip target) = s₁
  have hreg₁ : s₁.reg = s.reg := by rw [← hs₁, NativeState.withHeap_reg]
  have hheap₁ : s₁.heap = s.heap.withEip target := by rw [← hs₁]; rfl
  have hcpu₂ : (fillArgs abi E s₁).reg cpuReg = E.home.cpu := by rw [fillArgs_cpu, hreg₁, hcpu]
  have hsite₂ : (fillArgs abi E s₁).reg (abi.arg 0) = E.home.sitePtr site := by
    rw [fillArgs_site, hreg₁, hsite]
  have htarget₂ : (fillArgs abi E s₁).low (abi.arg 1) = target := by
    rw [fillArgs_target, NativeState.low, hreg₁, ← htarget]
    rfl
  have hheap₂ : (fillArgs abi E s₁).heap = s.heap.withEip target := hheap₁
  refine .next rfl (.next rfl (.next rfl (.next (exec_callFill (s := fillArgs abi E s₁)
    (NativeState.set_self _ _ _) hsite₂) (.next rfl ?_))))
  rw [htarget₂, hheap₂]
  have hcpu₃ : ((E.left.after calleeKeeps (fillArgs abi E s₁)
      ((s.heap.withEip target).fill E.host site target).2).set .rax
        ((s.heap.withEip target).fill E.host site target).1).reg cpuReg = E.home.cpu := by
    rw [NativeState.set_ne _ (by decide), Jit.after_reg _ _ rfl, hcpu₂]
  by_cases hnone : (s.heap.fill E.host site target).1 = 0
  · rw [hnone, Jit.takeLeaf_zero]
    refine .passed ?_ (.label (ends_reload rfl hcpu₃ rfl))
    rw [NativeState.set_self]
    exact congrArg (!·) (decide_eq_true hnone)
  · rw [Jit.takeLeaf_of_ne hnone]
    refine .taken ?_ rfl (ends_callLeaf rfl hcpu₃ rfl ?_)
    · rw [NativeState.set_self]
      exact congrArg (!·) (decide_eq_false hnone)
    · rw [NativeState.flags_reg, NativeState.set_self]
      exact hleaf hnone

/-- The refill, with the site in RAX. -/
theorem ends_miss
    (hcode : behind .miss (emitCallIndirect abi E.home (some site) ret) = some code)
    (hcpu : s.reg cpuReg = E.home.cpu) (hsite : s.reg .rax = E.home.sitePtr site)
    (htarget : s.low targetReg = target) (hmiss : (s.heap.pool.site site).target ≠ target)
    (hleaf : (s.heap.siteLeaf E.host site target).1 ≠ 0 →
      E.host.Declines (s.heap.siteLeaf E.host site target).1
        ⟨target, s.heap.guest.rest⟩) :
    Ends (leafMachine abi E) (emitCallIndirect abi E.home (some site) ret) code s
      (Jit.takeLeaf E.host (s.heap.siteLeaf E.host site target).1 target ret
        (s.heap.siteLeaf E.host site target).2) := by
  cases hcode
  have htarget₁ : (s.setLow .rcx (s.heap.pool.site site).refills).low targetReg = target := by
    rw [NativeState.low_setLow_ne _ (by decide), htarget]
  refine .next (NativeEnv.load32_refills hsite _) (.next rfl ?_)
  by_cases hrefills : (s.heap.pool.site site).refills < Jit.leafSiteRefills
  · have hfound : s.heap.siteLeaf E.host site target =
        s.heap.fill E.host site target := by
      rw [CallHeap.siteLeaf, if_neg hmiss, if_pos hrefills]
    rw [hfound] at hleaf ⊢
    refine .passed ?_ (ends_refill rfl ?_ ?_ htarget₁ hleaf)
    · rw [NativeState.low_setLow, decide_eq_true hrefills]
      rfl
    · rw [NativeState.flags_reg, NativeState.setLow_ne _ (by decide), hcpu]
    · rw [NativeState.flags_reg, NativeState.setLow_ne _ (by decide), hsite]
  · have hfound : s.heap.siteLeaf E.host site target = (0, s.heap) := by
      rw [CallHeap.siteLeaf, if_neg hmiss, if_neg hrefills]
    rw [hfound, Jit.takeLeaf_zero]
    refine .taken ?_ rfl (ends_ordinary rfl htarget₁)
    rw [NativeState.low_setLow, decide_eq_false hrefills]
    rfl

/-- A site that has seen the target, its leaf in RAX. -/
theorem ends_hit {leaf : U64} (hcode : (emitLeafSite abi E.home site ret).drop 4 = code)
    (hcpu : s.reg cpuReg = E.home.cpu) (htarget : s.low targetReg = target)
    (hrax : s.reg .rax = leaf)
    (hleaf : leaf ≠ 0 → E.host.Declines leaf ⟨target, s.heap.guest.rest⟩) :
    Ends (leafMachine abi E) (emitCallIndirect abi E.home (some site) ret) code s
      (Jit.takeLeaf E.host leaf target ret s.heap) := by
  subst hcode hrax
  by_cases hnone : s.reg .rax = 0
  · rw [hnone, Jit.takeLeaf_zero]
    exact .next rfl (.taken (decide_eq_true hnone) rfl (ends_ordinary rfl htarget))
  · rw [Jit.takeLeaf_of_ne hnone]
    refine .next rfl (.passed (decide_eq_false hnone)
      (.next (NativeEnv.store32_eip (by exact hcpu) _) (.label ?_)))
    subst htarget
    exact ends_callLeaf rfl hcpu rfl (hleaf hnone)

/-- The whole site, the return address pushed and the target in its register. -/
theorem ends_leafSite (hcpu : s.reg cpuReg = E.home.cpu) (htarget : s.low targetReg = target)
    (hleaf : (s.heap.siteLeaf E.host site target).1 ≠ 0 →
      E.host.Declines (s.heap.siteLeaf E.host site target).1
        ⟨target, s.heap.guest.rest⟩) :
    Ends (leafMachine abi E) (emitCallIndirect abi E.home (some site) ret)
      (emitLeafSite abi E.home site ret) s
      (Jit.takeLeaf E.host (s.heap.siteLeaf E.host site target).1 target ret
        (s.heap.siteLeaf E.host site target).2) := by
  generalize hs₁ : s.set .rax (E.home.sitePtr site) = s₁
  have hheap₁ : s₁.heap = s.heap := by rw [← hs₁, NativeState.set_heap]
  have hsite₁ : s₁.reg .rax = E.home.sitePtr site := by rw [← hs₁, NativeState.set_self]
  have hcpu₁ : s₁.reg cpuReg = E.home.cpu := by rw [← hs₁, NativeState.set_ne _ (by decide), hcpu]
  have htarget₁ : s₁.low targetReg = target := by
    rw [← hs₁, NativeState.low_set_ne _ (by decide), htarget]
  rw [← hheap₁] at hleaf ⊢
  refine .next (congrArg Reached.next hs₁) (.next (exec_cmpTarget abi hsite₁ _) ?_)
  rw [htarget₁]
  by_cases hmiss : (s₁.heap.pool.site site).target = target
  · have hfound : s₁.heap.siteLeaf E.host site target =
        ((s₁.heap.pool.site site).leaf, s₁.heap) := by
      rw [CallHeap.siteLeaf, if_pos hmiss]
    rw [hfound] at hleaf ⊢
    refine .passed (congrArg (!·) (decide_eq_true hmiss.symm))
      (.next (NativeEnv.loadPtr_leaf (by exact hsite₁) _) ?_)
    refine ends_hit rfl ?_ ?_ (NativeState.set_self _ _ _) hleaf
    · rw [NativeState.set_ne _ (by decide), NativeState.flags_reg, hcpu₁]
    · rw [NativeState.low_set_ne _ (by decide)]
      exact htarget₁
  · exact .taken (congrArg (!·) (decide_eq_false (Ne.symm hmiss))) rfl
      (ends_miss rfl hcpu₁ hsite₁ htarget₁ hmiss hleaf)

/-- An indirect CALL. -/
theorem ends_callIndirect (hcpu : s.reg cpuReg = E.home.cpu) (claimed : Option (Fin capacity))
    (hleaf : ∀ target rest,
      ((LeafSearch.indirect claimed).find E.host target (s.heap.withRest rest)).1 ≠ 0 →
      E.host.Declines ((LeafSearch.indirect claimed).find E.host target (s.heap.withRest rest)).1
        ⟨target, rest⟩) :
    Ends (leafMachine abi E) (emitCallIndirect abi E.home claimed ret)
      (emitCallIndirect abi E.home claimed ret) s
      (Jit.call E.host E.callee (.indirect claimed) ret s.heap) := by
  unfold Jit.call
  cases hcallee : E.callee s.heap.guest.rest with
  | none => exact .leave (NativeEnv.readTarget_none hcallee)
  | some target =>
    refine .next (exec_readTarget hcallee) (.next rfl ?_)
    generalize hs₁ : (E.left.after readKeeps s s.heap).setLow targetReg target = s₁
    have hheap₁ : s₁.heap = s.heap := by rw [← hs₁, NativeState.setLow_heap, Jit.after_heap]
    have hcpu₁ : s₁.reg cpuReg = E.home.cpu := by
      rw [← hs₁, NativeState.setLow_ne _ (by decide), Jit.after_reg _ _ rfl, hcpu]
    have htarget₁ : s₁.low targetReg = target := by rw [← hs₁, NativeState.low_setLow]
    rw [← hheap₁] at hleaf ⊢
    cases hpush : E.host.push ret s₁.heap.guest.rest with
    | none => exact .leave (exec_push_none hpush)
    | some rest =>
      refine .next (exec_push hpush) ?_
      generalize hs₂ : E.left.after pushKeeps (s₁.setLow .rsi ret) (s₁.heap.withRest rest) = s₂
      have hheap₂ : s₂.heap = s₁.heap.withRest rest := by rw [← hs₂, Jit.after_heap]
      have hcpu₂ : s₂.reg cpuReg = E.home.cpu := by
        rw [← hs₂, Jit.after_reg _ _ rfl, NativeState.setLow_ne _ (by decide), hcpu₁]
      have htarget₂ : s₂.low targetReg = target := by
        rw [← hs₂, Jit.after_low _ _ rfl, NativeState.low_setLow_ne _ (by decide), htarget₁]
      have hrest₂ : s₂.heap.guest.rest = rest := congrArg (·.guest.rest) hheap₂
      have hleaf₂ := hleaf target rest
      rw [← hheap₂, ← hrest₂] at hleaf₂
      dsimp only
      rw [← hheap₂]
      cases claimed with
      | none =>
        rw [LeafSearch.find, Jit.takeLeaf_zero, ← htarget₂]
        exact .leave rfl
      | some site => exact ends_leafSite hcpu₂ htarget₂ hleaf₂

end Indirect

/-! ## The code of a direct CALL -/

section Direct

variable {γ : Type} {capacity : Nat} {abi : HostAbi} {E : NativeEnv HostReg γ capacity}
  {s : NativeState HostReg γ capacity}
  {ret target : U32} {leaf : U64}

/-- A leaf known at translation. -/
theorem ends_leafCall {prog : LeafCode}
    (hprog : behind .taken prog = some [.insn (.exit ret)]) (hcpu : s.reg cpuReg = E.home.cpu)
    (hnone : leaf ≠ 0) :
    Ends (leafMachine abi E) prog (emitLeafCall abi E.home leaf ret target) s
      (Jit.takeLeaf E.host leaf target ret s.heap) := by
  obtain ⟨-, hargRax, -⟩ := arg_ne abi
  rw [Jit.takeLeaf_of_ne hnone]
  refine .next (NativeEnv.store32_eip hcpu _) ?_
  generalize hs₁ : s.withHeap (s.heap.withEip target) = s₁
  have hheap₁ : s₁.heap = s.heap.withEip target := by rw [← hs₁]; rfl
  have hcpu₁ : s₁.reg cpuReg = E.home.cpu := by rw [← hs₁, NativeState.withHeap_reg, hcpu]
  generalize hs₂ : (s₁.set (abi.arg 0) (s₁.reg cpuReg)).set .rax leaf = s₂
  have hheap₂ : s₂.heap = s.heap.withEip target := by
    rw [← hs₂, NativeState.set_heap, NativeState.set_heap, hheap₁]
  have hrax₂ : s₂.reg .rax = leaf := by rw [← hs₂, NativeState.set_self]
  have harg₂ : s₂.reg (abi.arg 0) = E.home.cpu := by
    rw [← hs₂, NativeState.set_ne _ hargRax, NativeState.set_self, hcpu₁]
  refine .next rfl (.next (congrArg Reached.next hs₂)
    (.next (exec_callLeaf _ harg₂) (.next rfl ?_)))
  rw [hrax₂, hheap₂]
  by_cases hanswer : ((s.heap.withEip target).callLeaf E.host leaf).1 = 0
  · refine .passed ?_ ?_
    · rw [NativeState.low_setInt, hanswer]
      rfl
    · rw [if_pos hanswer]
      exact .leave rfl
  · refine .taken ?_ hprog ?_
    · rw [NativeState.low_setInt, BitVec.and_self]
      exact congrArg (!·) (decide_eq_false hanswer)
    · rw [if_neg hanswer]
      exact .leave rfl

/-- A direct CALL. -/
theorem ends_callRel (hcpu : s.reg cpuReg = E.home.cpu) (leafed : Bool) :
    Ends (leafMachine abi E) (emitCallRel abi E.home (E.host.directLeaf leafed target) ret target)
      (emitCallRel abi E.home (E.host.directLeaf leafed target) ret target) s
      (Jit.call E.host (fun _ => some target) (.direct leafed) ret s.heap) := by
  unfold Jit.call
  refine .next rfl ?_
  cases hpush : E.host.push ret s.heap.guest.rest with
  | none => exact .leave (exec_push_none hpush)
  | some rest =>
    refine .next (exec_push hpush) ?_
    generalize hs₁ : E.left.after pushKeeps (s.setLow .rsi ret) (s.heap.withRest rest) = s₁
    have hheap₁ : s₁.heap = s.heap.withRest rest := by rw [← hs₁, Jit.after_heap]
    have hcpu₁ : s₁.reg cpuReg = E.home.cpu := by
      rw [← hs₁, Jit.after_reg _ _ rfl, NativeState.setLow_ne _ (by decide), hcpu]
    dsimp only [LeafSearch.find]
    rw [← hheap₁]
    by_cases hnone : E.host.directLeaf leafed target = 0
    · rw [hnone, Jit.takeLeaf_zero]
      exact .leave rfl
    · have hcode : emitCallRel abi E.home (E.host.directLeaf leafed target) ret target =
          .insn (.movImm32 .rsi ret) :: .insn .pushRsi ::
            emitLeafCall abi E.home (E.host.directLeaf leafed target) ret target := by
        rewrite [emitCallRel, if_pos hnone]
        rfl
      rw [hcode, if_pos hnone]
      exact ends_leafCall rfl hcpu₁ hnone

end Direct

end X86Port.X64
