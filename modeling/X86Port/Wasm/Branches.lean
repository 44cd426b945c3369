import X86Port.Jit.LeafCall
import X86Port.Wasm.Stack

/-!
# The branches

`jit_wasm_branch.c`, with what `jit_wasm_leaf.c` emits behind a CALL: a conditional leaves from
inside its body and goes on behind itself, and every other transfer writes the guest's EIP and
returns.

* `jcc_goes`, `jecxz_goes`: a conditional leaves exactly when the interpreter takes its branch.
* `jmp_goes`, `call_goes`, `ret_goes`: the transfers that end a body without leaves.
-/

namespace X86Port.Wasm

open Lib StackCode
open Memory (Mem Host memRead memWrite)
open Cpu (Reg Width Operand Ctx Exec Halt Insn Cond Granted Alike regRead regWrite loadAt ecx esp)
open Cpu.Exec
open Jit (JitExit)

/-! ## The code -/

def isRelativeImmediate (i : Insn) : Bool :=
  i.operands == 1 && i.operand0.kind == .imm && i.operand0.relative

def isIndirectTarget (o : Operand) : Bool :=
  if o.kind == .reg then o.size == 4 else o.kind == .mem && o.size == 4 && !o.addr16

/-- The displacement is relative to the next instruction. -/
def relativeTarget (i : Insn) (pc : U32) : U32 := pc + i.length + i.operand0.imm

def readTarget (s : WasmState) (o : Operand) (pc : U32) : Code :=
  (if o.kind = .mem then s.guard o pc 4 memRead ++ s.loadMem .dword
    else WasmState.loadReg o.reg .dword) ++ ([.localSet .target] : Code)

def jmpAccepts (i : Insn) : Bool :=
  isRelativeImmediate i || i.operands == 1 && isIndirectTarget i.operand0

def jmpLower (l : WasmLower) (i : Insn) (pc : U32) : Code × WasmLower :=
  (if isRelativeImmediate i then l.state.exitImm (relativeTarget i pc) .blockEnd
    else readTarget l.state i.operand0 pc ++ l.state.exitLocal .target .blockEnd, l)

/-- The taken path is an exit of its own. -/
def leaveWhen (s : WasmState) (i : Insn) (pc : U32) : Code :=
  [.ite (s.exitImm (relativeTarget i pc) .blockEnd) []]

def jccContinue (l : WasmLower) (cc : Cond) (i : Insn) (pc : U32) : Code × WasmLower :=
  (l.condValue cc ++ leaveWhen l.state i pc, l)

def jecxzAccepts (i : Insn) : Bool :=
  isRelativeImmediate i && (i.addressWidth == 32 || i.addressWidth == 16)

/-- The counter is as wide as the address. -/
def jecxzContinue (l : WasmLower) (i : Insn) (pc : U32) : Code × WasmLower :=
  (WasmState.loadReg ecx (if i.addressWidth = 16 then .word else .dword) ++
    ([.op .eqz] : Code) ++ leaveWhen l.state i pc, l)

/-- The taken path, then the exit behind the instruction. -/
def jccLower (l : WasmLower) (cc : Cond) (i : Insn) (pc : U32) : Code × WasmLower :=
  ((jccContinue l cc i pc).1 ++ l.state.exitImm (pc + i.length) .blockEnd, l)

def jecxzLower (l : WasmLower) (i : Insn) (pc : U32) : Code × WasmLower :=
  ((jecxzContinue l i pc).1 ++ l.state.exitImm (pc + i.length) .blockEnd, l)

namespace WasmState

/-- A leaf of zero is the one in its local. -/
def callLeaf (leaf target : U32) (indirect : Bool) : Code := [
  cpu,
  if indirect then .localGet .target else .const target,
  .store 4 eipOffset,
  cpu,
  if leaf ≠ 0 then .const leaf else .localGet .r,
  .call .leafCall]

def siteField (site : U32) (offset : Nat) : Code := [.const site, .load 4 offset]

def siteLeaf (site : U32) : Code :=
  siteField site Jit.targetAt ++ ([
    .localGet .target,
    .op .eq,
    .ite (siteField site Jit.leafAt)
      (siteField site Jit.refillsAt ++ ([
        .const Jit.leafSiteRefills,
        .op .ltU,
        .ite [.const site, .localGet .target, .call .leafSiteFill] [.const 0]] : Code)),
    .localSet .r] : Code)

/-- A branch out of the block of `lower_site` is the empty arm of a conditional. -/
def lowerSite (s : WasmState) (site next : U32) : Code :=
  siteLeaf site ++ ([
    .localGet .r,
    .op .eqz,
    .ite [] (callLeaf 0 0 true ++ ([.op .eqz, .ite [] (s.exitImm next .blockEnd)] : Code))] : Code) ++
    s.exitLocal .target .blockEnd

def lowerDirect (s : WasmState) (leaf target next : U32) : Code :=
  callLeaf leaf target false ++ ([.ite (s.exitImm next .blockEnd) []] : Code) ++
    s.exitImm target .blockEnd

end WasmState

/-- `none` for a CALL that leaves the ordinary way. -/
def leafCallLower (l : WasmLower) (target next : U32) (indirect : Bool) :
    Option (Code × WasmLower) :=
  match l.leaf with
  | none => none
  | some leaf =>
    if indirect then
      leaf.site.map fun site => (l.state.lowerSite site next, { l with leafSite := some site })
    else if leaf.resolve target = 0 then none
    else some (l.state.lowerDirect (leaf.resolve target) target next, l)

/-- The target is read before the stack is touched. -/
def callLower (l : WasmLower) (i : Insn) (pc : U32) : Code × WasmLower :=
  let next := pc + i.length
  let indirect := !isRelativeImmediate i
  let pushed := (if indirect then readTarget l.state i.operand0 pc else []) ++
    ([.const next, .localSet .r] : Code) ++ pushLocal l.state .r pc
  match leafCallLower l (if indirect then 0 else relativeTarget i pc) next indirect with
  | some (leave, l) => (pushed ++ leave, l)
  | none => (pushed ++ (if indirect then l.state.exitLocal .target .blockEnd
      else l.state.exitImm (relativeTarget i pc) .blockEnd), l)

def retAccepts (i : Insn) : Bool :=
  i.operands == 0 || i.operands == 1 && i.operand0.kind == .imm

def retLower (l : WasmLower) (i : Insn) (pc : U32) : Code × WasmLower :=
  (popInto l.state .target (if i.operands = 1 then i.operand0.imm else 0) pc ++
    l.state.exitLocal .target .blockEnd, l)

/-! ## Leaving -/

/-- No exit of a body is chained. -/
def WasmState.Unchained (s : WasmState) : Prop := ∀ target, s.chainEmit target = []

namespace World

section

variable {st : WasmState} (W : World st) {imports : Imports} {t : Ctx Host} {e : U32}
  {l : WasmLocal → U32} {stack : List U32}

theorem run_leave (hchain : st.Unchained) (exit : JitExit) (target : ExitTarget) (rest : Code)
    (m : LinearMem) : run (wasmEnv imports) (st.leave exit target ++ rest) ⟨m, l, stack⟩ =
      .ret (exitCode exit) m := by
  unfold WasmState.leave
  rw [hchain]
  split_ifs <;> rfl

theorem run_exitImm_at (hchain : st.Unchained) (hl : l .cpu = W.home.addr) (exit : JitExit)
    (eip : U32) (rest : Code) :
    run (wasmEnv imports) (st.exitImm eip exit ++ rest) ⟨W.at_ t e, l, stack⟩ =
      .ret (exitCode exit) (W.at_ t eip) := by
  have hstore : (W.at_ t e).store 4 ((l .cpu).toNat + eipOffset) eip = some (W.at_ t eip) :=
    W.eip_store hl eip
  unfold WasmState.exitImm
  simp only [List.cons_append]
  rw [run_localGet, run_const]
  refine (run_store (wasmEnv imports) _ l stack _ hstore).trans ?_
  exact run_leave hchain exit _ rest _

theorem run_exitLocal_at (hchain : st.Unchained) (hl : l .cpu = W.home.addr) (exit : JitExit)
    (eip : WasmLocal) (rest : Code) :
    run (wasmEnv imports) (st.exitLocal eip exit ++ rest) ⟨W.at_ t e, l, stack⟩ =
      .ret (exitCode exit) (W.at_ t (l eip)) := by
  have hstore : (W.at_ t e).store 4 ((l .cpu).toNat + eipOffset) (l eip) =
      some (W.at_ t (l eip)) := W.eip_store hl (l eip)
  unfold WasmState.exitLocal
  simp only [List.cons_append]
  rw [run_localGet, run_localGet]
  refine (run_store (wasmEnv imports) _ l stack _ hstore).trans ?_
  exact run_leave hchain exit _ rest _

end

/-- The code leaves where the instruction leads if it takes a branch, and goes on behind it if it
does not. -/
structure Goes {st : WasmState} (W : World st) (others : Imports) (low : WasmLower) (taken : Prop)
    (code : Code) (pc : U32) (x : Exec Host Unit) (t : Ctx Host) : Prop where
  ok : ∀ u, x t = .ok () u →
    (¬ taken ∧ W.Does others low code t u ∧ u.nextEip = t.nextEip) ∨
      taken ∧ ∃ v, Alike v u ∧ W.Ends others code t v .blockEnd u.nextEip
  refused : ∀ h u, x t = .error h u →
    (∃ addr, h = .fault .memoryFault addr) ∧ W.Leaves others code t pc

variable {st : WasmState} {W : World st} {low : WasmLower} {others : Imports} {t : Ctx Host}
  {pc : U32} {code : Code} {x : Exec Host Unit}

theorem Follows.goes (h : W.Follows others low code pc x t) :
    W.Goes others low False code pc x t :=
  ⟨fun u hu => .inl ⟨not_false, h.ok u hu⟩, h.refused⟩

/-- A transfer that completes. -/
theorem Ends.goes {u : Ctx Host} (h : W.Ends others code t u .blockEnd u.nextEip)
    (hx : x t = .ok () u) : W.Goes others low True code pc x t := by
  refine ⟨fun u' hu => .inr ⟨trivial, ?_⟩, fun e u' hu => ?_⟩
  · have hu' := hx.symm.trans hu
    cases hu'
    exact ⟨u, .refl u, h⟩
  · have hu' := hx.symm.trans hu
    cases hu'

/-- A transfer that faults. -/
theorem Leaves.goes {addr : U32} {u : Ctx Host} (h : W.Leaves others code t pc)
    (hx : x t = .error (.fault .memoryFault addr) u) : W.Goes others low True code pc x t := by
  refine ⟨fun u' hu => ?_, fun e u' hu => ?_⟩
  · have hu' := hx.symm.trans hu
    cases hu'
  · have hu' := hx.symm.trans hu
    cases hu'
    exact ⟨⟨_, rfl⟩, h⟩

end World

/-! ## Targets -/

theorem relative_kind {i : Insn} (h : isRelativeImmediate i = true) :
    i.operand0.kind = .imm ∧ i.operand0.relative = true := by
  unfold isRelativeImmediate at h
  simp only [Bool.and_eq_true, beq_iff_eq] at h
  exact ⟨h.1.2, h.2⟩

theorem branchTarget_relative {m : Mem} {i : Insn} (h : isRelativeImmediate i = true) {t : Ctx Host}
    {pc : U32} (hnext : t.nextEip = pc + i.length) :
    branchTarget (Cpu.guestMem m) i.operand0 t = .ok (relativeTarget i pc) t := by
  obtain ⟨hk, hrelative⟩ := relative_kind h
  unfold branchTarget
  rw [if_pos hk]
  change EStateM.Result.ok (if i.operand0.relative then t.nextEip + i.operand0.imm else _) t = _
  rw [if_pos hrelative, hnext]
  rfl

theorem indirect_place {o : Operand} (h : isIndirectTarget o = true) :
    IsPlace o .dword ∧ (o.kind = .mem → o.addr16 = false) := by
  unfold isIndirectTarget at h
  by_cases hk : o.kind = .reg
  · rw [if_pos (beq_iff_eq.mpr hk), beq_iff_eq] at h
    refine ⟨⟨.inl hk, h⟩, fun hm => ?_⟩
    rw [hk] at hm
    cases hm
  · rw [if_neg (by simpa using hk)] at h
    simp only [Bool.and_eq_true, beq_iff_eq, Bool.not_eq_true'] at h
    exact ⟨⟨.inr h.1.1, h.1.2⟩, fun _ => h.2⟩

theorem readTarget_eq (s : WasmState) {o : Operand} (h : IsPlace o .dword) (pc : U32) :
    readTarget s o pc = pushSource s o pc .dword ++ ([.localSet .target] : Code) := by
  unfold readTarget pushSource pushOperand
  rcases h.1 with hk | hk <;> rw [hk] <;> rfl

/-- The value of an operand as a target. -/
theorem branchTarget_place {m : Mem} {o : Operand} (h : IsPlace o .dword) (t : Ctx Host) :
    branchTarget (Cpu.guestMem m) o t = readOperand (Cpu.guestMem m) o t := by
  unfold branchTarget
  rw [if_neg (by rcases h.1 with hk | hk <;> rw [hk] <;> decide)]

theorem release_popMoves (t : Ctx Host) (bytes : U32) :
    release bytes (popMoves t 0) = .ok () (popMoves t bytes) := by
  have htop : (popMoves t 0).cpu.reg esp + bytes = t.cpu.reg esp + (4 + bytes) := by
    change Function.update t.cpu.reg esp (t.cpu.reg esp + (4 + 0)) esp + bytes = _
    rw [Function.update_self, show (4 : U32) + 0 = 4 from rfl, BitVec.add_assoc]
  have hset : (t.cpu.toCpuState.setReg esp (t.cpu.reg esp + (4 + 0))).setReg esp
      (t.cpu.reg esp + (4 + bytes)) = t.cpu.toCpuState.setReg esp (t.cpu.reg esp + (4 + bytes)) :=
    congrArg (fun regs => { t.cpu.toCpuState with reg := regs }) (Function.update_idem _ _ _)
  unfold release
  rw [ask_bind, htop]
  change EStateM.Result.ok () ((popMoves t 0).withRegs
    ((t.cpu.toCpuState.setReg esp (t.cpu.reg esp + (4 + 0))).setReg esp _)) = _
  rw [hset]
  rfl

section

variable {low : WasmLower} {W : World low.state} (hflat : W.Flat) (hchain : low.state.Unchained)
  (others : Imports) {t : Ctx Host} {i : Insn} {pc : U32}

/-- The target of an indirect branch in its local. -/
theorem run_readTarget {o : Operand} (hplace : IsPlace o .dword) (hr : Addressable o)
    (hread : Allows W.m t memRead o .dword) {e : U32} {l : WasmLocal → U32}
    (hl : l .cpu = W.home.addr) :
    ∃ l', l' .cpu = W.home.addr ∧ l' .target = valueOfOperand W.m t o .dword ∧ ∀ rest,
      run (wasmEnv (withHelpers others)) (readTarget low.state o pc ++ rest) ⟨W.at_ t e, l, []⟩ =
        run (wasmEnv (withHelpers others)) rest ⟨W.at_ t e, l', []⟩ := by
  have hyields : W.Yields others t (pushSource low.state o pc .dword)
      (valueOfOperand W.m t o .dword &&& Cpu.widthMask .dword) :=
    World.yields_pushSource hplace.isValue hr hread pc
  rw [Cpu.and_widthMask_dword] at hyields
  obtain ⟨l', hl', hrun⟩ := hyields e l hl
  refine ⟨Function.update l' .target (valueOfOperand W.m t o .dword), by simp [hl'], by simp,
    fun rest => ?_⟩
  rw [readTarget_eq _ hplace, List.append_assoc, hrun]
  rfl

include hflat hchain

theorem jmp_goes (haccepts : jmpAccepts i = true) (hnext : t.nextEip = pc + i.length)
    (ha0 : i.operand0.kind = .mem → Addressed i.operand0) :
    W.Goes others low True (jmpLower low i pc).1 pc
      (do let v ← branchTarget (Cpu.guestMem W.m) i.operand0
          setNextEip v) t := by
  have hs := W.contiguous
  unfold jmpLower
  dsimp only
  by_cases hrelative : isRelativeImmediate i = true
  · rw [if_pos hrelative]
    refine World.Ends.goes ?_ (bind_ok (branchTarget_relative hrelative hnext))
    exact fun e l hl rest => W.run_exitImm_at hchain hl .blockEnd _ rest
  · rw [if_neg hrelative]
    unfold jmpAccepts at haccepts
    rw [Bool.not_eq_true] at hrelative
    rw [hrelative, Bool.false_or, Bool.and_eq_true] at haccepts
    obtain ⟨hplace, h16⟩ := indirect_place haccepts.2
    by_cases hread : Allows W.m t memRead i.operand0 .dword
    · refine World.Ends.goes ?_ (bind_ok ((branchTarget_place hplace t).trans
        (readOperand_granted hs hplace.isValue hread)))
      intro e l hl rest
      obtain ⟨l', hl', htarget, hrun⟩ := run_readTarget others hplace ⟨ha0, h16⟩ hread hl
      rw [List.append_assoc, hrun, W.run_exitLocal_at hchain hl', htarget]
      rfl
    · refine World.Leaves.goes ?_ (bind_error ((branchTarget_place hplace t).trans
        (readOperand_refused hs hplace.isValue hread)))
      rw [readTarget_eq _ hplace, List.append_assoc]
      exact World.leaves_pushSource hflat ⟨ha0, h16⟩ hread pc

omit hflat hchain in
/-- A CALL of a body without leaves. -/
theorem callLower_leafless (hleaf : low.leaf = none) :
    callLower low i pc = ((if isRelativeImmediate i then [] else readTarget low.state i.operand0 pc) ++
      ([.const (pc + i.length), .localSet .r] : Code) ++ pushLocal low.state .r pc ++
      (if isRelativeImmediate i then low.state.exitImm (relativeTarget i pc) .blockEnd
        else low.state.exitLocal .target .blockEnd), low) := by
  unfold callLower leafCallLower
  rw [hleaf]
  cases isRelativeImmediate i <;> rfl

/-- The interpreter's CALL. -/
def executeCall (m : Mem) (o : Operand) : Exec Host Unit := do
  let t ← branchTarget (Cpu.guestMem m) o
  let next ← ask Ctx.nextEip
  push32 (Cpu.guestMem m) next
  setNextEip t

omit hchain in
/-- A CALL from where its target is known. -/
theorem call_goes_of_target {target : U32} {before leave : Code}
    (htarget : branchTarget (Cpu.guestMem W.m) i.operand0 t = .ok target t)
    (hnext : t.nextEip = pc + i.length)
    (hcode : ∀ (e : U32) (l : WasmLocal → U32), l .cpu = W.home.addr → ∃ l', l' .cpu = W.home.addr ∧
      (∀ rest, run (wasmEnv (withHelpers others)) (before ++ rest) ⟨W.at_ t e, l, []⟩ =
        run (wasmEnv (withHelpers others)) rest ⟨W.at_ t e, l', []⟩) ∧
      ∀ (u : Ctx Host) (e : U32) (l'' : WasmLocal → U32), l'' .cpu = W.home.addr →
        l'' .target = l' .target → ∀ rest,
          run (wasmEnv (withHelpers others)) (leave ++ rest) ⟨W.at_ u e, l'', []⟩ =
            .ret (exitCode .blockEnd) (W.at_ u target)) :
    W.Goes others low True (before ++ ([.const (pc + i.length), .localSet .r] : Code) ++
      pushLocal low.state .r pc ++ leave) pc (executeCall W.m i.operand0) t := by
  have hs := W.contiguous
  have hx : executeCall W.m i.operand0 t =
      (push32 (Cpu.guestMem W.m) (pc + i.length) >>= fun _ => setNextEip target) t := by
    unfold executeCall
    rw [bind_ok htarget, ask_bind, hnext]
  by_cases hwrite : Granted W.m memWrite (t.cpu.reg esp - 4) .dword
  · refine World.Ends.goes ?_ (hx.trans (bind_ok (push32_granted hs hwrite _)))
    intro e l hl rest
    obtain ⟨l', hl', hbefore, hleave⟩ := hcode e l hl
    have hcpu : Function.update l' .r (pc + i.length) .cpu = W.home.addr := by simp [hl']
    obtain ⟨l'', hl'', hsame, hpush⟩ := W.run_pushLocal hcpu .r (by decide) (by decide) hwrite pc
    simp only [List.append_assoc, List.cons_append, List.nil_append]
    rw [hbefore, run_const, run_localSet, hpush, Function.update_self,
      hleave _ _ l'' hl'' (by rw [hsame _ (by decide) (by decide)]; simp)]
    rfl
  · refine World.Leaves.goes ?_ (hx.trans (bind_error (push32_refused hs hwrite _)))
    intro e l hl rest
    obtain ⟨l', hl', hbefore, -⟩ := hcode e l hl
    simp only [List.append_assoc, List.cons_append, List.nil_append]
    rw [hbefore, run_const, run_localSet]
    exact World.leaves_pushLocal hflat .r hwrite pc e _ (by simp [hl']) _

theorem call_goes (hleaf : low.leaf = none) (haccepts : jmpAccepts i = true)
    (hnext : t.nextEip = pc + i.length) (ha0 : i.operand0.kind = .mem → Addressed i.operand0) :
    W.Goes others low True (callLower low i pc).1 pc (executeCall W.m i.operand0) t := by
  have hs := W.contiguous
  rw [callLower_leafless hleaf]
  dsimp only
  by_cases hrelative : isRelativeImmediate i = true
  · rw [if_pos hrelative, if_pos hrelative]
    refine call_goes_of_target hflat others (branchTarget_relative hrelative hnext) hnext ?_
    exact fun e l hl => ⟨l, hl, fun _ => rfl, fun u e l'' hl'' _ rest =>
      W.run_exitImm_at hchain hl'' .blockEnd _ rest⟩
  · rw [if_neg hrelative, if_neg hrelative]
    unfold jmpAccepts at haccepts
    rw [Bool.not_eq_true] at hrelative
    rw [hrelative, Bool.false_or, Bool.and_eq_true] at haccepts
    obtain ⟨hplace, h16⟩ := indirect_place haccepts.2
    by_cases hread : Allows W.m t memRead i.operand0 .dword
    · refine call_goes_of_target hflat others ((branchTarget_place hplace t).trans
        (readOperand_granted hs hplace.isValue hread)) hnext fun e l hl => ?_
      obtain ⟨l', hl', htarget, hrun⟩ := run_readTarget others hplace ⟨ha0, h16⟩ hread hl
      refine ⟨l', hl', hrun, fun u e l'' hl'' hsame rest => ?_⟩
      rw [W.run_exitLocal_at hchain hl'', hsame, htarget]
    · refine World.Leaves.goes ?_ (bind_error ((branchTarget_place hplace t).trans
        (readOperand_refused hs hplace.isValue hread)))
      rw [readTarget_eq _ hplace]
      simp only [List.append_assoc]
      exact World.leaves_pushSource hflat ⟨ha0, h16⟩ hread pc

theorem ret_goes (haccepts : retAccepts i = true) :
    W.Goes others low True (retLower low i pc).1 pc (executeRet (Cpu.guestMem W.m) i) t := by
  have hs := W.contiguous
  let released : U32 := if i.operands = 1 then i.operand0.imm else 0
  have hrelease : (if i.operands ≥ 1 ∧ i.operand0.kind = .imm then release i.operand0.imm
      else pure () : Exec Host Unit) (popMoves t 0) = .ok () (popMoves t released) := by
    unfold retAccepts at haccepts
    simp only [Bool.or_eq_true, Bool.and_eq_true, beq_iff_eq] at haccepts
    rcases haccepts with hzero | ⟨hone, hk⟩
    · have hreleased : released = 0 := if_neg (by omega)
      rw [if_neg (by omega), hreleased]
      rfl
    · have hreleased : released = i.operand0.imm := if_pos hone
      rw [if_pos ⟨by omega, hk⟩, hreleased]
      exact release_popMoves t i.operand0.imm
  unfold retLower
  dsimp only
  by_cases hread : Granted W.m memRead (t.cpu.reg esp) .dword
  · refine World.Ends.goes ?_ ((bind_ok (pop32_granted hs hread)).trans (bind_ok hrelease))
    intro e l hl rest
    obtain ⟨l', hl', htarget, hrun⟩ := W.run_popInto hl .target (by decide) hread released pc
    rw [List.append_assoc, hrun, W.run_exitLocal_at hchain hl', htarget]
    rfl
  · refine World.Leaves.goes ?_ (bind_error (pop32_refused hs hread))
    intro e l hl rest
    rw [List.append_assoc]
    exact World.leaves_popInto hflat .target _ hread pc e l hl _

end

/-! ## Conditionals -/

section

variable {low : WasmLower} {W : World low.state} (hchain : low.state.Unchained)
  (others : Imports) {t : Ctx Host} {i : Insn} {pc : U32} (htracks : Tracks low t.cpu.flags)

include hchain htracks

/-- A verdict on the stack decides both. -/
theorem conditional_goes {code : Code} (taken : Bool) {x : Exec Host Unit}
    (hcode : ∀ (e : U32) (l : WasmLocal → U32), l .cpu = W.home.addr → ∀ rest,
      run (wasmEnv (withHelpers others)) (code ++ rest) ⟨W.at_ t e, l, []⟩ =
        run (wasmEnv (withHelpers others)) rest ⟨W.at_ t e, l, [truth taken]⟩)
    (hx : x t = (if taken then setNextEip (relativeTarget i pc) else pure () : Exec Host Unit) t) :
    W.Goes others low (taken = true) (code ++ leaveWhen low.state i pc) pc x t := by
  have hrun : ∀ (e : U32) (l : WasmLocal → U32), l .cpu = W.home.addr → ∀ rest,
      run (wasmEnv (withHelpers others)) (code ++ leaveWhen low.state i pc ++ rest)
          ⟨W.at_ t e, l, []⟩ =
        if taken then .ret (exitCode .blockEnd) (W.at_ t (relativeTarget i pc))
        else run (wasmEnv (withHelpers others)) rest ⟨W.at_ t e, l, []⟩ := by
    intro e l hl rest
    have hexit : run (wasmEnv (withHelpers others))
        (low.state.exitImm (relativeTarget i pc) .blockEnd ++ []) ⟨W.at_ t e, l, []⟩ = _ :=
      W.run_exitImm_at hchain hl .blockEnd _ []
    rw [List.append_nil] at hexit
    unfold leaveWhen
    rw [List.append_assoc, hcode e l hl, List.cons_append, List.nil_append, run_ite_truth, hexit]
    cases taken <;> rfl
  cases taken with
  | true =>
    refine ⟨fun u hu => .inr ⟨rfl, ?_⟩, fun h u hu => ?_⟩
    · have hu' := hx.symm.trans hu
      cases hu'
      exact ⟨_, .refl _, fun e l hl rest => hrun e l hl rest⟩
    · have hu' := hx.symm.trans hu
      cases hu'
  | false =>
    refine ⟨fun u hu => .inl ⟨nofun, ?_, ?_⟩, fun h u hu => ?_⟩
    · have hu' := hx.symm.trans hu
      cases hu'
      have hreaches : W.Reaches others (code ++ leaveWhen low.state i pc) t t :=
        fun e l hl => ⟨l, hl, hrun e l hl⟩
      exact hreaches.does htracks
    · have hu' := hx.symm.trans hu
      cases hu'
      rfl
    · have hu' := hx.symm.trans hu
      cases hu'

variable (hrelative : isRelativeImmediate i = true) (hnext : t.nextEip = pc + i.length)

include hrelative hnext

theorem jcc_goes (cc : Cond) :
    W.Goes others low (Cpu.cond cc t.cpu.flags = true) (jccContinue low cc i pc).1 pc
      (do let v ← branchTarget (Cpu.guestMem W.m) i.operand0
          let taken ← askFlags (Cpu.cond cc)
          if taken then setNextEip v else pure ()) t := by
  refine conditional_goes hchain others htracks (Cpu.cond cc t.cpu.flags) ?_ ?_
  · exact fun e l hl rest =>
      W.run_condValue (c := { t.cpu with eip := e }) others rfl hl htracks cc
  · rw [bind_ok (branchTarget_relative hrelative hnext), askFlags_bind]

theorem jecxz_goes (hwidth : i.addressWidth = 32) :
    W.Goes others low (t.cpu.reg ecx = 0) (jecxzContinue low i pc).1 pc
      (do let count ← ask fun s => s.cpu.reg ecx
          if count = 0 then do
            let v ← branchTarget (Cpu.guestMem W.m) i.operand0
            setNextEip v
          else pure ()) t := by
  rw [← decide_eq_true_eq (p := t.cpu.reg ecx = 0)]
  refine conditional_goes hchain others htracks (decide (t.cpu.reg ecx = 0)) ?_ ?_
  · intro e l hl rest
    rw [hwidth, if_neg (by decide), List.append_assoc, W.run_loadReg_at hl]
    rfl
  · rw [ask_bind]
    by_cases hzero : t.cpu.reg ecx = 0
    · rw [if_pos hzero, if_pos (decide_eq_true hzero),
        bind_ok (branchTarget_relative hrelative hnext)]
    · rw [if_neg hzero, if_neg (by simpa using hzero)]

end

end X86Port.Wasm
