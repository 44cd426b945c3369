import X86Port.Wasm.Moves

/-!
# The stack

`jit_wasm_stack.c`: PUSH, and POP into a register. A refused access leaves the stack pointer where
it was.

* `run_pushLocal`, `leaves_pushLocal`: a push of a local that is granted and one that is refused.
* `push_follows`, `pop_follows`: the two families.
-/

namespace X86Port.Wasm

open Lib StackCode
open Memory (Mem Host memRead memWrite)
open Cpu (Reg Width Operand Ctx Exec Insn Granted regRead regWrite storeAt loadAt esp)
open Cpu.Exec

/-! ## The code -/

def pushLocal (s : WasmState) (value : WasmLocal) (pc : U32) : Code :=
  WasmState.loadReg esp .dword ++
    ([.const 4, .op .sub, .localSet .a, .localGet .a, .localSet .addr] : Code) ++
    s.guardAddr pc 4 memWrite ++ s.storeMem .dword value ++ WasmState.storeReg esp .dword .a

/-- An immediate may also be a byte, which the decoder has sign-extended. -/
def pushAccepts (i : Insn) : Bool :=
  i.operands == 1 &&
    if i.operand0.kind == .imm then i.operand0.size == 4 || i.operand0.size == 1
    else operandOk i.operand0 4 false

def pushLower (l : WasmLower) (i : Insn) (pc : U32) : Code × WasmLower :=
  let o := i.operand0
  ((if o.kind = .mem then l.state.guard o pc 4 memRead ++ l.state.loadMem .dword
      else if o.kind = .imm then [.const o.imm]
      else WasmState.loadReg o.reg .dword) ++
    ([.localSet .r] : Code) ++ pushLocal l.state .r pc, l)

def popAccepts (i : Insn) : Bool := i.operands == 1 && operandOk i.operand0 4 true

/-- The value on top of the stack in `value`, and in A the stack pointer above it and above the
bytes that are released. -/
def popInto (s : WasmState) (value : WasmLocal) (released pc : U32) : Code :=
  WasmState.loadReg esp .dword ++ ([.localTee .a, .localSet .addr] : Code) ++
    s.guardAddr pc 4 memRead ++ s.loadMem .dword ++
    ([.localSet value, .localGet .a, .const (4 + released), .op .add, .localSet .a] : Code) ++
    WasmState.storeReg esp .dword .a

/-- A destination in memory is addressed from the advanced pointer. -/
def popLower (l : WasmLower) (i : Insn) (pc : U32) : Code × WasmLower :=
  let o := i.operand0
  (popInto l.state .r 0 pc ++
    (if o.kind = .mem then l.state.guard o pc 4 memWrite ++ l.state.storeMem .dword .r
      else WasmState.storeReg o.reg .dword .r), l)

/-! ## Pushes -/

/-- A push that is granted. -/
def pushWrites (m : Mem) (t : Ctx Host) (v : U32) : Ctx Host :=
  { t with mem := storeAt m t.mem (t.cpu.reg esp - 4) .dword v }.withRegs
    (regWrite t.cpu.toCpuState esp .dword (t.cpu.reg esp - 4))

/-- A pop that is granted, with the bytes it releases. -/
def popMoves (t : Ctx Host) (released : U32) : Ctx Host :=
  t.withRegs (regWrite t.cpu.toCpuState esp .dword (t.cpu.reg esp + (4 + released)))

section

variable {m : Mem} (hs : m.sparse = none) {t : Ctx Host}

include hs

theorem push32_granted (h : Granted m memWrite (t.cpu.reg esp - 4) .dword) (v : U32) :
    push32 (Cpu.guestMem m) v t = .ok () (pushWrites m t v) := by
  have hwrite : writeMem (Cpu.guestMem m) (t.cpu.reg esp - 4) 4 v t = .ok () _ :=
    writeMem_granted hs h v
  unfold push32
  rw [ask_bind, bind_ok hwrite]
  rfl

theorem push32_refused (h : ¬ Granted m memWrite (t.cpu.reg esp - 4) .dword) (v : U32) :
    push32 (Cpu.guestMem m) v t = .error (.fault .memoryFault (t.cpu.reg esp - 4)) t := by
  have hwrite : writeMem (Cpu.guestMem m) (t.cpu.reg esp - 4) 4 v t = .error _ t :=
    writeMem_refused hs h v
  unfold push32
  rw [ask_bind, bind_error hwrite]

theorem pop32_granted (h : Granted m memRead (t.cpu.reg esp) .dword) :
    pop32 (Cpu.guestMem m) t =
      .ok (loadAt m t.mem (t.cpu.reg esp) .dword) (popMoves t 0) := by
  have hread : readMem (Cpu.guestMem m) (t.cpu.reg esp) 4 t = .ok _ t := readMem_granted hs h
  unfold pop32
  rw [ask_bind, bind_ok hread]
  rfl

theorem pop32_refused (h : ¬ Granted m memRead (t.cpu.reg esp) .dword) :
    pop32 (Cpu.guestMem m) t = .error (.fault .memoryFault (t.cpu.reg esp)) t := by
  have hread : readMem (Cpu.guestMem m) (t.cpu.reg esp) 4 t = .error _ t := readMem_refused hs h
  unfold pop32
  rw [ask_bind, bind_error hread]

end

namespace World

variable {st : WasmState} (W : World st) {others : Imports} {imports : Imports} {t : Ctx Host}
  {e addr access : U32} {l : WasmLocal → U32} {stack : List U32}

theorem run_guardWord (hl : l .cpu = W.home.addr) (haddr : l .addr = addr)
    (hgranted : Granted W.m access addr .dword) (pc : U32) (rest : Code) :
    run (wasmEnv imports) (st.guardAddr pc 4 access ++ rest) ⟨W.at_ t e, l, stack⟩ =
      run (wasmEnv imports) rest
        ⟨W.at_ t e, Function.update l .addr (W.linear addr), stack⟩ :=
  W.run_guardAddr_granted (c := { t.cpu with eip := e }) (w := .dword) hl haddr hgranted pc

theorem run_loadWord (haddr : l .addr = W.linear addr) (hgranted : Granted W.m access addr .dword)
    (rest : Code) :
    run (wasmEnv imports) (st.loadMem .dword ++ rest) ⟨W.at_ t e, l, stack⟩ =
      run (wasmEnv imports) rest ⟨W.at_ t e, l, loadAt W.m t.mem addr .dword :: stack⟩ :=
  W.run_loadMem haddr hgranted

theorem run_storeWord (haddr : l .addr = W.linear addr) (hgranted : Granted W.m access addr .dword)
    (value : WasmLocal) (rest : Code) :
    run (wasmEnv imports) (st.storeMem .dword value ++ rest) ⟨W.at_ t e, l, stack⟩ =
      run (wasmEnv imports) rest
        ⟨W.at_ { t with mem := storeAt W.m t.mem addr .dword (l value) } e, l, stack⟩ :=
  W.run_storeMem haddr hgranted value

theorem run_pushLocal (hl : l .cpu = W.home.addr) (value : WasmLocal) (ha : value ≠ .a)
    (haddr : value ≠ .addr) (hgranted : Granted W.m memWrite (t.cpu.reg esp - 4) .dword)
    (pc : U32) :
    ∃ l', l' .cpu = W.home.addr ∧ (∀ x, x ≠ .a → x ≠ .addr → l' x = l x) ∧ ∀ rest,
      run (wasmEnv imports) (pushLocal st value pc ++ rest) ⟨W.at_ t e, l, []⟩ =
        run (wasmEnv imports) rest ⟨W.at_ (pushWrites W.m t (l value)) e, l', []⟩ := by
  let top := t.cpu.reg esp - 4
  let lt := Function.update (Function.update l .a top) .addr top
  have hlt : lt .cpu = W.home.addr := by simp [lt, hl]
  refine ⟨Function.update lt .addr (W.linear top), by simp [hlt], fun x hxa hxaddr => ?_,
    fun rest => ?_⟩
  · simp [lt, hxa, hxaddr]
  · have htop : Function.update (Function.update l .a top) .addr
        (Function.update l .a top .a) = lt := by simp [lt]
    unfold pushLocal
    simp only [List.append_assoc, List.cons_append, List.nil_append]
    rw [W.run_loadReg_at hl, run_const, run_op _ _ _ _ _ rfl, run_localSet, run_localGet,
      run_localSet]
    change run _ _ ⟨_, Function.update (Function.update l .a top) .addr
      (Function.update l .a top .a), _⟩ = _
    rw [htop, W.run_guardWord hlt (Function.update_self _ _ _) hgranted,
      W.run_storeWord (Function.update_self _ _ _) hgranted, W.run_storeReg_at (by simp [hlt])]
    simp [lt, ha, haddr]
    rfl

variable {W}

theorem leaves_pushLocal (hflat : W.Flat) (value : WasmLocal)
    (hrefused : ¬ Granted W.m memWrite (t.cpu.reg esp - 4) .dword) (pc : U32) :
    W.Leaves others (pushLocal st value pc) t pc := by
  intro e l hl rest
  unfold pushLocal
  simp only [List.append_assoc, List.cons_append, List.nil_append]
  rw [W.run_loadReg_at hl, run_const, run_op _ _ _ _ _ rfl, run_localSet, run_localGet,
    run_localSet]
  refine W.run_guardAddr_refused (c := { t.cpu with eip := e }) (w := .dword) (by simp [hl])
    (Function.update_self _ _ _) ?_ pc
  simp only [Function.update_self]
  exact hflat.refused (.inr (.inl rfl)) hrefused

/-! ## Pops -/

variable (W) in
theorem run_popInto (hl : l .cpu = W.home.addr) (value : WasmLocal)
    (hvalue : value ∉ [WasmLocal.a, .addr, .cpu])
    (hgranted : Granted W.m memRead (t.cpu.reg esp) .dword) (released pc : U32) :
    ∃ l', l' .cpu = W.home.addr ∧ l' value = loadAt W.m t.mem (t.cpu.reg esp) .dword ∧ ∀ rest,
      run (wasmEnv imports) (popInto st value released pc ++ rest) ⟨W.at_ t e, l, []⟩ =
        run (wasmEnv imports) rest ⟨W.at_ (popMoves t released) e, l', []⟩ := by
  simp only [List.mem_cons, List.not_mem_nil, or_false, not_or] at hvalue
  obtain ⟨hva, hvaddr, hvcpu⟩ := hvalue
  let top := t.cpu.reg esp
  let v := loadAt W.m t.mem top .dword
  let la := Function.update (Function.update l .a top) .addr (W.linear top)
  let lv := Function.update la value v
  have hlv : lv .a = top := by simp [lv, la, Ne.symm hva]
  refine ⟨Function.update lv .a (top + (4 + released)), ?_, ?_, fun rest => ?_⟩
  · simp [lv, la, hl, Ne.symm hvcpu]
  · simp [lv, hva, v, top]
  · unfold popInto
    simp only [List.append_assoc, List.cons_append, List.nil_append]
    rw [W.run_loadReg_at hl, run_localTee, run_localSet]
    change run _ _ ⟨_, Function.update (Function.update l .a top) .addr top, _⟩ = _
    rw [W.run_guardWord (by simp [hl]) (Function.update_self _ _ _) hgranted, Function.update_idem,
      W.run_loadWord (Function.update_self _ _ _) hgranted, run_localSet, run_localGet, run_const,
      run_op _ _ _ _ _ rfl, run_localSet]
    change run _ _ ⟨_, Function.update lv .a (lv .a + (4 + released)), []⟩ = _
    rw [hlv, W.run_storeReg_at (by simp [lv, la, hl, Ne.symm hvcpu]), Function.update_self]
    rfl

theorem leaves_popInto (hflat : W.Flat) (value : WasmLocal) (released : U32)
    (hrefused : ¬ Granted W.m memRead (t.cpu.reg esp) .dword) (pc : U32) :
    W.Leaves others (popInto st value released pc) t pc := by
  intro e l hl rest
  unfold popInto
  simp only [List.append_assoc, List.cons_append, List.nil_append]
  rw [W.run_loadReg_at hl, run_localTee, run_localSet]
  exact W.run_guardAddr_refused (c := { t.cpu with eip := e }) (w := .dword) (by simp [hl])
    (Function.update_self _ _ _) (hflat.refused (.inl rfl) hrefused) pc

end World

/-! ## The two families -/

theorem pushLower_eq {low : WasmLower} {i : Insn} (pc : U32) :
    pushLower low i pc = (pushSource low.state i.operand0 pc .dword ++ ([.localSet .r] : Code) ++
      pushLocal low.state .r pc, low) := by
  unfold pushLower pushSource pushOperand
  dsimp only
  rw [Cpu.and_widthMask_dword]
  rfl

section

variable {low : WasmLower} {W : World low.state} (hflat : W.Flat) (others : Imports)
  {t : Ctx Host} {i : Insn} (htracks : Tracks low t.cpu.flags) (pc : U32)

include hflat htracks

theorem push_follows (haccepts : pushAccepts i = true)
    (ha0 : i.operand0.kind = .mem → Addressed i.operand0)
    (hextended : i.operand0.kind = .imm → i.operand0.size = 1 →
      Cpu.signExtend i.operand0.imm 1 = i.operand0.imm) :
    W.Follows others low (pushLower low i pc).1 pc
      (executePush (Cpu.guestMem W.m) i.operand0) t := by
  have hs := W.contiguous
  let o := i.operand0
  let v := valueOfOperand W.m t o .dword
  have ⟨hvalue, hr, hsize⟩ : IsValue o .dword ∧ Addressable o ∧
      (if o.size = 1 ∨ o.size = 2 then Cpu.signExtend v o.size else v) = v := by
    unfold pushAccepts at haccepts
    have hoperand := (Bool.and_eq_true_iff.mp haccepts).2
    by_cases hk : o.kind = .imm
    · have hv : v = o.imm := by
        change valueOfOperand W.m t o .dword = _
        unfold valueOfOperand
        rw [hk]
      rw [if_pos (beq_iff_eq.mpr hk), Bool.or_eq_true, beq_iff_eq, beq_iff_eq] at hoperand
      refine ⟨.inl hk, ⟨fun h => ?_, fun h => ?_⟩, ?_⟩
      · rw [hk] at h
        cases h
      · rw [hk] at h
        cases h
      · rcases hoperand with h | h
        · exact if_neg (by rw [show o.size = 4 from h]; decide)
        · rw [if_pos (.inl h), hv, show o.size = 1 from h]
          exact hextended hk h
    · rw [if_neg (by simpa using hk)] at hoperand
      obtain ⟨⟨w, hw, h0⟩, h16⟩ := operandOk_value hoperand
      obtain rfl : w = .dword := by cases w <;> first | rfl | cases hw
      have hsize4 : o.size = 4 := (h0.resolve_left hk).2
      exact ⟨h0, ⟨ha0, h16⟩, if_neg (by rw [hsize4]; decide)⟩
  rw [pushLower_eq]
  dsimp only
  by_cases hread : Allows W.m t memRead o .dword
  · have hyields : W.Yields others t (pushSource low.state o pc .dword)
        (v &&& Cpu.widthMask .dword) := World.yields_pushSource hvalue hr hread pc
    rw [Cpu.and_widthMask_dword] at hyields
    have hpush : executePush (Cpu.guestMem W.m) o t = push32 (Cpu.guestMem W.m) v t := by
      unfold executePush
      rw [bind_ok (readOperand_granted hs hvalue hread), hsize]
    by_cases hwrite : Granted W.m memWrite (t.cpu.reg esp - 4) .dword
    · have hreaches : W.Reaches others (pushSource low.state o pc .dword ++
          ([.localSet .r] : Code) ++ pushLocal low.state .r pc) t (pushWrites W.m t v) := by
        intro e l hl
        obtain ⟨l', hl', hrun⟩ := hyields e l hl
        have hcpu : Function.update l' .r v .cpu = W.home.addr := by simp [hl']
        obtain ⟨l'', hl'', -, hrun'⟩ := W.run_pushLocal hcpu .r (by decide) (by decide) hwrite pc
        refine ⟨l'', hl'', fun rest => ?_⟩
        simp only [List.append_assoc, List.cons_append, List.nil_append]
        rw [hrun, run_localSet, hrun', Function.update_self]
      refine hreaches.follows ?_ rfl pc (hpush.trans (push32_granted hs hwrite v))
      change Tracks low (regWrite t.cpu.toCpuState esp .dword _).flags
      rw [regWrite_same_flags]
      exact htracks
    · refine World.Leaves.follows ?_ (hpush.trans (push32_refused hs hwrite v))
      intro e l hl rest
      obtain ⟨l', hl', hrun⟩ := hyields e l hl
      simp only [List.append_assoc, List.cons_append, List.nil_append]
      rw [hrun, run_localSet]
      exact World.leaves_pushLocal hflat .r hwrite pc e _ (by simp [hl']) rest
  · refine World.Leaves.follows ?_ (bind_error (readOperand_refused hs hvalue hread))
    rw [List.append_assoc]
    exact World.leaves_pushSource hflat hr hread pc

theorem pop_follows (haccepts : popAccepts i = true) (hk : i.operand0.kind ≠ .mem) :
    W.Follows others low (popLower low i pc).1 pc
      (do let v ← pop32 (Cpu.guestMem W.m)
          writeOperand (Cpu.guestMem W.m) i.operand0 v) t := by
  have hs := W.contiguous
  unfold popAccepts at haccepts
  obtain ⟨⟨w, hw, h0⟩, -⟩ := operandOk_place (Bool.and_eq_true_iff.mp haccepts).2
  obtain rfl : w = .dword := by cases w <;> first | rfl | cases hw
  have hreg : i.operand0.kind = .reg := h0.1.resolve_right hk
  unfold popLower
  dsimp only
  rw [if_neg hk]
  by_cases hread : Granted W.m memRead (t.cpu.reg esp) .dword
  · let v := loadAt W.m t.mem (t.cpu.reg esp) .dword
    let t₁ := popMoves t 0
    let t₂ := t₁.withRegs (regWrite t₁.cpu.toCpuState i.operand0.reg .dword v)
    have hreaches : W.Reaches others (popInto low.state .r 0 pc ++
        WasmState.storeReg i.operand0.reg .dword .r) t t₂ := by
      intro e l hl
      obtain ⟨l', hl', hv, hrun⟩ := W.run_popInto hl .r (by decide) hread 0 pc
      refine ⟨l', hl', fun rest => ?_⟩
      rw [List.append_assoc, hrun, W.run_storeReg_at hl', hv]
    refine hreaches.follows ?_ rfl pc ?_
    · change Tracks low (regWrite t₁.cpu.toCpuState i.operand0.reg .dword v).flags
      rw [regWrite_same_flags]
      change Tracks low (regWrite t.cpu.toCpuState esp .dword _).flags
      rw [regWrite_same_flags]
      exact htracks
    · rw [bind_ok (pop32_granted hs hread), writeOperand_granted hs h0 fun h => absurd h hk,
        written_reg _ _ hreg]
  · refine World.Leaves.follows ?_ (bind_error (pop32_refused hs hread))
    intro e l hl rest
    rw [List.append_assoc]
    exact World.leaves_popInto hflat .r 0 hread pc e l hl _

end

end X86Port.Wasm
