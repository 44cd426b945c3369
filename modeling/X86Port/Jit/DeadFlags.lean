import X86Port.Jit.ScanVerdict

/-!
# Dead flag stores

What a block does when the flag writes that the scan called dead are left out. A block runs its
instructions as the interpreter does, over the window of memory that it was translated against.

* `faultsInPlace_of_asks`: an instruction that asked the scan faults before it writes flags.
* `overwritten_step`, `sound_step`: one instruction, from flags that are lost already, and from
  flags that are the same.
* `dead_flag_stores_sound`: no choice of dead writes to leave out can be seen.
-/

namespace X86Port.Jit

open Lib
open Cpu
open Cpu.Exec

variable {μ α : Type}

/-! ## The window a block was translated against -/

/-- The mapping baked into a block, with its bytes by guest address. -/
structure Window where
  lo : U32
  size : U32
  bytes : U32 → U8

/-- One compare covers both ends; a window narrower than the access has no address in it. -/
def Window.holds (m : Window) (addr : U32) (n : Nat) : Bool :=
  decide (n ≤ m.size.toNat) && decide ((addr - m.lo).toNat ≤ m.size.toNat - n)

def Window.store (m : Window) (addr : U32) (n : Nat) (v : U32) : Window :=
  { m with bytes := fun x =>
      if (x - addr).toNat < n then (v >>> (8 * (x - addr).toNat)).setWidth 8 else m.bytes x }

def windowMem : GuestMem Window where
  read m addr n :=
    if m.holds addr n then
      some (Memory.valueOf ((List.range n).map fun k => m.bytes (addr + BitVec.ofNat 32 k)))
    else none
  write m addr n v := if m.holds addr n then some (m.store addr n v) else none

/-- Where a value can be read, one can be written. -/
def StoresWhereLoads (g : GuestMem μ) : Prop :=
  ∀ m addr n v value, g.read m addr n = some v → ∃ m', g.write m addr n value = some m'

theorem windowMem_storesWhereLoads : StoresWhereLoads windowMem := by
  intro m addr n v value hread
  unfold windowMem at hread ⊢
  dsimp only at hread ⊢
  split_ifs at hread ⊢
  exact ⟨_, rfl⟩

/-! ## Faults -/

section Faults

variable (g : GuestMem μ)

/-- From `s`, the program stops only in the state it found. -/
def FaultsInPlace (s : Ctx μ) (m : Exec μ α) : Prop := ∀ e s', m s = .error e s' → s' = s

theorem faultsInPlace_bind {β : Type} {s : Ctx μ} {m : Exec μ α} {k : α → Exec μ β}
    (hm : (∃ v, m s = .ok v s) ∨ ∃ e, m s = .error e s)
    (hk : ∀ v, m s = .ok v s → FaultsInPlace s (k v)) : FaultsInPlace s (m >>= k) := by
  intro e s' h
  obtain ⟨v, hv⟩ | ⟨e', he'⟩ := hm
  · rw [bind_ok hv] at h
    exact hk v hv e s' h
  · rw [bind_error he'] at h
    cases h
    rfl

theorem readOperand_state (o : Operand) (s : Ctx μ) :
    (∃ v, readOperand g o s = .ok v s) ∨ ∃ e, readOperand g o s = .error e s := by
  unfold readOperand
  cases o.kind with
  | reg =>
    dsimp only
    cases hw : Width.ofBytes o.size with
    | none => exact .inr ⟨.fatal, by unfold readReg; rw [hw]; rfl⟩
    | some w => exact .inl ⟨_, readReg_ok o.reg hw⟩
  | seg => exact .inl ⟨_, rfl⟩
  | imm => exact .inl ⟨_, rfl⟩
  | mem =>
    dsimp only
    rw [ask_bind]
    unfold readMem
    cases g.read s.mem (effectiveAddress s.cpu o) o.size with
    | none => exact .inr ⟨_, rfl⟩
    | some v => exact .inl ⟨_, rfl⟩
  | _ => exact .inr ⟨_, rfl⟩

/-- An operand that was read can be written in the same state, whatever the flags have become. -/
theorem writeOperand_of_read (hg : StoresWhereLoads g) {o : Operand}
    (hk : o.kind = .reg ∨ o.kind = .mem) {s : Ctx μ} {v : U32}
    (hread : readOperand g o s = .ok v s) (f : Flags) (r : U32) :
    ∃ s', writeOperand g o r (s.withFlags f) = .ok () s' := by
  unfold readOperand at hread
  unfold writeOperand
  rcases hk with hk | hk <;> rw [hk] at hread ⊢ <;> dsimp only at hread ⊢
  · cases hw : Width.ofBytes o.size with
    | none => unfold readReg at hread; rw [hw] at hread; cases hread
    | some w => exact ⟨_, writeReg_ok o.reg hw r⟩
  · rw [ask_bind] at hread ⊢
    rw [effectiveAddress_flags]
    unfold readMem at hread
    cases hmem : g.read s.mem (effectiveAddress s.cpu o) o.size with
    | none => rw [hmem] at hread; cases hread
    | some v' =>
      obtain ⟨m', hm'⟩ := hg _ _ _ _ r hmem
      refine ⟨{ s.withFlags f with mem := m' }, ?_⟩
      unfold writeMem
      rw [show (s.withFlags f).mem = s.mem from rfl, hm']

theorem orFatal_state (o : Option α) (s : Ctx μ) :
    (∃ v, orFatal o s = .ok v s) ∨ ∃ e, orFatal o s = .error e s := by
  cases o with
  | none => exact .inr ⟨_, rfl⟩
  | some a => exact .inl ⟨a, rfl⟩

/-- The last steps of the instructions that ask the scan. -/
theorem faultsInPlace_store {s : Ctx μ} {o : Operand} (h : Flags → Option (α × Flags))
    (value : α → U32)
    (hw : ∀ f r, ∃ s', writeOperand g o r (s.withFlags f) = .ok () s') :
    FaultsInPlace s (onFlags h >>= fun r => writeOperand g o (value r)) := by
  intro e s' hrun
  cases hf : h s.cpu.flags with
  | none =>
    have herror : onFlags h s = .error .fatal s := by
      unfold onFlags
      rw [hf]
    rw [bind_error herror] at hrun
    cases hrun
    rfl
  | some p =>
    rw [bind_ok (onFlags_ok (s := s) hf)] at hrun
    obtain ⟨t, ht⟩ := hw p.2 (value p.1)
    rw [ht] at hrun
    cases hrun

theorem faultsInPlace_alu (hg : StoresWhereLoads g) {i : Insn} (op : AluOp)
    (h0 : i.operand0.kind = .reg ∨ i.operand0.kind = .mem) (s : Ctx μ) :
    FaultsInPlace s (executeAlu g op i) := by
  unfold executeAlu
  refine faultsInPlace_bind (readOperand_state g _ s) fun a hread => ?_
  refine faultsInPlace_bind (readOperand_state g _ s) fun b _ => ?_
  refine faultsInPlace_bind (orFatal_state _ s) fun w _ => ?_
  by_cases hdiscard : op = .cmp ∨ op = .test
  · simp only [if_pos hdiscard]
    intro e s' hrun
    cases hf : alu op a b w s.cpu.flags with
    | none =>
      have herror : onFlags (alu op a b w) s = .error .fatal s := by
        unfold onFlags
        rw [hf]
      rw [bind_error herror] at hrun
      cases hrun
      rfl
    | some p =>
      rw [bind_ok (onFlags_ok (s := s) hf)] at hrun
      cases hrun
  · simp only [if_neg hdiscard]
    exact faultsInPlace_store g _ id fun f r => writeOperand_of_read g hg h0 hread f r

theorem faultsInPlace_aluUnary (hg : StoresWhereLoads g) {i : Insn} (op : AluUnOp)
    (h0 : i.operand0.kind = .reg ∨ i.operand0.kind = .mem) (s : Ctx μ) :
    FaultsInPlace s (executeAluUnary g op i) := by
  unfold executeAluUnary
  refine faultsInPlace_bind (readOperand_state g _ s) fun a hread => ?_
  refine faultsInPlace_bind (orFatal_state _ s) fun w _ => ?_
  exact faultsInPlace_store g _ id fun f r => writeOperand_of_read g hg h0 hread f r

theorem faultsInPlace_imul {i : Insn} (hops : i.operands ≠ 1) (h0 : i.operand0.kind = .reg)
    (hsize : i.operand0.size = 2 ∨ i.operand0.size = 4) (s : Ctx μ) :
    FaultsInPlace s (executeMul g true i) := by
  obtain ⟨w, hw⟩ : ∃ w, Width.ofBytes i.operand0.size = some w := by
    rcases hsize with h | h <;> rw [h] <;> exact ⟨_, rfl⟩
  unfold executeMul
  simp only [if_neg hops, if_true]
  refine faultsInPlace_bind (readOperand_state g _ s) fun a _ => ?_
  refine faultsInPlace_bind (readOperand_state g _ s) fun b _ => ?_
  refine faultsInPlace_bind (orFatal_state _ s) fun width _ => ?_
  exact faultsInPlace_store g _ Prod.fst fun f r => ⟨_, writeOperand_reg g h0 hw r⟩

theorem movOperandOk_written {o : Operand} {w : Nat} (h : movOperandOk o w true = true) :
    o.kind = .reg ∨ o.kind = .mem := by
  by_cases hk : o.kind = .mem
  · exact .inr hk
  · exact .inl (reg_of_movOperandOk h hk).1

theorem asksScan_not_branch {i : Insn} (h : asksScan i = true) :
    isRelativeBranch i = false ∧ isIndirectBranch i = false := by
  unfold asksScan at h
  unfold isRelativeBranch isIndirectBranch
  cases hop : i.op <;> rw [hop] at h <;> first | exact ⟨rfl, rfl⟩ | cases h

variable (other : OtherOp → Insn → Exec μ Unit)

theorem faultsInPlace_execute (hg : StoresWhereLoads g) {i : Insn} {others : Insn → Bool}
    (hasks : asksScan i = true) (hcan : canEmit others i = true) (s : Ctx μ) :
    FaultsInPlace s (execute g other i) := by
  have harm := canEmit_arm hcan (asksScan_not_branch hasks).1 (asksScan_not_branch hasks).2
  unfold asksScan at hasks
  unfold execute
  cases hop : i.op <;> rw [hop] at hasks harm <;> dsimp only at hasks harm ⊢ <;> try cases hasks
  case aluUnary op =>
    simp only [Bool.and_eq_true] at harm
    exact faultsInPlace_aluUnary g hg op (movOperandOk_written harm.2) s
  case imul =>
    have hops : i.operands ≠ 1 := by simpa using hasks
    unfold imulIsEmittable at harm
    rw [if_neg hops] at harm
    simp only [Bool.and_eq_true, Bool.or_eq_true, beq_iff_eq] at harm
    obtain ⟨⟨⟨⟨⟨-, hsize⟩, h0⟩, -⟩, -⟩, -⟩ := harm
    exact faultsInPlace_imul g hops h0 hsize s
  case alu op =>
    refine faultsInPlace_alu g hg op ?_ s
    by_cases hshift : aluShiftsOrRotates op = true
    · rw [if_pos hshift] at harm
      simp only [shiftIsEmittable, Bool.and_eq_true] at harm
      exact movOperandOk_written harm.1.2
    · have hplain : (op == .adc || op == .sbb) = false := by
        cases op <;> first | exact absurd hasks (by decide) | decide
      rw [if_neg hshift, hplain, if_neg Bool.false_ne_true] at harm
      simp only [movIsEmittable, Bool.and_eq_true] at harm
      exact movOperandOk_written harm.1.2

end Faults

/-! ## Staying in line -/

section InLine

theorem keeps_orFatal (o : Option α) : Lib.Keeps Ctx.nextEip (orFatal o : Exec μ α) := by
  cases o with
  | none => exact .throw _
  | some a => exact .pure a

theorem keeps_change {c : Ctx μ → Ctx μ} (hc : ∀ s, (c s).nextEip = s.nextEip) :
    Lib.Keeps Ctx.nextEip (change c : Exec μ Unit) :=
  fun s => ⟨fun _ _ h => (by cases h; exact hc s), fun _ _ h => (by cases h)⟩

theorem keeps_onFlags (h : Flags → Option (α × Flags)) :
    Lib.Keeps Ctx.nextEip (onFlags h : Exec μ α) := by
  intro s
  unfold onFlags
  cases h s.cpu.flags with
  | none => exact ⟨fun _ _ h => (by cases h), fun _ _ h => (by cases h; rfl)⟩
  | some p => exact ⟨fun _ _ h => (by cases h; rfl), fun _ _ h => (by cases h)⟩

variable (g : GuestMem μ)

theorem keeps_readOperand (o : Operand) : Lib.Keeps Ctx.nextEip (readOperand g o) := by
  intro s
  obtain ⟨v, hv⟩ | ⟨e, he⟩ := readOperand_state g o s
  · rw [hv]
    exact ⟨fun _ _ h => (by cases h; rfl), fun _ _ h => (by cases h)⟩
  · rw [he]
    exact ⟨fun _ _ h => (by cases h), fun _ _ h => (by cases h; rfl)⟩

theorem keeps_writeOperand (o : Operand) (v : U32) :
    Lib.Keeps Ctx.nextEip (writeOperand g o v) := by
  unfold writeOperand
  cases o.kind with
  | reg => exact (keeps_orFatal _).bind fun w => keeps_change fun _ => rfl
  | seg => exact keeps_change fun _ => rfl
  | mem =>
    intro s
    dsimp only
    rw [ask_bind]
    unfold writeMem
    cases g.write s.mem (effectiveAddress s.cpu o) o.size v with
    | none => exact ⟨fun _ _ h => (by cases h), fun _ _ h => (by cases h; rfl)⟩
    | some m => exact ⟨fun _ _ h => (by cases h; rfl), fun _ _ h => (by cases h)⟩
  | _ => exact .throw _

theorem keeps_executeAlu (op : AluOp) (i : Insn) :
    Lib.Keeps Ctx.nextEip (executeAlu g op i) :=
  (keeps_readOperand g _).bind fun _ => (keeps_readOperand g _).bind fun _ =>
    (keeps_orFatal _).bind fun _ => (keeps_onFlags _).bind fun _ =>
      .ite (.pure _) (keeps_writeOperand g _ _)

theorem keeps_executeAluUnary (op : AluUnOp) (i : Insn) :
    Lib.Keeps Ctx.nextEip (executeAluUnary g op i) :=
  (keeps_readOperand g _).bind fun _ => (keeps_orFatal _).bind fun _ =>
    (keeps_onFlags _).bind fun _ => keeps_writeOperand g _ _

theorem keeps_imul {i : Insn} (hops : i.operands ≠ 1) :
    Lib.Keeps Ctx.nextEip (executeMul g true i) := by
  unfold executeMul
  simp only [if_neg hops, if_true]
  exact (keeps_readOperand g _).bind fun _ => (keeps_readOperand g _).bind fun _ =>
    (keeps_orFatal _).bind fun _ => (keeps_onFlags _).bind fun _ => keeps_writeOperand g _ _

variable (other : OtherOp → Insn → Exec μ Unit)

theorem keeps_execute {i : Insn} (hasks : asksScan i = true) :
    Lib.Keeps Ctx.nextEip (execute g other i) := by
  unfold asksScan at hasks
  unfold execute
  cases hop : i.op <;> rw [hop] at hasks <;> dsimp only at hasks ⊢ <;> try cases hasks
  case alu op => exact keeps_executeAlu g op i
  case aluUnary op => exact keeps_executeAluUnary g op i
  case imul => exact keeps_imul g (by simpa using hasks)

theorem inLine_of_asks {i : Insn} (hasks : asksScan i = true) {s s' : Ctx μ}
    (h : executeDecoded g other i s = .ok () s') : s'.cpu.eip = s.cpu.eip + i.length := by
  obtain ⟨t, ht, hrun⟩ | ⟨e, t, -, hrun⟩ := executeDecoded_cases g other i s
  · rw [hrun] at h
    cases h
    exact (keeps_execute g other hasks _).1 _ _ ht
  · rw [hrun] at h
    cases h

theorem fault_keeps_flags (hg : StoresWhereLoads g) {i : Insn} {others : Insn → Bool}
    (hasks : asksScan i = true) (hcan : canEmit others i = true) {s s' : Ctx μ} {e : Halt}
    (h : executeDecoded g other i s = .error e s') : s'.cpu.flags = s.cpu.flags := by
  obtain ⟨t, -, hrun⟩ | ⟨e', t, ht, hrun⟩ := executeDecoded_cases g other i s
  · rw [hrun] at h
    cases h
  · rw [hrun] at h
    cases h
    rw [faultsInPlace_execute g other hg hasks hcan _ _ _ ht]

end InLine

/-! ## A block with some of its flag writes left out -/

section Runs

variable (g : GuestMem μ) (other : OtherOp → Insn → Exec μ Unit)

/-- The program without its flag writes. -/
def skipFlags (m : Exec μ Unit) : Exec μ Unit := fun s =>
  match m s with
  | .ok a s' => .ok a (s'.withFlags s.cpu.flags)
  | .error e s' => .error e (s'.withFlags s.cpu.flags)

/-- The steps of a block, and which of their flag writes are left out. -/
abbrev Plan := List (EmittedInsn × Bool)

def runStep (step : EmittedInsn) (skip : Bool) : Exec μ Unit :=
  if skip then skipFlags (executeDecoded g other step.insn) else executeDecoded g other step.insn

/-- The block runs on while EIP stays in line, and exits where it does not. -/
def runBlock : Plan → Exec μ Unit
  | [] => pure ()
  | (step, skip) :: rest => do
    let next ← ask fun s => s.cpu.eip + step.insn.length
    runStep g other step skip
    let inLine ← ask fun s => decide (s.cpu.eip = next)
    if inLine then runBlock rest else pure ()

def Plan.unskipped (plan : Plan) : Plan := plan.map fun p => (p.1, false)

/-- States that may differ in their flags. -/
abbrev Apart : Ctx μ → Ctx μ → Prop := Differ fun _ _ => True

theorem Differ.eip {ρ : Flags → Flags → Prop} {s t : Ctx μ} (h : Differ ρ s t) :
    t.cpu.eip = s.cpu.eip := by
  rw [h.2]
  rfl

theorem runBlock_ok {step : EmittedInsn} {skip : Bool} {rest : Plan} {s s' : Ctx μ}
    (h : runStep g other step skip s = .ok () s') :
    runBlock g other ((step, skip) :: rest) s =
      if s'.cpu.eip = s.cpu.eip + step.insn.length then runBlock g other rest s'
      else .ok () s' := by
  rw [runBlock, ask_bind, bind_ok h, ask_bind]
  by_cases hline : s'.cpu.eip = s.cpu.eip + step.insn.length
  · rw [if_pos hline, if_pos (decide_eq_true hline)]
  · rw [if_neg hline, if_neg (by simpa using hline)]
    rfl

theorem runBlock_error {step : EmittedInsn} {skip : Bool} {rest : Plan} {s s' : Ctx μ} {e : Halt}
    (h : runStep g other step skip s = .error e s') :
    runBlock g other ((step, skip) :: rest) s = .error e s' := by
  rw [runBlock, ask_bind, bind_error h]

/-- What holds of a plan from states related by `P`. -/
def Unseen (P : Ctx μ → Ctx μ → Prop) (plan : Plan) : Prop :=
  Coupled P Alike Alike (runBlock g other plan) (runBlock g other plan.unskipped)

/-- A step that ends in the same flags. -/
theorem unseen_alike {step : EmittedInsn} {skip : Bool} {rest : Plan} {s t : Ctx μ}
    (heip : t.cpu.eip = s.cpu.eip)
    (hstep : SameResult Alike Alike (runStep g other step skip s) (runStep g other step false t))
    (hrest : Unseen g other Alike rest) :
    SameResult Alike Alike (runBlock g other ((step, skip) :: rest) s)
      (runBlock g other (Plan.unskipped ((step, skip) :: rest)) t) := by
  change SameResult _ _ _ (runBlock g other ((step, false) :: rest.unskipped) t)
  cases hs : runStep g other step skip s with
  | ok a s' =>
    cases ht : runStep g other step false t with
    | ok b t' =>
      rw [hs, ht] at hstep
      rw [runBlock_ok g other hs, runBlock_ok g other ht, heip, Differ.eip hstep.2]
      by_cases hline : s'.cpu.eip = s.cpu.eip + step.insn.length
      · rw [if_pos hline, if_pos hline]
        exact hrest s' t' hstep.2
      · rw [if_neg hline, if_neg hline]
        exact ⟨rfl, hstep.2⟩
    | error e t' => rw [hs, ht] at hstep; exact hstep.elim
  | error e s' =>
    cases ht : runStep g other step false t with
    | ok b t' => rw [hs, ht] at hstep; exact hstep.elim
    | error f t' =>
      rw [hs, ht] at hstep
      rw [runBlock_error g other hs, runBlock_error g other ht]
      exact hstep

/-- A step that stays in line, and ends in flags that may differ. -/
theorem unseen_apart {step : EmittedInsn} {skip : Bool} {rest : Plan} {s t s' t' : Ctx μ}
    (heip : t.cpu.eip = s.cpu.eip) (hs : runStep g other step skip s = .ok () s')
    (ht : runStep g other step false t = .ok () t') (happart : Apart s' t')
    (hline : s'.cpu.eip = s.cpu.eip + step.insn.length) (hrest : Unseen g other Apart rest) :
    SameResult Alike Alike (runBlock g other ((step, skip) :: rest) s)
      (runBlock g other (Plan.unskipped ((step, skip) :: rest)) t) := by
  change SameResult _ _ _ (runBlock g other ((step, false) :: rest.unskipped) t)
  rw [runBlock_ok g other hs, runBlock_ok g other ht, heip, Differ.eip happart, if_pos hline,
    if_pos hline]
  exact hrest s' t' happart

theorem skipFlags_ok {m : Exec μ Unit} {s s' : Ctx μ} (h : m s = .ok () s') :
    skipFlags m s = .ok () (s'.withFlags s.cpu.flags) := by
  unfold skipFlags
  rw [h]

theorem skipFlags_error {m : Exec μ Unit} {s s' : Ctx μ} {e : Halt} (h : m s = .error e s') :
    skipFlags m s = .error e (s'.withFlags s.cpu.flags) := by
  unfold skipFlags
  rw [h]

theorem apart_withFlags {s t : Ctx μ} (h : Alike s t) (f : Flags) : Apart (s.withFlags f) t :=
  ⟨trivial, h.2⟩

/-- The steps go on through transparent instructions, up to one that overwrites the flags. -/
inductive Overwrite : List EmittedInsn → Prop
  | here {step : EmittedInsn} {rest : List EmittedInsn} (h : Overwrites g other step.insn) :
      Overwrite (step :: rest)
  | later {step : EmittedInsn} {rest : List EmittedInsn} (h : Transparent g other step.insn)
      (hrest : Overwrite rest) : Overwrite (step :: rest)

theorem overwrite_of_overwritten {G : Guest}
    (hdecode : ∀ bytes i, G.decode bytes = some i → RegSized i) {steps : List EmittedInsn}
    (h : Overwritten G steps) : Overwrite g other steps := by
  induction h with
  | here hemit hv =>
    obtain ⟨bytes, hbytes⟩ := hemit.decoded
    exact .here (overwrites_of_verdict g other (hdecode _ _ hbytes) hemit.emittable hv)
  | later hemit hv _ ih =>
    obtain ⟨bytes, hbytes⟩ := hemit.decoded
    exact .later (transparent_of_verdict g other (hdecode _ _ hbytes) hemit.emittable hv) ih

/-- One step of a block from the same flags. -/
theorem sound_step (hg : StoresWhereLoads g) (hother : OthersAlike other) {step : EmittedInsn}
    {skip : Bool} {rest : Plan} {others : Insn → Bool} (hcan : canEmit others step.insn = true)
    (hskip : skip = true → asksScan step.insn = true ∧ Unseen g other Apart rest)
    (hrest : Unseen g other Alike rest) : Unseen g other Alike ((step, skip) :: rest) := by
  intro s t hst
  have hrun := coupled_executeDecoded g other hother step.insn s t hst
  cases skip with
  | false => exact unseen_alike g other (Differ.eip hst) hrun hrest
  | true =>
    obtain ⟨hasks, hlost⟩ := hskip rfl
    cases hs : executeDecoded g other step.insn s with
    | ok a s' =>
      cases ht : executeDecoded g other step.insn t with
      | error e t' => rw [hs, ht] at hrun; exact hrun.elim
      | ok b t' =>
        rw [hs, ht] at hrun
        have hline : s'.cpu.eip = s.cpu.eip + step.insn.length :=
          inLine_of_asks g other hasks hs
        exact unseen_apart g other (Differ.eip hst) (skipFlags_ok hs) ht
          (apart_withFlags hrun.2 _) hline hlost
    | error e s' =>
      refine unseen_alike g other (Differ.eip hst) ?_ hrest
      cases ht : executeDecoded g other step.insn t with
      | ok b t' => rw [hs, ht] at hrun; exact hrun.elim
      | error f t' =>
        rw [hs, ht] at hrun
        have hkeep := fault_keeps_flags g other hg hasks hcan hs
        change SameResult _ _ (skipFlags _ s) (executeDecoded g other step.insn t)
        rw [skipFlags_error hs, ht, ← hkeep]
        exact hrun

/-- One step of a block from flags that are lost. -/
theorem overwritten_step {step : EmittedInsn} {skip : Bool} {rest : Plan}
    (h : Overwrite g other ((step, skip) :: rest |>.map Prod.fst))
    (hlost : Overwrite g other (rest.map Prod.fst) → Unseen g other Apart rest)
    (hskip : skip = true → Overwrite g other (rest.map Prod.fst))
    (hrest : Unseen g other Alike rest) : Unseen g other Apart ((step, skip) :: rest) := by
  intro s t hst
  have ht : t = s.put t.cpu.flags s.mem := hst.2
  cases h with
  | here hover =>
    obtain ⟨u, f, hline, hkind, hrun⟩ := hover s
    obtain ⟨c, hc⟩ := hrun s.cpu.flags s.mem
    obtain ⟨d, hd⟩ := hrun t.cpu.flags s.mem
    rw [← ht] at hd
    change executeDecoded g other step.insn s = _ at hc
    have hsame : Alike (u.put { f with carryIn := c } s.mem) (u.put { f with carryIn := d } s.mem) :=
      ⟨(sameFlags_carryIn hkind c).trans (sameFlags_carryIn hkind d).symm, rfl⟩
    cases skip with
    | false =>
      refine unseen_alike g other (Differ.eip hst) ?_ hrest
      change SameResult _ _ (executeDecoded g other step.insn s) (executeDecoded g other step.insn t)
      rw [hc, hd]
      exact ⟨rfl, hsame⟩
    | true =>
      exact unseen_apart g other (Differ.eip hst) (skipFlags_ok hc) hd (apart_withFlags hsame _)
        hline (hlost (hskip rfl))
  | later htransparent hlater =>
    obtain ⟨u, hline, hrun⟩ := htransparent s
    have hs := hrun s.cpu.flags s.mem
    have ht' := hrun t.cpu.flags s.mem
    rw [← ht] at ht'
    change executeDecoded g other step.insn s = _ at hs
    have hstep : runStep g other step skip s = .ok () (u.put s.cpu.flags s.mem) := by
      cases skip with
      | false => exact hs
      | true => exact skipFlags_ok hs
    exact unseen_apart g other (Differ.eip hst) hstep ht' ⟨trivial, rfl⟩ hline (hlost hlater)

theorem unseen_of_sound (hg : StoresWhereLoads g) (hother : OthersAlike other) {G : Guest}
    (hdecode : ∀ bytes i, G.decode bytes = some i → RegSized i) :
    ∀ {plan : Plan}, Sound G (plan.map Prod.fst) → (∀ p ∈ plan, p.2 = true → p.1.dead = true) →
      Unseen g other Alike plan ∧
        (Overwrite g other (plan.map Prod.fst) → Unseen g other Apart plan)
  | [], _, _ => ⟨fun _ _ h => ⟨rfl, h⟩, fun h => by cases h⟩
  | (step, skip) :: rest, hsound, hplan => by
    obtain _ | ⟨haccepted, hdead, hrest⟩ := hsound
    obtain ⟨hsame, hlost⟩ := unseen_of_sound hg hother hdecode hrest
      fun p hp => hplan p (List.mem_cons_of_mem _ hp)
    have hover : skip = true →
        asksScan step.insn = true ∧ Overwrite g other (rest.map Prod.fst) := fun hskip =>
      (hdead (hplan _ List.mem_cons_self hskip)).imp_right
        (overwrite_of_overwritten g other hdecode)
    exact ⟨sound_step g other hg hother haccepted.emittable
        (fun hskip => (hover hskip).imp_right hlost) hsame,
      fun h => overwritten_step g other h hlost (fun hskip => (hover hskip).2) hsame⟩

theorem overwrite_after_dead {G : Guest}
    (hdecode : ∀ bytes i, G.decode bytes = some i → RegSized i) {steps : List EmittedInsn}
    (hsound : Sound G steps) {before : List EmittedInsn} {step : EmittedInsn}
    {after : List EmittedInsn} (hsteps : steps = before ++ step :: after)
    (hdead : step.dead = true) : Overwrite g other after := by
  induction before generalizing steps with
  | nil =>
    subst hsteps
    obtain _ | ⟨-, h, -⟩ := hsound
    exact overwrite_of_overwritten g other hdecode (h hdead).2
  | cons first before ih =>
    subst hsteps
    obtain _ | ⟨-, -, hrest⟩ := hsound
    exact ih hrest rfl

end Runs

/-- After an instruction that the scan called dead the block goes on through instructions that
neither read flags nor touch memory nor leave it, up to one that overwrites the flags; and
whichever of the dead writes are left out, the block ends, or stops, as it does with all of
them. -/
theorem dead_flag_stores_sound {β : Type} (B : Backend β) (G : Guest) (codeCap : Nat)
    (other : OtherOp → Insn → Exec Window Unit) (hother : OthersAlike other)
    (hdecode : ∀ bytes i, G.decode bytes = some i → RegSized i) {prologue : β}
    {block : EmittedBlock} (h : translateSteps B G codeCap prologue = .ok block) :
    (∀ before step after, block.steps = before ++ step :: after → step.dead = true →
      Overwrite windowMem other after) ∧
    ∀ plan : Plan, plan.map Prod.fst = block.steps → (∀ p ∈ plan, p.2 = true → p.1.dead = true) →
      Coupled Alike Alike Alike (runBlock windowMem other plan)
        (runBlock windowMem other plan.unskipped) := by
  have hsound := sound_translateSteps B G codeCap h
  refine ⟨fun before step after hsteps hdead =>
    overwrite_after_dead _ _ hdecode hsound hsteps hdead, fun plan hplan hskips => ?_⟩
  exact (unseen_of_sound _ _ windowMem_storesWhereLoads hother hdecode (hplan ▸ hsound) hskips).1

/-! ## A block with dead writes -/

/-- A 32-bit register. -/
def regOperand (r : Reg) : Operand :=
  ⟨.ds, .reg, 4, r, none, none, 1, 0, 0, false, false, false⟩

def immOperand (v : U32) : Operand :=
  ⟨.ds, .imm, 4, 0, none, none, 1, 0, v, false, false, false⟩

/-- `ADD EAX, 1`, `MOV ECX, EAX`, `SUB EAX, ECX` and `RET`, by their first byte. -/
def sampleDecode : List U8 → Option Insn
  | 5 :: _ => some ⟨1, .alu .add, 2, regOperand eax, immOperand 1, immOperand 0, 32⟩
  | 0x89 :: _ => some ⟨1, .mov, 2, regOperand ecx, regOperand eax, immOperand 0, 32⟩
  | 0x2B :: _ => some ⟨1, .alu .sub, 2, regOperand eax, regOperand ecx, immOperand 0, 32⟩
  | 0xC3 :: _ => some ⟨1, .ret, 0, immOperand 0, immOperand 0, immOperand 0, 32⟩
  | _ => none

def sampleGuest : Guest where
  fetch pc := [5, 5, 0x89, 5, 0x2B, 0xC3][pc.toNat]?
  decode := sampleDecode
  boundary _ := false
  eip := 0
  others i := decide (i.op = .ret)

/-- Eight bytes of code an instruction. -/
def sampleBackend : Backend Nat where
  used := id
  slack _ := 0
  maxSlack := 0
  before _ := id
  emit _ _ _ b := b + 8
  slack_le _ := Nat.le_refl 0
  used_before _ b := Nat.le_refl b

theorem sampleDecode_regSized (bytes : List U8) (i : Insn) (h : sampleDecode bytes = some i) :
    RegSized i := by
  unfold sampleDecode at h
  split at h <;> cases h <;>
    exact fun o ho hk => by
      simp only [List.mem_cons, List.not_mem_nil, or_false] at ho
      rcases ho with rfl | rfl | rfl <;> exact ⟨_, rfl⟩

def addInsn : Insn := ⟨1, .alu .add, 2, regOperand eax, immOperand 1, immOperand 0, 32⟩

def movInsn : Insn := ⟨1, .mov, 2, regOperand ecx, regOperand eax, immOperand 0, 32⟩

def subInsn : Insn := ⟨1, .alu .sub, 2, regOperand eax, regOperand ecx, immOperand 0, 32⟩

def retInsn : Insn := ⟨1, .ret, 0, immOperand 0, immOperand 0, immOperand 0, 32⟩

/-- Three writes are dead: two in a row, and one behind the MOV. -/
def sampleSteps : List EmittedInsn :=
  [⟨0, addInsn, true⟩, ⟨1, addInsn, true⟩, ⟨2, movInsn, false⟩, ⟨3, addInsn, true⟩,
    ⟨4, subInsn, false⟩, ⟨5, retInsn, false⟩]

set_option maxRecDepth 8000 in
theorem sample_translated :
    translateSteps sampleBackend sampleGuest 8192 (0 : Nat) =
      .ok ⟨sampleSteps, 6, .blockEnd, true⟩ := by
  rfl

/-- The ADDs of the block above, with their flag writes left out. -/
theorem dead_flag_stores_sample :
    (Overwrite windowMem (fun _ _ => unsupported) (sampleSteps.drop 1) ∧
      Overwrite windowMem (fun _ _ => unsupported) (sampleSteps.drop 2) ∧
      Overwrite windowMem (fun _ _ => unsupported) (sampleSteps.drop 4)) ∧
      Coupled Alike Alike Alike
        (runBlock windowMem (fun _ _ => unsupported) (sampleSteps.map fun p => (p, p.dead)))
        (runBlock windowMem (fun _ _ => unsupported)
          (Plan.unskipped (sampleSteps.map fun p => (p, p.dead)))) := by
  have h := dead_flag_stores_sound sampleBackend sampleGuest 8192 (fun _ _ => unsupported)
    (fun _ _ => coupled_unsupported) sampleDecode_regSized sample_translated
  refine ⟨⟨h.1 [] _ _ rfl rfl, h.1 (sampleSteps.take 1) _ _ rfl rfl,
    h.1 (sampleSteps.take 3) _ _ rfl rfl⟩, h.2 _ rfl fun p hp hskip => ?_⟩
  obtain ⟨q, -, rfl⟩ := List.mem_map.mp hp
  exact hskip

end X86Port.Jit
