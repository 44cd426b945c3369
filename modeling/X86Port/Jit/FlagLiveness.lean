import X86Port.Cpu.Insn
import X86Port.Wasm.Lower

/-!
# The dead flag scan and the emit loop

`jit_flag_liveness.c`, and the loop of the native `x86p_jit_translate_bounded` that asks it. The
two backends differ in what they emit, which is a parameter, and share the gate, the stopping
rules and the questions.

* `overwritten_of_scan`: where the scan answers dead after a flag writer, the block goes on
  through instructions the scan sees through, up to one that it takes for an overwrite.
-/

namespace X86Port.Jit

open Cpu (Insn InsnOp Operand OperandKind AluOp AluUnOp)
open Wasm (Fetch fetchInsn maxInsns maxInsnLen)

/-! ## What a backend translates -/

/-- `mov_operand_ok`; a byte register number is in range already. -/
def movOperandOk (o : Operand) (w : Nat) (forWrite : Bool) : Bool :=
  match o.kind with
  | .imm => !forWrite
  | .mem | .reg => o.size == w
  | _ => false

def movIsEmittable (i : Insn) : Bool :=
  i.operands == 2 && [1, 2, 4].contains i.operand0.size &&
    !(i.operand0.kind == .mem && i.operand1.kind == .mem) &&
    movOperandOk i.operand0 i.operand0.size true && movOperandOk i.operand1 i.operand0.size false

def aluIsShift (op : AluOp) : Bool := op == .shl || op == .shr || op == .sar

/-- From SHL to RCR in the order of the codes. -/
def aluShiftsOrRotates (op : AluOp) : Bool :=
  [AluOp.shl, .shr, .sar, .rol, .ror, .rcl, .rcr].contains op

def shiftIsEmittable (i : Insn) : Bool :=
  i.operands == 2 && movOperandOk i.operand0 i.operand0.size true &&
    (i.operand1.kind == .imm ||
      (i.operand1.kind == .reg && i.operand1.reg == Cpu.ecx && i.operand1.size == 1))

def carryAluIsEmittable (i : Insn) : Bool :=
  i.operands == 2 && movOperandOk i.operand0 i.operand0.size true &&
    !(i.operand0.kind == .mem && i.operand1.kind == .mem) &&
    movOperandOk i.operand1 i.operand0.size false

def isReg32 (o : Operand) : Bool := o.kind == .reg && o.size == 4

def isMem32 (o : Operand) : Bool := o.kind == .mem && o.size == 4

/-- The operands an instruction names. -/
def Insn.named (i : Insn) : List Operand :=
  [i.operand0, i.operand1, i.operand2].take i.operands

def isRelativeBranch (i : Insn) : Bool :=
  (match i.op with
    | .jmp | .jcc _ | .loop | .loope | .loopne => true
    | _ => false) &&
  decide (i.operands ≥ 1) && i.operand0.kind == .imm && i.operand0.relative

def isIndirectBranch (i : Insn) : Bool :=
  i.op == .jmp && i.operands == 1 && i.operand0.kind != .imm

def imulIsEmittable (i : Insn) : Bool :=
  if i.operands = 1 then movOperandOk i.operand0 i.operand0.size true
  else
    (i.operands == 2 || (i.operands == 3 && i.operand2.kind == .imm)) &&
      (i.operand0.size == 2 || i.operand0.size == 4) && i.operand0.kind == .reg &&
      movOperandOk i.operand0 i.operand0.size true && i.operand1.kind != .imm &&
      movOperandOk i.operand1 i.operand0.size false

/-- `can_emit`, with the arms of the families the scan never looks into as a parameter. -/
def canEmit (others : Insn → Bool) (i : Insn) : Bool :=
  if (Insn.named i).any fun o => o.kind == .mem && o.addr16 then false
  else if isRelativeBranch i then true
  else if isIndirectBranch i then isReg32 i.operand0 || isMem32 i.operand0
  else
    match i.op with
    | .nop => true
    | .mov => movIsEmittable i
    | .alu op =>
      if aluShiftsOrRotates op then shiftIsEmittable i
      else if op == .adc || op == .sbb then carryAluIsEmittable i
      else movIsEmittable i
    | .aluUnary _ =>
      i.operands == 1 && i.operand0.kind != .imm && movOperandOk i.operand0 i.operand0.size true
    | .lea => i.operands == 2 && isReg32 i.operand0 && i.operand1.kind == .mem
    | .imul => imulIsEmittable i
    | _ => others i

/-! ## The scan -/

/-- What the scan makes of one instruction. -/
inductive Verdict where
  | overwrites
  | transparent
  | stops
deriving DecidableEq

def aluRewritesAllFlags : AluOp → Bool
  | .add | .sub | .cmp | .or | .and | .test | .xor => true
  | _ => false

def verdict (i : Insn) : Verdict :=
  match i.op with
  | .alu op =>
    if aluRewritesAllFlags op && i.operand0.kind != .mem && i.operand1.kind != .mem then
      .overwrites
    else if aluIsShift op && i.operand0.kind != .mem && i.operand1.kind == .imm &&
        i.operand1.imm &&& 0x1F != 0 then
      .overwrites
    else
      .stops
  | .aluUnary op =>
    if op == .neg && i.operand0.kind != .mem then .overwrites
    else if op == .not && i.operand0.kind != .mem then .transparent
    else .stops
  | .nop | .lea => .transparent
  | .mov =>
    if i.operand0.kind == .reg && i.operand1.kind != .mem then .transparent else .stops
  | _ => .stops

def worstCaseInsnBytes : Nat := 384
def epilogueBytes : Nat := 640

/-- What both loops read: the guest bytes, the decoder, the boundary and the first address. -/
structure Guest where
  fetch : Fetch
  decode : List U8 → Option Insn
  boundary : U32 → Bool
  eip : U32
  others : Insn → Bool

def Guest.decodeAt (G : Guest) (pc : U32) : Option Insn :=
  let bytes := fetchInsn G.fetch pc maxInsnLen
  if bytes = [] then none else G.decode bytes

structure FlagScan where
  count : Nat
  maxInsns : Nat
  codeLen : Nat
  codeCap : Nat

/-- The rounds of `x86p_jit_flag_write_is_dead` from `step` on. -/
def scanFrom (G : Guest) (scan : FlagScan) : Nat → Nat → U32 → Bool
  | 0, _, _ => false
  | rounds + 1, step, pc =>
    if scan.count + 1 + step ≥ scan.maxInsns then false
    else if scan.codeLen + (step + 2) * worstCaseInsnBytes + epilogueBytes > scan.codeCap then
      false
    else
      match G.decodeAt pc with
      | none => false
      | some insn =>
        if pc ≠ G.eip ∧ G.boundary pc then false
        else if !canEmit G.others insn then false
        else
          match verdict insn with
          | .overwrites => true
          | .transparent => scanFrom G scan rounds (step + 1) (pc + insn.length)
          | .stops => false

def flagWriteIsDead (G : Guest) (scan : FlagScan) (pc : U32) : Bool := scanFrom G scan 8 0 pc

/-! ## The emit loop -/

/-- What a backend emits, by the bytes it takes. `used` is what the budget counts so far;
`slack` what the loop keeps beside it, of which the scan takes the most there can be: on x86-64
the fault trampolines are part of `used` and there is no slack, on AArch64 the slack is the tail
reserved for the x87 routines. Emitting only appends. -/
structure Backend (β : Type) where
  used : β → Nat
  slack : β → Nat
  maxSlack : Nat
  before : Insn → β → β
  emit : Insn → U32 → Bool → β → β
  slack_le : ∀ b, slack b ≤ maxSlack
  used_before : ∀ i b, used b ≤ used (before i b)

/-- An instruction of a block, and whether its flag write was left out. -/
structure EmittedInsn where
  pc : U32
  insn : Insn
  dead : Bool

structure EmittedBlock where
  steps : List EmittedInsn
  pc : U32
  exit : JitExit
  terminated : Bool

def isCallOrRet (i : Insn) : Bool := i.op == .call || i.op == .ret

/-- The instructions whose emitters take the answer of the scan. -/
def asksScan (i : Insn) : Bool :=
  match i.op with
  | .aluUnary _ => true
  | .imul => i.operands != 1
  | .alu op => aluRewritesAllFlags op || aluIsShift op
  | _ => false

section EmitLoop

variable {β : Type} (B : Backend β) (G : Guest) (codeCap : Nat)

/-- `insn_fit`: what the last instruction took, from `start`. -/
def insnFit (start b : β) : Bool := decide (B.used b - B.used start ≤ worstCaseInsnBytes)

/-- The end of the loop still measures the last instruction. -/
def endLoop (start b : β) (pc : U32) (exit : JitExit) (terminated : Bool) :
    Except JitStatus EmittedBlock :=
  if insnFit B start b then .ok ⟨[], pc, exit, terminated⟩ else .error .outOfSpace

def EmittedBlock.cons (step : EmittedInsn) (block : EmittedBlock) : EmittedBlock :=
  { block with steps := step :: block.steps }

/-- The loop, with the instructions it may still take; the last one began at `start`. -/
def emitLoop : Nat → β → β → U32 → Nat → Except JitStatus EmittedBlock
  | 0, start, b, pc, _ => endLoop B start b pc .blockEnd false
  | remaining + 1, start, b, pc, count =>
    if !insnFit B start b then .error .outOfSpace
    else if B.used b + B.slack b + worstCaseInsnBytes + epilogueBytes > codeCap then
      endLoop B b b pc .blockEnd false
    else
      match G.decodeAt pc with
      | none =>
        if count = 0 then
          .error (if fetchInsn G.fetch pc maxInsnLen = [] then .fetchFault else .decodeFailed)
        else endLoop B b b pc .blockEnd false
      | some insn =>
        if pc ≠ G.eip ∧ G.boundary pc then endLoop B b b pc .blockEnd false
        else if !canEmit G.others insn then
          if count = 0 then .error .unsupportedAtEntry else endLoop B b b pc .unsupported false
        else
          let ready := B.before insn b
          let next := pc + insn.length
          if isCallOrRet insn || isIndirectBranch insn || isRelativeBranch insn then
            (endLoop B b (B.emit insn pc false ready) next .blockEnd true).map
              (EmittedBlock.cons ⟨pc, insn, false⟩)
          else
            let scan : FlagScan := ⟨count, maxInsns, B.used ready + B.maxSlack, codeCap⟩
            let dead := asksScan insn && flagWriteIsDead G scan next
            (emitLoop remaining b (B.emit insn pc dead ready) next (count + 1)).map
              (EmittedBlock.cons ⟨pc, insn, dead⟩)

/-- The block from the state after the prologue. -/
def translateSteps (prologue : β) : Except JitStatus EmittedBlock :=
  emitLoop B G codeCap maxInsns prologue prologue G.eip 0

/-! ## What a dead answer says of the block -/

/-- An instruction the decoder gives and the backend takes. -/
structure Accepted (i : Insn) : Prop where
  decoded : ∃ bytes, G.decode bytes = some i
  emittable : canEmit G.others i = true

/-- The steps begin with instructions the scan sees through and reach one it takes for an
overwrite. -/
inductive Overwritten : List EmittedInsn → Prop
  | here {step : EmittedInsn} {rest : List EmittedInsn} (hemit : Accepted G step.insn)
      (h : verdict step.insn = .overwrites) : Overwritten (step :: rest)
  | later {step : EmittedInsn} {rest : List EmittedInsn} (hemit : Accepted G step.insn)
      (h : verdict step.insn = .transparent) (hrest : Overwritten rest) :
      Overwritten (step :: rest)

/-- No instruction the scan goes past ends a block. -/
theorem not_terminator {i : Insn} (h : verdict i ≠ .stops) :
    (isCallOrRet i || isIndirectBranch i || isRelativeBranch i) = false := by
  unfold verdict at h
  unfold isCallOrRet isIndirectBranch isRelativeBranch
  cases hop : i.op <;> rw [hop] at h <;> first | exact absurd rfl h | rfl

theorem map_cons_eq_ok {step : EmittedInsn} {r : Except JitStatus EmittedBlock}
    {block : EmittedBlock} (h : r.map (EmittedBlock.cons step) = .ok block) :
    ∃ rest, r = .ok rest ∧ block = rest.cons step := by
  cases r with
  | error e => cases h
  | ok rest => exact ⟨rest, rfl, (Except.ok.inj h).symm⟩

theorem endLoop_steps {start b : β} {pc : U32} {exit : JitExit} {terminated : Bool}
    {block : EmittedBlock} (h : endLoop B start b pc exit terminated = .ok block) :
    block.steps = [] := by
  unfold endLoop at h
  split_ifs at h
  rw [← Except.ok.inj h]

/-- Neither loop stops before `insn`, the instruction at `pc`. -/
structure Goes (pc : U32) (insn : Insn) : Prop where
  decoded : G.decodeAt pc = some insn
  inside : ¬ (pc ≠ G.eip ∧ G.boundary pc = true)
  emittable : canEmit G.others insn = true

theorem Goes.accepted {G : Guest} {pc : U32} {insn : Insn} (h : Goes G pc insn) :
    Accepted G insn := by
  have hdecoded := h.decoded
  unfold Guest.decodeAt at hdecoded
  dsimp only at hdecoded
  split_ifs at hdecoded
  exact ⟨⟨_, hdecoded⟩, h.emittable⟩

theorem scanFrom_cases {scan : FlagScan} {rounds step : Nat} {pc : U32}
    (h : scanFrom G scan (rounds + 1) step pc = true) :
    scan.count + 1 + step < scan.maxInsns ∧
      scan.codeLen + (step + 2) * worstCaseInsnBytes + epilogueBytes ≤ scan.codeCap ∧
      ∃ insn, Goes G pc insn ∧ (verdict insn = .overwrites ∨ verdict insn = .transparent ∧
        scanFrom G scan rounds (step + 1) (pc + insn.length) = true) := by
  unfold scanFrom at h
  by_cases hlast : scan.count + 1 + step ≥ scan.maxInsns
  · rw [if_pos hlast] at h
    cases h
  by_cases hroom : scan.codeLen + (step + 2) * worstCaseInsnBytes + epilogueBytes > scan.codeCap
  · rw [if_neg hlast, if_pos hroom] at h
    cases h
  rw [if_neg hlast, if_neg hroom] at h
  refine ⟨by omega, by omega, ?_⟩
  cases hdec : G.decodeAt pc with
  | none => rw [hdec] at h; cases h
  | some insn =>
    rw [hdec] at h
    dsimp only at h
    split_ifs at h with hboundary hemit
    refine ⟨insn, ⟨hdec, hboundary, by simpa using hemit⟩, ?_⟩
    cases hv : verdict insn with
    | overwrites => exact .inl rfl
    | stops => rw [hv] at h; cases h
    | transparent => rw [hv] at h; exact .inr ⟨rfl, h⟩

/-- What one round of a loop that gives a block can do. -/
theorem emitLoop_cases {remaining count : Nat} {start b : β} {pc : U32} {block : EmittedBlock}
    (h : emitLoop B G codeCap (remaining + 1) start b pc count = .ok block) :
    B.used b ≤ B.used start + worstCaseInsnBytes ∧
      ((block.steps = [] ∧
          (codeCap < B.used b + B.slack b + worstCaseInsnBytes + epilogueBytes ∨
            ∀ insn, ¬ Goes G pc insn)) ∨
        ∃ insn, Goes G pc insn ∧
          ((isCallOrRet insn || isIndirectBranch insn || isRelativeBranch insn) = true ∧
              block.steps = [⟨pc, insn, false⟩] ∨
            ∃ dead b' rest, dead = (asksScan insn && flagWriteIsDead G
                ⟨count, maxInsns, B.used (B.before insn b) + B.maxSlack, codeCap⟩
                (pc + insn.length)) ∧
              emitLoop B G codeCap remaining b b' (pc + insn.length) (count + 1) = .ok rest ∧
              block.steps = ⟨pc, insn, dead⟩ :: rest.steps)) := by
  unfold emitLoop at h
  by_cases hfit : (!insnFit B start b) = true
  · rw [if_pos hfit] at h
    cases h
  rw [if_neg hfit] at h
  have hused : B.used b - B.used start ≤ worstCaseInsnBytes := by simpa [insnFit] using hfit
  refine ⟨by omega, ?_⟩
  by_cases hfull : B.used b + B.slack b + worstCaseInsnBytes + epilogueBytes > codeCap
  · rw [if_pos hfull] at h
    exact .inl ⟨endLoop_steps B h, .inl hfull⟩
  rw [if_neg hfull] at h
  cases hdec : G.decodeAt pc with
  | none =>
    rw [hdec] at h
    dsimp only at h
    split_ifs at h
    exact .inl ⟨endLoop_steps B h, .inr fun insn hgoes => by cases hdec.symm.trans hgoes.decoded⟩
  | some insn =>
    have hsame : ∀ {other}, Goes G pc other → other = insn := fun hgoes =>
      Option.some.inj (hgoes.decoded.symm.trans hdec)
    rw [hdec] at h
    dsimp only at h
    split_ifs at h with hboundary hemit hentry hends
    · exact .inl ⟨endLoop_steps B h, .inr fun other hgoes => hgoes.inside hboundary⟩
    · refine .inl ⟨endLoop_steps B h, .inr fun other hgoes => ?_⟩
      have haccepted := hsame hgoes ▸ hgoes.emittable
      rw [haccepted] at hemit
      cases hemit
    · obtain ⟨rest, hrest, rfl⟩ := map_cons_eq_ok h
      refine .inr ⟨insn, ⟨hdec, hboundary, by simpa using hemit⟩, .inl ⟨hends, ?_⟩⟩
      exact congrArg (_ :: ·) (endLoop_steps B hrest)
    · obtain ⟨rest, hrest, rfl⟩ := map_cons_eq_ok h
      exact .inr ⟨insn, ⟨hdec, hboundary, by simpa using hemit⟩, .inr ⟨_, _, rest, rfl, hrest, rfl⟩⟩

/-- The loop reaches every instruction the scan goes past: both stop for the same reasons, and
the scan charges each instruction the most it may take. -/
theorem overwritten_of_scan {scan : FlagScan} (hmax : scan.maxInsns = maxInsns)
    (hcap : scan.codeCap = codeCap) (base : Nat) (hbase : base + B.maxSlack ≤ scan.codeLen)
    {rounds step : Nat} {pc : U32} (hscan : scanFrom G scan rounds step pc = true)
    {remaining count : Nat} (hcount : count = scan.count + 1 + step)
    (hrem : remaining + count = maxInsns) {start b : β}
    (hstart : B.used start ≤ base + step * worstCaseInsnBytes) {block : EmittedBlock}
    (hloop : emitLoop B G codeCap remaining start b pc count = .ok block) :
    Overwritten G block.steps := by
  induction rounds generalizing step pc remaining count start b block with
  | zero => cases hscan
  | succ rounds ih =>
    obtain ⟨hlast, hroom, insn, hgoes, hverdict⟩ := scanFrom_cases G hscan
    obtain ⟨remaining, rfl⟩ : ∃ n, remaining = n + 1 := ⟨remaining - 1, by omega⟩
    obtain ⟨hused, ⟨-, hstop⟩ | ⟨insn', hgoes', hround⟩⟩ := emitLoop_cases B G codeCap hloop
    · -- the budget the loop checks is within the one the scan checked
      rcases hstop with hfull | hnone
      · have hslack := B.slack_le b
        have hsum : (step + 2) * worstCaseInsnBytes =
            step * worstCaseInsnBytes + worstCaseInsnBytes + worstCaseInsnBytes := by
          rw [Nat.add_mul, Nat.two_mul, Nat.add_assoc]
        omega
      · exact absurd hgoes (hnone insn)
    obtain rfl := Option.some.inj (hgoes.decoded.symm.trans hgoes'.decoded)
    have hends : (isCallOrRet insn || isIndirectBranch insn || isRelativeBranch insn) = false :=
      not_terminator (by rcases hverdict with hv | ⟨hv, -⟩ <;> rw [hv] <;> decide)
    obtain ⟨hends', -⟩ | ⟨dead, b', rest, -, hrest, hsteps⟩ := hround
    · rw [hends] at hends'
      cases hends'
    rw [hsteps]
    rcases hverdict with hv | ⟨hv, hscan'⟩
    · exact .here hgoes.accepted hv
    · refine .later hgoes.accepted hv (ih hscan' (by omega) (by omega) ?_ hrest)
      rw [Nat.add_mul, Nat.one_mul]
      omega

/-- Every instruction of the block was accepted, and what follows one without its flag write
overwrites the flags. -/
inductive Sound : List EmittedInsn → Prop
  | nil : Sound []
  | cons {step : EmittedInsn} {rest : List EmittedInsn} (hemit : Accepted G step.insn)
      (hdead : step.dead = true → asksScan step.insn = true ∧ Overwritten G rest)
      (hrest : Sound rest) : Sound (step :: rest)

theorem sound_emitLoop {remaining count : Nat} (hrem : remaining + count = maxInsns) {start b : β}
    {pc : U32} {block : EmittedBlock}
    (hloop : emitLoop B G codeCap remaining start b pc count = .ok block) :
    Sound G block.steps := by
  induction remaining generalizing start b pc count block with
  | zero =>
    rw [endLoop_steps B hloop]
    exact .nil
  | succ remaining ih =>
    obtain ⟨-, ⟨hsteps, -⟩ | ⟨insn, hgoes, ⟨-, hsteps⟩ | ⟨dead, b', rest, hdead, hrest, hsteps⟩⟩⟩ :=
      emitLoop_cases B G codeCap hloop
    · rw [hsteps]
      exact .nil
    · rw [hsteps]
      exact .cons hgoes.accepted (fun h => by cases h) .nil
    · rw [hsteps]
      refine .cons hgoes.accepted (fun h => ?_) (ih (by omega) hrest)
      rw [hdead, Bool.and_eq_true] at h
      refine ⟨h.1, overwritten_of_scan B G codeCap rfl rfl (B.used b) ?_ h.2 (by rfl) (by omega)
        (Nat.le_add_right _ _) hrest⟩
      exact Nat.add_le_add_right (B.used_before insn b) _

theorem sound_translateSteps {prologue : β} {block : EmittedBlock}
    (h : translateSteps B G codeCap prologue = .ok block) : Sound G block.steps :=
  sound_emitLoop B G codeCap rfl h

end EmitLoop

end X86Port.Jit
