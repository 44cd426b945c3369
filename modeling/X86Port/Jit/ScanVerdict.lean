import X86Port.Cpu.SameFlags
import X86Port.Jit.FlagLiveness

/-!
# What the dead flag scan goes past

The verdict on an instruction, read as what the interpreter does with it.

* `transparent_of_verdict`: what the scan goes past reads and writes neither flags nor memory, and
  stays in line.
* `overwrites_of_verdict`: what it stops at replaces the tuple, whatever it was.
-/

namespace X86Port.Cpu

/-- The same state with other flags and another memory. -/
def Ctx.put {μ : Type} (s : Ctx μ) (f : Flags) (mem : μ) : Ctx μ := { s.withFlags f with mem := mem }

end X86Port.Cpu

namespace X86Port.Jit

open Lib
open Cpu
open Cpu.Exec

variable {μ : Type}

section Verdicts

variable (g : GuestMem μ) (other : OtherOp → Insn → Exec μ Unit)

/-- The instruction completes, stays in line, and has the same effect on the registers whatever
the flags and the memory are, which it leaves alone. -/
def Transparent (i : Insn) : Prop :=
  ∀ s : Ctx μ, ∃ s' : Ctx μ, s'.cpu.eip = s.cpu.eip + i.length ∧
    ∀ f mem, executeDecoded g other i (s.put f mem) = .ok () (s'.put f mem)

/-- The instruction completes and stays in line, the same whatever the flags and the memory are,
and records a tuple of its own, whose kind does not read the carry it was recorded with. -/
def Overwrites (i : Insn) : Prop :=
  ∀ s : Ctx μ, ∃ (s' : Ctx μ) (f' : Flags), s'.cpu.eip = s.cpu.eip + i.length ∧
    (f'.kind ≠ .inc ∧ f'.kind ≠ .dec) ∧
    ∀ f mem, ∃ c, executeDecoded g other i (s.put f mem) =
      .ok () (s'.put { f' with carryIn := c } mem)

/-- The registers the decoder names have a width of the integer engine. -/
def RegSized (i : Insn) : Prop :=
  ∀ o ∈ [i.operand0, i.operand1, i.operand2], o.kind = .reg → ∃ w, Width.ofBytes o.size = some w

/-- The value of an operand that is not in memory. -/
def valueHere (c : CpuState) (o : Operand) (w : Width) : U32 :=
  if o.kind = .imm then o.imm else regRead c o.reg w

/-- A register of a width, or an immediate. -/
def HereAt (o : Operand) (w : Width) : Prop :=
  o.kind = .imm ∨ o.kind = .reg ∧ Width.ofBytes o.size = some w

theorem readOperand_here {o : Operand} {w : Width} (h : HereAt o w) (s : Ctx μ) :
    readOperand g o s = .ok (valueHere s.cpu.toCpuState o w) s := by
  unfold valueHere
  rcases h with himm | ⟨hreg, hw⟩
  · rw [readOperand_imm g himm, if_pos himm]
  · rw [readOperand_reg g hreg hw, if_neg (by rw [hreg]; decide)]

theorem valueHere_put (s : Ctx μ) (f : Flags) (mem : μ) (o : Operand) (w : Width) :
    valueHere (s.put f mem).cpu.toCpuState o w = valueHere s.cpu.toCpuState o w := by
  unfold valueHere
  rw [show (s.put f mem).cpu.toCpuState = { s.cpu.toCpuState with flags := f } from rfl,
    regRead_flags]

theorem put_withRegs (s : Ctx μ) (f : Flags) (mem : μ) (r : Reg) (w : Width) (v : U32) :
    (s.put f mem).withRegs (regWrite (s.put f mem).cpu.toCpuState r w v) =
      (s.withRegs (regWrite s.cpu.toCpuState r w v)).put f mem := by
  cases w <;> rfl

theorem writeOperand_put {o : Operand} {w : Width} (hk : o.kind = .reg)
    (hw : Width.ofBytes o.size = some w) (s : Ctx μ) (f : Flags) (mem : μ) (v : U32) :
    writeOperand g o v (s.put f mem) =
      .ok () ((s.withRegs (regWrite s.cpu.toCpuState o.reg w v)).put f mem) := by
  rw [writeOperand_reg g hk hw, put_withRegs]

theorem readOperand_put {o : Operand} {w : Width} (h : HereAt o w) (s : Ctx μ) (f : Flags)
    (mem : μ) :
    readOperand g o (s.put f mem) = .ok (valueHere s.cpu.toCpuState o w) (s.put f mem) := by
  rw [readOperand_here g h, valueHere_put]

theorem effectiveAddress_put (s : Ctx μ) (f : Flags) (mem : μ) (o : Operand) :
    effectiveAddress (s.put f mem).cpu o = effectiveAddress s.cpu o :=
  effectiveAddress_flags s f o

theorem transparent_of_execute {i : Insn}
    (h : ∀ s : Ctx μ, ∃ s' : Ctx μ, s'.nextEip = s.nextEip ∧
      ∀ f mem, execute g other i (s.put f mem) = .ok () (s'.put f mem)) :
    Transparent g other i := by
  intro s
  obtain ⟨s', hnext, hrun⟩ := h { s with nextEip := s.cpu.eip + i.length }
  refine ⟨{ s' with cpu := { s'.cpu with eip := s'.nextEip } }, hnext, fun f mem => ?_⟩
  exact executeDecoded_ok g other (s := s.put f mem) (hrun f mem)

theorem overwrites_of_execute {i : Insn}
    (h : ∀ s : Ctx μ, ∃ (s' : Ctx μ) (f' : Flags), s'.nextEip = s.nextEip ∧
      (f'.kind ≠ .inc ∧ f'.kind ≠ .dec) ∧
      ∀ f mem, ∃ c, execute g other i (s.put f mem) = .ok () (s'.put { f' with carryIn := c } mem)) :
    Overwrites g other i := by
  intro s
  obtain ⟨s', f', hnext, hkind, hrun⟩ := h { s with nextEip := s.cpu.eip + i.length }
  refine ⟨{ s' with cpu := { s'.cpu with eip := s'.nextEip } }, f', hnext, hkind, fun f mem => ?_⟩
  obtain ⟨c, hc⟩ := hrun f mem
  exact ⟨c, executeDecoded_ok g other (s := s.put f mem) hc⟩

/-! ## Shapes that the gate lets through -/

theorem reg_of_movOperandOk {o : Operand} {w : Nat} (h : movOperandOk o w true = true)
    (hk : o.kind ≠ .mem) : o.kind = .reg ∧ o.size = w := by
  unfold movOperandOk at h
  cases hkind : o.kind <;> rw [hkind] at h hk <;> first | exact absurd rfl hk | simp_all

theorem hereAt_of_movOperandOk {o : Operand} {n : Nat} {w : Width}
    (h : movOperandOk o n false = true) (hw : Width.ofBytes n = some w) (hk : o.kind ≠ .mem) :
    HereAt o w := by
  unfold movOperandOk at h
  cases hkind : o.kind <;> rw [hkind] at h hk <;> first | exact absurd rfl hk | simp_all [HereAt]

theorem width_of_contains {n : Nat} (h : [1, 2, 4].contains n = true) :
    ∃ w, Width.ofBytes n = some w := by
  have hcases : n = 1 ∨ n = 2 ∨ n = 4 := by simpa using h
  rcases hcases with rfl | rfl | rfl
  · exact ⟨.byte, rfl⟩
  · exact ⟨.word, rfl⟩
  · exact ⟨.dword, rfl⟩

/-- A two-operand form with no operand in memory. -/
theorem shape_of_movIsEmittable {i : Insn} (h : movIsEmittable i = true)
    (h0 : i.operand0.kind ≠ .mem) (h1 : i.operand1.kind ≠ .mem) :
    ∃ w, i.operand0.kind = .reg ∧ Width.ofBytes i.operand0.size = some w ∧ HereAt i.operand1 w := by
  simp only [movIsEmittable, Bool.and_eq_true] at h
  obtain ⟨⟨⟨⟨-, hsize⟩, -⟩, hdst⟩, hsrc⟩ := h
  obtain ⟨w, hw⟩ := width_of_contains hsize
  exact ⟨w, (reg_of_movOperandOk hdst h0).1, hw, hereAt_of_movOperandOk hsrc hw h1⟩

theorem canEmit_arm {others : Insn → Bool} {i : Insn} (h : canEmit others i = true)
    (hline : isRelativeBranch i = false) (hdirect : isIndirectBranch i = false) :
    (match i.op with
      | .nop => true
      | .mov => movIsEmittable i
      | .alu op =>
        if aluShiftsOrRotates op then shiftIsEmittable i
        else if op == .adc || op == .sbb then carryAluIsEmittable i
        else movIsEmittable i
      | .aluUnary _ =>
        i.operands == 1 && i.operand0.kind != .imm && movOperandOk i.operand0 i.operand0.size true
      | .lea => i.operands == 2 && isReg32 i.operand0 && i.operand1.kind == .mem
      | .imul => imulIsEmittable i
      | _ => others i) = true := by
  unfold canEmit at h
  by_cases hwide : ((Insn.named i).any fun o => o.kind == .mem && o.addr16) = true
  · rw [if_pos hwide] at h
    cases h
  · rw [if_neg hwide, hline, hdirect] at h
    exact h

/-! ## The two kinds of instruction -/

theorem transparent_nop {i : Insn} (hop : i.op = .nop) : Transparent g other i := by
  refine transparent_of_execute g other fun s => ⟨s, rfl, fun f mem => ?_⟩
  unfold execute
  rw [hop]
  rfl

theorem transparent_mov {i : Insn} {w : Width} (hop : i.op = .mov) (h0 : i.operand0.kind = .reg)
    (hw : Width.ofBytes i.operand0.size = some w) (h1 : HereAt i.operand1 w) :
    Transparent g other i := by
  refine transparent_of_execute g other fun s =>
    ⟨s.withRegs (regWrite s.cpu.toCpuState i.operand0.reg w
      (valueHere s.cpu.toCpuState i.operand1 w)), rfl, fun f mem => ?_⟩
  unfold execute
  rw [hop]
  dsimp only
  rw [bind_ok (readOperand_put g h1 s f mem), writeOperand_put g h0 hw]

theorem transparent_lea {i : Insn} {w : Width} (hop : i.op = .lea) (h0 : i.operand0.kind = .reg)
    (hw : Width.ofBytes i.operand0.size = some w) (h1 : i.operand1.kind = .mem) :
    Transparent g other i := by
  refine transparent_of_execute g other fun s =>
    ⟨s.withRegs (regWrite s.cpu.toCpuState i.operand0.reg w
      (effectiveAddress s.cpu i.operand1)), rfl, fun f mem => ?_⟩
  unfold execute
  rw [hop]
  dsimp only
  rw [if_pos h1, ask_bind, effectiveAddress_put, writeOperand_put g h0 hw]

theorem transparent_not {i : Insn} {w : Width} (hop : i.op = .aluUnary .not)
    (h0 : i.operand0.kind = .reg) (hw : Width.ofBytes i.operand0.size = some w) :
    Transparent g other i := by
  have hhere : HereAt i.operand0 w := .inr ⟨h0, hw⟩
  refine transparent_of_execute g other fun s =>
    ⟨s.withRegs (regWrite s.cpu.toCpuState i.operand0.reg w
      (~~~(valueHere s.cpu.toCpuState i.operand0 w &&& widthMask w) &&& widthMask w)), rfl,
      fun f mem => ?_⟩
  unfold execute
  rw [hop]
  dsimp only
  unfold executeAluUnary
  rw [bind_ok (readOperand_put g hhere s f mem), hw, orFatal_bind_some,
    bind_ok (onFlags_ok (s := s.put f mem) rfl)]
  exact writeOperand_put g h0 hw s f mem _

/-- Only the carry that is preserved depends on the flags before the operation. -/
theorem alu_overwrites {op : AluOp} {a b : U32} {w : Width}
    (h : aluRewritesAllFlags op = true ∨ aluIsShift op = true ∧ b &&& widthMask w &&& 0x1F#32 ≠ 0) :
    ∃ (r : U32) (f' : Flags), (f'.kind ≠ .inc ∧ f'.kind ≠ .dec) ∧
      ∀ f, alu op a b w f = some (r, { f' with carryIn := if flagCf f then 1 else 0 }) := by
  rcases h with hall | ⟨hshift, hcount⟩
  · obtain ⟨⟨combine, kind⟩, hshape⟩ : ∃ p, aluShape op = some p := by
      cases op <;> first | exact absurd hall (by decide) | exact ⟨_, rfl⟩
    exact ⟨_, ⟨_, _, _, kind, w, 0⟩, aluShape_kind hshape, alu_of_shape hshape a b w⟩
  · obtain ⟨kind, hkind⟩ : ∃ kind, shiftKind op = some kind := by
      cases op <;> first | exact absurd hshift (by decide) | exact ⟨_, rfl⟩
    obtain ⟨r, hr⟩ := alu_of_shiftKind hkind a hcount
    exact ⟨r, ⟨_, _, _, kind, w, 0⟩, shiftKind_kind hkind, hr⟩

theorem overwrites_alu {i : Insn} {op : AluOp} {w : Width} (hop : i.op = .alu op)
    (h0 : i.operand0.kind = .reg) (hw : Width.ofBytes i.operand0.size = some w)
    (h1 : HereAt i.operand1 w)
    (h : aluRewritesAllFlags op = true ∨
      aluIsShift op = true ∧ ∀ c, valueHere c i.operand1 w &&& widthMask w &&& 0x1F#32 ≠ 0) :
    Overwrites g other i := by
  have hhere : HereAt i.operand0 w := .inr ⟨h0, hw⟩
  refine overwrites_of_execute g other fun s => ?_
  obtain ⟨r, f', hkind, halu⟩ := alu_overwrites (a := valueHere s.cpu.toCpuState i.operand0 w)
    (b := valueHere s.cpu.toCpuState i.operand1 w) (h.imp_right fun h => ⟨h.1, h.2 _⟩)
  have hrun : ∀ f mem, execute g other i (s.put f mem) =
      (if op = .cmp ∨ op = .test then pure () else writeOperand g i.operand0 r)
        (s.put { f' with carryIn := if flagCf f then 1 else 0 } mem) := by
    intro f mem
    unfold execute
    rw [hop]
    dsimp only
    unfold executeAlu
    rw [bind_ok (readOperand_put g hhere s f mem), bind_ok (readOperand_put g h1 s f mem), hw,
      orFatal_bind_some, bind_ok (onFlags_ok (s := s.put f mem) (halu f))]
    rfl
  by_cases hdiscard : op = .cmp ∨ op = .test
  · refine ⟨s, f', rfl, hkind, fun f mem => ⟨if flagCf f then 1 else 0, ?_⟩⟩
    rw [hrun, if_pos hdiscard]
    rfl
  · refine ⟨s.withRegs (regWrite s.cpu.toCpuState i.operand0.reg w r), f', rfl, hkind,
      fun f mem => ⟨if flagCf f then 1 else 0, ?_⟩⟩
    rw [hrun, if_neg hdiscard, writeOperand_put g h0 hw]

theorem overwrites_neg {i : Insn} {w : Width} (hop : i.op = .aluUnary .neg)
    (h0 : i.operand0.kind = .reg) (hw : Width.ofBytes i.operand0.size = some w) :
    Overwrites g other i := by
  have hhere : HereAt i.operand0 w := .inr ⟨h0, hw⟩
  refine overwrites_of_execute g other fun s => ?_
  let a := valueHere s.cpu.toCpuState i.operand0 w &&& widthMask w
  let r := (0 - a) &&& widthMask w
  refine ⟨s.withRegs (regWrite s.cpu.toCpuState i.operand0.reg w r), ⟨0, a, r, .sub, w, 0⟩, rfl,
    ⟨nofun, nofun⟩, fun f mem => ⟨if flagCf f then 1 else 0, ?_⟩⟩
  unfold execute
  rw [hop]
  dsimp only
  unfold executeAluUnary
  rw [bind_ok (readOperand_put g hhere s f mem), hw, orFatal_bind_some,
    bind_ok (onFlags_ok (s := s.put f mem) rfl)]
  exact writeOperand_put g h0 hw s _ mem _

theorem not_branch {i : Insn} (h : verdict i ≠ .stops) :
    isRelativeBranch i = false ∧ isIndirectBranch i = false := by
  have hnone := not_terminator h
  simp only [Bool.or_eq_false_iff] at hnone
  exact ⟨hnone.2, hnone.1.2⟩

theorem widthOf {i : Insn} (hregs : RegSized i) (h0 : i.operand0.kind = .reg) :
    ∃ w, Width.ofBytes i.operand0.size = some w :=
  hregs _ List.mem_cons_self h0

/-- The gate of a one-operand form. -/
theorem reg_of_unary {i : Insn} {op : AluUnOp} {others : Insn → Bool}
    (hop : i.op = .aluUnary op) (hgo : verdict i ≠ .stops) (hcan : canEmit others i = true)
    (hk : i.operand0.kind ≠ .mem) : i.operand0.kind = .reg := by
  have harm := canEmit_arm hcan (not_branch hgo).1 (not_branch hgo).2
  rw [hop] at harm
  simp only [Bool.and_eq_true] at harm
  exact (reg_of_movOperandOk harm.2 hk).1

theorem transparent_of_verdict {i : Insn} {others : Insn → Bool} (hregs : RegSized i)
    (hcan : canEmit others i = true) (hv : verdict i = .transparent) :
    Transparent g other i := by
  have hgo : verdict i ≠ .stops := by rw [hv]; decide
  have harm := canEmit_arm hcan (not_branch hgo).1 (not_branch hgo).2
  unfold verdict at hv
  cases hop : i.op <;> rw [hop] at hv harm <;> dsimp only at hv harm <;> try cases hv
  case nop => exact transparent_nop g other hop
  case alu => split_ifs at hv
  case mov =>
    split_ifs at hv with hcond
    simp only [Bool.and_eq_true, beq_iff_eq, bne_iff_ne] at hcond
    obtain ⟨w, h0, hw, h1⟩ := shape_of_movIsEmittable harm (by rw [hcond.1]; decide) hcond.2
    exact transparent_mov g other hop h0 hw h1
  case lea =>
    simp only [isReg32, Bool.and_eq_true, beq_iff_eq] at harm
    exact transparent_lea g other hop harm.1.2.1 (by rw [harm.1.2.2]; rfl) harm.2
  case aluUnary op =>
    split_ifs at hv with hneg hnot
    simp only [Bool.and_eq_true, beq_iff_eq, bne_iff_ne] at hnot
    have h0 := reg_of_unary hop hgo hcan hnot.2
    obtain ⟨w, hw⟩ := widthOf hregs h0
    exact transparent_not g other (hnot.1 ▸ hop) h0 hw

/-- A constant count keeps its five bits under the mask of any width. -/
theorem count_and_widthMask (imm : U32) (w : Width) :
    imm &&& widthMask w &&& 0x1F#32 = imm &&& 0x1F#32 := by
  have hmask : widthMask w &&& 0x1F#32 = 0x1F#32 := by cases w <;> decide
  rw [BitVec.and_assoc, hmask]

theorem overwrites_of_verdict {i : Insn} {others : Insn → Bool} (hregs : RegSized i)
    (hcan : canEmit others i = true) (hv : verdict i = .overwrites) :
    Overwrites g other i := by
  have hgo : verdict i ≠ .stops := by rw [hv]; decide
  have harm := canEmit_arm hcan (not_branch hgo).1 (not_branch hgo).2
  unfold verdict at hv
  cases hop : i.op <;> rw [hop] at hv harm <;> dsimp only at hv harm <;> try cases hv
  case mov => split_ifs at hv
  case aluUnary op =>
    split_ifs at hv with hneg
    simp only [Bool.and_eq_true, beq_iff_eq, bne_iff_ne] at hneg
    have h0 := reg_of_unary hop hgo hcan hneg.2
    obtain ⟨w, hw⟩ := widthOf hregs h0
    exact overwrites_neg g other (hneg.1 ▸ hop) h0 hw
  case alu op =>
    split_ifs at hv with hall hshift
    · simp only [Bool.and_eq_true, bne_iff_ne] at hall
      have hmov : movIsEmittable i = true := by
        have hplain : aluShiftsOrRotates op = false ∧ (op == .adc || op == .sbb) = false := by
          cases op <;> first | exact absurd hall.1.1 (by decide) | decide
        rwa [hplain.1, hplain.2] at harm
      obtain ⟨w, h0, hw, h1⟩ := shape_of_movIsEmittable hmov hall.1.2 hall.2
      exact overwrites_alu g other hop h0 hw h1 (.inl hall.1.1)
    · simp only [Bool.and_eq_true, beq_iff_eq, bne_iff_ne] at hshift
      obtain ⟨⟨⟨hop', hk⟩, himm⟩, hcount⟩ := hshift
      have hform : shiftIsEmittable i = true := by
        have hplain : aluShiftsOrRotates op = true := by
          cases op <;> first | exact absurd hop' (by decide) | decide
        rwa [hplain] at harm
      simp only [shiftIsEmittable, Bool.and_eq_true] at hform
      have h0 := (reg_of_movOperandOk hform.1.2 hk).1
      obtain ⟨w, hw⟩ := widthOf hregs h0
      refine overwrites_alu g other hop h0 hw (.inl himm) (.inr ⟨hop', fun c => ?_⟩)
      unfold valueHere
      rw [if_pos himm, count_and_widthMask]
      exact hcount

end Verdicts

end X86Port.Jit
