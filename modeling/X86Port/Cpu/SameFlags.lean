import X86Port.Cpu.Exec
import X86Port.Lib.Coupled

/-!
# What of the lazy flags can be seen

Two recorded tuples with one EFLAGS word and one carry are the same flags to the interpreter.

* `alu_sameFlags`: an operation writes one tuple from either, or none.
* `coupled_execute`: an instruction started from states that differ in nothing else ends in
  such states, or stops in such states for the same reason.
-/

namespace X86Port.Cpu

open Lib

/-- The six flags, and the carry that a later INC or DEC preserves. -/
structure SameFlags (f g : Flags) : Prop where
  word : eflags f = eflags g
  carry : flagCf f = flagCf g

namespace SameFlags

variable {f g : Flags}

theorem refl (f : Flags) : SameFlags f f := ⟨rfl, rfl⟩

theorem symm (h : SameFlags f g) : SameFlags g f := ⟨h.word.symm, h.carry.symm⟩

theorem trans {k : Flags} (h : SameFlags f g) (h' : SameFlags g k) : SameFlags f k :=
  ⟨h.word.trans h'.word, h.carry.trans h'.carry⟩

theorem cond (h : SameFlags f g) (cc : Cond) : Cpu.cond cc f = Cpu.cond cc g := by
  rw [cond_eq, cond_eq, h.word]

theorem zf (h : SameFlags f g) : flagZf f = flagZf g := by
  rw [← eflags_zf f, ← eflags_zf g, h.word]

theorem flagsSet (h : SameFlags f g) (kind : FlagKind) (a b r : U32) (w : Width) :
    Cpu.flagsSet f kind a b r w = Cpu.flagsSet g kind a b r w := by
  unfold Cpu.flagsSet
  rw [h.carry]

theorem setCfOfOnly (h : SameFlags f g) (cf of : Bool) :
    Cpu.setCfOfOnly f cf of = Cpu.setCfOfOnly g cf of := by
  unfold Cpu.setCfOfOnly
  rw [h.word]

theorem carryWord (h : SameFlags f g) : Cpu.carryWord f = Cpu.carryWord g := by
  unfold Cpu.carryWord
  rw [h.carry]

end SameFlags

/-- The kinds that never read the carry recorded with them. -/
theorem sameFlags_carryIn {f : Flags} (h : f.kind ≠ .inc ∧ f.kind ≠ .dec) (c : U8) :
    SameFlags { f with carryIn := c } f := by
  obtain ⟨a, b, r, kind, w, carryIn⟩ := f
  cases kind <;> first | exact ⟨rfl, rfl⟩ | simp at h

/-! ## Operations -/

/-- The same answer, and flags that are the same. -/
def SameAnswer {α : Type} : Option (α × Flags) → Option (α × Flags) → Prop :=
  Option.Rel fun p q => p.1 = q.1 ∧ SameFlags p.2 q.2

theorem sameAnswer_of_eq {α : Type} {x y : Option (α × Flags)} (h : x = y) : SameAnswer x y := by
  subst h
  cases x with
  | none => exact .none
  | some p => exact .some ⟨rfl, .refl _⟩

theorem sameAnswer_keep {α : Type} {f g : Flags} (h : SameFlags f g) (a : α) :
    SameAnswer (some (a, f)) (some (a, g)) := .some ⟨rfl, h⟩

theorem alu_sameFlags {f g : Flags} (h : SameFlags f g) (op : AluOp) (a b : U32) (w : Width) :
    SameAnswer (alu op a b w f) (alu op a b w g) := by
  -- a count of zero keeps the flags; everything else writes them from what they show
  cases op <;> simp only [alu, h.flagsSet, h.setCfOfOnly, h.carryWord]
  case shl | shr | sar | rol | ror | rcl | rcr =>
    split_ifs
    all_goals first | exact sameAnswer_keep h _ | exact sameAnswer_of_eq rfl
  all_goals exact sameAnswer_of_eq rfl

theorem aluUnary_sameFlags {f g : Flags} (h : SameFlags f g) (op : AluUnOp) (a : U32) (w : Width) :
    SameAnswer (aluUnary op a w f) (aluUnary op a w g) := by
  cases op <;> simp only [aluUnary, h.flagsSet]
  case not => exact sameAnswer_keep h _
  all_goals exact sameAnswer_of_eq rfl

theorem aluMul_sameFlags {f g : Flags} (h : SameFlags f g) (a b : U32) (w : Width) :
    aluMul a b w f = aluMul a b w g := by
  simp only [aluMul, h.setCfOfOnly]

theorem aluImul_sameFlags {f g : Flags} (h : SameFlags f g) (a b : U32) (w : Width) :
    aluImul a b w f = aluImul a b w g := by
  simp only [aluImul, h.setCfOfOnly]

theorem aluFst_sameFlags {f g : Flags} (h : SameFlags f g) (op : AluOp) (a b : U32) (w : Width) :
    (alu op a b w f).map Prod.fst = (alu op a b w g).map Prod.fst := by
  have hsame := alu_sameFlags h op a b w
  revert hsame
  cases alu op a b w f <;> cases alu op a b w g <;> intro hsame <;> cases hsame
  · rfl
  case some.some.some hp => rw [Option.map_some, Option.map_some, hp.1]

/-! ## Operations that record what they did -/

/-- The operation on the operands and the kind recorded, for the operations that derive every flag
from their operands and result. -/
def aluShape : AluOp → Option ((U32 → U32 → U32) × FlagKind)
  | .add => some ((· + ·), .add)
  | .sub | .cmp => some ((· - ·), .sub)
  | .or => some ((· ||| ·), .logic)
  | .and | .test => some ((· &&& ·), .logic)
  | .xor => some ((· ^^^ ·), .logic)
  | _ => none

theorem alu_of_shape {op : AluOp} {combine : U32 → U32 → U32} {kind : FlagKind}
    (h : aluShape op = some (combine, kind)) (a b : U32) (w : Width) (f : Flags) :
    alu op a b w f = some (combine (a &&& widthMask w) (b &&& widthMask w) &&& widthMask w,
      ⟨a &&& widthMask w, b &&& widthMask w,
        combine (a &&& widthMask w) (b &&& widthMask w) &&& widthMask w, kind, w,
        if flagCf f then 1 else 0⟩) := by
  cases op <;> cases h <;> rfl

theorem aluShape_kind {op : AluOp} {combine : U32 → U32 → U32} {kind : FlagKind}
    (h : aluShape op = some (combine, kind)) : kind ≠ .inc ∧ kind ≠ .dec := by
  cases op <;> cases h <;> decide

/-- The kind of a shift by a count other than zero. -/
def shiftKind : AluOp → Option FlagKind
  | .shl => some .shl
  | .shr => some .shr
  | .sar => some .sar
  | _ => none

theorem alu_of_shiftKind {op : AluOp} {kind : FlagKind} (h : shiftKind op = some kind) (a : U32)
    {b : U32} {w : Width} (hb : b &&& widthMask w &&& 0x1F#32 ≠ 0) :
    ∃ r, ∀ f, alu op a b w f = some (r, ⟨a &&& widthMask w, b &&& widthMask w &&& 0x1F#32, r, kind, w,
      if flagCf f then 1 else 0⟩) := by
  refine ⟨(alu op a b w ⟨0, 0, 0, .none, .dword, 0⟩).elim 0 Prod.fst, fun f => ?_⟩
  cases op <;> cases h
  all_goals
    simp only [alu, flagsSet, if_neg hb, FlagKind.isShift, true_and]
    rfl

theorem shiftKind_kind {op : AluOp} {kind : FlagKind} (h : shiftKind op = some kind) :
    kind ≠ .inc ∧ kind ≠ .dec := by
  cases op <;> cases h <;> decide

/-! ## Steps of the interpreter -/

variable {μ α : Type}

/-- The same state but for the flags, which are related by `ρ`. -/
def Differ (ρ : Flags → Flags → Prop) (s t : Ctx μ) : Prop :=
  ρ s.cpu.flags t.cpu.flags ∧ t = s.withFlags t.cpu.flags

/-- States that differ at most in how they record the same flags. -/
abbrev Alike : Ctx μ → Ctx μ → Prop := Differ SameFlags

theorem Alike.refl (s : Ctx μ) : Alike s s := ⟨.refl _, rfl⟩

theorem SameFlags.alike {f g : Flags} (h : SameFlags f g) (s : Ctx μ) :
    Alike (s.withFlags f) (s.withFlags g) := ⟨h, rfl⟩

namespace Exec

variable {ρ : Flags → Flags → Prop}

theorem coupled_fault (status : StepStatus) (addr : U32) :
    Coupled (Differ ρ) (Differ ρ) (Differ ρ) (fault status addr : Exec μ α) (fault status addr) :=
  .throw _

theorem coupled_unsupported :
    Coupled (Differ ρ) (Differ ρ) (Differ ρ) (unsupported : Exec μ α) unsupported := .throw _

theorem coupled_orFatal (o : Option α) :
    Coupled (Differ ρ) (Differ ρ) (Differ ρ) (orFatal o : Exec μ α) (orFatal o) := by
  cases o with
  | none => exact .throw _
  | some a => exact .pure a

/-- A question that does not read the flags. -/
theorem coupled_ask {q : Ctx μ → α} (hq : ∀ s f, q (s.withFlags f) = q s) :
    Coupled (Differ ρ) (Differ ρ) (Differ ρ) (ask q) (ask q) := by
  rintro s t ⟨hf, ht⟩
  exact ⟨by rw [ht, hq], hf, ht⟩

/-- A question whose answer is one for the same flags. -/
theorem coupled_askFlags (q : Flags → α) (hq : ∀ f g, SameFlags f g → q f = q g) :
    Coupled Alike Alike Alike (askFlags q : Exec μ α) (askFlags q) :=
  fun _ _ h => ⟨hq _ _ h.1, h⟩

/-- A change that neither reads nor writes the flags. -/
theorem coupled_change {c : Ctx μ → Ctx μ} (hc : ∀ s f, c (s.withFlags f) = (c s).withFlags f)
    (hflags : ∀ s, (c s).cpu.flags = s.cpu.flags) :
    Coupled (Differ ρ) (Differ ρ) (Differ ρ) (change c : Exec μ Unit) (change c) := by
  rintro s t ⟨hf, ht⟩
  refine ⟨rfl, ?_, ?_⟩
  · rw [hflags, hflags]
    exact hf
  · rw [hflags, ← hc, ← ht]

theorem coupled_onFlags {h : Flags → Option (α × Flags)}
    (hh : ∀ f g, SameFlags f g → SameAnswer (h f) (h g)) :
    Coupled Alike Alike Alike (onFlags h : Exec μ α) (onFlags h) := by
  rintro s t ⟨hf, ht⟩
  have hsame := hh _ _ hf
  unfold onFlags
  revert hsame
  cases h s.cpu.flags with
  | none =>
    cases h t.cpu.flags with
    | none => exact fun _ => ⟨rfl, hf, ht⟩
    | some q => intro hsame; cases hsame
  | some p =>
    cases h t.cpu.flags with
    | none => intro hsame; cases hsame
    | some q =>
      rintro ⟨hval, hflags⟩
      exact ⟨hval, hflags, by rw [ht]; rfl⟩

theorem coupled_setExplicit (e : U32) :
    Coupled Alike Alike Alike (setExplicit e : Exec μ Unit) (setExplicit e) :=
  coupled_onFlags fun _ _ _ => sameAnswer_of_eq rfl

theorem coupled_setNextEip (eip : U32) :
    Coupled (Differ ρ) (Differ ρ) (Differ ρ) (setNextEip eip : Exec μ Unit) (setNextEip eip) :=
  coupled_change (fun _ _ => rfl) fun _ => rfl

theorem coupled_setDf (df : Bool) :
    Coupled (Differ ρ) (Differ ρ) (Differ ρ) (setDf df : Exec μ Unit) (setDf df) :=
  coupled_change (fun _ _ => rfl) fun _ => rfl

/-! ## Registers, memory and operands -/

theorem regRead_flags (c : CpuState) (f : Flags) (index : Reg) (w : Width) :
    regRead { c with flags := f } index w = regRead c index w := by
  cases w <;> rfl

theorem regWrite_flags (c : CpuState) (f : Flags) (index : Reg) (w : Width) (v : U32) :
    regWrite { c with flags := f } index w v = { regWrite c index w v with flags := f } := by
  cases w <;> rfl

theorem regWrite_same_flags (c : CpuState) (index : Reg) (w : Width) (v : U32) :
    (regWrite c index w v).flags = c.flags := by
  cases w <;> rfl

theorem coupled_readReg (index : Reg) (size : Nat) :
    Coupled (Differ ρ) (Differ ρ) (Differ ρ) (readReg index size : Exec μ U32)
      (readReg index size) :=
  (coupled_orFatal _).bind fun w => coupled_ask fun s f => regRead_flags s.cpu.toCpuState f index w

theorem coupled_writeReg (index : Reg) (size : Nat) (v : U32) :
    Coupled (Differ ρ) (Differ ρ) (Differ ρ) (writeReg index size v : Exec μ Unit)
      (writeReg index size v) := by
  refine (coupled_orFatal _).bind fun w => coupled_change (fun s f => ?_) fun s => ?_
  · exact congrArg s.withRegs (regWrite_flags s.cpu.toCpuState f index w v)
  · exact regWrite_same_flags s.cpu.toCpuState index w v

section Memory

variable (g : GuestMem μ)

theorem coupled_readMem (addr : U32) (size : Nat) :
    Coupled (Differ ρ) (Differ ρ) (Differ ρ) (readMem g addr size) (readMem g addr size) := by
  rintro s t ⟨hf, ht⟩
  have hmem : t.mem = s.mem := by rw [ht]; rfl
  unfold readMem
  rw [hmem]
  cases g.read s.mem addr size with
  | none => exact ⟨rfl, hf, ht⟩
  | some v => exact ⟨rfl, hf, ht⟩

theorem coupled_writeMem (addr : U32) (size : Nat) (v : U32) :
    Coupled (Differ ρ) (Differ ρ) (Differ ρ) (writeMem g addr size v)
      (writeMem g addr size v) := by
  rintro s t ⟨hf, ht⟩
  have hmem : t.mem = s.mem := by rw [ht]; rfl
  unfold writeMem
  rw [hmem]
  cases g.write s.mem addr size v with
  | none => exact ⟨rfl, hf, ht⟩
  | some m => exact ⟨rfl, hf, by rw [ht]; rfl⟩

theorem coupled_push32 (v : U32) :
    Coupled (Differ ρ) (Differ ρ) (Differ ρ) (push32 g v) (push32 g v) :=
  (coupled_ask fun _ _ => rfl).bind fun top =>
    (coupled_writeMem g top 4 v).bind fun _ => coupled_writeReg _ _ _

theorem coupled_pop32 : Coupled (Differ ρ) (Differ ρ) (Differ ρ) (pop32 g) (pop32 g) :=
  (coupled_ask fun _ _ => rfl).bind fun top =>
    (coupled_readMem g top 4).bind fun _ => (coupled_writeReg _ _ _).bind fun _ => .pure _

theorem effectiveAddress_flags (s : Ctx μ) (f : Flags) (o : Operand) :
    effectiveAddress (s.withFlags f).cpu o = effectiveAddress s.cpu o := by
  unfold effectiveAddress
  cases o.index with
  | none => rfl
  | some index =>
    dsimp only
    rw [show (s.withFlags f).cpu.toCpuState = { s.cpu.toCpuState with flags := f } from rfl,
      regRead_flags]
    rfl

theorem coupled_readOperand (o : Operand) :
    Coupled (Differ ρ) (Differ ρ) (Differ ρ) (readOperand g o) (readOperand g o) := by
  unfold readOperand
  cases o.kind with
  | reg => exact coupled_readReg _ _
  | seg => exact coupled_ask fun _ _ => rfl
  | imm => exact .pure _
  | mem =>
    exact (coupled_ask fun s f => effectiveAddress_flags s f o).bind fun _ => coupled_readMem g _ _
  | _ => exact coupled_unsupported

theorem coupled_writeOperand (o : Operand) (v : U32) :
    Coupled (Differ ρ) (Differ ρ) (Differ ρ) (writeOperand g o v) (writeOperand g o v) := by
  unfold writeOperand
  cases o.kind with
  | reg => exact coupled_writeReg _ _ _
  | seg => exact coupled_change (fun _ _ => rfl) fun _ => rfl
  | mem =>
    exact (coupled_ask fun s f => effectiveAddress_flags s f o).bind fun _ =>
      coupled_writeMem g _ _ _
  | _ => exact coupled_unsupported

theorem coupled_branchTarget (o : Operand) :
    Coupled (Differ ρ) (Differ ρ) (Differ ρ) (branchTarget g o) (branchTarget g o) :=
  .ite (coupled_ask fun _ _ => rfl) (coupled_readOperand g o)

end Memory

/-! ## Instructions -/

section Instructions

variable (g : GuestMem μ)

theorem coupled_executeAlu (op : AluOp) (i : Insn) :
    Coupled Alike Alike Alike (executeAlu g op i) (executeAlu g op i) :=
  (coupled_readOperand g _).bind fun a => (coupled_readOperand g _).bind fun b =>
    (coupled_orFatal _).bind fun w =>
      (coupled_onFlags fun _ _ h => alu_sameFlags h op a b w).bind fun _ =>
        .ite (.pure _) (coupled_writeOperand g _ _)

theorem coupled_executeAluUnary (op : AluUnOp) (i : Insn) :
    Coupled Alike Alike Alike (executeAluUnary g op i) (executeAluUnary g op i) :=
  (coupled_readOperand g _).bind fun a => (coupled_orFatal _).bind fun w =>
    (coupled_onFlags fun _ _ h => aluUnary_sameFlags h op a w).bind fun _ =>
      coupled_writeOperand g _ _

theorem coupled_executeXadd (i : Insn) :
    Coupled Alike Alike Alike (executeXadd g i) (executeXadd g i) :=
  (coupled_readOperand g _).bind fun old => (coupled_readOperand g _).bind fun b =>
    (coupled_orFatal _).bind fun w =>
      (coupled_askFlags _ fun _ _ h => aluFst_sameFlags h .add old b w).bind fun sum =>
        (coupled_orFatal sum).bind fun _ =>
          (Coupled.ite (coupled_writeOperand g _ _) (coupled_writeOperand g _ _)).bind fun _ =>
            (Coupled.ite (coupled_writeOperand g _ _) (coupled_writeOperand g _ _)).bind fun _ =>
              (coupled_onFlags fun _ _ h => alu_sameFlags h .add old b w).bind fun _ => .pure _

theorem coupled_executeCmpxchg (i : Insn) :
    Coupled Alike Alike Alike (executeCmpxchg g i) (executeCmpxchg g i) :=
  (coupled_readReg _ _).bind fun acc => (coupled_readOperand g _).bind fun old =>
    (coupled_readOperand g _).bind fun _ => (coupled_orFatal _).bind fun w =>
      (coupled_writeOperand g _ _).bind fun _ =>
        (Coupled.ite (.pure _) (coupled_writeReg _ _ _)).bind fun _ =>
          (coupled_onFlags fun _ _ h => alu_sameFlags h .cmp acc old w).bind fun _ => .pure _

theorem coupled_mulResultStore (w : Nat) (lo hi : U32) :
    Coupled Alike Alike Alike (mulResultStore w lo hi : Exec μ Unit) (mulResultStore w lo hi) :=
  .ite (coupled_writeReg _ _ _) ((coupled_writeReg _ _ _).bind fun _ => coupled_writeReg _ _ _)

theorem coupled_executeMul (imul : Bool) (i : Insn) :
    Coupled Alike Alike Alike (executeMul g imul i) (executeMul g imul i) := by
  refine .ite ?_ (.ite ?_ coupled_unsupported)
  · refine (coupled_readReg _ _).bind fun a => (coupled_readOperand g _).bind fun b =>
      (coupled_orFatal _).bind fun w =>
        (coupled_onFlags fun f k h => sameAnswer_of_eq ?_).bind fun _ => coupled_mulResultStore _ _ _
    rw [aluMul_sameFlags h, aluImul_sameFlags h]
  · refine (coupled_readOperand g _).bind fun a => (coupled_readOperand g _).bind fun b =>
      (coupled_orFatal _).bind fun w =>
        (coupled_onFlags fun f k h => sameAnswer_of_eq ?_).bind fun _ => coupled_writeOperand g _ _
    rw [aluImul_sameFlags h]

theorem coupled_executeDiv (idiv : Bool) (i : Insn) :
    Coupled Alike Alike Alike (executeDiv g idiv i) (executeDiv g idiv i) := by
  have hpair : Coupled Alike Alike Alike (divOperands i.operand0.size : Exec μ (U32 × U32))
      (divOperands i.operand0.size) :=
    .ite ((coupled_readReg _ _).bind fun _ => .pure _)
      ((coupled_readReg _ _).bind fun _ => (coupled_readReg _ _).bind fun _ => .pure _)
  refine hpair.bind fun p => (coupled_readOperand g _).bind fun d =>
    (coupled_orFatal _).bind fun w => ?_
  cases if idiv then aluIdiv p.1 p.2 d w else aluDiv p.1 p.2 d w with
  | none => exact coupled_fault _ _
  | some q => exact coupled_mulResultStore _ _ _

theorem coupled_executeBit (op : BitOp) (i : Insn) :
    Coupled Alike Alike Alike (executeBit g op i) (executeBit g op i) :=
  (coupled_askFlags eflags fun _ _ h => h.word).bind fun _ =>
    (coupled_readOperand g _).bind fun _ => (coupled_readOperand g _).bind fun _ =>
      (Coupled.ite (.pure _) (coupled_writeOperand g _ _)).bind fun _ => coupled_setExplicit _

theorem coupled_executeDoubleShift (left : Bool) (i : Insn) :
    Coupled Alike Alike Alike (executeDoubleShift g left i) (executeDoubleShift g left i) := by
  refine (coupled_askFlags eflags fun _ _ h => h.word).bind fun f =>
    (coupled_readOperand g _).bind fun dst => (coupled_readOperand g _).bind fun src =>
      (coupled_readOperand g _).bind fun count => (coupled_orFatal _).bind fun w => ?_
  rcases doubleShift left dst src count w f with ⟨_ | _, _ | ⟨r, f'⟩⟩
  · exact coupled_unsupported
  · exact (coupled_writeOperand g _ _).bind fun _ => coupled_setExplicit _
  · exact .pure _
  · exact (coupled_writeOperand g _ _).bind fun _ => coupled_setExplicit _

theorem coupled_cpuLoop (width : Nat) (zf : Option Bool) :
    Coupled Alike Alike Alike (cpuLoop width zf : Exec μ Bool) (cpuLoop width zf) :=
  (coupled_ask fun _ _ => rfl).bind fun _ => (coupled_writeReg _ _ _).bind fun _ =>
    (coupled_askFlags flagZf fun _ _ h => h.zf).bind fun _ => .pure _

theorem coupled_executeLoop (zf : Option Bool) (i : Insn) :
    Coupled Alike Alike Alike (executeLoop g zf i) (executeLoop g zf i) :=
  (coupled_cpuLoop _ _).bind fun _ =>
    .ite ((coupled_branchTarget g _).bind fun _ => coupled_setNextEip _) (.pure _)

theorem coupled_executeRet (i : Insn) :
    Coupled Alike Alike Alike (executeRet g i) (executeRet g i) :=
  (coupled_pop32 g).bind fun _ =>
    (Coupled.ite ((coupled_ask fun _ _ => rfl).bind fun _ => coupled_writeReg _ _ _)
      (.pure _)).bind fun _ => coupled_setNextEip _

theorem coupled_executeLeave : Coupled Alike Alike Alike (executeLeave g) (executeLeave g) :=
  (coupled_ask fun _ _ => rfl).bind fun _ => (coupled_writeReg _ _ _).bind fun _ =>
    (coupled_pop32 g).bind fun _ => coupled_writeReg _ _ _

variable (other : OtherOp → Insn → Exec μ Unit)

/-- The families kept outside reach the flags only through what they show. -/
def OthersAlike : Prop := ∀ op i, Coupled Alike Alike Alike (other op i) (other op i)

theorem coupled_execute (hother : OthersAlike other) (i : Insn) :
    Coupled Alike Alike Alike (execute g other i) (execute g other i) := by
  unfold execute
  cases i.op with
  | unsupported => exact coupled_unsupported
  | nop => exact .pure _
  | alu op => exact coupled_executeAlu g op i
  | aluUnary op => exact coupled_executeAluUnary g op i
  | mov | movzx | movsx =>
    exact (coupled_readOperand g _).bind fun _ => coupled_writeOperand g _ _
  | lea =>
    exact .ite ((coupled_ask fun s f => effectiveAddress_flags s f _).bind fun _ =>
      coupled_writeOperand g _ _) coupled_unsupported
  | push => exact (coupled_readOperand g _).bind fun _ => coupled_push32 g _
  | pop => exact (coupled_pop32 g).bind fun _ => coupled_writeOperand g _ _
  | xchg =>
    exact (coupled_readOperand g _).bind fun _ => (coupled_readOperand g _).bind fun _ =>
      (coupled_writeOperand g _ _).bind fun _ => coupled_writeOperand g _ _
  | xadd => exact coupled_executeXadd g i
  | cmpxchg => exact coupled_executeCmpxchg g i
  | jmp => exact (coupled_branchTarget g _).bind fun _ => coupled_setNextEip _
  | jcc cc =>
    exact (coupled_branchTarget g _).bind fun _ =>
      (coupled_askFlags (cond cc) fun _ _ h => h.cond cc).bind fun _ =>
        .ite (coupled_setNextEip _) (.pure _)
  | setcc cc =>
    exact (coupled_askFlags (cond cc) fun _ _ h => h.cond cc).bind fun _ => coupled_writeOperand g _ _
  | cmovcc cc =>
    exact (coupled_readOperand g _).bind fun _ =>
      (coupled_askFlags (cond cc) fun _ _ h => h.cond cc).bind fun _ =>
        .ite (coupled_writeOperand g _ _) (.pure _)
  | call =>
    exact (coupled_branchTarget g _).bind fun _ => (coupled_ask fun _ _ => rfl).bind fun _ =>
      (coupled_push32 g _).bind fun _ => coupled_setNextEip _
  | ret => exact coupled_executeRet g i
  | leave => exact coupled_executeLeave g
  | cdq | cwde | bswap => exact (coupled_readReg _ _).bind fun _ => coupled_writeReg _ _ _
  | mul => exact coupled_executeMul g false i
  | imul => exact coupled_executeMul g true i
  | div => exact coupled_executeDiv g false i
  | idiv => exact coupled_executeDiv g true i
  | cld | std => exact coupled_setDf _
  | pushfd =>
    exact (coupled_askFlags eflags fun _ _ h => h.word).bind fun _ =>
      (coupled_ask fun _ _ => rfl).bind fun _ => coupled_push32 g _
  | popfd =>
    exact (coupled_pop32 g).bind fun _ => (coupled_setExplicit _).bind fun _ => coupled_setDf _
  | bit op => exact coupled_executeBit g op i
  | shld => exact coupled_executeDoubleShift g true i
  | shrd => exact coupled_executeDoubleShift g false i
  | sahf =>
    exact (coupled_readReg _ _).bind fun _ =>
      (coupled_askFlags _ fun _ _ h => by rw [h.word]).bind fun _ => coupled_setExplicit _
  | lahf =>
    exact (coupled_askFlags eflags fun _ _ h => h.word).bind fun _ =>
      (coupled_readReg _ _).bind fun _ => coupled_writeReg _ _ _
  | stc | clc | cmc =>
    exact (coupled_askFlags eflags fun _ _ h => h.word).bind fun _ => coupled_setExplicit _
  | salc =>
    exact (coupled_askFlags flagCf fun _ _ h => h.carry).bind fun _ => coupled_writeReg _ _ _
  | loop => exact coupled_executeLoop g none i
  | loope => exact coupled_executeLoop g (some true) i
  | loopne => exact coupled_executeLoop g (some false) i
  | jecxz =>
    exact (coupled_ask fun _ _ => rfl).bind fun _ =>
      .ite ((coupled_branchTarget g _).bind fun _ => coupled_setNextEip _) (.pure _)
  | other op => exact hother op i

theorem coupled_executeDecoded (hother : OthersAlike other) (i : Insn) :
    Coupled Alike Alike Alike (executeDecoded g other i) (executeDecoded g other i) :=
  (coupled_ask fun _ _ => rfl).bind fun _ => (coupled_setNextEip _).bind fun _ =>
    (coupled_execute g other hother i).bind fun _ => coupled_change (fun _ _ => rfl) fun _ => rfl

end Instructions

end Exec

end X86Port.Cpu
