import X86Port.Wasm.Branches

/-!
# Rows of the dispatch table

The integer rows of the dispatch table of `jit_wasm_lower.c`: the moves, the arithmetic, the stack
and the branches.

* `row_goes`: the code of a row beside the interpreter's instruction.
* `row_step`: the same for a state that only shows the same flags.
-/

namespace X86Port.Wasm

open Lib StackCode
open Memory (Mem Host memRead memWrite)
open Cpu (Width Operand Flags Ctx Exec Halt Insn OtherOp Alike GuestMem)
open Cpu.Exec

/-! ## The table -/

def rowAccepts (i : Insn) : Bool :=
  match i.op with
  | .nop | .cdq | .cwde | .bswap | .cld | .std => true
  | .mov => movAccepts i
  | .movzx | .movsx => movxAccepts i
  | .alu op => aluAccepts op i
  | .aluUnary _ => aluUnaryAccepts i
  | .lea => leaAccepts i
  | .xchg => xchgAccepts i
  | .setcc _ => setccAccepts i
  | .push => pushAccepts i
  | .pop => popAccepts i
  | .jmp | .call => jmpAccepts i
  | .jcc _ => isRelativeImmediate i
  | .jecxz => jecxzAccepts i
  | .ret => retAccepts i
  | _ => false

def rowTerminates (i : Insn) : Bool :=
  match i.op with
  | .jmp | .jcc _ | .jecxz | .call | .ret => true
  | _ => false

/-- The rows with a lowering that goes on behind the instruction. -/
def rowContinues (i : Insn) : Bool :=
  match i.op with
  | .jcc _ | .jecxz => true
  | _ => false

def rowLower (l : WasmLower) (i : Insn) (pc : U32) : Code × WasmLower :=
  match i.op with
  | .mov => movLower l i pc
  | .movzx => lowerMovx l i pc false
  | .movsx => lowerMovx l i pc true
  | .alu op => aluLower l op i pc
  | .aluUnary op => aluUnaryLower l op i pc
  | .lea => leaLower l i
  | .xchg => xchgLower l i pc
  | .setcc cc => setccLower l cc i pc
  | .cdq => cdqLower l
  | .cwde => cwdeLower l
  | .bswap => bswapLower l i
  | .cld => (l.state.storeDf false, l)
  | .std => (l.state.storeDf true, l)
  | .push => pushLower l i pc
  | .pop => popLower l i pc
  | .jmp => jmpLower l i pc
  | .jcc cc => jccLower l cc i pc
  | .jecxz => jecxzLower l i pc
  | .call => callLower l i pc
  | .ret => retLower l i pc
  | _ => ([], l)

def rowContinue (l : WasmLower) (i : Insn) (pc : U32) : Code × WasmLower :=
  match i.op with
  | .jcc cc => jccContinue l cc i pc
  | .jecxz => jecxzContinue l i pc
  | _ => ([], l)

/-- What the block loop emits for an instruction. -/
def rowCode (l : WasmLower) (i : Insn) (pc : U32) : Code × WasmLower :=
  if rowTerminates i && rowContinues i then rowContinue l i pc else rowLower l i pc

/-- The loop goes on behind the instruction. -/
def rowFalls (i : Insn) : Bool := !rowTerminates i || rowContinues i

/-- The instruction takes its branch: a conditional if its condition holds, every other transfer
always. -/
def Taken (i : Insn) (t : Ctx Host) : Prop :=
  match i.op with
  | .jmp | .call | .ret => True
  | .jcc cc => Cpu.cond cc t.cpu.flags = true
  | .jecxz => t.cpu.reg Cpu.ecx = 0
  | _ => False

theorem taken_of_not_falls {i : Insn} (h : rowFalls i = false) (t : Ctx Host) : Taken i t := by
  unfold rowFalls rowTerminates rowContinues at h
  unfold Taken
  cases hop : i.op <;> rw [hop] at h <;> trivial

theorem taken_alike {s t : Ctx Host} (h : Alike s t) (i : Insn) : Taken i s ↔ Taken i t := by
  obtain ⟨hflags, ht⟩ := h
  unfold Taken
  cases i.op with
  | jcc cc => exact Iff.of_eq (congrArg (· = true) (hflags.cond cc))
  | jecxz =>
    rw [ht]
    exact Iff.rfl
  | _ => exact Iff.rfl

/-- What the decoder promises of an instruction. -/
structure Decoded (i : Insn) : Prop where
  addressed0 : i.operand0.kind = .mem → Addressed i.operand0
  addressed1 : i.operand1.kind = .mem → Addressed i.operand1
  memoryFirst : i.op = .xchg → i.operand1.kind ≠ .mem
  extended : i.op = .push → i.operand0.kind = .imm → i.operand0.size = 1 →
    Cpu.signExtend i.operand0.imm 1 = i.operand0.imm
  counter : i.op = .jecxz → i.addressWidth = 32

/-- The forms that both treat alike. A POP into memory moves the stack pointer before it faults, and
the interpreter adds the base of a segment to the result of LEA. -/
structure Ordinary (i : Insn) : Prop where
  popRegister : i.op = .pop → i.operand0.kind ≠ .mem
  unsegmented : i.op = .lea → Unsegmented i.operand1

/-- The families that are elsewhere play no part. -/
theorem execute_row {μ : Type} (g : GuestMem μ) (other other' : OtherOp → Insn → Exec μ Unit)
    {i : Insn} (h : rowAccepts i = true) : execute g other i = execute g other' i := by
  unfold rowAccepts at h
  unfold execute
  cases hop : i.op with
  | other op =>
    rw [hop] at h
    cases h
  | _ => rfl

@[simp] theorem movLower_snd (l : WasmLower) (i : Insn) (pc : U32) : (movLower l i pc).2 = l := by
  unfold movLower
  dsimp only
  split_ifs <;> rfl

@[simp] theorem xchgLower_snd (l : WasmLower) (i : Insn) (pc : U32) : (xchgLower l i pc).2 = l := by
  unfold xchgLower
  dsimp only
  split_ifs <;> rfl

theorem callLower_snd {l : WasmLower} (h : l.leaf = none) (i : Insn) (pc : U32) :
    (callLower l i pc).2 = l := congrArg Prod.snd (callLower_leafless h)

/-- What no instruction changes: where the code runs, and how its CALLs find leaves. -/
structure Keeps (l l' : WasmLower) : Prop where
  state : l'.state = l.state
  leaf : l'.leaf = l.leaf

theorem keeps_of_eq {l l' : WasmLower} (h : l' = l) : Keeps l l' :=
  ⟨congrArg WasmLower.state h, congrArg WasmLower.leaf h⟩

theorem aluLower_keeps (l : WasmLower) (op : Cpu.AluOp) (i : Insn) (pc : U32) :
    Keeps l (aluLower l op i pc).2 := by
  unfold aluLower
  split_ifs
  · exact ⟨rfl, rfl⟩
  · cases inlineShape op with
    | some shape => exact ⟨rfl, rfl⟩
    | none =>
      dsimp only
      unfold lowerViaHelper
      dsimp only
      split_ifs <;> exact ⟨rfl, rfl⟩

theorem aluUnaryLower_keeps (l : WasmLower) (op : Cpu.AluUnOp) (i : Insn) (pc : U32) :
    Keeps l (aluUnaryLower l op i pc).2 := by
  unfold aluUnaryLower
  dsimp only
  split_ifs <;> exact ⟨rfl, rfl⟩

theorem leafCallLower_keeps {l : WasmLower} {target next : U32} {indirect : Bool}
    {lowered : Code × WasmLower} (h : leafCallLower l target next indirect = some lowered) :
    Keeps l lowered.2 := by
  unfold leafCallLower at h
  cases hleaf : l.leaf with
  | none =>
    rw [hleaf] at h
    cases h
  | some leaf =>
    rw [hleaf] at h
    cases indirect with
    | true =>
      obtain ⟨site, -, hsite⟩ := Option.map_eq_some_iff.mp h
      rw [← hsite]
      exact ⟨rfl, hleaf.symm⟩
    | false =>
      dsimp only at h
      rw [if_neg Bool.false_ne_true] at h
      split_ifs at h
      cases h
      exact ⟨rfl, rfl⟩

theorem callLower_keeps (l : WasmLower) (i : Insn) (pc : U32) : Keeps l (callLower l i pc).2 := by
  unfold callLower
  dsimp only
  split
  · rename_i hleaf
    have hkeeps := leafCallLower_keeps hleaf
    exact hkeeps
  · exact ⟨rfl, rfl⟩

theorem rowCode_keeps (l : WasmLower) (i : Insn) (pc : U32) : Keeps l (rowCode l i pc).2 := by
  unfold rowCode rowTerminates rowContinues rowContinue rowLower
  cases i.op with
  | alu op => exact aluLower_keeps l op i pc
  | aluUnary op => exact aluUnaryLower_keeps l op i pc
  | mov => exact keeps_of_eq (movLower_snd l i pc)
  | xchg => exact keeps_of_eq (xchgLower_snd l i pc)
  | call => exact callLower_keeps l i pc
  | _ => exact ⟨rfl, rfl⟩

theorem leaAccepts_mem {i : Insn} (h : leaAccepts i = true) : i.operand1.kind = .mem := by
  unfold leaAccepts at h
  simp only [Bool.and_eq_true, beq_iff_eq] at h
  exact h.1.2

/-! ## One instruction -/

theorem row_goes {low : WasmLower} {W : World low.state} (hflat : W.Flat)
    (hchain : low.state.Unchained) (hleaf : low.leaf = none) (others : Imports)
    (other : OtherOp → Insn → Exec Host Unit) {t : Ctx Host} {i : Insn}
    (haccepts : rowAccepts i = true) (hdecoded : Decoded i) (hordinary : Ordinary i)
    (htracks : Tracks low t.cpu.flags) {pc : U32} (hnext : t.nextEip = pc + i.length) :
    W.Goes others (rowCode low i pc).2 (Taken i t) (rowCode low i pc).1 pc
      (execute (Cpu.guestMem W.m) other i) t := by
  obtain ⟨ha0, ha1, hfirst, hextended, hcounter⟩ := hdecoded
  obtain ⟨hpop, hseg⟩ := hordinary
  unfold rowAccepts at haccepts
  unfold Taken rowCode rowTerminates rowContinues rowContinue rowLower execute
  cases hop : i.op with
  | nop =>
    change W.Goes others low False [] pc _ t
    exact (nop_follows others htracks pc).goes
  | mov =>
    rw [hop] at haccepts
    change W.Goes others (movLower low i pc).2 False (movLower low i pc).1 pc _ t
    rw [movLower_snd]
    exact (mov_follows hflat others htracks pc haccepts ha0 ha1).goes
  | movzx =>
    rw [hop] at haccepts
    change W.Goes others low False (lowerMovx low i pc false).1 pc _ t
    exact (movx_follows hflat others htracks pc haccepts ha1 false).goes
  | movsx =>
    rw [hop] at haccepts
    change W.Goes others low False (lowerMovx low i pc true).1 pc _ t
    exact (movx_follows hflat others htracks pc haccepts ha1 true).goes
  | alu op =>
    rw [hop] at haccepts
    change W.Goes others (aluLower low op i pc).2 False (aluLower low op i pc).1 pc _ t
    exact (alu_follows hflat others haccepts ha0 ha1 htracks pc).goes
  | aluUnary op =>
    rw [hop] at haccepts
    change W.Goes others (aluUnaryLower low op i pc).2 False
      (aluUnaryLower low op i pc).1 pc _ t
    exact (aluUnary_follows hflat others haccepts ha0 htracks pc).goes
  | lea =>
    rw [hop] at haccepts
    change W.Goes others low False (leaLower low i).1 pc _ t
    have hk1 := leaAccepts_mem haccepts
    exact (lea_follows others htracks pc haccepts (ha1 hk1) (hseg hop)).goes
  | xchg =>
    rw [hop] at haccepts
    change W.Goes others (xchgLower low i pc).2 False (xchgLower low i pc).1 pc _ t
    rw [xchgLower_snd]
    exact (xchg_follows hflat others htracks pc haccepts ha0 (hfirst hop)).goes
  | setcc cc =>
    rw [hop] at haccepts
    change W.Goes others low False (setccLower low cc i pc).1 pc _ t
    exact (setcc_follows hflat others htracks pc haccepts ha0 cc).goes
  | cdq =>
    change W.Goes others low False (cdqLower low).1 pc _ t
    exact (cdq_follows others htracks pc).goes
  | cwde =>
    change W.Goes others low False (cwdeLower low).1 pc _ t
    exact (cwde_follows others htracks pc).goes
  | bswap =>
    change W.Goes others low False (bswapLower low i).1 pc _ t
    exact (bswap_follows others htracks pc).goes
  | cld =>
    change W.Goes others low False (low.state.storeDf false) pc _ t
    exact (storeDf_follows others htracks pc false).goes
  | std =>
    change W.Goes others low False (low.state.storeDf true) pc _ t
    exact (storeDf_follows others htracks pc true).goes
  | push =>
    rw [hop] at haccepts
    change W.Goes others low False (pushLower low i pc).1 pc _ t
    exact (push_follows hflat others htracks pc haccepts ha0 (hextended hop)).goes
  | pop =>
    rw [hop] at haccepts
    change W.Goes others low False (popLower low i pc).1 pc _ t
    exact (pop_follows hflat others htracks pc haccepts (hpop hop)).goes
  | jmp =>
    rw [hop] at haccepts
    change W.Goes others low True (jmpLower low i pc).1 pc _ t
    exact jmp_goes hflat hchain others haccepts hnext ha0
  | call =>
    rw [hop] at haccepts
    change W.Goes others (callLower low i pc).2 True (callLower low i pc).1 pc _ t
    rw [callLower_snd hleaf]
    exact call_goes hflat hchain others hleaf haccepts hnext ha0
  | ret =>
    rw [hop] at haccepts
    change W.Goes others low True (retLower low i pc).1 pc _ t
    exact ret_goes hflat hchain others haccepts
  | jcc cc =>
    rw [hop] at haccepts
    change W.Goes others low (Cpu.cond cc t.cpu.flags = true) (jccContinue low cc i pc).1 pc _ t
    exact jcc_goes hchain others htracks haccepts hnext cc
  | jecxz =>
    rw [hop] at haccepts
    change W.Goes others low (t.cpu.reg Cpu.ecx = 0) (jecxzContinue low i pc).1 pc _ t
    exact jecxz_goes hchain others htracks
      (Bool.and_eq_true_iff.mp haccepts).1 hnext (hcounter hop)
  | _ =>
    rw [hop] at haccepts
    cases haccepts

theorem alike_trans {s t u : Ctx Host} (h : Alike s t) (h' : Alike t u) : Alike s u := by
  refine ⟨h.1.trans h'.1, ?_⟩
  rw [h'.2, h.2]
  rfl

/-- What the code of an instruction does beside the interpreter, from a state that shows the same
flags. -/
structure RowStep {st : WasmState} (W : World st) (others : Imports)
    (other : OtherOp → Insn → Exec Host Unit) (low : WasmLower) (i : Insn) (pc : U32)
    (s t : Ctx Host) : Prop where
  ok : ∀ u, executeDecoded (Cpu.guestMem W.m) other i t = .ok () u → ∃ v, Alike v u ∧
    ((¬ Taken i t ∧ Tracks (rowCode low i pc).2 v.cpu.flags ∧
        W.Reaches others (rowCode low i pc).1 s v ∧ u.cpu.eip = pc + i.length) ∨
      Taken i t ∧ W.Ends others (rowCode low i pc).1 s v .blockEnd u.cpu.eip)
  refused : ∀ h u, executeDecoded (Cpu.guestMem W.m) other i t = .error h u →
    (∃ addr, h = .fault .memoryFault addr) ∧ W.Leaves others (rowCode low i pc).1 s pc

theorem row_step {st : WasmState} {W : World st} (hflat : W.Flat) (hchain : st.Unchained)
    (others : Imports) (other : OtherOp → Insn → Exec Host Unit) {low : WasmLower}
    (hlow : low.state = st) (hleaf : low.leaf = none) {s t : Ctx Host} (halike : Alike s t)
    (htracks : Tracks low s.cpu.flags) {i : Insn} (haccepts : rowAccepts i = true)
    (hdecoded : Decoded i) (hordinary : Ordinary i) {pc : U32} (heip : t.cpu.eip = pc) :
    RowStep W others other low i pc s t := by
  subst hlow heip
  let g := Cpu.guestMem W.m
  let s' : Ctx Host := { s with nextEip := t.cpu.eip + i.length }
  let t' : Ctx Host := { t with nextEip := t.cpu.eip + i.length }
  have halike' : Alike s' t' :=
    ⟨halike.1, congrArg (fun c : Ctx Host => { c with nextEip := t.cpu.eip + i.length }) halike.2⟩
  have hcoupled := Cpu.Exec.coupled_execute g (fun _ _ => unsupported)
    (fun _ _ => coupled_unsupported) i s' t' halike'
  rw [execute_row g _ other haccepts] at hcoupled
  have htaken : Taken i s' ↔ Taken i t := taken_alike halike i
  have hgoes := row_goes hflat hchain hleaf others other haccepts hdecoded hordinary
    (show Tracks low s'.cpu.flags from htracks) (show s'.nextEip = t.cpu.eip + i.length from rfl)
  refine ⟨fun u hu => ?_, fun h u hu => ?_⟩
  · obtain ⟨u₀, hu₀, hstep⟩ | ⟨e, u₀, hu₀, hstep⟩ := executeDecoded_cases g other i t
    · have hu' := hstep.symm.trans hu
      cases hu'
      cases hv₀ : execute g other i s' with
      | error e v₀ =>
        rw [hv₀, hu₀] at hcoupled
        exact hcoupled.elim
      | ok a v₀ =>
        rw [hv₀, hu₀] at hcoupled
        have hnext : u₀.nextEip = v₀.nextEip := by
          rw [hcoupled.2.2]
          rfl
        obtain ⟨hnot, ⟨v, hv, hvtracks, hreaches⟩, hv₀next⟩ | ⟨hbranch, v, hv, hends⟩ :=
          hgoes.ok v₀ hv₀
        · have hfinal := alike_trans hv hcoupled.2
          refine ⟨{ v with cpu := { v.cpu with eip := v.nextEip } }, ⟨hfinal.1, ?_⟩,
            .inl ⟨fun h => hnot (htaken.mpr h), hvtracks, hreaches, ?_⟩⟩
          · dsimp only
            rw [hfinal.2]
            rfl
          · change u₀.nextEip = _
            rw [hnext, hv₀next]
        · have hfinal := alike_trans hv hcoupled.2
          refine ⟨{ v with cpu := { v.cpu with eip := v.nextEip } }, ⟨hfinal.1, ?_⟩,
            .inr ⟨htaken.mp hbranch, ?_⟩⟩
          · dsimp only
            rw [hfinal.2]
            rfl
          · change W.Ends others _ s _ .blockEnd u₀.nextEip
            rw [hnext]
            exact hends
    · have hu' := hstep.symm.trans hu
      cases hu'
  · obtain ⟨u₀, hu₀, hstep⟩ | ⟨e, u₀, hu₀, hstep⟩ := executeDecoded_cases g other i t
    · have hu' := hstep.symm.trans hu
      cases hu'
    · have hu' := hstep.symm.trans hu
      cases hu'
      cases hv₀ : execute g other i s' with
      | ok a v₀ =>
        rw [hv₀, hu₀] at hcoupled
        exact hcoupled.elim
      | error e v₀ =>
        rw [hv₀, hu₀] at hcoupled
        obtain ⟨⟨addr, haddr⟩, hleaves⟩ := hgoes.refused e v₀ hv₀
        exact ⟨⟨addr, hcoupled.1.symm.trans haddr⟩, hleaves⟩

end X86Port.Wasm
