import X86Port.Wasm.Alu

/-!
# Refused accesses of translated code

Code beside an instruction that may fault: the guard comes before anything the instruction does,
so that a refused access leaves the guest as it was.

* `leaves_guard`: a refused guard.
* `alu_follows`, `aluUnary_follows`: an instruction that completes and one that faults.
-/

namespace X86Port.Wasm

open Lib StackCode
open Memory (Mem Host AccessMask memRead memWrite)
open Cpu (Width Operand Flags Ctx Exec Halt Insn AluOp AluUnOp Granted alu aluUnary
  effectiveAddress)
open Cpu.Exec
open Jit (JitExit)

/-! ## Code beside an instruction -/

namespace World

variable {st : WasmState} (W : World st) (others : Imports)

/-- The mapping ends inside the address space, and no access touches a third page. -/
structure Flat : Prop where
  fits : W.m.lo.toNat + W.m.size.toNat ≤ 2 ^ 32
  pages : ∀ t ∈ W.m.perms, 2 ≤ t.pageShift

/-- Beside one state of the interpreter the code leaves the body at another. -/
def Ends (code : Code) (t v : Ctx Host) (exit : JitExit) (eip : U32) : Prop :=
  ∀ (e : U32) (l : WasmLocal → U32), l .cpu = W.home.addr → ∀ rest,
    run (wasmEnv (withHelpers others)) (code ++ rest) ⟨W.at_ t e, l, []⟩ =
      .ret (exitCode exit) (W.at_ v eip)

/-- The code leaves for the interpreter's fault at that instruction, from the state it found. -/
def Leaves (code : Code) (t : Ctx Host) (pc : U32) : Prop :=
  W.Ends others code t t .memoryFault pc

/-- The code does what the instruction does, and leaves where the instruction faults. -/
structure Follows (low : WasmLower) (code : Code) (pc : U32) (x : Exec Host Unit)
    (t : Ctx Host) : Prop where
  ok : ∀ u, x t = .ok () u → W.Does others low code t u ∧ u.nextEip = t.nextEip
  refused : ∀ h u, x t = .error h u →
    (∃ addr, h = .fault .memoryFault addr) ∧ W.Leaves others code t pc

variable {W others} {t : Ctx Host} {o : Operand} {w : Width} {access pc : U32} {code : Code}

/-! ## Guards -/

theorem Flat.refused (h : W.Flat) (haccess : access = memRead ∨ access = memWrite ∨
    access = memRead ||| memWrite) {addr : U32} (hrefused : ¬ Granted W.m access addr w) :
    ¬ (Inside W.m addr w.bytes ∧ EndsCarry W.m addr w.bytes access) := by
  rintro ⟨hinside, hends⟩
  have hmask : AccessMask access ∧ access ≠ 0 := by
    obtain rfl | rfl | rfl := haccess <;> decide
  have hspan : ∀ t ∈ W.m.perms, w.bytes ≤ 2 ^ t.pageShift + 1 := by
    intro t ht
    have hfour : 2 ^ 2 ≤ 2 ^ t.pageShift := Nat.pow_le_pow_right (by decide) (h.pages t ht)
    have hw : w.bytes ≤ 4 := by cases w <;> decide
    omega
  obtain ⟨-, hgrants⟩ := everyPageGrants_of_two_pages hmask.1 hmask.2 hspan hends
  exact hrefused ((grantsRange_window h.fits (by cases w <;> decide)).mpr ⟨hinside, hgrants⟩)

theorem leaves_guard (h : W.Flat) (haccess : access = memRead ∨ access = memWrite ∨
    access = memRead ||| memWrite) (ho : Addressable o) (hk : o.kind = .mem)
    (hrefused : ¬ Allows W.m t access o w) (pc : U32) (code : Code) :
    W.Leaves others (st.guard o pc w.bytes access ++ code) t pc := by
  intro e l hl rest
  have haddr := effectiveAddress_eq (c := t.cpu) (ho.addressed hk) (ho.addr16 hk)
  have hnot : ¬ Granted W.m access (addressOf t.cpu o) w := by
    rw [← haddr]
    exact fun hgranted => hrefused fun _ => hgranted
  rw [List.append_assoc]
  exact W.run_guard_refused (c := { t.cpu with eip := e }) hl (h.refused haccess hnot) pc

theorem leaves_guardPlace (h : W.Flat) (haccess : access = memRead ∨ access = memWrite ∨
    access = memRead ||| memWrite) (ho : Addressable o)
    (hrefused : ¬ Allows W.m t access o w) (pc : U32) (code : Code) :
    W.Leaves others (st.guardPlace o pc w access ++ code) t pc := by
  have hk : o.kind = .mem := (Classical.not_imp.mp hrefused).1
  unfold WasmState.guardPlace
  rw [if_pos hk]
  exact leaves_guard h haccess ho hk hrefused pc code

end World

/-! ## Two operands -/

theorem alu_isSome (op : AluOp) (a b : U32) (w : Width) (f : Flags) :
    ∃ p, alu op a b w f = some p := by
  have hset : ∀ (kind : Cpu.FlagKind) (x y r v : U32), ¬ (kind.isShift ∧ y = 0) →
      ∃ p, (Cpu.flagsSet f kind x y r w).map (fun g => (v, g)) = some p := by
    intro kind x y r v hnot
    unfold Cpu.flagsSet
    rw [if_neg hnot]
    exact ⟨_, rfl⟩
  cases op <;> simp only [alu]
  case shl | shr | sar =>
    by_cases hcount : b &&& Cpu.widthMask w &&& 0x1F#32 = 0
    · rw [if_pos hcount]
      exact ⟨_, rfl⟩
    · rw [if_neg hcount]
      exact hset _ _ _ _ _ fun h => hcount h.2
  case rol | ror | rcl | rcr => split_ifs <;> exact ⟨_, rfl⟩
  case adc | sbb => exact ⟨_, rfl⟩
  all_goals exact hset _ _ _ _ _ fun h => Bool.false_ne_true h.1

section

variable {m : Mem} (hs : m.sparse = none) {t u : Ctx Host} {i : Insn} {w w1 : Width} {h : Halt}

include hs

/-- What an operation needs of its operands. -/
def aluAccess (op : AluOp) : U32 := memRead ||| if op = .cmp ∨ op = .test then 0 else memWrite

theorem executeAlu_refused {op : AluOp} (h0 : IsPlace i.operand0 w) (h1 : IsValue i.operand1 w1)
    (hrun : executeAlu (Cpu.guestMem m) op i t = .error h u) :
    (∃ addr, h = .fault .memoryFault addr) ∧
      ¬ (Allows m t (aluAccess op) i.operand0 w ∧ Allows m t memRead i.operand1 w1) := by
  unfold executeAlu at hrun
  by_cases hread0 : Allows m t memRead i.operand0 w
  · rw [bind_ok (readOperand_granted hs h0.isValue hread0)] at hrun
    by_cases hread1 : Allows m t memRead i.operand1 w1
    · obtain ⟨⟨r, f⟩, hf⟩ := alu_isSome op (valueOfOperand m t i.operand0 w)
        (valueOfOperand m t i.operand1 w1) w t.cpu.flags
      rw [bind_ok (readOperand_granted hs h1 hread1), h0.2, Cpu.ofBytes_bytes, orFatal_bind_some,
        bind_ok (onFlags_ok hf)] at hrun
      split_ifs at hrun with hop
      · cases hrun
      · by_cases hwrite : Allows m t memWrite i.operand0 w
        · rw [writeOperand_granted hs h0 ((allows_withFlags f).mpr hwrite)] at hrun
          cases hrun
        · rw [writeOperand_refused hs h0 fun hw => hwrite ((allows_withFlags f).mp hw)] at hrun
          cases hrun
          refine ⟨⟨_, rfl⟩, fun hall => hwrite ?_⟩
          unfold aluAccess at hall
          rw [if_neg hop] at hall
          exact (allows_or.mp hall.1).2
    · rw [bind_error (readOperand_refused hs h1 hread1)] at hrun
      cases hrun
      exact ⟨⟨_, rfl⟩, fun hall => hread1 hall.2⟩
  · rw [bind_error (readOperand_refused hs h0.isValue hread0)] at hrun
    cases hrun
    refine ⟨⟨_, rfl⟩, fun hall => hread0 ?_⟩
    exact (allows_or.mp hall.1).1

theorem executeAluUnary_refused {op : AluUnOp} (h0 : IsPlace i.operand0 w)
    (hrun : executeAluUnary (Cpu.guestMem m) op i t = .error h u) :
    (∃ addr, h = .fault .memoryFault addr) ∧
      ¬ Allows m t (memRead ||| memWrite) i.operand0 w := by
  unfold executeAluUnary at hrun
  by_cases hread : Allows m t memRead i.operand0 w
  · obtain ⟨⟨r, f⟩, hf⟩ : ∃ p,
        aluUnary op (valueOfOperand m t i.operand0 w) w t.cpu.flags = some p := by
      cases op <;> exact ⟨_, rfl⟩
    rw [bind_ok (readOperand_granted hs h0.isValue hread), h0.2, Cpu.ofBytes_bytes,
      orFatal_bind_some, bind_ok (onFlags_ok hf)] at hrun
    by_cases hwrite : Allows m t memWrite i.operand0 w
    · rw [writeOperand_granted hs h0 ((allows_withFlags f).mpr hwrite)] at hrun
      cases hrun
    · rw [writeOperand_refused hs h0 fun hw => hwrite ((allows_withFlags f).mp hw)] at hrun
      cases hrun
      exact ⟨⟨_, rfl⟩, fun hall => hwrite (allows_or.mp hall).2⟩
  · rw [bind_error (readOperand_refused hs h0.isValue hread)] at hrun
    cases hrun
    exact ⟨⟨_, rfl⟩, fun hall => hread (allows_or.mp hall).1⟩

end

namespace World

variable {low : WasmLower} {W : World low.state} {others : Imports} {t : Ctx Host} {i : Insn}
  {w w1 : Width} {pc access : U32} {rest : Code}

/-- The guard of whichever operand is in memory. -/
theorem leaves_either (hflat : W.Flat) (haccess : access = memRead ∨ access = memWrite ∨
    access = memRead ||| memWrite) {dst src : Operand} (hr0 : Addressable dst)
    (hr1 : Addressable src) (hone : ¬ (dst.kind = .mem ∧ src.kind = .mem))
    (hrefused : ¬ (Allows W.m t access dst w ∧ Allows W.m t memRead src w)) :
    W.Leaves others ((if dst.kind = .mem then low.state.guard dst pc w.bytes access
      else if src.kind = .mem then low.state.guard src pc w.bytes memRead else []) ++
      rest) t pc := by
  by_cases hk0 : dst.kind = .mem
  · have hsrc : Allows W.m t memRead src w := fun hk1 => absurd ⟨hk0, hk1⟩ hone
    rw [if_pos hk0]
    exact leaves_guard hflat haccess hr0 hk0 (fun hdst => hrefused ⟨hdst, hsrc⟩) pc rest
  · have hdst : Allows W.m t access dst w := fun hk => absurd hk hk0
    have hk1 : src.kind = .mem := (Classical.not_imp.mp fun hsrc => hrefused ⟨hdst, hsrc⟩).1
    rw [if_neg hk0, if_pos hk1]
    exact leaves_guard hflat (.inl rfl) hr1 hk1 (fun hsrc => hrefused ⟨hdst, hsrc⟩) pc rest

theorem leaves_loadOperands (hflat : W.Flat) (haccess : access = memRead ∨ access = memWrite ∨
    access = memRead ||| memWrite) (h0 : IsPlace i.operand0 w) (hr0 : Addressable i.operand0)
    (hr1 : Addressable i.operand1) (hone : ¬ (i.operand0.kind = .mem ∧ i.operand1.kind = .mem))
    (hrefused : ¬ (Allows W.m t access i.operand0 w ∧ Allows W.m t memRead i.operand1 w))
    (carry : Code) :
    W.Leaves others (loadOperands low.state i pc access carry ++ rest) t pc := by
  unfold loadOperands
  dsimp only
  rw [widthOf_place h0]
  by_cases hk0 : i.operand0.kind = .mem
  · have hsrc : Allows W.m t memRead i.operand1 w := fun hk1 => absurd ⟨hk0, hk1⟩ hone
    rw [if_pos hk0]
    simp only [List.append_assoc]
    exact leaves_guard hflat haccess hr0 hk0 (fun hdst => hrefused ⟨hdst, hsrc⟩) pc _
  · have hdst : Allows W.m t access i.operand0 w := fun hk => absurd hk hk0
    have hk1 : i.operand1.kind = .mem := (Classical.not_imp.mp fun hsrc => hrefused ⟨hdst, hsrc⟩).1
    rw [if_neg hk0, if_pos hk1]
    simp only [List.append_assoc]
    exact leaves_guard hflat (.inl rfl) hr1 hk1 (fun hsrc => hrefused ⟨hdst, hsrc⟩) pc _

end World

theorem alu_follows {low : WasmLower} {W : World low.state} (hflat : W.Flat) (others : Imports)
    {t : Ctx Host} {i : Insn} {op : AluOp} (haccepts : aluAccepts op i = true)
    (ha0 : i.operand0.kind = .mem → Addressed i.operand0)
    (ha1 : i.operand1.kind = .mem → Addressed i.operand1) (htracks : Tracks low t.cpu.flags)
    (pc : U32) :
    W.Follows others (aluLower low op i pc).2 (aluLower low op i pc).1 pc
      (executeAlu (Cpu.guestMem W.m) op i) t := by
  have haccepts' := haccepts
  unfold aluAccepts at haccepts'
  obtain ⟨hdst, hsrc⟩ := Bool.and_eq_true_iff.mp haccepts'
  obtain ⟨⟨w, -, h0⟩, h16⟩ := operandOk_place (Bool.and_eq_true_iff.mp hdst).2
  have hr0 : Addressable i.operand0 := ⟨ha0, h16⟩
  have haccess : aluAccess op = memRead ∨ aluAccess op = memWrite ∨
      aluAccess op = memRead ||| memWrite := by
    unfold aluAccess
    split_ifs
    · exact .inl rfl
    · exact .inr (.inr rfl)
  -- what the second operand is, and that one operand at most is in memory
  have hsecond : ∃ w1, IsValue i.operand1 w1 ∧ Addressable i.operand1 ∧
      (isShiftOrRotate op = true → i.operand1.kind ≠ .mem) ∧
      (isShiftOrRotate op = false → w1 = w) ∧
      ¬ (i.operand0.kind = .mem ∧ i.operand1.kind = .mem) := by
    cases hop : isShiftOrRotate op with
    | true =>
      rw [hop, if_pos rfl] at hsrc
      have h1 : IsValue i.operand1 .byte ∧ i.operand1.kind ≠ .mem := by
        rcases Bool.or_eq_true_iff.mp hsrc with himm | hreg
        · have hk := eq_of_beq himm
          exact ⟨.inl hk, by rw [hk]; decide⟩
        · obtain ⟨hk, hsize⟩ := Bool.and_eq_true_iff.mp hreg
          exact ⟨.inr ⟨.inl (eq_of_beq hk), eq_of_beq hsize⟩, by rw [eq_of_beq hk]; decide⟩
      exact ⟨.byte, h1.1, ⟨ha1, fun hk => absurd hk h1.2⟩, fun _ => h1.2, nofun,
        fun hboth => h1.2 hboth.2⟩
    | false =>
      rw [hop, if_neg Bool.false_ne_true] at hsrc
      obtain ⟨hvalue, hone⟩ := Bool.and_eq_true_iff.mp hsrc
      obtain ⟨⟨w', hsize, h1⟩, h16'⟩ := operandOk_value hvalue
      refine ⟨w', h1, ⟨ha1, h16'⟩, nofun, fun _ => ?_, ?_⟩
      · rw [h0.2] at hsize
        exact (Option.some_inj.mp (by rw [← Cpu.ofBytes_bytes w, hsize, Cpu.ofBytes_bytes])).symm
      · rintro ⟨hk0, hk1⟩
        rw [hk0, hk1] at hone
        cases hone
  obtain ⟨w1, h1, hr1, hshift, hw1, hone⟩ := hsecond
  refine ⟨fun u hrun => ⟨alu_does W others haccepts ha0 ha1 htracks pc hrun, ?_⟩,
    fun h u hrun => ?_⟩
  · obtain ⟨-, -, r, f, -, hend⟩ := executeAlu_inv W.contiguous h0 h1 hrun
    split_ifs at hend with hop
    · rw [hend]
      rfl
    · rw [hend.2, written_nextEip]
      rfl
  · obtain ⟨haddr, hrefused⟩ := executeAlu_refused W.contiguous h0 h1 hrun
    refine ⟨haddr, ?_⟩
    have hrefused' : ¬ (Allows W.m t (aluAccess op) i.operand0 w ∧
        Allows W.m t memRead i.operand1 w) := by
      intro hboth
      refine hrefused ⟨hboth.1, ?_⟩
      cases hop : isShiftOrRotate op with
      | true => exact .of_reg (hshift hop)
      | false => exact hw1 hop ▸ hboth.2
    unfold aluLower
    by_cases hcount : inlineShiftCount op i ≠ 0
    · obtain ⟨⟨kind, hkind⟩, himm, -, -⟩ := inlineShiftCount_spec h0 hcount
      have hboth : aluAccess op = memRead ||| memWrite := by
        unfold aluAccess
        rw [if_neg (by cases op <;> cases hkind <;> decide)]
      rw [if_pos hcount]
      unfold lowerShift
      dsimp only
      rw [widthOf_place h0]
      simp only [List.append_assoc]
      refine World.leaves_guardPlace hflat (.inr (.inr rfl)) hr0
        (fun hall => hrefused' ⟨?_, ?_⟩) pc _
      · rwa [hboth]
      · exact .of_reg (by rw [himm]; decide)
    · rw [if_neg hcount]
      cases hshape : inlineShape op with
      | some shape =>
        obtain ⟨o, kind, writes⟩ := shape
        obtain ⟨-, -, -, -, hlive, hwrites⟩ := inlineShape_spec hshape
        have hsame : (memRead ||| if writes then memWrite else 0) = aluAccess op := by
          unfold aluAccess
          cases writes with
          | true => rw [if_pos rfl, if_neg (hwrites.mp rfl)]
          | false =>
            rw [if_neg Bool.false_ne_true,
              if_pos (not_not.mp fun hnot => Bool.false_ne_true (hwrites.mpr hnot))]
        dsimp only
        rw [lowerInline_eq h0 hlive, hsame]
        simp only [List.append_assoc]
        exact World.leaves_loadOperands hflat haccess h0 hr0 hr1 hone hrefused' []
      | none =>
        have hboth : aluAccess op = memRead ||| memWrite := by
          unfold aluAccess
          rw [if_neg (by rintro (rfl | rfl) <;> cases hshape)]
        dsimp only
        rw [lowerViaHelper_eq h0]
        simp only [List.append_assoc]
        rw [hboth] at hrefused'
        exact World.leaves_either hflat (.inr (.inr rfl)) hr0 hr1 hone hrefused'

/-! ## One operand -/

theorem aluUnary_follows {low : WasmLower} {W : World low.state} (hflat : W.Flat)
    (others : Imports) {t : Ctx Host} {i : Insn} {op : AluUnOp}
    (haccepts : aluUnaryAccepts i = true)
    (ha0 : i.operand0.kind = .mem → Addressed i.operand0) (htracks : Tracks low t.cpu.flags)
    (pc : U32) :
    W.Follows others (aluUnaryLower low op i pc).2 (aluUnaryLower low op i pc).1 pc
      (executeAluUnary (Cpu.guestMem W.m) op i) t := by
  obtain ⟨⟨w, -, h0⟩, h16⟩ := operandOk_place (Bool.and_eq_true_iff.mp haccepts).2
  have hr0 : Addressable i.operand0 := ⟨ha0, h16⟩
  refine ⟨fun u hrun => ⟨aluUnary_does W others haccepts ha0 htracks pc hrun, ?_⟩,
    fun h u hrun => ?_⟩
  · obtain ⟨-, -, r, f, -, rfl⟩ := executeAluUnary_inv W.contiguous h0 hrun
    rw [written_nextEip]
    rfl
  · obtain ⟨haddr, hrefused⟩ := executeAluUnary_refused W.contiguous h0 hrun
    refine ⟨haddr, ?_⟩
    unfold aluUnaryLower
    dsimp only
    rw [widthOf_place h0]
    by_cases hnot : op = .not
    · rw [if_pos hnot]
      simp only [List.append_assoc]
      exact World.leaves_guardPlace hflat (.inr (.inr rfl)) hr0 hrefused pc _
    · rw [if_neg hnot]
      simp only [List.append_assoc]
      exact World.leaves_guardPlace hflat (.inr (.inr rfl)) hr0 hrefused pc _

end X86Port.Wasm
