import X86Port.Wasm.Refusals

/-!
# The moves

`jit_wasm_move.c`: the families that move or reshape a value without arithmetic. None of them
records flags, so that the lowering goes on with what it knew.

* `mov_follows`, `movx_follows`, `lea_follows`, `xchg_follows`, `setcc_follows`, and the families
  without operands.
-/

namespace X86Port.Wasm

open Lib StackCode
open Memory (Mem Host memRead memWrite)
open Cpu (Reg Width Operand Flags Ctx Exec Halt Insn Cond regRead regWrite widthMask
  effectiveAddress eax edx)
open Cpu.Exec

/-! ## The code -/

def movAccepts (i : Insn) : Bool :=
  i.operands == 2 && operandOk i.operand0 i.operand0.size true &&
    operandOk i.operand1 i.operand0.size false &&
    !(i.operand0.kind == .mem && i.operand1.kind == .mem)

/-- The value of a source that may be in memory, behind its guard. -/
def pushSource (s : WasmState) (o : Operand) (pc : U32) (w : Width) : Code :=
  if o.kind = .mem then s.guard o pc w.bytes memRead ++ s.loadMem w else pushOperand o w

def movLower (l : WasmLower) (i : Insn) (pc : U32) : Code × WasmLower :=
  let s := l.state
  let dst := i.operand0
  let src := i.operand1
  let w := widthOf dst
  if dst.kind = .mem then
    (s.guard dst pc w.bytes memWrite ++ pushOperand src w ++ ([.localSet .r] : Code) ++
      s.storeMem w .r, l)
  else
    (pushSource s src pc w ++ ([.localSet .r] : Code) ++ WasmState.storeReg dst.reg w .r, l)

/-- The destination is a register that is wider than the source. -/
def movxAccepts (i : Insn) : Bool :=
  i.operands == 2 && i.operand0.kind == .reg && [1, 2, 4].contains i.operand0.size &&
    decide (i.operand1.size < i.operand0.size) &&
    (i.operand1.size == 1 || i.operand1.size == 2) &&
    operandOk i.operand1 i.operand1.size false && i.operand1.kind != .imm

/-- Sign-extension is a pair of shifts. -/
def signExtendCode (w : Width) : Code :=
  [.const (BitVec.ofNat 32 (32 - w.bits)), .op .shl, .const (BitVec.ofNat 32 (32 - w.bits)),
    .op .shrS]

def lowerMovx (l : WasmLower) (i : Insn) (pc : U32) (signed : Bool) : Code × WasmLower :=
  let dst := i.operand0
  let src := i.operand1
  let sw := widthOf src
  (pushSource l.state src pc sw ++ (if signed then signExtendCode sw else []) ++
    ([.localSet .r] : Code) ++ WasmState.storeReg dst.reg (widthOf dst) .r, l)

def leaAccepts (i : Insn) : Bool :=
  i.operands == 2 && i.operand0.kind == .reg && i.operand0.size == 4 &&
    i.operand1.kind == .mem && !i.operand1.addr16

/-- The address without a segment's base. -/
def leaLower (l : WasmLower) (i : Insn) : Code × WasmLower :=
  (WasmState.addressParts i.operand1 ++ ([.localSet .r] : Code) ++
    WasmState.storeReg i.operand0.reg .dword .r, l)

def xchgAccepts (i : Insn) : Bool :=
  i.operands == 2 && operandOk i.operand0 i.operand0.size true &&
    operandOk i.operand1 i.operand0.size true &&
    !(i.operand0.kind == .mem && i.operand1.kind == .mem)

def xchgLower (l : WasmLower) (i : Insn) (pc : U32) : Code × WasmLower :=
  let s := l.state
  let a := i.operand0
  let b := i.operand1
  let w := widthOf a
  if b.kind = .mem then
    (s.guard b pc w.bytes (memRead ||| memWrite) ++ s.loadMem w ++ ([.localSet .b] : Code) ++
      WasmState.loadReg a.reg w ++ ([.localSet .a] : Code) ++ WasmState.storeReg a.reg w .b ++
      s.storeMem w .a, l)
  else if a.kind = .mem then
    (s.guard a pc w.bytes (memRead ||| memWrite) ++ s.loadMem w ++ ([.localSet .a] : Code) ++
      WasmState.loadReg b.reg w ++ ([.localSet .b] : Code) ++ WasmState.storeReg b.reg w .a ++
      s.storeMem w .b, l)
  else
    (WasmState.loadReg a.reg w ++ ([.localSet .a] : Code) ++ WasmState.loadReg b.reg w ++
      ([.localSet .b] : Code) ++ WasmState.storeReg a.reg w .b ++ WasmState.storeReg b.reg w .a, l)

def setccAccepts (i : Insn) : Bool := i.operands == 1 && operandOk i.operand0 1 true

def setccLower (l : WasmLower) (cc : Cond) (i : Insn) (pc : U32) : Code × WasmLower :=
  let s := l.state
  let dst := i.operand0
  (s.guardPlace dst pc .byte memWrite ++ l.condValue cc ++ ([.localSet .r] : Code) ++
    s.storePlace dst .byte .r, l)

def cdqLower (l : WasmLower) : Code × WasmLower :=
  (WasmState.loadReg eax .dword ++ ([.const 31, .op .shrS, .localSet .r] : Code) ++
    WasmState.storeReg edx .dword .r, l)

def cwdeLower (l : WasmLower) : Code × WasmLower :=
  (WasmState.loadReg eax .word ++
    ([.const 16, .op .shl, .const 16, .op .shrS, .localSet .r] : Code) ++
    WasmState.storeReg eax .dword .r, l)

/-- Each pair of bytes is rotated into place. -/
def bswapLower (l : WasmLower) (i : Insn) : Code × WasmLower :=
  let reg := i.operand0.reg
  (WasmState.loadReg reg .dword ++
    ([.const 8, .op .rotl, .const 0x00FF00FF, .op .and] : Code) ++ WasmState.loadReg reg .dword ++
    ([.const 8, .op .rotr, .const 0xFF00FF00, .op .and, .op .or, .localSet .r] : Code) ++
    WasmState.storeReg reg .dword .r, l)

/-! ## Values -/

theorem written_and_widthMask (m : Mem) (t : Ctx Host) {o : Operand} {w : Width}
    (v : U32) : written m t o w (v &&& widthMask w) = written m t o w v := by
  unfold written
  split_ifs
  · unfold Cpu.storeAt
    rw [Cpu.bytesOf_and_widthMask]
  · rw [Cpu.regWrite_and_widthMask]

theorem bits_ofNat (w : Width) : (BitVec.ofNat 32 (32 - w.bits)).toNat % 32 = 32 - w.bits := by
  cases w <;> rfl

/-- The pair of shifts is the sign-extension of the interpreter. -/
theorem signExtend_eq {w : Width} (hw : w ≠ .dword) (v : U32) :
    (v <<< (32 - w.bits)).sshiftRight (32 - w.bits) = Cpu.signExtend v w.bytes := by
  refine BitVec.eq_of_getLsbD_eq fun i hi => ?_
  rw [BitVec.getLsbD_sshiftRight, BitVec.msb_eq_getLsbD_last, BitVec.getLsbD_shiftLeft,
    BitVec.getLsbD_shiftLeft]
  cases w with
  | dword => exact absurd rfl hw
  | byte =>
    change _ = ((v.setWidth 8).signExtend 32).getLsbD i
    rw [BitVec.getLsbD_signExtend, BitVec.msb_eq_getLsbD_last, BitVec.getLsbD_setWidth,
      BitVec.getLsbD_setWidth, show 32 - Width.byte.bits = 24 from rfl]
    by_cases h : i < 8
    · simp [h, hi, show 24 + i < 32 by omega, show ¬ 32 ≤ i by omega]
    · simp [h, hi, show ¬ 24 + i < 32 by omega, show ¬ 32 ≤ i by omega]
  | word =>
    change _ = ((v.setWidth 16).signExtend 32).getLsbD i
    rw [BitVec.getLsbD_signExtend, BitVec.msb_eq_getLsbD_last, BitVec.getLsbD_setWidth,
      BitVec.getLsbD_setWidth, show 32 - Width.word.bits = 16 from rfl]
    by_cases h : i < 16
    · simp [h, hi, show 16 + i < 32 by omega, show ¬ 32 ≤ i by omega]
    · simp [h, hi, show ¬ 16 + i < 32 by omega, show ¬ 32 ≤ i by omega]

theorem sshiftRight_sign (v : U32) :
    v.sshiftRight 31 = if v &&& 0x80000000 ≠ 0 then uint32Max else 0 := by
  have hbit : v &&& 0x80000000 = if v.getLsbD 31 then BitVec.twoPow 32 31 else 0 :=
    BitVec.and_twoPow v 31
  have hall : ∀ i < 32, (v.sshiftRight 31).getLsbD i = v.getLsbD 31 := by
    intro i hi
    rw [BitVec.getLsbD_sshiftRight, BitVec.msb_eq_getLsbD_last]
    by_cases hzero : i = 0
    · simp [hzero]
    · simp [show ¬ 31 + i < 32 by omega, show ¬ 32 ≤ i by omega]
  refine BitVec.eq_of_getLsbD_eq fun i hi => ?_
  rw [hall i hi, hbit]
  cases v.getLsbD 31 with
  | false => simp
  | true =>
    have hones : uint32Max = BitVec.allOnes 32 := rfl
    rw [if_pos rfl, if_pos (by decide), hones, BitVec.getLsbD_allOnes, decide_eq_true hi]

theorem byteSwap_eq (v : U32) :
    (v.rotateLeft 8 &&& 0x00FF00FF) ||| (v.rotateRight 8 &&& 0xFF00FF00) = byteSwap v := by
  unfold byteSwap
  refine BitVec.eq_of_getLsbD_eq fun i hi => ?_
  interval_cases i <;> simp

/-! ## MOV, MOVZX and MOVSX -/

namespace World

variable {low : WasmLower} (W : World low.state) (others : Imports)

/-- Beside a state of the interpreter the code leaves a value on the stack and nothing else. -/
def Yields (t : Ctx Host) (code : Code) (v : U32) : Prop :=
  ∀ (e : U32) (l : WasmLocal → U32), l .cpu = W.home.addr → ∃ l', l' .cpu = W.home.addr ∧
    ∀ rest, run (wasmEnv (withHelpers others)) (code ++ rest) ⟨W.at_ t e, l, []⟩ =
      run (wasmEnv (withHelpers others)) rest ⟨W.at_ t e, l', [v]⟩

variable {W others} {t : Ctx Host} {e : U32} {l : WasmLocal → U32} {o : Operand} {w : Width}
  {code more rest : Code} {u v : U32}

/-- What is computed from a value on the stack. -/
theorem Yields.append (h : W.Yields others t code u)
    (hmore : ∀ (e : U32) (l : WasmLocal → U32), l .cpu = W.home.addr → ∀ rest,
      run (wasmEnv (withHelpers others)) (more ++ rest) ⟨W.at_ t e, l, [u]⟩ =
        run (wasmEnv (withHelpers others)) rest ⟨W.at_ t e, l, [v]⟩) :
    W.Yields others t (code ++ more) v := by
  intro e l hl
  obtain ⟨l', hl', hrun⟩ := h e l hl
  exact ⟨l', hl', fun rest => by rw [List.append_assoc, hrun, hmore e l' hl']⟩

/-- A register that takes the value. -/
theorem Yields.storeReg (h : W.Yields others t code v) (r : Reg) (w : Width) :
    W.Reaches others (code ++ ([.localSet .r] : Code) ++ WasmState.storeReg r w .r) t
      (t.withRegs (regWrite t.cpu.toCpuState r w v)) := by
  intro e l hl
  obtain ⟨l', hl', hrun⟩ := h e l hl
  refine ⟨Function.update l' .r v, by simp [hl'], fun rest => ?_⟩
  simp only [List.append_assoc, List.cons_append, List.nil_append]
  rw [hrun, run_localSet, W.run_storeReg_at (by simp [hl']), Function.update_self]

theorem yields_loadReg (W : World low.state) (others : Imports) (t : Ctx Host) (r : Reg)
    (w : Width) :
    W.Yields others t (WasmState.loadReg r w) (regRead t.cpu.toCpuState r w) :=
  fun _ l hl => ⟨l, hl, fun _ => W.run_loadReg_at hl r w⟩

theorem yields_pushSource (ho : IsValue o w) (hr : Addressable o)
    (hallows : Allows W.m t memRead o w) (pc : U32) :
    W.Yields others t (pushSource low.state o pc w) (valueOfOperand W.m t o w &&& widthMask w) := by
  intro e l hl
  unfold pushSource
  by_cases hk : o.kind = .mem
  · have hplace : IsPlace o w := ho.resolve_left (by rw [hk]; decide)
    have hguard : low.state.guard o pc w.bytes memRead = low.state.guardPlace o pc w memRead :=
      (if_pos hk).symm
    have hload : low.state.loadMem w = low.state.loadPlace o w := (if_pos hk).symm
    have hcpu : W.pointed t o l .cpu = W.home.addr := (W.pointed_cpu l).trans hl
    rw [if_pos hk, hguard, hload, valueOfOperand_and_widthMask hplace]
    refine ⟨W.pointed t o l, hcpu, fun rest => ?_⟩
    rw [List.append_assoc, W.run_guardPlace hl hr hallows,
      W.run_loadPlace hcpu hplace (W.points_pointed l) hallows]
  · rw [if_neg hk]
    exact ⟨l, hl, fun rest => W.run_pushOperand hl (ho.imm_or_reg hk)⟩

theorem leaves_pushSource (hflat : W.Flat) (hr : Addressable o)
    (hrefused : ¬ Allows W.m t memRead o w) (pc : U32) :
    W.Leaves others (pushSource low.state o pc w ++ rest) t pc := by
  have hk : o.kind = .mem := (Classical.not_imp.mp hrefused).1
  unfold pushSource
  rw [if_pos hk, List.append_assoc]
  exact leaves_guard hflat (.inl rfl) hr hk hrefused pc _

/-- An instruction that completes. -/
theorem Reaches.follows {x : Exec Host Unit} {t' : Ctx Host} (h : W.Reaches others code t t')
    (htracks : Tracks low t'.cpu.flags) (hnext : t'.nextEip = t.nextEip) (pc : U32)
    (hx : x t = .ok () t') : W.Follows others low code pc x t := by
  refine ⟨fun u hu => ?_, fun h u hu => ?_⟩
  · have hu' := hx.symm.trans hu
    cases hu'
    exact ⟨h.does htracks, hnext⟩
  · have hu' := hx.symm.trans hu
    cases hu'

/-- An instruction that faults. -/
theorem Leaves.follows {x : Exec Host Unit} {pc addr : U32} {t' : Ctx Host}
    (h : W.Leaves others code t pc) (hx : x t = .error (.fault .memoryFault addr) t') :
    W.Follows others low code pc x t := by
  refine ⟨fun u hu => ?_, fun h' u hu => ?_⟩
  · have hu' := hx.symm.trans hu
    cases hu'
  · have hu' := hx.symm.trans hu
    cases hu'
    exact ⟨⟨_, rfl⟩, h⟩

/-- An instruction that leaves a value in a register. -/
theorem Yields.follows {x : Exec Host Unit} (h : W.Yields others t code v)
    (htracks : Tracks low t.cpu.flags) (r : Reg) (w : Width) (pc : U32)
    (hx : x t = .ok () (t.withRegs (regWrite t.cpu.toCpuState r w v))) :
    W.Follows others low (code ++ ([.localSet .r] : Code) ++ WasmState.storeReg r w .r) pc x t := by
  refine (h.storeReg r w).follows ?_ rfl pc hx
  change Tracks low (regWrite t.cpu.toCpuState r w v).flags
  rw [regWrite_same_flags]
  exact htracks

end World

theorem written_reg (m : Mem) (t : Ctx Host) {o : Operand} {w : Width} (hk : o.kind = .reg)
    (v : U32) : written m t o w v = t.withRegs (regWrite t.cpu.toCpuState o.reg w v) :=
  if_neg (by rw [hk]; decide)

section

variable {m : Mem} (hs : m.sparse = none) {t : Ctx Host} {dst src : Operand} {w w1 : Width}

include hs

/-- A value that is read, reshaped and written. -/
theorem move_cases (h0 : IsPlace dst w) (h1 : IsValue src w1) (f : U32 → U32) :
    (Allows m t memRead src w1 ∧ Allows m t memWrite dst w ∧
      (do let v ← readOperand (Cpu.guestMem m) src
          writeOperand (Cpu.guestMem m) dst (f v)) t =
        .ok () (written m t dst w (f (valueOfOperand m t src w1)))) ∨
    (¬ (Allows m t memRead src w1 ∧ Allows m t memWrite dst w) ∧ ∃ addr,
      (do let v ← readOperand (Cpu.guestMem m) src
          writeOperand (Cpu.guestMem m) dst (f v)) t = .error (.fault .memoryFault addr) t) := by
  by_cases hread : Allows m t memRead src w1
  · rw [bind_ok (readOperand_granted hs h1 hread)]
    by_cases hwrite : Allows m t memWrite dst w
    · exact .inl ⟨hread, hwrite, writeOperand_granted hs h0 hwrite _⟩
    · exact .inr ⟨fun hboth => hwrite hboth.2, _, writeOperand_refused hs h0 hwrite _⟩
  · rw [bind_error (readOperand_refused hs h1 hread)]
    exact .inr ⟨fun hboth => hread hboth.1, _, rfl⟩

end

theorem tracks_written {low : WasmLower} {m : Mem} {t : Ctx Host} {o : Operand} {w : Width}
    {v : U32} (h : Tracks low t.cpu.flags) : Tracks low (written m t o w v).cpu.flags := by
  rw [written_flags]
  exact h

section

variable {low : WasmLower} {W : World low.state} (hflat : W.Flat) (others : Imports)
  {t : Ctx Host} {i : Insn} (htracks : Tracks low t.cpu.flags) (pc : U32)

include hflat htracks

theorem mov_follows (haccepts : movAccepts i = true)
    (ha0 : i.operand0.kind = .mem → Addressed i.operand0)
    (ha1 : i.operand1.kind = .mem → Addressed i.operand1) :
    W.Follows others low (movLower low i pc).1 pc
      (do let v ← readOperand (Cpu.guestMem W.m) i.operand1
          writeOperand (Cpu.guestMem W.m) i.operand0 v) t := by
  unfold movAccepts at haccepts
  obtain ⟨hrest, hone⟩ := Bool.and_eq_true_iff.mp haccepts
  obtain ⟨hdst, hsrc⟩ := Bool.and_eq_true_iff.mp hrest
  obtain ⟨⟨w, -, h0⟩, h16⟩ := operandOk_place (Bool.and_eq_true_iff.mp hdst).2
  obtain ⟨⟨w', hsize, h1⟩, h16'⟩ := operandOk_value hsrc
  obtain rfl : w = w' := by
    rw [h0.2] at hsize
    exact Option.some_inj.mp (by rw [← Cpu.ofBytes_bytes w, hsize, Cpu.ofBytes_bytes])
  have hone' : ¬ (i.operand0.kind = .mem ∧ i.operand1.kind = .mem) := by
    rintro ⟨hk0, hk1⟩
    rw [hk0, hk1] at hone
    cases hone
  have hr0 : Addressable i.operand0 := ⟨ha0, h16⟩
  have hr1 : Addressable i.operand1 := ⟨ha1, h16'⟩
  unfold movLower
  dsimp only
  rw [widthOf_place h0]
  rcases move_cases W.contiguous (t := t) h0 h1 id with
    ⟨hread, hwrite, hrun⟩ | ⟨hrefused, addr, hrun⟩
  · refine World.Reaches.follows ?_ (tracks_written htracks) (written_nextEip ..) pc hrun
    change W.Reaches others _ t (written W.m t i.operand0 w (valueOfOperand W.m t i.operand1 w))
    rw [← written_and_widthMask]
    by_cases hk0 : i.operand0.kind = .mem
    · intro e l hl
      have hguard : low.state.guard i.operand0 pc w.bytes memWrite =
          low.state.guardPlace i.operand0 pc w memWrite := (if_pos hk0).symm
      have hstore : low.state.storeMem w .r = low.state.storePlace i.operand0 w .r :=
        (if_pos hk0).symm
      have hcpu : W.pointed t i.operand0 l .cpu = W.home.addr := (W.pointed_cpu l).trans hl
      have hpoints := W.points_pointed (s := t) (o := i.operand0) l
      rw [if_pos hk0, hguard, hstore]
      refine ⟨Function.update (W.pointed t i.operand0 l) .r
        (valueOfOperand W.m t i.operand1 w &&& widthMask w), by simp [hcpu], fun rest => ?_⟩
      simp only [List.append_assoc, List.cons_append, List.nil_append]
      rw [W.run_guardPlace hl hr0 hwrite,
        W.run_pushOperand hcpu (h1.imm_or_reg fun hk1 => hone' ⟨hk0, hk1⟩), run_localSet,
        W.run_storePlace (by simp [hcpu]) (fun hk => by simp [hpoints hk]) hwrite,
        Function.update_self]
    · rw [if_neg hk0, written_reg W.m t (h0.1.resolve_right hk0)]
      exact (World.yields_pushSource h1 hr1 hread pc).storeReg _ _
  · refine World.Leaves.follows ?_ hrun
    by_cases hk0 : i.operand0.kind = .mem
    · have hread : Allows W.m t memRead i.operand1 w := fun hk1 => absurd ⟨hk0, hk1⟩ hone'
      rw [if_pos hk0]
      simp only [List.append_assoc]
      exact World.leaves_guard hflat (.inr (.inl rfl)) hr0 hk0
        (fun hwrite => hrefused ⟨hread, hwrite⟩) pc _
    · have hwrite : Allows W.m t memWrite i.operand0 w := fun hk => absurd hk hk0
      rw [if_neg hk0]
      simp only [List.append_assoc]
      exact World.leaves_pushSource hflat hr1 (fun hread => hrefused ⟨hread, hwrite⟩) pc

/-- MOVZX and MOVSX. -/
theorem movx_follows (haccepts : movxAccepts i = true)
    (ha1 : i.operand1.kind = .mem → Addressed i.operand1) (signed : Bool) :
    W.Follows others low (lowerMovx low i pc signed).1 pc
      (do let v ← readOperand (Cpu.guestMem W.m) i.operand1
          writeOperand (Cpu.guestMem W.m) i.operand0
            (if signed then Cpu.signExtend v i.operand1.size else v)) t := by
  unfold movxAccepts at haccepts
  simp only [Bool.and_eq_true, Bool.or_eq_true, beq_iff_eq, bne_iff_ne,
    decide_eq_true_eq] at haccepts
  obtain ⟨⟨⟨⟨⟨⟨-, hk0⟩, hsize0⟩, hless⟩, hnarrow⟩, hsrc⟩, hnoimm⟩ := haccepts
  obtain ⟨w, hw⟩ := Cpu.bytes_of_contains hsize0
  have h0 : IsPlace i.operand0 w := ⟨.inl hk0, hw⟩
  obtain ⟨⟨w1, hw1, h1⟩, h16⟩ := operandOk_value hsrc
  have hr1 : Addressable i.operand1 := ⟨ha1, h16⟩
  have hplace : IsPlace i.operand1 w1 := h1.resolve_left hnoimm
  have hmask := valueOfOperand_and_widthMask hplace W.m t
  have hdword : w1 ≠ .dword := by
    rintro rfl
    rw [hw1] at hnarrow
    exact absurd hnarrow (by decide)
  unfold lowerMovx
  dsimp only
  rw [widthOf_place h0, widthOf_place hplace]
  rcases move_cases W.contiguous (t := t) h0 h1
    (fun v => if signed then Cpu.signExtend v i.operand1.size else v) with
    ⟨hread, hwrite, hrun⟩ | ⟨hrefused, addr, hrun⟩
  · refine World.Reaches.follows ?_ (tracks_written htracks) (written_nextEip ..) pc hrun
    have hsource : W.Yields others t (pushSource low.state i.operand1 pc w1)
        (valueOfOperand W.m t i.operand1 w1 &&& widthMask w1) :=
      World.yields_pushSource h1 hr1 hread pc
    rw [hmask] at hsource
    rw [written_reg W.m t hk0]
    refine World.Yields.storeReg (hsource.append fun e l hl rest => ?_) _ _
    cases signed with
    | false => rfl
    | true =>
      change run _ rest ⟨_, l, [(valueOfOperand W.m t i.operand1 w1 <<<
        ((BitVec.ofNat 32 (32 - w1.bits)).toNat % 32)).sshiftRight
          ((BitVec.ofNat 32 (32 - w1.bits)).toNat % 32)]⟩ = _
      rw [bits_ofNat, signExtend_eq hdword, ← hw1]
      rfl
  · refine World.Leaves.follows ?_ hrun
    have hwrite : Allows W.m t memWrite i.operand0 w := .of_reg (by rw [hk0]; decide)
    simp only [List.append_assoc]
    exact World.leaves_pushSource hflat hr1 (fun hread => hrefused ⟨hread, hwrite⟩) pc

/-! ## LEA -/

/-- The decoder leaves the segment of LEA's operand at one without a base. -/
def Unsegmented (o : Operand) : Prop := o.seg ≠ .fs ∧ o.seg ≠ .gs

omit hflat in
theorem lea_follows (haccepts : leaAccepts i = true) (ha1 : Addressed i.operand1)
    (hseg : Unsegmented i.operand1) :
    W.Follows others low (leaLower low i).1 pc
      (if i.operand1.kind = .mem then do
        let addr ← ask fun s => effectiveAddress s.cpu i.operand1
        writeOperand (Cpu.guestMem W.m) i.operand0 addr
      else unsupported) t := by
  unfold leaAccepts at haccepts
  simp only [Bool.and_eq_true, beq_iff_eq, Bool.not_eq_true'] at haccepts
  obtain ⟨⟨⟨⟨-, hk0⟩, hsize⟩, hk1⟩, h16⟩ := haccepts
  have h0 : IsPlace i.operand0 .dword := ⟨.inl hk0, hsize⟩
  have hparts : partsOf t.cpu i.operand1 = effectiveAddress t.cpu i.operand1 := by
    rw [effectiveAddress_eq ha1 h16]
    unfold addressOf
    cases hs : i.operand1.seg with
    | fs => exact absurd hs hseg.1
    | gs => exact absurd hs hseg.2
    | _ => rfl
  have hyields : W.Yields others t (WasmState.addressParts i.operand1)
      (effectiveAddress t.cpu i.operand1) := by
    intro e l hl
    rw [← hparts]
    refine ⟨l, hl, fun rest => ?_⟩
    change run _ _ ⟨image low.state.lay W.home.addr.toNat { t.cpu with eip := e }
      (W.around t.mem.bytes), l, []⟩ = _
    exact run_addressParts hl i.operand1
  rw [if_pos hk1]
  refine World.Reaches.follows (hyields.storeReg i.operand0.reg .dword) ?_ rfl pc ?_
  · rw [← written_reg W.m t hk0]
    exact tracks_written htracks
  · rw [ask_bind, writeOperand_granted W.contiguous h0 (.of_reg (by rw [hk0]; decide)),
      written_reg W.m t hk0]

/-! ## XCHG -/

/-- The memory operand of XCHG is its first. -/
theorem xchg_follows (haccepts : xchgAccepts i = true)
    (ha0 : i.operand0.kind = .mem → Addressed i.operand0) (hsecond : i.operand1.kind ≠ .mem) :
    W.Follows others low (xchgLower low i pc).1 pc (executeXchg (Cpu.guestMem W.m) i) t := by
  unfold xchgAccepts at haccepts
  obtain ⟨hrest, -⟩ := Bool.and_eq_true_iff.mp haccepts
  obtain ⟨hdst, hsrc⟩ := Bool.and_eq_true_iff.mp hrest
  obtain ⟨⟨w, -, h0⟩, h16⟩ := operandOk_place (Bool.and_eq_true_iff.mp hdst).2
  obtain ⟨⟨w', hsize, h1⟩, -⟩ := operandOk_place hsrc
  obtain rfl : w = w' := by
    rw [h0.2] at hsize
    exact Option.some_inj.mp (by rw [← Cpu.ofBytes_bytes w, hsize, Cpu.ofBytes_bytes])
  have hk1 : i.operand1.kind = .reg := h1.1.resolve_right hsecond
  have hr0 : Addressable i.operand0 := ⟨ha0, h16⟩
  have hread1 : Allows W.m t memRead i.operand1 w := .of_reg hsecond
  have hvalue1 : valueOfOperand W.m t i.operand1 w = regRead t.cpu.toCpuState i.operand1.reg w := by
    unfold valueOfOperand
    rw [hk1]
  unfold xchgLower
  dsimp only
  rw [widthOf_place h0, if_neg hsecond]
  by_cases hallows : Allows W.m t (memRead ||| memWrite) i.operand0 w
  · obtain ⟨hread0, hwrite0⟩ := allows_or.mp hallows
    have hrun : executeXchg (Cpu.guestMem W.m) i t = .ok () (written W.m
        (written W.m t i.operand0 w (valueOfOperand W.m t i.operand1 w)) i.operand1 w
        (valueOfOperand W.m t i.operand0 w)) := by
      unfold executeXchg
      rw [bind_ok (readOperand_granted W.contiguous h0.isValue hread0),
        bind_ok (readOperand_granted W.contiguous h1.isValue hread1),
        bind_ok (writeOperand_granted W.contiguous h0 hwrite0 _),
        writeOperand_granted W.contiguous h1 (.of_reg hsecond)]
    refine World.Reaches.follows ?_ (tracks_written (tracks_written htracks))
      ((written_nextEip ..).trans (written_nextEip ..)) pc hrun
    rw [written_reg W.m _ hk1, hvalue1]
    intro e l hl
    by_cases hk0 : i.operand0.kind = .mem
    · have hguard : low.state.guard i.operand0 pc w.bytes (memRead ||| memWrite) =
          low.state.guardPlace i.operand0 pc w (memRead ||| memWrite) := (if_pos hk0).symm
      have hload : low.state.loadMem w = low.state.loadPlace i.operand0 w := (if_pos hk0).symm
      have hcpu : W.pointed t i.operand0 l .cpu = W.home.addr := (W.pointed_cpu l).trans hl
      have hpoints := W.points_pointed (s := t) (o := i.operand0) l
      rw [if_pos hk0, hguard, hload]
      refine ⟨Function.update (Function.update (W.pointed t i.operand0 l) .a
        (valueOfOperand W.m t i.operand0 w)) .b (regRead t.cpu.toCpuState i.operand1.reg w),
        by simp [hcpu], fun rest => ?_⟩
      simp only [List.append_assoc, List.cons_append, List.nil_append]
      rw [W.run_guardPlace hl hr0 hallows, W.run_loadPlace hcpu h0 hpoints hallows, run_localSet,
        W.run_loadReg_at (by simp [hcpu]), run_localSet, W.run_storeReg_at (by simp [hcpu])]
      refine (W.run_storeMem (by simp [hpoints hk0]) (hallows hk0) .b).trans ?_
      rw [written, if_pos hk0]
      simp
      rfl
    · have hk0' : i.operand0.kind = .reg := h0.1.resolve_right hk0
      have hvalue0 : valueOfOperand W.m t i.operand0 w =
          regRead t.cpu.toCpuState i.operand0.reg w := by
        unfold valueOfOperand
        rw [hk0']
      rw [if_neg hk0, hvalue0]
      refine ⟨Function.update (Function.update l .a (regRead t.cpu.toCpuState i.operand0.reg w)) .b
        (regRead t.cpu.toCpuState i.operand1.reg w), by simp [hl], fun rest => ?_⟩
      simp only [List.append_assoc, List.cons_append, List.nil_append]
      rw [W.run_loadReg_at hl, run_localSet, W.run_loadReg_at (by simp [hl]), run_localSet,
        W.run_storeReg_at (by simp [hl]), W.run_storeReg_at (by simp [hl]), written_reg W.m t hk0']
      simp
  · have hk0 : i.operand0.kind = .mem := (Classical.not_imp.mp hallows).1
    have hrun : ∃ addr,
        executeXchg (Cpu.guestMem W.m) i t = .error (.fault .memoryFault addr) t := by
      unfold executeXchg
      by_cases hread0 : Allows W.m t memRead i.operand0 w
      · rw [bind_ok (readOperand_granted W.contiguous h0.isValue hread0),
          bind_ok (readOperand_granted W.contiguous h1.isValue hread1)]
        have hwrite0 : ¬ Allows W.m t memWrite i.operand0 w := fun hwrite =>
          hallows (allows_or.mpr ⟨hread0, hwrite⟩)
        exact ⟨_, bind_error (writeOperand_refused W.contiguous h0 hwrite0 _)⟩
      · exact ⟨_, bind_error (readOperand_refused W.contiguous h0.isValue hread0)⟩
    obtain ⟨addr, hrun⟩ := hrun
    refine World.Leaves.follows ?_ hrun
    rw [if_pos hk0]
    simp only [List.append_assoc]
    exact World.leaves_guard hflat (.inr (.inr rfl)) hr0 hk0 hallows pc _

/-! ## SETcc -/

theorem setcc_follows (haccepts : setccAccepts i = true)
    (ha0 : i.operand0.kind = .mem → Addressed i.operand0) (cc : Cond) :
    W.Follows others low (setccLower low cc i pc).1 pc
      (do let set ← askFlags (Cpu.cond cc)
          writeOperand (Cpu.guestMem W.m) i.operand0 (if set then 1 else 0)) t := by
  obtain ⟨⟨w, hw, h0⟩, h16⟩ := operandOk_place (Bool.and_eq_true_iff.mp haccepts).2
  obtain rfl : w = .byte := by
    cases w with
    | byte => rfl
    | word => cases hw
    | dword => cases hw
  have hr0 : Addressable i.operand0 := ⟨ha0, h16⟩
  have hrun : (do let set ← askFlags (Cpu.cond cc)
                  writeOperand (Cpu.guestMem W.m) i.operand0 (if set then 1 else 0)) t =
      writeOperand (Cpu.guestMem W.m) i.operand0 (truth (Cpu.cond cc t.cpu.flags)) t := rfl
  unfold setccLower
  dsimp only
  by_cases hwrite : Allows W.m t memWrite i.operand0 .byte
  · refine World.Reaches.follows ?_ (tracks_written htracks) (written_nextEip ..) pc
      (hrun.trans (writeOperand_granted W.contiguous h0 hwrite _))
    intro e l hl
    have hcpu : W.pointed t i.operand0 l .cpu = W.home.addr := (W.pointed_cpu l).trans hl
    have hpoints := W.points_pointed (s := t) (o := i.operand0) l
    refine ⟨Function.update (W.pointed t i.operand0 l) .r (truth (Cpu.cond cc t.cpu.flags)),
      by simp [hcpu], fun rest => ?_⟩
    simp only [List.append_assoc, List.cons_append, List.nil_append]
    rw [W.run_guardPlace hl hr0 hwrite]
    refine (W.run_condValue others (c := { t.cpu with eip := e }) rfl hcpu htracks cc).trans ?_
    rw [run_localSet]
    refine (W.run_storePlace (by simp [hcpu]) (fun hk => by simp [hpoints hk]) hwrite .r).trans ?_
    rw [Function.update_self]
  · refine World.Leaves.follows ?_ (hrun.trans (writeOperand_refused W.contiguous h0 hwrite _))
    simp only [List.append_assoc]
    exact World.leaves_guardPlace hflat (.inr (.inl rfl)) hr0 hwrite pc _

/-! ## The families without operands -/

omit hflat

theorem cdq_follows : W.Follows others low (cdqLower low).1 pc
    (do let v ← readReg eax 4
        writeReg edx 4 (if v &&& 0x80000000 ≠ 0 then uint32Max else 0)) t := by
  have hyields : W.Yields others t (WasmState.loadReg eax .dword ++ ([.const 31, .op .shrS] : Code))
      (if regRead t.cpu.toCpuState eax .dword &&& 0x80000000 ≠ 0 then uint32Max else 0) := by
    rw [← sshiftRight_sign]
    exact (World.yields_loadReg W others t eax .dword).append fun _ _ _ _ => rfl
  have h := hyields.follows htracks edx .dword pc (x := do
    let v ← readReg eax 4
    writeReg edx 4 (if v &&& 0x80000000 ≠ 0 then uint32Max else 0)) rfl
  simpa only [cdqLower, List.append_assoc, List.cons_append, List.nil_append] using h

theorem cwde_follows : W.Follows others low (cwdeLower low).1 pc
    (do let v ← readReg eax 2
        writeReg eax 4 (Cpu.signExtend v 2)) t := by
  have hyields : W.Yields others t (WasmState.loadReg eax .word ++
      ([.const 16, .op .shl, .const 16, .op .shrS] : Code))
      (Cpu.signExtend (regRead t.cpu.toCpuState eax .word) 2) := by
    rw [show (2 : Nat) = Width.word.bytes from rfl, ← signExtend_eq (by decide)]
    exact (World.yields_loadReg W others t eax .word).append fun _ _ _ _ => rfl
  have h := hyields.follows htracks eax .dword pc (x := do
    let v ← readReg eax 2
    writeReg eax 4 (Cpu.signExtend v 2)) rfl
  simpa only [cwdeLower, List.append_assoc, List.cons_append, List.nil_append] using h

theorem bswap_follows : W.Follows others low (bswapLower low i).1 pc
    (do let v ← readReg i.operand0.reg 4
        writeReg i.operand0.reg 4 (byteSwap v)) t := by
  have hyields : W.Yields others t (WasmState.loadReg i.operand0.reg .dword ++
      ([.const 8, .op .rotl, .const 0x00FF00FF, .op .and] : Code) ++
      WasmState.loadReg i.operand0.reg .dword ++
      ([.const 8, .op .rotr, .const 0xFF00FF00, .op .and, .op .or] : Code))
      (byteSwap (regRead t.cpu.toCpuState i.operand0.reg .dword)) := by
    intro e l hl
    rw [← byteSwap_eq]
    refine ⟨l, hl, fun rest => ?_⟩
    rw [List.append_assoc, List.append_assoc, List.append_assoc, W.run_loadReg_at hl]
    exact W.run_loadReg_at hl i.operand0.reg .dword
  have h := hyields.follows htracks i.operand0.reg .dword pc (x := do
    let v ← readReg i.operand0.reg 4
    writeReg i.operand0.reg 4 (byteSwap v)) rfl
  simpa only [bswapLower, List.append_assoc, List.cons_append, List.nil_append] using h

theorem storeDf_follows (df : Bool) :
    W.Follows others low (low.state.storeDf df) pc (setDf df) t := by
  have hreaches : W.Reaches others (low.state.storeDf df) t
      { t with cpu := { t.cpu with df := df } } := fun e l hl =>
    ⟨l, hl, fun _ => W.run_storeDf (c := { t.cpu with eip := e }) hl df⟩
  exact hreaches.follows htracks rfl pc rfl

theorem nop_follows : W.Follows others low [] pc (pure ()) t :=
  World.Reaches.follows (World.Reaches.nil W others t) htracks rfl pc rfl

end

end X86Port.Wasm
