import X86Port.Cpu.BitString
import X86Port.Wasm.Backing

/-!
# The bit family

`x86p_wasm_bit_accepts` and `x86p_wasm_bit_lower` of `jit_wasm_bitops.c`. A 32-bit register offset
is floored with arithmetic shifts, and the bit is tested by `x86p_wasm_bit`.

* `bitLower_reaches`: on memory, the code ends in the interpreter's own state.
* `bitString_exact_iff`: when a register offset leads to its bit.
-/

namespace X86Port.Wasm

open Lib StackCode
open Memory (Mem Host memRead memWrite)
open Cpu (Width FlagKind Operand X86Cpu Ctx Insn BitOp OtherOp guestMem regRead widthMask bitApply
  effectiveAddress eflags flagsSetExplicit regRead_and_widthMask ByteMemory IsBitTest)
open Cpu.Exec

/-! ## The code -/

def bitAccepts (i : Insn) : Bool :=
  let dst := i.operand0
  let index := i.operand1
  i.operands == 2 && (dst.size == 2 || dst.size == 4) && operandOk dst dst.size true &&
    (index.kind == .imm || index.kind == .reg && operandOk index dst.size false &&
      (dst.size == 4 || dst.kind == .reg))

/-- The bytes from the named operand to the one that holds the bit. -/
def bitUnitOffset : Code :=
  [.localGet .b, .const 5, .op .shrS, .const 2, .op .shl, .op .add]

/-- The operand in its local, with the address local at it when it is in memory. -/
def loadBitOperand (s : WasmState) (op : BitOp) (i : Insn) (pc : U32) : Code :=
  let dst := i.operand0
  let w := widthOf dst
  if dst.kind = .mem then
    s.address dst ++ (if i.operand1.kind = .reg then bitUnitOffset else []) ++
      ([.localSet .addr] : Code) ++ s.guardAddr pc w.bytes (accessOf (op != .test)) ++
      s.loadMem w ++ ([.localSet .a] : Code)
  else
    pushOperand dst w ++ ([.localSet .a] : Code)

/-- The helper counts the bit inside the operand. -/
def callBitHelper (op : BitOp) (w : Width) : Code :=
  [WasmState.cpu, .localGet .a, .localGet .b, .const (BitVec.ofNat 32 (w.bytes * 8 - 1)), .op .and,
    .const (bitCode op), .call .bit, .localSet .r]

def bitLower (l : WasmLower) (op : BitOp) (i : Insn) (pc : U32) : Code × WasmLower :=
  let dst := i.operand0
  let w := widthOf dst
  (pushOperand i.operand1 w ++ [.localSet .b] ++ loadBitOperand l.state op i pc ++
    callBitHelper op w ++ (if op ≠ .test then l.state.storePlace dst w .r else []),
    l.flagsWritten (some .explicit) none)

/-! ## What the gate says -/

/-- An instruction on memory that is accepted. -/
structure Lowered (i : Insn) (w : Width) : Prop where
  size : i.operand0.size = w.bytes
  width : w ≠ .byte
  wide : i.operand0.addr16 = false
  index : i.operand1.kind = .imm ∨ i.operand1.kind = .reg ∧ i.operand1.size = 4 ∧ w = .dword

theorem lowered_of_accepts {i : Insn} (h : bitAccepts i = true) (hmem : i.operand0.kind = .mem) :
    ∃ w, Lowered i w := by
  simp only [bitAccepts, Bool.and_eq_true, Bool.or_eq_true, beq_iff_eq] at h
  obtain ⟨⟨⟨-, hsize⟩, hdst⟩, hindex⟩ := h
  have h16 : i.operand0.addr16 = false := (operandOk_place hdst).2 hmem
  have hreg : ∀ w : Width, i.operand0.size = w.bytes → i.operand1.kind = .imm ∨
      i.operand1.kind = .reg ∧ i.operand1.size = 4 ∧ w = .dword := by
    intro w hw
    rcases hindex with himm | ⟨⟨hreg, hok⟩, hwide⟩
    · exact .inl himm
    · have hfour : i.operand0.size = 4 := hwide.resolve_right (by rw [hmem]; decide)
      rw [hfour] at hok
      unfold operandOk at hok
      rw [hreg] at hok
      refine .inr ⟨hreg, eq_of_beq (Bool.and_eq_true_iff.mp hok).2, ?_⟩
      rw [hfour] at hw
      cases w <;> first | rfl | cases hw
  rcases hsize with hsize | hsize
  · exact ⟨.word, hsize, by decide, h16, hreg .word hsize⟩
  · exact ⟨.dword, hsize, by decide, h16, hreg .dword hsize⟩

/-! ## The unit of an offset -/

/-- The shifts floor the offset as the interpreter's division does. -/
theorem unitOffset_eq (b : U32) :
    (b.sshiftRight 5) <<< 2 = BitVec.ofInt 32 ((bitUnit b 4).1 * (4 : Nat)) := by
  rw [Cpu.bitUnit_eq b (by decide)]
  have hfloor : (b.sshiftRight 5).toInt = b.toInt / 32 := by
    rw [BitVec.toInt_sshiftRight, Int.shiftRight_eq_div_pow]
    rfl
  rw [BitVec.shiftLeft_eq_mul_twoPow, BitVec.ofInt_mul]
  change _ = BitVec.ofInt 32 (b.toInt / 32) * _
  rw [← hfloor, BitVec.ofInt_toInt]
  rfl

theorem unitBit_eq (b : U32) : (bitUnit b 4).2.toNat = (b &&& 31).toNat := by
  rw [Cpu.bitUnit_eq b (by decide)]
  change (b.toInt % 32).toNat = _
  have hmod : (b &&& 31).toNat = b.toNat % 32 := by
    rw [BitVec.toNat_and]
    exact Nat.and_two_pow_sub_one_eq_mod _ 5
  have := b.isLt
  rw [hmod, BitVec.toInt_eq_toNat_cond]
  split_ifs <;> omega

/-! ## The interpreter beside it -/

/-- The operand of the interpreter. -/
def bitOperand (i : Insn) (offset : U32) : Operand :=
  if i.operand1.kind ≠ .imm ∧ i.operand0.kind = .mem then bitStringOperand i.operand0 offset
  else i.operand0

/-- Its bit in that operand. -/
def bitIndex (i : Insn) (offset : U32) : Nat :=
  if i.operand1.kind ≠ .imm ∧ i.operand0.kind = .mem then (bitUnit offset i.operand0.size).2.toNat
  else (offset &&& BitVec.ofNat 32 (i.operand0.size * 8 - 1)).toNat

theorem bitOperand_mem {i : Insn} (hmem : i.operand0.kind = .mem) (offset : U32) :
    (bitOperand i offset).kind = .mem ∧ (bitOperand i offset).size = i.operand0.size := by
  unfold bitOperand
  split_ifs
  · exact ⟨hmem, rfl⟩
  · exact ⟨hmem, rfl⟩

/-- What the interpreter has done when it completes on memory. -/
theorem executeBit_inv {μ : Type} {g : Cpu.GuestMem μ} {op : BitOp} {i : Insn} {s t : Ctx μ}
    (hmem : i.operand0.kind = .mem) {offset : U32}
    (hoffset : readOperand g i.operand1 s = .ok offset s)
    (h : executeBit g op i s = .ok () t) :
    ∃ v, g.read s.mem (effectiveAddress s.cpu (bitOperand i offset)) i.operand0.size = some v ∧
      ∃ m, (if op = .test then m = s.mem
        else g.write s.mem (effectiveAddress s.cpu (bitOperand i offset)) i.operand0.size
          (bitApply op v (bitIndex i offset) (eflags s.cpu.flags)).1 = some m) ∧
        t = ({ s with mem := m }).withFlags
          (flagsSetExplicit (bitApply op v (bitIndex i offset) (eflags s.cpu.flags)).2) := by
  obtain ⟨hkind, hsize⟩ := bitOperand_mem hmem offset
  unfold executeBit at h
  rw [askFlags_bind, bind_ok hoffset] at h
  dsimp only at h
  change (readOperand g (bitOperand i offset) >>= fun v => _) s = _ at h
  obtain ⟨v, s', hread, h⟩ := bind_inv h
  obtain ⟨rfl, hv⟩ := readOperand_mem_inv g hkind hread
  rw [hsize] at hv
  refine ⟨v, hv, ?_⟩
  change ((if op = .test then pure () else writeOperand g (bitOperand i offset)
    (bitApply op v (bitIndex i offset) (eflags s'.cpu.flags)).1) >>= fun _ => _) s' = _ at h
  obtain ⟨_, u, hstore, h⟩ := bind_inv h
  by_cases hop : op = .test
  · rw [if_pos hop] at hstore
    cases hstore
    cases h
    exact ⟨s'.mem, by rw [if_pos hop], rfl⟩
  · rw [if_neg hop] at hstore
    obtain ⟨m, hm, rfl⟩ := writeOperand_mem_inv g hkind hstore
    rw [hsize] at hm
    cases h
    exact ⟨m, by rw [if_neg hop]; exact hm, rfl⟩

/-! ## The pieces -/

section Run

variable {st : WasmState} {others : Imports} {l : WasmLocal → U32} {stack : List U32} {rest : Code}

/-- The call of `x86p_wasm_bit` is the bit operation on the flags of the CPU. -/
theorem run_callBit {lay : CpuLayout} (home : CpuHome lay) (c : X86Cpu)
    (hl : l .cpu = home.addr) (op : BitOp) (value index : U32) :
    run (wasmEnv (withHelpers others)) (.call .bit :: rest)
        ⟨home.mem c, l, [bitCode op, index, value, l .cpu] ++ stack⟩ =
      run (wasmEnv (withHelpers others)) rest
        ⟨home.mem { c with
            flags := flagsSetExplicit (bitApply op value index.toNat (eflags c.flags)).2 }, l,
          (bitApply op value index.toNat (eflags c.flags)).1 :: stack⟩ := by
  refine @run_call _ _ _ _ (wasmEnv (withHelpers others)) _ l stack rest .bit
    [bitCode op, index, value, l .cpu]
    (some (bitApply op value index.toNat (eflags c.flags)).1) _ rfl ?_
  change callBit (l .cpu) value index (bitCode op) _ = _
  unfold callBit
  rw [bitOfCode_bitCode, Option.bind_some, hl, flagsAt_image, Option.bind_some, eflags_recorded]
  dsimp only
  rw [storeFlagsAt_home home c (by nofun), Option.map_some]

variable (B : Backing st (withHelpers others)) {s : Ctx Host} {e : U32} {i : Insn} {w : Width}
  {offset : U32} {op : BitOp} {pc v : U32}

theorem run_pushIndex (hl : l .cpu = B.home.addr) (hi : Lowered i w)
    (hoffset : readOperand (guestMem B.m) i.operand1 s = .ok offset s) :
    run (wasmEnv (withHelpers others)) (pushOperand i.operand1 w ++ rest) ⟨B.at_ s e, l, stack⟩ =
      run (wasmEnv (withHelpers others)) rest ⟨B.at_ s e, l, (offset &&& widthMask w) :: stack⟩ := by
  unfold pushOperand
  rcases hi.index with himm | ⟨hreg, hfour, rfl⟩
  · obtain rfl : i.operand1.imm = offset := by
      rw [readOperand_imm _ himm] at hoffset
      cases hoffset
      rfl
    rw [if_pos himm]
    rfl
  · obtain rfl : regRead s.cpu.toCpuState i.operand1.reg .dword = offset := by
      rw [readOperand_reg _ hreg (w := .dword) (by rw [hfour]; rfl)] at hoffset
      cases hoffset
      rfl
    rw [if_neg (by rw [hreg]; decide), regRead_and_widthMask]
    exact run_loadReg hl i.operand1.reg .dword

/-- The address local ends at the operand of the interpreter. -/
theorem run_bitAddress (hl : l .cpu = B.home.addr) (hi : Lowered i w)
    (hmem : i.operand0.kind = .mem) (haddressed : Addressed i.operand0)
    (hb : l .b = offset &&& widthMask w) :
    run (wasmEnv (withHelpers others)) (st.address i.operand0 ++
        ((if i.operand1.kind = .reg then bitUnitOffset else []) ++ .localSet .addr :: rest))
        ⟨B.at_ s e, l, stack⟩ =
      run (wasmEnv (withHelpers others)) rest ⟨B.at_ s e,
        Function.update l .addr (effectiveAddress s.cpu (bitOperand i offset)), stack⟩ := by
  have haddress := effectiveAddress_eq (c := s.cpu) haddressed hi.wide
  refine (run_address hl i.operand0).trans ?_
  rw [addressOf_eip, ← haddress]
  unfold bitOperand
  rcases hi.index with himm | ⟨hreg, hfour, rfl⟩
  · rw [if_neg (by rw [himm]; decide), if_neg fun h => h.1 himm]
    rfl
  · have hwhole : offset &&& widthMask .dword = offset := BitVec.and_allOnes
    have hsum : effectiveAddress s.cpu i.operand0 + (offset.sshiftRight 5) <<< 2 =
        effectiveAddress s.cpu (bitStringOperand i.operand0 offset) := by
      unfold bitStringOperand
      rw [Cpu.effectiveAddress_disp _ _ _ hi.wide, unitOffset_eq, hi.size]
      rfl
    rw [if_pos hreg, if_pos ⟨by rw [hreg]; decide, hmem⟩, ← hsum]
    rw [hwhole] at hb
    rw [← hb]
    rfl

/-- The bit that the helper is given is the bit of the interpreter. -/
theorem bitIndex_eq (hi : Lowered i w) (hmem : i.operand0.kind = .mem) :
    ((offset &&& widthMask w) &&& BitVec.ofNat 32 (w.bytes * 8 - 1)).toNat = bitIndex i offset := by
  have hmask : widthMask w &&& BitVec.ofNat 32 (w.bytes * 8 - 1) =
      BitVec.ofNat 32 (w.bytes * 8 - 1) := by cases w <;> rfl
  rw [BitVec.and_assoc, hmask]
  unfold bitIndex
  rcases hi.index with himm | ⟨hreg, hfour, rfl⟩
  · rw [if_neg fun h => h.1 himm, hi.size]
  · rw [if_pos ⟨by rw [hreg]; decide, hmem⟩, hi.size]
    exact (unitBit_eq offset).symm

theorem readIndex (hi : Lowered i w) (s : Ctx Host) :
    ∃ offset, readOperand (guestMem B.m) i.operand1 s = .ok offset s := by
  rcases hi.index with himm | ⟨hreg, hfour, -⟩
  · exact ⟨_, readOperand_imm _ himm⟩
  · exact ⟨_, readOperand_reg _ hreg (w := .dword) (by rw [hfour]; rfl)⟩

/-- The operand in its local, and the address local where the store will find it. -/
theorem run_loadBitOperand (hl : l .cpu = B.home.addr) (hi : Lowered i w)
    (hmem : i.operand0.kind = .mem) (haddressed : Addressed i.operand0)
    (hb : l .b = offset &&& widthMask w)
    (hread : (guestMem B.m).read s.mem (effectiveAddress s.cpu (bitOperand i offset)) w.bytes =
      some v)
    (hwrite : op ≠ .test → ∃ v' m, (guestMem B.m).write s.mem
      (effectiveAddress s.cpu (bitOperand i offset)) w.bytes v' = some m) :
    run (wasmEnv (withHelpers others)) (loadBitOperand st op i pc ++ rest) ⟨B.at_ s e, l, stack⟩ =
      run (wasmEnv (withHelpers others)) rest ⟨B.at_ s e, Function.update (Function.update l .addr
        (B.linear (effectiveAddress s.cpu (bitOperand i offset)))) .a v, stack⟩ := by
  have hw : widthOf i.operand0 = w := widthOf_place ⟨.inr hmem, hi.size⟩
  have haddr : Function.update l .addr (effectiveAddress s.cpu (bitOperand i offset)) .addr =
      effectiveAddress s.cpu (bitOperand i offset) := Function.update_self _ _ _
  have haccess : Accesses B.m s.mem (Function.update l .addr
      (effectiveAddress s.cpu (bitOperand i offset)) .addr) w (op != .test) := by
    rw [haddr]
    exact ⟨⟨v, hread⟩, fun hop => hwrite (bne_iff_ne.mp hop)⟩
  unfold loadBitOperand
  dsimp only
  rw [if_pos hmem, hw]
  simp only [List.append_assoc, List.cons_append, List.nil_append]
  rw [run_bitAddress B hl hi hmem haddressed hb]
  refine (B.run_guardAddr pc (by rw [Function.update_of_ne (by decide), hl]) haccess).trans ?_
  rw [haddr, Function.update_idem]
  refine (B.run_loadMem (Function.update_self _ _ _) hread).trans ?_
  rw [run_localSet]
  rfl

theorem bitLower_reaches {low : WasmLower} (hlow : low.state = st) {t : Ctx Host}
    (hi : Lowered i w) (hmem : i.operand0.kind = .mem) (haddressed : Addressed i.operand0)
    (h : executeBit (guestMem B.m) op i s = .ok () t) :
    B.Reaches (bitLower low op i pc).1 s t := by
  obtain ⟨offset, hoffset⟩ := readIndex B hi s
  obtain ⟨v, hread, m, hstore, rfl⟩ := executeBit_inv hmem hoffset h
  have hw : widthOf i.operand0 = w := widthOf_place ⟨.inr hmem, hi.size⟩
  have hindex : ((offset &&& widthMask w) &&& BitVec.ofNat 32 (w.bytes * 8 - 1)).toNat =
      bitIndex i offset := bitIndex_eq hi hmem
  rw [hi.size] at hread hstore
  intro e l hl
  set addr := effectiveAddress s.cpu (bitOperand i offset) with haddr
  set r := (bitApply op v (bitIndex i offset) (eflags s.cpu.flags)).1 with hr
  refine ⟨Function.update (Function.update (Function.update (Function.update l .b
    (offset &&& widthMask w)) .addr (B.linear addr)) .a v) .r r, by simp [hl], fun rest => ?_⟩
  unfold bitLower callBitHelper
  dsimp only
  rw [hw, hlow]
  simp only [List.append_assoc, List.cons_append, List.nil_append]
  rw [run_pushIndex B hl hi hoffset, run_localSet,
    run_loadBitOperand B (by simp [hl]) hi hmem haddressed (Function.update_self _ _ _) hread
      fun hop => ⟨_, m, by rwa [if_neg hop] at hstore⟩]
  set l' := Function.update (Function.update (Function.update l .b (offset &&& widthMask w)) .addr
    (B.linear addr)) .a v with hl'
  have hcpu : l' .cpu = B.home.addr := by simp [hl', hl]
  have hcall := @run_callBit others l' []
    (.localSet .r :: ((if op ≠ .test then st.storePlace i.operand0 w .r else []) ++ rest)) st.lay
    (B.homeWith s.mem.bytes) { s.cpu with eip := e } hcpu op v
    ((offset &&& widthMask w) &&& BitVec.ofNat 32 (w.bytes * 8 - 1))
  rw [hindex] at hcall
  have ha : l' .a = v := Function.update_self _ _ _
  have hb : l' .b = offset &&& widthMask w := by simp [hl']
  have hand : Op.and.apply (BitVec.ofNat 32 (w.bytes * 8 - 1) :: (offset &&& widthMask w) ::
      [v, l' .cpu]) = some (((offset &&& widthMask w) &&& BitVec.ofNat 32 (w.bytes * 8 - 1)) ::
        [v, l' .cpu]) := rfl
  rw [WasmState.cpu, run_localGet, run_localGet, run_localGet, run_const, ha, hb,
    run_op _ _ _ _ _ hand, run_const]
  refine hcall.trans ?_
  rw [run_localSet]
  by_cases hop : op = .test
  · rw [if_pos hop] at hstore
    rw [if_neg (not_not.mpr hop), hstore]
    rfl
  · rw [if_neg hop] at hstore
    rw [if_pos hop]
    unfold WasmState.storePlace
    rw [if_pos hmem]
    have hplace : Function.update l' .r r .addr = B.linear addr := by simp [hl']
    rw [← Function.update_self .r r l'] at hstore
    exact (B.run_storeMem .r hplace hstore).trans rfl

end Run

/-! ## Both engines -/

/-- Where the code is lowered and the interpreter completes, the code ends in the interpreter's
state: its flags, its registers and its memory. -/
def LoweringAgrees {st : WasmState} {others : Imports} (B : Backing st (withHelpers others))
    (op : BitOp) (i : Insn) : Prop :=
  bitAccepts i = true → Addressed i.operand0 → ∀ {low : WasmLower} (pc : U32)
    (other : OtherOp → Insn → Cpu.Exec Host Unit) {s t : Ctx Host}, low.state = st →
    executeDecoded (guestMem B.m) other i s = .ok () t → B.Reaches (bitLower low op i pc).1 s t

theorem loweringAgrees {st : WasmState} {others : Imports} (B : Backing st (withHelpers others))
    {op : BitOp} {i : Insn} {w : Width} (h : IsBitTest i op w) : LoweringAgrees B op i := by
  intro haccepts haddressed low pc other s t hlow hrun
  obtain ⟨w', hi⟩ := lowered_of_accepts haccepts h.memory
  rcases Cpu.Exec.executeDecoded_cases (guestMem B.m) other i s with
    ⟨u, hexec, hok⟩ | ⟨e, u, -, herror⟩
  · rw [hok] at hrun
    cases hrun
    unfold Cpu.Exec.execute at hexec
    rw [h.op] at hexec
    have hreaches : B.Reaches (bitLower low op i pc).1
        { s with nextEip := s.cpu.eip + i.length } u :=
      bitLower_reaches B hlow hi h.memory haddressed hexec
    exact hreaches
  · rw [herror] at hrun
    cases hrun

variable {i : Insn} {op : BitOp} {w : Width}

/-- An offset in a register leads to its bit of the string just where it is not a negative word,
and one in an immediate stays in its operand; on both memories the lowered code ends where the
interpreter does. -/
theorem bitString_exact_iff (h : IsBitTest i op w) :
    (∀ c : X86Cpu, i.operand1.kind = .reg → i.operand1.size = w.bytes →
      (Cpu.BitStringExact i op w c ↔
        ¬ (w = .word ∧ (Cpu.operand w (c.reg i.operand1.reg)).msb = true))) ∧
    (∀ (c : X86Cpu) (n : Int), i.operand0.addr16 = false →
      Cpu.bitByte c i.operand0 w n = effectiveAddress c i.operand0 + BitVec.ofInt 32 (n / 8)) ∧
    (∀ c : X86Cpu, i.operand1.kind = .imm → Cpu.BitImmediateExact i op w c) ∧
    (∀ {st : WasmState} (others : Imports) (W : World st),
      LoweringAgrees (W.backing (withHelpers others)) op i) ∧
    ∀ {st : WasmState} (others : Imports) (W : SparseWorld st),
      @LoweringAgrees st (withMemory W.m W.memAt others) (W.backing others) op i := by
  refine ⟨fun c hreg hsize => ⟨fun hexact hneg => ?_, Cpu.bitStringExact_of h hreg hsize⟩,
    fun c n h16 => Cpu.bitByte_eq c i.operand0 h.width n h16,
    fun c himm => Cpu.bitImmediateExact_of h himm, fun others W => loweringAgrees _ h,
    fun others W => loweringAgrees _ h⟩
  exact Cpu.not_bitStringExact h hreg hsize hneg hexact

/-- A bit test of `[ecx]` with the offset in EAX or AX. -/
def bitAtEcx (op : BitOp) (w : Width) : Insn where
  length := 3
  op := .bit op
  operands := 2
  operand0 := ⟨.ds, .mem, w.bytes, Cpu.eax, some Cpu.ecx, none, 1, 0, 0, false, false, false⟩
  operand1 := ⟨.ds, .reg, w.bytes, Cpu.eax, none, none, 1, 0, 0, false, false, false⟩
  operand2 := ⟨.ds, .none, 0, Cpu.eax, none, none, 1, 0, 0, false, false, false⟩
  addressWidth := 32

/-- EAX holds the offset minus one, at either width. -/
def minusOne : X86Cpu where
  reg := fun _ => 0xFFFFFFFF
  df := false
  flags := ⟨0, 0, 0, .none, .dword, 0⟩
  eip := 0
  fsBase := 0
  gsBase := 0

theorem isBitTest_atEcx (op : BitOp) (w : Width) (hw : w ≠ .byte) :
    IsBitTest (bitAtEcx op w) op w := ⟨rfl, rfl, rfl, hw⟩

/-- Two mappings, the second of them read-only. -/
def twoMappings : Memory.SparseMem where
  mappings := [⟨0x1000, 0x1000, 0x10000, 3, 0⟩, ⟨0x2000, 0x800, 0x20000, 1, 1⟩]
  capacity := 4
  nextAllocation := 2

def sparseMem : Mem := ⟨0, 0, 0, some twoMappings, none⟩

theorem sparseMem_wellFormed : sparseMem.WellFormed where
  sparse s hs := by
    cases hs
    exact ⟨by decide, by decide, by decide, by decide, by decide⟩
  hosted s hs := by
    cases hs
    decide

theorem sparseMem_high {a x : Nat} (h : sparseMem.place 0 a = some x) : 0x10000 ≤ x := by
  obtain ⟨mapping, hat, hx⟩ := Option.bind_eq_some_iff.mp h
  have hhigh : ∀ m ∈ twoMappings.mappings, 0x10000 ≤ m.host := by decide
  have hmem := hhigh mapping (Lib.RangeTable.at?_spec hat).1
  rw [Option.ite_none_right_eq_some] at hx
  obtain rfl := Option.some.inj hx.2
  exact hmem.trans (Nat.le_add_right _ _)

/-- A block over both mappings, with its CPU before their host bytes. -/
def sparseWorld : SparseWorld ⟨planFromMem sparseMem 0x40 0, flatLayout, fun _ => []⟩ where
  m := sparseMem
  home := flatHome
  memAt := 0x40
  permsAt := 0
  sparse := rfl
  wellFormed := sparseMem_wellFormed
  present := by decide
  plan := rfl
  apart _ _ h := .inr (Nat.le_trans (by decide) (sparseMem_high h))

/-- BTS [ecx], EAX with the offset minus one, and the code of it over two mappings. -/
theorem bitString_dword :
    Cpu.BitStringExact (bitAtEcx .set .dword) .set .dword minusOne ∧
      @LoweringAgrees _ (withMemory sparseMem 0x40 fun _ _ _ => none)
        (sparseWorld.backing fun _ _ _ => none) .set (bitAtEcx .set .dword) := by
  have h := bitString_exact_iff (isBitTest_atEcx .set .dword (by decide))
  exact ⟨(h.1 minusOne rfl rfl).mpr (by decide), h.2.2.2.2 _ sparseWorld⟩

/-- BT [ecx], AX reads 8190 bytes after the operand that ends before ECX. -/
theorem bitString_word : ¬ Cpu.BitStringExact (bitAtEcx .test .word) .test .word minusOne :=
  Cpu.not_bitStringExact (isBitTest_atEcx .test .word (by decide)) rfl rfl (by decide)

end X86Port.Wasm
