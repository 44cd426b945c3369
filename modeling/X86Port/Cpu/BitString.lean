import X86Port.Cpu.ByteMemory
import Mathlib.Tactic.Ring

/-!
# Bit strings

BT, BTS, BTR and BTC with a bit offset in a register or an immediate.

* `bitUnit_eq`: the division with its correction is the floor.
* `executeDecoded_bitString`: the bit that is tested and changed, for the offset as it is read.
* `bitStringExact_of`, `not_bitStringExact`: when that offset is the signed one of the width.
-/

namespace X86Port.Cpu

open Exec

variable {μ : Type}

/-! ## Offsets -/

theorem bitUnit_eq (offset : U32) {w : Nat} (hw : 0 < w) :
    bitUnit offset w = (offset.toInt / (w * 8), offset.toInt % (w * 8)) := by
  have hpos : (0 : Int) < w * 8 := by omega
  have hsum := Int.mul_tdiv_add_tmod offset.toInt (w * 8)
  have hlower := Int.lt_tmod_of_pos offset.toInt hpos
  have hupper := Int.tmod_lt_of_pos offset.toInt hpos
  have hunique : ∀ q r : Int, r + (w * 8) * q = offset.toInt → 0 ≤ r → r < w * 8 →
      (q, r) = (offset.toInt / (w * 8), offset.toInt % (w * 8)) := by
    intro q r hn hlow hhigh
    obtain ⟨hq, hr⟩ := (Int.ediv_emod_unique hpos).mpr ⟨hn, hlow, hhigh⟩
    rw [hq, hr]
  unfold bitUnit
  dsimp only
  split_ifs with hneg
  · exact hunique _ _ (by rw [Int.mul_sub]; omega) (by omega) (by omega)
  · exact hunique _ _ (by omega) (by omega) (by omega)

/-- A bit of an operand is a bit of one of its bytes. -/
theorem bit_of_unit (n : Int) (w : Nat) (hw : w = 2 ∨ w = 4) :
    n / 8 = n / (w * 8) * w + n % (w * 8) / 8 ∧ n % 8 = n % (w * 8) % 8 ∧
      0 ≤ n % (w * 8) ∧ n % (w * 8) < w * 8 := by
  rcases hw with rfl | rfl <;> omega

/-! ## One bit -/

/-- What the operation leaves in the bit. -/
def BitOp.newBit (op : BitOp) (old : Bool) : Bool :=
  match op with
  | .test => old
  | .set => true
  | .reset => false
  | .comp => !old

theorem getLsbD_bitApply (op : BitOp) (v : U32) {r : Nat} (hr : r < 32) (e : U32) (j : Nat) :
    (bitApply op v r e).1.getLsbD j =
      if j = r then op.newBit (v.getLsbD r) else v.getLsbD j := by
  have hsel : (1#32 <<< r).getLsbD j = decide (j = r) := getLsbD_flag hr j
  unfold bitApply
  rw [Nat.mod_eq_of_lt hr]
  by_cases hj : j = r
  · subst hj
    cases op <;> simp [BitOp.newBit, hr]
  · cases op <;> simp [hsel, hj]
    exact fun h => BitVec.lt_of_getLsbD h

theorem bitApply_eflags (op : BitOp) (v : U32) {r : Nat} (hr : r < 32) (e : U32) :
    (bitApply op v r e).2 = setBit e flagCF (v.getLsbD r) := by
  unfold bitApply
  dsimp only
  rw [Nat.mod_eq_of_lt hr, decide_and_twoPow v hr]

/-- Only CF is replaced. -/
theorem eflags_setBit (f : Flags) (b : Bool) (j : Nat) :
    (eflags (flagsSetExplicit (setBit (eflags f) flagCF b))).getLsbD j =
      if j = 0 then b else (eflags f).getLsbD j := by
  have hword : ∀ i, (setBit (eflags f) flagCF b).getLsbD i =
      if i = 0 then b else (eflags f).getLsbD i := by
    intro i
    have hcf : flagCF.getLsbD i = decide (i = 0) := getLsbD_flag (by decide) i
    unfold setBit
    cases b with
    | true =>
      rw [if_pos rfl, BitVec.getLsbD_or, hcf]
      by_cases hi : i = 0 <;> simp [hi]
    | false =>
      rw [if_neg Bool.false_ne_true, BitVec.getLsbD_and, BitVec.getLsbD_not, hcf]
      by_cases hi : i = 0
      · simp [hi]
      · simpa [hi] using fun h => BitVec.lt_of_getLsbD h
  rw [eflags_explicit]
  simp only [hword]
  by_cases hj : j = 0
  · subst hj
    simp [flagBits, eflagsFixed]
  · rw [getLsbD_eflags f j, if_neg hj, eflags_pf, eflags_af, eflags_zf, eflags_sf, eflags_of]
    simp [flagBits, hj]

/-! ## What is to happen -/

variable {g : GuestMem μ}

/-- Bit `k` of the byte at `a` is tested, and changed as the operation says. Nothing else is
changed but EIP. -/
structure TestsBit (B : ByteMemory g) (op : BitOp) (a : U32) (k : Nat) (s t : Ctx μ) : Prop where
  cf : cfOf (eflags t.cpu.flags) = (B.byte s.mem a).getLsbD k
  otherFlags : ∀ j, j ≠ 0 → (eflags t.cpu.flags).getLsbD j = (eflags s.cpu.flags).getLsbD j
  bit : ∀ j, (B.byte t.mem a).getLsbD j =
    if j = k then op.newBit ((B.byte s.mem a).getLsbD k) else (B.byte s.mem a).getLsbD j
  otherBytes : ∀ b, b ≠ a → B.byte t.mem b = B.byte s.mem b
  registers : t.cpu.reg = s.cpu.reg ∧ t.cpu.df = s.cpu.df ∧ t.seg = s.seg

/-- The operand at an address can be accessed as the operation needs. -/
def CanAccess (g : GuestMem μ) (op : BitOp) (w : Width) (a : U32) (m : μ) : Prop :=
  (∃ v, g.read m a w.bytes = some v) ∧ (op ≠ .test → ∀ v, ∃ m', g.write m a w.bytes v = some m')

/-- What one access to the operand that holds a bit comes to. -/
theorem testsBit_of_access (B : ByteMemory g) {op : BitOp} {w : Width} {a : U32} {r : Nat}
    (hr : r < w.bits) {s t : Ctx μ} {v : U32} (hread : g.read s.mem a w.bytes = some v)
    (hmem : if op = .test then t.mem = s.mem
      else g.write s.mem a w.bytes (bitApply op v r (eflags s.cpu.flags)).1 = some t.mem)
    (hflags : t.cpu.flags = flagsSetExplicit (bitApply op v r (eflags s.cpu.flags)).2)
    (hregs : t.cpu.reg = s.cpu.reg ∧ t.cpu.df = s.cpu.df ∧ t.seg = s.seg) :
    TestsBit B op (a + BitVec.ofNat 32 (r / 8)) (r % 8) s t := by
  have hbits := w.bits_pos
  have hr32 : r < 32 := by omega
  have hin : r / 8 < w.bytes := by
    unfold Width.bits at hr
    omega
  have hold : ∀ j < 8, (B.byte s.mem (a + BitVec.ofNat 32 (r / 8))).getLsbD j =
      v.getLsbD (8 * (r / 8) + j) := by
    intro j hj
    rw [← B.read_byte hread _ hin, getLsbD_byteOfValue _ _ hj]
  have hbit : (B.byte s.mem (a + BitVec.ofNat 32 (r / 8))).getLsbD (r % 8) = v.getLsbD r := by
    rw [hold _ (Nat.mod_lt _ (by decide)), Nat.div_add_mod]
  rw [bitApply_eflags op v hr32] at hflags
  refine ⟨?_, fun j hj => ?_, fun j => ?_, fun b hb => ?_, hregs⟩
  · rw [hflags, cfOf, eflags_setBit, if_pos rfl, hbit]
  · rw [hflags, eflags_setBit, if_neg hj]
  · by_cases hj : j < 8
    · have hnew : (B.byte t.mem (a + BitVec.ofNat 32 (r / 8))).getLsbD j =
          (bitApply op v r (eflags s.cpu.flags)).1.getLsbD (8 * (r / 8) + j) := by
        split_ifs at hmem with hop
        · rw [hmem, hold j hj]
          subst hop
          rfl
        · have hsame : (a + BitVec.ofNat 32 (r / 8) - a).toNat = r / 8 := by bv_omega
          rw [B.write_byte hmem, hsame, if_pos hin, getLsbD_byteOfValue _ _ hj]
      rw [hnew, getLsbD_bitApply op v hr32, hbit, hold j hj]
      have hiff : 8 * (r / 8) + j = r ↔ j = r % 8 := by omega
      simp only [hiff]
    · rw [BitVec.getLsbD_of_ge _ _ (by omega), if_neg (by omega), BitVec.getLsbD_of_ge _ _ (by omega)]
  · split_ifs at hmem with hop
    · rw [hmem]
    · rw [B.write_byte hmem]
      split_ifs with hb'
      · have hne : (b - a).toNat ≠ r / 8 := fun heq => hb (by bv_omega)
        have hsame := B.read_byte hread _ hb'
        have hback : a + BitVec.ofNat 32 (b - a).toNat = b := by bv_omega
        rw [hback] at hsame
        rw [← hsame]
        refine BitVec.eq_of_getLsbD_eq fun j hj => ?_
        rw [getLsbD_byteOfValue _ _ hj, getLsbD_byteOfValue _ _ hj, getLsbD_bitApply op v hr32,
          if_neg (by omega)]
      · rfl

/-! ## The instruction -/

/-- A decoded BT, BTS, BTR or BTC on memory. -/
structure IsBitTest (i : Insn) (op : BitOp) (w : Width) : Prop where
  op : i.op = .bit op
  memory : i.operand0.kind = .mem
  size : i.operand0.size = w.bytes
  width : w ≠ .byte

section Execute

variable {other : OtherOp → Insn → Exec μ Unit} {i : Insn} {op : BitOp} {w : Width} {s : Ctx μ}

/-- The body on an operand in memory, whose address and bit are known. -/
theorem executeBit_memory (B : ByteMemory g) {offset : U32}
    (hoffset : readOperand g i.operand1 s = .ok offset s) {o : Operand} {r : Nat}
    (ho : (if i.operand1.kind ≠ .imm ∧ i.operand0.kind = .mem
      then bitStringOperand i.operand0 offset else i.operand0) = o)
    (hbit : (if i.operand1.kind ≠ .imm ∧ i.operand0.kind = .mem
      then (bitUnit offset i.operand0.size).2.toNat
      else (offset &&& BitVec.ofNat 32 (i.operand0.size * 8 - 1)).toNat) = r)
    (hr : r < w.bits) (hkind : o.kind = .mem) (hsize : o.size = w.bytes)
    (haccess : CanAccess g op w (effectiveAddress s.cpu o) s.mem) :
    ∃ t, executeBit g op i s = .ok () t ∧ t.nextEip = s.nextEip ∧
      TestsBit B op (effectiveAddress s.cpu o + BitVec.ofNat 32 (r / 8)) (r % 8) s t := by
  obtain ⟨⟨v, hv⟩, hwrite⟩ := haccess
  have hread : readOperand g o s = .ok v s := readOperand_mem g hkind (hsize ▸ hv)
  have hrun : ∀ {t : Ctx μ}, (if op = .test then pure ()
      else writeOperand g o (bitApply op v r (eflags s.cpu.flags)).1 : Exec μ Unit) s = .ok () t →
      executeBit g op i s =
        .ok () (t.withFlags (flagsSetExplicit (bitApply op v r (eflags s.cpu.flags)).2)) := by
    intro t ht
    unfold executeBit
    rw [askFlags_bind, bind_ok hoffset]
    simp only [ho, hbit]
    rw [bind_ok hread]
    exact bind_ok ht
  by_cases hop : op = .test
  · refine ⟨_, hrun (t := s) (by rw [if_pos hop, pure_apply]), rfl,
      testsBit_of_access B hr hv ?_ rfl ⟨rfl, rfl, rfl⟩⟩
    rw [if_pos hop]
    rfl
  · obtain ⟨m', hm'⟩ := hwrite hop (bitApply op v r (eflags s.cpu.flags)).1
    have hstore := writeOperand_mem g (s := s) hkind (hsize.symm ▸ hm')
    refine ⟨_, hrun (t := { s with mem := m' }) (by rw [if_neg hop]; exact hstore), rfl,
      testsBit_of_access B hr hv ?_ rfl ⟨rfl, rfl, rfl⟩⟩
    rw [if_neg hop]
    exact hm'

end Execute

/-! ## The string behind an address -/

/-- The operand that holds bit `n` of the string. -/
def holder (o : Operand) (w : Width) (n : Int) : Operand :=
  { o with disp := o.disp + BitVec.ofInt 32 (n / (w.bytes * 8) * w.bytes) }

/-- The byte that holds bit `n`. A 16-bit address wraps as every address of the operand does. -/
def bitByte (c : X86Cpu) (o : Operand) (w : Width) (n : Int) : U32 :=
  effectiveAddress c (holder o w n) + BitVec.ofInt 32 (n % (w.bytes * 8) / 8)

theorem effectiveAddress_disp (c : X86Cpu) (o : Operand) (d : U32) (h : o.addr16 = false) :
    effectiveAddress c { o with disp := o.disp + d } = effectiveAddress c o + d := by
  simp only [effectiveAddress, h, Bool.false_eq_true, if_false]
  split <;> ring

/-- With a 32-bit address it is the byte at the address, displaced by the eighth of the bit. -/
theorem bitByte_eq (c : X86Cpu) (o : Operand) {w : Width} (hw : w ≠ .byte) (n : Int)
    (h : o.addr16 = false) : bitByte c o w n = effectiveAddress c o + BitVec.ofInt 32 (n / 8) := by
  have hbytes : w.bytes = 2 ∨ w.bytes = 4 := by cases w <;> simp_all [Width.bytes]
  obtain ⟨hsum, -⟩ := bit_of_unit n w.bytes hbytes
  unfold bitByte holder
  rw [effectiveAddress_disp _ _ _ h, add_assoc, ← BitVec.ofInt_add, hsum]

/-- The offset of a bit string as a signed number of the operand width. -/
def bitOffset (i : Insn) (w : Width) (c : X86Cpu) : Int :=
  (operand w (c.reg i.operand1.reg)).toInt

/-- A register offset leads to its bit of the string at the operand, in every memory that gives
access to the operand which holds it. -/
def BitStringExact (i : Insn) (op : BitOp) (w : Width) (c : X86Cpu) : Prop :=
  ∀ {μ : Type} (g : GuestMem μ) (B : ByteMemory g) (other : OtherOp → Insn → Exec μ Unit)
    (s : Ctx μ), s.cpu = c →
    CanAccess g op w (effectiveAddress c (holder i.operand0 w (bitOffset i w c))) s.mem →
    ∃ t, executeDecoded g other i s = .ok () t ∧ t.cpu.eip = c.eip + i.length ∧
      TestsBit B op (bitByte c i.operand0 w (bitOffset i w c)) (bitOffset i w c % 8).toNat s t

/-- An immediate offset is taken modulo the operand and stays in it. -/
def BitImmediateExact (i : Insn) (op : BitOp) (w : Width) (c : X86Cpu) : Prop :=
  ∀ {μ : Type} (g : GuestMem μ) (B : ByteMemory g) (other : OtherOp → Insn → Exec μ Unit)
    (s : Ctx μ), s.cpu = c → CanAccess g op w (effectiveAddress c i.operand0) s.mem →
    ∃ t, executeDecoded g other i s = .ok () t ∧ t.cpu.eip = c.eip + i.length ∧
      TestsBit B op
        (effectiveAddress c i.operand0 + BitVec.ofNat 32 (i.operand1.imm.toNat % w.bits / 8))
        (i.operand1.imm.toNat % w.bits % 8) s t

section String

variable {i : Insn} {op : BitOp} {w : Width} {c : X86Cpu}

/-- The string that the code walks: the offset is the register word as it is read. -/
theorem executeDecoded_bitString (B : ByteMemory g) (other : OtherOp → Insn → Exec μ Unit)
    (hi : IsBitTest i op w) (hreg : i.operand1.kind = .reg) (hsize : i.operand1.size = w.bytes)
    {n : Int} {s : Ctx μ} (hn : (regRead s.cpu.toCpuState i.operand1.reg w).toInt = n)
    (haccess : CanAccess g op w (effectiveAddress s.cpu (holder i.operand0 w n)) s.mem) :
    ∃ t, executeDecoded g other i s = .ok () t ∧ t.cpu.eip = s.cpu.eip + i.length ∧
      TestsBit B op (bitByte s.cpu i.operand0 w n) (n % 8).toNat s t := by
  have hbytes : w.bytes = 2 ∨ w.bytes = 4 := by
    have := hi.width
    cases w <;> simp_all [Width.bytes]
  obtain ⟨-, hmod, hlow, hhigh⟩ := bit_of_unit n w.bytes hbytes
  have hunit := bitUnit_eq (regRead s.cpu.toCpuState i.operand1.reg w) (w := w.bytes) (by omega)
  rw [hn] at hunit
  have hstring : i.operand1.kind ≠ .imm ∧ i.operand0.kind = .mem :=
    ⟨by rw [hreg]; decide, hi.memory⟩
  obtain ⟨t, ht, hnext, hbit⟩ := @executeBit_memory μ g i op w
    { s with nextEip := s.cpu.eip + i.length } B _
    (readOperand_reg g hreg (hsize ▸ ofBytes_bytes w)) (holder i.operand0 w n)
    (n % (w.bytes * 8)).toNat
    (by
      have hdisp : (bitUnit (regRead s.cpu.toCpuState i.operand1.reg w) i.operand0.size).1 *
          i.operand0.size = n / (w.bytes * 8) * w.bytes := by rw [hi.size, hunit]
      rw [if_pos hstring]
      unfold bitStringOperand holder
      rw [hdisp])
    (by
      rw [if_pos hstring, hi.size, hunit])
    (by
      unfold Width.bits
      omega)
    hi.memory hi.size haccess
  have hexec : execute g other i { s with nextEip := s.cpu.eip + i.length } = .ok () t := by
    unfold execute
    rw [hi.op]
    exact ht
  have hbyte : BitVec.ofNat 32 ((n % (w.bytes * 8)).toNat / 8) =
      BitVec.ofInt 32 (n % (w.bytes * 8) / 8) := by
    rw [← BitVec.ofInt_natCast]
    congr 1
    omega
  have hplace : (n % (w.bytes * 8)).toNat % 8 = (n % 8).toNat := by omega
  rw [hbyte, hplace] at hbit
  refine ⟨_, executeDecoded_ok g other hexec, hnext, ?_⟩
  exact ⟨hbit.cf, hbit.otherFlags, hbit.bit, hbit.otherBytes, hbit.registers⟩

theorem toNat_and_bits (v : U32) (w : Width) :
    (v &&& BitVec.ofNat 32 (w.bytes * 8 - 1)).toNat = v.toNat % w.bits := by
  rw [BitVec.toNat_and]
  cases w with
  | byte => exact Nat.and_two_pow_sub_one_eq_mod _ 3
  | word => exact Nat.and_two_pow_sub_one_eq_mod _ 4
  | dword => exact Nat.and_two_pow_sub_one_eq_mod _ 5

theorem bitImmediateExact_of (hi : IsBitTest i op w) (himm : i.operand1.kind = .imm) :
    BitImmediateExact i op w c := by
  rintro μ g B other s rfl haccess
  have hstring : ¬ (i.operand1.kind ≠ .imm ∧ i.operand0.kind = .mem) := fun h => h.1 himm
  have hpos : 0 < w.bits := by
    have := w.bits_pos
    omega
  obtain ⟨t, ht, hnext, hbit⟩ := @executeBit_memory μ g i op w
    { s with nextEip := s.cpu.eip + i.length } B _ (readOperand_imm g himm) i.operand0
    (i.operand1.imm.toNat % w.bits) (if_neg hstring)
    (by rw [if_neg hstring, hi.size, toNat_and_bits]) (Nat.mod_lt _ hpos) hi.memory hi.size haccess
  have hexec : execute g other i { s with nextEip := s.cpu.eip + i.length } = .ok () t := by
    unfold execute
    rw [hi.op]
    exact ht
  refine ⟨_, executeDecoded_ok g other hexec, hnext, ?_⟩
  exact ⟨hbit.cf, hbit.otherFlags, hbit.bit, hbit.otherBytes, hbit.registers⟩

theorem bitStringExact_of (hi : IsBitTest i op w) (hreg : i.operand1.kind = .reg)
    (hsize : i.operand1.size = w.bytes)
    (h : ¬ (w = .word ∧ (operand w (c.reg i.operand1.reg)).msb = true)) :
    BitStringExact i op w c := by
  rintro μ g B other s rfl haccess
  refine executeDecoded_bitString B other hi hreg hsize ?_ haccess
  rw [toInt_regRead _ _ hi.width, if_neg h, add_zero]
  rfl

end String

/-! ## A 16-bit offset with its sign -/

section Negative

variable {i : Insn} {op : BitOp} {w : Width} {c : X86Cpu}

/-- The window of memory that holds one operand and nothing else. -/
def operandMem (a : U32) (w : Width) : Memory.Mem := ⟨0, a, BitVec.ofNat 32 w.bytes, none, none⟩

theorem granted_operandMem {a b access : U32} {w : Width} (h : a.toNat + w.bytes ≤ 2 ^ 32) :
    Granted (operandMem a w) access b w ↔ b = a := by
  have hsize : (BitVec.ofNat 32 w.bytes).toNat = w.bytes := by cases w <;> rfl
  have hpos := (Memory.bytes_ne_zero w).1
  constructor
  · intro hgranted
    have hfirst := (hgranted 0 (by omega)).1
    have hlast := (hgranted (w.bytes - 1) (by omega)).2.1
    change a.toNat ≤ _ at hfirst
    change _ < a.toNat + (BitVec.ofNat 32 w.bytes).toNat at hlast
    rw [hsize] at hlast
    exact BitVec.eq_of_toNat_eq (by omega)
  · rintro rfl i hi
    refine ⟨Nat.le_add_right _ _, ?_, by omega, nofun⟩
    change b.toNat + i < b.toNat + (BitVec.ofNat 32 w.bytes).toNat
    omega

/-- A memory that is read only as the operand at one address, which may run past the last one. -/
def onlyAt (a : U32) (w : Width) : GuestMem (U32 → U8) where
  read m b n := if b = a ∧ n = w.bytes then some (Memory.valueOf ((List.range n).map fun i =>
    m (b + BitVec.ofNat 32 i))) else none
  write m b n v := some fun c =>
    if (c - b).toNat < n then byteOfValue v (c - b).toNat else m c

def onlyAtMemory (a : U32) (w : Width) : ByteMemory (onlyAt a w) where
  byte m := m
  read_byte := by
    intro m b n v hrun i hi
    obtain ⟨⟨rfl, rfl⟩, hv⟩ := Option.ite_none_right_eq_some.mp hrun
    obtain rfl := Option.some.inj hv
    rw [byteOfValue_valueOf (by simpa using (Memory.bytes_ne_zero w).2) (by simpa using hi)]
    simp
  write_byte := by
    intro m b n v m' hrun c
    obtain rfl := Option.some.inj hrun
    rfl

/-- An operand 8192 bytes further is another one, with 16-bit addresses too. -/
theorem effectiveAddress_ne (c : X86Cpu) (o : Operand) (d : U32) :
    effectiveAddress c { o with disp := d + 8192 } ≠ effectiveAddress c { o with disp := d } := by
  have hwrap : ∀ x : U32, (x + 8192) &&& 0xFFFF ≠ x &&& 0xFFFF := by
    intro x h
    have hmod : ∀ y : U32, (y &&& 0xFFFF).toNat = y.toNat % 2 ^ 16 := fun y =>
      toNat_and_widthMask y .word
    have hnat := congrArg BitVec.toNat h
    rw [hmod, hmod] at hnat
    bv_omega
  have hplain : ∀ x : U32, x + 8192 ≠ x := by
    intro x
    bv_omega
  have hparts : ∀ (b i : U32), (if o.addr16 then (d + 8192 + b + i) &&& 0xFFFF
      else d + 8192 + b + i) ≠ if o.addr16 then (d + b + i) &&& 0xFFFF else d + b + i := by
    intro b i
    rw [show d + 8192 + b + i = d + b + i + 8192 by ring]
    split_ifs
    · exact hwrap _
    · exact hplain _
  unfold effectiveAddress
  dsimp only
  cases o.seg <;> simp only [ne_eq, add_left_inj] <;> exact hparts _ _

/-- The operand that is read for a 16-bit offset with its sign bit set. -/
theorem bitStringOperand_negative {c : X86Cpu} (hw : w = .word) (hsize : i.operand0.size = w.bytes)
    (hneg : (operand w (c.reg i.operand1.reg)).msb = true) :
    bitStringOperand i.operand0 (regRead c.toCpuState i.operand1.reg w) =
      { i.operand0 with disp := (holder i.operand0 w (bitOffset i w c)).disp + 8192 } := by
  subst hw
  have hread := toInt_regRead c.toCpuState i.operand1.reg (w := .word) (by decide)
  rw [if_pos ⟨rfl, hneg⟩] at hread
  change _ = bitOffset i .word c + 2 ^ 16 at hread
  have hunit := bitUnit_eq (regRead c.toCpuState i.operand1.reg .word) (w := 2) (by decide)
  have hdisp : (bitUnit (regRead c.toCpuState i.operand1.reg .word) i.operand0.size).1 *
      i.operand0.size = bitOffset i .word c / (2 * 8) * 2 + 8192 := by
    rw [hsize]
    change (bitUnit _ 2).1 * ((2 : Nat) : Int) = _
    rw [hunit, hread]
    dsimp only
    omega
  unfold bitStringOperand holder
  rw [hdisp, BitVec.ofInt_add, ← add_assoc]
  rfl

/-- Where the operand that the code reads is refused, the instruction faults. -/
theorem not_ok_of_refused {g : GuestMem μ} {other : OtherOp → Insn → Exec μ Unit} {s t : Ctx μ}
    (hi : IsBitTest i op w) (hreg : i.operand1.kind = .reg) (hsize : i.operand1.size = w.bytes)
    (hread : g.read s.mem (effectiveAddress s.cpu
      (bitStringOperand i.operand0 (regRead s.cpu.toCpuState i.operand1.reg w))) w.bytes = none) :
    executeDecoded g other i s ≠ .ok () t := by
  intro hrun
  have hoffset := readOperand_reg g (s := { s with nextEip := s.cpu.eip + i.length }) hreg
    (hsize ▸ ofBytes_bytes w)
  rcases executeDecoded_cases g other i s with ⟨t', hexec, -⟩ | ⟨e, t', -, herror⟩
  · unfold execute at hexec
    rw [hi.op] at hexec
    change executeBit g op i _ = _ at hexec
    unfold executeBit at hexec
    rw [askFlags_bind, bind_ok hoffset, if_pos ⟨by rw [hreg]; decide, hi.memory⟩] at hexec
    obtain ⟨v, t'', hvalue, -⟩ := bind_inv hexec
    unfold readOperand at hvalue
    rw [show (bitStringOperand _ _).kind = .mem from hi.memory] at hvalue
    change readMem g _ i.operand0.size _ = _ at hvalue
    unfold readMem at hvalue
    rw [hi.size, hread] at hvalue
    cases hvalue
  · rw [herror] at hrun
    cases hrun

/-- The operand of the signed offset is there and the one that is read is not: in a window of
memory that holds just the first, or, where that one runs past the last address, in a memory made
for it. -/
theorem not_bitStringExact (hi : IsBitTest i op w) (hreg : i.operand1.kind = .reg)
    (hsize : i.operand1.size = w.bytes)
    (h : w = .word ∧ (operand w (c.reg i.operand1.reg)).msb = true) :
    ¬ BitStringExact i op w c := by
  intro hexact
  set unit := effectiveAddress c (holder i.operand0 w (bitOffset i w c)) with hunit
  have helsewhere : effectiveAddress c
      (bitStringOperand i.operand0 (regRead c.toCpuState i.operand1.reg w)) ≠ unit := by
    rw [bitStringOperand_negative h.1 hi.size h.2, hunit]
    exact effectiveAddress_ne c i.operand0 _
  by_cases hfits : unit.toNat + w.bytes ≤ 2 ^ 32
  · let m := operandMem unit w
    let s : Ctx Memory.Host := ⟨c, fun _ => 0, ⟨fun _ => 0, false, []⟩, 0⟩
    have hgranted : ∀ access, Granted m access unit w := fun access =>
      (granted_operandMem hfits).mpr rfl
    have haccess : CanAccess (guestMem m) op w unit s.mem :=
      ⟨⟨_, (guestMem_read rfl).trans (if_pos (hgranted _))⟩,
        fun _ v => ⟨_, (guestMem_write rfl v).trans (if_pos (hgranted _))⟩⟩
    obtain ⟨t, hrun, -⟩ := hexact (guestMem m) (windowMemory m rfl) (fun _ _ => unsupported) s rfl
      haccess
    refine not_ok_of_refused hi hreg hsize ?_ hrun
    rw [guestMem_read rfl]
    exact if_neg fun hread => helsewhere ((granted_operandMem hfits).mp hread)
  · let s : Ctx (U32 → U8) := ⟨c, fun _ => 0, fun _ => 0, 0⟩
    have haccess : CanAccess (onlyAt unit w) op w unit s.mem :=
      ⟨⟨_, if_pos ⟨rfl, rfl⟩⟩, fun _ v => ⟨_, rfl⟩⟩
    obtain ⟨t, hrun, -⟩ := hexact (onlyAt unit w) (onlyAtMemory unit w) (fun _ _ => unsupported) s
      rfl haccess
    exact not_ok_of_refused hi hreg hsize (if_neg fun hread => helsewhere hread.1) hrun

end Negative

end X86Port.Cpu
