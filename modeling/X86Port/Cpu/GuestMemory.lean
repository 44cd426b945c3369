import X86Port.Cpu.SameFlags
import X86Port.Memory.Grants

/-!
# The interpreter over a contiguous memory

`x86p_mem_read` and `x86p_mem_write` as the memory of a step, and what an operand reads and
writes in it.

* `readOperand_granted`, `readOperand_refused`: a read gives the value, or a fault that changes
  nothing.
* `writeOperand_granted`, `writeOperand_refused`: the same for a write.
-/

namespace X86Port.Cpu

open Lib
open Memory (Mem Host memRead memWrite valueOf bytesOf)

/-- A read past the end of the permission table gives nothing here; no access of an operand's
width gets there. -/
def guestMem (m : Mem) : GuestMem Host where
  read h addr n := (Width.ofBytes n).bind fun w => (Memory.read m h addr w).join
  write h addr n v := (Width.ofBytes n).bind fun w => (Memory.write m h addr w v).join

/-! ## Accesses -/

/-- The value in memory at an address. -/
def loadAt (m : Mem) (h : Host) (addr : U32) (w : Width) : U32 :=
  valueOf (Bytes.load h.bytes (m.hostOf addr.toNat) w.bytes)

def storeAt (m : Mem) (h : Host) (addr : U32) (w : Width) (v : U32) : Host :=
  (h.notify addr (BitVec.ofNat 32 w.bytes)).store (m.hostOf addr.toNat) (bytesOf w.bytes v)

/-- Every byte of an access is granted. -/
def Granted (m : Mem) (access addr : U32) (w : Width) : Prop :=
  m.GrantsRange access addr.toNat w.bytes

instance (m : Mem) (access addr : U32) (w : Width) : Decidable (Granted m access addr w) :=
  inferInstanceAs (Decidable (m.GrantsRange _ _ _))

theorem and_eq_right_iff (v a : U32) :
    v &&& a = a ↔ ∀ i, a.getLsbD i = true → v.getLsbD i = true := by
  constructor
  · intro h i hi
    rw [← h, BitVec.getLsbD_and, Bool.and_eq_true] at hi
    exact hi.1
  · intro h
    refine BitVec.eq_of_getLsbD_eq fun i _ => ?_
    rw [BitVec.getLsbD_and]
    cases hi : a.getLsbD i with
    | false => exact Bool.and_false _
    | true => rw [h i hi, Bool.and_true]

theorem and_or_eq_right_iff (v a b : U32) :
    v &&& (a ||| b) = a ||| b ↔ v &&& a = a ∧ v &&& b = b := by
  simp only [and_eq_right_iff, BitVec.getLsbD_or, Bool.or_eq_true]
  exact ⟨fun h => ⟨fun i hi => h i (.inl hi), fun i hi => h i (.inr hi)⟩,
    fun h i hi => hi.elim (h.1 i) (h.2 i)⟩

/-- A page grants two accesses together exactly when it grants each. -/
theorem grants_or {size : U32} (t : Memory.PermTable size) (access access' : U32) (a : Nat) :
    t.grants (access ||| access') a = true ↔
      t.grants access a = true ∧ t.grants access' a = true := by
  unfold Memory.PermTable.grants Memory.pageRefuses
  simp only [Bool.not_or, Bool.and_eq_true, Bool.not_eq_true', decide_eq_false_iff_not, not_not,
    and_or_eq_right_iff]
  exact ⟨fun h => ⟨⟨h.1, h.2.1⟩, h.1, h.2.2⟩, fun h => ⟨h.1.1, h.1.2, h.2.2⟩⟩

theorem granted_or (m : Mem) (access access' addr : U32) (w : Width) :
    Granted m (access ||| access') addr w ↔ Granted m access addr w ∧ Granted m access' addr w := by
  unfold Granted Mem.GrantsRange Mem.Grants
  simp only [grants_or]
  constructor
  · intro h
    exact ⟨fun i hi => ⟨(h i hi).1, (h i hi).2.1, (h i hi).2.2.1, fun t ht =>
      ((h i hi).2.2.2 t ht).1⟩, fun i hi => ⟨(h i hi).1, (h i hi).2.1, (h i hi).2.2.1,
        fun t ht => ((h i hi).2.2.2 t ht).2⟩⟩
  · rintro ⟨h, h'⟩ i hi
    exact ⟨(h i hi).1, (h i hi).2.1, (h i hi).2.2.1,
      fun t ht => ⟨(h i hi).2.2.2 t ht, (h' i hi).2.2.2 t ht⟩⟩

theorem ofBytes_bytes (w : Width) : Width.ofBytes w.bytes = some w := by
  cases w <;> rfl

theorem bytes_of_ofBytes {n : Nat} {w : Width} (h : Width.ofBytes n = some w) : n = w.bytes := by
  unfold Width.ofBytes at h
  split at h <;> cases h <;> rfl

theorem bytes_of_contains {n : Nat} (h : [1, 2, 4].contains n = true) :
    ∃ w : Width, n = w.bytes := by
  have hcases : n = 1 ∨ n = 2 ∨ n = 4 := by simpa using h
  rcases hcases with rfl | rfl | rfl
  · exact ⟨.byte, rfl⟩
  · exact ⟨.word, rfl⟩
  · exact ⟨.dword, rfl⟩

section

variable {m : Mem} {h : Host} {addr : U32} {w : Width}

theorem guestMem_read (hs : m.sparse = none) :
    (guestMem m).read h addr w.bytes =
      if Granted m memRead addr w then some (loadAt m h addr w) else none := by
  change (Width.ofBytes w.bytes).bind _ = _
  rw [ofBytes_bytes, Option.bind_some, Memory.read_eq hs]
  rfl

theorem guestMem_write (hs : m.sparse = none) (v : U32) :
    (guestMem m).write h addr w.bytes v =
      if Granted m memWrite addr w then some (storeAt m h addr w v) else none := by
  change (Width.ofBytes w.bytes).bind _ = _
  rw [ofBytes_bytes, Option.bind_some, Memory.write_eq hs]
  rfl

end

/-! ## Registers as signed numbers -/

/-- A 16-bit register is read without its sign. -/
theorem toInt_regRead_word (c : CpuState) (r : Reg) :
    (regRead c r .word).toInt = (operand .word (c.reg r)).toNat := by
  have hlt : (operand .word (c.reg r)).toNat < 2 ^ 16 := (operand .word (c.reg r)).isLt
  have hword : (regRead c r .word).toNat = (operand .word (c.reg r)).toNat :=
    (toNat_operand _ .word).symm
  rw [BitVec.toInt_eq_toNat_of_lt (by omega), hword]

/-- What a register is worth as a signed number of its width, seen from what is read. -/
theorem toInt_regRead (c : CpuState) (r : Reg) {w : Width} (hw : w ≠ .byte) :
    (regRead c r w).toInt = (operand w (c.reg r)).toInt +
      if w = .word ∧ (operand w (c.reg r)).msb = true then 2 ^ 16 else 0 := by
  cases w with
  | byte => exact absurd rfl hw
  | dword =>
    rw [if_neg fun h => absurd h.1 (by decide), add_zero]
    exact congrArg BitVec.toInt (BitVec.setWidth_eq _).symm
  | word =>
    have hsigned := BitVec.toInt_eq_msb_cond (operand .word (c.reg r))
    rw [toInt_regRead_word, hsigned]
    by_cases hneg : (operand .word (c.reg r)).msb = true
    · rw [if_pos hneg, if_pos ⟨rfl, hneg⟩]
      exact (sub_add_cancel _ _).symm
    · rw [if_neg hneg, if_neg fun h => hneg h.2, add_zero]

namespace Exec

section Steps

variable {m : Mem} (hs : m.sparse = none) {s : Ctx Host} {addr : U32} {w : Width}

include hs

theorem readMem_granted (h : Granted m memRead addr w) :
    readMem (guestMem m) addr w.bytes s = .ok (loadAt m s.mem addr w) s := by
  unfold readMem
  rw [guestMem_read hs, if_pos h]

theorem readMem_refused (h : ¬ Granted m memRead addr w) :
    readMem (guestMem m) addr w.bytes s = .error (.fault .memoryFault addr) s := by
  unfold readMem
  rw [guestMem_read hs, if_neg h]

theorem writeMem_granted (h : Granted m memWrite addr w) (v : U32) :
    writeMem (guestMem m) addr w.bytes v s = .ok () { s with mem := storeAt m s.mem addr w v } := by
  unfold writeMem
  rw [guestMem_write hs, if_pos h]

theorem writeMem_refused (h : ¬ Granted m memWrite addr w) (v : U32) :
    writeMem (guestMem m) addr w.bytes v s = .error (.fault .memoryFault addr) s := by
  unfold writeMem
  rw [guestMem_write hs, if_neg h]

end Steps

/-! ## Operands -/

/-- A register or a place in memory, of a width. -/
def IsPlace (o : Operand) (w : Width) : Prop := (o.kind = .reg ∨ o.kind = .mem) ∧ o.size = w.bytes

/-- A place, or an immediate. -/
def IsValue (o : Operand) (w : Width) : Prop := o.kind = .imm ∨ IsPlace o w

theorem IsPlace.isValue {o : Operand} {w : Width} (h : IsPlace o w) : IsValue o w := .inr h

theorem IsValue.imm_or_reg {o : Operand} {w : Width} (h : IsValue o w) (hk : o.kind ≠ .mem) :
    o.kind = .imm ∨ o.kind = .reg :=
  h.imp_right fun hplace => hplace.1.resolve_right hk

/-- The access of an operand in memory is granted. -/
def Allows (m : Mem) (s : Ctx Host) (access : U32) (o : Operand) (w : Width) : Prop :=
  o.kind = .mem → Granted m access (effectiveAddress s.cpu o) w

instance (m : Mem) (s : Ctx Host) (access : U32) (o : Operand) (w : Width) :
    Decidable (Allows m s access o w) := inferInstanceAs (Decidable (_ → _))

def valueOfOperand (m : Mem) (s : Ctx Host) (o : Operand) (w : Width) : U32 :=
  match o.kind with
  | .imm => o.imm
  | .mem => loadAt m s.mem (effectiveAddress s.cpu o) w
  | _ => regRead s.cpu.toCpuState o.reg w

/-- The state behind a write to a place. -/
def written (m : Mem) (s : Ctx Host) (o : Operand) (w : Width) (v : U32) : Ctx Host :=
  if o.kind = .mem then { s with mem := storeAt m s.mem (effectiveAddress s.cpu o) w v }
  else s.withRegs (regWrite s.cpu.toCpuState o.reg w v)

section Operands

variable {m : Mem} (hs : m.sparse = none) {s : Ctx Host} {o : Operand} {w : Width}

include hs

theorem readOperand_granted (ho : IsValue o w) (h : Allows m s memRead o w) :
    readOperand (guestMem m) o s = .ok (valueOfOperand m s o w) s := by
  unfold valueOfOperand
  rcases ho with himm | ⟨hk | hk, hsize⟩
  · rw [readOperand_imm _ himm, himm]
  · rw [readOperand_reg _ hk (hsize ▸ ofBytes_bytes w), hk]
  · unfold readOperand
    rw [hk]
    dsimp only
    rw [ask_bind, hsize, readMem_granted hs (h hk)]

theorem readOperand_refused (ho : IsValue o w) (h : ¬ Allows m s memRead o w) :
    readOperand (guestMem m) o s = .error (.fault .memoryFault (effectiveAddress s.cpu o)) s := by
  obtain ⟨hk, hrefused⟩ := Classical.not_imp.mp h
  have hsize : o.size = w.bytes := by
    rcases ho with himm | ⟨-, hsize⟩
    · rw [hk] at himm
      cases himm
    · exact hsize
  unfold readOperand
  rw [hk]
  dsimp only
  rw [ask_bind, hsize, readMem_refused hs hrefused]

theorem writeOperand_granted (ho : IsPlace o w) (h : Allows m s memWrite o w) (v : U32) :
    writeOperand (guestMem m) o v s = .ok () (written m s o w v) := by
  unfold written
  obtain ⟨hk | hk, hsize⟩ := ho
  · rw [writeOperand_reg _ hk (hsize ▸ ofBytes_bytes w), if_neg (by rw [hk]; decide)]
  · rw [if_pos hk]
    unfold writeOperand
    rw [hk]
    dsimp only
    rw [ask_bind, hsize, writeMem_granted hs (h hk)]

theorem writeOperand_refused (ho : IsPlace o w) (h : ¬ Allows m s memWrite o w) (v : U32) :
    writeOperand (guestMem m) o v s =
      .error (.fault .memoryFault (effectiveAddress s.cpu o)) s := by
  obtain ⟨hk, hrefused⟩ := Classical.not_imp.mp h
  unfold writeOperand
  rw [hk]
  dsimp only
  rw [ask_bind, ho.2, writeMem_refused hs hrefused]

theorem readOperand_inv (ho : IsValue o w) {v : U32} {s' : Ctx Host}
    (h : readOperand (guestMem m) o s = .ok v s') :
    Allows m s memRead o w ∧ v = valueOfOperand m s o w ∧ s' = s := by
  by_cases hallows : Allows m s memRead o w
  · rw [readOperand_granted hs ho hallows] at h
    cases h
    exact ⟨hallows, rfl, rfl⟩
  · rw [readOperand_refused hs ho hallows] at h
    cases h

theorem writeOperand_inv (ho : IsPlace o w) {v : U32} {s' : Ctx Host}
    (h : writeOperand (guestMem m) o v s = .ok () s') :
    Allows m s memWrite o w ∧ s' = written m s o w v := by
  by_cases hallows : Allows m s memWrite o w
  · rw [writeOperand_granted hs ho hallows] at h
    cases h
    exact ⟨hallows, rfl⟩
  · rw [writeOperand_refused hs ho hallows] at h
    cases h

end Operands

theorem allows_or {m : Mem} {s : Ctx Host} {access access' : U32} {o : Operand} {w : Width} :
    Allows m s (access ||| access') o w ↔ Allows m s access o w ∧ Allows m s access' o w := by
  unfold Allows
  rw [← imp_and]
  exact imp_congr_right fun _ => granted_or m access access' _ w

theorem Allows.of_reg {m : Mem} {s : Ctx Host} {access : U32} {o : Operand} {w : Width}
    (h : o.kind ≠ .mem) : Allows m s access o w := fun hk => absurd hk h

/-- The flags decide neither an address nor what is granted. -/
theorem allows_withFlags {m : Mem} {s : Ctx Host} {access : U32} {o : Operand} {w : Width}
    (f : Flags) : Allows m (s.withFlags f) access o w ↔ Allows m s access o w := by
  unfold Allows
  rw [effectiveAddress_flags]

theorem valueOfOperand_withFlags (m : Mem) (s : Ctx Host) (f : Flags) (o : Operand) (w : Width) :
    valueOfOperand m (s.withFlags f) o w = valueOfOperand m s o w := by
  unfold valueOfOperand
  rw [effectiveAddress_flags, show (s.withFlags f).cpu.toCpuState =
    { s.cpu.toCpuState with flags := f } from rfl, regRead_flags]
  rfl

theorem written_withFlags (m : Mem) (s : Ctx Host) (f : Flags) (o : Operand) (w : Width) (v : U32) :
    written m (s.withFlags f) o w v = (written m s o w v).withFlags f := by
  unfold written
  split_ifs
  · rw [effectiveAddress_flags]
    rfl
  · rw [show (s.withFlags f).cpu.toCpuState = { s.cpu.toCpuState with flags := f } from rfl,
      regWrite_flags]
    rfl

theorem written_flags (m : Mem) (s : Ctx Host) (o : Operand) (w : Width) (v : U32) :
    (written m s o w v).cpu.flags = s.cpu.flags := by
  unfold written
  split_ifs
  · rfl
  · exact regWrite_same_flags _ _ _ _

theorem written_nextEip (m : Mem) (s : Ctx Host) (o : Operand) (w : Width) (v : U32) :
    (written m s o w v).nextEip = s.nextEip := by
  unfold written
  split_ifs <;> rfl

/-! ## What an instruction that completes has done -/

section Completed

variable {m : Mem} (hs : m.sparse = none) {s s' : Ctx Host} {i : Insn} {w : Width}

include hs

theorem executeAlu_inv {op : AluOp} {w1 : Width} (h0 : IsPlace i.operand0 w)
    (h1 : IsValue i.operand1 w1) (h : executeAlu (guestMem m) op i s = .ok () s') :
    Allows m s memRead i.operand0 w ∧ Allows m s memRead i.operand1 w1 ∧
      ∃ r f, alu op (valueOfOperand m s i.operand0 w) (valueOfOperand m s i.operand1 w1) w
          s.cpu.flags = some (r, f) ∧
        if op = .cmp ∨ op = .test then s' = s.withFlags f
        else Allows m s memWrite i.operand0 w ∧ s' = written m (s.withFlags f) i.operand0 w r := by
  unfold executeAlu at h
  obtain ⟨a, t, ha, h⟩ := bind_inv h
  obtain ⟨hread0, rfl, rfl⟩ := readOperand_inv hs h0.isValue ha
  obtain ⟨b, t, hb, h⟩ := bind_inv h
  obtain ⟨hread1, rfl, rfl⟩ := readOperand_inv hs h1 hb
  rw [h0.2, ofBytes_bytes, orFatal_bind_some] at h
  obtain ⟨r, t, hr, h⟩ := bind_inv h
  obtain ⟨f, hf, rfl⟩ := onFlags_inv hr
  refine ⟨hread0, hread1, r, f, hf, ?_⟩
  by_cases hdiscard : op = .cmp ∨ op = .test
  · rw [if_pos hdiscard] at h ⊢
    cases h
    rfl
  · rw [if_neg hdiscard] at h ⊢
    obtain ⟨hwrite, hs'⟩ := writeOperand_inv hs h0 h
    exact ⟨(allows_withFlags f).mp hwrite, hs'⟩

theorem executeAluUnary_inv {op : AluUnOp} (h0 : IsPlace i.operand0 w)
    (h : executeAluUnary (guestMem m) op i s = .ok () s') :
    Allows m s memRead i.operand0 w ∧ Allows m s memWrite i.operand0 w ∧
      ∃ r f, aluUnary op (valueOfOperand m s i.operand0 w) w s.cpu.flags = some (r, f) ∧
        s' = written m (s.withFlags f) i.operand0 w r := by
  unfold executeAluUnary at h
  obtain ⟨a, t, ha, h⟩ := bind_inv h
  obtain ⟨hread0, rfl, rfl⟩ := readOperand_inv hs h0.isValue ha
  rw [h0.2, ofBytes_bytes, orFatal_bind_some] at h
  obtain ⟨r, t, hr, h⟩ := bind_inv h
  obtain ⟨f, hf, rfl⟩ := onFlags_inv hr
  obtain ⟨hwrite, hs'⟩ := writeOperand_inv hs h0 h
  exact ⟨hread0, (allows_withFlags f).mp hwrite, r, f, hf, hs'⟩

end Completed

end Exec

end X86Port.Cpu
