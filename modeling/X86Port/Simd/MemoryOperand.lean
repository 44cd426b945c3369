import X86Port.Cpu.Exchange
import X86Port.Simd.Call

/-!
# Exact memory operands

Both executions of a SIMD instruction against the operand that the decoder names.

* `Loads`, `Stores`: one access of the bytes at the effective address, and nothing else in memory.
* `ExactOperand`: that access, the width that a block asks for, and the agreement of both paths.
* `addressOf_wide`: the address is the effective one unless it is of 16 bits.
* `exactOperand_iff`: the instructions that it holds of.
-/

namespace X86Port.Simd

open Cpu (Reg Operand OperandKind Width X86Cpu effectiveAddress)
open Lib Lib.Places
open Memory (Mem Host memRead memWrite)

/-! ## The property -/

def operandAddress (i : SimdInsn) (s : State) : U32 :=
  effectiveAddress s.cpu.toX86Cpu (memoryOperand i)

section

variable (E : Evaluators) (i : SimdInsn) (n : Nat)

/-- A read of exactly the operand's bytes. It faults just when one of them is refused. -/
def Loads : Prop :=
  ∃ rest : List U8 → SimdCpu → Except SimdStop SimdCpu,
    (∀ l c addr, rest l c ≠ .error (.fault addr)) ∧ ∀ m s, m.WellFormed → simdExecute E m i s =
      if Placed (m.place memRead) (operandAddress i s).toNat n then
        match rest (gather s.mem.bytes (m.place memRead) (operandAddress i s).toNat n) s.cpu with
        | .error e => .error e s
        | .ok cpu => .ok () { s with cpu }
      else .error (.fault (operandAddress i s)) s

/-- A write of exactly the operand's bytes. It faults just when one of them is refused. -/
def Stores : Prop :=
  ∃ out : SimdCpu → List U8, (∀ c, (out c).length = n) ∧ ∀ m s, m.WellFormed → simdExecute E m i s =
    if Placed (m.place memWrite) (operandAddress i s).toNat n then
      .ok () { s with mem := Host.put m s.mem (operandAddress i s) (out s.cpu) }
    else .error (.fault (operandAddress i s)) s

end

/-- The same CPU and the same bytes. -/
def SameEnd : EStateM.Result SimdStop State Unit → EStateM.Result SimdStop State Unit → Prop
  | .ok _ s, .ok _ t => s.cpu = t.cpu ∧ s.mem.bytes = t.mem.bytes
  | .error e s, .error e' t => e = e' ∧ s.cpu = t.cpu ∧ s.mem.bytes = t.mem.bytes
  | _, _ => False

/-- How `simd_call` ends where the execution ends so. -/
def callEnd : EStateM.Result SimdStop State Unit → EStateM.Result SimdStop State Unit
  | .ok a s => .ok a s
  | .error _ s => .error .fatal s

/-- The operand's bytes lie from `p` on, and they are readable and writable. -/
structure Reached (m : Mem) (i : SimdInsn) (n : Nat) (s : State) (p : Nat) : Prop where
  wellFormed : m.WellFormed
  run : Places.Run (m.place 0) (operandAddress i s).toNat n p
  readable : Placed (m.place memRead) (operandAddress i s).toNat n
  writable : Placed (m.place memWrite) (operandAddress i s).toNat n

/-- Exactly `n` bytes at the effective address, one fault rule, and two paths that agree. -/
structure ExactOperand (E : Evaluators) (i : SimdInsn) (n : Nat) : Prop where
  access : Loads E i n ∨ Stores E i n
  width : simdMemoryBytes i = n
  unchanged : ∀ m s addr t, m.WellFormed → simdExecute E m i s = .error (.fault addr) t → t = s
  host : ∀ m s p, Reached m i n s p → SameEnd (simdExecuteHost E p i s) (simdExecute E m i s)
  call : simdCallIsEmittable E.approx i → ∀ m s p, Reached m i n s p →
    SameEnd (simdCall E p (shapeWord i) (shapeImmediate i) s) (callEnd (simdExecute E m i s))

/-! ## Widths -/

section Widths

variable {i : SimdInsn} {f : Form}

def unpacksLow : SimdOp → Bool
  | .punpcklbw | .punpcklwd | .punpckldq => true
  | _ => false

/-- `x86p_simd_memory_bytes`, by what it looks at. -/
def tableBytes (op : SimdOp) (fromMemory : Bool) (w : Nat) : Nat :=
  match op with
  | .movq | .movlps | .movhps | .movsd => 8
  | .movd | .movss | .ldmxcsr | .stmxcsr => 4
  | .movaps => 16
  | .pinsrw => 2
  | .pf => 8
  | .prefetch | .fence | .emms | .maskmovdqu => 0
  | op => (genericWidths op fromMemory w).1

theorem regWidth_form (h : HasForm i f) : regWidth i = formWidth f := by
  have hops := h.operands
  have hthird : i.operand2.kind ≠ .xmm := by
    rw [h.third]
    split_ifs <;> decide
  unfold regWidth formWidth
  rw [h.first, h.second]
  congr 1
  refine propext ⟨?_, ?_⟩
  · rintro (⟨-, hx⟩ | ⟨-, hx⟩ | ⟨-, hx⟩)
    · exact .inl hx
    · exact .inr hx
    · exact absurd hx hthird
  · rintro (hx | hx)
    · exact .inl ⟨by split_ifs at hops <;> omega, hx⟩
    · rw [if_neg (by rw [hx]; decide)] at hops
      exact .inr (.inl ⟨by split_ifs at hops <;> omega, hx⟩)

theorem simdMemoryBytes_form (h : HasForm i f) :
    simdMemoryBytes i = tableBytes i.simd (f.second = .mem) (formWidth f) := by
  rw [← regWidth_form h, ← h.second]
  rfl

theorem form_size (op : SimdOp) : ∀ f ∈ memoryForms op,
    (tableBytes op (f.second = .mem) (formWidth f) = f.size ↔
      op ≠ .pextrw ∧ ¬ (unpacksLow op ∧ f.first = .mmx)) ∧
      (f.size = 0 ↔ op = .prefetch) ∧ f.size ≤ 16 := by
  cases op <;> decide

end Widths

/-! ## Addresses -/

theorem addressOf_wide (c : X86Cpu) {o : Operand} (h16 : o.addr16 = false)
    (hlow : o.indexLowByte = false) : addressOf c o = effectiveAddress c o := by
  unfold addressOf effectiveAddress
  rw [h16, hlow]
  cases o.base <;> cases o.index <;> cases o.seg <;> simp [Cpu.regRead]

/-! ## Both paths -/

section Paths

variable {E : Evaluators} {i : SimdInsn} {n : Nat} {m : Mem} {s : State} {o : Operand}

theorem guestPort_read (hm : m.WellFormed) (hn : n ≠ 0) (hle : n ≤ 16) :
    (guestPort m).read s o n =
      if Placed (m.place memRead) (addressOf s.cpu.toX86Cpu o).toNat n then
        .ok (gather s.mem.bytes (m.place memRead) (addressOf s.cpu.toX86Cpu o).toNat n)
      else .error (.fault (addressOf s.cpu.toX86Cpu o)) := by
  have hlen : (BitVec.ofNat 32 n).toNat = n := Nat.mod_eq_of_lt (by omega)
  have hne : BitVec.ofNat 32 n ≠ 0 := by
    intro h
    rw [h] at hlen
    exact hn hlen.symm
  have hread := @Memory.readBytes_placed m (addressOf s.cpu.toX86Cpu o) (BitVec.ofNat 32 n) hm
    s.mem (Memory.not_undefined_of_le (by omega) _)
  rw [hlen] at hread
  simp only [guestPort, hread, Option.join_some]
  by_cases hp : Placed (m.place memRead) (addressOf s.cpu.toX86Cpu o).toNat n
  · rw [if_pos ⟨hne, hp⟩, if_pos hp]
  · rw [if_neg fun h => hp h.2, if_neg hp]

theorem guestPort_write (hm : m.WellFormed) {l : List U8} (hl : l.length = n) (hn : n ≠ 0)
    (hle : n ≤ 16) : (guestPort m).write s o l =
      if Placed (m.place memWrite) (addressOf s.cpu.toX86Cpu o).toNat n then
        .ok (Host.put m s.mem (addressOf s.cpu.toX86Cpu o) l)
      else .error (.fault (addressOf s.cpu.toX86Cpu o)) := by
  have hne : l ≠ [] := by
    rw [← List.length_pos_iff]
    omega
  have hwrite := @Memory.writeBytes_placed m (addressOf s.cpu.toX86Cpu o) hm s.mem l (by omega)
    (Memory.not_undefined_of_le (by omega) _)
  rw [hl] at hwrite
  simp only [guestPort, hwrite, Option.join_some]
  by_cases hp : Placed (m.place memWrite) (addressOf s.cpu.toX86Cpu o).toNat n
  · rw [if_pos ⟨hne, hp⟩, if_pos hp]
  · rw [if_neg fun h => hp h.2, if_neg hp]

/-- A write of the interpreter and one through the pointer leave the same bytes. -/
theorem bytes_put {p : Nat} {l : List U8} {addr : U32} (hl : l.length = n)
    (hrun : Places.Run (m.place 0) addr.toNat n p) (hp : Placed (m.place memWrite) addr.toNat n)
    (h : Host) : (Host.put m h addr l).bytes = (h.store p l).bytes := by
  have hwrite := Cpu.run_access hrun hp
  rw [← hl] at hwrite
  exact scatter_run hwrite

theorem loads_of_readsOnce (hread : ReadsOnce E i n) (hn : n ≠ 0) (hle : n ≤ 16)
    (haddr : ∀ c : X86Cpu, addressOf c (memoryOperand i) = effectiveAddress c (memoryOperand i)) :
    Loads E i n := by
  obtain ⟨rest, hfault, hrun⟩ := hread
  refine ⟨rest, hfault, fun m s hm => ?_⟩
  unfold simdExecute
  rw [hrun, guestPort_read hm hn hle, show addressOf _ _ = operandAddress i s from haddr _]
  by_cases hp : Placed (m.place memRead) (operandAddress i s).toNat n
  · rewrite [if_pos hp, if_pos hp]
    rfl
  · rewrite [if_neg hp, if_neg hp]
    rfl

theorem stores_of_writesOnce (hwrite : WritesOnce E i n) (hn : n ≠ 0) (hle : n ≤ 16)
    (haddr : ∀ c : X86Cpu, addressOf c (memoryOperand i) = effectiveAddress c (memoryOperand i)) :
    Stores E i n := by
  obtain ⟨out, hlen, hrun⟩ := hwrite
  refine ⟨out, hlen, fun m s hm => ?_⟩
  unfold simdExecute
  rw [hrun, guestPort_write hm (hlen s.cpu) hn hle,
    show addressOf _ _ = operandAddress i s from haddr _]
  by_cases hp : Placed (m.place memWrite) (operandAddress i s).toNat n
  · rw [if_pos hp, if_pos hp]
  · rw [if_neg hp, if_neg hp]

theorem unchanged_of_access (h : Loads E i n ∨ Stores E i n) {addr : U32} {t : State}
    (hm : m.WellFormed) (hfault : simdExecute E m i s = .error (.fault addr) t) : t = s := by
  obtain ⟨rest, hrest, hrun⟩ | ⟨out, -, hrun⟩ := h
  · rw [hrun m s hm] at hfault
    split_ifs at hfault with hp
    · split at hfault
      · cases hfault
        rfl
      · cases hfault
    · cases hfault
      rfl
  · rw [hrun m s hm] at hfault
    split_ifs at hfault with hp
    cases hfault
    rfl

/-- Through the pointer the same bytes are read, and the same are written. -/
theorem host_of_readsOnce (hread : ReadsOnce E i n) (hmask : i.simd ≠ .maskmovdqu)
    (hwidth : simdMemoryBytes i = n) (hn : n ≠ 0) (hle : n ≤ 16) {p : Nat}
    (haddr : ∀ c : X86Cpu, addressOf c (memoryOperand i) = effectiveAddress c (memoryOperand i))
    (h : Reached m i n s p) : simdExecuteHost E p i s = simdExecute E m i s := by
  obtain ⟨rest, -, hrun⟩ := hread
  unfold simdExecuteHost simdExecute
  rw [if_neg hmask, hrun, hrun, guestPort_read h.wellFormed hn hle,
    show addressOf _ _ = operandAddress i s from haddr _, if_pos h.readable,
    gather_run (Cpu.run_access h.run h.readable)]
  simp only [hostPort]
  rw [if_neg (by omega)]

theorem host_of_writesOnce (hwrite : WritesOnce E i n) (hmask : i.simd ≠ .maskmovdqu)
    (hwidth : simdMemoryBytes i = n) (hn : n ≠ 0) (hle : n ≤ 16) {p : Nat}
    (haddr : ∀ c : X86Cpu, addressOf c (memoryOperand i) = effectiveAddress c (memoryOperand i))
    (h : Reached m i n s p) : SameEnd (simdExecuteHost E p i s) (simdExecute E m i s) := by
  obtain ⟨out, hlen, hrun⟩ := hwrite
  unfold simdExecuteHost simdExecute
  rw [if_neg hmask, hrun, hrun, guestPort_write h.wellFormed (hlen s.cpu) hn hle,
    show addressOf _ _ = operandAddress i s from haddr _, if_pos h.writable]
  simp only [hostPort]
  rw [if_neg (by rw [hlen]; omega)]
  exact ⟨rfl, (bytes_put (hlen s.cpu) h.run h.writable s.mem).symm⟩

theorem SameEnd.refl (r : EStateM.Result SimdStop State Unit) : SameEnd r r := by
  cases r
  · exact ⟨rfl, rfl⟩
  · exact ⟨rfl, rfl, rfl⟩

theorem SameEnd.callEnd {r r' : EStateM.Result SimdStop State Unit} (h : SameEnd r r') :
    SameEnd (callEnd r) (callEnd r') := by
  cases r <;> cases r'
  · exact h
  · exact h
  · exact h
  · exact ⟨rfl, h.2⟩

theorem call_of_host {f : Form} (hf : f ∈ memoryForms i.simd) (h : HasForm i f)
    (hextract : i.simd ≠ .pextrw) (hcall : simdCallIsEmittable E.approx i) {p : Nat}
    (hhost : SameEnd (simdExecuteHost E p i s) (simdExecute E m i s)) :
    SameEnd (simdCall E p (shapeWord i) (shapeImmediate i) s) (callEnd (simdExecute E m i s)) := by
  have hcalled : simdCall E p (shapeWord i) (shapeImmediate i) s =
      callEnd (simdExecuteHost E p i s) := by
    rw [simdCall_shapeWord h hf hextract hcall]
    cases simdExecuteHost E p i s <;> rfl
  rw [hcalled]
  exact hhost.callEnd

end Paths

/-! ## The instructions that it holds of -/

section Exact

variable {E : Evaluators} {i : SimdInsn} {f : Form}

/-- The host has the operation, the address is not of 16 bits, and the operation is not one whose
width the table has wrong. -/
structure KeepsWidth (E : Evaluators) (i : SimdInsn) : Prop where
  implemented : isRefused E.approx i.simd = false
  wide : i.simd = .prefetch ∨ (memoryOperand i).addr16 = false
  extract : i.simd ≠ .pextrw
  unpack : ¬ (unpacksLow i.simd ∧ i.operand0.kind = .mmx)

theorem not_maskmovdqu (hf : f ∈ memoryForms i.simd) : i.simd ≠ .maskmovdqu := by
  intro h
  rw [h] at hf
  cases hf

/-- A hint reaches no memory. -/
theorem exactOperand_hint (hf : f ∈ memoryForms i.simd) (h : HasForm i f)
    (hhint : i.simd = .prefetch) : ExactOperand E i 0 := by
  have hnothing : ∀ P w s, execute E P i w s = .ok () s := fun P w s => by
    unfold execute isRefused special
    rw [hhint]
    cases E.approx <;> rfl
  have hhost : ∀ m s p, simdExecuteHost E p i s = simdExecute E m i s := fun m s p => by
    unfold simdExecuteHost simdExecute
    rw [if_neg (by rw [hhint]; decide), hnothing, hnothing]
  have haccess : Loads E i 0 := by
    refine ⟨fun _ c => .ok c, fun _ _ _ => ok_ne_fault, fun m s _ => ?_⟩
    have hp : Placed (m.place memRead) (operandAddress i s).toNat 0 :=
      fun k hk => absurd hk (Nat.not_lt_zero k)
    rw [if_pos hp]
    exact hnothing _ _ s
  have hwidth : simdMemoryBytes i = 0 := by
    unfold simdMemoryBytes
    rw [hhint]
  have hsame : ∀ m s p, SameEnd (simdExecuteHost E p i s) (simdExecute E m i s) :=
    fun m s p => hhost m s p ▸ SameEnd.refl _
  exact ⟨.inl haccess, hwidth, fun m s addr t => unchanged_of_access (.inl haccess),
    fun m s p _ => hsame m s p,
    fun hcall m s p _ => call_of_host hf h (by rw [hhint]; decide) hcall (hsame m s p)⟩

theorem exactOperand_of (hf : f ∈ memoryForms i.simd) (h : HasForm i f) (hkeeps : KeepsWidth E i) :
    ExactOperand E i f.size := by
  obtain ⟨htable, hzero, hle⟩ := form_size i.simd f hf
  by_cases hhint : i.simd = .prefetch
  · rw [hzero.mpr hhint]
    exact exactOperand_hint hf h hhint
  have hmask := not_maskmovdqu hf
  have hn : f.size ≠ 0 := fun h0 => hhint (hzero.mp h0)
  have hwidth : simdMemoryBytes i = f.size := by
    rw [simdMemoryBytes_form h]
    exact htable.mpr ⟨hkeeps.extract, by rw [← h.first]; exact hkeeps.unpack⟩
  have haddr := fun c => addressOf_wide c (hkeeps.wide.resolve_left hhint) h.lowByte
  have honce := accesses_once hkeeps.implemented hf h hkeeps.extract hhint
  rw [hwidth] at honce
  have haccess : Loads E i f.size ∨ Stores E i f.size :=
    honce.imp (fun hr => loads_of_readsOnce hr hn hle haddr)
      fun hw => stores_of_writesOnce hw hn hle haddr
  have hhost : ∀ m s p, Reached m i f.size s p →
      SameEnd (simdExecuteHost E p i s) (simdExecute E m i s) := by
    intro m s p hreached
    obtain hr | hw := honce
    · rw [host_of_readsOnce hr hmask hwidth hn hle haddr hreached]
      exact SameEnd.refl _
    · exact host_of_writesOnce hw hmask hwidth hn hle haddr hreached
  exact ⟨haccess, hwidth, fun m s addr t => unchanged_of_access haccess, hhost,
    fun hcall m s p hreached => call_of_host hf h hkeeps.extract hcall (hhost m s p hreached)⟩

/-! ### What the exceptions break -/

/-- A window of just `n` bytes. -/
def windowAt (e : U32) (n : Nat) : Mem where
  host := 0
  lo := e
  size := BitVec.ofNat 32 n
  sparse := none
  perms := none

theorem windowAt_wellFormed (e : U32) (n : Nat) : (windowAt e n).WellFormed :=
  Memory.wellFormed_window rfl

theorem place_windowAt {e : U32} {n : Nat} (hn : n ≤ 16) (access : U32) (a : Nat) :
    (windowAt e n).place access a ≠ none ↔ e.toNat ≤ a ∧ a < e.toNat + n ∧ a < 2 ^ 32 := by
  have hsize : (windowAt e n).size.toNat = n := Nat.mod_eq_of_lt (by omega)
  have hgrants : (windowAt e n).Grants access a ↔ e.toNat ≤ a ∧ a < e.toNat + n ∧ a < 2 ^ 32 := by
    unfold Mem.Grants
    rw [hsize]
    exact ⟨fun h => ⟨h.1, h.2.1, h.2.2.1⟩, fun h => ⟨h.1, h.2.1, h.2.2, nofun⟩⟩
  rw [← hgrants]
  unfold Mem.place
  rw [show (windowAt e n).sparse = none from rfl]
  by_cases hg : (windowAt e n).Grants access a
  · simp [hg]
  · simp [hg]

theorem placed_windowAt {e : U32} {n : Nat} (hpos : n ≠ 0) (hn : n ≤ 16)
    (hend : e.toNat + n ≤ 2 ^ 32) (access : U32) (a : Nat) :
    Placed ((windowAt e n).place access) a n ↔ a = e.toNat := by
  refine ⟨fun hp => ?_, ?_⟩
  · have hfirst := (place_windowAt hn access _).mp (hp 0 (by omega))
    have hlast := (place_windowAt hn access _).mp (hp (n - 1) (by omega))
    omega
  · rintro rfl k hk
    exact (place_windowAt hn access _).mpr ⟨by omega, by omega, by omega⟩

/-- Every register holds `v`. -/
def everyRegister (v : U32) : SimdCpu where
  reg := fun _ => v
  df := false
  flags := ⟨0, 0, 0, .none, .dword, 0⟩
  eip := 0
  fsBase := 0
  gsBase := 0
  xmm := fun _ => 0
  x87 := X87.initialUnit
  mxcsr := 0

def holding (v : U32) : State := ⟨everyRegister v, ⟨fun _ => 0, false, []⟩⟩

theorem not_fault_of_access {n : Nat} {m : Mem} {s t : State} {addr : U32}
    (h : Loads E i n ∨ Stores E i n) (hm : m.WellFormed)
    (hp : ∀ access, Placed (m.place access) (operandAddress i s).toNat n) :
    simdExecute E m i s ≠ .error (.fault addr) t := by
  obtain ⟨rest, hfault, hrun⟩ | ⟨out, -, hrun⟩ := h
  · rw [hrun m s hm, if_pos (hp _)]
    split
    · rename_i e herror
      rintro ⟨⟩
      exact hfault _ _ _ herror
    · nofun
  · rw [hrun m s hm, if_pos (hp _)]
    nofun

theorem fault_of_access {n : Nat} {m : Mem} {s : State} (h : Loads E i n ∨ Stores E i n)
    (hm : m.WellFormed) (hp : ∀ access, ¬ Placed (m.place access) (operandAddress i s).toNat n) :
    simdExecute E m i s = .error (.fault (operandAddress i s)) s := by
  obtain ⟨rest, -, hrun⟩ | ⟨out, -, hrun⟩ := h
  · rw [hrun m s hm, if_neg (hp _)]
  · rw [hrun m s hm, if_neg (hp _)]

/-- An execution faults by the bytes at the address that it sums. -/
theorem fault_of_once {n : Nat} {m : Mem} {s : State} (h : ReadsOnce E i n ∨ WritesOnce E i n)
    (hm : m.WellFormed) (hn : n ≠ 0) (hle : n ≤ 16)
    (hp : ∀ access, ¬ Placed (m.place access)
      (addressOf s.cpu.toX86Cpu (memoryOperand i)).toNat n) :
    simdExecute E m i s = .error (.fault (addressOf s.cpu.toX86Cpu (memoryOperand i))) s := by
  unfold simdExecute
  obtain ⟨rest, -, hrun⟩ | ⟨out, hlen, hrun⟩ := h
  · rw [hrun, guestPort_read hm hn hle, if_neg (hp _)]
  · rw [hrun, guestPort_write hm (hlen s.cpu) hn hle, if_neg (hp _)]

theorem addressOf_everyRegister (v : U32) (o : Operand) :
    addressOf (everyRegister v).toX86Cpu o = o.disp + (if o.base = none then 0 else v) +
      if o.index = none then 0 else v * BitVec.ofNat 32 o.scale := by
  unfold addressOf
  cases o.base <;> cases o.index <;> cases o.seg <;> simp [everyRegister]

theorem effectiveAddress_narrow (v : U32) {o : Operand} (h16 : o.addr16 = true) :
    (effectiveAddress (everyRegister v).toX86Cpu o).toNat < 2 ^ 16 := by
  have hmask : ∀ x : U32, (x &&& 0xFFFF).toNat < 2 ^ 16 := fun x => by
    rw [BitVec.toNat_and]
    exact Nat.and_lt_two_pow _ (by decide)
  unfold effectiveAddress
  rw [h16]
  cases o.seg with
  | fs =>
    refine Eq.trans_lt (congrArg BitVec.toNat (BitVec.add_zero _)) (hmask _)
  | gs =>
    refine Eq.trans_lt (congrArg BitVec.toNat (BitVec.add_zero _)) (hmask _)
  | _ => exact hmask _

/-- Some registers put the whole sum beyond 16 bits. -/
theorem exists_wide_sum {o : Operand} (hreg : o.base ≠ none ∨ o.index ≠ none)
    (hscale : 1 ≤ o.scale ∧ o.scale ≤ 8) :
    ∃ v, 2 ^ 16 ≤ (addressOf (everyRegister v).toX86Cpu o).toNat := by
  by_cases hd : 2 ^ 16 ≤ o.disp.toNat
  · refine ⟨0, ?_⟩
    rw [addressOf_everyRegister]
    simpa using hd
  · refine ⟨0x10000, ?_⟩
    have hproduct : (0x10000 * BitVec.ofNat 32 o.scale : U32).toNat = 0x10000 * o.scale := by
      rw [BitVec.toNat_mul, BitVec.toNat_ofNat, show (0x10000 : U32).toNat = 0x10000 from rfl]
      omega
    rw [addressOf_everyRegister, BitVec.toNat_add, BitVec.toNat_add]
    obtain hbase | hindex := hreg
    · rw [if_neg hbase]
      split_ifs
      · simp
        omega
      · rw [hproduct]
        simp
        omega
    · rw [if_neg hindex, hproduct]
      split_ifs <;> simp <;> omega

/-- An operand of 16-bit registers is reached by the whole registers. -/
theorem wide_of_exact {n : Nat} (h : HasForm i f) (honce : ReadsOnce E i n ∨ WritesOnce E i n)
    (haccess : Loads E i n ∨ Stores E i n) (hn : n ≠ 0) (hle : n ≤ 16) :
    (memoryOperand i).addr16 = false := by
  by_contra h16
  rw [Bool.not_eq_false] at h16
  obtain ⟨v, hwide⟩ := exists_wide_sum (h.addr16 h16) h.scale
  have hnarrow : (operandAddress i (holding v)).toNat < 2 ^ 16 := effectiveAddress_narrow v h16
  have hplaced := fun access a => placed_windowAt (e := operandAddress i (holding v)) hn hle
    (by omega) access a
  have hwf := windowAt_wellFormed (operandAddress i (holding v)) n
  refine not_fault_of_access haccess hwf (fun access => (hplaced access _).mpr rfl)
    (fault_of_once honce hwf hn hle fun access hp => ?_)
  have heq : (addressOf (everyRegister v).toX86Cpu (memoryOperand i)).toNat = _ :=
    (hplaced access _).mp hp
  omega

/-- An operation that the host does not have is refused before its operand. -/
theorem implemented_of_exact {n : Nat} (haccess : Loads E i n ∨ Stores E i n) (hn : n ≠ 0) :
    isRefused E.approx i.simd = false := by
  by_contra hr
  rw [Bool.not_eq_false] at hr
  have hfault := fault_of_access (s := holding 0) haccess (windowAt_wellFormed 0 0)
    fun access hp => by
      have := (place_windowAt (by omega) access _).mp (hp 0 (by omega))
      simp at this
  unfold simdExecute execute at hfault
  rw [hr] at hfault
  cases hfault

/-- An instruction with a memory operand has it exact just when it keeps to its width. -/
theorem exactOperand_iff (hf : f ∈ memoryForms i.simd) (h : HasForm i f) :
    ExactOperand E i f.size ↔ KeepsWidth E i := by
  refine ⟨fun hexact => ?_, exactOperand_of hf h⟩
  obtain ⟨htable, hzero, hle⟩ := form_size i.simd f hf
  have hwidth := hexact.width
  rw [simdMemoryBytes_form h] at hwidth
  obtain ⟨hextract, hunpack⟩ := htable.mp hwidth
  rw [← h.first] at hunpack
  by_cases hhint : i.simd = .prefetch
  · refine ⟨?_, .inl hhint, hextract, hunpack⟩
    unfold isRefused
    rw [hhint]
    cases E.approx <;> rfl
  have hn : f.size ≠ 0 := fun h0 => hhint (hzero.mp h0)
  have hr := implemented_of_exact hexact.access hn
  have honce := accesses_once hr hf h hextract hhint
  rw [hexact.width] at honce
  exact ⟨hr, .inr (wide_of_exact h honce hexact.access hn hle), hextract, hunpack⟩

end Exact

/-! ### Instructions -/

/-- The operand `[eax]`. -/
def atEax (size : Nat) : Operand where
  seg := .ds
  kind := .mem
  size := size
  reg := 0
  base := some Cpu.eax
  index := none
  scale := 1
  disp := 0
  imm := 0
  addr16 := false
  indexLowByte := false
  relative := false

/-- An operation on the first register of a file and `[eax]`. -/
def fromEax (op : SimdOp) (kind : OperandKind) (size : Nat) : SimdInsn where
  simd := op
  pf := 0
  operands := 2
  operand0 := { atEax size with kind := kind, base := none }
  operand1 := atEax size
  operand2 := { atEax 0 with kind := .none, base := none }
  dest := some 0

/-- No lane module, on a host with the approximations. -/
def noLanes : Evaluators := ⟨fun _ _ _ _ _ => none, fun _ _ _ _ _ => none, fun _ _ _ => none, true⟩

theorem fromEax_form (op : SimdOp) {kind : OperandKind} {size : Nat}
    (hkind : kind = .mmx ∨ kind = .xmm) : HasForm (fromEax op kind size) (loads kind size) := by
  obtain rfl | rfl := hkind <;> exact ⟨rfl, rfl, rfl, rfl, nofun, fun _ => rfl, rfl, nofun,
    ⟨Nat.le_refl 1, Nat.le_add_right 1 7⟩, rfl⟩

theorem movq_exactOperand : ExactOperand noLanes (fromEax .movq .xmm 8) 8 := by
  have hform : loads .xmm 8 ∈ memoryForms .movq := by decide
  have hkeeps : KeepsWidth noLanes (fromEax .movq .xmm 8) := ⟨rfl, .inr rfl, by decide, by decide⟩
  exact (exactOperand_iff hform (fromEax_form .movq (.inr rfl))).mpr hkeeps

/-- PUNPCKLBW of an MMX register reads 8 bytes, and faults at an operand of 4 at the end of a
window. -/
theorem punpcklbw_overreads :
    loads .mmx 4 ∈ memoryForms .punpcklbw ∧
      HasForm (fromEax .punpcklbw .mmx 4) (loads .mmx 4) ∧
      (windowAt 0x1000 4).WellFormed ∧ Placed ((windowAt 0x1000 4).place memRead) 0x1000 4 ∧
      simdExecute noLanes (windowAt 0x1000 4) (fromEax .punpcklbw .mmx 4) (holding 0x1000) =
        .error (.fault 0x1000) (holding 0x1000) ∧
      ¬ ExactOperand noLanes (fromEax .punpcklbw .mmx 4) 4 := by
  have hplaced : Placed ((windowAt 0x1000 4).place memRead) 0x1000 4 :=
    (placed_windowAt (by decide) (by decide) (by decide) _ _).mpr rfl
  have hshort : ∀ access, ¬ Placed ((windowAt 0x1000 4).place access)
      (addressOf (everyRegister 0x1000).toX86Cpu (atEax 4)).toNat 8 := fun access hp => by
    have := (place_windowAt (by decide) access _).mp (hp 7 (by decide))
    revert this
    decide
  have honce := accesses_once (E := noLanes) rfl (f := loads .mmx 4) (by decide)
    (fromEax_form .punpcklbw (.inl rfl)) (by decide) (by decide)
  refine ⟨by decide, fromEax_form .punpcklbw (.inl rfl), windowAt_wellFormed _ _, hplaced, ?_,
    fun h => absurd h.width (by decide)⟩
  exact fault_of_once honce (windowAt_wellFormed _ _) (by decide) (by decide) hshort

end X86Port.Simd
