import X86Port.Lib.Runs
import X86Port.Simd.Execute

/-!
# Memory operands of SIMD instructions

The forms in which the decoder gives a SIMD instruction one memory operand, and what the
execution does in each: one read or one write of the operand, whatever the port.

* `memoryForms`: the operands of each operation, with the size of the one in memory.
* `ReadsOnce`, `WritesOnce`: an execution with one access.
* `accesses_once`: every form has one access, of the bytes that `simdMemoryBytes` names.
-/

namespace X86Port.Simd

open Cpu (Reg Operand OperandKind Width X86Cpu Flags regRead regWrite)
open Lib Lib.Lanes
open Lib.Runs (bind_of_ok bind_of_error)
open Memory (Mem Host)

/-! ## The forms -/

/-- The operands of an instruction with one of them in memory; a hint has size 0. -/
structure Form where
  first : OperandKind
  second : OperandKind
  imm : Bool
  size : Nat
  deriving DecidableEq

def loads (first : OperandKind) (size : Nat) : Form := ⟨first, .mem, false, size⟩

def loadsImm (first : OperandKind) (size : Nat) : Form := ⟨first, .mem, true, size⟩

def stores (second : OperandKind) (size : Nat) : Form := ⟨.mem, second, false, size⟩

def alone (size : Nat) : Form := ⟨.mem, .none, false, size⟩

/-- The forms that the decoder accepts. -/
def memoryForms : SimdOp → List Form
  | .movq => [loads .mmx 8, stores .mmx 8, loads .xmm 8, stores .xmm 8]
  | .movd => [loads .mmx 4, stores .mmx 4, loads .xmm 4, stores .xmm 4]
  | .movaps => [loads .xmm 16, stores .xmm 16]
  | .movss => [loads .xmm 4, stores .xmm 4]
  | .movsd | .movlps | .movhps => [loads .xmm 8, stores .xmm 8]
  | .movhlps | .movlhps | .movmskps | .movmskpd | .maskmovdqu | .pmovmskb => []
  | .pslldq | .psrldq | .emms | .fence => []
  | .punpcklbw | .punpcklwd | .punpckldq => [loads .mmx 4, loads .xmm 16]
  | .pextrw => [⟨.mem, .xmm, true, 2⟩]
  | .pinsrw => [loadsImm .mmx 2, loadsImm .xmm 2]
  | .pshufw => [loadsImm .mmx 8]
  | .pshufd | .pshuflw | .pshufhw | .cmpps | .shufps | .cmppd | .shufpd => [loadsImm .xmm 16]
  | .cmpss => [loadsImm .xmm 4]
  | .cmpsd => [loadsImm .xmm 8]
  | .punpcklqdq | .punpckhqdq => [loads .xmm 16]
  | .addss | .subss | .mulss | .divss | .minss | .maxss | .sqrtss | .rcpss | .rsqrtss | .comiss
  | .ucomiss | .cvtsi2ss | .cvtsi2sd | .cvtss2sd => [loads .xmm 4]
  | .addsd | .subsd | .mulsd | .divsd | .minsd | .maxsd | .sqrtsd | .comisd | .ucomisd
  | .cvtsd2ss | .cvtps2pd | .cvtdq2pd | .cvtpi2ps | .cvtpi2pd => [loads .xmm 8]
  | .cvtss2si | .cvttss2si => [loads .reg 4]
  | .cvtsd2si | .cvttsd2si => [loads .reg 8]
  | .cvtps2pi | .cvttps2pi => [loads .mmx 8]
  | .cvtpd2pi | .cvttpd2pi => [loads .mmx 16]
  | .addps | .subps | .mulps | .divps | .minps | .maxps | .sqrtps | .rcpps | .rsqrtps | .andps
  | .andnps | .orps | .xorps | .unpcklps | .unpckhps | .addpd | .subpd | .mulpd | .divpd | .minpd
  | .maxpd | .sqrtpd | .cvtdq2ps | .cvtps2dq | .cvttps2dq | .cvtpd2ps | .cvtpd2dq
  | .cvttpd2dq => [loads .xmm 16]
  | .pf => [loads .mmx 8]
  | .ldmxcsr | .stmxcsr => [alone 4]
  | .prefetch => [alone 0]
  | _ => [loads .mmx 8, loads .xmm 16]

/-- The operand in memory. -/
def memoryOperand (i : SimdInsn) : Operand :=
  if i.operand0.kind = .mem then i.operand0 else i.operand1

/-- A decoded instruction of a form. An address is of 16 bits by a register in it. -/
structure HasForm (i : SimdInsn) (f : Form) : Prop where
  operands : i.operands = if f.second = .none then 1 else if f.imm then 3 else 2
  first : i.operand0.kind = f.first
  second : i.operand1.kind = f.second
  third : i.operand2.kind = if f.imm then .imm else .none
  register : i.operand0.kind = .reg → i.operand0.size = 4
  size : i.simd ≠ .prefetch → (memoryOperand i).size = f.size
  dest : i.dest = if f.first = .mem then none else some i.operand0.reg
  addr16 : (memoryOperand i).addr16 →
    (memoryOperand i).base ≠ none ∨ (memoryOperand i).index ≠ none
  scale : 1 ≤ (memoryOperand i).scale ∧ (memoryOperand i).scale ≤ 8
  lowByte : (memoryOperand i).indexLowByte = false

/-- The register operand is an XMM register. -/
def formWidth (f : Form) : Nat := if f.first = .xmm ∨ f.second = .xmm then 16 else 8

/-! ## Runs -/

section Runs

variable {α β : Type} {s t : State} {P : Port} {o : Operand} {n : Nat} {v : Vec}

theorem getCpu_bind (k : SimdCpu → Run β) : (getCpu >>= k) s = k s.cpu s := rfl

/-- A register that holds a vector operand. -/
def IsRegister (o : Operand) : Prop :=
  o.kind = .mmx ∨ o.kind = .xmm ∨ o.kind = .reg ∧ o.size = 4

/-- What a register operand reads as. -/
def regVec (o : Operand) (bytes : Nat) (c : SimdCpu) : Vec :=
  match o.kind with
  | .mmx => ⟨(mmxRead c.x87 o.reg).setWidth 128, bytes⟩
  | .xmm => ⟨c.xmm o.reg, bytes⟩
  | _ => ⟨(regRead c.toCpuState o.reg .dword).setWidth 128, bytes⟩

/-- A register operand that is written. -/
def putVec (o : Operand) (bytes : Nat) (v : Vec) (c : SimdCpu) : SimdCpu :=
  match o.kind with
  | .mmx => { c with x87 := mmxWrite c.x87 o.reg (v.u64 0) }
  | .xmm => { c with
      xmm := Function.update c.xmm o.reg
        (setBits (c.xmm o.reg) 0 (v.b.extractLsb' 0 (8 * bytes))) }
  | _ => { c with toX86Cpu := { c.toX86Cpu with
      toCpuState := regWrite c.toCpuState o.reg .dword (v.u32 0) } }

theorem readVec_register (ho : IsRegister o) :
    readVec P o n s = .ok (regVec o n s.cpu) s := by
  unfold readVec regVec
  rw [getCpu_bind]
  rcases ho with hk | hk | ⟨hk, hsize⟩
  · simp only [hk]
    rfl
  · simp only [hk]
    rfl
  · simp only [hk, hsize]
    rfl

theorem writeVec_register (ho : IsRegister o) :
    writeVec P o n v s = .ok () { s with cpu := putVec o n v s.cpu } := by
  unfold writeVec putVec
  rw [getCpu_bind]
  rcases ho with hk | hk | ⟨hk, hsize⟩
  · simp only [hk]
    rfl
  · simp only [hk]
    rfl
  · simp only [hk, hsize]
    rfl

theorem readVec_mem (hk : o.kind = .mem) : readVec P o n s =
    match P.read s o n with
    | .ok l => .ok (.ofBytes l n) s
    | .error e => .error e s := by
  unfold readVec
  rw [getCpu_bind]
  simp only [hk]
  cases P.read s o n <;> rfl

theorem writeVec_mem (hk : o.kind = .mem) : writeVec P o n v s =
    match P.write s o (v.toBytes n) with
    | .ok mem => .ok () { s with mem }
    | .error e => .error e s := by
  unfold writeVec
  rw [getCpu_bind]
  simp only [hk]
  cases P.write s o (v.toBytes n) <;> rfl

theorem length_toBytes (v : Vec) (n : Nat) : (v.toBytes n).length = n := by
  simp [Vec.toBytes]

/-- A read of the memory operand, and what follows it. -/
theorem readVec_mem_bind (hk : o.kind = .mem) (k : Vec → Run β) : (readVec P o n >>= k) s =
    match P.read s o n with
    | .ok l => k (.ofBytes l n) s
    | .error e => .error e s := by
  have hread := readVec_mem (P := P) (n := n) (s := s) hk
  cases h : P.read s o n with
  | ok l =>
    rw [h] at hread
    exact bind_of_ok hread
  | error e =>
    rw [h] at hread
    exact bind_of_error hread

end Runs

/-! ## One access -/

section Once

variable (E : Evaluators) (i : SimdInsn)

/-- One read of `n` bytes of the memory operand; the rest is a matter of the CPU. -/
def ReadsOnce (n : Nat) : Prop :=
  ∃ rest : List U8 → SimdCpu → Except SimdStop SimdCpu,
    (∀ l c addr, rest l c ≠ .error (.fault addr)) ∧ ∀ P w s, execute E P i w s =
      match P.read s (memoryOperand i) n with
      | .error e => .error e s
      | .ok l =>
        match rest l s.cpu with
        | .error e => .error e s
        | .ok cpu => .ok () { s with cpu }

/-- One write of `n` bytes to the memory operand, which only depend on the CPU. -/
def WritesOnce (n : Nat) : Prop :=
  ∃ out : SimdCpu → List U8, (∀ c, (out c).length = n) ∧ ∀ P w s, execute E P i w s =
    match P.write s (memoryOperand i) (out s.cpu) with
    | .error e => .error e s
    | .ok mem => .ok () { s with mem }

variable {E i} {n : Nat}

theorem memoryOperand_first (hk : i.operand0.kind = .mem) : memoryOperand i = i.operand0 :=
  if_pos hk

theorem memoryOperand_second (hk : i.operand0.kind ≠ .mem) : memoryOperand i = i.operand1 :=
  if_neg hk

theorem execute_special (hr : isRefused E.approx i.simd = false)
    (run : Port → Run Unit) (hs : ∀ P w, special E P i w = some (run P)) (P : Port)
    (w : State → U32 → U8 → Except SimdStop Host) : execute E P i w = run P := by
  unfold execute
  rw [hr, hs]
  rfl

theorem execute_generic (hr : isRefused E.approx i.simd = false)
    (hs : ∀ P w, special E P i w = none) (P : Port)
    (w : State → U32 → U8 → Except SimdStop Host) : execute E P i w = executeGeneric E P i := by
  unfold execute
  rw [hr, hs]
  rfl

theorem ok_ne_fault {α : Type} {a : α} {addr : U32} :
    (.ok a : Except SimdStop α) ≠ .error (.fault addr) := nofun

/-- A read first, and then only the CPU. -/
theorem readsOnce_of {k : Port → Vec → Run Unit} {g : Vec → SimdCpu → Except SimdStop SimdCpu}
    (hk : (memoryOperand i).kind = .mem) (hfault : ∀ b c addr, g b c ≠ .error (.fault addr))
    (hrun : ∀ P w s, execute E P i w s = (readVec P (memoryOperand i) n >>= k P) s)
    (hrest : ∀ P b s, k P b s = match g b s.cpu with
      | .error e => .error e s
      | .ok cpu => .ok () { s with cpu }) : ReadsOnce E i n := by
  refine ⟨fun l => g (.ofBytes l n), fun l => hfault _, fun P w s => ?_⟩
  rw [hrun, readVec_mem_bind hk]
  cases P.read s (memoryOperand i) n with
  | error e => rfl
  | ok l => exact hrest P (.ofBytes l n) s

theorem writesOnce_of {v : SimdCpu → Vec} (hk : (memoryOperand i).kind = .mem)
    (hrun : ∀ P w s, execute E P i w s = writeVec P (memoryOperand i) n (v s.cpu) s) :
    WritesOnce E i n := by
  refine ⟨fun c => (v c).toBytes n, fun c => length_toBytes _ _, fun P w s => ?_⟩
  rw [hrun, writeVec_mem hk]
  cases P.write s (memoryOperand i) ((v s.cpu).toBytes n) <;> rfl

end Once

/-! ## Each form -/

section Forms

variable {E : Evaluators} {i : SimdInsn} {n : Nat}

/-- A move into a register. -/
theorem readsOnce_move (hr : isRefused E.approx i.simd = false) (h0 : IsRegister i.operand0)
    (h1 : i.operand1.kind = .mem) {bytes : Nat} {r : Vec → Vec} {run : Port → Run Unit}
    (hs : ∀ P w, special E P i w = some (run P))
    (hrun : ∀ P, run P = readVec P i.operand1 n >>= fun b => writeVec P i.operand0 bytes (r b)) :
    ReadsOnce E i n := by
  have hne : i.operand0.kind ≠ .mem := by
    rcases h0 with h | h | ⟨h, -⟩ <;> rw [h] <;> decide
  have hmem := memoryOperand_second hne
  refine readsOnce_of (k := fun P b => writeVec P i.operand0 bytes (r b))
    (g := fun b c => .ok (putVec i.operand0 bytes (r b) c)) (by rw [hmem]; exact h1)
    (fun _ _ _ => ok_ne_fault) (fun P w s => ?_) fun P b s => writeVec_register h0
  rw [execute_special hr _ hs, hrun, hmem]

/-- A move from a register. -/
theorem writesOnce_move (hr : isRefused E.approx i.simd = false) (h1 : IsRegister i.operand1)
    (h0 : i.operand0.kind = .mem) {bytes : Nat} {r : Vec → Vec} {run : Port → Run Unit}
    (hs : ∀ P w, special E P i w = some (run P))
    (hrun : ∀ P, run P = readVec P i.operand1 n >>= fun b => writeVec P i.operand0 bytes (r b)) :
    WritesOnce E i bytes := by
  have hmem := memoryOperand_first h0
  refine writesOnce_of (v := fun c => r (regVec i.operand1 n c)) (by rw [hmem]; exact h0)
    fun P w s => ?_
  rw [execute_special hr _ hs, hrun, hmem, bind_of_ok (readVec_register h1)]

/-- The register operand is read before the one in memory. -/
theorem readsOnce_both (first : Nat) (h0 : IsRegister i.operand0) (h1 : i.operand1.kind = .mem)
    {k : Port → Vec → Vec → Run Unit} {g : Vec → Vec → SimdCpu → Except SimdStop SimdCpu}
    (hrun : ∀ P w, execute E P i w = readVec P i.operand0 first >>= fun a =>
      readVec P i.operand1 n >>= fun b => k P a b)
    (hfault : ∀ a b c addr, g a b c ≠ .error (.fault addr))
    (hrest : ∀ P a b s, k P a b s = match g a b s.cpu with
      | .error e => .error e s
      | .ok cpu => .ok () { s with cpu }) : ReadsOnce E i n := by
  have hne : i.operand0.kind ≠ .mem := by
    rcases h0 with h | h | ⟨h, -⟩ <;> rw [h] <;> decide
  have hmem := memoryOperand_second hne
  refine readsOnce_of (k := fun P b s => k P (regVec i.operand0 first s.cpu) b s)
    (g := fun b c => g (regVec i.operand0 first c) b c) (by rw [hmem]; exact h1)
    (fun b c => hfault _ b c) (fun P w s => ?_) fun P b s => hrest P _ b s
  have hright := readVec_mem_bind (P := P) (n := n) (s := s) h1
    fun b s => k P (regVec i.operand0 first s.cpu) b s
  rw [hrun, bind_of_ok (readVec_register h0), hmem]
  exact (readVec_mem_bind h1 _).trans hright.symm

theorem readsOnce_movHalf (hr : isRefused E.approx i.simd = false) (h0 : IsRegister i.operand0)
    (h1 : i.operand1.kind = .mem) {half : Nat}
    (hs : ∀ P w, special E P i w = some (executeMovHalf P i half)) : ReadsOnce E i 8 := by
  have hne : i.operand0.kind ≠ .mem := by
    rcases h0 with h | h | ⟨h, -⟩ <;> rw [h] <;> decide
  have hmem := memoryOperand_second hne
  refine readsOnce_of
    (k := fun P b => getCpu >>= fun c => writeVec P i.operand0 16
      ⟨setBits (c.xmm i.operand0.reg) (8 * half) (b.u64 0), 16⟩)
    (g := fun b c => .ok (putVec i.operand0 16
      ⟨setBits (c.xmm i.operand0.reg) (8 * half) (b.u64 0), 16⟩ c))
    (by rw [hmem]; exact h1) (fun _ _ _ => ok_ne_fault) (fun P w s => ?_) fun P b s => ?_
  · rw [execute_special hr _ hs, hmem]
    unfold executeMovHalf
    rw [if_neg hne]
  · rw [getCpu_bind]
    exact writeVec_register h0

theorem writesOnce_movHalf (hr : isRefused E.approx i.simd = false)
    (h0 : i.operand0.kind = .mem) {half : Nat}
    (hs : ∀ P w, special E P i w = some (executeMovHalf P i half)) : WritesOnce E i 8 := by
  have hmem := memoryOperand_first h0
  refine writesOnce_of
    (v := fun c => ⟨((c.xmm i.operand1.reg).extractLsb' (8 * half) 64).setWidth 128, 8⟩)
    (by rw [hmem]; exact h0) fun P w s => ?_
  rw [execute_special hr _ hs, hmem]
  unfold executeMovHalf
  rw [if_pos h0, getCpu_bind]

theorem readsOnce_pinsrw (hr : isRefused E.approx i.simd = false) (h0 : IsRegister i.operand0)
    (h1 : i.operand1.kind = .mem) (hop : i.simd = .pinsrw) : ReadsOnce E i 2 := by
  refine readsOnce_both (regWidth i) h0 h1
    (k := fun P a b => writeVec P i.operand0 (regWidth i)
      ⟨setLane a.b ((immediate i).toNat &&& if regWidth i = 16 then 7 else 3)
        ((b.u32 0).setWidth 16), a.bytes⟩)
    (g := fun a b c => .ok (putVec i.operand0 (regWidth i)
      ⟨setLane a.b ((immediate i).toNat &&& if regWidth i = 16 then 7 else 3)
        ((b.u32 0).setWidth 16), a.bytes⟩ c)) (fun P w => ?_) (fun _ _ _ _ => ok_ne_fault)
    fun P a b s => writeVec_register h0
  exact execute_special hr (fun P => executePinsrw P i)
    (fun P w => by unfold special; rw [hop]) P w

/-- What a 3DNow! instruction does with its operands. -/
def pfRun (E : Evaluators) (i : SimdInsn) (P : Port) (a b : Vec) : Run Unit :=
  match E.threeDNow i.pf (a.u64 0) (b.u64 0) with
  | none => throw .unsupported
  | some q => writeVec P i.operand0 8 ⟨q.setWidth 128, 8⟩

/-- And what it leaves of the registers. -/
def pfCpu (E : Evaluators) (i : SimdInsn) (a b : Vec) (c : SimdCpu) : Except SimdStop SimdCpu :=
  match E.threeDNow i.pf (a.u64 0) (b.u64 0) with
  | none => .error .unsupported
  | some q => .ok (putVec i.operand0 8 ⟨q.setWidth 128, 8⟩ c)

theorem readsOnce_pf (hr : isRefused E.approx i.simd = false) (h0 : IsRegister i.operand0)
    (h1 : i.operand1.kind = .mem) (hop : i.simd = .pf) : ReadsOnce E i 8 := by
  refine readsOnce_both 8 h0 h1 (k := pfRun E i) (g := pfCpu E i) (fun P w => ?_)
    (fun a b c addr => ?_) fun P a b s => ?_
  · exact execute_special hr (fun P => executePf E P i)
      (fun P w => by unfold special; rw [hop]) P w
  · unfold pfCpu
    split <;> intro h <;> cases h
  · unfold pfRun pfCpu
    cases E.threeDNow i.pf (a.u64 0) (b.u64 0) with
    | none => rfl
    | some q => exact writeVec_register h0

theorem readsOnce_ldmxcsr (hr : isRefused E.approx i.simd = false)
    (h0 : i.operand0.kind = .mem) (hop : i.simd = .ldmxcsr) : ReadsOnce E i 4 := by
  have hmem := memoryOperand_first h0
  refine readsOnce_of
    (k := fun _ b => getCpu >>= fun c => setCpu { c with mxcsr := b.u32 0 })
    (g := fun b c => .ok { c with mxcsr := b.u32 0 }) (by rw [hmem]; exact h0)
    (fun _ _ _ => ok_ne_fault) (fun P w s => ?_) fun P b s => rfl
  rw [hmem, execute_special hr (fun P => readVec P i.operand0 4 >>= fun b =>
    getCpu >>= fun c => setCpu { c with mxcsr := b.u32 0 })
      (fun P w => by unfold special; rw [hop]) P w]

theorem writesOnce_stmxcsr (hr : isRefused E.approx i.simd = false)
    (h0 : i.operand0.kind = .mem) (hop : i.simd = .stmxcsr) : WritesOnce E i 4 := by
  have hmem := memoryOperand_first h0
  refine writesOnce_of (v := fun c => ⟨c.mxcsr.setWidth 128, 4⟩) (by rw [hmem]; exact h0)
    fun P w s => ?_
  rw [hmem, execute_special hr (fun P => getCpu >>= fun c =>
    writeVec P i.operand0 4 ⟨c.mxcsr.setWidth 128, 4⟩)
      (fun P w => by unfold special; rw [hop]) P w, getCpu_bind]

/-- A lane module reaches no memory. -/
theorem lanes_ne_fault (E : Evaluators) (op : SimdOp) (a b : Vec) (imm : U8) (f : Flags)
    (addr : U32) : lanes E op a b imm f ≠ .error (.fault addr) := by
  unfold lanes
  split
  · exact ok_ne_fault
  · rintro ⟨⟩
  · split
    · exact ok_ne_fault
    · split
      · exact ok_ne_fault
      · rintro ⟨⟩

theorem readsOnce_generic (hr : isRefused E.approx i.simd = false) (h0 : IsRegister i.operand0)
    (h1 : i.operand1.kind = .mem) (hs : ∀ P w, special E P i w = none) :
    ReadsOnce E i (genericWidths i.simd true (regWidth i)).1 := by
  set src := (genericWidths i.simd true (regWidth i)).1 with hsrc
  set dst := (genericWidths i.simd true (regWidth i)).2 with hdst
  let operand (b : Vec) : Vec := { b with bytes := if src < dst then dst else src }
  refine readsOnce_both dst h0 h1
    (k := fun P a b => getCpu >>= fun c =>
      orStop (lanes E i.simd a (operand b) (immediate i) c.flags) >>= fun r =>
        setCpu { c with flags := r.2.1 } >>= fun _ =>
          if r.2.2 then writeVec P i.operand0 r.1.bytes r.1 else pure ())
    (g := fun a b c => match lanes E i.simd a (operand b) (immediate i) c.flags with
      | .error e => .error e
      | .ok r => .ok (if r.2.2 then putVec i.operand0 r.1.bytes r.1 { c with flags := r.2.1 }
          else { c with flags := r.2.1 })) (fun P w => ?_) (fun a b c addr => ?_)
    fun P a b s => ?_
  · rw [execute_generic hr hs]
    unfold executeGeneric
    rw [h1]
    rfl
  · have hlanes := lanes_ne_fault E i.simd a (operand b) (immediate i) c.flags addr
    cases h : lanes E i.simd a (operand b) (immediate i) c.flags with
    | error e =>
      rintro ⟨⟩
      exact hlanes h
    | ok r => exact ok_ne_fault
  · rw [getCpu_bind]
    cases lanes E i.simd a (operand b) (immediate i) s.cpu.flags with
    | error e => rfl
    | ok r =>
      obtain ⟨r, f, writes⟩ := r
      cases writes
      · rfl
      · exact writeVec_register (s := { s with cpu := { s.cpu with flags := f } }) h0

/-! ## All forms -/

/-- The operations with a case of their own. -/
def hasCase : SimdOp → Bool
  | .emms | .fence | .prefetch | .stmxcsr | .ldmxcsr | .movq | .movd | .movaps | .movss | .movsd
  | .maskmovdqu | .movlps | .movhps | .movhlps | .movlhps | .movmskps | .movmskpd | .pmovmskb
  | .pextrw | .pinsrw | .pf => true
  | _ => false

theorem special_regular (hop : hasCase i.simd = false) (P : Port)
    (w : State → U32 → U8 → Except SimdStop Host) : special E P i w = none := by
  unfold special
  revert hop
  cases i.simd <;> intro hop <;> first | rfl | cases hop

/-- A regular operation has its second operand in memory and a register before it. -/
theorem regular_form (op : SimdOp) : hasCase op = false → ∀ f ∈ memoryForms op,
    f.second = .mem ∧ (f.first = .mmx ∨ f.first = .xmm ∨ f.first = .reg) := by
  cases op <;> decide

theorem simdMemoryBytes_regular (hop : hasCase i.simd = false) : simdMemoryBytes i =
    (genericWidths i.simd (i.operand1.kind = .mem) (regWidth i)).1 := by
  unfold simdMemoryBytes
  revert hop
  cases i.simd <;> intro hop <;> first | rfl | cases hop

theorem isRegister_first {f : Form} (h : HasForm i f)
    (hf : f.first = .mmx ∨ f.first = .xmm ∨ f.first = .reg) : IsRegister i.operand0 := by
  rw [← h.first] at hf
  exact hf.imp_right (Or.imp_right fun hreg => ⟨hreg, h.register hreg⟩)

/-- A load into a media register, or a store from one. -/
def IsMove (i : SimdInsn) : Prop :=
  (i.operand0.kind = .mmx ∨ i.operand0.kind = .xmm) ∧ i.operand1.kind = .mem ∨
    i.operand0.kind = .mem ∧ (i.operand1.kind = .mmx ∨ i.operand1.kind = .xmm)

def isMoveForm (f : Form) : Bool :=
  (f.first = .mmx || f.first = .xmm) && f.second = .mem ||
    f.first = .mem && (f.second = .mmx || f.second = .xmm)

theorem isMove_of_form {f : Form} (h : HasForm i f) (hf : isMoveForm f) : IsMove i := by
  unfold isMoveForm at hf
  simpa [IsMove, h.first, h.second] using hf

theorem accesses_move (hr : isRefused E.approx i.simd = false) (hmove : IsMove i)
    (run : Port → Run Unit) (hs : ∀ P w, special E P i w = some (run P))
    (hrun : ∃ (bytes : Nat) (r : Vec → Vec), (i.operand0.kind = .mem → bytes = n) ∧ ∀ P, run P =
      readVec P i.operand1 n >>= fun b => writeVec P i.operand0 bytes (r b)) :
    ReadsOnce E i n ∨ WritesOnce E i n := by
  obtain ⟨bytes, r, hbytes, hrun⟩ := hrun
  obtain ⟨h0, h1⟩ | ⟨h0, h1⟩ := hmove
  · exact .inl (readsOnce_move hr (h0.imp_right .inl) h1 hs hrun)
  · rw [hbytes h0] at hrun
    exact .inr (writesOnce_move hr (h1.imp_right .inl) h0 hs hrun)

theorem accesses_movq (hr : isRefused E.approx i.simd = false) (hmove : IsMove i)
    (hop : i.simd = .movq) : ReadsOnce E i 8 ∨ WritesOnce E i 8 := by
  refine accesses_move hr hmove (fun P => executeMovq P i)
    (fun P w => by unfold special; rw [hop]) ?_
  unfold executeMovq
  by_cases hx : i.operand0.kind = .xmm
  · exact ⟨16, fun b => ⟨(b.u64 0).setWidth 128, 16⟩,
      fun hm => absurd (hx.symm.trans hm) (by decide), fun P => by simp only [if_pos hx]⟩
  · exact ⟨8, id, fun _ => rfl, fun P => by simp only [if_neg hx]; rfl⟩

theorem accesses_movd (hr : isRefused E.approx i.simd = false) (hmove : IsMove i)
    (hop : i.simd = .movd) : ReadsOnce E i 4 ∨ WritesOnce E i 4 := by
  refine accesses_move hr hmove (fun P => executeMovd P i)
    (fun P w => by unfold special; rw [hop]) ?_
  unfold executeMovd
  by_cases hm : i.operand0.kind = .reg ∨ i.operand0.kind = .mem
  · exact ⟨4, fun b => ⟨(b.u32 0).setWidth 128, 4⟩, fun _ => rfl, fun P => by simp only [if_pos hm]⟩
  · exact ⟨if i.operand0.kind = .xmm then 16 else 8,
      fun b => ⟨(b.u32 0).setWidth 128, if i.operand0.kind = .xmm then 16 else 8⟩,
      fun h => absurd (.inr h) hm, fun P => by simp only [if_neg hm]⟩

theorem accesses_movScalar (hr : isRefused E.approx i.simd = false) (hmove : IsMove i)
    (hx : i.operand0.kind ≠ .mmx)
    (hs : ∀ P w, special E P i w = some (executeMovScalar P i n)) :
    ReadsOnce E i n ∨ WritesOnce E i n := by
  refine accesses_move hr hmove (fun P => executeMovScalar P i n) hs ?_
  unfold executeMovScalar
  obtain ⟨h0, h1⟩ | ⟨h0, h1⟩ := hmove
  · have hload := h0.resolve_left hx
    exact ⟨16, fun b => ⟨setBits (0 : BitVec 128) 0 (b.b.extractLsb' 0 (8 * n)), 16⟩,
      fun hm => absurd (hload.symm.trans hm) (by decide),
      fun P => by simp only [if_pos (And.intro hload h1)]⟩
  · have hne : i.operand0.kind ≠ .xmm := by rw [h0]; decide
    exact ⟨n, id, fun _ => rfl, fun P => by simp only [hne, false_and, if_false]; rfl⟩

theorem accesses_movHalf (hr : isRefused E.approx i.simd = false) (hmove : IsMove i) {half : Nat}
    (hs : ∀ P w, special E P i w = some (executeMovHalf P i half)) :
    ReadsOnce E i 8 ∨ WritesOnce E i 8 := by
  obtain ⟨h0, h1⟩ | ⟨h0, h1⟩ := hmove
  · exact .inl (readsOnce_movHalf hr (h0.imp_right .inl) h1 hs)
  · exact .inr (writesOnce_movHalf hr h0 hs)

theorem accesses_movaps (hr : isRefused E.approx i.simd = false) (hmove : IsMove i)
    (hx : i.operand0.kind = .xmm ∨ i.operand1.kind = .xmm) (hop : i.simd = .movaps) :
    ReadsOnce E i 16 ∨ WritesOnce E i 16 := by
  refine accesses_move hr hmove (fun P => executeMovaps P i)
    (fun P w => by unfold special; rw [hop]) ⟨16, id, fun _ => rfl, fun P => ?_⟩
  unfold executeMovaps
  rw [if_pos hx]
  rfl

/-- The moves between media registers and memory. -/
def isMoveOp : SimdOp → Bool
  | .movq | .movd | .movaps | .movss | .movsd | .movlps | .movhps => true
  | _ => false

theorem move_form (op : SimdOp) : isMoveOp op → ∀ f ∈ memoryForms op,
    isMoveForm f ∧ (op ≠ .movq → op ≠ .movd → f.first ≠ .mmx ∧ f.second ≠ .mmx) := by
  cases op <;> decide

theorem accesses_moveOp {f : Form} (hr : isRefused E.approx i.simd = false)
    (hf : f ∈ memoryForms i.simd) (h : HasForm i f) (hop : isMoveOp i.simd) :
    ReadsOnce E i (simdMemoryBytes i) ∨ WritesOnce E i (simdMemoryBytes i) := by
  obtain ⟨hform, hxmm⟩ := move_form i.simd hop f hf
  have hmove := isMove_of_form h hform
  rw [← h.first, ← h.second] at hxmm
  unfold simdMemoryBytes
  cases hsimd : i.simd <;> rw [hsimd] at hop hxmm <;> try cases hop
  case movq => exact accesses_movq hr hmove hsimd
  case movd => exact accesses_movd hr hmove hsimd
  case movaps =>
    obtain ⟨h0, h1⟩ := hxmm (by decide) (by decide)
    refine accesses_movaps hr hmove ?_ hsimd
    exact hmove.imp (fun hl => hl.1.resolve_left h0) fun hst => hst.2.resolve_left h1
  case movss =>
    exact accesses_movScalar hr hmove (hxmm (by decide) (by decide)).1
      fun P w => by unfold special; rw [hsimd]
  case movsd =>
    exact accesses_movScalar hr hmove (hxmm (by decide) (by decide)).1
      fun P w => by unfold special; rw [hsimd]
  case movlps => exact accesses_movHalf hr hmove fun P w => by unfold special; rw [hsimd]
  case movhps => exact accesses_movHalf hr hmove fun P w => by unfold special; rw [hsimd]

/-- The forms of the other operations with a case of their own. -/
theorem case_form (op : SimdOp) : hasCase op → isMoveOp op = false → op ≠ .pextrw →
    op ≠ .prefetch → ∀ f ∈ memoryForms op,
      (op = .ldmxcsr ∨ op = .stmxcsr) ∧ f.first = .mem ∨ (op = .pinsrw ∨ op = .pf) ∧
        (f.first = .mmx ∨ f.first = .xmm ∨ f.first = .reg) ∧ f.second = .mem := by
  cases op <;> decide

/-- Every form has one access, of the bytes that `x86p_simd_memory_bytes` names. -/
theorem accesses_once {f : Form} (hr : isRefused E.approx i.simd = false)
    (hf : f ∈ memoryForms i.simd) (h : HasForm i f) (hextract : i.simd ≠ .pextrw)
    (hhint : i.simd ≠ .prefetch) :
    ReadsOnce E i (simdMemoryBytes i) ∨ WritesOnce E i (simdMemoryBytes i) := by
  have hfirst := h.first
  have hsecond := h.second
  cases hop : hasCase i.simd with
  | false =>
    obtain ⟨hmem, hreg⟩ := regular_form i.simd hop f hf
    rw [hmem] at hsecond
    rw [simdMemoryBytes_regular hop, hsecond]
    exact .inl (readsOnce_generic hr (isRegister_first h hreg) hsecond (special_regular hop))
  | true =>
    cases hmove : isMoveOp i.simd with
    | true => exact accesses_moveOp hr hf h hmove
    | false =>
      obtain ⟨hs | hs, hmem⟩ | ⟨hs | hs, hreg, hmem⟩ :=
        case_form i.simd hop hmove hextract hhint f hf
      · rw [show simdMemoryBytes i = 4 by unfold simdMemoryBytes; rw [hs]]
        exact .inl (readsOnce_ldmxcsr hr (hfirst.trans hmem) hs)
      · rw [show simdMemoryBytes i = 4 by unfold simdMemoryBytes; rw [hs]]
        exact .inr (writesOnce_stmxcsr hr (hfirst.trans hmem) hs)
      · rw [show simdMemoryBytes i = 2 by unfold simdMemoryBytes; rw [hs]]
        exact .inl (readsOnce_pinsrw hr (isRegister_first h hreg) (hsecond.trans hmem) hs)
      · rw [show simdMemoryBytes i = 8 by unfold simdMemoryBytes; rw [hs]]
        exact .inl (readsOnce_pf hr (isRegister_first h hreg) (hsecond.trans hmem) hs)

end Forms

end X86Port.Simd
