import X86Port.Cpu.RegParts
import X86Port.Wasm.Helpers

/-!
# Operands of translated code

The operand helpers of `jit_wasm_lower.c`, and what guarding, loading and storing an operand do
from the state of the interpreter.

* `World.at_`: linear memory at a state of the interpreter, with the EIP that is stored there.
* `effectiveAddress_eq`: translated code and the interpreter form one address.
* `run_guardPlace`, `run_loadPlace`, `run_storePlace`, `run_pushOperand`: one lemma a piece.
* `World.Does`: code beside a step of the interpreter.
-/

namespace X86Port.Wasm

open Lib StackCode
open Memory (Mem Host memRead memWrite)
open Cpu (Reg Width FlagKind Flags Operand CpuState X86Cpu Ctx Alike Granted regRead regWrite
  regRead_and_widthMask widthMask effectiveAddress)
open Cpu.Exec (Allows IsPlace IsValue valueOfOperand written)

/-! ## The operands that are lowered -/

/-- A byte register number is in range already. -/
def operandOk (o : Operand) (w : Nat) (forWrite : Bool) : Bool :=
  [1, 2, 4].contains w &&
    match o.kind with
    | .imm => !forWrite
    | .mem => o.size == w && !o.addr16
    | .reg => o.size == w
    | _ => false

/-- The width of an operand that has one of the integer engine. -/
def widthOf (o : Operand) : Width := (Width.ofBytes o.size).getD .dword

def pushOperand (o : Operand) (w : Width) : Code :=
  if o.kind = .imm then [.const (o.imm &&& widthMask w)] else WasmState.loadReg o.reg w

namespace WasmState

variable (s : WasmState)

/-- The guard of an operand in memory. -/
def guardPlace (o : Operand) (insnEip : U32) (w : Width) (access : U32) : Code :=
  if o.kind = .mem then s.guard o insnEip w.bytes access else []

def loadPlace (o : Operand) (w : Width) : Code :=
  if o.kind = .mem then s.loadMem w else loadReg o.reg w

def storePlace (o : Operand) (w : Width) (value : WasmLocal) : Code :=
  if o.kind = .mem then s.storeMem w value else storeReg o.reg w value

end WasmState

theorem operandOk_place {o : Operand} {n : Nat} (h : operandOk o n true = true) :
    (∃ w : Width, n = w.bytes ∧ IsPlace o w) ∧ (o.kind = .mem → o.addr16 = false) := by
  unfold operandOk at h
  obtain ⟨hn, hkind⟩ := Bool.and_eq_true_iff.mp h
  obtain ⟨w, rfl⟩ := Cpu.bytes_of_contains hn
  cases hk : o.kind <;> rw [hk] at hkind <;> simp_all [IsPlace]

theorem operandOk_value {o : Operand} {n : Nat} (h : operandOk o n false = true) :
    (∃ w : Width, n = w.bytes ∧ IsValue o w) ∧ (o.kind = .mem → o.addr16 = false) := by
  by_cases himm : o.kind = .imm
  · obtain ⟨hn, -⟩ := Bool.and_eq_true_iff.mp h
    obtain ⟨w, rfl⟩ := Cpu.bytes_of_contains hn
    exact ⟨⟨w, rfl, .inl himm⟩, fun hmem => by rw [himm] at hmem; cases hmem⟩
  · have hplace : operandOk o n true = true := by
      unfold operandOk at h ⊢
      cases hk : o.kind <;> rw [hk] at h <;> simp_all
    obtain ⟨⟨w, hn, ho⟩, haddr⟩ := operandOk_place hplace
    exact ⟨⟨w, hn, .inr ho⟩, haddr⟩

theorem widthOf_place {o : Operand} {w : Width} (h : IsPlace o w) : widthOf o = w := by
  unfold widthOf
  rw [h.2, Cpu.ofBytes_bytes]
  rfl

/-! ## Addresses -/

/-- What the decoder gives as an address: a scale of the encoding, and the low byte of EAX as the
only byte that is an index. -/
structure Addressed (o : Operand) : Prop where
  scale : o.scale ∈ [1, 2, 4, 8]
  lowByte : o.indexLowByte = true → o.index = some Cpu.eax

/-- What the decoder promises and the gate checks of an operand. -/
structure Addressable (o : Operand) : Prop where
  addressed : o.kind = .mem → Addressed o
  addr16 : o.kind = .mem → o.addr16 = false

theorem indexShift_scale {o : Operand} (h : o.scale ∈ [1, 2, 4, 8]) (v : U32) :
    v <<< (WasmState.indexShift o.scale).toNat = v * BitVec.ofNat 32 o.scale := by
  have hcases : o.scale = 1 ∨ o.scale = 2 ∨ o.scale = 4 ∨ o.scale = 8 := by simpa using h
  rcases hcases with h | h | h | h <;> rw [h, BitVec.shiftLeft_eq_mul_twoPow] <;> rfl

theorem indexOf_eq {c : X86Cpu} {o : Operand} {index : Reg} (h : Addressed o)
    (hindex : o.index = some index) :
    indexOf c o index =
      regRead c.toCpuState index (if o.indexLowByte then .byte else .dword) *
        BitVec.ofNat 32 o.scale := by
  unfold indexOf
  rw [indexShift_scale h.scale]
  congr 1
  cases hlow : o.indexLowByte with
  | false => rfl
  | true =>
    obtain rfl : index = Cpu.eax := Option.some_inj.mp (hindex.symm.trans (h.lowByte hlow))
    rfl

theorem partsOf_eq {c : X86Cpu} {o : Operand} (h : Addressed o) :
    partsOf c o = o.disp +
      (match o.base with
        | some base => c.reg base
        | none => 0) +
      (match o.index with
        | some index =>
          regRead c.toCpuState index (if o.indexLowByte then .byte else .dword) *
            BitVec.ofNat 32 o.scale
        | none => 0) := by
  unfold partsOf
  cases hindex : o.index with
  | none =>
    dsimp only
    rewrite [add_zero, add_zero, add_comm]
    rfl
  | some index =>
    dsimp only
    rewrite [indexOf_eq h hindex, add_comm, add_assoc]
    rfl

/-- Translated code and the interpreter form one address. -/
theorem effectiveAddress_eq {c : X86Cpu} {o : Operand} (h : Addressed o)
    (h16 : o.addr16 = false) : effectiveAddress c o = addressOf c o := by
  unfold effectiveAddress addressOf
  rw [partsOf_eq h, h16]
  cases o.seg <;> rfl

theorem addressOf_eip (c : X86Cpu) (eip : U32) (o : Operand) :
    addressOf { c with eip := eip } o = addressOf c o := rfl

/-! ## Values of a width -/

theorem loadAt_and_widthMask (m : Mem) (h : Host) (addr : U32) (w : Width) :
    Cpu.loadAt m h addr w &&& widthMask w = Cpu.loadAt m h addr w := by
  refine BitVec.eq_of_getLsbD_eq fun i _ => ?_
  rw [Cpu.getLsbD_and_widthMask]
  by_cases hi : i < w.bits
  · simp [hi]
  · have hlen := Bytes.length_load h.bytes (m.hostOf addr.toNat) w.bytes
    unfold Width.bits at hi
    rw [Cpu.loadAt, Memory.getLsbD_valueOf (by omega), Bool.false_and]

theorem valueOfOperand_and_widthMask {o : Operand} {w : Width} (ho : IsPlace o w) (m : Mem)
    (s : Ctx Host) : valueOfOperand m s o w &&& widthMask w = valueOfOperand m s o w := by
  unfold valueOfOperand
  obtain ⟨hk | hk, -⟩ := ho <;> rw [hk]
  · exact regRead_and_widthMask _ _ _
  · exact loadAt_and_widthMask _ _ _ _

/-! ## A state of the interpreter in linear memory -/

namespace World

variable {st : WasmState} (W : World st)

/-- Linear memory at a state of the interpreter. EIP is what a body or its caller last stored. -/
def at_ (s : Ctx Host) (eip : U32) : LinearMem := W.mem { s.cpu with eip := eip } s.mem.bytes

/-- The locals behind the guard of an operand. -/
def pointed (s : Ctx Host) (o : Operand) (l : WasmLocal → U32) : WasmLocal → U32 :=
  if o.kind = .mem then Function.update l .addr (W.linear (effectiveAddress s.cpu o)) else l

/-- The address local holds where an operand in memory lies. -/
def Points (s : Ctx Host) (o : Operand) (l : WasmLocal → U32) : Prop :=
  o.kind = .mem → l .addr = W.linear (effectiveAddress s.cpu o)

variable {imports : Imports} {s : Ctx Host} {e : U32} {l : WasmLocal → U32} {stack : List U32}
  {rest : Code} {o : Operand} {w : Width} {access : U32}

theorem pointed_cpu (l : WasmLocal → U32) : W.pointed s o l .cpu = l .cpu := by
  unfold pointed
  split_ifs
  · exact Function.update_of_ne (by decide) _ _
  · rfl

theorem points_pointed (l : WasmLocal → U32) : W.Points s o (W.pointed s o l) := by
  intro hk
  unfold pointed
  rw [if_pos hk, Function.update_self]

theorem run_guardPlace (hl : l .cpu = W.home.addr) (ho : Addressable o)
    (hallows : Allows W.m s access o w) (eip : U32) :
    run (wasmEnv imports) (st.guardPlace o eip w access ++ rest) ⟨W.at_ s e, l, stack⟩ =
      run (wasmEnv imports) rest ⟨W.at_ s e, W.pointed s o l, stack⟩ := by
  unfold WasmState.guardPlace pointed
  by_cases hk : o.kind = .mem
  · have haddr := effectiveAddress_eq (c := s.cpu) (ho.addressed hk) (ho.addr16 hk)
    have hgranted := hallows hk
    rw [haddr] at hgranted ⊢
    rw [if_pos hk, if_pos hk]
    exact W.run_guard_granted (c := { s.cpu with eip := e }) hl hgranted eip
  · rw [if_neg hk, if_neg hk]
    rfl

theorem run_loadPlace (hl : l .cpu = W.home.addr) (ho : IsPlace o w) (hpoints : W.Points s o l)
    (hallows : Allows W.m s access o w) :
    run (wasmEnv imports) (st.loadPlace o w ++ rest) ⟨W.at_ s e, l, stack⟩ =
      run (wasmEnv imports) rest ⟨W.at_ s e, l, valueOfOperand W.m s o w :: stack⟩ := by
  unfold WasmState.loadPlace valueOfOperand
  obtain ⟨hk | hk, -⟩ := ho
  · rw [if_neg (by rw [hk]; decide), hk]
    exact W.run_loadReg hl o.reg w
  · rw [if_pos hk, hk]
    exact W.run_loadMem (hpoints hk) (hallows hk)

theorem run_storePlace (hl : l .cpu = W.home.addr) (hpoints : W.Points s o l)
    (hallows : Allows W.m s access o w) (value : WasmLocal) :
    run (wasmEnv imports) (st.storePlace o w value ++ rest) ⟨W.at_ s e, l, stack⟩ =
      run (wasmEnv imports) rest ⟨W.at_ (written W.m s o w (l value)) e, l, stack⟩ := by
  unfold WasmState.storePlace written
  by_cases hk : o.kind = .mem
  · rw [if_pos hk, if_pos hk]
    exact W.run_storeMem (hpoints hk) (hallows hk) value
  · rw [if_neg hk, if_neg hk]
    exact W.run_storeReg hl o.reg w value

/-- A register, or an immediate cut to the width. -/
theorem run_pushOperand (hl : l .cpu = W.home.addr) (ho : o.kind = .imm ∨ o.kind = .reg) :
    run (wasmEnv imports) (pushOperand o w ++ rest) ⟨W.at_ s e, l, stack⟩ =
      run (wasmEnv imports) rest
        ⟨W.at_ s e, l, (valueOfOperand W.m s o w &&& widthMask w) :: stack⟩ := by
  unfold pushOperand valueOfOperand
  rcases ho with hk | hk
  · rw [if_pos hk, hk]
    rfl
  · rw [if_neg (by rw [hk]; decide), hk]
    dsimp only
    rw [regRead_and_widthMask]
    exact W.run_loadReg hl o.reg w

theorem run_loadReg_at (hl : l .cpu = W.home.addr) (r : Reg) (w : Width) :
    run (wasmEnv imports) (WasmState.loadReg r w ++ rest) ⟨W.at_ s e, l, stack⟩ =
      run (wasmEnv imports) rest ⟨W.at_ s e, l, regRead s.cpu.toCpuState r w :: stack⟩ :=
  W.run_loadReg hl r w

theorem run_storeReg_at (hl : l .cpu = W.home.addr) (r : Reg) (w : Width) (value : WasmLocal) :
    run (wasmEnv imports) (WasmState.storeReg r w value ++ rest) ⟨W.at_ s e, l, stack⟩ =
      run (wasmEnv imports) rest
        ⟨W.at_ (s.withRegs (regWrite s.cpu.toCpuState r w (l value))) e, l, stack⟩ :=
  W.run_storeReg hl r w value

theorem run_storeFlags_at (hl : l .cpu = W.home.addr) {kind : FlagKind} (hkind : kind ≠ .none)
    (w : Width) :
    run (wasmEnv imports) (WasmState.storeFlags kind w ++ rest) ⟨W.at_ s e, l, stack⟩ =
      run (wasmEnv imports) rest
        ⟨W.at_ (s.withFlags ⟨l .a, l .b, l .r, kind, w, s.cpu.flags.carryIn⟩) e, l, stack⟩ :=
  W.run_storeFlags hl hkind w

end World

/-! ## Code beside a step of the interpreter -/

/-- The code falls through from one state of the interpreter to another. EIP and the other locals
are whatever they were. -/
def World.Reaches {st : WasmState} (W : World st) (others : Imports) (code : Code)
    (t u : Ctx Host) : Prop :=
  ∀ (e : U32) (l : WasmLocal → U32), l .cpu = W.home.addr → ∃ l', l' .cpu = W.home.addr ∧
    ∀ rest, run (wasmEnv (withHelpers others)) (code ++ rest) ⟨W.at_ t e, l, []⟩ =
      run (wasmEnv (withHelpers others)) rest ⟨W.at_ u e, l', []⟩

/-- The code ends beside a state of the interpreter, with what the lowering carries on true of the
flags that it left. -/
def World.Does {st : WasmState} (W : World st) (others : Imports) (low : WasmLower) (code : Code)
    (t u : Ctx Host) : Prop :=
  ∃ v, Alike v u ∧ Tracks low v.cpu.flags ∧ W.Reaches others code t v

namespace World

variable {st : WasmState} {W : World st} {others : Imports} {low : WasmLower} {code more : Code}
  {t u v : Ctx Host}

theorem Reaches.nil (W : World st) (others : Imports) (t : Ctx Host) : W.Reaches others [] t t :=
  fun _ l hl => ⟨l, hl, fun _ => rfl⟩

theorem Reaches.append (h : W.Reaches others code t u) (h' : W.Reaches others more u v) :
    W.Reaches others (code ++ more) t v := by
  intro e l hl
  obtain ⟨l', hl', hrun⟩ := h e l hl
  obtain ⟨l'', hl'', hrun'⟩ := h' e l' hl'
  exact ⟨l'', hl'', fun rest => by rw [List.append_assoc, hrun, hrun']⟩

/-- Code that ends in the interpreter's own state. -/
theorem Reaches.does (h : W.Reaches others code t u) (htracks : Tracks low u.cpu.flags) :
    W.Does others low code t u := ⟨u, .refl u, htracks, h⟩

end World

end X86Port.Wasm
