import X86Port.Lib.TopAligned
import X86Port.Wasm.Imports

/-!
# Inline conditions

`jit_wasm_cond.c` and the carry of `jit_wasm_lower.c`: what translated code computes from the
flag tuple it knows to be there, against the flags the runtime derives.

* `pushes_condValue`: an inline condition is the condition of the recorded tuple.
* `run_carryIn`: the carry local ends as the recorded carry.
-/

namespace X86Port.Wasm

open Lib StackCode TopAligned
open Cpu (Width FlagKind Flags X86Cpu Cond Consistent operand flagCf flagPf flagZf flagSf flagOf
  condFlags condOf flagZf_operand flagSf_operand flagPf_arith)

/-- How the CALLs of a body find their leaves: the resolver's answer for an address, zero for none,
and the site that a CALL through a register or memory is given. -/
structure LeafCalls where
  resolve : U32 → U32
  site : Option U32

/-- What the lowering of a block carries from one instruction to the next: the kind and the
width that the last of them recorded, its leaves and the site it took. -/
structure WasmLower where
  state : WasmState
  lastKind : Option FlagKind
  lastW : Option Width
  leaf : Option LeafCalls
  leafSite : Option U32

namespace WasmLower

variable (l : WasmLower)

/-! ## Operands of a condition -/

def normShift : Nat :=
  match l.lastW with
  | some w => 32 - 8 * w.bytes
  | none => 0

/-- A field of the tuple, shifted to the top of the word. -/
def pushNorm (offset : Nat) : Code :=
  [WasmState.cpu, .load 4 offset] ++
  (if l.normShift ≠ 0 then ([.const (BitVec.ofNat 32 l.normShift), .op .shl] : Code) else [])

def pushA : Code := l.pushNorm aOffset

def pushB : Code := l.pushNorm bOffset

def pushR : Code := l.pushNorm rOffset

def rAgainstZero (op : Op) : Code := l.pushR ++ ([.const 0] : Code) ++ ([.op op] : Code)

def aAgainstB (op : Op) : Code := l.pushA ++ l.pushB ++ ([.op op] : Code)

/-- The parity of the low byte, whatever the width. -/
def pushParity (negate : Bool) : Code :=
  [WasmState.cpu, .load 4 rOffset, .const 0xFF, .op .and, .op .popcnt, .const 1, .op .and] ++
  (if negate then ([] : Code) else [.op .eqz])

/-! ## SUB -/

def pushSubOverflow (op : Op) : Code :=
  (l.pushA ++ l.pushB ++ ([.op .xor] : Code)) ++ (l.pushA ++ l.pushR ++ ([.op .xor] : Code)) ++
  ([.op .and] : Code) ++ ([.const 0] : Code) ++ ([.op op] : Code)

def emitSub : Cond → Code
  | .o => l.pushSubOverflow .ltS
  | .no => l.pushSubOverflow .geS
  | .b => l.aAgainstB .ltU
  | .nb => l.aAgainstB .geU
  | .z => l.pushR ++ ([.op .eqz] : Code)
  | .nz => l.rAgainstZero .ne
  | .be => l.aAgainstB .leU
  | .a => l.aAgainstB .gtU
  | .s => l.rAgainstZero .ltS
  | .ns => l.rAgainstZero .geS
  | .p => pushParity false
  | .np => pushParity true
  | .l => l.aAgainstB .ltS
  | .ge => l.aAgainstB .geS
  | .le => l.aAgainstB .leS
  | .g => l.aAgainstB .gtS

/-! ## Logic -/

def emitLogic : Cond → Code
  | .o | .b => [.const 0]
  | .no | .nb => [.const 1]
  | .z | .be => l.pushR ++ ([.op .eqz] : Code)
  | .nz | .a => l.rAgainstZero .ne
  | .s | .l => l.rAgainstZero .ltS
  | .ns | .ge => l.rAgainstZero .geS
  | .p => pushParity false
  | .np => pushParity true
  | .le => l.rAgainstZero .leS
  | .g => l.rAgainstZero .gtS

/-! ## ADD -/

def pushAddOverflowBits : Code :=
  (l.pushA ++ l.pushR ++ ([.op .xor] : Code)) ++ (l.pushB ++ l.pushR ++ ([.op .xor] : Code)) ++
  ([.op .and] : Code)

/-- The sign the sum would have had, had it not been truncated. -/
def pushAddLess : Code :=
  l.pushR ++ l.pushAddOverflowBits ++ ([.op .xor] : Code) ++ ([.const 0] : Code) ++
  ([.op .ltS] : Code)

def pushAddCarry (op : Op) : Code := l.pushR ++ l.pushA ++ ([.op op] : Code)

def emitAdd : Cond → Code
  | .o => l.pushAddOverflowBits ++ ([.const 0] : Code) ++ ([.op .ltS] : Code)
  | .no => l.pushAddOverflowBits ++ ([.const 0] : Code) ++ ([.op .geS] : Code)
  | .b => l.pushAddCarry .ltU
  | .nb => l.pushAddCarry .geU
  | .be => l.pushAddCarry .ltU ++ (l.pushR ++ ([.op .eqz] : Code)) ++ ([.op .or] : Code)
  | .a => l.pushAddCarry .geU ++ l.rAgainstZero .ne ++ ([.op .and] : Code)
  | .l => l.pushAddLess
  | .ge => l.pushAddLess ++ ([.op .eqz] : Code)
  | .le => l.pushAddLess ++ (l.pushR ++ ([.op .eqz] : Code)) ++ ([.op .or] : Code)
  | .g => l.pushAddLess ++ ([.op .eqz] : Code) ++ l.rAgainstZero .ne ++ ([.op .and] : Code)
  | cc => l.emitSub cc

/-! ## INC and DEC -/

def pushCarryIn : Code := [WasmState.cpu, .load 1 carryInOffset]

def aAgainst (normalised : U32) (op : Op) : Code :=
  l.pushA ++ ([.const normalised] : Code) ++ ([.op op] : Code)

def emitIncdec (cc : Cond) (dec : Bool) : Code :=
  let one : U32 := 1 <<< l.normShift
  match cc with
  | .o => (if dec then l.pushA else l.pushR) ++ ([.const 0x80000000] : Code) ++ ([.op .eq] : Code)
  | .no => (if dec then l.pushA else l.pushR) ++ ([.const 0x80000000] : Code) ++ ([.op .ne] : Code)
  | .b => pushCarryIn
  | .nb => pushCarryIn ++ ([.op .eqz] : Code)
  | .be => pushCarryIn ++ (l.pushR ++ ([.op .eqz] : Code)) ++ ([.op .or] : Code)
  | .a => pushCarryIn ++ ([.op .eqz] : Code) ++ l.rAgainstZero .ne ++ ([.op .and] : Code)
  | .l => l.aAgainst (if dec then 0 else -one) (if dec then .leS else .ltS)
  | .ge => l.aAgainst (if dec then 0 else -one) (if dec then .gtS else .geS)
  | .le => l.aAgainst (if dec then one else -one) .leS
  | .g => l.aAgainst (if dec then one else -one) .gtS
  | cc => l.emitSub cc

/-! ## The condition -/

def condIsInline : Option FlagKind → Bool
  | some kind => kind.isArith
  | none => false

/-- The call of the authority, for a tuple with no inline form. -/
def callCond (cc : Cond) : Code :=
  .const (condCode cc) :: WasmState.flagsAddr ++ ([.call .cond] : Code)

def condValue (cc : Cond) : Code :=
  match l.lastKind with
  | some .sub => l.emitSub cc
  | some .logic => l.emitLogic cc
  | some .add => l.emitAdd cc
  | some .inc => l.emitIncdec cc false
  | some .dec => l.emitIncdec cc true
  | _ => callCond cc

/-- The kind and the width are written together. -/
def flagsWritten (kind : Option FlagKind) (w : Option Width) : WasmLower :=
  { l with
    lastKind := kind
    lastW := if condIsInline kind then w else none }

end WasmLower

/-! ## Operands -/

section

variable (imports : Imports) {l : WasmLower} {home : CpuHome l.state.lay} {c : X86Cpu}
  {locals : WasmLocal → U32} (hl : locals .cpu = home.addr)

include hl

theorem pushes_carryIn : Pushes (wasmEnv imports) (home.mem c) locals WasmLower.pushCarryIn
    (c.flags.carryIn.setWidth 32) :=
  pushes_field home c imports hl (load_carryIn home c)

variable (hw : l.lastW = some c.flags.w)

include hw

omit hl in
theorem normShift_eq : l.normShift = 32 - c.flags.w.bits := by
  rw [WasmLower.normShift, hw, Width.bits, Nat.mul_comm]

theorem pushes_pushNorm {offset : Nat} {v : U32}
    (hv : (home.mem c).load 4 (home.addr.toNat + offset) = some v) :
    Pushes (wasmEnv imports) (home.mem c) locals (l.pushNorm offset) (top c.flags.w.bits v) := by
  intro st
  rw [WasmLower.pushNorm, (pushes_field home c imports hl hv).run, normShift_eq hw, top]
  cases c.flags.w with
  | byte => rfl
  | word => rfl
  | dword => exact congrArg (fun v => Outcome.next ⟨_, _, v :: st⟩) (BitVec.shiftLeft_zero v).symm

theorem pushes_a : Pushes (wasmEnv imports) (home.mem c) locals l.pushA
    (top c.flags.w.bits c.flags.a) :=
  pushes_pushNorm imports hl hw (load_a home c)

theorem pushes_b : Pushes (wasmEnv imports) (home.mem c) locals l.pushB
    (top c.flags.w.bits c.flags.b) :=
  pushes_pushNorm imports hl hw (load_b home c)

theorem pushes_r : Pushes (wasmEnv imports) (home.mem c) locals l.pushR
    (top c.flags.w.bits c.flags.r) :=
  pushes_pushNorm imports hl hw (load_r home c)

end

/-! ## The result alone -/

/-- The ones of the low byte, counted over the whole word. -/
theorem ones_and_byte (v : U32) : ones (v &&& 0xFF) = Cpu.lowByteOnes v.toNat := by
  have hbit : ∀ i, (v &&& (0xFF : U32)).getLsbD i =
      (decide (i < 8) && v.toNat.testBit i) := by
    intro i
    rw [show (0xFF : U32) = Cpu.widthMask .byte from rfl, Cpu.getLsbD_and_widthMask,
      Bool.and_comm]
    rfl
  have hhigh : (List.range' 8 24).countP (fun i => (v &&& (0xFF : U32)).getLsbD i) = 0 := by
    refine List.countP_eq_zero.mpr fun i hi => ?_
    rw [hbit, decide_eq_false (by have := List.mem_range'_1.mp hi; omega)]
    exact Bool.false_ne_true
  have hsplit : List.range 32 = List.range 8 ++ List.range' 8 24 := rfl
  unfold ones Cpu.lowByteOnes
  rw [hsplit, List.countP_append]
  refine (congrArg _ hhigh).trans (List.countP_congr fun i hi => ?_)
  rw [hbit, decide_eq_true (List.mem_range.mp hi), Bool.true_and]

theorem ofNat_and_one (n : Nat) : BitVec.ofNat 32 n &&& 1 = truth (decide (n % 2 = 1)) := by
  have hone : (BitVec.ofNat 32 n &&& 1).toNat = n % 2 := by
    rw [BitVec.toNat_and, show (1 : U32).toNat = 1 from rfl, Nat.and_one_is_mod,
      BitVec.toNat_ofNat, Nat.mod_mod_of_dvd _ (by decide)]
  rw [truth_decide]
  refine BitVec.eq_of_toNat_eq ?_
  obtain h | h := Nat.mod_two_eq_zero_or_one n
  · rw [hone, h]
    rfl
  · rw [hone, h]
    rfl

section

variable (imports : Imports) {l : WasmLower} {home : CpuHome l.state.lay} {c : X86Cpu}
  {locals : WasmLocal → U32} (hl : locals .cpu = home.addr)

include hl

theorem pushes_parity (hk : c.flags.kind.isArith = true) (negate : Bool) :
    Pushes (wasmEnv imports) (home.mem c) locals (WasmLower.pushParity negate)
      (truth (flagPf c.flags != negate)) := by
  have hpf : flagPf c.flags = !decide (Cpu.lowByteOnes c.flags.r.toNat % 2 = 1) := by
    rw [flagPf_arith hk, Cpu.evenParity_eq, ← decide_not]
    exact decide_eq_decide.mpr Nat.mod_two_ne_one.symm
  have hodd : BitVec.ofNat 32 (ones (c.flags.r &&& 0xFF)) &&& 1 = truth (!flagPf c.flags) := by
    rw [ofNat_and_one, ones_and_byte, hpf, Bool.not_not]
  intro st
  cases negate with
  | false =>
    refine ((pushes_field home c imports hl (load_r home c)).run _ st).trans ?_
    refine Eq.trans (b := .next ⟨_, _, truth (decide
      (BitVec.ofNat 32 (ones (c.flags.r &&& 0xFF)) &&& 1 = 0)) :: st⟩) rfl ?_
    rw [hodd]
    cases flagPf c.flags <;> rfl
  | true =>
    refine ((pushes_field home c imports hl (load_r home c)).run _ st).trans ?_
    refine Eq.trans (b := .next ⟨_, _,
      (BitVec.ofNat 32 (ones (c.flags.r &&& 0xFF)) &&& 1) :: st⟩) rfl ?_
    rw [hodd]
    cases flagPf c.flags <;> rfl

omit hl in
/-- A value at the top of the word, compared with zero. -/
theorem pushes_negative {code : Code} {v : U32}
    (hv : Pushes (wasmEnv imports) (home.mem c) locals code (top c.flags.w.bits v)) :
    Pushes (wasmEnv imports) (home.mem c) locals
      (code ++ ([.const 0] : Code) ++ ([.op .ltS] : Code))
      (truth (operand c.flags.w v).msb) := by
  refine (hv.binary (pushes_const 0) fun _ => rfl).congr (congrArg truth ?_)
  exact Bool.eq_iff_iff.mpr
    (decide_eq_true_iff.trans (top_toInt_neg_iff (Width.bits_pos _).2 _))

omit hl in
theorem pushes_nonnegative {code : Code} {v : U32}
    (hv : Pushes (wasmEnv imports) (home.mem c) locals code (top c.flags.w.bits v)) :
    Pushes (wasmEnv imports) (home.mem c) locals
      (code ++ ([.const 0] : Code) ++ ([.op .geS] : Code))
      (truth (!(operand c.flags.w v).msb)) := by
  refine (hv.binary (pushes_const 0) fun _ => rfl).congr (congrArg truth ?_)
  rw [Bool.eq_iff_iff, decide_eq_true_iff, Bool.not_eq_true', ← Bool.not_eq_true, ← not_lt]
  exact not_congr (top_toInt_neg_iff (Width.bits_pos _).2 _)

variable (hw : l.lastW = some c.flags.w) (hk : c.flags.kind.isArith = true)

include hw hk

theorem pushes_zero : Pushes (wasmEnv imports) (home.mem c) locals (l.pushR ++ ([.op .eqz] : Code))
    (truth (flagZf c.flags)) := by
  refine ((pushes_r imports hl hw).unary fun _ => rfl).congr (congrArg truth ?_)
  rw [flagZf_operand hk]
  exact decide_eq_decide.mpr (top_eq_zero_iff (Width.bits_pos _).2 _)

theorem pushes_nonzero : Pushes (wasmEnv imports) (home.mem c) locals (l.rAgainstZero .ne)
    (truth (!flagZf c.flags)) := by
  refine ((pushes_r imports hl hw).binary (pushes_const 0) fun _ => rfl).congr (congrArg truth ?_)
  rw [flagZf_operand hk, ← decide_not]
  exact decide_eq_decide.mpr (not_congr (top_eq_zero_iff (Width.bits_pos _).2 _))

theorem pushes_sign : Pushes (wasmEnv imports) (home.mem c) locals (l.rAgainstZero .ltS)
    (truth (flagSf c.flags)) := by
  rw [flagSf_operand hk]
  exact pushes_negative imports (pushes_r imports hl hw)

theorem pushes_not_sign : Pushes (wasmEnv imports) (home.mem c) locals (l.rAgainstZero .geS)
    (truth (!flagSf c.flags)) := by
  rw [flagSf_operand hk]
  exact pushes_nonnegative imports (pushes_r imports hl hw)

/-- The conditions every kind answers from the result alone. -/
theorem pushes_result (cc : Cond) (hcc : cc ∈ [Cond.z, .nz, .s, .ns, .p, .np]) :
    Pushes (wasmEnv imports) (home.mem c) locals (l.emitSub cc) (truth (condOf cc c.flags)) := by
  cases cc with
  | z => exact pushes_zero imports hl hw hk
  | nz => exact pushes_nonzero imports hl hw hk
  | s => exact pushes_sign imports hl hw hk
  | ns => exact pushes_not_sign imports hl hw hk
  | p => exact (pushes_parity imports hl hk false).congr (by rw [Bool.bne_false]; rfl)
  | np => exact (pushes_parity imports hl hk true).congr (by rw [Bool.bne_true]; rfl)
  | _ => exact absurd hcc (by decide)

end

/-! ## The kinds -/

theorem decide_top_le_zero (w : Width) (v : U32) :
    decide ((top w.bits v).toInt ≤ (0 : U32).toInt) =
      (decide (operand w v = 0) || (operand w v).msb) := by
  rw [Bool.eq_iff_iff, decide_eq_true_iff, Bool.or_eq_true, decide_eq_true_iff, le_iff_eq_or_lt]
  refine or_congr ?_ (top_toInt_neg_iff (Width.bits_pos w).2 v)
  rw [← Cpu.toInt_eq_iff]
  exact top_eq_zero_iff (Width.bits_pos w).2 v

section

variable (imports : Imports) {l : WasmLower} {home : CpuHome l.state.lay} {c : X86Cpu}
  {locals : WasmLocal → U32} (hl : locals .cpu = home.addr) (hw : l.lastW = some c.flags.w)

include hl hw

theorem pushes_aAgainstB {op : Op} {v : U32} (ho : ∀ st, op.apply
    (top c.flags.w.bits c.flags.b :: top c.flags.w.bits c.flags.a :: st) = some (v :: st)) :
    Pushes (wasmEnv imports) (home.mem c) locals (l.aAgainstB op) v :=
  (pushes_a imports hl hw).binary (pushes_b imports hl hw) ho

theorem pushes_emitSub (hkind : c.flags.kind = .sub) (hc : Consistent c.flags) (cc : Cond) :
    Pushes (wasmEnv imports) (home.mem c) locals (l.emitSub cc) (truth (condOf cc c.flags)) := by
  have hk : c.flags.kind.isArith = true := by rw [hkind]; rfl
  have hbits := (Width.bits_pos c.flags.w).2
  obtain ⟨hb, hnb, hbe, ha⟩ := Cpu.unsigned_sub hkind hc
  obtain ⟨hlt, hge, hle, hgt⟩ := Cpu.signed_sub hkind hc
  have hover : Pushes (wasmEnv imports) (home.mem c) locals
      ((l.pushA ++ l.pushB ++ ([.op .xor] : Code)) ++ (l.pushA ++ l.pushR ++ ([.op .xor] : Code)) ++
        ([.op .and] : Code))
      (top c.flags.w.bits ((c.flags.a ^^^ c.flags.b) &&& (c.flags.a ^^^ c.flags.r))) := by
    rw [← top_and, ← top_xor, ← top_xor]
    exact ((pushes_a imports hl hw).binary (pushes_b imports hl hw) fun _ => rfl).binary
      ((pushes_a imports hl hw).binary (pushes_r imports hl hw) fun _ => rfl) fun _ => rfl
  have hof : (operand c.flags.w
      ((c.flags.a ^^^ c.flags.b) &&& (c.flags.a ^^^ c.flags.r))).msb = flagOf c.flags := by
    unfold operand
    rw [BitVec.setWidth_and, BitVec.setWidth_xor, BitVec.setWidth_xor, BitVec.msb_and,
      BitVec.msb_xor, BitVec.msb_xor, Cpu.flagOf_sub hkind]
    exact congrArg _ (bne_comm)
  cases cc with
  | o => exact (pushes_negative imports hover).congr (congrArg truth hof)
  | no => exact (pushes_nonnegative imports hover).congr (by rw [hof]; rfl)
  | b =>
    refine (pushes_aAgainstB imports hl hw fun _ => rfl).congr (congrArg truth ?_)
    exact (decide_eq_decide.mpr (top_lt_iff hbits _ _)).trans hb.symm
  | nb =>
    refine (pushes_aAgainstB imports hl hw fun _ => rfl).congr (congrArg truth ?_)
    exact (decide_eq_decide.mpr (top_le_iff hbits _ _)).trans hnb.symm
  | be =>
    refine (pushes_aAgainstB imports hl hw fun _ => rfl).congr (congrArg truth ?_)
    exact (decide_eq_decide.mpr (top_le_iff hbits _ _)).trans hbe.symm
  | a =>
    refine (pushes_aAgainstB imports hl hw fun _ => rfl).congr (congrArg truth ?_)
    exact (decide_eq_decide.mpr (top_lt_iff hbits _ _)).trans ha.symm
  | l =>
    refine (pushes_aAgainstB imports hl hw fun _ => rfl).congr (congrArg truth ?_)
    exact (decide_eq_decide.mpr (top_toInt_lt_iff hbits _ _)).trans hlt.symm
  | ge =>
    refine (pushes_aAgainstB imports hl hw fun _ => rfl).congr (congrArg truth ?_)
    exact (decide_eq_decide.mpr (top_toInt_le_iff hbits _ _)).trans hge.symm
  | le =>
    refine (pushes_aAgainstB imports hl hw fun _ => rfl).congr (congrArg truth ?_)
    exact (decide_eq_decide.mpr (top_toInt_le_iff hbits _ _)).trans hle.symm
  | g =>
    refine (pushes_aAgainstB imports hl hw fun _ => rfl).congr (congrArg truth ?_)
    exact (decide_eq_decide.mpr (top_toInt_lt_iff hbits _ _)).trans hgt.symm
  | _ => exact pushes_result imports hl hw hk _ (by decide)

/-- With CF and OF clear every condition is one on the result. -/
theorem pushes_emitLogic (hkind : c.flags.kind = .logic) (cc : Cond) :
    Pushes (wasmEnv imports) (home.mem c) locals (l.emitLogic cc) (truth (condOf cc c.flags)) := by
  have hk : c.flags.kind.isArith = true := by rw [hkind]; rfl
  have hbits := (Width.bits_pos c.flags.w).2
  obtain ⟨hcf, hof⟩ := Cpu.flags_logic hkind
  have hz := pushes_zero imports hl hw hk
  have hnz := pushes_nonzero imports hl hw hk
  have hs := pushes_sign imports hl hw hk
  have hns := pushes_not_sign imports hl hw hk
  cases cc with
  | o | b => exact (pushes_const 0).congr (by simp only [condOf, condFlags, hcf, hof]; rfl)
  | no | nb => exact (pushes_const 1).congr (by simp only [condOf, condFlags, hcf, hof]; rfl)
  | z => exact hz
  | be => exact hz.congr (by simp only [condOf, condFlags, hcf, Bool.or_false])
  | nz => exact hnz
  | a => exact hnz.congr (by simp only [condOf, condFlags, hcf, Bool.not_false, Bool.and_true])
  | s => exact hs
  | l => exact hs.congr (by simp only [condOf, condFlags, hof, Bool.bne_false])
  | ns => exact hns
  | ge =>
    refine hns.congr ?_
    rw [condOf, condFlags, hof]
    cases flagSf c.flags <;> rfl
  | p => exact pushes_result imports hl hw hk .p (by decide)
  | np => exact pushes_result imports hl hw hk .np (by decide)
  | le =>
    refine ((pushes_r imports hl hw).binary (pushes_const 0) fun _ => rfl).congr (congrArg truth ?_)
    rw [condOf, condFlags, hof, Bool.bne_false, flagZf_operand hk, flagSf_operand hk,
      decide_top_le_zero]
  | g =>
    refine ((pushes_r imports hl hw).binary (pushes_const 0) fun _ => rfl).congr (congrArg truth ?_)
    rw [condOf, condFlags, hof, flagZf_operand hk, flagSf_operand hk, ← Bool.not_inj_iff,
      ← decide_not, decide_eq_decide.mpr not_lt, decide_top_le_zero]
    cases (operand c.flags.w c.flags.r).msb <;> simp

/-! ## ADD -/

theorem pushes_addOverflowBits : Pushes (wasmEnv imports) (home.mem c) locals
    l.pushAddOverflowBits
    (top c.flags.w.bits ((c.flags.a ^^^ c.flags.r) &&& (c.flags.b ^^^ c.flags.r))) := by
  rw [← top_and, ← top_xor, ← top_xor]
  exact ((pushes_a imports hl hw).binary (pushes_r imports hl hw) fun _ => rfl).binary
    ((pushes_b imports hl hw).binary (pushes_r imports hl hw) fun _ => rfl) fun _ => rfl

omit hl hw in
theorem addOverflow_msb (hkind : c.flags.kind = .add) : (operand c.flags.w
    ((c.flags.a ^^^ c.flags.r) &&& (c.flags.b ^^^ c.flags.r))).msb = flagOf c.flags := by
  unfold operand
  rw [BitVec.setWidth_and, BitVec.setWidth_xor, BitVec.setWidth_xor, BitVec.msb_and,
    BitVec.msb_xor, BitVec.msb_xor, Cpu.flagOf_add hkind]
  unfold operand
  cases (c.flags.a.setWidth c.flags.w.bits).msb <;> cases (c.flags.b.setWidth c.flags.w.bits).msb <;>
    cases (c.flags.r.setWidth c.flags.w.bits).msb <;> rfl

/-- The untruncated sum is negative. -/
theorem pushes_addLess (hkind : c.flags.kind = .add) :
    Pushes (wasmEnv imports) (home.mem c) locals l.pushAddLess
      (truth (flagSf c.flags != flagOf c.flags)) := by
  have hk : c.flags.kind.isArith = true := by rw [hkind]; rfl
  have hbits : Pushes (wasmEnv imports) (home.mem c) locals
      (l.pushR ++ l.pushAddOverflowBits ++ ([.op .xor] : Code))
      (top c.flags.w.bits (c.flags.r ^^^
        ((c.flags.a ^^^ c.flags.r) &&& (c.flags.b ^^^ c.flags.r)))) := by
    rw [← top_xor]
    exact (pushes_r imports hl hw).binary (pushes_addOverflowBits imports hl hw) fun _ => rfl
  refine (pushes_negative imports hbits).congr (congrArg truth ?_)
  rw [operand, BitVec.setWidth_xor, BitVec.msb_xor, flagSf_operand hk, ← addOverflow_msb hkind]
  rfl

theorem pushes_emitAdd (hkind : c.flags.kind = .add) (cc : Cond) :
    Pushes (wasmEnv imports) (home.mem c) locals (l.emitAdd cc) (truth (condOf cc c.flags)) := by
  have hk : c.flags.kind.isArith = true := by rw [hkind]; rfl
  have hbits := (Width.bits_pos c.flags.w).2
  have hcf := Cpu.flagCf_add hkind
  have hz := pushes_zero imports hl hw hk
  have hnz := pushes_nonzero imports hl hw hk
  have hless := pushes_addLess imports hl hw hkind
  have hover := pushes_addOverflowBits imports hl hw
  have hof := addOverflow_msb hkind
  have hb : Pushes (wasmEnv imports) (home.mem c) locals (l.pushAddCarry .ltU)
      (truth (flagCf c.flags)) := by
    refine ((pushes_r imports hl hw).binary (pushes_a imports hl hw) fun _ => rfl).congr (congrArg truth ?_)
    exact (decide_eq_decide.mpr (top_lt_iff hbits _ _)).trans hcf.symm
  have hnb : Pushes (wasmEnv imports) (home.mem c) locals (l.pushAddCarry .geU)
      (truth (!flagCf c.flags)) := by
    refine ((pushes_r imports hl hw).binary (pushes_a imports hl hw) fun _ => rfl).congr (congrArg truth ?_)
    rw [hcf, ← decide_not]
    exact decide_eq_decide.mpr ((top_le_iff hbits _ _).trans BitVec.not_lt.symm)
  have hresult := pushes_result imports hl hw hk
  cases cc with
  | o => exact (pushes_negative imports hover).congr (congrArg truth hof)
  | no => exact (pushes_nonnegative imports hover).congr (by rw [hof]; rfl)
  | b => exact hb
  | nb => exact hnb
  | be => exact (hb.or hz).congr (by rw [Bool.or_comm]; rfl)
  | a => exact (hnb.and hnz).congr (by rw [Bool.and_comm]; rfl)
  | l => exact hless
  | ge => exact hless.not.congr (congrArg truth (Bool.not_not _))
  | le => exact (hless.or hz).congr (by rw [Bool.or_comm]; rfl)
  | g =>
    refine (hless.not.and hnz).congr ?_
    rw [Bool.and_comm]
    exact congrArg (fun b => truth (_ && b)) (Bool.not_not _)
  | z => exact hresult .z (by decide)
  | nz => exact hresult .nz (by decide)
  | s => exact hresult .s (by decide)
  | ns => exact hresult .ns (by decide)
  | p => exact hresult .p (by decide)
  | np => exact hresult .np (by decide)

/-! ## INC and DEC -/

omit hl in
theorem one_shifted : (1 : U32) <<< l.normShift = top c.flags.w.bits 1 := by
  rw [normShift_eq hw, top]

/-- The operand below a constant that is shifted as it is. -/
theorem pushes_below (k : U32) : Pushes (wasmEnv imports) (home.mem c) locals
    (l.aAgainst (top c.flags.w.bits k) .ltS)
    (truth (decide ((operand c.flags.w c.flags.a).toInt < (operand c.flags.w k).toInt))) := by
  refine ((pushes_a imports hl hw).binary (pushes_const _) fun _ => rfl).congr (congrArg truth ?_)
  exact decide_eq_decide.mpr (top_toInt_lt_iff (Width.bits_pos _).2 _ _)

theorem pushes_notBelow (k : U32) : Pushes (wasmEnv imports) (home.mem c) locals
    (l.aAgainst (top c.flags.w.bits k) .geS)
    (truth !decide ((operand c.flags.w c.flags.a).toInt < (operand c.flags.w k).toInt)) := by
  refine ((pushes_a imports hl hw).binary (pushes_const _) fun _ => rfl).congr (congrArg truth ?_)
  rw [← decide_not, decide_eq_decide, not_lt]
  exact top_toInt_le_iff (Width.bits_pos _).2 _ _

theorem pushes_notAbove (k : U32) : Pushes (wasmEnv imports) (home.mem c) locals
    (l.aAgainst (top c.flags.w.bits k) .leS)
    (truth (decide ((operand c.flags.w c.flags.a).toInt ≤ (operand c.flags.w k).toInt))) := by
  refine ((pushes_a imports hl hw).binary (pushes_const _) fun _ => rfl).congr (congrArg truth ?_)
  exact decide_eq_decide.mpr (top_toInt_le_iff (Width.bits_pos _).2 _ _)

theorem pushes_above (k : U32) : Pushes (wasmEnv imports) (home.mem c) locals
    (l.aAgainst (top c.flags.w.bits k) .gtS)
    (truth !decide ((operand c.flags.w c.flags.a).toInt ≤ (operand c.flags.w k).toInt)) := by
  refine ((pushes_a imports hl hw).binary (pushes_const _) fun _ => rfl).congr (congrArg truth ?_)
  rw [← decide_not, decide_eq_decide, not_le]
  exact top_toInt_lt_iff (Width.bits_pos _).2 _ _

omit hl hw in
/-- The least value at a width. -/
theorem decide_top_least (w : Width) (v : U32) : decide (top w.bits v = 0x80000000) =
    decide ((operand w v).toNat = 2 ^ (w.bits - 1)) := by
  have hpos : 0 < w.bits := by have := w.bits_pos; omega
  rw [decide_eq_decide, ← BitVec.toNat_inj]
  exact top_toNat_half_iff w.bits_pos.2 v hpos

omit hw in
/-- The conditions on the preserved carry. -/
theorem pushes_preserved (hkind : c.flags.kind = .inc ∨ c.flags.kind = .dec)
    (hcarry : c.flags.carryIn = 0 ∨ c.flags.carryIn = 1) :
    Pushes (wasmEnv imports) (home.mem c) locals WasmLower.pushCarryIn
      (truth (flagCf c.flags)) := by
  refine (pushes_carryIn imports hl).congr ?_
  rw [Cpu.flagCf_incdec hkind]
  obtain h | h := hcarry <;> rw [h] <;> rfl

/-- What the two kinds share: the carry, and the conditions on the result. -/
theorem pushes_incdec_unsigned (dec : Bool) (hkind : c.flags.kind = .inc ∨ c.flags.kind = .dec)
    (hcarry : c.flags.carryIn = 0 ∨ c.flags.carryIn = 1) (cc : Cond)
    (hcc : cc.readsOverflow = false) :
    Pushes (wasmEnv imports) (home.mem c) locals (l.emitIncdec cc dec)
      (truth (condOf cc c.flags)) := by
  have hk : c.flags.kind.isArith = true := by
    obtain h | h := hkind <;> rw [h] <;> rfl
  have hz := pushes_zero imports hl hw hk
  have hnz := pushes_nonzero imports hl hw hk
  have hc := pushes_preserved imports hl hkind hcarry
  have hresult := pushes_result imports hl hw hk
  cases cc with
  | b => exact hc
  | nb => exact hc.not
  | be => exact (hc.or hz).congr (by rw [Bool.or_comm]; rfl)
  | a => exact (hc.not.and hnz).congr (by rw [Bool.and_comm]; rfl)
  | z => exact hresult .z (by decide)
  | nz => exact hresult .nz (by decide)
  | s => exact hresult .s (by decide)
  | ns => exact hresult .ns (by decide)
  | p => exact hresult .p (by decide)
  | np => exact hresult .np (by decide)
  | _ => cases hcc

theorem pushes_emitInc (hkind : c.flags.kind = .inc) (hc : Consistent c.flags)
    (hcarry : c.flags.carryIn = 0 ∨ c.flags.carryIn = 1) (cc : Cond) :
    Pushes (wasmEnv imports) (home.mem c) locals (l.emitIncdec cc false)
      (truth (condOf cc c.flags)) := by
  have hminus : -((1 : U32) <<< l.normShift) = top c.flags.w.bits (-1) := by
    rw [one_shifted hw, top_neg]
  have hint : (operand c.flags.w (-1)).toInt = -1 := by cases c.flags.w <;> rfl
  have hless := Cpu.less_of_inc hkind hc
  have hzf := Cpu.flagZf_inc hkind hc
  have hof := Cpu.flagOf_inc hkind
  have hle : (flagZf c.flags || (flagSf c.flags != flagOf c.flags)) =
      decide ((operand c.flags.w c.flags.a).toInt ≤ -1) := by
    rw [hzf, hless, ← Bool.decide_or]
    exact decide_eq_decide.mpr le_iff_eq_or_lt.symm
  have hbelow := pushes_below imports hl hw (-1)
  have hnotBelow := pushes_notBelow imports hl hw (-1)
  have hnotAbove := pushes_notAbove imports hl hw (-1)
  have habove := pushes_above imports hl hw (-1)
  rw [← hminus, hint, ← hless] at hbelow hnotBelow
  rw [← hminus, hint, ← hle] at hnotAbove habove
  cases hcc : cc.readsOverflow with
  | false => exact pushes_incdec_unsigned imports hl hw false (.inl hkind) hcarry cc hcc
  | true =>
    cases cc with
    | o =>
      refine ((pushes_r imports hl hw).binary (pushes_const _) fun _ => rfl).congr (congrArg truth ?_)
      rw [decide_top_least, ← hof]
      rfl
    | no =>
      refine ((pushes_r imports hl hw).binary (pushes_const _) fun _ => rfl).congr (congrArg truth ?_)
      rw [decide_not, decide_top_least, ← hof]
      rfl
    | l => exact hbelow
    | ge => exact hnotBelow.congr (congrArg truth (Bool.not_not _))
    | le => exact hnotAbove
    | g =>
      refine habove.congr ?_
      rw [Bool.not_or]
      exact congrArg (fun b => truth (_ && b)) (Bool.not_not _)
    | _ => cases hcc

theorem pushes_emitDec (hkind : c.flags.kind = .dec) (hc : Consistent c.flags)
    (hcarry : c.flags.carryIn = 0 ∨ c.flags.carryIn = 1) (cc : Cond) :
    Pushes (wasmEnv imports) (home.mem c) locals (l.emitIncdec cc true)
      (truth (condOf cc c.flags)) := by
  have hone : (operand c.flags.w 1).toInt = 1 := by cases c.flags.w <;> rfl
  have hzero : (operand c.flags.w 0).toInt = 0 := by cases c.flags.w <;> rfl
  have hless := Cpu.less_of_dec hkind hc
  have hzf := Cpu.flagZf_dec hkind hc
  have hof := Cpu.flagOf_dec hkind
  have hle : (flagZf c.flags || (flagSf c.flags != flagOf c.flags)) =
      decide ((operand c.flags.w c.flags.a).toInt ≤ 1) := by
    rw [hzf, hless, ← Bool.decide_or]
    refine decide_eq_decide.mpr ?_
    omega
  have hbelow := pushes_notAbove imports hl hw 0
  have hnotBelow := pushes_above imports hl hw 0
  have hnotAbove := pushes_notAbove imports hl hw 1
  have habove := pushes_above imports hl hw 1
  rw [top_zero, hzero, ← hless] at hbelow hnotBelow
  rw [← one_shifted hw, hone, ← hle] at hnotAbove habove
  cases hcc : cc.readsOverflow with
  | false => exact pushes_incdec_unsigned imports hl hw true (.inr hkind) hcarry cc hcc
  | true =>
    cases cc with
    | o =>
      refine ((pushes_a imports hl hw).binary (pushes_const _) fun _ => rfl).congr (congrArg truth ?_)
      rw [decide_top_least, ← hof]
      rfl
    | no =>
      refine ((pushes_a imports hl hw).binary (pushes_const _) fun _ => rfl).congr (congrArg truth ?_)
      rw [decide_not, decide_top_least, ← hof]
      rfl
    | l => exact hbelow
    | ge => exact hnotBelow.congr (congrArg truth (Bool.not_not _))
    | le => exact hnotAbove
    | g =>
      refine habove.congr ?_
      rw [Bool.not_or]
      exact congrArg (fun b => truth (_ && b)) (Bool.not_not _)
    | _ => cases hcc

/-- An inline condition on a tuple of a known kind and width. -/
theorem pushes_condValue (hlast : l.lastKind = some c.flags.kind)
    (hk : c.flags.kind.isArith = true) (hc : Consistent c.flags)
    (hcarry : c.flags.carryIn = 0 ∨ c.flags.carryIn = 1) (cc : Cond) :
    Pushes (wasmEnv imports) (home.mem c) locals (l.condValue cc)
      (truth (Cpu.cond cc c.flags)) := by
  rw [Cpu.cond_derived, WasmLower.condValue, hlast]
  cases hkind : c.flags.kind with
  | sub => exact pushes_emitSub imports hl hw hkind hc cc
  | logic => exact pushes_emitLogic imports hl hw hkind cc
  | add => exact pushes_emitAdd imports hl hw hkind cc
  | inc => exact pushes_emitInc imports hl hw hkind hc hcarry cc
  | dec => exact pushes_emitDec imports hl hw hkind hc hcarry cc
  | _ =>
    rw [hkind] at hk
    cases hk

end

end X86Port.Wasm
