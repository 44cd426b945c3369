import X86Port.Cpu.GuestMemory
import Mathlib.Tactic.Ring

/-!
# BOUND

The index is compared with a pair of bounds in memory. Both bounds are sign-extended from the
operand width; the index is not.

* `execute_bound`: what BOUND does when both bounds can be read.
* `boundSigned_iff`: when that is the signed comparison at the operand width.
-/

namespace X86Port.Cpu

variable {μ : Type}

/-- The operand further up in memory. -/
def Operand.displaced (o : Operand) (n : Nat) : Operand :=
  { o with disp := o.disp + BitVec.ofNat 32 n }

namespace Exec

/-- Two reads with one look at the fault: the second is made whatever became of the first, and its
refusal is the one that is told. -/
def readBoth (g : GuestMem μ) (o o' : Operand) : Exec μ (U32 × U32) := fun s =>
  match readOperand g o s with
  | .ok v t => (do let v' ← readOperand g o'; pure (v, v')) t
  | .error .fatal t => .error .fatal t
  | .error e t =>
    match readOperand g o' t with
    | .ok _ t => .error e t
    | .error e' t => .error e' t

def executeBound (g : GuestMem μ) (i : Insn) : Exec μ Unit := do
  let index ← readOperand g i.operand0
  let size := i.operand0.size
  let lower := { i.operand1 with size }
  let (lo, hi) ← readBoth g lower (lower.displaced size)
  let lo := signExtend lo size
  let hi := signExtend hi size
  if index.toInt < lo.toInt ∨ index.toInt > hi.toInt then fault .boundRange 0 else pure ()

/-- The families of `execute` with BOUND among them. -/
def withBound (g : GuestMem μ) (other : OtherOp → Insn → Exec μ Unit) :
    OtherOp → Insn → Exec μ Unit :=
  Function.update other .bound (executeBound g)

end Exec

/-- A decoded BOUND: a register and the pair in memory. -/
structure IsBound (i : Insn) (w : Width) : Prop where
  op : i.op = .other .bound
  index : i.operand0.kind = .reg
  pair : i.operand1.kind = .mem
  size : i.operand0.size = w.bytes
  width : w ≠ .byte

/-- The two bounds in memory can be read. -/
structure BoundsAt (g : GuestMem μ) (i : Insn) (s : Ctx μ) (lo hi : U32) : Prop where
  lower : g.read s.mem (effectiveAddress s.cpu i.operand1) i.operand0.size = some lo
  upper : g.read s.mem (effectiveAddress s.cpu (i.operand1.displaced i.operand0.size))
    i.operand0.size = some hi

/-- The index as a signed number of the operand width. -/
def boundIndex (i : Insn) (w : Width) (s : Ctx μ) : Int :=
  (operand w (s.cpu.reg i.operand0.reg)).toInt

def OutOfBounds (w : Width) (index : Int) (lo hi : U32) : Prop :=
  index < (operand w lo).toInt ∨ (operand w hi).toInt < index

instance (w : Width) (index : Int) (lo hi : U32) : Decidable (OutOfBounds w index lo hi) :=
  inferInstanceAs (Decidable (_ ∨ _))

/-- The comparison is the signed one: outside the bounds nothing changes, and inside them only
EIP. -/
def BoundSigned (g : GuestMem μ) (other : OtherOp → Insn → Exec μ Unit) (i : Insn) (w : Width)
    (s : Ctx μ) (lo hi : U32) : Prop :=
  let next := s.cpu.eip + i.length
  Exec.executeDecoded g (Exec.withBound g other) i s =
    if OutOfBounds w (boundIndex i w s) lo hi then
      .error (.fault .boundRange 0) { s with nextEip := next }
    else .ok () { s with cpu := { s.cpu with eip := next }, nextEip := next }

theorem toInt_signExtend_bytes (v : U32) (w : Width) :
    (signExtend v w.bytes).toInt = (operand w v).toInt := by
  cases w with
  | byte => exact BitVec.toInt_signExtend_of_le (by decide)
  | word => exact BitVec.toInt_signExtend_of_le (by decide)
  | dword => exact congrArg BitVec.toInt (BitVec.setWidth_eq v).symm

namespace Exec

variable {g : GuestMem μ} {s : Ctx μ}

theorem readBoth_ok {o o' : Operand} {v v' : U32} (h : readOperand g o s = .ok v s)
    (h' : readOperand g o' s = .ok v' s) : readBoth g o o' s = .ok (v, v') s := by
  unfold readBoth
  rw [h]
  exact bind_ok h'

end Exec

open Exec

section Bound

variable {g : GuestMem μ} {other : OtherOp → Insn → Exec μ Unit} {i : Insn} {w : Width} {s : Ctx μ}
  {lo hi : U32}

/-- The comparison as it is made, of the whole register word. -/
def Trapped (i : Insn) (w : Width) (s : Ctx μ) (lo hi : U32) : Prop :=
  (regRead s.cpu.toCpuState i.operand0.reg w).toInt < (operand w lo).toInt ∨
    (operand w hi).toInt < (regRead s.cpu.toCpuState i.operand0.reg w).toInt

instance (i : Insn) (w : Width) (s : Ctx μ) (lo hi : U32) : Decidable (Trapped i w s lo hi) :=
  inferInstanceAs (Decidable (_ ∨ _))

theorem execute_bound (hbound : IsBound i w) (hb : BoundsAt g i s lo hi) :
    execute g (withBound g other) i s =
      if Trapped i w s lo hi then .error (.fault .boundRange 0) s else .ok () s := by
  have hsize : Width.ofBytes i.operand0.size = some w := by
    rw [hbound.size]
    exact ofBytes_bytes w
  have hindex := readOperand_reg g (s := s) hbound.index hsize
  have hlower : readOperand g { i.operand1 with size := i.operand0.size } s = .ok lo s :=
    readOperand_mem g hbound.pair hb.lower
  have hupper : readOperand g
      (Operand.displaced { i.operand1 with size := i.operand0.size } i.operand0.size) s = .ok hi s :=
    readOperand_mem g hbound.pair hb.upper
  unfold execute
  rw [hbound.op]
  change (executeBound g i) s = _
  unfold executeBound
  rw [bind_ok hindex, bind_ok (readBoth_ok hlower hupper)]
  simp only [hbound.size, toInt_signExtend_bytes, gt_iff_lt]
  by_cases h : Trapped i w s lo hi
  · rw [if_pos h]
    exact congrFun (if_pos h) s
  · rw [if_neg h]
    exact congrFun (if_neg h) s

theorem executeDecoded_bound (hbound : IsBound i w) (hb : BoundsAt g i s lo hi) :
    executeDecoded g (withBound g other) i s =
      if Trapped i w s lo hi then
        .error (.fault .boundRange 0) { s with nextEip := s.cpu.eip + i.length }
      else .ok () { s with cpu := { s.cpu with eip := s.cpu.eip + i.length },
                           nextEip := s.cpu.eip + i.length } := by
  have hexec : execute g (withBound g other) i { s with nextEip := s.cpu.eip + i.length } =
      if Trapped i w s lo hi then
        .error (.fault .boundRange 0) { s with nextEip := s.cpu.eip + i.length }
      else .ok () { s with nextEip := s.cpu.eip + i.length } :=
    execute_bound hbound ⟨hb.lower, hb.upper⟩
  rcases executeDecoded_cases g (withBound g other) i s with ⟨t, hok, hrun⟩ | ⟨e, t, herror, hrun⟩
  · rw [hexec] at hok
    split_ifs at hok ⊢ with h
    cases hok
    exact hrun
  · rw [hexec] at herror
    split_ifs at herror ⊢ with h
    cases herror
    exact hrun

/-- At 16 bits a set sign bit always traps. -/
theorem trapped_iff (hw : w ≠ .byte) : Trapped i w s lo hi ↔
    OutOfBounds w (boundIndex i w s) lo hi ∨
      w = .word ∧ (operand w (s.cpu.reg i.operand0.reg)).msb = true := by
  have hread := toInt_regRead s.cpu.toCpuState i.operand0.reg hw
  unfold Trapped OutOfBounds boundIndex
  rw [hread]
  split_ifs with hneg
  · have hlower : -(2 : Int) ^ 15 ≤ (operand w (s.cpu.reg i.operand0.reg)).toInt := by
      rw [hneg.1]
      exact BitVec.le_toInt _
    have hupper : (operand w hi).toInt < 2 ^ 15 := by
      rw [hneg.1]
      exact BitVec.toInt_lt
    simp only [hneg, and_self, or_true, iff_true]
    exact .inr (by omega)
  · rw [add_zero]
    exact (or_iff_left hneg).symm

/-- The condition under which BOUND compares signed at its operand width. -/
theorem boundSigned_iff (hbound : IsBound i w) (hb : BoundsAt g i s lo hi) :
    BoundSigned g other i w s lo hi ↔
      w = .dword ∨ (operand w (s.cpu.reg i.operand0.reg)).msb = false ∨
        OutOfBounds w (boundIndex i w s) lo hi := by
  unfold BoundSigned
  dsimp only
  rw [executeDecoded_bound hbound hb]
  by_cases hout : OutOfBounds w (boundIndex i w s) lo hi
  · rw [if_pos ((trapped_iff hbound.width).mpr (.inl hout)), if_pos hout]
    exact ⟨fun _ => .inr (.inr hout), fun _ => rfl⟩
  · rw [if_neg hout]
    by_cases hneg : w = .word ∧ (operand w (s.cpu.reg i.operand0.reg)).msb = true
    · rw [if_pos ((trapped_iff hbound.width).mpr (.inr hneg)), hneg.2]
      refine ⟨nofun, fun h => ?_⟩
      rcases h with h | h | h
      · exact absurd (hneg.1.symm.trans h) (by decide)
      · cases h
      · exact absurd h hout
    · rw [if_neg fun h => ((trapped_iff hbound.width).mp h).elim hout hneg]
      refine ⟨fun _ => ?_, fun _ => rfl⟩
      have hwidth := hbound.width
      cases w with
      | byte => exact absurd rfl hwidth
      | word => exact .inr (.inl (by simpa using hneg))
      | dword => exact .inl rfl

end Bound

/-! ## A negative index -/

section Negative

open Memory (Mem Host)

def pageAtZero : Mem := ⟨0, 0, 0x1000, none, none⟩

/-- BOUND AX, [0]. -/
def boundAx : Insn where
  length := 4
  op := .other .bound
  operands := 2
  operand0 := ⟨.ds, .reg, 2, eax, none, none, 0, 0, 0, false, false, false⟩
  operand1 := ⟨.ds, .mem, 4, eax, none, none, 0, 0, 0, false, false, false⟩
  operand2 := ⟨.ds, .none, 0, eax, none, none, 0, 0, 0, false, false, false⟩
  addressWidth := 32

/-- AX holds an index, and both bounds are minus one. -/
def indexed (ax : U32) : Ctx Host where
  cpu := { reg := fun r => if r = eax then ax else 0, df := false,
           flags := ⟨0, 0, 0, .none, .dword, 0⟩, eip := 0, fsBase := 0, gsBase := 0 }
  seg := fun _ => 0
  mem := ⟨fun _ => 0xFF, false, []⟩
  nextEip := 0

theorem isBound_boundAx : IsBound boundAx .word where
  op := rfl
  index := rfl
  pair := rfl
  size := rfl
  width := by decide

theorem boundsAt_indexed (ax : U32) :
    BoundsAt (guestMem pageAtZero) boundAx (indexed ax) 0xFFFF 0xFFFF where
  lower := by
    change (guestMem pageAtZero).read ⟨fun _ => 0xFF, false, []⟩ 0 Width.word.bytes = _
    rw [guestMem_read rfl, if_pos (by decide)]
    decide
  upper := by
    change (guestMem pageAtZero).read ⟨fun _ => 0xFF, false, []⟩ 2 Width.word.bytes = _
    rw [guestMem_read rfl, if_pos (by decide)]
    decide

theorem boundAx_positive :
    BoundSigned (guestMem pageAtZero) (fun _ _ => unsupported) boundAx .word (indexed 1) 0xFFFF 0xFFFF :=
  (boundSigned_iff isBound_boundAx (boundsAt_indexed 1)).mpr (.inr (.inl (by decide)))

/-- Minus one lies between minus one and minus one, and traps. -/
theorem boundAx_negative :
    ¬ BoundSigned (guestMem pageAtZero) (fun _ _ => unsupported) boundAx .word (indexed 0xFFFF) 0xFFFF
      0xFFFF := by
  unfold BoundSigned
  dsimp only
  rw [executeDecoded_bound isBound_boundAx (boundsAt_indexed 0xFFFF), if_pos (by decide),
    if_neg (by decide)]
  nofun

end Negative

end X86Port.Cpu
