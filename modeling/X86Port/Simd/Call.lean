import X86Port.Lib.Fields
import X86Port.Simd.Forms

/-!
# The SIMD call of a translated block

`jit_x64_simd.c`: the block packs the operands of an instruction into a word, and `simd_call`
runs the instruction that the word unpacks to.

* `shapeWord`, `unshape`: the packing, and the reading of it.
* `SameCall`: what an execution through a host pointer depends on.
* `simdCall_shapeWord`: the call of a packed instruction is its execution.
-/

namespace X86Port.Simd

open Cpu (Reg Operand OperandKind Width X86Cpu)
open Lib.Fields
open Memory (Host)

/-! ## The word -/

def SimdInsn.operand (i : SimdInsn) : Nat → Operand
  | 0 => i.operand0
  | 1 => i.operand1
  | _ => i.operand2

/-- An operand of zero bytes. -/
def zeroOperand : Operand where
  seg := .es
  kind := .none
  size := 0
  reg := 0
  base := some 0
  index := some 0
  scale := 0
  disp := 0
  imm := 0
  addr16 := false
  indexLowByte := false
  relative := false

/-- `call_operand_ok`. -/
def callOperandOk (o : Operand) : Bool :=
  match o.kind with
  | .xmm | .mmx => true
  | .reg => o.size = 4
  | .mem => !o.addr16
  | .imm => true
  | _ => false

def simdCallIsEmittable (approx : Bool) (i : SimdInsn) : Bool :=
  !isRefused approx i.simd && i.simd ≠ .maskmovdqu && i.simd ≠ .pf && i.operands ≤ 3 &&
    (List.range i.operands).all (fun k => callOperandOk (i.operand k)) &&
    (List.range i.operands).countP (fun k => (i.operand k).kind = .mem) ≤ 1

/-- The register number of an operand, which is -1 when it has none. -/
def registerOf (o : Operand) : Option Reg :=
  match o.kind with
  | .reg | .mmx | .xmm | .st => some o.reg
  | _ => none

def shapeOperand (o : Operand) : U32 :=
  BitVec.ofNat 32 o.kind.ctorIdx ||| BitVec.ofNat 32 ((registerOf o).getD 0).val <<< 4

def unshapeOperand (bits : U32) : Operand :=
  { zeroOperand with
    kind := .ofNat (bits &&& 0xF).toNat
    reg := Fin.ofNat 8 (bits >>> 4 &&& 0x7).toNat
    size := 4 }

/-- The word of `emit_simd_call`. -/
def shapeWord (i : SimdInsn) : U32 :=
  (List.range i.operands).foldl
    (fun shape k => shape ||| shapeOperand (i.operand k) <<< (10 + 7 * k))
    (BitVec.ofNat 32 i.simd.ctorIdx ||| BitVec.ofNat 32 i.operands <<< 8)

/-- The immediate of `emit_simd_call`: that of the last immediate operand. -/
def shapeImmediate (i : SimdInsn) : U32 :=
  (List.range i.operands).foldl
    (fun immediate k => if (i.operand k).kind = .imm then (i.operand k).imm else immediate) 0

/-- The operand that `simd_call` makes; the rest of the instruction is zero bytes. -/
def callOperand (shape imm : U32) (k : Nat) : Operand :=
  if k < (shape >>> 8 &&& 3).toNat then
    let o := unshapeOperand (shape >>> (10 + 7 * k))
    if o.kind = .imm then { o with imm, size := 1 } else o
  else zeroOperand

def unshape (shape imm : U32) : SimdInsn where
  simd := .ofNat (shape &&& 0xFF).toNat
  pf := 0
  operands := (shape >>> 8 &&& 3).toNat
  operand0 := callOperand shape imm 0
  operand1 := callOperand shape imm 1
  operand2 := callOperand shape imm 2
  dest := some (callOperand shape imm 0).reg

/-- `simd_call`: a refusal ends the process. -/
def simdCall (E : Evaluators) (p : Nat) (shape imm : U32) : Run Unit := fun s =>
  match simdExecuteHost E p (unshape shape imm) s with
  | .ok _ t => .ok () t
  | .error _ t => .error .fatal t

/-! ## What the word holds -/

theorem kind_lt (k : OperandKind) : k.ctorIdx < 16 := by cases k <;> decide

theorem simd_lt (op : SimdOp) : op.ctorIdx < 256 := by cases op <;> decide

theorem toNat_small {n : Nat} (h : n < 2 ^ 8) : (BitVec.ofNat 32 n).toNat = n :=
  Nat.mod_eq_of_lt (by omega)

theorem toNat_shapeOperand (o : Operand) : (shapeOperand o).toNat =
    o.kind.ctorIdx + ((registerOf o).getD 0).val * 2 ^ 4 := by
  have hk := kind_lt o.kind
  have hr := ((registerOf o).getD 0).isLt
  have hkind := toNat_small (n := o.kind.ctorIdx) (by omega)
  have hreg := toNat_small (n := ((registerOf o).getD 0).val) (by omega)
  unfold shapeOperand
  rw [toNat_or_shiftLeft (by omega) (by omega), hkind, hreg]

theorem shapeOperand_lt (o : Operand) : (shapeOperand o).toNat < 2 ^ 7 := by
  have hk := kind_lt o.kind
  have hr := ((registerOf o).getD 0).isLt
  rw [toNat_shapeOperand]
  omega

/-- The loop has put the operands so far at their places. -/
theorem shape_loop (i : SimdInsn) (h : i.operands ≤ 3) : ∀ n ≤ 3,
    ∃ word, word = (List.range n).foldl
        (fun shape k => shape ||| shapeOperand (i.operand k) <<< (10 + 7 * k))
        (BitVec.ofNat 32 i.simd.ctorIdx ||| BitVec.ofNat 32 i.operands <<< 8) ∧
      word.toNat < 2 ^ (10 + 7 * n) ∧ Lib.Fields.field word.toNat 0 8 = i.simd.ctorIdx ∧
      Lib.Fields.field word.toNat 8 2 = i.operands ∧
      ∀ k < n, Lib.Fields.field word.toNat (10 + 7 * k) 7 = (shapeOperand (i.operand k)).toNat := by
  intro n
  induction n with
  | zero =>
    intro _
    have hs := simd_lt i.simd
    have hsimd := toNat_small (n := i.simd.ctorIdx) (by omega)
    have hops := toNat_small (n := i.operands) (by omega)
    have hword := toNat_or_shiftLeft (x := BitVec.ofNat 32 i.simd.ctorIdx)
      (y := BitVec.ofNat 32 i.operands) (n := 8) (by omega) (by omega)
    rw [hsimd, hops] at hword
    refine ⟨_, rfl, ?_, ?_, ?_, fun k hk => absurd hk (Nat.not_lt_zero k)⟩
    · rw [List.range_zero, List.foldl_nil, hword]
      omega
    · rw [List.range_zero, List.foldl_nil, hword, field_add_above (by omega)]
      unfold Lib.Fields.field
      omega
    · rw [List.range_zero, List.foldl_nil, hword, field_add_at (by omega)]
      omega
  | succ n ih =>
    intro hn
    obtain ⟨word, hword, hlt, hsimd, hops, hfields⟩ := ih (by omega)
    have ho := shapeOperand_lt (i.operand n)
    have hroom : (shapeOperand (i.operand n)).toNat * 2 ^ (10 + 7 * n) <
        2 ^ (10 + 7 * (n + 1)) := by
      calc _ < 2 ^ 7 * 2 ^ (10 + 7 * n) := Nat.mul_lt_mul_of_pos_right ho (Nat.two_pow_pos _)
        _ = 2 ^ (10 + 7 * (n + 1)) := by
          rw [← Nat.pow_add]
          congr 1
          omega
    have hnext := toNat_or_shiftLeft hlt
      (Nat.lt_of_lt_of_le hroom (Nat.pow_le_pow_right (by decide) (by omega)))
    refine ⟨word ||| shapeOperand (i.operand n) <<< (10 + 7 * n), ?_, ?_, ?_, ?_, fun k hk => ?_⟩
    · rw [List.range_succ, List.foldl_append, ← hword]
      rfl
    · rw [hnext]
      calc _ < 2 ^ (10 + 7 * n) + (shapeOperand (i.operand n)).toNat * 2 ^ (10 + 7 * n) :=
            Nat.add_lt_add_right hlt _
        _ = ((shapeOperand (i.operand n)).toNat + 1) * 2 ^ (10 + 7 * n) := by
          rw [Nat.add_mul, Nat.one_mul, Nat.add_comm]
        _ ≤ 2 ^ 7 * 2 ^ (10 + 7 * n) := Nat.mul_le_mul_right _ ho
        _ = 2 ^ (10 + 7 * (n + 1)) := by
          rw [← Nat.pow_add]
          congr 1
          omega
    · rw [hnext, field_add_above (by omega), hsimd]
    · rw [hnext, field_add_above (by omega), hops]
    · rw [hnext]
      obtain hlast | hold : k = n ∨ k < n := by omega
      · rw [hlast, field_add_at hlt, Nat.mod_eq_of_lt ho]
      · rw [field_add_above (by omega), hfields k hold]

theorem shapeWord_fields {i : SimdInsn} (h : i.operands ≤ 3) :
    Lib.Fields.field (shapeWord i).toNat 0 8 = i.simd.ctorIdx ∧
      Lib.Fields.field (shapeWord i).toNat 8 2 = i.operands ∧
      ∀ k < i.operands,
        Lib.Fields.field (shapeWord i).toNat (10 + 7 * k) 7 = (shapeOperand (i.operand k)).toNat := by
  obtain ⟨word, hword, -, hsimd, hops, hfields⟩ := shape_loop i h i.operands h
  rw [show shapeWord i = word from hword.symm]
  exact ⟨hsimd, hops, hfields⟩

theorem unshape_simd {i : SimdInsn} (h : i.operands ≤ 3) (imm : U32) :
    (unshape (shapeWord i) imm).simd = i.simd := by
  have hfield := toNat_masked (shapeWord i) 0 (k := 8) (by decide)
  rw [(shapeWord_fields h).1, BitVec.ushiftRight_zero] at hfield
  exact (congrArg SimdOp.ofNat hfield).trans (SimdOp.ofNat_ctorIdx _)

theorem unshape_operands {i : SimdInsn} (h : i.operands ≤ 3) :
    (shapeWord i >>> 8 &&& 3).toNat = i.operands :=
  (toNat_masked (shapeWord i) 8 (k := 2) (by decide)).trans (shapeWord_fields h).2.1

theorem unshape_kind {i : SimdInsn} (h : i.operands ≤ 3) {k : Nat} (hk : k < i.operands) :
    (unshapeOperand (shapeWord i >>> (10 + 7 * k))).kind = (i.operand k).kind := by
  have hkind := kind_lt (i.operand k).kind
  have hfield := toNat_masked (shapeWord i >>> (10 + 7 * k)) 0 (k := 4) (by decide)
  rw [BitVec.ushiftRight_zero, BitVec.toNat_ushiftRight, Nat.shiftRight_eq_div_pow] at hfield
  have hdigit := (shapeWord_fields h).2.2 k hk
  rw [toNat_shapeOperand] at hdigit
  refine (congrArg OperandKind.ofNat (?_ : _ = (i.operand k).kind.ctorIdx)).trans
    (OperandKind.ofNat_ctorIdx _)
  refine hfield.trans ?_
  unfold Lib.Fields.field at hdigit ⊢
  omega

theorem unshape_reg {i : SimdInsn} (h : i.operands ≤ 3) {k : Nat} (hk : k < i.operands) :
    (unshapeOperand (shapeWord i >>> (10 + 7 * k))).reg = (registerOf (i.operand k)).getD 0 := by
  have hkind := kind_lt (i.operand k).kind
  have hreg := ((registerOf (i.operand k)).getD 0).isLt
  have hfield := toNat_masked (shapeWord i >>> (10 + 7 * k)) 4 (k := 3) (by decide)
  rw [BitVec.toNat_ushiftRight, Nat.shiftRight_eq_div_pow] at hfield
  have hdigit := (shapeWord_fields h).2.2 k hk
  rw [toNat_shapeOperand] at hdigit
  refine Fin.ext ?_
  change (shapeWord i >>> (10 + 7 * k) >>> 4 &&& 7).toNat % 8 = _
  rw [show (shapeWord i >>> (10 + 7 * k) >>> 4 &&& 7).toNat = _ from hfield]
  unfold Lib.Fields.field at hdigit ⊢
  omega

/-! ## What an execution depends on -/

/-- The operand that `simd_call` makes is the packed one, but for an address. -/
structure Agrees (o o' : Operand) : Prop where
  kind : o'.kind = o.kind
  reg : o.kind = .mmx ∨ o.kind = .xmm ∨ o.kind = .reg → o'.reg = o.reg
  size : o.kind = .reg → o'.size = o.size
  imm : o.kind = .imm → o'.imm = o.imm

structure SameCall (i i' : SimdInsn) : Prop where
  simd : i'.simd = i.simd
  operands : i'.operands = i.operands
  operand0 : Agrees i.operand0 i'.operand0
  operand1 : Agrees i.operand1 i'.operand1
  operand2 : Agrees i.operand2 i'.operand2

section

variable {o o' : Operand} {p hostBytes n : Nat} {v : Vec}

theorem readVec_agrees (h : Agrees o o') :
    readVec (hostPort p hostBytes) o' n = readVec (hostPort p hostBytes) o n := by
  funext s
  unfold readVec
  rw [getCpu_bind, getCpu_bind, h.kind]
  cases hk : o.kind with
  | mmx => rw [h.reg (.inl hk)]
  | xmm => rw [h.reg (.inr (.inl hk))]
  | reg => rw [h.reg (.inr (.inr hk)), h.size hk]
  | imm => rw [h.imm hk]
  | _ => rfl

theorem writeVec_agrees (h : Agrees o o') :
    writeVec (hostPort p hostBytes) o' n v = writeVec (hostPort p hostBytes) o n v := by
  funext s
  unfold writeVec
  rw [getCpu_bind, getCpu_bind, h.kind]
  cases hk : o.kind with
  | mmx => rw [h.reg (.inl hk)]
  | xmm => rw [h.reg (.inr (.inl hk))]
  | reg => rw [h.reg (.inr (.inr hk)), h.size hk]
  | _ => rfl

end

section

variable {i i' : SimdInsn} {E : Evaluators} {p hostBytes : Nat}

theorem regWidth_same (h : SameCall i i') : regWidth i' = regWidth i := by
  unfold regWidth
  rw [h.operands, h.operand0.kind, h.operand1.kind, h.operand2.kind]

theorem simdMemoryBytes_same (h : SameCall i i') : simdMemoryBytes i' = simdMemoryBytes i := by
  unfold simdMemoryBytes
  rw [h.simd, h.operand1.kind, regWidth_same h]

theorem immediate_same (h : SameCall i i') : immediate i' = immediate i := by
  unfold immediate
  rw [h.operands, h.operand2.kind]
  by_cases hi : 3 ≤ i.operands ∧ i.operand2.kind = .imm
  · rw [if_pos hi, if_pos hi, h.operand2.imm hi.2]
  · rw [if_neg hi, if_neg hi]

theorem executeMovScalar_same (h : SameCall i i') (n : Nat) :
    executeMovScalar (hostPort p hostBytes) i' n = executeMovScalar (hostPort p hostBytes) i n := by
  unfold executeMovScalar
  simp only [readVec_agrees h.operand1, writeVec_agrees h.operand0, h.operand0.kind,
    h.operand1.kind]
  by_cases hx : i.operand0.kind = .xmm
  · rw [h.operand0.reg (.inr (.inl hx))]
  · simp only [hx, false_and, if_false]

theorem executeMovHalf_same (h : SameCall i i') (hmove : IsMove i) (hx : i.operand0.kind ≠ .mmx)
    (hx1 : i.operand1.kind ≠ .mmx) (half : Nat) :
    executeMovHalf (hostPort p hostBytes) i' half =
      executeMovHalf (hostPort p hostBytes) i half := by
  unfold executeMovHalf
  simp only [readVec_agrees h.operand1, writeVec_agrees h.operand0, h.operand0.kind]
  obtain ⟨h0, h1⟩ | ⟨h0, h1⟩ := hmove
  · rw [if_neg (by rw [h0.resolve_left hx]; decide), if_neg (by rw [h0.resolve_left hx]; decide),
      h.operand0.reg (.inr (.inl (h0.resolve_left hx)))]
  · rw [if_pos h0, if_pos h0, h.operand1.reg (.inr (.inl (h1.resolve_left hx1)))]

theorem executeGeneric_same (h : SameCall i i') :
    executeGeneric E (hostPort p hostBytes) i' = executeGeneric E (hostPort p hostBytes) i := by
  unfold executeGeneric
  simp only [readVec_agrees h.operand0, readVec_agrees h.operand1, writeVec_agrees h.operand0,
    h.operand1.kind, h.simd, regWidth_same h, immediate_same h]

theorem executePinsrw_same (h : SameCall i i') :
    executePinsrw (hostPort p hostBytes) i' = executePinsrw (hostPort p hostBytes) i := by
  unfold executePinsrw
  simp only [readVec_agrees h.operand0, readVec_agrees h.operand1, writeVec_agrees h.operand0,
    regWidth_same h, immediate_same h]

theorem executeMovq_same (h : SameCall i i') :
    executeMovq (hostPort p hostBytes) i' = executeMovq (hostPort p hostBytes) i := by
  unfold executeMovq
  simp only [readVec_agrees h.operand1, writeVec_agrees h.operand0, h.operand0.kind]

theorem executeMovd_same (h : SameCall i i') :
    executeMovd (hostPort p hostBytes) i' = executeMovd (hostPort p hostBytes) i := by
  unfold executeMovd
  simp only [readVec_agrees h.operand1, writeVec_agrees h.operand0, h.operand0.kind]

theorem executeMovaps_same (h : SameCall i i') :
    executeMovaps (hostPort p hostBytes) i' = executeMovaps (hostPort p hostBytes) i := by
  unfold executeMovaps
  simp only [readVec_agrees h.operand1, writeVec_agrees h.operand0, h.operand0.kind,
    h.operand1.kind]

theorem special_move_same {f : Form} (hf : f ∈ memoryForms i.simd) (hform : HasForm i f)
    (h : SameCall i i') (hmove : isMoveOp i.simd) (w : State → U32 → U8 → Except SimdStop Host) :
    special E (hostPort p hostBytes) i' w = special E (hostPort p hostBytes) i w := by
  obtain ⟨hkinds, hxmm⟩ := move_form i.simd hmove f hf
  have hmoves := isMove_of_form hform hkinds
  rw [← hform.first, ← hform.second] at hxmm
  unfold special
  rw [h.simd]
  cases hsimd : i.simd <;> rw [hsimd] at hmove hxmm <;> try cases hmove
  case movq => exact congrArg some (executeMovq_same h)
  case movd => exact congrArg some (executeMovd_same h)
  case movaps => exact congrArg some (executeMovaps_same h)
  case movss => exact congrArg some (executeMovScalar_same h 4)
  case movsd => exact congrArg some (executeMovScalar_same h 8)
  case movlps =>
    obtain ⟨h0, h1⟩ := hxmm (by decide) (by decide)
    exact congrArg some (executeMovHalf_same h hmoves h0 h1 0)
  case movhps =>
    obtain ⟨h0, h1⟩ := hxmm (by decide) (by decide)
    exact congrArg some (executeMovHalf_same h hmoves h0 h1 8)

/-- Both executions are one, for the operations that a block calls with a memory operand. -/
theorem execute_same {f : Form} (hf : f ∈ memoryForms i.simd) (hform : HasForm i f)
    (h : SameCall i i') (hpf : i.simd ≠ .pf) (hextract : i.simd ≠ .pextrw)
    (w : State → U32 → U8 → Except SimdStop Host) :
    execute E (hostPort p hostBytes) i' w = execute E (hostPort p hostBytes) i w := by
  have hspecial : special E (hostPort p hostBytes) i' w = special E (hostPort p hostBytes) i w := by
    cases hmove : isMoveOp i.simd with
    | true => exact special_move_same hf hform h hmove w
    | false =>
      cases hcase : hasCase i.simd with
      | false => rw [special_regular hcase, special_regular (h.simd ▸ hcase)]
      | true =>
        by_cases hhint : i.simd = .prefetch
        · unfold special
          rw [h.simd, hhint]
        · unfold special
          obtain ⟨hs | hs, -⟩ | ⟨hs | hs, -⟩ := case_form i.simd hcase hmove hextract hhint f hf
          · simp only [h.simd, hs, readVec_agrees h.operand0]
          · simp only [h.simd, hs, writeVec_agrees h.operand0]
          · simp only [h.simd, hs, executePinsrw_same h]
          · exact absurd hs hpf
  unfold execute
  rw [h.simd, executeGeneric_same h, hspecial]

end

/-! ## The call -/

section Call

variable {E : Evaluators} {i : SimdInsn} {f : Form}

theorem HasForm.operands_le (h : HasForm i f) : i.operands ≤ 3 := by
  rw [h.operands]
  split_ifs <;> decide

theorem callOperand_agrees (hops : i.operands ≤ 3) {k : Nat}
    (hkind : i.operands ≤ k → (i.operand k).kind = .none)
    (hreg : (i.operand k).kind = .reg → (i.operand k).size = 4) {imm : U32}
    (himm : (i.operand k).kind = .imm → imm = (i.operand k).imm) :
    Agrees (i.operand k) (callOperand (shapeWord i) imm k) := by
  unfold callOperand
  rw [unshape_operands hops]
  by_cases hk : k < i.operands
  · rw [if_pos hk]
    have hsame := unshape_kind hops hk
    have hnumber := unshape_reg hops hk
    by_cases hi : (i.operand k).kind = .imm
    · simp only [hsame, if_pos hi]
      exact ⟨rfl, fun hr => by rw [hi] at hr; exact absurd hr (by decide),
        fun hr => absurd (hi.symm.trans hr) (by decide), fun _ => himm hi⟩
    · simp only [hsame, if_neg hi]
      refine ⟨hsame, fun hr => ?_, fun hr => (hreg hr).symm, fun hc => absurd hc hi⟩
      rw [hnumber]
      unfold registerOf
      rcases hr with hr | hr | hr <;> rw [hr] <;> rfl
  · rw [if_neg hk]
    have hnone := hkind (Nat.le_of_not_lt hk)
    refine ⟨hnone.symm, fun hr => ?_, fun hr => ?_, fun hc => ?_⟩
    · rw [hnone] at hr
      exact absurd hr (by decide)
    · exact absurd (hnone.symm.trans hr) (by decide)
    · exact absurd (hnone.symm.trans hc) (by decide)

theorem form_kinds (op : SimdOp) : ∀ f ∈ memoryForms op,
    f.first ≠ .imm ∧ f.second ≠ .imm ∧ (f.second = .none → f.imm = false) := by
  cases op <;> decide

theorem second_ne_reg (op : SimdOp) : ∀ f ∈ memoryForms op, f.second ≠ .reg := by
  cases op <;> decide

/-- An operand that the form does not have. -/
theorem HasForm.absent (h : HasForm i f) (hf : f ∈ memoryForms i.simd) {k : Nat} (hlt : k < 3)
    (hk : i.operands ≤ k) : (i.operand k).kind = .none := by
  have hops := h.operands
  have himm := (form_kinds i.simd f hf).2.2
  obtain rfl | rfl | rfl : k = 0 ∨ k = 1 ∨ k = 2 := by omega
  · split_ifs at hops <;> omega
  · have hsecond : f.second = .none := by
      by_contra hne
      rw [if_neg hne] at hops
      split_ifs at hops <;> omega
    exact h.second.trans hsecond
  · refine h.third.trans (if_neg fun hi => ?_)
    have hne : f.second ≠ .none := by
      intro hnone
      rw [himm hnone] at hi
      exact Bool.false_ne_true hi
    rw [if_neg hne, if_pos hi] at hops
    omega

theorem shapeImmediate_of_imm (h : HasForm i f) (hf : f ∈ memoryForms i.simd)
    (hi : i.operand2.kind = .imm) : shapeImmediate i = i.operand2.imm := by
  have hthird : i.operands = 3 := by
    by_contra hne
    have hle := h.operands_le
    have hnone := h.absent hf (k := 2) (by decide) (by omega)
    exact absurd (hi.symm.trans hnone) (by decide)
  unfold shapeImmediate
  rw [hthird]
  exact if_pos hi

/-- What the word unpacks to is the packed instruction, but for the address. -/
theorem unshape_same (h : HasForm i f) (hf : f ∈ memoryForms i.simd) :
    SameCall i (unshape (shapeWord i) (shapeImmediate i)) := by
  have hops := h.operands_le
  obtain ⟨hfirst, hsecond, -⟩ := form_kinds i.simd f hf
  have hsize : i.operand1.kind ≠ .reg := by
    rw [h.second]
    exact second_ne_reg i.simd f hf
  refine ⟨unshape_simd hops _, unshape_operands hops, ?_, ?_, ?_⟩
  · exact callOperand_agrees (k := 0) hops (h.absent hf (by decide)) h.register
      fun hi => absurd (h.first.symm.trans hi) hfirst
  · exact callOperand_agrees (k := 1) hops (h.absent hf (by decide)) (fun hr => absurd hr hsize)
      fun hi => absurd (h.second.symm.trans hi) hsecond
  · refine callOperand_agrees (k := 2) hops (h.absent hf (by decide)) (fun hr => ?_)
      fun hi => shapeImmediate_of_imm h hf hi
    have hthird := h.third
    rw [show i.operand2.kind = .reg from hr] at hthird
    split_ifs at hthird

/-- The call of a packed instruction is its execution through the pointer. -/
theorem simdCall_shapeWord (h : HasForm i f) (hf : f ∈ memoryForms i.simd)
    (hextract : i.simd ≠ .pextrw) (hcall : simdCallIsEmittable E.approx i) (p : Nat) (s : State) :
    simdCall E p (shapeWord i) (shapeImmediate i) s =
      match simdExecuteHost E p i s with
      | .ok _ t => .ok () t
      | .error _ t => .error .fatal t := by
  have hsame := unshape_same h hf
  have hpf : i.simd ≠ .pf := by
    intro hpf
    simp [simdCallIsEmittable, hpf] at hcall
  have hmask : i.simd ≠ .maskmovdqu := by
    intro hmask
    simp [simdCallIsEmittable, hmask] at hcall
  have hrun : simdExecuteHost E p (unshape (shapeWord i) (shapeImmediate i)) =
      simdExecuteHost E p i := by
    unfold simdExecuteHost
    rw [if_neg (by rw [hsame.simd]; exact hmask), if_neg hmask, simdMemoryBytes_same hsame]
    exact execute_same hf h hsame hpf hextract _
  unfold simdCall
  rw [hrun]

end Call

end X86Port.Simd
