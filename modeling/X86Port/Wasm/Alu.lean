import X86Port.Cpu.AluShift
import X86Port.Cpu.Compare
import X86Port.Wasm.Operands

/-!
# The arithmetic families

`jit_wasm_alu.c`: the operations whose flags are a plain tuple are lowered inline, and so are the
shifts by a constant inside the width; the others call `x86p_alu`.

* `alu_does`, `aluUnary_does`: the code does what the interpreter does.
-/

namespace X86Port.Wasm

open Lib StackCode
open Memory (Mem Host memRead memWrite)
open Cpu (Width FlagKind Flags Operand X86Cpu Ctx Insn AluOp AluUnOp SameFlags Alike regRead
  widthMask alu aluUnary)
open Cpu.Exec

/-! ## The code -/

/-- The operation, the kind it records and whether it writes its destination; nothing for an
operation that goes through `x86p_alu`. -/
def inlineShape : AluOp → Option (Op × FlagKind × Bool)
  | .add => some (.add, .add, true)
  | .sub => some (.sub, .sub, true)
  | .cmp => some (.sub, .sub, false)
  | .or => some (.or, .logic, true)
  | .and => some (.and, .logic, true)
  | .test => some (.and, .logic, false)
  | .xor => some (.xor, .logic, true)
  | _ => none

def isShiftOrRotate (op : AluOp) : Bool :=
  [AluOp.shl, .shr, .sar, .rol, .ror, .rcl, .rcr].contains op

def aluAccepts (op : AluOp) (i : Insn) : Bool :=
  i.operands == 2 && operandOk i.operand0 i.operand0.size true &&
    if isShiftOrRotate op then
      i.operand1.kind == .imm || i.operand1.kind == .reg && i.operand1.size == 1
    else
      operandOk i.operand1 i.operand0.size false &&
        !(i.operand0.kind == .mem && i.operand1.kind == .mem)

/-- The count of a shift that is lowered inline, and zero for everything else. -/
def inlineShiftCount (op : AluOp) (i : Insn) : U32 :=
  if op ≠ .shl ∧ op ≠ .shr ∧ op ≠ .sar then 0
  else if i.operand1.kind ≠ .imm then 0
  else if (i.operand1.imm &&& 0x1F#32).toNat < i.operand0.size * 8 then i.operand1.imm &&& 0x1F#32
  else 0

/-- `x86p_flags_carry_in_is_live`. -/
def carryInIsLive (kind : FlagKind) : Bool := kind == .inc || kind == .dec

/-- The mask of a result that is computed at 32 bits. -/
def maskTo (w : Width) : Code :=
  if w ≠ .dword then [.const (widthMask w), .op .and] else []

/-- SAR moves the sign of a narrow operand to the top bit first. -/
def shiftBy (kind : FlagKind) (w : Width) (count : U32) : Code :=
  let spare := BitVec.ofNat 32 (32 - w.bits)
  (if kind = .sar ∧ spare ≠ 0 then ([.const spare, .op .shl, .const (spare + count)] : Code)
    else [.const count]) ++
  ([.op (if kind = .shl then .shl else if kind = .shr then .shrU else .shrS)] : Code) ++
  (if kind ≠ .shr then maskTo w else [])

def lowerShift (l : WasmLower) (op : AluOp) (i : Insn) (pc count : U32) : Code × WasmLower :=
  let dst := i.operand0
  let w := widthOf dst
  let kind : FlagKind := if op = .shl then .shl else if op = .shr then .shr else .sar
  (l.state.guardPlace dst pc w (memRead ||| memWrite) ++ l.state.loadPlace dst w ++
    ([.localTee .a] : Code) ++ shiftBy kind w count ++
    ([.localSet .r, .const count, .localSet .b] : Code) ++ WasmState.storeFlags kind w ++
    l.state.storePlace dst w .r, l.flagsWritten (some kind) (some w))

/-- `x86p_alu` masks the count to five bits itself. -/
def pushCount (src : Operand) : Code :=
  if src.kind = .imm then [.const (src.imm &&& 0xFF#32)] else WasmState.loadReg src.reg .byte

def lowerViaHelper (l : WasmLower) (op : AluOp) (i : Insn) (pc : U32) : Code × WasmLower :=
  let s := l.state
  let dst := i.operand0
  let src := i.operand1
  let w := widthOf dst
  let shift := isShiftOrRotate op
  ((if dst.kind = .mem then s.guard dst pc w.bytes (memRead ||| memWrite)
      else if src.kind = .mem then s.guard src pc w.bytes memRead
      else []) ++
    ([.const (aluCode op)] : Code) ++ s.loadPlace dst w ++
    (if shift then pushCount src else if src.kind = .mem then s.loadMem w else pushOperand src w) ++
    ([.const (BitVec.ofNat 32 w.bytes)] : Code) ++ WasmState.flagsAddr ++
    ([.call .alu, .localSet .r] : Code) ++ s.storePlace dst w .r,
    if shift then l.flagsWritten none none else l.flagsWritten (some .explicit) none)

/-- The operands of an inline operation in their locals; a live carry is stored behind the
guard. -/
def loadOperands (s : WasmState) (i : Insn) (pc access : U32) (carry : Code) : Code :=
  let dst := i.operand0
  let src := i.operand1
  let w := widthOf dst
  if dst.kind = .mem then
    s.guard dst pc w.bytes access ++ carry ++ s.loadMem w ++ ([.localSet .a] : Code) ++
      pushOperand src w ++ ([.localSet .b] : Code)
  else if src.kind = .mem then
    s.guard src pc w.bytes memRead ++ carry ++ s.loadMem w ++ ([.localSet .b] : Code) ++
      WasmState.loadReg dst.reg w ++ ([.localSet .a] : Code)
  else
    carry ++ pushOperand src w ++ ([.localSet .b] : Code) ++ WasmState.loadReg dst.reg w ++
      ([.localSet .a] : Code)

def lowerInline (l : WasmLower) (i : Insn) (pc : U32) (op : Op) (kind : FlagKind)
    (writesDest : Bool) : Code × WasmLower :=
  let dst := i.operand0
  let w := widthOf dst
  let live := carryInIsLive kind
  ((if live then l.carryIn else []) ++
    loadOperands l.state i pc (memRead ||| if writesDest then memWrite else 0)
      (if live then WasmState.storeCarry else []) ++
    ([.localGet .a, .localGet .b, .op op] : Code) ++ maskTo w ++ ([.localSet .r] : Code) ++
    WasmState.storeFlags kind w ++ (if writesDest then l.state.storePlace dst w .r else []),
    l.flagsWritten (some kind) (some w))

def aluLower (l : WasmLower) (op : AluOp) (i : Insn) (pc : U32) : Code × WasmLower :=
  if inlineShiftCount op i ≠ 0 then lowerShift l op i pc (inlineShiftCount op i)
  else
    match inlineShape op with
    | some (wasmOp, kind, writesDest) => lowerInline l i pc wasmOp kind writesDest
    | none => lowerViaHelper l op i pc

def aluUnaryAccepts (i : Insn) : Bool :=
  i.operands == 1 && operandOk i.operand0 i.operand0.size true

def unaryKind : AluUnOp → FlagKind
  | .neg => .sub
  | .inc => .inc
  | _ => .dec

/-- NEG records the SUB it is; INC and DEC preserve the carry. -/
def aluUnaryLower (l : WasmLower) (op : AluUnOp) (i : Insn) (pc : U32) : Code × WasmLower :=
  let s := l.state
  let dst := i.operand0
  let w := widthOf dst
  let guard := s.guardPlace dst pc w (memRead ||| memWrite)
  if op = .not then
    (guard ++ s.loadPlace dst w ++ ([.const (-1), .op .xor] : Code) ++ maskTo w ++
      ([.localSet .r] : Code) ++ s.storePlace dst w .r, l)
  else
    let kind := unaryKind op
    (guard ++ (if carryInIsLive kind then l.carryIn ++ WasmState.storeCarry else []) ++
      (if kind = .sub then ([.const 0, .localSet .a] : Code) else []) ++ s.loadPlace dst w ++
      ([.localSet (if kind = .sub then .b else .a)] : Code) ++
      (if kind ≠ .sub then ([.const 1, .localSet .b] : Code) else []) ++
      ([.localGet .a, .localGet .b, .op (if kind = .inc then .add else .sub)] : Code) ++ maskTo w ++
      ([.localSet .r] : Code) ++ WasmState.storeFlags kind w ++ s.storePlace dst w .r,
      l.flagsWritten (some kind) (some w))

/-! ## Results -/

section

variable {imports : Imports} {m : LinearMem} {l : WasmLocal → U32} {stack : List U32} {rest : Code}
  {w : Width}

theorem run_maskTo (v : U32) :
    run (wasmEnv imports) (maskTo w ++ rest) ⟨m, l, v :: stack⟩ =
      run (wasmEnv imports) rest ⟨m, l, (v &&& widthMask w) :: stack⟩ := by
  unfold maskTo
  by_cases hw : w = .dword
  · rw [if_neg (not_not.mpr hw), hw, Cpu.and_widthMask_dword]
    rfl
  · rw [if_pos hw]
    rfl

/-- What `shiftBy` makes of an operand. -/
def shifted (kind : FlagKind) (w : Width) (a count : U32) : U32 :=
  match kind with
  | .shl => a <<< count.toNat &&& widthMask w
  | .shr => a >>> count.toNat
  | _ => (a <<< (32 - w.bits)).sshiftRight (32 - w.bits + count.toNat) &&& widthMask w

theorem run_shiftBy {op : AluOp} {kind : FlagKind} (hkind : Cpu.shiftKind op = some kind)
    {count : U32} (hcount : count.toNat < w.bits) (a : U32) :
    run (wasmEnv imports) (shiftBy kind w count ++ rest) ⟨m, l, a :: stack⟩ =
      run (wasmEnv imports) rest ⟨m, l, shifted kind w a count :: stack⟩ := by
  have hbits := w.bits_pos
  have hmod : count.toNat % 32 = count.toNat := Nat.mod_eq_of_lt (by omega)
  have hspare : (BitVec.ofNat 32 (32 - w.bits)).toNat = 32 - w.bits := by
    rw [BitVec.toNat_ofNat, Nat.mod_eq_of_lt (by omega)]
  have hsum : (BitVec.ofNat 32 (32 - w.bits) + count).toNat = 32 - w.bits + count.toNat := by
    rw [BitVec.toNat_add, hspare, Nat.mod_eq_of_lt (by omega)]
  unfold shiftBy
  cases op <;> cases hkind
  · simp only [List.append_assoc, reduceCtorEq, false_and, if_false, ne_eq, not_false_eq_true,
      if_true]
    change run _ (maskTo w ++ rest) ⟨m, l, a <<< (count.toNat % 32) :: stack⟩ = _
    rw [run_maskTo, hmod]
    rfl
  · simp only [List.append_assoc, reduceCtorEq, false_and, if_false, ne_eq, not_true_eq_false]
    change run _ rest ⟨m, l, a >>> (count.toNat % 32) :: stack⟩ = _
    rw [hmod]
    rfl
  · by_cases hzero : BitVec.ofNat 32 (32 - w.bits) = 0
    · have hbits' : 32 - w.bits = 0 := by
        rw [← hspare, hzero]
        rfl
      simp only [List.append_assoc, reduceCtorEq, hzero, ne_eq, not_true_eq_false, and_false,
        if_false, not_false_eq_true, if_true]
      change run _ (maskTo w ++ rest) ⟨m, l, a.sshiftRight (count.toNat % 32) :: stack⟩ = _
      rw [run_maskTo, hmod]
      unfold shifted
      rw [hbits', Nat.zero_add, BitVec.shiftLeft_zero]
    · simp only [List.append_assoc, reduceCtorEq, hzero, ne_eq, not_false_eq_true, and_self,
        if_false, if_true]
      change run _ (maskTo w ++ rest) ⟨m, l,
        (a <<< ((BitVec.ofNat 32 (32 - w.bits)).toNat % 32)).sshiftRight
          ((BitVec.ofNat 32 (32 - w.bits) + count).toNat % 32) :: stack⟩ = _
      rw [run_maskTo, hspare, hsum, Nat.mod_eq_of_lt (show 32 - w.bits < 32 by omega),
        Nat.mod_eq_of_lt (show 32 - w.bits + count.toNat < 32 by omega)]
      rfl

end

/-! ## The operations that are inline -/

theorem and_widthMask_and_five (b : U32) (w : Width) :
    b &&& widthMask w &&& 0x1F#32 = b &&& 0x1F#32 := by
  rw [BitVec.and_assoc]
  cases w <;> rfl

/-- A shift of the operand with its sign in the top bit. -/
theorem sar_spare {w : Width} (x : BitVec w.bits) (k : Nat) :
    (x.setWidth 32 <<< (32 - w.bits)).sshiftRight (32 - w.bits + k) &&& widthMask w =
      (x.sshiftRight k).setWidth 32 := by
  have hbits := w.bits_pos
  have hmsb : (x.setWidth 32 <<< (32 - w.bits)).msb = x.msb := by
    rw [BitVec.msb_eq_getLsbD_last, BitVec.getLsbD_shiftLeft, Cpu.getLsbD_setWidth_operand,
      BitVec.msb_eq_getLsbD_last, show 32 - 1 - (32 - w.bits) = w.bits - 1 by omega]
    simp [show ¬ 31 < 32 - w.bits by omega]
  refine BitVec.eq_of_getLsbD_eq fun i hi => ?_
  rw [Cpu.getLsbD_and_widthMask, Cpu.getLsbD_setWidth_operand, BitVec.getLsbD_sshiftRight,
    BitVec.getLsbD_sshiftRight, hmsb]
  by_cases hiw : i < w.bits
  · by_cases hk : k + i < w.bits
    · rw [if_pos (by omega), if_pos hk, BitVec.getLsbD_shiftLeft, Cpu.getLsbD_setWidth_operand,
        show 32 - w.bits + k + i - (32 - w.bits) = k + i by omega]
      simp [hiw, show ¬ 32 ≤ i by omega, show ¬ w.bits ≤ i by omega,
        show 32 - w.bits + k + i < 32 by omega, show ¬ 32 - w.bits + k + i < 32 - w.bits by omega]
    · rw [if_neg (by omega), if_neg hk]
      simp [hiw, show ¬ 32 ≤ i by omega, show ¬ w.bits ≤ i by omega]
  · simp [hiw, show w.bits ≤ i by omega]

/-- A shift by a count inside the width is the one that is lowered inline. -/
theorem alu_shifted {op : AluOp} {kind : FlagKind} (hkind : Cpu.shiftKind op = some kind)
    {a b : U32} {w : Width} (ha : a &&& widthMask w = a) (hb : b &&& 0x1F#32 ≠ 0)
    (hcount : (b &&& 0x1F#32).toNat < w.bits) (f : Flags) :
    alu op a b w f = some (shifted kind w a (b &&& 0x1F#32),
      ⟨a, b &&& 0x1F#32, shifted kind w a (b &&& 0x1F#32), kind, w,
        if Cpu.flagCf f then 1 else 0⟩) := by
  have hnot : ¬ (b &&& 0x1F#32).toNat ≥ w.bits := by omega
  have hr : ∀ x : BitVec w.bits, x.setWidth 32 >>> (b &&& 0x1F#32).toNat &&& widthMask w =
      x.setWidth 32 >>> (b &&& 0x1F#32).toNat := by
    intro x
    refine BitVec.eq_of_getLsbD_eq fun i _ => ?_
    rw [Cpu.getLsbD_and_widthMask, BitVec.getLsbD_ushiftRight, Cpu.getLsbD_setWidth_operand]
    by_cases hi : i < w.bits
    · simp [hi]
    · rw [BitVec.getLsbD_of_ge x _ (show w.bits ≤ (b &&& 0x1F#32).toNat + i by omega),
        Bool.false_and]
  have hset : ∀ r : U32, kind.isShift = true → Cpu.flagsSet f kind a (b &&& 0x1F#32) r w =
      some ⟨a, b &&& 0x1F#32, r, kind, w, if Cpu.flagCf f then 1 else 0⟩ := by
    intro r _
    exact if_neg fun h => hb h.2
  obtain ⟨x, rfl⟩ : ∃ x : BitVec w.bits, a = x.setWidth 32 :=
    ⟨Cpu.operand w a, by rw [← Cpu.and_widthMask_eq, ha]⟩
  cases op <;> cases hkind
  · simp only [alu, ha, and_widthMask_and_five, if_neg hb, if_neg hnot, hset _ rfl, Option.map_some]
    rfl
  · simp only [alu, ha, and_widthMask_and_five, if_neg hb, if_neg hnot, hset _ rfl, Option.map_some,
      hr]
    rfl
  · have hsar := Cpu.sar_result x (b &&& 0x1F#32).toNat
    rw [if_neg hnot] at hsar
    simp only [alu, ha, and_widthMask_and_five, if_neg hb, if_neg hnot, hset _ rfl, Option.map_some,
      hsar]
    unfold shifted
    rw [sar_spare]

theorem inlineShape_spec {op : AluOp} {o : Op} {kind : FlagKind} {writes : Bool}
    (h : inlineShape op = some (o, kind, writes)) :
    ∃ combine, Cpu.aluShape op = some (combine, kind) ∧
      (∀ a b st, o.apply (b :: a :: st) = some (combine a b :: st)) ∧ kind ≠ .none ∧
      carryInIsLive kind = false ∧ (writes = true ↔ ¬ (op = .cmp ∨ op = .test)) := by
  cases op <;> cases h <;> exact ⟨_, rfl, fun _ _ _ => rfl, nofun, rfl, by decide⟩

/-- The flags an inline operation records are what the lowering goes on to assume. -/
theorem tracks_recorded {low : WasmLower} {kind : FlagKind} {a b r : U32} {w : Width} {c : U8}
    (hcarry : c = 0 ∨ c = 1) (harith : kind.isArith = true →
      Cpu.Consistent ⟨a, b, r, kind, w, c⟩ ∧ Masked ⟨a, b, r, kind, w, c⟩) :
    Tracks (low.flagsWritten (some kind) (some w)) ⟨a, b, r, kind, w, c⟩ := by
  refine ⟨hcarry, .inr rfl, fun _ hk => ⟨?_, harith hk⟩⟩
  exact if_pos hk

namespace World

variable {st : WasmState} (W : World st) {imports : Imports} {t : Ctx Host} {e : U32}
  {l : WasmLocal → U32} {i : Insn} {w : Width}

theorem run_loadOperands (hl : l .cpu = W.home.addr) {pc access : U32}
    (h0 : IsPlace i.operand0 w) (h1 : IsValue i.operand1 w) (hr0 : Addressable i.operand0)
    (hr1 : Addressable i.operand1) (hone : ¬ (i.operand0.kind = .mem ∧ i.operand1.kind = .mem))
    (hallows0 : Allows W.m t access i.operand0 w) (hallows1 : Allows W.m t memRead i.operand1 w) :
    ∃ l', l' .cpu = W.home.addr ∧ l' .a = valueOfOperand W.m t i.operand0 w ∧
      l' .b = valueOfOperand W.m t i.operand1 w &&& widthMask w ∧ W.Points t i.operand0 l' ∧
      ∀ rest, run (wasmEnv imports) (loadOperands st i pc access [] ++ rest) ⟨W.at_ t e, l, []⟩ =
        run (wasmEnv imports) rest ⟨W.at_ t e, l', []⟩ := by
  unfold loadOperands
  dsimp only
  rw [widthOf_place h0]
  by_cases hk0 : i.operand0.kind = .mem
  · have hk1 := h1.imm_or_reg fun hk => hone ⟨hk0, hk⟩
    have hguard : st.guard i.operand0 pc w.bytes access = st.guardPlace i.operand0 pc w access :=
      (if_pos hk0).symm
    have hload : st.loadMem w = st.loadPlace i.operand0 w := (if_pos hk0).symm
    have hcpu : W.pointed t i.operand0 l .cpu = W.home.addr := (W.pointed_cpu l).trans hl
    rw [if_pos hk0, hguard, hload]
    refine ⟨Function.update (Function.update (W.pointed t i.operand0 l) .a
      (valueOfOperand W.m t i.operand0 w)) .b (valueOfOperand W.m t i.operand1 w &&& widthMask w),
      ?_, ?_, ?_, fun hk => ?_, fun rest => ?_⟩
    · simp [hcpu]
    · simp
    · simp
    · simp [W.points_pointed l hk]
    · simp only [List.append_assoc, List.nil_append, List.cons_append]
      rw [W.run_guardPlace hl hr0 hallows0, W.run_loadPlace hcpu h0 (W.points_pointed l) hallows0,
        run_localSet, W.run_pushOperand _ hk1, run_localSet]
      simp [hcpu]
  · have hplace : i.operand0.kind = .reg := h0.1.resolve_right hk0
    have hvalue : valueOfOperand W.m t i.operand0 w = regRead t.cpu.toCpuState i.operand0.reg w := by
      unfold valueOfOperand
      rw [hplace]
    rw [if_neg hk0, hvalue]
    by_cases hk1 : i.operand1.kind = .mem
    · have hguard : st.guard i.operand1 pc w.bytes memRead =
          st.guardPlace i.operand1 pc w memRead := (if_pos hk1).symm
      have hload : st.loadMem w = st.loadPlace i.operand1 w := (if_pos hk1).symm
      have hcpu : W.pointed t i.operand1 l .cpu = W.home.addr := (W.pointed_cpu l).trans hl
      have hplace1 : IsPlace i.operand1 w := h1.resolve_left (by rw [hk1]; decide)
      rw [if_pos hk1, hguard, hload, valueOfOperand_and_widthMask hplace1]
      refine ⟨Function.update (Function.update (W.pointed t i.operand1 l) .b
        (valueOfOperand W.m t i.operand1 w)) .a (regRead t.cpu.toCpuState i.operand0.reg w),
        ?_, ?_, ?_, fun hk => absurd hk hk0, fun rest => ?_⟩
      · simp [hcpu]
      · simp
      · simp
      · simp only [List.append_assoc, List.nil_append, List.cons_append]
        rw [W.run_guardPlace hl hr1 hallows1,
          W.run_loadPlace hcpu hplace1 (W.points_pointed l) hallows1, run_localSet]
        rw [W.run_loadReg_at, run_localSet]
        simp [hcpu]
    · rw [if_neg hk1]
      refine ⟨Function.update (Function.update l .b (valueOfOperand W.m t i.operand1 w &&&
        widthMask w)) .a (regRead t.cpu.toCpuState i.operand0.reg w), ?_, ?_, ?_,
        fun hk => absurd hk hk0, fun rest => ?_⟩
      · simp [hl]
      · simp
      · simp
      · simp only [List.append_assoc, List.nil_append, List.cons_append]
        rw [W.run_pushOperand hl (h1.imm_or_reg hk1), run_localSet, W.run_loadReg_at, run_localSet]
        simp [hl]

/-- The two operand locals are combined and the tuple is recorded. -/
theorem run_record (hl : l .cpu = W.home.addr) {o : Op} {combine : U32 → U32 → U32}
    {kind : FlagKind} (happly : ∀ a b stack, o.apply (b :: a :: stack) = some (combine a b :: stack))
    (hkind : kind ≠ .none) {r : U32} (hr : combine (l .a) (l .b) &&& widthMask w = r) (rest : Code) :
    run (wasmEnv imports) (.localGet .a :: .localGet .b :: .op o :: (maskTo w ++
        .localSet .r :: (WasmState.storeFlags kind w ++ rest))) ⟨W.at_ t e, l, []⟩ =
      run (wasmEnv imports) rest
        ⟨W.at_ (t.withFlags ⟨l .a, l .b, r, kind, w, t.cpu.flags.carryIn⟩) e,
          Function.update l .r r, []⟩ := by
  rw [run_localGet, run_localGet, run_op _ _ _ _ _ (happly _ _ _), run_maskTo, hr, run_localSet,
    W.run_storeFlags_at (by simp [hl]) hkind]
  simp

theorem run_loadPlace_withFlags (hl : l .cpu = W.home.addr) {f : Flags}
    (h0 : IsPlace i.operand0 w) (hpoints : W.Points t i.operand0 l) {access : U32}
    (hallows : Allows W.m t access i.operand0 w) (rest : Code) :
    run (wasmEnv imports) (st.loadPlace i.operand0 w ++ rest) ⟨W.at_ (t.withFlags f) e, l, []⟩ =
      run (wasmEnv imports) rest
        ⟨W.at_ (t.withFlags f) e, l, [valueOfOperand W.m t i.operand0 w]⟩ := by
  rw [← Cpu.Exec.valueOfOperand_withFlags W.m t f]
  refine W.run_loadPlace hl h0 (fun hk => ?_) ((allows_withFlags f).mpr hallows)
  rw [hpoints hk, Cpu.Exec.effectiveAddress_flags]

/-- A store behind an operation: the flags decide nothing of the place. -/
theorem run_storePlace_withFlags (hl : l .cpu = W.home.addr) {f : Flags}
    (hpoints : W.Points t i.operand0 l) {access : U32} (hallows : Allows W.m t access i.operand0 w)
    (value : WasmLocal) (rest : Code) :
    run (wasmEnv imports) (st.storePlace i.operand0 w value ++ rest)
        ⟨W.at_ (t.withFlags f) e, l, []⟩ =
      run (wasmEnv imports) rest
        ⟨W.at_ (written W.m (t.withFlags f) i.operand0 w (l value)) e, l, []⟩ := by
  refine W.run_storePlace hl (fun hk => ?_) ((allows_withFlags f).mpr hallows) value
  rw [hpoints hk, Cpu.Exec.effectiveAddress_flags]

end World

theorem lowerInline_eq {low : WasmLower} {i : Insn} {w : Width} (h0 : IsPlace i.operand0 w)
    {kind : FlagKind} (hlive : carryInIsLive kind = false) (pc : U32) (o : Op) (writes : Bool) :
    lowerInline low i pc o kind writes =
      (loadOperands low.state i pc (memRead ||| if writes then memWrite else 0) [] ++
        ([.localGet .a, .localGet .b, .op o] : Code) ++ maskTo w ++ ([.localSet .r] : Code) ++
        WasmState.storeFlags kind w ++
        (if writes then low.state.storePlace i.operand0 w .r else []),
        low.flagsWritten (some kind) (some w)) := by
  unfold lowerInline
  dsimp only
  rw [hlive, widthOf_place h0]
  rfl

theorem inline_does {low : WasmLower} (W : World low.state) (others : Imports) {t u : Ctx Host}
    {i : Insn} {w : Width} {op : AluOp} {o : Op} {kind : FlagKind} {writes : Bool}
    (hshape : inlineShape op = some (o, kind, writes)) (h0 : IsPlace i.operand0 w)
    (h1 : IsValue i.operand1 w) (hr0 : Addressable i.operand0) (hr1 : Addressable i.operand1)
    (hone : ¬ (i.operand0.kind = .mem ∧ i.operand1.kind = .mem))
    (htracks : Tracks low t.cpu.flags) (pc : U32)
    (hrun : executeAlu (Cpu.guestMem W.m) op i t = .ok () u) :
    W.Does others (lowerInline low i pc o kind writes).2 (lowerInline low i pc o kind writes).1
      t u := by
  obtain ⟨combine, haluShape, happly, hkind, hlive, hwrites⟩ := inlineShape_spec hshape
  obtain ⟨hread0, hread1, r, f, hf, hend⟩ := executeAlu_inv W.contiguous h0 h1 hrun
  rw [Cpu.alu_of_shape haluShape, valueOfOperand_and_widthMask h0] at hf
  obtain ⟨hr, hflags⟩ := Prod.mk.inj (Option.some.inj hf)
  have hallows : Allows W.m t (memRead ||| if writes then memWrite else 0) i.operand0 w := by
    cases hw : writes with
    | false => exact hread0
    | true =>
      rw [if_neg (hwrites.mp hw)] at hend
      exact allows_or.mpr ⟨hread0, hend.1⟩
  -- the carry stays as it was recorded, which no kind of these reads
  let g : Flags := ⟨valueOfOperand W.m t i.operand0 w,
    valueOfOperand W.m t i.operand1 w &&& widthMask w, r, kind, w, t.cpu.flags.carryIn⟩
  have hsame : SameFlags g f := by
    rw [← hflags, hr]
    exact Cpu.sameFlags_carryIn (f := ⟨_, _, r, kind, w, _⟩) (Cpu.aluShape_kind haluShape) _
  have htracks' : Tracks (low.flagsWritten (some kind) (some w)) g := by
    refine tracks_recorded htracks.carry fun _ => ⟨?_, .inr ⟨?_, ?_, ?_⟩⟩
    · rw [← hr]
      exact Cpu.consistent_shape haluShape _ _ _ _
    · exact valueOfOperand_and_widthMask h0 _ _
    · rw [BitVec.and_assoc, BitVec.and_self]
    · rw [← hr, BitVec.and_assoc, BitVec.and_self]
  rw [lowerInline_eq h0 hlive]
  refine ⟨if writes then written W.m (t.withFlags g) i.operand0 w r else t.withFlags g, ?_, ?_,
    fun e l hl => ?_⟩
  · cases hw : writes with
    | false =>
      rw [if_pos (not_not.mp fun hnot => by rw [hwrites.mpr hnot] at hw; cases hw)] at hend
      rw [hend]
      exact hsame.alike t
    | true =>
      rw [if_neg (hwrites.mp hw)] at hend
      rw [if_pos rfl, hend.2, written_withFlags, written_withFlags]
      exact hsame.alike _
  · cases writes with
    | false => exact htracks'
    | true =>
      change Tracks _ (written W.m (t.withFlags g) i.operand0 w r).cpu.flags
      rw [written_flags]
      exact htracks'
  · obtain ⟨l', hcpu, ha, hb, hpoints, hload⟩ :=
      @World.run_loadOperands _ W (withHelpers others) t e l i w hl pc _ h0 h1 hr0 hr1 hone hallows
        hread1
    refine ⟨Function.update l' .r r, by simp [hcpu], fun rest => ?_⟩
    simp only [List.append_assoc, List.nil_append, List.cons_append]
    rw [hload, W.run_record hcpu happly hkind (by rw [ha, hb, hr]), ha, hb]
    cases writes with
    | false => rfl
    | true =>
      rw [if_pos rfl, if_pos rfl, W.run_storePlace_withFlags (by simp [hcpu])
        (fun hk => by simp [hpoints hk]) hallows]
      simp [g]

/-! ## The shifts that are inline -/

theorem inlineShiftCount_spec {op : AluOp} {i : Insn} {w : Width} (h0 : IsPlace i.operand0 w)
    (h : inlineShiftCount op i ≠ 0) :
    (∃ kind, Cpu.shiftKind op = some kind) ∧ i.operand1.kind = .imm ∧
      inlineShiftCount op i = i.operand1.imm &&& 0x1F#32 ∧
      (i.operand1.imm &&& 0x1F#32).toNat < w.bits := by
  unfold inlineShiftCount at h ⊢
  by_cases hop : op ≠ .shl ∧ op ≠ .shr ∧ op ≠ .sar
  · rw [if_pos hop] at h
    exact absurd rfl h
  by_cases himm : i.operand1.kind ≠ .imm
  · rw [if_neg hop, if_pos himm] at h
    exact absurd rfl h
  by_cases hcount : (i.operand1.imm &&& 0x1F#32).toNat < i.operand0.size * 8
  · rw [if_neg hop, if_neg himm, if_pos hcount]
    rw [h0.2] at hcount
    refine ⟨?_, not_not.mp himm, rfl, hcount⟩
    cases op <;> first | exact ⟨_, rfl⟩ | exact absurd (by decide) hop
  · rw [if_neg hop, if_neg himm, if_neg hcount] at h
    exact absurd rfl h

theorem shift_does {low : WasmLower} (W : World low.state) (others : Imports) {t u : Ctx Host}
    {i : Insn} {w : Width} {op : AluOp} (h0 : IsPlace i.operand0 w)
    (hcount : inlineShiftCount op i ≠ 0) (hr0 : Addressable i.operand0)
    (htracks : Tracks low t.cpu.flags) (pc : U32)
    (hrun : executeAlu (Cpu.guestMem W.m) op i t = .ok () u) :
    W.Does others (lowerShift low op i pc (inlineShiftCount op i)).2
      (lowerShift low op i pc (inlineShiftCount op i)).1 t u := by
  obtain ⟨⟨kind, hkind⟩, himm, heq, hlt⟩ := inlineShiftCount_spec h0 hcount
  obtain ⟨hread, -, r, f, hf, hend⟩ :=
    @executeAlu_inv _ W.contiguous _ _ _ _ _ .dword h0 (.inl himm) hrun
  have hb : valueOfOperand W.m t i.operand1 .dword = i.operand1.imm := by
    unfold valueOfOperand
    rw [himm]
  rw [heq] at hcount ⊢
  rw [hb, alu_shifted hkind (valueOfOperand_and_widthMask h0 _ _) hcount hlt] at hf
  obtain ⟨hr, hflags⟩ := Prod.mk.inj (Option.some.inj hf)
  rw [if_neg (by cases op <;> cases hkind <;> decide)] at hend
  obtain ⟨hwrite, rfl⟩ := hend
  have hallows := allows_or.mpr ⟨hread, hwrite⟩
  let g : Flags := ⟨valueOfOperand W.m t i.operand0 w, i.operand1.imm &&& 0x1F#32, r, kind, w,
    t.cpu.flags.carryIn⟩
  have hsame : SameFlags g f := by
    rw [← hflags, hr]
    exact Cpu.sameFlags_carryIn (f := ⟨_, _, r, kind, w, _⟩) (Cpu.shiftKind_kind hkind) _
  have hcode : lowerShift low op i pc (i.operand1.imm &&& 0x1F#32) =
      (low.state.guardPlace i.operand0 pc w (memRead ||| memWrite) ++
        low.state.loadPlace i.operand0 w ++ [.localTee .a] ++
        shiftBy kind w (i.operand1.imm &&& 0x1F#32) ++
        [.localSet .r, .const (i.operand1.imm &&& 0x1F#32), .localSet .b] ++
        WasmState.storeFlags kind w ++ low.state.storePlace i.operand0 w .r,
        low.flagsWritten (some kind) (some w)) := by
    unfold lowerShift
    dsimp only
    rw [widthOf_place h0]
    cases op <;> cases hkind <;> rfl
  rw [hcode]
  refine ⟨written W.m (t.withFlags g) i.operand0 w r, ?_, ?_, fun e l hl => ?_⟩
  · rw [written_withFlags, written_withFlags]
    exact hsame.alike _
  · rw [written_flags]
    refine tracks_recorded htracks.carry fun harith => ?_
    cases op <;> cases hkind <;> cases harith
  · have hcpu : W.pointed t i.operand0 l .cpu = W.home.addr := (W.pointed_cpu l).trans hl
    have hpoints := W.points_pointed (s := t) (o := i.operand0) l
    refine ⟨Function.update (Function.update (Function.update (W.pointed t i.operand0 l) .a
      (valueOfOperand W.m t i.operand0 w)) .r r) .b (i.operand1.imm &&& 0x1F#32), by simp [hcpu],
      fun rest => ?_⟩
    simp only [List.append_assoc, List.nil_append, List.cons_append]
    rw [W.run_guardPlace hl hr0 hallows, W.run_loadPlace hcpu h0 hpoints hallows, run_localTee,
      run_shiftBy hkind hlt, hr, run_localSet, run_const, run_localSet,
      W.run_storeFlags_at (by simp [hcpu]) (by cases op <;> cases hkind <;> decide),
      W.run_storePlace_withFlags (by simp [hcpu]) (fun hk => by simp [hpoints hk]) hallows]
    simp [g]

/-! ## The operations of the helper -/

theorem alu_and_widthMask (op : AluOp) (a b : U32) (w : Width) (f : Flags) :
    alu op a (b &&& widthMask w) w f = alu op a b w f := by
  unfold alu
  simp only [BitVec.and_assoc, BitVec.and_self]

/-- A shift or a rotate reads five bits of its count. -/
theorem alu_of_count {op : AluOp} (hop : isShiftOrRotate op = true) {b b' : U32}
    (h : b &&& 0x1F#32 = b' &&& 0x1F#32) (a : U32) (w : Width) (f : Flags) :
    alu op a b w f = alu op a b' w f := by
  cases op <;>
    first | exact absurd hop (by decide) | simp only [alu, and_widthMask_and_five, h]

theorem and_byte_and_five (v : U32) : v &&& 0xFF#32 &&& 0x1F#32 = v &&& 0x1F#32 := by
  rw [BitVec.and_assoc]
  rfl

namespace World

variable {st : WasmState} (W : World st) {imports : Imports} {t : Ctx Host} {e : U32}
  {l : WasmLocal → U32} {dst src : Operand} {w : Width} {stack : List U32}

/-- The one operand in memory is guarded, on whichever side it is. -/
theorem run_guardEither (hl : l .cpu = W.home.addr) (hr0 : Addressable dst)
    (hr1 : Addressable src) (hone : ¬ (dst.kind = .mem ∧ src.kind = .mem)) {access : U32}
    (hallows0 : Allows W.m t access dst w) (hallows1 : Allows W.m t memRead src w) (pc : U32)
    (rest : Code) :
    run (wasmEnv imports) ((if dst.kind = .mem then st.guard dst pc w.bytes access
        else if src.kind = .mem then st.guard src pc w.bytes memRead else []) ++ rest)
        ⟨W.at_ t e, l, stack⟩ =
      run (wasmEnv imports) rest ⟨W.at_ t e, W.pointed t dst (W.pointed t src l), stack⟩ := by
  by_cases hk0 : dst.kind = .mem
  · have hk1 : src.kind ≠ .mem := fun hk => hone ⟨hk0, hk⟩
    have hguard : st.guardPlace dst pc w access = st.guard dst pc w.bytes access := if_pos hk0
    have hsrc : W.pointed t src l = l := if_neg hk1
    rw [if_pos hk0, ← hguard, W.run_guardPlace hl hr0 hallows0, hsrc]
  · have hguard : st.guardPlace src pc w memRead =
        if src.kind = .mem then st.guard src pc w.bytes memRead else [] := rfl
    have hdst : W.pointed t dst (W.pointed t src l) = W.pointed t src l := if_neg hk0
    rw [if_neg hk0, ← hguard, W.run_guardPlace hl hr1 hallows1, hdst]

theorem points_either (hone : ¬ (dst.kind = .mem ∧ src.kind = .mem)) :
    W.Points t src (W.pointed t dst (W.pointed t src l)) := by
  intro hk
  have hdst : W.pointed t dst (W.pointed t src l) = W.pointed t src l :=
    if_neg fun hk0 => hone ⟨hk0, hk⟩
  rw [hdst]
  exact W.points_pointed l hk

/-- The call behind its five arguments. -/
theorem run_callAlu_at (others : Imports) (hl : l .cpu = W.home.addr) {op : AluOp} {a b r : U32}
    {f' : Flags} (h : alu op a b w (recorded t.cpu.flags) = some (r, f')) (rest : Code) :
    run (wasmEnv (withHelpers others)) (WasmState.flagsAddr ++ (.call .alu :: rest))
        ⟨W.at_ t e, l, [BitVec.ofNat 32 w.bytes, b, a, aluCode op]⟩ =
      run (wasmEnv (withHelpers others)) rest
        ⟨W.at_ (t.withFlags (behind t.cpu.flags f')) e, l, [r]⟩ :=
  W.run_callAlu others hl h

/-- The second operand as the helper is given it. -/
theorem run_pushSecond (hl : l .cpu = W.home.addr) {op : AluOp} {w1 : Width}
    (h1 : IsValue src w1) (hw1 : w1 = if isShiftOrRotate op then .byte else w)
    (hshift : isShiftOrRotate op = true → src.kind ≠ .mem) (hpoints : W.Points t src l)
    (hallows : Allows W.m t memRead src w1) (a : U32) :
    ∃ b, (∀ f, alu op a b w f = alu op a (valueOfOperand W.m t src w1) w f) ∧
      ∀ rest, run (wasmEnv imports) ((if isShiftOrRotate op then pushCount src
          else if src.kind = .mem then st.loadMem w else pushOperand src w) ++ rest)
          ⟨W.at_ t e, l, stack⟩ =
        run (wasmEnv imports) rest ⟨W.at_ t e, l, b :: stack⟩ := by
  cases hop : isShiftOrRotate op with
  | true =>
    rw [hop, if_pos rfl] at hw1
    subst hw1
    unfold pushCount valueOfOperand
    rcases h1.imm_or_reg (hshift hop) with hk | hk
    · refine ⟨src.imm &&& 0xFF#32, fun f => ?_, fun rest => ?_⟩
      · rw [hk]
        exact alu_of_count hop (and_byte_and_five _) a w f
      · rw [if_pos rfl, if_pos hk]
        rfl
    · refine ⟨regRead t.cpu.toCpuState src.reg .byte, fun f => by rw [hk], fun rest => ?_⟩
      rw [if_pos rfl, if_neg (by rw [hk]; decide)]
      exact W.run_loadReg_at hl src.reg .byte
  | false =>
    rw [hop, if_neg Bool.false_ne_true] at hw1
    subst hw1
    by_cases hk : src.kind = .mem
    · have hload : st.loadMem w1 = st.loadPlace src w1 := (if_pos hk).symm
      refine ⟨valueOfOperand W.m t src w1, fun f => rfl, fun rest => ?_⟩
      rw [if_neg Bool.false_ne_true, if_pos hk, hload]
      exact W.run_loadPlace hl (h1.resolve_left (by rw [hk]; decide)) hpoints hallows
    · refine ⟨valueOfOperand W.m t src w1 &&& widthMask w1, fun f => alu_and_widthMask _ _ _ _ f,
        fun rest => ?_⟩
      rw [if_neg Bool.false_ne_true, if_neg hk]
      exact W.run_pushOperand hl (h1.imm_or_reg hk)

end World

theorem lowerViaHelper_eq {low : WasmLower} {op : AluOp} {i : Insn} {w : Width}
    (h0 : IsPlace i.operand0 w) (pc : U32) :
    lowerViaHelper low op i pc =
      ((if i.operand0.kind = .mem then
          low.state.guard i.operand0 pc w.bytes (memRead ||| memWrite)
        else if i.operand1.kind = .mem then low.state.guard i.operand1 pc w.bytes memRead
        else []) ++
        ([.const (aluCode op)] : Code) ++ low.state.loadPlace i.operand0 w ++
        (if isShiftOrRotate op then pushCount i.operand1
          else if i.operand1.kind = .mem then low.state.loadMem w
          else pushOperand i.operand1 w) ++
        ([.const (BitVec.ofNat 32 w.bytes)] : Code) ++ WasmState.flagsAddr ++
        ([.call .alu, .localSet .r] : Code) ++
        low.state.storePlace i.operand0 w .r,
        if isShiftOrRotate op then low.flagsWritten none none
        else low.flagsWritten (some .explicit) none) := by
  unfold lowerViaHelper
  dsimp only
  rw [widthOf_place h0]

theorem alu_explicit {op : AluOp} (hnone : inlineShape op = none)
    (hshift : isShiftOrRotate op = false) {a b r : U32} {w : Width} {f f' : Flags}
    (h : alu op a b w f = some (r, f')) : f'.kind = .explicit := by
  obtain rfl | rfl : op = .adc ∨ op = .sbb := by
    revert hnone hshift
    cases op <;> decide
  all_goals
    obtain ⟨-, rfl⟩ := Prod.mk.inj (Option.some.inj h)
    rfl

theorem helper_does {low : WasmLower} (W : World low.state) (others : Imports) {t u : Ctx Host}
    {i : Insn} {w w1 : Width} {op : AluOp} (hnone : inlineShape op = none)
    (h0 : IsPlace i.operand0 w) (h1 : IsValue i.operand1 w1)
    (hw1 : w1 = if isShiftOrRotate op then .byte else w) (hr0 : Addressable i.operand0)
    (hr1 : Addressable i.operand1) (hone : ¬ (i.operand0.kind = .mem ∧ i.operand1.kind = .mem))
    (hshift : isShiftOrRotate op = true → i.operand1.kind ≠ .mem)
    (htracks : Tracks low t.cpu.flags) (pc : U32)
    (hrun : executeAlu (Cpu.guestMem W.m) op i t = .ok () u) :
    W.Does others (lowerViaHelper low op i pc).2 (lowerViaHelper low op i pc).1 t u := by
  obtain ⟨hread0, hread1, r, f, hf, hend⟩ := executeAlu_inv W.contiguous h0 h1 hrun
  rw [if_neg (by rintro (rfl | rfl) <;> cases hnone)] at hend
  obtain ⟨hwrite, rfl⟩ := hend
  have hallows := allows_or.mpr ⟨hread0, hwrite⟩
  have hallows1 : Allows W.m t memRead i.operand1 w := by
    cases hop : isShiftOrRotate op with
    | true => exact .of_reg (hshift hop)
    | false =>
      rw [hop, if_neg Bool.false_ne_true] at hw1
      exact hw1 ▸ hread1
  rw [lowerViaHelper_eq h0]
  obtain ⟨f', hf', hsame⟩ := alu_recorded hf
  obtain ⟨hbehind, hkind, hfresh⟩ := behind_spec (alu_records hf')
  have hcarry : (behind t.cpu.flags f').carryIn = 0 ∨ (behind t.cpu.flags f').carryIn = 1 := by
    rcases hfresh with h | h
    · rw [h]
      exact htracks.carry
    · exact h.carry
  refine ⟨written W.m (t.withFlags (behind t.cpu.flags f')) i.operand0 w r, ?_, ?_,
    fun e l hl => ?_⟩
  · rw [written_withFlags, written_withFlags]
    exact (hbehind.trans hsame).alike _
  · rw [written_flags]
    cases hop : isShiftOrRotate op with
    | true => exact Tracks.start rfl hcarry
    | false =>
      refine ⟨hcarry, .inr ?_, fun _ harith => ?_⟩
      · change some FlagKind.explicit = some (behind t.cpu.flags f').kind
        rw [hkind, alu_explicit hnone hop hf']
      · change (behind t.cpu.flags f').kind.isArith = true at harith
        rw [hkind, alu_explicit hnone hop hf'] at harith
        cases harith
  · have hcpu : W.pointed t i.operand0 (W.pointed t i.operand1 l) .cpu = W.home.addr := by
      rw [W.pointed_cpu, W.pointed_cpu, hl]
    have hpoints := W.points_pointed (s := t) (o := i.operand0) (W.pointed t i.operand1 l)
    obtain ⟨b, hb, hpush⟩ := @World.run_pushSecond _ W (withHelpers others) t e _ i.operand1 w
      (valueOfOperand W.m t i.operand0 w :: [aluCode op]) hcpu op w1 h1 hw1 hshift
      (W.points_either hone) hread1 (valueOfOperand W.m t i.operand0 w)
    rw [← hb] at hf'
    refine ⟨Function.update (W.pointed t i.operand0 (W.pointed t i.operand1 l)) .r r,
      by simp [hcpu], fun rest => ?_⟩
    simp only [List.append_assoc, List.nil_append, List.cons_append]
    rw [W.run_guardEither hl hr0 hr1 hone hallows hallows1, run_const,
      W.run_loadPlace hcpu h0 hpoints hallows, hpush, run_const,
      W.run_callAlu_at others hcpu hf', run_localSet,
      W.run_storePlace_withFlags (by simp [hcpu]) (fun hk => by simp [hpoints hk]) hallows]
    simp

theorem isShiftOrRotate_inlineShape {op : AluOp} (h : isShiftOrRotate op = true) :
    inlineShape op = none := by
  cases op <;> first | exact absurd h (by decide) | rfl

/-- An operation with two operands does what the interpreter does. -/
theorem alu_does {low : WasmLower} (W : World low.state) (others : Imports) {t u : Ctx Host}
    {i : Insn} {op : AluOp} (haccepts : aluAccepts op i = true)
    (ha0 : i.operand0.kind = .mem → Addressed i.operand0)
    (ha1 : i.operand1.kind = .mem → Addressed i.operand1) (htracks : Tracks low t.cpu.flags)
    (pc : U32) (hrun : executeAlu (Cpu.guestMem W.m) op i t = .ok () u) :
    W.Does others (aluLower low op i pc).2 (aluLower low op i pc).1 t u := by
  unfold aluAccepts at haccepts
  obtain ⟨hdst, hsrc⟩ := Bool.and_eq_true_iff.mp haccepts
  obtain ⟨⟨w, -, h0⟩, h16⟩ := operandOk_place (Bool.and_eq_true_iff.mp hdst).2
  have hr0 : Addressable i.operand0 := ⟨ha0, h16⟩
  unfold aluLower
  by_cases hcount : inlineShiftCount op i ≠ 0
  · rw [if_pos hcount]
    exact shift_does W others h0 hcount hr0 htracks pc hrun
  · rw [if_neg hcount]
    cases hop : isShiftOrRotate op with
    | true =>
      rw [hop, if_pos rfl] at hsrc
      have h1 : IsValue i.operand1 .byte ∧ i.operand1.kind ≠ .mem := by
        rcases Bool.or_eq_true_iff.mp hsrc with himm | hreg
        · have hk := eq_of_beq himm
          exact ⟨.inl hk, by rw [hk]; decide⟩
        · obtain ⟨hk, hsize⟩ := Bool.and_eq_true_iff.mp hreg
          exact ⟨.inr ⟨.inl (eq_of_beq hk), eq_of_beq hsize⟩, by rw [eq_of_beq hk]; decide⟩
      have hnone := isShiftOrRotate_inlineShape hop
      rw [hnone]
      exact helper_does W others hnone h0 h1.1 (by rw [hop]; rfl) hr0
        ⟨ha1, fun hk => absurd hk h1.2⟩ (fun h => h1.2 h.2) (fun _ => h1.2) htracks pc hrun
    | false =>
      rw [hop, if_neg Bool.false_ne_true] at hsrc
      obtain ⟨hvalue, hone⟩ := Bool.and_eq_true_iff.mp hsrc
      obtain ⟨⟨w', hsize, h1⟩, h16'⟩ := operandOk_value hvalue
      have hone' : ¬ (i.operand0.kind = .mem ∧ i.operand1.kind = .mem) := by
        rintro ⟨hk0, hk1⟩
        rw [hk0, hk1] at hone
        cases hone
      obtain rfl : w = w' := by
        rw [h0.2] at hsize
        exact Option.some_inj.mp (by rw [← Cpu.ofBytes_bytes w, hsize, Cpu.ofBytes_bytes])
      cases hshape : inlineShape op with
      | none =>
        exact helper_does W others hshape h0 h1 (by rw [hop]; rfl) hr0 ⟨ha1, h16'⟩ hone'
          (fun h => by rw [hop] at h; cases h) htracks pc hrun
      | some shape =>
        exact inline_does W others hshape h0 h1 hr0 ⟨ha1, h16'⟩ hone' htracks pc hrun

/-! ## One operand -/

namespace World

variable {low : WasmLower} (W : World low.state) (others : Imports) {t : Ctx Host} {e : U32}
  {l : WasmLocal → U32} {stack : List U32}

/-- The carry that INC and DEC preserve is stored before anything overwrites the flags. -/
theorem run_keepCarry (hl : l .cpu = W.home.addr) (htracks : Tracks low t.cpu.flags)
    (rest : Code) :
    run (wasmEnv (withHelpers others)) (low.carryIn ++ (WasmState.storeCarry ++ rest))
        ⟨W.at_ t e, l, stack⟩ =
      run (wasmEnv (withHelpers others)) rest
        ⟨W.at_ (t.withFlags { t.cpu.flags with
            carryIn := if Cpu.flagCf t.cpu.flags then 1 else 0 }) e,
          Function.update l .carry (truth (Cpu.flagCf t.cpu.flags)), stack⟩ := by
  refine (W.run_carry others (c := { t.cpu with eip := e }) hl htracks).trans
    ((W.run_storeCarry (by simp [hl])).trans ?_)
  rw [Function.update_self]
  cases Cpu.flagCf t.cpu.flags <;> rfl

end World

theorem not_does {low : WasmLower} (W : World low.state) (others : Imports) {t u : Ctx Host}
    {i : Insn} {w : Width} (h0 : IsPlace i.operand0 w) (hr0 : Addressable i.operand0)
    (htracks : Tracks low t.cpu.flags) (pc : U32)
    (hrun : executeAluUnary (Cpu.guestMem W.m) .not i t = .ok () u) :
    W.Does others (aluUnaryLower low .not i pc).2 (aluUnaryLower low .not i pc).1 t u := by
  obtain ⟨hread, hwrite, r, f, hf, rfl⟩ := executeAluUnary_inv W.contiguous h0 hrun
  have hallows := allows_or.mpr ⟨hread, hwrite⟩
  have hmask := valueOfOperand_and_widthMask h0 W.m t
  obtain ⟨hr, rfl⟩ := Prod.mk.inj (Option.some.inj hf)
  rw [hmask] at hr
  have hxor : valueOfOperand W.m t i.operand0 w ^^^ -1 = ~~~ valueOfOperand W.m t i.operand0 w :=
    BitVec.xor_allOnes
  unfold aluUnaryLower
  dsimp only
  rw [if_pos rfl, widthOf_place h0]
  refine World.Reaches.does (fun e l hl => ?_) (by rw [written_flags]; exact htracks)
  have hcpu : W.pointed t i.operand0 l .cpu = W.home.addr := (W.pointed_cpu l).trans hl
  have hpoints := W.points_pointed (s := t) (o := i.operand0) l
  refine ⟨Function.update (W.pointed t i.operand0 l) .r r, by simp [hcpu], fun rest => ?_⟩
  simp only [List.append_assoc, List.nil_append, List.cons_append]
  rw [W.run_guardPlace hl hr0 hallows, W.run_loadPlace hcpu h0 hpoints hallows, run_const,
    run_op _ _ _ _ _ rfl, run_maskTo, hxor, hr, run_localSet,
    W.run_storePlace (by simp [hcpu]) (fun hk => by simp [hpoints hk]) hallows]
  simp
  rfl

theorem neg_does {low : WasmLower} (W : World low.state) (others : Imports) {t u : Ctx Host}
    {i : Insn} {w : Width} (h0 : IsPlace i.operand0 w) (hr0 : Addressable i.operand0)
    (htracks : Tracks low t.cpu.flags) (pc : U32)
    (hrun : executeAluUnary (Cpu.guestMem W.m) .neg i t = .ok () u) :
    W.Does others (aluUnaryLower low .neg i pc).2 (aluUnaryLower low .neg i pc).1 t u := by
  obtain ⟨hread, hwrite, r, f, hf, rfl⟩ := executeAluUnary_inv W.contiguous h0 hrun
  have hallows := allows_or.mpr ⟨hread, hwrite⟩
  have hmask := valueOfOperand_and_widthMask h0 W.m t
  obtain ⟨hr, hflags⟩ := Prod.mk.inj (Option.some.inj hf)
  rw [hmask] at hr hflags
  rw [hr] at hflags
  let g : Flags := ⟨0, valueOfOperand W.m t i.operand0 w, r, .sub, w, t.cpu.flags.carryIn⟩
  have hsame : SameFlags g f := by
    rw [← hflags]
    exact Cpu.sameFlags_carryIn (f := ⟨_, _, r, .sub, w, _⟩) ⟨nofun, nofun⟩ _
  have hzero : (0 : U32) &&& widthMask w = 0 := BitVec.zero_and
  have hkind : FlagKind.sub ≠ .none := by decide
  have happly : ∀ a b stack, Op.sub.apply (b :: a :: stack) = some ((a - b) :: stack) :=
    fun _ _ _ => rfl
  unfold aluUnaryLower
  dsimp only
  rw [if_neg (by decide), widthOf_place h0]
  refine ⟨written W.m (t.withFlags g) i.operand0 w r, ?_, ?_, fun e l hl => ?_⟩
  · rw [written_withFlags, written_withFlags]
    exact hsame.alike _
  · rw [written_flags]
    refine tracks_recorded htracks.carry fun _ => ⟨?_, .inr ⟨hzero, hmask, ?_⟩⟩
    · rw [← hr]
      exact @Cpu.consistent_shape .sub _ _ rfl _ _ _ _
    · rw [← hr, BitVec.and_assoc, BitVec.and_self]
  · have hcpu : W.pointed t i.operand0 l .cpu = W.home.addr := (W.pointed_cpu l).trans hl
    have hpoints := W.points_pointed (s := t) (o := i.operand0) l
    refine ⟨Function.update (Function.update (Function.update (W.pointed t i.operand0 l) .a 0) .b
      (valueOfOperand W.m t i.operand0 w)) .r r, by simp [hcpu], fun rest => ?_⟩
    simp only [unaryKind, carryInIsLive, List.append_assoc, List.nil_append, List.cons_append,
      beq_iff_eq, reduceCtorEq, or_self, Bool.or_eq_true, if_false, if_true, ne_eq,
      not_true_eq_false]
    rw [W.run_guardPlace hl hr0 hallows, run_const, run_localSet,
      W.run_loadPlace (by simp [hcpu]) h0 (fun hk => by simp [hpoints hk]) hallows, run_localSet,
      W.run_record (by simp [hcpu]) happly hkind (r := r) (by simp [← hr]),
      W.run_storePlace_withFlags (by simp [hcpu]) (fun hk => by simp [hpoints hk]) hallows]
    simp [g]

/-- The kind, the operation of the interpreter and the operator of the code. -/
theorem incdec_spec {op : AluUnOp} (hop : op = .inc ∨ op = .dec) :
    ∃ combine : U32 → U32 → U32, (∀ a b stack,
        (if unaryKind op = .inc then Op.add else .sub).apply (b :: a :: stack) =
          some (combine a b :: stack)) ∧
      (∀ (a : U32) (w : Width) (f : Flags), a &&& widthMask w = a →
        aluUnary op a w f = some (combine a 1 &&& widthMask w, ⟨a, 1, combine a 1 &&& widthMask w,
          unaryKind op, w, if Cpu.flagCf f then 1 else 0⟩)) ∧
      (∀ (a : U32) (w : Width) (c : U8),
        Cpu.Consistent ⟨a, 1, combine a 1 &&& widthMask w, unaryKind op, w, c⟩) := by
  have hone : ∀ w : Width, Cpu.operand w 1 = 1 := fun w => by cases w <;> rfl
  rcases hop with rfl | rfl
  · refine ⟨(· + ·), fun _ _ _ => rfl, fun a w f ha => ?_, fun a w c => ?_⟩
    · simp only [aluUnary, ha]
      rfl
    · change Cpu.operand w ((a + 1) &&& widthMask w) = Cpu.operand w a + 1
      rw [Cpu.operand_and_widthMask, Cpu.operand_add, hone]
  · refine ⟨(· - ·), fun _ _ _ => rfl, fun a w f ha => ?_, fun a w c => ?_⟩
    · simp only [aluUnary, ha]
      rfl
    · change Cpu.operand w ((a - 1) &&& widthMask w) = Cpu.operand w a - 1
      rw [Cpu.operand_and_widthMask, Cpu.operand_sub, hone]

theorem incdec_does {low : WasmLower} (W : World low.state) (others : Imports) {t u : Ctx Host}
    {i : Insn} {w : Width} {op : AluUnOp} (hop : op = .inc ∨ op = .dec)
    (h0 : IsPlace i.operand0 w) (hr0 : Addressable i.operand0)
    (htracks : Tracks low t.cpu.flags) (pc : U32)
    (hrun : executeAluUnary (Cpu.guestMem W.m) op i t = .ok () u) :
    W.Does others (aluUnaryLower low op i pc).2 (aluUnaryLower low op i pc).1 t u := by
  obtain ⟨hread, hwrite, r, f, hf, rfl⟩ := executeAluUnary_inv W.contiguous h0 hrun
  have hallows := allows_or.mpr ⟨hread, hwrite⟩
  have hmask := valueOfOperand_and_widthMask h0 W.m t
  obtain ⟨combine, happly, halu, hconsistent⟩ := incdec_spec hop
  rw [halu _ _ _ hmask] at hf
  obtain ⟨hr, hflags⟩ := Prod.mk.inj (Option.some.inj hf)
  have hkind : unaryKind op = .inc ∨ unaryKind op = .dec := by
    rcases hop with rfl | rfl
    · exact .inl rfl
    · exact .inr rfl
  have hnot : op ≠ .not := by
    rcases hop with rfl | rfl <;> decide
  have hsub : unaryKind op ≠ .sub := by
    rcases hkind with h | h <;> rw [h] <;> decide
  have hnone : unaryKind op ≠ .none := by
    rcases hkind with h | h <;> rw [h] <;> decide
  have hlive : carryInIsLive (unaryKind op) = true := by
    rcases hkind with h | h <;> rw [h] <;> rfl
  unfold aluUnaryLower
  dsimp only
  rw [if_neg hnot, widthOf_place h0, if_pos hlive, if_neg hsub, if_neg hsub, if_pos hsub]
  refine World.Reaches.does (fun e l hl => ?_) ?_
  · have hcpu : W.pointed t i.operand0 l .cpu = W.home.addr := (W.pointed_cpu l).trans hl
    have hpoints := W.points_pointed (s := t) (o := i.operand0) l
    refine ⟨Function.update (Function.update (Function.update (Function.update
      (W.pointed t i.operand0 l) .carry (truth (Cpu.flagCf t.cpu.flags))) .a
      (valueOfOperand W.m t i.operand0 w)) .b 1) .r r, by simp [hcpu], fun rest => ?_⟩
    simp only [List.append_assoc, List.nil_append, List.cons_append]
    rw [W.run_guardPlace hl hr0 hallows, W.run_keepCarry others hcpu htracks,
      W.run_loadPlace_withFlags (by simp [hcpu]) h0 (fun hk => by simp [hpoints hk]) hallows,
      run_localSet, run_const, run_localSet,
      W.run_record (by simp [hcpu]) happly hnone (r := r) (by simp [← hr])]
    have hstore := fun l => @World.run_storePlace_withFlags _ W (withHelpers others) t e l i w
    simp only [Function.update_self, ne_eq, reduceCtorEq, not_false_eq_true, Function.update_of_ne]
    refine (hstore _ (by simp [hcpu]) (fun hk => by simp [hpoints hk]) hallows .r rest).trans ?_
    rw [Function.update_self, ← hflags, hr]
    rfl
  · rw [written_flags, ← hflags]
    refine tracks_recorded ?_ fun _ => ⟨hconsistent _ _ _, .inr ⟨hmask, ?_, ?_⟩⟩
    · cases Cpu.flagCf t.cpu.flags
      · exact .inl rfl
      · exact .inr rfl
    · exact (by cases w <;> decide : (1 : U32) &&& widthMask w = 1)
    · rw [BitVec.and_assoc, BitVec.and_self]

theorem aluUnary_does {low : WasmLower} (W : World low.state) (others : Imports) {t u : Ctx Host}
    {i : Insn} {op : AluUnOp} (haccepts : aluUnaryAccepts i = true)
    (ha0 : i.operand0.kind = .mem → Addressed i.operand0) (htracks : Tracks low t.cpu.flags)
    (pc : U32) (hrun : executeAluUnary (Cpu.guestMem W.m) op i t = .ok () u) :
    W.Does others (aluUnaryLower low op i pc).2 (aluUnaryLower low op i pc).1 t u := by
  obtain ⟨⟨w, -, h0⟩, h16⟩ := operandOk_place (Bool.and_eq_true_iff.mp haccepts).2
  have hr0 : Addressable i.operand0 := ⟨ha0, h16⟩
  cases op with
  | not => exact not_does W others h0 hr0 htracks pc hrun
  | neg => exact neg_does W others h0 hr0 htracks pc hrun
  | inc => exact incdec_does W others (.inl rfl) h0 hr0 htracks pc hrun
  | dec => exact incdec_does W others (.inr rfl) h0 hr0 htracks pc hrun

end X86Port.Wasm
