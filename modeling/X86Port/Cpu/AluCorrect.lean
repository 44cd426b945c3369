import X86Port.Cpu.AluShift

/-!
# The ALU is architectural

* `alu_spec`, `aluUnary_spec`: every operation at every width, from every prior flag state.
* `incDecChain_cf`: INC and DEC keep the carry through any chain of them.
* `alu_architectural`: both together.
-/

namespace X86Port.Cpu

open Lib

/-- One call of the ALU leaves a result of its width and flags as `spec` says, from the
flags `e`. -/
def Computes {w : Width} (out : Option (U32 × Flags)) (e : U32)
    (spec : U32 → BitVec w.bits → U32 → Prop) : Prop :=
  ∃ (r : BitVec w.bits) (f' : Flags), out = some (r.setWidth 32, f') ∧ spec e r (eflags f')

/-- The state a recording leaves. -/
def recorded (f : Flags) (kind : FlagKind) (a b r : U32) (w : Width) : Flags :=
  ⟨a, b, r, kind, w, if flagCf f then 1 else 0⟩

theorem flagsSet_eq {f : Flags} {kind : FlagKind} {a b r : U32} {w : Width}
    (h : kind.isShift = false ∨ b ≠ 0) :
    flagsSet f kind a b r w = some (recorded f kind a b r w) := by
  unfold flagsSet
  rw [if_neg]
  · rfl
  · rintro ⟨hk, hb⟩
    rcases h with h | h
    · rw [h] at hk
      cases hk
    · exact h hb

/-! ## Additions and subtractions -/

section Recorded

variable (f : Flags) {w : Width} (x y : BitVec w.bits)

theorem add_result :
    (x.setWidth 32 + y.setWidth 32) &&& widthMask w =
      (x + y + BitVec.ofNat w.bits false.toNat).setWidth 32 := by
  rw [and_widthMask_eq, operand_add, operand_setWidth, operand_setWidth]
  simp

theorem sub_result :
    (x.setWidth 32 - y.setWidth 32) &&& widthMask w =
      (x - y - BitVec.ofNat w.bits false.toNat).setWidth 32 := by
  rw [and_widthMask_eq, operand_sub, operand_setWidth, operand_setWidth]
  simp

theorem operand_carry (w : Width) (c : Bool) :
    operand w (BitVec.ofNat 32 c.toNat) = BitVec.ofNat w.bits c.toNat := by
  rw [operand, BitVec.setWidth_ofNat_of_le w.bits_pos.2]

theorem adc_result (c : Bool) :
    (x.setWidth 32 + y.setWidth 32 + BitVec.ofNat 32 c.toNat) &&& widthMask w =
      (x + y + BitVec.ofNat w.bits c.toNat).setWidth 32 := by
  rw [and_widthMask_eq, operand_add, operand_add, operand_setWidth, operand_setWidth,
    operand_carry]

theorem sbb_result (c : Bool) :
    (x.setWidth 32 - y.setWidth 32 - BitVec.ofNat 32 c.toNat) &&& widthMask w =
      (x - y - BitVec.ofNat w.bits c.toNat).setWidth 32 := by
  rw [and_widthMask_eq, operand_sub, operand_sub, operand_setWidth, operand_setWidth,
    operand_carry]

theorem and_result :
    (x.setWidth 32 &&& y.setWidth 32) &&& widthMask w = (x &&& y).setWidth 32 := by
  rw [and_widthMask_eq, operand, BitVec.setWidth_and]
  exact congrArg (BitVec.setWidth 32)
    (congrArg₂ (· &&& ·) (operand_setWidth w x) (operand_setWidth w y))

theorem or_result :
    (x.setWidth 32 ||| y.setWidth 32) &&& widthMask w = (x ||| y).setWidth 32 := by
  rw [and_widthMask_eq, operand, BitVec.setWidth_or]
  exact congrArg (BitVec.setWidth 32)
    (congrArg₂ (· ||| ·) (operand_setWidth w x) (operand_setWidth w y))

theorem xor_result :
    (x.setWidth 32 ^^^ y.setWidth 32) &&& widthMask w = (x ^^^ y).setWidth 32 := by
  rw [and_widthMask_eq, operand, BitVec.setWidth_xor]
  exact congrArg (BitVec.setWidth 32)
    (congrArg₂ (· ^^^ ·) (operand_setWidth w x) (operand_setWidth w y))

theorem not_result : ~~~(x.setWidth 32) &&& widthMask w = (~~~x).setWidth 32 := by
  rw [and_widthMask_eq, operand, BitVec.setWidth_not w.bits_pos.2]
  exact congrArg (BitVec.setWidth 32) (congrArg (~~~ ·) (operand_setWidth w x))

theorem recorded_add :
    IsSum x y false (x + y + BitVec.ofNat w.bits false.toNat)
      (eflags (recorded f .add (x.setWidth 32) (y.setWidth 32)
        ((x + y + BitVec.ofNat w.bits false.toNat).setWidth 32) w)) where
  toResultFlags := recorded_resultFlags (by decide) (by decide) _ _ _ _
  result := rfl
  of := recorded_add_of x y false _
  af := by
    rw [recorded, recorded_af (by decide), decide_eq_decide]
    exact (sum_bits x y false).carry_bit (half_bits w)

theorem recorded_sub :
    IsDifference x y false (x - y - BitVec.ofNat w.bits false.toNat)
      (eflags (recorded f .sub (x.setWidth 32) (y.setWidth 32)
        ((x - y - BitVec.ofNat w.bits false.toNat).setWidth 32) w)) where
  toResultFlags := recorded_resultFlags (by decide) (by decide) _ _ _ _
  result := rfl
  of := recorded_sub_of x y false _
  af := by
    rw [recorded, recorded_af (by decide), decide_eq_decide]
    exact (difference_bits x y false).borrow_bit (half_bits w)

theorem one_setWidth (w : Width) : (1 : BitVec w.bits).setWidth 32 = 1 := by
  cases w <;> rfl

theorem recorded_inc :
    IsSum x 1 false (x + 1 + BitVec.ofNat w.bits false.toNat)
      (eflags (recorded f .inc (x.setWidth 32) ((1 : BitVec w.bits).setWidth 32)
        ((x + 1 + BitVec.ofNat w.bits false.toNat).setWidth 32) w)) where
  toResultFlags := recorded_resultFlags (by decide) (by decide) _ _ _ _
  result := rfl
  of := recorded_inc_of x _ _
  af := by
    rw [recorded, recorded_af (by decide), decide_eq_decide]
    exact (sum_bits x 1 false).carry_bit (half_bits w)

theorem recorded_dec :
    IsDifference x 1 false (x - 1 - BitVec.ofNat w.bits false.toNat)
      (eflags (recorded f .dec (x.setWidth 32) ((1 : BitVec w.bits).setWidth 32)
        ((x - 1 - BitVec.ofNat w.bits false.toNat).setWidth 32) w)) where
  toResultFlags := recorded_resultFlags (by decide) (by decide) _ _ _ _
  result := rfl
  of := recorded_dec_of x _ _
  af := by
    rw [recorded, recorded_af (by decide), decide_eq_decide]
    exact (difference_bits x 1 false).borrow_bit (half_bits w)

theorem recorded_logic (a b : U32) (r : BitVec w.bits) :
    IsLogic r (eflags (recorded f .logic a b (r.setWidth 32) w)) where
  toResultFlags := recorded_resultFlags (by decide) (by decide) _ _ _ _
  cf := eflags_cf _
  of := eflags_of _

end Recorded

/-! ## One operation -/

theorem toNat_count (b : U32) (w : Width) :
    ((operand w b).setWidth 32 &&& 0x1F#32).toNat = (operand w b).toNat % 32 := by
  rw [BitVec.toNat_and, toNat_setWidth_operand,
    show (0x1F#32).toNat = 2 ^ 5 - 1 from rfl, Nat.and_two_pow_sub_one_eq_mod]

theorem count_eq_zero_iff (b : U32) (w : Width) :
    (operand w b).setWidth 32 &&& 0x1F#32 = 0 ↔ (operand w b).toNat % 32 = 0 := by
  rw [← BitVec.toNat_inj, toNat_count]
  rfl

/-- A count of zero leaves everything as it was, whichever way it would have shifted. -/
theorem computes_of_count_zero {op : AluOp}
    (hop : op ∈ [AluOp.shl, .shr, .sar, .rol, .ror, .rcl, .rcr]) {w : Width}
    (x y : BitVec w.bits) (f : Flags) (hz : y.toNat % 32 = 0) :
    Computes (some (x.setWidth 32, f)) (eflags f) (AluSpec op x y) := by
  refine ⟨x, f, rfl, ?_⟩
  unfold AluSpec
  dsimp only
  rw [hz]
  cases op <;> first | exact ⟨rfl, rfl⟩ | simp at hop

/-- A count that is not zero, as the specification reads it. -/
theorem count_ne_zero {b : U32} {w : Width}
    (h : ¬ (operand w b).setWidth 32 &&& 0x1F#32 = 0) : ¬ (operand w b).toNat % 32 = 0 :=
  fun hz => h ((count_eq_zero_iff b w).mpr hz)

theorem cfOf_eflags (f : Flags) : cfOf (eflags f) = flagCf f := eflags_cf f

theorem carry_ne_zero (c : Bool) : decide (BitVec.ofNat 32 c.toNat ≠ 0) = c := by
  cases c <;> rfl

/-- The carry is read from the recorded state before the loop, and put on top. -/
theorem rotate_through_carry {w : Width} {r : BitVec w.bits} {f : Flags} {c : Bool}
    {rot : BitVec (w.bits + 1)} (of : Bool) (hrot : BitVec.cons c r = rot) :
    BitVec.cons (cfOf (eflags (setCfOfOnly f c of))) r = rot ∧
      OnlyCfOf (eflags f) (eflags (setCfOfOnly f c of)) := by
  obtain ⟨hcf, honly⟩ := setCfOfOnly_spec f c of
  rw [hcf]
  exact ⟨hrot, honly⟩

theorem alu_spec (op : AluOp) (a b : U32) (w : Width) (f : Flags) :
    Computes (alu op a b w f) (eflags f) (AluSpec op (operand w a) (operand w b)) := by
  unfold alu
  dsimp only
  rw [and_widthMask_eq a, and_widthMask_eq b]
  cases op with
  | add =>
    dsimp only
    rw [add_result, flagsSet_eq (Or.inl rfl)]
    exact ⟨_, _, rfl, recorded_add_cf _ _ _, recorded_add f _ _⟩
  | sub =>
    dsimp only
    rw [sub_result, flagsSet_eq (Or.inl rfl)]
    exact ⟨_, _, rfl, recorded_sub_cf _ _ _ _, recorded_sub f _ _⟩
  | cmp =>
    dsimp only
    rw [sub_result, flagsSet_eq (Or.inl rfl)]
    exact ⟨_, _, rfl, recorded_sub_cf _ _ _ _, recorded_sub f _ _⟩
  | adc =>
    dsimp only
    rw [carryWord_eq, adc_result]
    refine ⟨_, _, rfl, ?_⟩
    have hspec := flagsAdc_spec (operand w a) (operand w b) (flagCf f)
    rw [← eflags_cf] at hspec ⊢
    exact hspec
  | sbb =>
    dsimp only
    rw [carryWord_eq, sbb_result]
    refine ⟨_, _, rfl, ?_⟩
    have hspec := flagsSbb_spec (operand w a) (operand w b) (flagCf f)
    rw [← eflags_cf] at hspec ⊢
    exact hspec
  | and =>
    dsimp only
    rw [and_result, flagsSet_eq (Or.inl rfl)]
    exact ⟨_, _, rfl, rfl, recorded_logic f _ _ _⟩
  | test =>
    dsimp only
    rw [and_result, flagsSet_eq (Or.inl rfl)]
    exact ⟨_, _, rfl, rfl, recorded_logic f _ _ _⟩
  | or =>
    dsimp only
    rw [or_result, flagsSet_eq (Or.inl rfl)]
    exact ⟨_, _, rfl, rfl, recorded_logic f _ _ _⟩
  | xor =>
    dsimp only
    rw [xor_result, flagsSet_eq (Or.inl rfl)]
    exact ⟨_, _, rfl, rfl, recorded_logic f _ _ _⟩
  | shl =>
    dsimp only
    by_cases hz : (operand w b).setWidth 32 &&& 0x1F#32 = 0
    · rw [if_pos hz]
      exact computes_of_count_zero (by simp) _ _ f ((count_eq_zero_iff b w).mp hz)
    · rw [if_neg hz, flagsSet_eq (Or.inr hz), shl_result, toNat_count]
      refine ⟨_, _, rfl, ?_⟩
      unfold AluSpec
      dsimp only
      rw [if_neg (count_ne_zero hz), ← toNat_count]
      exact ⟨rfl, recorded_shl_cf _ _ _ _ hz, recorded_resultFlags (by decide) (by decide) _ _ _ _⟩
  | shr =>
    dsimp only
    by_cases hz : (operand w b).setWidth 32 &&& 0x1F#32 = 0
    · rw [if_pos hz]
      exact computes_of_count_zero (by simp) _ _ f ((count_eq_zero_iff b w).mp hz)
    · rw [if_neg hz, flagsSet_eq (Or.inr hz), shr_result, toNat_count]
      refine ⟨_, _, rfl, ?_⟩
      unfold AluSpec
      dsimp only
      rw [if_neg (count_ne_zero hz), ← toNat_count]
      exact ⟨rfl, recorded_shr_cf _ _ _ _, recorded_resultFlags (by decide) (by decide) _ _ _ _⟩
  | sar =>
    dsimp only
    by_cases hz : (operand w b).setWidth 32 &&& 0x1F#32 = 0
    · rw [if_pos hz]
      exact computes_of_count_zero (by simp) _ _ f ((count_eq_zero_iff b w).mp hz)
    · rw [if_neg hz, flagsSet_eq (Or.inr hz), sar_result, toNat_count]
      refine ⟨_, _, rfl, ?_⟩
      unfold AluSpec
      dsimp only
      rw [if_neg (count_ne_zero hz), ← toNat_count]
      exact ⟨rfl, recorded_sar_cf _ _ _ _ hz, recorded_resultFlags (by decide) (by decide) _ _ _ _⟩
  | rol =>
    dsimp only
    by_cases hz : (operand w b).setWidth 32 &&& 0x1F#32 = 0
    · rw [if_pos hz]
      exact computes_of_count_zero (by simp) _ _ f ((count_eq_zero_iff b w).mp hz)
    · rw [if_neg hz, rol_result, toNat_count]
      refine ⟨_, _, rfl, ?_⟩
      unfold AluSpec
      dsimp only
      rw [if_neg (count_ne_zero hz), (setCfOfOnly_spec f _ _).1, bit_eq_getLsbD,
        getLsbD_setWidth_operand]
      exact ⟨rfl, rfl, (setCfOfOnly_spec f _ _).2⟩
  | ror =>
    dsimp only
    by_cases hz : (operand w b).setWidth 32 &&& 0x1F#32 = 0
    · rw [if_pos hz]
      exact computes_of_count_zero (by simp) _ _ f ((count_eq_zero_iff b w).mp hz)
    · rw [if_neg hz, ror_result, toNat_count]
      refine ⟨_, _, rfl, ?_⟩
      unfold AluSpec
      dsimp only
      rw [if_neg (count_ne_zero hz), (setCfOfOnly_spec f _ _).1]
      exact ⟨rfl, msb_setWidth_operand _, (setCfOfOnly_spec f _ _).2⟩
  | rcl =>
    dsimp only
    by_cases hz : (operand w b).setWidth 32 &&& 0x1F#32 = 0
    · rw [if_pos hz]
      exact computes_of_count_zero (by simp) _ _ f ((count_eq_zero_iff b w).mp hz)
    · obtain ⟨r, c, hloop, hrot⟩ := rclLoop_eq (operand w a) (flagCf f)
        ((operand w b).toNat % 32 % (w.bits + 1))
      rw [if_neg hz, toNat_count, carryWord_eq, hloop]
      refine ⟨r, _, rfl, ?_⟩
      unfold AluSpec
      dsimp only
      rw [if_neg (count_ne_zero hz), carry_ne_zero, cfOf_eflags f]
      rw [BitVec.rotateLeft_mod_eq_rotateLeft] at hrot
      exact rotate_through_carry _ hrot
  | rcr =>
    dsimp only
    by_cases hz : (operand w b).setWidth 32 &&& 0x1F#32 = 0
    · rw [if_pos hz]
      exact computes_of_count_zero (by simp) _ _ f ((count_eq_zero_iff b w).mp hz)
    · obtain ⟨r, c, hloop, hrot⟩ := rcrLoop_eq (operand w a) (flagCf f)
        ((operand w b).toNat % 32 % (w.bits + 1))
      rw [if_neg hz, toNat_count, carryWord_eq, hloop]
      refine ⟨r, _, rfl, ?_⟩
      unfold AluSpec
      dsimp only
      rw [if_neg (count_ne_zero hz), carry_ne_zero, cfOf_eflags f]
      rw [BitVec.rotateRight_mod_eq_rotateRight] at hrot
      exact rotate_through_carry _ hrot

theorem aluUnary_spec (op : AluUnOp) (a : U32) (w : Width) (f : Flags) :
    Computes (aluUnary op a w f) (eflags f) (AluUnSpec op (operand w a)) := by
  unfold aluUnary
  dsimp only
  rw [and_widthMask_eq a]
  cases op with
  | not =>
    dsimp only
    rw [not_result]
    exact ⟨_, f, rfl, rfl, rfl⟩
  | neg =>
    dsimp only
    have hzero : (0 : BitVec w.bits).setWidth 32 = (0 : U32) := by cases w <;> rfl
    have hpos : (0 : BitVec w.bits).toNat = 0 := by cases w <;> rfl
    have hres := sub_result (0 : BitVec w.bits) (operand w a)
    have hrec := recorded_sub f (0 : BitVec w.bits) (operand w a)
    have hcf := recorded_sub_cf (0 : BitVec w.bits) (operand w a)
    rw [hzero] at hres hrec hcf
    rw [hres, flagsSet_eq (Or.inl rfl)]
    refine ⟨_, _, rfl, ?_, hrec⟩
    rw [recorded, hcf, hpos]
  | inc =>
    dsimp only
    rw [← one_setWidth w, add_result, flagsSet_eq (Or.inl rfl)]
    exact ⟨_, _, rfl, recorded_inc_cf (Or.inl rfl) f _ _ _ _, recorded_inc f _⟩
  | dec =>
    dsimp only
    rw [← one_setWidth w, sub_result, flagsSet_eq (Or.inl rfl)]
    exact ⟨_, _, rfl, recorded_inc_cf (Or.inr rfl) f _ _ _ _, recorded_dec f _⟩

/-! ## Chains of INC and DEC -/

/-- The operations that keep the carry. -/
abbrev IncDec := { op : AluUnOp // op = .inc ∨ op = .dec }

/-- A chain of INC and DEC, each on its own operand and width. -/
def incDecChain : List (IncDec × U32 × Width) → Flags → Option Flags
  | [], f => some f
  | (op, a, w) :: rest, f => (aluUnary op.1 a w f).bind fun out => incDecChain rest out.2

theorem incDecChain_cf (chain : List (IncDec × U32 × Width)) (f : Flags) :
    ∃ f', incDecChain chain f = some f' ∧ cfOf (eflags f') = cfOf (eflags f) := by
  induction chain generalizing f with
  | nil => exact ⟨f, rfl, rfl⟩
  | cons s rest ih =>
    obtain ⟨⟨op, hop⟩, a, w⟩ := s
    obtain ⟨r, f₁, hout, hspec⟩ := aluUnary_spec op a w f
    obtain ⟨f', hrest, hcf⟩ := ih f₁
    refine ⟨f', ?_, ?_⟩
    · rw [incDecChain, hout]
      exact hrest
    · rw [hcf]
      rcases hop with rfl | rfl
      · exact hspec.1
      · exact hspec.1

/-- Both entry points of the ALU do what the architecture says, from every flag state, and
no chain of INC and DEC changes the carry. -/
theorem alu_architectural :
    (∀ (op : AluOp) (a b : U32) (w : Width) (f : Flags),
      Computes (alu op a b w f) (eflags f) (AluSpec op (operand w a) (operand w b))) ∧
    (∀ (op : AluUnOp) (a : U32) (w : Width) (f : Flags),
      Computes (aluUnary op a w f) (eflags f) (AluUnSpec op (operand w a))) ∧
    (∀ (chain : List (IncDec × U32 × Width)) (f : Flags),
      ∃ f', incDecChain chain f = some f' ∧ cfOf (eflags f') = cfOf (eflags f)) :=
  ⟨alu_spec, aluUnary_spec, incDecChain_cf⟩

end X86Port.Cpu
