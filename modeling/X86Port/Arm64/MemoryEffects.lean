import Mathlib.Tactic.Set
import X86Port.Arm64.Effects

/-!
# Addresses, loads and stores of the encoder

* `emits_materialize_near`, `emits_materialize_far`: a base and a displacement.
* `emits_ldst`: a load or store at the address, wherever its displacement fits.
-/

namespace X86Port.Arm64

open Lib (CodeBuffer)

/-! ## Sums and differences -/

theorem sub_eq_add_not {k : Nat} (p q : BitVec k) : p + ~~~q + 1#k = p - q := by
  rw [BitVec.add_assoc, ← BitVec.neg_eq_not_add, BitVec.sub_eq_add_neg]

namespace A64State

variable (s : A64State) {k : Nat} (p q : BitVec k) (put : A64State → BitVec k → A64State)

theorem addSub_add : s.addSub false false p q put = put s (p + q) := by
  unfold addSub
  exact congrArg (put s) (BitVec.add_zero _)

theorem addSub_sub : s.addSub true false p q put = put s (p - q) := by
  unfold addSub
  exact congrArg (put s) (sub_eq_add_not p q)

theorem addSub_adds : s.addSub false true p q put = put (s.sumFlags p q false) (p + q) := by
  unfold addSub
  exact congrArg (put _) (BitVec.add_zero _)

theorem addSub_subs : s.addSub true true p q put = put (s.sumFlags p (~~~q) true) (p - q) := by
  unfold addSub
  exact congrArg (put _) (sub_eq_add_not p q)

end A64State

/-- The twelve bits of an immediate in a word. -/
theorem imm12_inWord (imm : U32) : imm &&& 0xFFF = inWord (imm.setWidth 12 : BitVec 12) :=
  and_ones_eq imm (by decide : 12 ≤ 32)

theorem emits_addSubImm (e : A64Emit) (sf isSub : Bool) (rd rn : RegNo) (imm : U32)
    (shift12 : Bool) :
    Emits e (e.addSubImm sf isSub rd rn imm shift12) fun s =>
      s.addSub isSub false (s.readSp sf rn)
        ((imm.setWidth 12 : BitVec 12).setWidth (sizeOf sf) <<< (if shift12 then 12 else 0))
        fun t r => t.writeSp rd r := by
  unfold A64Emit.addSubImm
  rw [imm12_inWord]
  exact Emits.word (decode_addSubImm sf rd rn isSub shift12 _) fun s => rfl

/-! ## Displacements -/

def magnitude (disp : U32) : U32 := if disp.toInt < 0 then -disp else disp

/-- The immediates of ADD and SUB reach the displacement. -/
def Near (disp : U32) : Prop :=
  disp = 0 ∨ magnitude disp ≤ 0xFFF ∨ magnitude disp &&& 0xFFF = 0 ∧ magnitude disp >>> 12 ≤ 0xFFF

instance (disp : U32) : Decidable (Near disp) := inferInstanceAs (Decidable (_ ∨ _))

theorem signExtend_of_neg {disp : U32} (h : disp.toInt < 0) :
    disp.signExtend 64 = -(-disp).setWidth 64 := by
  have hlt := disp.isLt
  have hmsb : disp.msb = true := by
    rw [BitVec.msb_eq_toInt, decide_eq_true_eq]
    exact h
  have hhigh : 2 ^ 31 ≤ disp.toNat := by
    rw [BitVec.msb_eq_decide, decide_eq_true_eq] at hmsb
    exact hmsb
  apply BitVec.eq_of_toNat_eq
  rw [BitVec.toNat_signExtend, if_pos hmsb, BitVec.toNat_setWidth, BitVec.toNat_neg,
    BitVec.toNat_setWidth, BitVec.toNat_neg]
  omega

theorem signExtend_of_nonneg {disp : U32} (h : ¬ disp.toInt < 0) :
    disp.signExtend 64 = disp.setWidth 64 := by
  have hmsb : disp.msb = false := by
    rw [BitVec.msb_eq_toInt, decide_eq_false_iff_not]
    exact h
  rw [BitVec.signExtend_eq_setWidth_of_msb_false hmsb]

/-- The immediate of an ADD or SUB, shifted or not. -/
theorem widened {imm : U32} (h : imm ≤ 0xFFF) :
    (imm.setWidth 12 : BitVec 12).setWidth 64 = imm.setWidth 64 := by
  have hlt : imm.toNat ≤ 0xFFF := h
  apply BitVec.eq_of_toNat_eq
  rw [BitVec.toNat_setWidth, BitVec.toNat_setWidth, BitVec.toNat_setWidth]
  omega

theorem widened_shifted {imm : U32} (hlow : imm &&& 0xFFF = 0) (h : imm >>> 12 ≤ 0xFFF) :
    ((imm >>> 12).setWidth 12 : BitVec 12).setWidth 64 <<< 12 = imm.setWidth 64 := by
  have hlt : (imm >>> 12).toNat ≤ 0xFFF := h
  have hzero := congrArg BitVec.toNat hlow
  rw [BitVec.toNat_and] at hzero
  change imm.toNat &&& (2 ^ 12 - 1) = 0 at hzero
  rw [Nat.and_two_pow_sub_one_eq_mod] at hzero
  rw [BitVec.toNat_ushiftRight, Nat.shiftRight_eq_div_pow] at hlt
  apply BitVec.eq_of_toNat_eq
  rw [BitVec.toNat_shiftLeft, BitVec.toNat_setWidth, BitVec.toNat_setWidth, BitVec.toNat_setWidth,
    BitVec.toNat_ushiftRight, Nat.shiftRight_eq_div_pow, Nat.shiftLeft_eq]
  have := imm.isLt
  omega

/-! ## Addresses -/

section

variable (e : A64Emit) {dst base : RegNo} {disp : U32}

/-- A step of the magnitude in the direction of the displacement. -/
theorem addSub_magnitude (s : A64State) (dst base : RegNo) (disp : U32) :
    (s.addSub (decide (disp.toInt < 0)) false (s.readSp true base)
      ((magnitude disp).setWidth 64 : U64) fun t r => t.writeSp dst r) =
        s.setSp dst (s.addr base disp) := by
  have hput : ∀ v : U64, s.writeSp dst v = s.setSp dst v := fun v => by
    unfold A64State.writeSp
    rw [BitVec.setWidth_eq]
  have hread : s.readSp true base = s.gpr base := BitVec.setWidth_eq _
  unfold magnitude A64State.addr
  by_cases hneg : disp.toInt < 0
  · rw [decide_eq_true hneg, if_pos hneg, signExtend_of_neg hneg]
    refine (s.addSub_sub _ _ _).trans ((hput _).trans (congrArg (s.setSp dst) ?_))
    rw [hread]
    exact BitVec.sub_eq_add_neg _ _
  · rw [decide_eq_false hneg, if_neg hneg, signExtend_of_nonneg hneg]
    refine (s.addSub_add _ _ _).trans ((hput _).trans (congrArg (s.setSp dst) ?_))
    rw [hread]
    rfl

theorem materialize_eq (dst base : RegNo) (disp : U32) : e.materializeAddress dst base disp =
    if disp = 0 then e.addSubImm true false dst base 0 false
    else if magnitude disp ≤ 0xFFF then
      e.addSubImm true (decide (disp.toInt < 0)) dst base (magnitude disp) false
    else if magnitude disp &&& 0xFFF = 0 ∧ magnitude disp >>> 12 ≤ 0xFFF then
      e.addSubImm true (decide (disp.toInt < 0)) dst base (magnitude disp >>> 12) true
    else
      (e.movXImm64 (if scratch = dst then 9 else scratch) (disp.signExtend 64)).put32
        (1#32 <<< 31 ||| 0x0B#32 <<< 24 |||
          inWord (if scratch = dst then (9 : RegNo) else scratch) <<< 16 |||
          inWord base <<< 5 ||| inWord dst) := rfl

theorem emits_materialize_near (dst base : RegNo) (h : Near disp) :
    Emits e (e.materializeAddress dst base disp) fun s => s.setSp dst (s.addr base disp) := by
  have hstep := fun s : A64State => addSub_magnitude s dst base disp
  have himm : ∀ (s : A64State) (q : U64), q = (magnitude disp).setWidth 64 →
      (s.addSub (decide (disp.toInt < 0)) false (s.readSp true base) q fun t r => t.writeSp dst r) =
        s.setSp dst (s.addr base disp) := fun s q hq => hq ▸ hstep s
  rw [materialize_eq]
  by_cases hzero : disp = 0
  · subst hzero
    exact (emits_addSubImm e true false dst base 0 false).congr hstep
  rw [if_neg hzero]
  by_cases hsmall : magnitude disp ≤ 0xFFF
  · rw [if_pos hsmall]
    refine (emits_addSubImm e true _ dst base _ false).congr fun s => himm s _ ?_
    exact (BitVec.shiftLeft_zero _).trans (widened hsmall)
  have hround := (h.resolve_left hzero).resolve_left hsmall
  rw [if_neg hsmall, if_pos hround]
  refine (emits_addSubImm e true _ dst base _ true).congr fun s => himm s _ ?_
  exact widened_shifted hround.1 hround.2

/-- The register for a constant that the immediates do not reach. -/
def constantRegister (dst : RegNo) : RegNo := if scratch = dst then 9 else scratch

theorem emits_materialize_far (h : ¬ Near disp) (hbase : base ≠ 31)
    (htmp : base ≠ constantRegister dst) (hdst : dst ≠ 31) :
    Emits e (e.materializeAddress dst base disp) fun s =>
      (s.setSp (constantRegister dst) (disp.signExtend 64)).setSp dst (s.addr base disp) := by
  have hnot := not_or.mp h
  have htmp31 : constantRegister dst ≠ 31 := by
    unfold constantRegister scratch
    split_ifs <;> decide
  rw [materialize_eq, if_neg hnot.1, if_neg (not_or.mp hnot.2).1, if_neg (not_or.mp hnot.2).2]
  refine ((emits_movXImm64 e (constantRegister dst) (disp.signExtend 64)).trans
    (Emits.word (decode_addReg dst base (constantRegister dst)) fun s => rfl)).congr fun s => ?_
  have hread : ∀ (t : A64State) (r : RegNo), t.read true r = t.x r :=
    fun t r => BitVec.setWidth_eq _
  have hwrite : ∀ (t : A64State) (v : U64), t.write dst v = t.setSp dst v := fun t v => by
    unfold A64State.write
    rw [BitVec.setWidth_eq, A64State.setX_of_ne t hdst]
  set t := s.setSp (constantRegister dst) (disp.signExtend 64) with ht
  have hconstant : s.write (constantRegister dst) (disp.signExtend 64) = t := by
    unfold A64State.write
    rw [BitVec.setWidth_eq, A64State.setX_of_ne s htmp31]
  have hsum : t.x base + t.x (constantRegister dst) = s.addr base disp := by
    rw [t.x_of_ne hbase, t.x_of_ne htmp31, ht]
    unfold A64State.setSp A64State.addr
    dsimp only
    rw [Function.update_of_ne htmp, Function.update_self]
  rw [Function.comp_apply, hconstant, A64State.addSub_add]
  refine (hwrite t _).trans (congrArg (t.setSp dst) ?_)
  exact (congrArg₂ (· + ·) (hread t base) ((BitVec.shiftLeft_zero _).trans (hread t _))).trans hsum

end

/-! ## Loads and stores -/

/-- Nothing but these registers differs. -/
structure EqBut (lost : List RegNo) (s t : A64State) : Prop where
  gpr : ∀ r, r ∉ lost → t.gpr r = s.gpr r
  vec : t.vec = s.vec
  n : t.n = s.n
  z : t.z = s.z
  c : t.c = s.c
  v : t.v = s.v
  mem : t.mem = s.mem

theorem EqBut.refl (lost : List RegNo) (s : A64State) : EqBut lost s s :=
  ⟨fun _ _ => rfl, rfl, rfl, rfl, rfl, rfl, rfl⟩

theorem EqBut.setSp {lost : List RegNo} {s t : A64State} (h : EqBut lost s t) {r : RegNo}
    (hr : r ∈ lost) (v : U64) : EqBut lost s (t.setSp r v) where
  gpr r' hr' := by
    have hne : r' ≠ r := fun heq => hr' (heq ▸ hr)
    rw [t.setSp_gpr_of_ne hne, h.gpr r' hr']
  vec := h.vec
  n := h.n
  z := h.z
  c := h.c
  v := h.v
  mem := h.mem

/-- The registers that a load or store loses on the way to its address. -/
def lostFor (disp : U32) (bytes : Nat) : List RegNo :=
  if (A64Emit.fitsScaledUnsigned disp bytes).isSome then []
  else if Near disp then [scratch]
  else [scratch, 9]

/-- The state with the address in the scratch register, where the displacement does not fit. -/
def approach (rn : RegNo) (disp : U32) (bytes : Nat) (s : A64State) : A64State :=
  if (A64Emit.fitsScaledUnsigned disp bytes).isSome then s
  else if Near disp then s.setSp scratch (s.addr rn disp)
  else (s.setSp 9 (disp.signExtend 64)).setSp scratch (s.addr rn disp)

theorem approach_eqBut (rn : RegNo) (disp : U32) (bytes : Nat) (s : A64State) :
    EqBut (lostFor disp bytes) s (approach rn disp bytes s) := by
  unfold lostFor approach
  split_ifs
  · exact EqBut.refl _ s
  · exact (EqBut.refl _ s).setSp (by decide) _
  · exact ((EqBut.refl _ s).setSp (by decide) _).setSp (by decide) _

/-- A far displacement is added to a register that the constant does not take. -/
def Reachable (rn : RegNo) (disp : U32) (bytes : Nat) : Prop :=
  (A64Emit.fitsScaledUnsigned disp bytes).isSome ∨ Near disp ∨ rn ≠ 31 ∧ rn ≠ 9

theorem fits_imm {disp imm : U32} {bytes : Nat}
    (h : A64Emit.fitsScaledUnsigned disp bytes = some imm) :
    ¬ disp.toInt < 0 ∧ imm.toNat < 2 ^ 12 ∧ disp.toNat = imm.toNat * bytes := by
  unfold A64Emit.fitsScaledUnsigned at h
  split_ifs at h with hneg hmod hlarge
  obtain rfl := Option.some.inj h
  have hdisp := disp.isLt
  have hdiv : disp.toNat / bytes ≤ 4095 := Nat.not_lt.mp hlarge
  have hnat : (BitVec.ofNat 32 (disp.toNat / bytes)).toNat = disp.toNat / bytes := by
    rw [BitVec.toNat_ofNat, Nat.mod_eq_of_lt (by omega)]
  rw [hnat]
  refine ⟨hneg, by omega, ?_⟩
  exact (Nat.div_mul_cancel (Nat.dvd_of_mod_eq_zero (not_not.mp hmod))).symm

theorem fits_scaled {disp imm : U32} {scale : Nat}
    (h : A64Emit.fitsScaledUnsigned disp (2 ^ scale) = some imm) :
    (imm.setWidth 12 : BitVec 12).setWidth 64 <<< scale = disp.signExtend 64 := by
  obtain ⟨hneg, himm, hdisp⟩ := fits_imm h
  rw [signExtend_of_nonneg hneg]
  apply BitVec.eq_of_toNat_eq
  have hlt := disp.isLt
  rw [BitVec.toNat_shiftLeft, BitVec.toNat_setWidth, BitVec.toNat_setWidth, BitVec.toNat_setWidth,
    Nat.shiftLeft_eq, Nat.mod_eq_of_lt (show imm.toNat < 2 ^ 12 from himm),
    Nat.mod_eq_of_lt (by omega : imm.toNat < 2 ^ 64), ← hdisp]

theorem emits_ldst (e : A64Emit) {size opc : BitVec 2} {simd : Bool} {rt rn : RegNo} {disp : U32}
    {bytes : Nat} {act : U64 → A64State → A64State}
    (hbytes : bytes = 2 ^ (if simd then 4 else size.toNat))
    (hact : ∀ s addr, s.access size simd opc rt addr = some (act addr s))
    (hreach : Reachable rn disp bytes) :
    Emits e (e.ldstUnsigned (loadStoreBase size simd opc) rt rn disp bytes) fun s =>
      act (s.addr rn disp) (approach rn disp bytes s) := by
  have hlow : ∀ e' : A64Emit,
      Emits e' (e'.put32 (loadStoreBase size simd opc ||| 0#32 <<< 10 ||| inWord scratch <<< 5 |||
        inWord rt)) fun s => act (s.gpr scratch) s := fun e' =>
    Emits.word (decode_loadStore rt scratch size opc simd 0) fun s => by
      have haddr : s.gpr scratch + (0 : BitVec 12).setWidth 64 <<<
          (if simd then 4 else size.toNat) = s.gpr scratch := by
        rw [show (0 : BitVec 12).setWidth 64 = 0#64 from rfl, BitVec.zero_shiftLeft,
          BitVec.add_zero]
      exact (congrArg (s.access size simd opc rt) haddr).trans (hact s _)
  unfold A64Emit.ldstUnsigned approach
  cases hfits : A64Emit.fitsScaledUnsigned disp bytes with
  | some imm =>
    obtain ⟨-, himm, -⟩ := fits_imm hfits
    rw [hbytes] at hfits
    have hword := decode_loadStore rt rn size opc simd (imm.setWidth 12)
    rw [inWord_setWidth himm] at hword
    refine Emits.word hword fun s => ?_
    refine (congrArg (fun v => s.access size simd opc rt (s.gpr rn + v))
      (fits_scaled hfits)).trans ?_
    exact hact s _
  | none =>
    by_cases hnear : Near disp
    · refine ((emits_materialize_near e scratch rn hnear).trans (hlow _)).congr fun s => ?_
      rw [if_neg (by simp), if_pos hnear, Function.comp_apply, A64State.setSp_gpr_self]
    · have hrn := (hreach.resolve_left (by simp [hfits])).resolve_left hnear
      have hfar : Emits e (e.materializeAddress scratch rn disp) _ :=
        emits_materialize_far e hnear hrn.1 hrn.2 (by decide)
      refine (hfar.trans (hlow _)).congr fun s => ?_
      rw [if_neg (by simp), if_neg hnear, Function.comp_apply, A64State.setSp_gpr_self]
      rfl

end X86Port.Arm64
