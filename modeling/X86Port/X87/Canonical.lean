import X86Port.X87.Storage

/-!
# Canonical encodings

What comes back from the host's `long double`. On the host with the ten-byte type that is
everything; behind the pair it is the encodings that the reassembly and the software conversions
can give.

* `Canonical`: the normals, the subnormals and zeros without an integer bit, the infinities and
  the quiet NaNs.
* `widen_narrow_iff`: just the canonical encodings survive the way there and back.
* `widen_flipSign`, `widen_clearSign`: the sign of a canonical encoding can be changed on that way.
-/

namespace X86Port.X87

open Lib.Rounding

/-! ## The sign as a bit -/

section SignBit

variable {w k : ℕ}

theorem and_not_twoPow (x : BitVec w) (k : ℕ) :
    x &&& ~~~BitVec.twoPow w k = if x.getLsbD k then x ^^^ BitVec.twoPow w k else x := by
  apply BitVec.eq_of_getLsbD_eq
  intro i hi
  have hbit : (if x.getLsbD k then x ^^^ BitVec.twoPow w k else x).getLsbD i =
      (x.getLsbD i ^^ (x.getLsbD k && decide (k = i))) := by
    cases x.getLsbD k
    · simp
    · have hiff : (decide (k < w) && decide (k = i)) = decide (k = i) := by
        by_cases hk : k = i
        · simp [hk, hi]
        · simp [hk]
      simp only [if_true, BitVec.getLsbD_xor, BitVec.getLsbD_twoPow, hiff, Bool.true_and]
  rw [hbit, BitVec.getLsbD_and, BitVec.getLsbD_not, BitVec.getLsbD_twoPow, decide_eq_true hi]
  by_cases hk : k = i
  · subst hk
    simp [hi]
  · simp [hk]

theorem and_twoPow_ne_zero (x : BitVec w) (hk : k < w) :
    decide (x &&& BitVec.twoPow w k ≠ 0) = x.getLsbD k := by
  have hbits : x &&& BitVec.twoPow w k = if x.getLsbD k then BitVec.twoPow w k else 0 :=
    BitVec.and_twoPow x k
  have hne : BitVec.twoPow w k ≠ 0 := by
    intro h
    have hbit := congrArg (·.getLsbD k) h
    simp [hk] at hbit
  rw [hbits]
  cases x.getLsbD k
  · simp
  · simpa using hne

end SignBit

theorem f128SignBit_eq : f128SignBit = BitVec.twoPow 64 63 := by decide

theorem ext80SignBit_eq : ext80SignBit = BitVec.twoPow 16 15 := by decide

theorem ext80ExpMask_eq : ext80ExpMask = ~~~BitVec.twoPow 16 15 := by decide

namespace F128

theorem negative_eq (v : F128) : v.negative = v.hi.getLsbD 63 := by
  rw [negative, f128SignBit_eq]
  exact and_twoPow_ne_zero v.hi (by decide)

theorem clearSign_eq (v : F128) : v.clearSign = if v.negative then v.flipSign else v := by
  rw [clearSign, f128SignBit_eq, and_not_twoPow, negative_eq]
  split_ifs
  · rw [flipSign, f128SignBit_eq]
  · rfl

end F128

namespace Ext80

theorem clearSign_eq (v : Ext80) : v.clearSign = if v.negative then v.flipSign else v := by
  rw [clearSign, ext80ExpMask_eq, and_not_twoPow, negative_eq]
  split_ifs
  · rw [flipSign, ext80SignBit_eq]
  · rfl

theorem exponent_flipSign (v : Ext80) : v.flipSign.exponent = v.exponent := by
  have h : (v.signExp ^^^ ext80SignBit) &&& ext80ExpMask = v.signExp &&& ext80ExpMask := by
    apply BitVec.eq_of_getLsbD_eq
    intro i hi
    rw [ext80SignBit_eq, ext80ExpMask_eq]
    by_cases h15 : 15 = i
    · simp [h15]
    · simp [h15]
  rw [exponent, flipSign, h, ← exponent]

/-! ## The canonical encodings -/

/-- The encodings that stand for something in one way only. -/
def Canonical (v : Ext80) : Prop :=
  v.Normal ∨ (v.exponent = 0 ∧ v.signif.toNat < 2 ^ 63) ∨
    (v.exponent = 0x7FFF ∧ (v.signif.toNat = 2 ^ 63 ∨ 2 ^ 63 + 2 ^ 62 ≤ v.signif.toNat))

theorem normal_flipSign {v : Ext80} : v.flipSign.Normal ↔ v.Normal := by
  rw [Normal, Normal, exponent_flipSign, flipSign]

theorem canonical_flipSign {v : Ext80} : v.flipSign.Canonical ↔ v.Canonical := by
  rw [Canonical, Canonical, normal_flipSign, exponent_flipSign, flipSign]

theorem canonical_clearSign {v : Ext80} : v.clearSign.Canonical ↔ v.Canonical := by
  rw [clearSign_eq]
  split_ifs
  · exact canonical_flipSign
  · rfl

end Ext80

/-! ## The conversions of the pair -/

/-- What the software conversions of the two formats keep to. The ten-byte results are canonical;
a canonical encoding that is no normal has a zero or all-ones exponent in binary128 too, its own
sign, and comes back. -/
structure SoftFloat.Lawful (S : SoftFloat) : Prop where
  canonical : ∀ x, (S.toExt80 x).Canonical
  special : ∀ v : Ext80, v.Canonical → ¬ v.Normal →
    isFiniteNormal (((S.toF128 v).hi >>> 48).setWidth 16) = false
  lossless : ∀ v : Ext80, v.Canonical → ¬ v.Normal → S.toExt80 (S.toF128 v) = v
  flipSign : ∀ v : Ext80, v.Canonical → ¬ v.Normal →
    S.toF128 v.flipSign = (S.toF128 v).flipSign
  negative : ∀ v : Ext80, v.Canonical → ¬ v.Normal → (S.toF128 v).negative = v.negative

namespace SoftFloat

variable {S : SoftFloat} {v : Ext80}

/-- A normal register as the reassembly places it. -/
def placed (v : Ext80) : F128 :=
  ⟨v.signif <<< 49, v.signExp.setWidth 64 <<< 48 ||| ((v.signif >>> 15) &&& f128HiMantMask)⟩

theorem narrow_normal (h : v.Normal) : S.narrow v = placed v := by
  rw [narrow, ext80ToF128Exact_normal h]
  rfl

theorem narrow_other (h : ¬ v.Normal) : S.narrow v = S.toF128 v := by
  have hrefused : ext80ToF128Exact v (some ⟨0, 0⟩) = (false, some ⟨0, 0⟩) := by
    rw [ext80ToF128Exact, if_pos]
    by_contra hcon
    push Not at hcon
    obtain ⟨-, hexp, hbit⟩ := hcon
    have hrange := (isFiniteNormal_iff v).1 (Bool.eq_true_of_not_eq_false hexp)
    exact h ⟨hrange.1, hrange.2, (integerBit_iff v.signif).1 hbit⟩
  rw [narrow, hrefused]

theorem widen_placed (h : v.Normal) : S.widen (placed v) = v := by
  rw [widen, placed, f128ToExt80Exact_placed h]

theorem widen_refused {x : F128}
    (h : isFiniteNormal ((x.hi >>> 48).setWidth 16) = false ∨ x.lo &&& kInexactLowMask ≠ 0) :
    S.widen x = S.toExt80 x := by
  have hrefused : f128ToExt80Exact (some x) (some ⟨0, 0⟩) = (false, some ⟨0, 0⟩) := by
    simp only [f128ToExt80Exact]
    rw [if_neg (by simp), if_pos h]
  rw [widen, hrefused]

theorem widen_exact {x : F128}
    (h : ¬ (isFiniteNormal ((x.hi >>> 48).setWidth 16) = false ∨ x.lo &&& kInexactLowMask ≠ 0)) :
    S.widen x = ⟨ext80IntegerBit ||| (x.hi &&& f128HiMantMask) <<< 15 ||| x.lo >>> 49,
      (x.hi >>> 48).setWidth 16⟩ := by
  simp only [widen, f128ToExt80Exact]
  rw [if_neg (by simp), if_neg h]

/-- What the reassembly gives is a normal. -/
theorem canonical_widen (hS : S.Lawful) (x : F128) : (S.widen x).Canonical := by
  by_cases h : isFiniteNormal ((x.hi >>> 48).setWidth 16) = false ∨ x.lo &&& kInexactLowMask ≠ 0
  · rw [widen_refused h]
    exact hS.canonical x
  · rw [widen_exact h]
    push Not at h
    have hrange := (isFiniteNormal_iff ⟨ext80IntegerBit ||| (x.hi &&& f128HiMantMask) <<< 15 |||
      x.lo >>> 49, (x.hi >>> 48).setWidth 16⟩).1 (Bool.eq_true_of_not_eq_false h.1)
    refine .inl ⟨hrange.1, hrange.2, (integerBit_iff _).1 fun hzero => ?_⟩
    have hbit := congrArg (·.getLsbD 63) hzero
    simp [ext80IntegerBit] at hbit

theorem widen_narrow (hS : S.Lawful) (h : v.Canonical) : S.widen (S.narrow v) = v := by
  by_cases hn : v.Normal
  · rw [narrow_normal hn, widen_placed hn]
  · rw [narrow_other hn, widen_refused (.inl (hS.special v h hn)), hS.lossless v h hn]

theorem widen_narrow_iff (hS : S.Lawful) : S.widen (S.narrow v) = v ↔ v.Canonical :=
  ⟨fun h => h ▸ canonical_widen hS (S.narrow v), widen_narrow hS⟩

/-! ## The sign on the way -/

theorem setWidth_flipSign (e : U16) : (e ^^^ ext80SignBit).setWidth 64 <<< 48 =
    e.setWidth 64 <<< 48 ^^^ f128SignBit := by
  rw [BitVec.setWidth_xor, BitVec.shiftLeft_xor_distrib]
  rfl

theorem xor_or_disjoint (a c : U64) (h : c &&& f128SignBit = 0) :
    a ^^^ f128SignBit ||| c = (a ||| c) ^^^ f128SignBit := by
  apply BitVec.eq_of_getLsbD_eq
  intro i hi
  have hbit : (c.getLsbD i && f128SignBit.getLsbD i) = false := by
    rw [← BitVec.getLsbD_and, h]
    exact BitVec.getLsbD_zero
  rw [BitVec.getLsbD_or, BitVec.getLsbD_xor, BitVec.getLsbD_xor, BitVec.getLsbD_or]
  revert hbit
  cases a.getLsbD i <;> cases c.getLsbD i <;> cases f128SignBit.getLsbD i <;> decide

theorem placed_flipSign : placed v.flipSign = (placed v).flipSign := by
  rw [placed, Ext80.flipSign, F128.flipSign, placed, setWidth_flipSign, xor_or_disjoint]
  rw [BitVec.and_assoc, show f128HiMantMask &&& f128SignBit = 0 by decide]
  exact BitVec.and_zero

theorem negative_placed : (placed v).negative = v.negative := by
  rw [F128.negative_eq, Ext80.negative_eq, placed]
  simp

theorem narrow_flipSign (hS : S.Lawful) (h : v.Canonical) :
    S.narrow v.flipSign = (S.narrow v).flipSign := by
  by_cases hn : v.Normal
  · rw [narrow_normal hn, narrow_normal (Ext80.normal_flipSign.2 hn), placed_flipSign]
  · rw [narrow_other hn, narrow_other fun h => hn (Ext80.normal_flipSign.1 h), hS.flipSign v h hn]

theorem negative_narrow (hS : S.Lawful) (h : v.Canonical) :
    (S.narrow v).negative = v.negative := by
  by_cases hn : v.Normal
  · rw [narrow_normal hn, negative_placed]
  · rw [narrow_other hn, hS.negative v h hn]

theorem widen_flipSign_iff (hS : S.Lawful) :
    S.widen (S.narrow v).flipSign = v.flipSign ↔ v.Canonical := by
  constructor
  · intro h
    exact Ext80.canonical_flipSign.1 (h ▸ canonical_widen hS _)
  · intro h
    rw [← narrow_flipSign hS h, widen_narrow hS (Ext80.canonical_flipSign.2 h)]

theorem widen_clearSign_iff (hS : S.Lawful) :
    S.widen (S.narrow v).clearSign = v.clearSign ↔ v.Canonical := by
  constructor
  · intro h
    exact Ext80.canonical_clearSign.1 (h ▸ canonical_widen hS _)
  · intro h
    rw [F128.clearSign_eq, Ext80.clearSign_eq, negative_narrow hS h]
    split_ifs
    · exact (widen_flipSign_iff hS).2 h
    · exact widen_narrow hS h

/-! ## An exact conversion -/

/-- The fraction of a binary128, cut to the places of a significand. -/
def fractionOf (x : F128) : U64 := (x.hi &&& f128HiMantMask) <<< 15 ||| x.lo >>> 49

/-- The register of a binary128, with the bits below its significand cut off. -/
def cutTo80 (x : F128) : Ext80 :=
  let signExp : U16 := (x.hi >>> 48).setWidth 16
  if signExp &&& ext80ExpMask = 0 then ⟨fractionOf x, signExp⟩
  else if signExp &&& ext80ExpMask = ext80ExpMask ∧ fractionOf x ≠ 0 then
    ⟨ext80IntegerBit ||| ext80QuietBit ||| fractionOf x, signExp⟩
  else ⟨ext80IntegerBit ||| fractionOf x, signExp⟩

def defaultNan : Ext80 := ⟨0xC000000000000000#64, 0xFFFF#16⟩

instance : DecidablePred Ext80.Canonical := fun v => by
  unfold Ext80.Canonical Ext80.Normal
  infer_instance

/-- Conversions without a rounding; what they are not asked for is left at zero. -/
def exact : SoftFloat where
  toF128 v := if v.Canonical then placed v else placed defaultNan
  toExt80 := cutTo80
  constant _ _ := ⟨0, 0⟩
  narrowF32 _ _ := 0
  narrowF64 _ _ := 0
  arith _ _ _ _ := (⟨0, 0⟩, 0)
  arith_sf _ _ _ _ := BitVec.zero_and
  fn _ _ _ _ := none

theorem getLsbD_fractionOf (x : F128) {i : ℕ} (hi : 63 ≤ i) : (fractionOf x).getLsbD i = false := by
  rw [fractionOf, BitVec.getLsbD_or, BitVec.getLsbD_shiftLeft, BitVec.getLsbD_and,
    getLsbD_hiMantMask, BitVec.getLsbD_ushiftRight, BitVec.getLsbD_of_ge x.lo _ (by omega)]
  simp [show ¬ i - 15 < 48 by omega]

theorem fractionOf_placed {i : ℕ} (hi : i < 63) :
    (fractionOf (placed v)).getLsbD i = v.signif.getLsbD i := by
  rw [fractionOf, placed]
  dsimp only
  rw [upper_fraction, BitVec.getLsbD_or, BitVec.getLsbD_shiftLeft, BitVec.getLsbD_and,
    getLsbD_hiMantMask, BitVec.getLsbD_ushiftRight, BitVec.getLsbD_ushiftRight,
    BitVec.getLsbD_shiftLeft]
  by_cases hlow : i < 15
  · simp [hlow, show i < 64 by omega, show 49 + i < 64 by omega]
  · simp [hlow, show i < 64 by omega, show i - 15 < 48 by omega, show 15 + (i - 15) = i by omega,
      show ¬ 49 + i < 64 by omega]

theorem signExp_placed : (((placed v).hi >>> 48).setWidth 16 : U16) = v.signExp := by
  rw [placed]
  exact upper_signExp _ _

theorem getLsbD_63 (w : U64) : w.getLsbD 63 = decide (2 ^ 63 ≤ w.toNat) := by
  have := w.isLt
  rw [BitVec.getLsbD, Nat.testBit_eq_decide_div_mod_eq, decide_eq_decide]
  omega

theorem quiet_iff_bits (w : U64) :
    2 ^ 63 + 2 ^ 62 ≤ w.toNat ↔ w.getLsbD 63 = true ∧ w.getLsbD 62 = true := by
  have := w.isLt
  rw [BitVec.getLsbD, BitVec.getLsbD, Nat.testBit_eq_decide_div_mod_eq,
    Nat.testBit_eq_decide_div_mod_eq, decide_eq_true_iff, decide_eq_true_iff]
  omega

theorem getLsbD_integerBit (i : ℕ) : ext80IntegerBit.getLsbD i = decide (i = 63) := by
  have heq : ext80IntegerBit = BitVec.twoPow 64 63 := by decide
  rw [heq, BitVec.getLsbD_twoPow]
  simp [eq_comm]

theorem getLsbD_quietBit (i : ℕ) : ext80QuietBit.getLsbD i = decide (i = 62) := by
  have heq : ext80QuietBit = BitVec.twoPow 64 62 := by decide
  rw [heq, BitVec.getLsbD_twoPow]
  simp [eq_comm]

theorem exponent_eq_zero_iff : v.exponent = 0 ↔ v.signExp &&& ext80ExpMask = 0 := by
  rw [Ext80.exponent, ← BitVec.toNat_inj]
  exact_mod_cast Iff.rfl

theorem exponent_eq_max_iff : v.exponent = 0x7FFF ↔ v.signExp &&& ext80ExpMask = ext80ExpMask := by
  rw [Ext80.exponent, ← BitVec.toNat_inj]
  exact_mod_cast Iff.rfl

theorem canonical_cutTo80 (x : F128) : (cutTo80 x).Canonical := by
  have hfraction : (fractionOf x).toNat < 2 ^ 63 := by
    have hbit := getLsbD_fractionOf x (le_refl 63)
    rwa [getLsbD_63, decide_eq_false_iff_not, not_le] at hbit
  unfold cutTo80
  dsimp only
  split_ifs with hzero hnan
  · exact .inr (.inl ⟨exponent_eq_zero_iff.2 hzero, hfraction⟩)
  · refine .inr (.inr ⟨exponent_eq_max_iff.2 hnan.1, .inr ((quiet_iff_bits _).2 ?_)⟩)
    simp [getLsbD_integerBit, getLsbD_quietBit]
  · by_cases hmax : (x.hi >>> 48).setWidth 16 &&& ext80ExpMask = ext80ExpMask
    · refine .inr (.inr ⟨exponent_eq_max_iff.2 hmax, .inl ?_⟩)
      have hnone : fractionOf x = 0 := by
        by_contra hne
        exact hnan ⟨hmax, hne⟩
      rw [hnone]
      rfl
    · have hbit : 2 ^ 63 ≤ (ext80IntegerBit ||| fractionOf x).toNat := by
        rw [← decide_eq_true_iff (p := _ ≤ _), ← getLsbD_63]
        simp [getLsbD_integerBit]
      have hle := (Ext80.mk (ext80IntegerBit ||| fractionOf x) ((x.hi >>> 48).setWidth 16)).exponent_le
      have hnonneg := (Ext80.mk (ext80IntegerBit ||| fractionOf x)
        ((x.hi >>> 48).setWidth 16)).exponent_nonneg
      refine .inl ⟨?_, ?_, hbit⟩
      · exact lt_of_le_of_ne hnonneg fun h => hzero (exponent_eq_zero_iff.1 h.symm)
      · exact Int.le_sub_one_of_lt (lt_of_le_of_ne hle fun h => hmax (exponent_eq_max_iff.1 h))

theorem eq_signif {w : U64} (hw : ∀ i, i < 63 → w.getLsbD i = v.signif.getLsbD i)
    (htop : w.getLsbD 63 = v.signif.getLsbD 63) : w = v.signif := by
  apply BitVec.eq_of_getLsbD_eq
  intro i hi
  by_cases h63 : i < 63
  · exact hw i h63
  · rw [show i = 63 by omega, htop]

theorem fractionOf_of_small (h : v.signif.toNat < 2 ^ 63) : fractionOf (placed v) = v.signif := by
  refine eq_signif (fun i hi => fractionOf_placed hi) ?_
  rw [getLsbD_fractionOf _ (le_refl 63), getLsbD_63, decide_eq_false (by omega)]

theorem integerBit_or_fractionOf (h : 2 ^ 63 ≤ v.signif.toNat) :
    ext80IntegerBit ||| fractionOf (placed v) = v.signif := by
  refine eq_signif (fun i hi => ?_) ?_
  · rw [BitVec.getLsbD_or, fractionOf_placed hi, getLsbD_integerBit, decide_eq_false (by omega),
      Bool.false_or]
  · rw [BitVec.getLsbD_or, getLsbD_integerBit, decide_eq_true rfl, Bool.true_or, getLsbD_63,
      decide_eq_true h]

theorem quietBit_or (h : 2 ^ 63 + 2 ^ 62 ≤ v.signif.toNat) :
    ext80IntegerBit ||| ext80QuietBit ||| fractionOf (placed v) = v.signif := by
  rw [← integerBit_or_fractionOf (v := v) (by omega)]
  apply BitVec.eq_of_getLsbD_eq
  intro i hi
  simp only [BitVec.getLsbD_or, getLsbD_quietBit]
  by_cases h62 : i = 62
  · rw [h62, fractionOf_placed (by omega), ((quiet_iff_bits _).1 h).2]
    simp
  · rw [decide_eq_false h62, Bool.or_false]

/-- A canonical encoding that is no normal comes back from where the reassembly would place it. -/
theorem cutTo80_placed (h : v.Canonical) (hn : ¬ v.Normal) : cutTo80 (placed v) = v := by
  unfold cutTo80
  dsimp only
  rw [signExp_placed]
  obtain ⟨hexp, hsignif⟩ | ⟨hexp, hsignif⟩ := h.resolve_left hn
  · rw [if_pos (exponent_eq_zero_iff.1 hexp), fractionOf_of_small hsignif]
  · have hmax := exponent_eq_max_iff.1 hexp
    have hnonzero : ¬ v.signExp &&& ext80ExpMask = 0 := by
      rw [hmax]
      decide
    have hbit : 2 ^ 63 ≤ v.signif.toNat := by omega
    rw [if_neg hnonzero]
    split_ifs with hnan
    · rcases hsignif with hinf | hquiet
      · -- an infinity has no fraction
        have hzero : fractionOf (placed v) = 0 := by
          apply BitVec.eq_of_getLsbD_eq
          intro i hi
          refine Eq.trans ?_ BitVec.getLsbD_zero.symm
          by_cases h63 : i < 63
          · rw [fractionOf_placed h63, show v.signif = ext80IntegerBit from
              BitVec.eq_of_toNat_eq hinf, getLsbD_integerBit, decide_eq_false (by omega)]
          · exact getLsbD_fractionOf _ (by omega)
        exact absurd hzero hnan.2
      · rw [quietBit_or hquiet]
    · rw [integerBit_or_fractionOf hbit]

theorem exact_lawful : exact.Lawful where
  canonical := canonical_cutTo80
  special v h hn := by
    change isFiniteNormal (((if v.Canonical then placed v else placed defaultNan).hi >>> 48).setWidth
      16) = false
    rw [if_pos h, signExp_placed, ← Bool.not_eq_true, isFiniteNormal_iff]
    rcases h.resolve_left hn with ⟨hexp, -⟩ | ⟨hexp, -⟩ <;> omega
  lossless v h hn := by
    change cutTo80 (if v.Canonical then placed v else placed defaultNan) = v
    rw [if_pos h, cutTo80_placed h hn]
  flipSign v h hn := by
    change (if v.flipSign.Canonical then placed v.flipSign else placed defaultNan) =
      (if v.Canonical then placed v else placed defaultNan).flipSign
    rw [if_pos h, if_pos (Ext80.canonical_flipSign.2 h), placed_flipSign]
  negative v h hn := by
    change (if v.Canonical then placed v else placed defaultNan).negative = v.negative
    rw [if_pos h, negative_placed]

end SoftFloat

end X86Port.X87
