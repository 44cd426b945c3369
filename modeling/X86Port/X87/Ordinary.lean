import X86Port.X87.Ext80

/-!
# The ordinary case of x87 arithmetic

What the multiply and the add share: the operands and control words they take, the rounding of a
normalised pair of words with a sticky bit, and the publication of a result.

* `PairOf.roundPair_value`: the rounding of the pair is the rounding of the exact value it stands
  for.
* `publish_answers`: a published result is the exact value rounded to 64 significant bits with its
  status.
* `publish_refuses`: a refusal writes nothing.
-/

namespace X86Port.X87

open Lib.Rounding

/-! ## What is ordinary -/

/-- PE -/
def kInexact : U16 := 0x20#16

/-- C1, set when the rounding went away from zero. -/
def kRoundedUp : U16 := 0x200#16

def kExt80MaxExp : ℤ := 0x7FFF

def ext80IsNormal (v : Ext80) : Bool :=
  let exponent : U32 := (v.signExp &&& ext80ExpMask).setWidth 32
  exponent - 1 < 0x7FFE#32 ∧ v.signif >>> 63 ≠ 0

def ext80IsZero (v : Ext80) : Bool := v.signExp &&& ext80ExpMask = 0 ∧ v.signif = 0

def ext80IsNormalOrZero (v : Ext80) : Bool := ext80IsNormal v || ext80IsZero v

def ext80ControlIsOrdinary (control : U16) : Bool :=
  control &&& x87RcMask = x87RcNearest ∧ control &&& x87PcMask = x87PcExtended

/-- A zero of either sign. -/
def Ext80.Zero (v : Ext80) : Prop := v.exponent = 0 ∧ v.signif.toNat = 0

variable {v : Ext80}

theorem ext80IsNormal_iff : ext80IsNormal v = true ↔ v.Normal := by
  have hle := v.exponent_le
  have hexp : ((v.signExp &&& ext80ExpMask).setWidth 32 - 1 < 0x7FFE#32) ↔
      1 ≤ v.exponent ∧ v.exponent ≤ 0x7FFE := by
    rw [Ext80.exponent] at hle ⊢
    generalize v.signExp &&& ext80ExpMask = e at *
    have hw : (e.setWidth 32).toNat = e.toNat := by
      rw [BitVec.toNat_setWidth, Nat.mod_eq_of_lt]
      omega
    rw [BitVec.lt_def, BitVec.toNat_sub, hw, show (1 : U32).toNat = 1 from rfl]
    change _ < 0x7FFE ↔ _
    omega
  have hbit : v.signif >>> 63 ≠ 0 ↔ 2 ^ 63 ≤ v.signif.toNat := by
    rw [ne_eq, ← BitVec.toNat_inj, BitVec.toNat_ushiftRight, Nat.shiftRight_eq_div_pow]
    change ¬ _ = 0 ↔ _
    omega
  rw [ext80IsNormal, decide_eq_true_iff, hexp, hbit, and_assoc]
  rfl

theorem ext80IsZero_iff : ext80IsZero v = true ↔ v.Zero := by
  rw [ext80IsZero, decide_eq_true_iff, Ext80.Zero, Ext80.exponent, ← BitVec.toNat_inj,
    ← BitVec.toNat_inj]
  exact_mod_cast Iff.rfl

theorem ext80IsNormalOrZero_iff : ext80IsNormalOrZero v = true ↔ v.Normal ∨ v.Zero := by
  rw [ext80IsNormalOrZero, Bool.or_eq_true, ext80IsNormal_iff, ext80IsZero_iff]

theorem ext80ControlIsOrdinary_iff {control : U16} :
    ext80ControlIsOrdinary control = true ↔
      roundingMode control = .nearest ∧ control &&& x87PcMask = x87PcExtended := by
  rw [ext80ControlIsOrdinary, decide_eq_true_iff, roundingMode_eq_nearest]

theorem Ext80.Normal.not_zero (h : v.Normal) : ¬ v.Zero := fun hz => by
  have := h.1
  have := hz.1
  omega

theorem Ext80.Zero.isFinite (h : v.Zero) : v.IsFinite := by
  refine ⟨fun hinf => ?_, fun hun => hun.1 h.1⟩
  rw [Ext80.IsInfinityOrNan, h.1] at hinf
  omega

theorem Ext80.Zero.value_eq (h : v.Zero) : v.value = 0 := by
  rw [Ext80.value, h.2]
  cases v.negative <;> simp [signed]

theorem Ext80.Normal.value_ne_zero (h : v.Normal) : v.value ≠ 0 := by
  have hbit := h.2.2
  have hpos : (0 : ℚ) < v.signif.toNat := by
    have : 0 < v.signif.toNat := by omega
    exact_mod_cast this
  have habs : 0 < |v.value| := by
    rw [h.value_eq, abs_signed]
    exact abs_pos.mpr (mul_pos hpos (zpow_two_pos _)).ne'
  exact abs_pos.mp habs

/-! ## What an answer says -/

/-- What an operation returns, and what its result and status pointers hold after it. -/
abbrev Outcome := Bool × Option Ext80 × Option U16

/-- Some finite encoding stands for the value. -/
def Representable (q : ℚ) : Prop := ∃ z : Ext80, z.IsFinite ∧ z.value = q

/-- The exponent field of the normal with the value's leading bit. -/
def biasedExponent (q : ℚ) : ℤ := Int.log 2 |q| + ext80Bias

/-- The value's rounding is in the range of the normals. -/
def InRange (q : ℚ) : Prop :=
  1 ≤ biasedExponent (roundSig 64 q) ∧ biasedExponent (roundSig 64 q) ≤ 0x7FFE

/-- The outcome is the value rounded to 64 significant bits under the sign, PE raised for an
inexact one and C1 for a magnitude rounded up, and no other status bit touched. -/
def Answers (q : ℚ) (negative : Bool) (f : U16) (result : Outcome) : Prop :=
  ∃ z raised, result = (true, some z, some (f ||| raised)) ∧ (z.Normal ∨ z.Zero) ∧
    z.value = roundSig 64 q ∧ z.negative = negative ∧
    raised &&& ~~~(kInexact ||| kRoundedUp) = 0 ∧
    (raised &&& kInexact ≠ 0 ↔ ¬ Representable q) ∧
    (raised &&& kRoundedUp ≠ 0 ↔ |q| < |roundSig 64 q|)

theorem roundSig_of_representable {q : ℚ} (h : Representable q) : roundSig 64 q = q := by
  obtain ⟨z, _, hz⟩ := h
  have hbits : |(z.signif.toNat : ℤ)| < 2 ^ 64 := by
    rw [abs_of_nonneg (Int.natCast_nonneg _)]
    exact_mod_cast z.signif.isLt
  rw [← hz, Ext80.value, roundSig_signed]
  congr 1
  exact roundSig_eq_self hbits (by push_cast; rfl)

/-! ## Rounding a pair of words -/

/-- Greater than half, or exactly half with an odd significand. -/
def pairUp (hi lo : U64) (sticky : Bool) : Bool :=
  lo > ext80IntegerBit || (lo = ext80IntegerBit && (sticky || hi &&& 1 ≠ 0))

def pairInexact (lo : U64) (sticky : Bool) : U16 := if lo ≠ 0 || sticky then kInexact else 0

/-- The rounding both operations end with: to nearest, ties to even, on the word below the
significand and on whether anything fell off below that. The significand, its exponent and the
status bits. -/
def roundPair (hi lo : U64) (sticky : Bool) (exponent : ℤ) : U64 × ℤ × U16 :=
  let inexact := pairInexact lo sticky
  if pairUp hi lo sticky then
    -- the rounding may carry out of the significand to the next power of two
    if hi + 1 = 0 then (ext80IntegerBit, exponent + 1, inexact ||| kRoundedUp)
    else (hi + 1, exponent, inexact ||| kRoundedUp)
  else (hi, exponent, inexact)

/-- The end of both operations: an exponent at either edge is refused. -/
def publish (sign : U16) (rounded : U64 × ℤ × U16) (out : Option Ext80) (flags : Option U16) :
    Outcome :=
  let (signif, exponent, raised) := rounded
  if exponent ≤ 0 ∨ exponent ≥ kExt80MaxExp then (false, out, flags)
  else (true, some ⟨signif, signAndExp sign exponent⟩, flags.map (· ||| raised))

/-- The word below the significand and the sticky bit compare as the exact part `F` does, which is
counted in units of the word's last place. -/
structure PairOf (hi lo : U64) (sticky : Bool) (F : ℚ) : Prop where
  top : 2 ^ 63 ≤ hi.toNat
  nonneg : 0 ≤ F
  lt : F < 2 ^ 64
  above : 2 ^ 63 < lo.toNat ∨ lo.toNat = 2 ^ 63 ∧ sticky = true ↔ 2 ^ 63 < F
  tie : lo.toNat = 2 ^ 63 ∧ sticky = false ↔ F = 2 ^ 63
  exact : lo.toNat = 0 ∧ sticky = false ↔ F = 0

section RoundPair

variable {hi lo : U64} {sticky : Bool} {F : ℚ}

theorem PairOf.up_iff (h : PairOf hi lo sticky F) :
    pairUp hi lo sticky = true ↔
      1 < 2 * (F / 2 ^ 64) ∨ 2 * (F / 2 ^ 64) = 1 ∧ ¬ Even (hi.toNat : ℤ) := by
  have hscale : 2 * (F / 2 ^ 64) = F / 2 ^ 63 := by ring
  have hodd : hi &&& 1 ≠ 0 ↔ ¬ Even (hi.toNat : ℤ) := (even_toNat_iff hi).not.symm
  have htop : ext80IntegerBit.toNat = 2 ^ 63 := rfl
  rw [hscale, one_lt_div (by positivity), div_eq_one_iff_eq (by positivity), ← h.above, ← h.tie,
    ← hodd]
  simp only [pairUp, gt_iff_lt, Bool.or_eq_true, Bool.and_eq_true, decide_eq_true_iff,
    BitVec.lt_def, ← BitVec.toNat_inj, htop]
  cases sticky <;> simp

theorem PairOf.nearestEven_eq (h : PairOf hi lo sticky F) :
    nearestEven ((hi.toNat : ℚ) + F / 2 ^ 64) =
      if pairUp hi lo sticky then (hi.toNat : ℤ) + 1 else hi.toNat := by
  have ht0 : 0 ≤ F / 2 ^ 64 := div_nonneg h.nonneg (by positivity)
  have ht1 : F / 2 ^ 64 < 1 := (div_lt_one (by positivity)).mpr h.lt
  have hround := nearestEven_add (k := (hi.toNat : ℤ)) ht0 ht1
  rw [Int.cast_natCast] at hround
  rw [hround]
  simp only [h.up_iff]

theorem roundPair_cases (hi lo : U64) (sticky : Bool) (e : ℤ) :
    (pairUp hi lo sticky = true ∧ hi.toNat + 1 = 2 ^ 64 ∧ roundPair hi lo sticky e =
      (ext80IntegerBit, e + 1, pairInexact lo sticky ||| kRoundedUp)) ∨
    (pairUp hi lo sticky = true ∧ (hi + 1).toNat = hi.toNat + 1 ∧ roundPair hi lo sticky e =
      (hi + 1, e, pairInexact lo sticky ||| kRoundedUp)) ∨
    (pairUp hi lo sticky = false ∧ roundPair hi lo sticky e = (hi, e, pairInexact lo sticky)) := by
  have hlt := hi.isLt
  have hsum : (hi + 1).toNat = (hi.toNat + 1) % 2 ^ 64 := BitVec.toNat_add hi 1
  unfold roundPair
  cases hup : pairUp hi lo sticky with
  | false => exact Or.inr (Or.inr ⟨rfl, rfl⟩)
  | true =>
    by_cases hcarry : hi + 1 = 0
    · rw [hcarry, show (0 : U64).toNat = 0 from rfl] at hsum
      exact Or.inl ⟨rfl, by omega, by rw [if_pos rfl, if_pos hcarry]⟩
    · have hne : (hi + 1).toNat ≠ 0 := fun h0 => hcarry (BitVec.eq_of_toNat_eq h0)
      exact Or.inr (Or.inl ⟨rfl, by omega, by rw [if_pos rfl, if_neg hcarry]⟩)

theorem roundPair_signif (h : 2 ^ 63 ≤ hi.toNat) (lo : U64) (sticky : Bool) (e : ℤ) :
    2 ^ 63 ≤ (roundPair hi lo sticky e).1.toNat := by
  rcases roundPair_cases hi lo sticky e with ⟨_, _, hr⟩ | ⟨_, hsum, hr⟩ | ⟨_, hr⟩ <;> rw [hr]
  · exact le_refl (2 ^ 63)
  · rw [hsum]
    omega
  · exact h

/-- The pair's rounding stands for the nearest integer at the pair's scale, also where it carried
out of the significand. -/
theorem PairOf.roundPair_value (h : PairOf hi lo sticky F) (e scale : ℤ) :
    ((roundPair hi lo sticky e).1.toNat : ℚ) * 2 ^ ((roundPair hi lo sticky e).2.1 + scale) =
      (nearestEven ((hi.toNat : ℚ) + F / 2 ^ 64) : ℚ) * 2 ^ (e + scale) := by
  rw [h.nearestEven_eq]
  rcases roundPair_cases hi lo sticky e with ⟨hup, hmax, hr⟩ | ⟨hup, hsum, hr⟩ | ⟨hup, hr⟩ <;>
    rw [hr, hup]
  · have hcast : (((hi.toNat : ℤ) + 1 : ℤ) : ℚ) = 2 ^ 64 := by exact_mod_cast hmax
    rw [if_pos rfl, hcast, show e + 1 + scale = 1 + (e + scale) by ring, zpow_add₀ two_ne_zero]
    change ((2 ^ 63 : ℕ) : ℚ) * _ = _
    push_cast
    ring
  · rw [if_pos rfl, hsum]
    push_cast
    rfl
  · rw [if_neg Bool.false_ne_true]
    push_cast
    rfl

theorem roundPair_raised (hi lo : U64) (sticky : Bool) (e : ℤ) :
    (roundPair hi lo sticky e).2.2 =
      pairInexact lo sticky ||| (if pairUp hi lo sticky then kRoundedUp else 0) := by
  rcases roundPair_cases hi lo sticky e with ⟨hup, _, hr⟩ | ⟨hup, _, hr⟩ | ⟨hup, hr⟩ <;>
    rw [hr, hup]
  · rfl
  · rfl
  · simp

end RoundPair

/-! ## Pairs of words -/

/-- A pair moved up by less than a word. -/
theorem toNat_shiftPair {hi : U64} (lo : U64) {k : ℕ} (hk : k ≤ 64) (hroom : hi.toNat * 2 ^ k < 2 ^ 64) :
    ((hi <<< k) ||| (lo >>> (64 - k))).toNat * 2 ^ 64 + (lo <<< k).toNat =
      (hi.toNat * 2 ^ 64 + lo.toNat) * 2 ^ k := by
  have hpow : 2 ^ 64 = 2 ^ (64 - k) * 2 ^ k := by rw [← pow_add, Nat.sub_add_cancel hk]
  have hlow : lo.toNat / 2 ^ (64 - k) < 2 ^ k := by
    rw [Nat.div_lt_iff_lt_mul (Nat.two_pow_pos _), mul_comm, ← hpow]
    exact lo.isLt
  have hhi : (hi <<< k).toNat = hi.toNat <<< k := by
    rw [BitVec.toNat_shiftLeft, Nat.shiftLeft_eq, Nat.mod_eq_of_lt hroom]
  have hcarry : lo.toNat * 2 ^ k / 2 ^ 64 = lo.toNat / 2 ^ (64 - k) := by
    rw [hpow, Nat.mul_div_mul_right _ _ (Nat.two_pow_pos k)]
  have hdiv := Nat.div_add_mod (lo.toNat * 2 ^ k) (2 ^ 64)
  rw [BitVec.toNat_or, hhi, BitVec.toNat_ushiftRight, Nat.shiftRight_eq_div_pow,
    ← Nat.shiftLeft_add_eq_or_of_lt hlow, Nat.shiftLeft_eq, BitVec.toNat_shiftLeft,
    Nat.shiftLeft_eq, ← hcarry]
  calc _ = hi.toNat * 2 ^ k * 2 ^ 64 +
        (2 ^ 64 * (lo.toNat * 2 ^ k / 2 ^ 64) + lo.toNat * 2 ^ k % 2 ^ 64) := by ring
    _ = _ := by rw [hdiv]; ring

theorem words_scaled (hi : U64) (F : ℚ) (scale : ℤ) :
    ((hi.toNat : ℚ) + F / 2 ^ 64) * 2 ^ (scale + 64) = (hi.toNat * 2 ^ 64 + F) * 2 ^ scale := by
  rw [zpow_add₀ two_ne_zero, show (2 : ℚ) ^ (64 : ℤ) = 2 ^ 64 from zpow_natCast 2 64]
  ring

/-- A word moved down one place, with another word's low bit at the top. -/
theorem toNat_shiftDown (a b : U64) :
    ((a >>> 1) ||| (b <<< 63)).toNat = b.toNat % 2 * 2 ^ 63 + a.toNat / 2 := by
  have ha := a.isLt
  have hlow : (a >>> 1).toNat = a.toNat / 2 := by
    rw [BitVec.toNat_ushiftRight, Nat.shiftRight_eq_div_pow, pow_one]
  have htop : (b <<< 63).toNat = (b.toNat % 2) <<< 63 := by
    rw [BitVec.toNat_shiftLeft, Nat.shiftLeft_eq, Nat.shiftLeft_eq]
    omega
  rw [BitVec.toNat_or, hlow, htop, Nat.or_comm,
    ← Nat.shiftLeft_add_eq_or_of_lt (show a.toNat / 2 < 2 ^ 63 by omega), Nat.shiftLeft_eq]

/-- A pair whose words are multiples of `g` and whose rest below them is less than `g`: the sticky
bit says all that the comparisons with one half need of the rest. -/
theorem pairOf_fraction {hi lo : U64} {sticky : Bool} {θ : ℚ} {g : ℕ} (h : 2 ^ 63 ≤ hi.toNat)
    (hg : g ∣ 2 ^ 63) (hlo : g ∣ lo.toNat) (h0 : 0 ≤ θ) (hθ : θ < g)
    (hsticky : sticky = true ↔ 0 < θ) : PairOf hi lo sticky (lo.toNat + θ) := by
  -- a multiple of `g` below a bound leaves room for the rest below that bound
  have hroom {bound : ℕ} (hb : g ∣ bound) (hlt : lo.toNat < bound) :
      (lo.toNat : ℚ) + θ < bound := by
    have hle : lo.toNat + g ≤ bound := by
      obtain ⟨c, hc⟩ := hb
      obtain ⟨d, hd⟩ := hlo
      rw [hc, hd] at hlt ⊢
      calc g * d + g = g * (d + 1) := by ring
        _ ≤ g * c := Nat.mul_le_mul_left _ (lt_of_mul_lt_mul_left hlt (Nat.zero_le g))
    have hle' : (lo.toNat : ℚ) + g ≤ bound := by exact_mod_cast hle
    linarith
  have hmax : g ∣ 2 ^ 64 := hg.trans ⟨2, by norm_num⟩
  have hpos : 0 ≤ (lo.toNat : ℚ) := Nat.cast_nonneg _
  cases sticky with
  | false =>
    have hθ0 : θ = 0 := le_antisymm (not_lt.mp fun hlt => Bool.false_ne_true (hsticky.mpr hlt)) h0
    rw [hθ0, add_zero]
    refine ⟨h, hpos, by exact_mod_cast lo.isLt, ?_, ?_, ?_⟩
    · rw [or_iff_left (fun h' => Bool.false_ne_true h'.2)]
      exact_mod_cast Iff.rfl
    · rw [and_iff_left rfl]
      exact_mod_cast Iff.rfl
    · rw [and_iff_left rfl]
      exact_mod_cast Iff.rfl
  | true =>
    have hθ0 : 0 < θ := hsticky.mp rfl
    have habove : 2 ^ 63 ≤ lo.toNat ↔ (2 : ℚ) ^ 63 < lo.toNat + θ := by
      constructor
      · intro hle
        have hle' : (2 : ℚ) ^ 63 ≤ lo.toNat := by exact_mod_cast hle
        linarith
      · intro hlt
        by_contra hnot
        have hbelow := hroom hg (Nat.lt_of_not_le hnot)
        push_cast at hbelow
        linarith
    refine ⟨h, by linarith, by exact_mod_cast hroom hmax lo.isLt, ?_, ?_, ?_⟩
    · rw [and_iff_left rfl, ← habove]
      omega
    · refine iff_of_false (fun h' => Bool.false_ne_true h'.2.symm) fun heq => ?_
      by_cases hle : 2 ^ 63 ≤ lo.toNat
      · exact (habove.mp hle).ne' heq
      · have hbelow := hroom hg (Nat.lt_of_not_le hle)
        push_cast at hbelow
        linarith
    · exact iff_of_false (fun h' => Bool.false_ne_true h'.2.symm) (by linarith)

/-- A pair with nothing below it. -/
theorem pairOf_word {hi : U64} (h : 2 ^ 63 ≤ hi.toNat) (lo : U64) :
    PairOf hi lo false lo.toNat := by
  have hpair := pairOf_fraction h (one_dvd _) (one_dvd lo.toNat) le_rfl
    (show (0 : ℚ) < (1 : ℕ) by norm_num) (iff_of_false Bool.false_ne_true (lt_irrefl 0))
  rwa [add_zero] at hpair

/-! ## Publishing the rounded pair -/

section Publish

variable {hi lo : U64} {sticky : Bool} {F q : ℚ} {e : ℤ} {negative : Bool}

/-- The exact value the pair stands for under an exponent. -/
def pairValue (negative : Bool) (hi : U64) (F : ℚ) (e : ℤ) : ℚ :=
  signed negative (((hi.toNat : ℚ) + F / 2 ^ 64) * 2 ^ (e - ext80Bias - 63))

theorem PairOf.significand_mem (h : PairOf hi lo sticky F) :
    (2 : ℚ) ^ ((64 : ℕ) - 1 : ℤ) ≤ (hi.toNat : ℚ) + F / 2 ^ 64 ∧
      (hi.toNat : ℚ) + F / 2 ^ 64 < 2 ^ ((64 : ℕ) : ℤ) := by
  have ht0 : 0 ≤ F / 2 ^ 64 := div_nonneg h.nonneg (by positivity)
  have ht1 : F / 2 ^ 64 < 1 := (div_lt_one (by positivity)).mpr h.lt
  have hlo : (2 : ℚ) ^ 63 ≤ hi.toNat := by exact_mod_cast h.top
  have hhi : (hi.toNat : ℚ) + 1 ≤ 2 ^ 64 := by exact_mod_cast hi.isLt
  constructor
  · rw [show ((64 : ℕ) - 1 : ℤ) = (63 : ℕ) from rfl, zpow_natCast]
    linarith
  · rw [zpow_natCast]
    linarith

theorem PairOf.roundSig_eq (h : PairOf hi lo sticky F) (negative : Bool) (e : ℤ) :
    roundSig 64 (pairValue negative hi F e) = signed negative
      (((roundPair hi lo sticky e).1.toNat : ℚ) *
        2 ^ ((roundPair hi lo sticky e).2.1 - ext80Bias - 63)) := by
  have hvalue := h.roundPair_value e (-ext80Bias - 63)
  rw [pairValue, roundSig_signed, roundSig_scaled h.significand_mem.1 h.significand_mem.2]
  congr 1
  rw [sub_sub, sub_sub, sub_eq_add_neg, sub_eq_add_neg, neg_add, ← sub_eq_add_neg (-ext80Bias)]
  exact hvalue.symm

theorem PairOf.biasedExponent_eq (h : PairOf hi lo sticky F) (negative : Bool) (e : ℤ) :
    biasedExponent (roundSig 64 (pairValue negative hi F e)) = (roundPair hi lo sticky e).2.1 := by
  have hbit := roundPair_signif h.top lo sticky e
  have hlt := (roundPair hi lo sticky e).1.isLt
  have hlo : (2 : ℚ) ^ ((64 : ℤ) - 1) ≤ (roundPair hi lo sticky e).1.toNat := by
    rw [show (64 : ℤ) - 1 = (63 : ℕ) from rfl, zpow_natCast]
    exact_mod_cast hbit
  have hhi : ((roundPair hi lo sticky e).1.toNat : ℚ) < 2 ^ (64 : ℤ) := by exact_mod_cast hlt
  rw [h.roundSig_eq, biasedExponent, abs_signed, log_mul_zpow hlo hhi]
  ring

theorem PairOf.nearest_eq_iff (h : PairOf hi lo sticky F) :
    (nearestEven ((hi.toNat : ℚ) + F / 2 ^ 64) : ℚ) = (hi.toNat : ℚ) + F / 2 ^ 64 ↔ F = 0 := by
  have hF := h.nonneg
  have ht1 : F / 2 ^ 64 < 1 := (div_lt_one (by positivity)).mpr h.lt
  rw [h.nearestEven_eq]
  constructor
  · intro heq
    cases hup : pairUp hi lo sticky with
    | false =>
      rw [hup, if_neg Bool.false_ne_true] at heq
      push_cast at heq
      have hzero : F / 2 ^ 64 = 0 := by linarith
      exact (div_eq_zero_iff.mp hzero).resolve_right (by positivity)
    | true =>
      rw [hup, if_pos rfl] at heq
      push_cast at heq
      linarith
  · intro hzero
    have hup : ¬ pairUp hi lo sticky = true := by
      rw [h.up_iff, hzero]
      norm_num
    rw [if_neg hup, hzero]
    push_cast
    ring

theorem PairOf.lt_nearest_iff (h : PairOf hi lo sticky F) :
    (hi.toNat : ℚ) + F / 2 ^ 64 < nearestEven ((hi.toNat : ℚ) + F / 2 ^ 64) ↔
      pairUp hi lo sticky = true := by
  have ht0 : 0 ≤ F / 2 ^ 64 := div_nonneg h.nonneg (by positivity)
  have ht1 : F / 2 ^ 64 < 1 := (div_lt_one (by positivity)).mpr h.lt
  rw [h.nearestEven_eq]
  cases pairUp hi lo sticky with
  | false =>
    refine iff_of_false ?_ Bool.false_ne_true
    rw [if_neg Bool.false_ne_true]
    push_cast
    linarith
  | true =>
    refine iff_of_true ?_ rfl
    rw [if_pos rfl]
    push_cast
    linarith

theorem PairOf.rounded_eq_iff (h : PairOf hi lo sticky F) (negative : Bool) (e : ℤ) :
    roundSig 64 (pairValue negative hi F e) = pairValue negative hi F e ↔ F = 0 := by
  rw [← h.nearest_eq_iff, pairValue, roundSig_signed,
    roundSig_scaled h.significand_mem.1 h.significand_mem.2, signed_inj,
    mul_left_inj' (zpow_two_pos _).ne']

theorem PairOf.rounded_up_iff (h : PairOf hi lo sticky F) (negative : Bool) (e : ℤ) :
    |pairValue negative hi F e| < |roundSig 64 (pairValue negative hi F e)| ↔
      pairUp hi lo sticky = true := by
  have hpos : (0 : ℚ) < 2 ^ (e - ext80Bias - 63) := zpow_two_pos _
  have hx : 0 ≤ (hi.toNat : ℚ) + F / 2 ^ 64 :=
    add_nonneg (by positivity) (div_nonneg h.nonneg (by positivity))
  have hn : (0 : ℚ) ≤ nearestEven ((hi.toNat : ℚ) + F / 2 ^ 64) := by
    rw [h.nearestEven_eq]
    split_ifs <;> push_cast <;> positivity
  rw [← h.lt_nearest_iff, pairValue, roundSig_signed,
    roundSig_scaled h.significand_mem.1 h.significand_mem.2, abs_signed, abs_signed, abs_mul,
    abs_mul, mul_lt_mul_iff_left₀ (abs_pos.mpr hpos.ne'), abs_of_nonneg hx, abs_of_nonneg hn]

/-- The status bits of a rounded pair. -/
theorem pair_status (inexact up : Bool) :
    let raised : U16 := (if inexact then kInexact else 0) ||| (if up then kRoundedUp else 0)
    raised &&& ~~~(kInexact ||| kRoundedUp) = 0 ∧ (raised &&& kInexact ≠ 0 ↔ inexact = true) ∧
      (raised &&& kRoundedUp ≠ 0 ↔ up = true) := by
  revert inexact up
  decide

theorem publish_answers {sign : U16} (hsign : sign = 0 ∨ sign = ext80SignBit)
    (h : PairOf hi lo sticky F) (hq : q = pairValue (decide (sign ≠ 0)) hi F e)
    (hrange : InRange q) (o : Ext80) (f : U16) :
    Answers q (decide (sign ≠ 0)) f
      (publish sign (roundPair hi lo sticky e) (some o) (some f)) := by
  subst hq
  rw [InRange, h.biasedExponent_eq] at hrange
  have hbit := roundPair_signif h.top lo sticky e
  have hvalue := h.roundSig_eq (decide (sign ≠ 0)) e
  have hnormal := normal_signAndExp hsign hrange.1 hrange.2 hbit
  have hexact := h.rounded_eq_iff (decide (sign ≠ 0)) e
  have hraised := roundPair_raised hi lo sticky e
  obtain ⟨hother, hpe, hc1⟩ := pair_status (lo ≠ 0 || sticky) (pairUp hi lo sticky)
  have hup := h.rounded_up_iff (decide (sign ≠ 0)) e
  rw [← pairInexact, ← hraised] at hother hpe hc1
  rw [← hup] at hc1
  generalize roundPair hi lo sticky e = rounded at *
  obtain ⟨signif, exponent, raised⟩ := rounded
  dsimp only at *
  have hstored : (Ext80.mk signif (signAndExp sign exponent)).value = _ :=
    value_signAndExp hsign hrange.1 hrange.2
  rw [← hvalue] at hstored
  refine ⟨⟨signif, signAndExp sign exponent⟩, raised, ?_, Or.inl hnormal, hstored, ?_, hother, ?_,
    hc1⟩
  · rw [publish, if_neg]
    · rfl
    · unfold kExt80MaxExp
      omega
  · exact negative_signAndExp hsign (by omega) (by omega) signif
  · have hinexact : (lo ≠ 0 || sticky) = true ↔ ¬ F = 0 := by
      rw [← h.exact, Bool.or_eq_true, decide_eq_true_iff, ne_eq, ← BitVec.toNat_inj]
      change ¬ lo.toNat = 0 ∨ _ ↔ _
      cases sticky <;> simp
    rw [hpe, hinexact, ← hexact]
    refine not_congr ⟨fun heq => ⟨_, hnormal.isFinite, hstored.trans heq⟩, roundSig_of_representable⟩

theorem publish_refuses {sign : U16} (h : PairOf hi lo sticky F)
    (hq : q = pairValue negative hi F e) (hrange : ¬ InRange q) (out : Option Ext80)
    (flags : Option U16) :
    publish sign (roundPair hi lo sticky e) out flags = (false, out, flags) := by
  rw [hq, InRange, h.biasedExponent_eq] at hrange
  generalize roundPair hi lo sticky e = rounded at *
  obtain ⟨signif, exponent, raised⟩ := rounded
  dsimp only at hrange
  rw [publish, if_pos]
  unfold kExt80MaxExp
  omega

end Publish

/-- An answer that needs no rounding raises nothing. -/
theorem exact_answers {z : Ext80} (h : z.Normal ∨ z.Zero) (f : U16) :
    Answers z.value z.negative f (true, some z, some f) := by
  have hfinite : z.IsFinite := h.elim (fun hn => hn.isFinite) (fun hz => hz.isFinite)
  have hrep : Representable z.value := ⟨z, hfinite, rfl⟩
  have hround := roundSig_of_representable hrep
  refine ⟨z, 0, by rw [show f ||| 0 = f from BitVec.or_zero], h, hround.symm, rfl, by decide,
    iff_of_false (by decide) (not_not.mpr hrep), iff_of_false (by decide) ?_⟩
  rw [hround]
  exact lt_irrefl _

/-! ## What an outcome settles -/

section Outcome

variable {P Q : Prop} {o : Ext80} {f : U16} {q : ℚ} {negative : Bool} {result : Outcome}

theorem refused_spec (h : ¬ P) :
    (((false, some o, some f) : Outcome).1 = true ↔ P) ∧
    (((false, some o, some f) : Outcome).1 = true → Q) ∧
    (((false, some o, some f) : Outcome).1 = false →
      ((false, some o, some f) : Outcome).2 = (some o, some f)) :=
  ⟨iff_of_false Bool.false_ne_true h, fun h' => absurd h' Bool.false_ne_true, fun _ => rfl⟩

theorem accepted_spec (h : P) (hanswer : Answers q negative f result) :
    (result.1 = true ↔ P) ∧ (result.1 = true → Answers q negative f result) ∧
      (result.1 = false → result.2 = (some o, some f)) := by
  have hone : result.1 = true := by
    obtain ⟨z, raised, rfl, _⟩ := hanswer
    rfl
  refine ⟨iff_of_true hone h, fun _ => hanswer, fun hfalse => ?_⟩
  rw [hone] at hfalse
  cases hfalse

end Outcome

theorem signed_zero_fields {sign : U16} (hsign : sign = 0 ∨ sign = ext80SignBit) :
    (Ext80.mk 0 sign).Zero ∧ (Ext80.mk 0 sign).negative = decide (sign ≠ 0) := by
  rcases hsign with rfl | rfl
  · exact ⟨⟨rfl, rfl⟩, rfl⟩
  · exact ⟨⟨rfl, rfl⟩, rfl⟩

end X86Port.X87
