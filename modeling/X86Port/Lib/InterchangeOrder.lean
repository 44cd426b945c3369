import Mathlib.Order.Compare
import Mathlib.Order.WithBot
import X86Port.Lib.Interchange

/-!
# The order of an interchange format

* `number`: what a pattern stands for, with the infinities as the ends of the line.
* `number_lt_iff`: patterns are ordered as their signed magnitudes, so the two zeros are equal.
* `patternOrder_eq`: the comparison of the patterns themselves is the order of the numbers.
-/

namespace X86Port.Lib.Rounding

/-- The rationals with an infinity at each end. -/
abbrev Line := WithBot (WithTop ℚ)

def Line.finite (q : ℚ) : Line := ((q : WithTop ℚ) : WithBot (WithTop ℚ))

def Line.infinity (negative : Bool) : Line :=
  if negative then ⊥ else ((⊤ : WithTop ℚ) : WithBot (WithTop ℚ))

/-! ## Signed magnitudes -/

/-- Signed magnitudes are ordered as any magnitudes that they agree with. -/
theorem signed_lt_signed_iff {R : Type*} [AddCommGroup R] [LinearOrder R] [IsOrderedAddMonoid R]
    {x y : R} {m n : ℕ} (hx : 0 ≤ x) (hy : 0 ≤ y) (hzero : x = 0 ↔ m = 0) (hzero' : y = 0 ↔ n = 0)
    (hlt : x < y ↔ m < n) (hlt' : y < x ↔ n < m) (a b : Bool) :
    signed a x < signed b y ↔ signed a (m : ℤ) < signed b (n : ℤ) := by
  cases a with
  | false =>
    cases b with
    | false =>
      change x < y ↔ (m : ℤ) < n
      rw [hlt]
      omega
    | true =>
      change x < -y ↔ (m : ℤ) < -n
      have hneg : -y ≤ 0 := neg_nonpos.2 hy
      exact iff_of_false (not_lt.2 (hneg.trans hx)) (by omega)
  | true =>
    cases b with
    | false =>
      change -x < y ↔ -(m : ℤ) < n
      by_cases hm : m = 0
      · rw [hzero.2 hm, hm, neg_zero]
        constructor
        · intro h
          have : n ≠ 0 := fun hn => h.ne' (hzero'.2 hn)
          omega
        · intro h
          refine lt_of_le_of_ne hy fun heq => ?_
          have := hzero'.1 heq.symm
          omega
      · have hpos : 0 < x := lt_of_le_of_ne hx fun heq => hm (hzero.1 heq.symm)
        exact iff_of_true ((neg_lt_zero.2 hpos).trans_le hy) (by omega)
    | true =>
      change -x < -y ↔ -(m : ℤ) < -n
      rw [neg_lt_neg_iff, hlt']
      omega

namespace Format

variable (F : Format) (n : ℕ)

/-! ## Numbers -/

/-- What a pattern stands for, and nothing for a NaN. -/
def number : Option Line :=
  if F.exponent n = F.expMax then
    if F.fraction n = 0 then some (.infinity (F.negative n)) else none
  else some (.finite (F.value n))

def magnitude : ℕ := n % 2 ^ (F.field + F.expBits)

/-- The pattern as a signed number. -/
def key : ℤ := signed (F.negative n) (F.magnitude n : ℤ)

/-- The scale of a pattern's significand, which is that of exponent one for exponent zero. -/
def scale : ℕ := max (F.exponent n) 1

def size : ℚ := (F.significand n : ℚ) * 2 ^ ((F.scale n : ℤ) - F.bias - F.field)

variable {F n}

theorem number_eq_none_iff :
    F.number n = none ↔ F.exponent n = F.expMax ∧ F.fraction n ≠ 0 := by
  unfold number
  split_ifs with he hf
  · exact iff_of_false nofun fun h => h.2 hf
  · exact iff_of_true rfl ⟨he, hf⟩
  · exact iff_of_false nofun fun h => he h.1

theorem value_eq_signed : F.value n = signed (F.negative n) (F.size n) := by
  rw [value, size, scale, Nat.cast_max, Nat.cast_one]

theorem magnitude_eq : F.magnitude n = F.exponent n * 2 ^ F.field + F.fraction n := low_eq.symm

/-- The magnitude of a pattern, as its significand and its scale. -/
theorem magnitude_eq_scale : F.magnitude n = F.significand n + (F.scale n - 1) * 2 ^ F.field := by
  rw [magnitude_eq, significand, scale]
  by_cases h : F.exponent n = 0
  · rw [if_pos h, h]
    simp
  · obtain ⟨e, he⟩ := Nat.exists_eq_succ_of_ne_zero h
    rw [if_neg h, he, max_eq_left (by omega), Nat.succ_sub_one, Nat.succ_mul]
    omega

theorem size_nonneg : 0 ≤ F.size n := mul_nonneg (Nat.cast_nonneg _) (zpow_two_pos _).le

theorem size_eq_zero_iff : F.size n = 0 ↔ F.magnitude n = 0 := by
  rw [size, mul_eq_zero, or_iff_left (zpow_two_pos _).ne', Nat.cast_eq_zero, magnitude_eq_scale]
  constructor
  · intro h
    have hexp : F.exponent n = 0 := by
      by_contra hne
      rw [significand, if_neg hne] at h
      exact absurd h (by have := Nat.two_pow_pos F.field; omega)
    rw [h, scale, hexp]
    simp
  · intro h
    omega

/-- A larger scale makes a larger number. -/
theorem size_lt_of_scale_lt {m : ℕ} (h : F.scale m < F.scale n) :
    F.size m < F.size n ∧ F.magnitude m < F.magnitude n := by
  have hnormal : F.exponent n ≠ 0 := by
    intro h0
    rw [scale, scale, h0] at h
    omega
  have hlow : 2 ^ F.field ≤ F.significand n := by
    rw [significand, if_neg hnormal]
    omega
  have hhigh := significand_lt (F := F) (n := m)
  have hone : 1 ≤ F.scale m := le_max_right _ _
  constructor
  · calc F.size m < ((2 ^ (F.field + 1) : ℕ) : ℚ) * 2 ^ ((F.scale m : ℤ) - F.bias - F.field) := by
          refine mul_lt_mul_of_pos_right ?_ (zpow_two_pos _)
          exact_mod_cast hhigh
      _ = ((2 ^ F.field : ℕ) : ℚ) * 2 ^ ((F.scale m : ℤ) + 1 - F.bias - F.field) := by
          push_cast
          rw [pow_succ, show (F.scale m : ℤ) + 1 - F.bias - F.field =
            F.scale m - F.bias - F.field + 1 by ring, zpow_add_one₀ two_ne_zero]
          ring
      _ ≤ ((2 ^ F.field : ℕ) : ℚ) * 2 ^ ((F.scale n : ℤ) - F.bias - F.field) := by
          refine mul_le_mul_of_nonneg_left ?_ (Nat.cast_nonneg _)
          exact zpow_le_zpow_right₀ one_le_two (by omega)
      _ ≤ F.size n := by
          refine mul_le_mul_of_nonneg_right ?_ (zpow_two_pos _).le
          exact_mod_cast hlow
  · rw [pow_succ] at hhigh
    have hstep : (F.scale m - 1 + 1) * 2 ^ F.field ≤ (F.scale n - 1) * 2 ^ F.field :=
      Nat.mul_le_mul_right _ (by omega)
    rw [Nat.add_mul, Nat.one_mul] at hstep
    rw [magnitude_eq_scale, magnitude_eq_scale]
    omega

theorem size_lt_iff {m : ℕ} : F.size m < F.size n ↔ F.magnitude m < F.magnitude n := by
  rcases lt_trichotomy (F.scale m) (F.scale n) with h | h | h
  · exact iff_of_true (size_lt_of_scale_lt h).1 (size_lt_of_scale_lt h).2
  · rw [size, size, magnitude_eq_scale, magnitude_eq_scale, h,
      mul_lt_mul_iff_left₀ (zpow_two_pos _), Nat.cast_lt]
    omega
  · exact iff_of_false (size_lt_of_scale_lt h).1.not_gt (size_lt_of_scale_lt h).2.not_gt

theorem value_lt_iff {m : ℕ} : F.value m < F.value n ↔ F.key m < F.key n := by
  rw [value_eq_signed, value_eq_signed]
  exact signed_lt_signed_iff size_nonneg size_nonneg size_eq_zero_iff size_eq_zero_iff size_lt_iff
    size_lt_iff _ _

/-! ## The infinities -/

theorem finite_or_infinite {x : Line} (h : F.number n = some x) :
    (F.exponent n ≠ F.expMax ∧ x = .finite (F.value n)) ∨
      (F.magnitude n = F.expMax * 2 ^ F.field ∧ x = .infinity (F.negative n)) := by
  rw [number] at h
  by_cases he : F.exponent n = F.expMax
  · by_cases hf : F.fraction n = 0
    · rw [if_pos he, if_pos hf] at h
      exact .inr ⟨by rw [magnitude_eq, he, hf, Nat.add_zero], (Option.some_inj.1 h).symm⟩
    · rw [if_pos he, if_neg hf] at h
      cases h
  · rw [if_neg he] at h
    exact .inl ⟨he, (Option.some_inj.1 h).symm⟩

/-- A finite number has less than the magnitude of an infinity. -/
theorem magnitude_lt_of_finite (h : F.exponent n ≠ F.expMax) :
    F.magnitude n < F.expMax * 2 ^ F.field := by
  have hle := exponent_le (F := F) (n := n)
  have hfrac := fraction_lt (F := F) (n := n)
  have hstep : (F.exponent n + 1) * 2 ^ F.field ≤ F.expMax * 2 ^ F.field :=
    Nat.mul_le_mul_right _ (by omega)
  rw [Nat.add_mul, Nat.one_mul] at hstep
  rw [magnitude_eq]
  omega

theorem key_eq : F.key n = if F.negative n then -(F.magnitude n : ℤ) else F.magnitude n := rfl

theorem key_bounds : -(F.magnitude n : ℤ) ≤ F.key n ∧ F.key n ≤ F.magnitude n := by
  rw [key_eq]
  split <;> omega

theorem number_lt_iff {m : ℕ} {x y : Line} (hm : F.number m = some x)
    (hn : F.number n = some y) : x < y ↔ F.key m < F.key n := by
  have htop : 0 < F.expMax * 2 ^ F.field := by
    have := Nat.one_lt_two_pow (Nat.pos_iff_ne_zero.1 (Nat.lt_of_succ_lt F.expBits_pos))
    exact Nat.mul_pos (Nat.sub_pos_of_lt this) (Nat.two_pow_pos _)
  have hbm := key_bounds (F := F) (n := m)
  have hbn := key_bounds (F := F) (n := n)
  rcases finite_or_infinite hm with ⟨hfm, rfl⟩ | ⟨him, rfl⟩
  · rcases finite_or_infinite hn with ⟨hfn, rfl⟩ | ⟨hin, rfl⟩
    · rw [Line.finite, Line.finite, WithBot.coe_lt_coe, WithTop.coe_lt_coe]
      exact value_lt_iff
    · have hless : F.magnitude m < F.magnitude n := hin ▸ magnitude_lt_of_finite hfm
      rw [key_eq (n := n)]
      cases F.negative n with
      | false =>
        exact iff_of_true (WithBot.coe_lt_coe.2 (WithTop.coe_lt_top _)) (by simp; omega)
      | true => exact iff_of_false not_lt_bot (by simp; omega)
  · rcases finite_or_infinite hn with ⟨hfn, rfl⟩ | ⟨hin, rfl⟩
    · have hless : F.magnitude n < F.magnitude m := him ▸ magnitude_lt_of_finite hfn
      rw [key_eq (n := m)]
      cases F.negative m with
      | false =>
        refine iff_of_false ?_ (by simp; omega)
        exact fun h => (WithTop.coe_lt_top _).not_gt (WithBot.coe_lt_coe.1 h)
      | true => exact iff_of_true (WithBot.bot_lt_coe _) (by simp; omega)
    · have hpos : 0 < F.magnitude n := hin ▸ htop
      rw [key_eq, key_eq, him.trans hin.symm]
      cases F.negative m <;> cases F.negative n
      · exact iff_of_false (lt_irrefl _) (lt_irrefl _)
      · exact iff_of_false not_lt_bot (by simp)
      · exact iff_of_true (WithBot.bot_lt_coe _) (by simp; omega)
      · exact iff_of_false (lt_irrefl _) (lt_irrefl _)

/-! ## The comparison of patterns -/

/-- Zeros are equal, then the signs decide, then the patterns, turned around for negative ones. -/
def patternOrder (F : Format) (m n : ℕ) : Ordering :=
  if F.magnitude m = 0 ∧ F.magnitude n = 0 then .eq
  else if F.negative m ≠ F.negative n then if F.negative m then .lt else .gt
  else if m = n then .eq
  else if decide (n < m) = F.negative m then .lt
  else .gt

theorem patternOrder_eq {m : ℕ} {x y : Line} (hm : F.number m = some x)
    (hn : F.number n = some y) (hmlt : m < 2 ^ F.width) (hnlt : n < 2 ^ F.width) :
    F.patternOrder m n = cmp x y := by
  have hcmp : cmp x y = cmp (F.key m) (F.key n) := by
    rcases lt_trichotomy x y with h | h | h
    · rw [(cmp_eq_lt_iff _ _).2 h, (cmp_eq_lt_iff _ _).2 ((number_lt_iff hm hn).1 h)]
    · rw [(cmp_eq_eq_iff _ _).2 h, eq_comm, cmp_eq_eq_iff]
      refine le_antisymm (not_lt.1 fun hlt => ?_) (not_lt.1 fun hlt => ?_)
      · exact ((number_lt_iff hn hm).2 hlt).ne' h
      · exact ((number_lt_iff hm hn).2 hlt).ne h
    · rw [(cmp_eq_gt_iff _ _).2 h, (cmp_eq_gt_iff _ _).2 ((number_lt_iff hn hm).1 h)]
  have hfull (k : ℕ) (hk : k < 2 ^ F.width) :
      k = (F.negative k).toNat * 2 ^ (F.field + F.expBits) + F.magnitude k := by
    rw [magnitude, ← top_eq hk, Nat.div_add_mod']
  have hm' := hfull m hmlt
  have hn' := hfull n hnlt
  rw [hcmp, patternOrder, key_eq, key_eq]
  cases hneg : F.negative m <;> cases hneg' : F.negative n <;> rw [hneg, Bool.toNat] at hm' <;>
    rw [hneg', Bool.toNat] at hn' <;> simp only [cond_true, cond_false] at hm' hn' <;>
    unfold cmp cmpUsing <;>
    simp only [ne_eq, not_true, not_false_eq_true, if_true, if_false, Bool.false_eq_true,
      decide_eq_false_iff_not, decide_eq_true_eq, reduceCtorEq] <;>
    split_ifs <;> first | rfl | omega

end Format

end X86Port.Lib.Rounding
