import Mathlib.Data.Int.Log
import Mathlib.Algebra.Order.Floor.Ring
import Mathlib.Algebra.Order.Field.Power
import Mathlib.Tactic.Linarith
import Mathlib.Tactic.FieldSimp
import Mathlib.Tactic.Ring
import Mathlib.Tactic.Positivity

/-!
# Rounding of exact values

A value is rounded to an integer in one of four modes, or to a number of significant bits.

* `Mode.round_signed`: rounding a sign and a magnitude `k + t` with `t` a fraction either keeps `k`
  or moves to `k + 1`, as `Mode.roundsUp` decides.
* `roundSig_scaled`: a value with `p` bits before the point of its scale is rounded to `p`
  significant bits by rounding it to an integer at that scale.
* `roundSig_eq_self`: a value of at most `p` bits at some scale is left alone.
-/

namespace X86Port.Lib.Rounding

inductive Mode where
  | nearest
  | down
  | up
  | truncate
  deriving DecidableEq, Repr

variable {K : Type*} [Field K] [LinearOrder K] [FloorRing K]

/-- The nearest integer, of two at the same distance the even one. -/
def nearestEven (q : K) : ℤ :=
  if 2 * Int.fract q < 1 then ⌊q⌋
  else if 1 < 2 * Int.fract q then ⌊q⌋ + 1
  else if Even ⌊q⌋ then ⌊q⌋ else ⌊q⌋ + 1

def Mode.round (m : Mode) (q : K) : ℤ :=
  match m with
  | nearest => nearestEven q
  | down => ⌊q⌋
  | up => ⌈q⌉
  | truncate => if q < 0 then ⌈q⌉ else ⌊q⌋

/-- Whether the magnitude `k + t`, of a negative value or not, is rounded to `k + 1`. -/
def Mode.roundsUp (m : Mode) (negative : Bool) (k : ℤ) (t : K) : Prop :=
  match m with
  | nearest => 1 < 2 * t ∨ 2 * t = 1 ∧ ¬ Even k
  | down => 0 < t ∧ negative = true
  | up => 0 < t ∧ negative = false
  | truncate => False

instance (m : Mode) (negative : Bool) (k : ℤ) (t : K) : Decidable (m.roundsUp negative k t) := by
  cases m <;> unfold Mode.roundsUp <;> infer_instance

/-- The value with the given sign and magnitude. -/
def signed {R : Type*} [Neg R] (negative : Bool) (x : R) : R := if negative then -x else x

variable [IsStrictOrderedRing K]

theorem signed_inj {R : Type*} [InvolutiveNeg R] (negative : Bool) {x y : R} :
    signed negative x = signed negative y ↔ x = y := by
  cases negative with
  | false => rfl
  | true => exact neg_inj

theorem signed_mul_signed {R : Type*} [Mul R] [HasDistribNeg R] (a b : Bool) (x y : R) :
    signed a x * signed b y = signed (a ^^ b) (x * y) := by
  cases a <;> cases b <;> simp [signed]

theorem signed_add_signed {R : Type*} [AddCommGroup R] (b : Bool) (x y : R) :
    signed b x + signed b y = signed b (x + y) := by
  cases b with
  | false => rfl
  | true => exact (neg_add x y).symm

theorem signed_add_signed_not {R : Type*} [AddCommGroup R] (b : Bool) (x y : R) :
    signed b x + signed (!b) y = signed b (x - y) := by
  cases b with
  | false => exact (sub_eq_add_neg x y).symm
  | true =>
    change -x + y = -(x - y)
    rw [neg_sub, sub_eq_neg_add]

theorem abs_signed {R : Type*} [AddGroup R] [Lattice R] (negative : Bool) (x : R) :
    |signed negative x| = |x| := by
  cases negative with
  | false => rfl
  | true => exact abs_neg x

/-! ## To an integer -/

section Integer

variable {k : ℤ} {t : K}

theorem floor_add_fraction (ht0 : 0 ≤ t) (ht1 : t < 1) : ⌊(k : K) + t⌋ = k := by
  rw [Int.floor_eq_iff]
  constructor <;> linarith

theorem fract_add_fraction (ht0 : 0 ≤ t) (ht1 : t < 1) : Int.fract ((k : K) + t) = t := by
  rw [Int.fract, floor_add_fraction ht0 ht1]
  ring

theorem ceil_add_fraction (ht0 : 0 < t) (ht1 : t < 1) : ⌈(k : K) + t⌉ = k + 1 := by
  rw [Int.ceil_eq_iff]
  push_cast
  constructor <;> linarith

theorem nearestEven_add (ht0 : 0 ≤ t) (ht1 : t < 1) :
    nearestEven ((k : K) + t) = if 1 < 2 * t ∨ 2 * t = 1 ∧ ¬ Even k then k + 1 else k := by
  unfold nearestEven
  rw [floor_add_fraction ht0 ht1, fract_add_fraction ht0 ht1]
  rcases lt_trichotomy (2 * t) 1 with h | h | h
  · rw [if_pos h, if_neg]
    rintro (h' | ⟨h', _⟩) <;> linarith
  · rw [if_neg (by linarith), if_neg (by linarith)]
    by_cases heven : Even k <;> simp [h, heven]
  · rw [if_neg (by linarith), if_pos h, if_pos (Or.inl h)]

omit [IsStrictOrderedRing K] in
theorem floor_le_nearestEven (q : K) : ⌊q⌋ ≤ nearestEven q := by
  unfold nearestEven
  split_ifs <;> omega

@[simp] theorem nearestEven_intCast (k : ℤ) : nearestEven (k : K) = k := by
  have h := nearestEven_add (k := k) (le_refl (0 : K)) zero_lt_one
  have hneg : ¬ (1 : K) < 0 := by linarith [zero_lt_one (α := K)]
  simpa [hneg] using h

theorem nearestEven_neg (q : K) : nearestEven (-q) = -nearestEven q := by
  have hq : q = (⌊q⌋ : K) + Int.fract q := (Int.floor_add_fract q).symm
  have ht0 : 0 ≤ Int.fract q := Int.fract_nonneg q
  have ht1 : Int.fract q < 1 := Int.fract_lt_one q
  generalize ⌊q⌋ = k at hq
  generalize Int.fract q = t at hq ht0 ht1
  subst hq
  rcases eq_or_lt_of_le ht0 with rfl | ht
  · rw [add_zero, ← Int.cast_neg, nearestEven_intCast, nearestEven_intCast]
  · -- the negated value stands `1 - t` above the integer below it
    have hneg : -((k : K) + t) = ((-k - 1 : ℤ) : K) + (1 - t) := by
      push_cast
      ring
    have hodd : Even (-k - 1) ↔ ¬ Even k := by
      rw [Int.even_sub_one, even_neg]
    rw [hneg, nearestEven_add (by linarith) (by linarith), nearestEven_add ht0 ht1]
    simp only [hodd]
    rcases lt_trichotomy (2 * t) 1 with h | h | h
    · rw [if_pos (Or.inl (by linarith)), if_neg]
      · ring
      · rintro (h' | ⟨h', _⟩) <;> linarith
    · have h' : 2 * (1 - t) = 1 := by linarith
      by_cases heven : Even k
      · rw [if_pos (Or.inr ⟨h', not_not.mpr heven⟩), if_neg]
        · ring
        · rintro (hlt | ⟨_, hn⟩)
          · linarith
          · exact hn heven
      · rw [if_neg, if_pos (Or.inr ⟨h, heven⟩)]
        · ring
        · rintro (hlt | ⟨_, hn⟩)
          · linarith
          · exact hn heven
    · rw [if_neg, if_pos (Or.inl h)]
      · ring
      · rintro (h' | ⟨h', _⟩) <;> linarith

@[simp] theorem Mode.round_intCast (m : Mode) (k : ℤ) : m.round (k : K) = k := by
  cases m with
  | nearest => exact nearestEven_intCast k
  | down => exact Int.floor_intCast k
  | up => exact Int.ceil_intCast k
  | truncate => simp [Mode.round]

theorem cast_signed {R : Type*} [AddGroupWithOne R] (negative : Bool) (k : ℤ) :
    ((signed negative k : ℤ) : R) = signed negative (k : R) := by
  cases negative with
  | false => rfl
  | true => exact Int.cast_neg k

theorem Mode.round_add (m : Mode) (hk : 0 ≤ k) (ht0 : 0 ≤ t) (ht1 : t < 1) :
    m.round ((k : K) + t) = if m.roundsUp false k t then k + 1 else k := by
  have hk' : (0 : K) ≤ k := by exact_mod_cast hk
  cases m with
  | nearest => exact nearestEven_add ht0 ht1
  | down => simpa [Mode.round, Mode.roundsUp] using floor_add_fraction (k := k) ht0 ht1
  | up =>
    rcases eq_or_lt_of_le ht0 with rfl | ht
    · simp [Mode.round, Mode.roundsUp]
    · simpa [Mode.round, Mode.roundsUp, ht] using ceil_add_fraction (k := k) ht ht1
  | truncate =>
    have hpos : ¬ (k : K) + t < 0 := by linarith
    simpa [Mode.round, Mode.roundsUp, hpos] using floor_add_fraction (k := k) ht0 ht1

theorem Mode.round_neg_add (m : Mode) (hk : 0 ≤ k) (ht0 : 0 ≤ t) (ht1 : t < 1) :
    m.round (-((k : K) + t)) = -(if m.roundsUp true k t then k + 1 else k) := by
  have hk' : (0 : K) ≤ k := by exact_mod_cast hk
  cases m with
  | nearest =>
    have h := nearestEven_neg ((k : K) + t)
    rw [nearestEven_add ht0 ht1] at h
    exact h
  | down =>
    rcases eq_or_lt_of_le ht0 with rfl | ht
    · simp [Mode.round, Mode.roundsUp, Int.floor_neg]
    · simp only [Mode.round, Mode.roundsUp, Int.floor_neg, ht, true_and, if_true]
      rw [ceil_add_fraction ht ht1]
  | up =>
    simp only [Mode.round, Mode.roundsUp, Int.ceil_neg]
    rw [floor_add_fraction ht0 ht1]
    simp
  | truncate =>
    simp only [Mode.round]
    rw [if_neg (show ¬ Mode.roundsUp .truncate true k t from not_false)]
    rcases eq_or_lt_of_le (add_nonneg hk' ht0) with h | h
    · have hk0 : k = 0 := by
        have : (k : K) = 0 := by linarith
        exact_mod_cast this
      rw [← h, hk0]
      simp
    · rw [if_pos (by linarith), Int.ceil_neg, floor_add_fraction ht0 ht1]

/-- The sign decides only which of the two neighbours a directed mode takes. -/
theorem Mode.round_signed (m : Mode) (negative : Bool) (hk : 0 ≤ k) (ht0 : 0 ≤ t) (ht1 : t < 1) :
    m.round (signed negative ((k : K) + t)) =
      signed negative (if m.roundsUp negative k t then k + 1 else k) := by
  cases negative with
  | false => exact m.round_add hk ht0 ht1
  | true => exact m.round_neg_add hk ht0 ht1

/-! ### Fractions of binary digits -/

theorem two_mul_digits (n r : ℕ) : 2 * ((r : K) / 2 ^ (n + 1)) = r / 2 ^ n := by
  rw [pow_succ]
  field_simp

theorem one_lt_two_mul_digits {n r : ℕ} : 1 < 2 * ((r : K) / 2 ^ (n + 1)) ↔ 2 ^ n < r := by
  rw [two_mul_digits, one_lt_div (by positivity)]
  exact_mod_cast Iff.rfl

theorem two_mul_digits_eq_one {n r : ℕ} : 2 * ((r : K) / 2 ^ (n + 1)) = 1 ↔ r = 2 ^ n := by
  rw [two_mul_digits, div_eq_one_iff_eq (by positivity)]
  exact_mod_cast Iff.rfl

theorem digits_lt_one {n r : ℕ} (h : r < 2 ^ n) : (r : K) / 2 ^ n < 1 := by
  rw [div_lt_one (by positivity)]
  exact_mod_cast h

/-- A number over a power of two is its shifted digits and the digits shifted out. -/
theorem cast_div_two_pow (m n : ℕ) :
    (m : K) / 2 ^ n = (m / 2 ^ n : ℕ) + (m % 2 ^ n : ℕ) / 2 ^ n := by
  have hpos : (2 : K) ^ n ≠ 0 := by positivity
  have hdiv : m = m / 2 ^ n * 2 ^ n + m % 2 ^ n := (Nat.div_add_mod' m (2 ^ n)).symm
  rw [div_eq_iff hpos, add_mul, div_mul_cancel₀ _ hpos]
  exact_mod_cast hdiv

/-- Rounding away the low digits of a number, by what the digits shifted out are. -/
theorem nearestEven_digits (m n : ℕ) : nearestEven ((m : K) / 2 ^ (n + 1)) =
    if 2 ^ n < m % 2 ^ (n + 1) ∨ m % 2 ^ (n + 1) = 2 ^ n ∧ ¬ Even (m / 2 ^ (n + 1))
      then ((m / 2 ^ (n + 1) : ℕ) : ℤ) + 1 else (m / 2 ^ (n + 1) : ℕ) := by
  have hlt : m % 2 ^ (n + 1) < 2 ^ (n + 1) := Nat.mod_lt _ (Nat.two_pow_pos _)
  have hround := nearestEven_add (K := K) (k := ((m / 2 ^ (n + 1) : ℕ) : ℤ))
    (t := (m % 2 ^ (n + 1) : ℕ) / 2 ^ (n + 1)) (by positivity) (digits_lt_one hlt)
  rw [Int.cast_natCast, ← cast_div_two_pow] at hround
  simp only [hround, one_lt_two_mul_digits, two_mul_digits_eq_one, Int.even_coe_nat]

/-- A positive number's leading one can be moved up to any place above it. -/
theorem exists_leading {m p : ℕ} (hpos : 0 < m) (hlt : m < 2 ^ (p + 1)) :
    ∃ k ≤ p, 2 ^ p ≤ m * 2 ^ k ∧ m * 2 ^ k < 2 ^ (p + 1) := by
  have hlog : Nat.log2 m < p + 1 := (Nat.log2_lt hpos.ne').mpr hlt
  have hlow : 2 ^ Nat.log2 m ≤ m := Nat.log2_self_le hpos.ne'
  have hhigh : m < 2 ^ (Nat.log2 m + 1) := Nat.lt_log2_self
  refine ⟨p - Nat.log2 m, by omega, ?_, ?_⟩
  · calc 2 ^ p = 2 ^ Nat.log2 m * 2 ^ (p - Nat.log2 m) := by rw [← pow_add]; congr 1; omega
      _ ≤ _ := Nat.mul_le_mul_right _ hlow
  · calc m * 2 ^ (p - Nat.log2 m) < 2 ^ (Nat.log2 m + 1) * 2 ^ (p - Nat.log2 m) :=
          Nat.mul_lt_mul_of_pos_right hhigh (Nat.two_pow_pos _)
      _ = 2 ^ (p + 1) := by rw [← pow_add]; congr 1; omega

end Integer

/-! ## To a number of significant bits -/

section Significand

variable {p : ℕ} {q x : K} {e : ℤ}

/-- The exponent of the last of `p` significant bits of a value. -/
def ulp (p : ℕ) (q : K) : ℤ := Int.log 2 |q| - (p - 1)

/-- The value with `p` significant bits nearest to `q`, of two the one with the even last bit. -/
def roundSig (p : ℕ) (q : K) : K := (nearestEven (q / 2 ^ ulp p q) : K) * 2 ^ ulp p q

omit [FloorRing K] in
theorem zpow_two_pos (e : ℤ) : (0 : K) < 2 ^ e := by positivity

theorem log_scaled (hlo : 2 ^ (e : ℤ) ≤ |q|) (hhi : |q| < 2 ^ (e + 1)) : Int.log 2 |q| = e := by
  have hpos : 0 < |q| := lt_of_lt_of_le (zpow_two_pos e) hlo
  apply le_antisymm
  · exact Int.lt_add_one_iff.mp ((Int.lt_zpow_iff_log_lt one_lt_two hpos).mp (by exact_mod_cast hhi))
  · exact (Int.zpow_le_iff_le_log one_lt_two hpos).mp (by exact_mod_cast hlo)

@[simp] theorem roundSig_zero : roundSig p (0 : K) = 0 := by
  have h := nearestEven_intCast (K := K) 0
  rw [Int.cast_zero] at h
  simp [roundSig, h]

theorem roundSig_neg : roundSig p (-q) = -roundSig p q := by
  rw [roundSig, roundSig, ulp, ulp, abs_neg, neg_div, nearestEven_neg]
  push_cast
  ring

theorem roundSig_signed (negative : Bool) :
    roundSig p (signed negative q) = signed negative (roundSig p q) := by
  cases negative with
  | false => rfl
  | true => exact roundSig_neg

theorem log_mul_zpow {b : ℤ} (hlo : 2 ^ (b - 1) ≤ x) (hhi : x < 2 ^ b) :
    Int.log 2 |x * 2 ^ e| = b - 1 + e := by
  have hx : 0 < x := lt_of_lt_of_le (zpow_two_pos _) hlo
  have habs : |x * 2 ^ e| = x * 2 ^ e := abs_of_pos (mul_pos hx (zpow_two_pos e))
  apply log_scaled
  · rw [habs, zpow_add₀ two_ne_zero]
    exact mul_le_mul_of_nonneg_right hlo (zpow_two_pos e).le
  · rw [habs, show b - 1 + e + 1 = b + e by ring, zpow_add₀ two_ne_zero]
    exact mul_lt_mul_of_pos_right hhi (zpow_two_pos e)

/-- Of a value with exactly `p` bits before the point, the significant bits are the integer. -/
theorem roundSig_scaled (hlo : 2 ^ ((p : ℤ) - 1) ≤ x) (hhi : x < 2 ^ (p : ℤ)) :
    roundSig p (x * 2 ^ e) = nearestEven x * 2 ^ e := by
  have hulp : ulp p (x * 2 ^ e) = e := by
    rw [ulp, log_mul_zpow hlo hhi]
    ring
  rw [roundSig, hulp, mul_div_cancel_right₀ _ (zpow_two_pos e).ne']

theorem roundSig_eq_self {n : ℤ} (hn : |n| < 2 ^ p) (hq : q = n * 2 ^ e) : roundSig p q = q := by
  rcases eq_or_ne q 0 with rfl | hq0
  · exact roundSig_zero
  · have hpos : 0 < |q| := abs_pos.mpr hq0
    have hlt : |q| < 2 ^ ((p : ℤ) + e) := by
      rw [hq, abs_mul, abs_of_pos (show (0 : K) < 2 ^ e from zpow_two_pos e),
        zpow_add₀ two_ne_zero]
      apply mul_lt_mul_of_pos_right _ (zpow_two_pos e)
      rw [← Int.cast_abs, zpow_natCast]
      exact_mod_cast hn
    have hlog : Int.log 2 |q| < p + e :=
      (Int.lt_zpow_iff_log_lt one_lt_two hpos).mp (by exact_mod_cast hlt)
    -- the last significant bit stands at or below the scale, so the value is a multiple of it
    obtain ⟨d, hd⟩ : ∃ d : ℕ, e = ulp p q + d := ⟨(e - ulp p q).toNat, by unfold ulp; omega⟩
    have hmul : q / 2 ^ ulp p q = ((n * 2 ^ d : ℤ) : K) := by
      rw [div_eq_iff (zpow_two_pos _).ne']
      conv_lhs => rw [hq, hd, zpow_add₀ two_ne_zero, zpow_natCast]
      push_cast
      ring
    rw [roundSig, hmul, nearestEven_intCast, ← hmul, div_mul_cancel₀ _ (zpow_two_pos _).ne']

end Significand

end X86Port.Lib.Rounding
