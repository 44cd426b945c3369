import Mathlib.Order.Lattice
import Mathlib.Algebra.Order.Group.Unbundled.Int
import Mathlib.Tactic.Linarith

/-!
# Saturation

The nearest value of an interval.
-/

namespace X86Port.Lib

/-- The value of the interval that is nearest to `v`. -/
def clamp (lo hi v : Int) : Int := max lo (min hi v)

section Clamp

variable {lo hi v u : Int}

theorem clamp_mem (h : lo ≤ hi) : lo ≤ clamp lo hi v ∧ clamp lo hi v ≤ hi := by
  unfold clamp
  omega

theorem clamp_of_mem (hlo : lo ≤ v) (hhi : v ≤ hi) : clamp lo hi v = v := by
  unfold clamp
  omega

/-- No value of the interval is nearer. -/
theorem clamp_nearest (hlo : lo ≤ u) (hhi : u ≤ hi) : |v - clamp lo hi v| ≤ |v - u| := by
  unfold clamp
  rcases le_total lo v with hv | hv
  · rcases le_total v hi with hv' | hv'
    · rw [min_eq_right hv', max_eq_right hv, sub_self, abs_zero]
      exact abs_nonneg _
    · rw [min_eq_left hv', max_eq_right (hlo.trans hhi), abs_of_nonneg (by omega),
        abs_of_nonneg (by omega)]
      omega
  · rw [min_eq_right (by omega), max_eq_left hv, abs_of_nonpos (by omega),
      abs_of_nonpos (by omega)]
    omega

end Clamp

end X86Port.Lib
