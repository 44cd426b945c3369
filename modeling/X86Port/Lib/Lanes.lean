import Mathlib.Data.List.Range
import Mathlib.Data.Nat.Basic

/-!
# Lanes of a wide word

A wide word as a row of lanes of one width, and loops that write its lanes.

* `lane_setLane_self`, `lane_setLane_ne`: a lane that is set, and the other lanes.
* `lane_foldl`, `lane_foldl_frame`: a lane that one round of a loop writes, and one that none does.
* `forLanes_ok`, `forLanes_error`: the loop whose lanes may have no value.
* `lane_eq_iff`: lanes are equal when their narrower lanes are.
-/

namespace X86Port.Lib.Lanes

variable {N w : Nat}

/-- Lane `i` of `w` bits. -/
def lane (w : Nat) (v : BitVec N) (i : Nat) : BitVec w := v.extractLsb' (w * i) w

/-- The bits from `lo` on become those of `x`. -/
def setBits (v : BitVec N) (lo : Nat) (x : BitVec w) : BitVec N :=
  v &&& ~~~((BitVec.allOnes w).setWidth N <<< lo) ||| x.setWidth N <<< lo

def setLane (v : BitVec N) (i : Nat) (x : BitVec w) : BitVec N := setBits v (w * i) x

section Lanes

variable {u v : BitVec N} {x : BitVec w} {i j k lo : Nat}

theorem getLsbD_lane : (lane w v i).getLsbD k = (decide (k < w) && v.getLsbD (w * i + k)) :=
  BitVec.getLsbD_extractLsb' (w * i) w v k

theorem getLsbD_setBits : (setBits v lo x).getLsbD k =
    if lo ≤ k ∧ k < lo + w ∧ k < N then x.getLsbD (k - lo) else v.getLsbD k := by
  simp only [setBits, BitVec.getLsbD_or, BitVec.getLsbD_and, BitVec.getLsbD_not,
    BitVec.getLsbD_shiftLeft, BitVec.getLsbD_setWidth, BitVec.getLsbD_allOnes]
  by_cases hin : lo ≤ k ∧ k < lo + w ∧ k < N
  · obtain ⟨hlo, hw, hN⟩ := hin
    have hwidth : k - lo < w := by omega
    have htotal : k - lo < N := by omega
    simp [hlo, hw, hN, hwidth, htotal, Nat.not_lt.mpr hlo]
  · rw [if_neg hin]
    by_cases hN : k < N
    · by_cases hlo : lo ≤ k
      · have hwidth : ¬ k - lo < w := by omega
        have hbit : x.getLsbD (k - lo) = false := BitVec.getLsbD_of_ge x _ (Nat.not_lt.mp hwidth)
        simp [hN, hwidth, hbit]
      · simp [hN, Nat.lt_of_not_le hlo]
    · have hbit : v.getLsbD k = false := BitVec.getLsbD_of_ge v k (Nat.not_lt.mp hN)
      simp [hN, hbit]

theorem lane_setLane_self (h : w * (i + 1) ≤ N) : lane w (setLane v i x) i = x := by
  apply BitVec.eq_of_getLsbD_eq
  intro k hk
  rw [Nat.mul_add, Nat.mul_one] at h
  rw [getLsbD_lane, setLane, getLsbD_setBits, if_pos ⟨by omega, by omega, by omega⟩,
    Nat.add_sub_cancel_left, decide_eq_true hk, Bool.true_and]

theorem lane_setLane_ne (h : i ≠ j) : lane w (setLane v i x) j = lane w v j := by
  apply BitVec.eq_of_getLsbD_eq
  intro k hk
  rw [getLsbD_lane, getLsbD_lane, setLane, getLsbD_setBits, if_neg]
  rintro ⟨hle, hlt, -⟩
  rcases Nat.lt_or_gt_of_ne h with hij | hji
  · have := Nat.mul_le_mul_left w (Nat.succ_le_of_lt hij)
    rw [Nat.mul_succ] at this
    omega
  · have := Nat.mul_le_mul_left w (Nat.succ_le_of_lt hji)
    rw [Nat.mul_succ] at this
    omega

theorem lane_zero : lane w (0 : BitVec N) i = 0 := by
  apply BitVec.eq_of_getLsbD_eq
  intro k hk
  simp [getLsbD_lane]

/-- A lane of a lane. -/
theorem lane_lane {W c : Nat} (hW : W = w * c) (hi : i < c) :
    lane w (lane W v j) i = lane w v (c * j + i) := by
  subst hW
  apply BitVec.eq_of_getLsbD_eq
  intro k hk
  have hlt : w * i + k < w * c := by
    have := Nat.mul_le_mul_left w (Nat.succ_le_of_lt hi)
    rw [Nat.mul_succ] at this
    omega
  have hat : w * c * j + (w * i + k) = w * (c * j + i) + k := by
    rw [Nat.mul_add, Nat.mul_assoc, Nat.add_assoc]
  rw [getLsbD_lane, getLsbD_lane, getLsbD_lane, decide_eq_true hlt, Bool.true_and, hat]

/-- A word of as many lanes as it has room for. -/
theorem eq_of_lanes {c : Nat} (hN : N = w * c) (h : ∀ i < c, lane w u i = lane w v i) : u = v := by
  apply BitVec.eq_of_getLsbD_eq
  intro k hk
  have hpos : 0 < w := Nat.pos_of_ne_zero fun h0 => by
    rw [hN, h0, Nat.zero_mul] at hk
    exact Nat.not_lt_zero k hk
  have hlane := h (k / w) (Nat.div_lt_of_lt_mul (by rwa [hN] at hk))
  have hbit := congrArg (fun x => x.getLsbD (k % w)) hlane
  simp only [getLsbD_lane, decide_eq_true (Nat.mod_lt k hpos), Bool.true_and,
    Nat.div_add_mod] at hbit
  exact hbit

theorem lane_eq_iff {W c : Nat} (hW : W = w * c) :
    lane W u j = lane W v k ↔ ∀ i < c, lane w u (c * j + i) = lane w v (c * k + i) := by
  constructor
  · intro h i hi
    rw [← lane_lane hW hi, h, lane_lane hW hi]
  · intro h
    refine eq_of_lanes hW fun i hi => ?_
    rw [lane_lane hW hi, h i hi, lane_lane hW hi]

end Lanes

/-! ## Loops over lanes -/

section Loops

variable {step : BitVec N → Nat → BitVec N} {v : BitVec N} {x : BitVec w} {n i j : Nat}

/-- No round writes the lane. -/
theorem lane_foldl_frame (h : ∀ i < n, ∀ u, lane w (step u i) j = lane w u j) :
    lane w ((List.range n).foldl step v) j = lane w v j := by
  induction n with
  | zero => rfl
  | succ n ih =>
    rw [List.range_succ, List.foldl_append]
    exact (h n (Nat.lt_succ_self n) _).trans (ih fun i hi => h i (Nat.lt_succ_of_lt hi))

/-- No round but round `i` writes the lane. -/
theorem lane_foldl_round (hi : i < n)
    (hframe : ∀ k < n, k ≠ i → ∀ u, lane w (step u k) j = lane w u j) :
    lane w ((List.range n).foldl step v) j = lane w (step ((List.range i).foldl step v) i) j := by
  induction n with
  | zero => exact absurd hi (Nat.not_lt_zero i)
  | succ n ih =>
    rw [List.range_succ, List.foldl_append]
    rcases Nat.lt_succ_iff_lt_or_eq.mp hi with hlt | rfl
    · exact (hframe n (Nat.lt_succ_self n) hlt.ne' _).trans
        (ih hlt fun k hk => hframe k (Nat.lt_succ_of_lt hk))
    · rfl

/-- Round `i` writes the lane, and no other round does. -/
theorem lane_foldl (hi : i < n) (hset : ∀ u, lane w (step u i) j = x)
    (hframe : ∀ k < n, k ≠ i → ∀ u, lane w (step u k) j = lane w u j) :
    lane w ((List.range n).foldl step v) j = x :=
  (lane_foldl_round hi hframe).trans (hset _)

/-- The lanes from `base` on, one after the other. -/
theorem lane_foldl_setLane {f : Nat → BitVec w} (base : Nat) (hN : w * (base + n) ≤ N) :
    lane w ((List.range n).foldl (fun u i => setLane u (base + i) (f i)) v) j =
      if base ≤ j ∧ j < base + n then f (j - base) else lane w v j := by
  split_ifs with hin
  · obtain ⟨i, rfl⟩ := Nat.exists_eq_add_of_le hin.1
    rw [Nat.add_sub_cancel_left]
    refine lane_foldl (i := i) (by omega) (fun u => lane_setLane_self ?_) fun k _ hk u =>
      lane_setLane_ne (by omega)
    exact le_trans (Nat.mul_le_mul_left w (by omega)) hN
  · exact lane_foldl_frame fun i hi u => lane_setLane_ne (by omega)

/-- The lanes one after the other, as far as each has a value. -/
def forLanes {ε : Type} (n : Nat) (f : Nat → Except ε (BitVec w)) (v : BitVec N) :
    Except ε (BitVec N) :=
  (List.range n).foldlM (fun v i => do return setLane v i (← f i)) v

variable {ε : Type} {f : Nat → Except ε (BitVec w)} {g : Nat → BitVec w}

theorem forLanes_eq (hf : ∀ i < n, f i = .ok (g i)) :
    forLanes n f v = .ok ((List.range n).foldl (fun v i => setLane v i (g i)) v) := by
  unfold forLanes
  induction n with
  | zero => rfl
  | succ n ih =>
    rw [List.range_succ, List.foldlM_append, ih fun i hi => hf i (Nat.lt_succ_of_lt hi)]
    rw [List.foldl_append]
    change (do return setLane _ n (← f n) : Except ε (BitVec N)) >>= pure = _
    rw [hf n (Nat.lt_succ_self n)]
    rfl

/-- Every lane has its value. -/
theorem forLanes_ok (hN : w * n ≤ N) (hf : ∀ i < n, f i = .ok (g i)) :
    ∃ r, forLanes n f v = .ok r ∧ ∀ i < n, lane w r i = g i := by
  refine ⟨_, forLanes_eq hf, fun i hi => lane_foldl hi (fun u => lane_setLane_self ?_)
    fun k _ hk u => lane_setLane_ne hk⟩
  exact le_trans (Nat.mul_le_mul_left w (Nat.succ_le_of_lt hi)) hN

/-- A lane without a value. -/
theorem forLanes_error {e : ε} (hi : i < n) (hf : f i = .error e) :
    ∃ e', forLanes n f v = .error e' := by
  unfold forLanes
  induction n with
  | zero => exact absurd hi (Nat.not_lt_zero i)
  | succ n ih =>
    rw [List.range_succ, List.foldlM_append]
    rcases Nat.lt_succ_iff_lt_or_eq.mp hi with hlt | rfl
    · obtain ⟨e', he⟩ := ih hlt
      rw [he]
      exact ⟨e', rfl⟩
    · cases (List.range i).foldlM (fun v i => do return setLane v i (← f i)) v with
      | error e' => exact ⟨e', rfl⟩
      | ok r =>
        refine ⟨e, ?_⟩
        change (do return setLane r i (← f i) : Except ε (BitVec N)) >>= pure = _
        rw [hf]
        rfl

end Loops

end X86Port.Lib.Lanes
