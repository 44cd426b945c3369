import Mathlib.Order.Basic

/-!
# Counted loops

A loop has so many rounds left. A round has no meaning, fails and changes nothing, or gives the
next state, which may end the loop.

* `loop_cases`: how a loop ends.
* `loop_resume`: rounds that went through come off the loop.
* `loop_of_not_rounds`: under other rounds with the same effects, a loop whose first rounds no
  longer go through ends before them.
-/

namespace X86Port.Lib.CountedLoop

variable {σ ε : Type*}

/-- What a loop of at most so many rounds ends with, and the error of a round that failed. -/
def loop (step : σ → Option (Except ε σ)) (stops : σ → Bool) :
    Nat → σ → Option (Option ε × σ)
  | 0, s => some (none, s)
  | n + 1, s => (step s).bind fun
    | .error e => some (some e, s)
    | .ok t => if stops t then some (none, t) else loop step stops n t

/-- So many rounds that go through and do not end the loop. -/
inductive Rounds (step : σ → Option (Except ε σ)) (stops : σ → Bool) :
    Nat → σ → σ → Prop
  | refl (s : σ) : Rounds step stops 0 s s
  | head {k : Nat} {s t u : σ} (hstep : step s = some (.ok t)) (hgo : stops t = false)
      (rest : Rounds step stops k t u) : Rounds step stops (k + 1) s u

/-- How a loop of `n` rounds from `s` ends. -/
inductive Ends (step : σ → Option (Except ε σ)) (stops : σ → Bool) (n : Nat) (s : σ) :
    Option ε × σ → Prop
  | failed {e : ε} {k : Nat} {t : σ} (hlt : k < n) (hdone : Rounds step stops k s t)
      (hstep : step t = some (.error e)) : Ends step stops n s (some e, t)
  | ranOut {t : σ} (hdone : Rounds step stops n s t) : Ends step stops n s (none, t)
  | stopped {k : Nat} {t u : σ} (hlt : k < n) (hdone : Rounds step stops k s t)
      (hstep : step t = some (.ok u)) (hstops : stops u = true) : Ends step stops n s (none, u)

section

variable {step step' : σ → Option (Except ε σ)} {stops : σ → Bool} {n k : Nat} {s t u : σ}

theorem loop_of_ok (hstep : step s = some (.ok t)) (hgo : stops t = false) :
    loop step stops (n + 1) s = loop step stops n t := by
  rw [loop, hstep, Option.bind_some]
  dsimp only
  rw [hgo, if_neg Bool.false_ne_true]

theorem loop_of_error {e : ε} (hstep : step s = some (.error e)) :
    loop step stops (n + 1) s = some (some e, s) := by
  rw [loop, hstep, Option.bind_some]

theorem loop_of_stops (hstep : step s = some (.ok t)) (hstops : stops t = true) :
    loop step stops (n + 1) s = some (none, t) := by
  rw [loop, hstep, Option.bind_some]
  dsimp only
  rw [if_pos hstops]

/-! ## Rounds -/

/-- Rounds go on behind rounds. -/
theorem Rounds.append (h : Rounds step stops k s t) (h' : Rounds step stops n t u) :
    Rounds step stops (n + k) s u := by
  induction h with
  | refl s => exact h'
  | head hstep hgo rest ih => exact .head hstep hgo (ih h')

theorem Rounds.snoc (h : Rounds step stops k s t) (hstep : step t = some (.ok u))
    (hgo : stops u = false) : Rounds step stops (k + 1) s u := by
  rw [Nat.add_comm]
  exact h.append (.head hstep hgo (.refl u))

/-- The state after the first of the rounds. -/
theorem Rounds.take {i : Nat} (h : Rounds step stops k s t) (hi : i ≤ k) :
    ∃ u, Rounds step stops i s u ∧ Rounds step stops (k - i) u t := by
  induction h generalizing i with
  | refl s =>
    obtain rfl := Nat.le_zero.mp hi
    exact ⟨s, .refl s, .refl s⟩
  | @head k s t u hstep hgo rest ih =>
    cases i with
    | zero => exact ⟨s, .refl s, .head hstep hgo rest⟩
    | succ i =>
      obtain ⟨v, hfirst, hlast⟩ := ih (Nat.le_of_succ_le_succ hi)
      refine ⟨v, .head hstep hgo hfirst, ?_⟩
      rwa [Nat.add_sub_add_right]

/-- What ends a loop does not matter for rounds that are counted. -/
theorem Rounds.forget (h : Rounds step stops k s t) : Rounds step (fun _ => false) k s t := by
  induction h with
  | refl s => exact .refl s
  | head hstep hgo rest ih => exact .head hstep rfl ih

/-- A property that every round keeps. -/
theorem Rounds.invariant {P : Nat → σ → Prop} (h : Rounds step stops k s t) (hs : P 0 s)
    (hkeep : ∀ i u v, P i u → step u = some (.ok v) → P (i + 1) v) : P k t := by
  induction h generalizing P with
  | refl s => exact hs
  | head hstep hgo rest ih =>
    exact @ih (fun i u => P (i + 1) u) (hkeep 0 _ _ hs hstep)
      fun i u v hu hv => hkeep (i + 1) u v hu hv

/-- Rounds whose effects are those of other rounds. -/
theorem Rounds.transfer (h : Rounds step stops k s t)
    (hstep : ∀ i < k, ∀ u v, Rounds step stops i s u → step u = some (.ok v) →
      step' u = some (.ok v)) : Rounds step' stops k s t := by
  induction h with
  | refl s => exact .refl s
  | @head k s t u hs hgo rest ih =>
    refine .head (hstep 0 (Nat.succ_pos k) s t (.refl s) hs) hgo (ih fun i hi u v hu hv => ?_)
    exact hstep (i + 1) (Nat.succ_lt_succ hi) u v (.head hs hgo hu) hv

/-! ## Loops -/

theorem loop_resume (h : Rounds step stops k s t) :
    loop step stops (n + k) s = loop step stops n t := by
  induction h with
  | refl s => rfl
  | head hstep hgo rest ih => exact (loop_of_ok hstep hgo).trans ih

theorem loop_cases {r : Option ε × σ} (h : loop step stops n s = some r) :
    Ends step stops n s r := by
  induction n generalizing s with
  | zero =>
    cases h
    exact .ranOut (.refl s)
  | succ n ih =>
    rw [loop] at h
    obtain ⟨out, hstep, hout⟩ := Option.bind_eq_some_iff.mp h
    cases out with
    | error e =>
      cases hout
      exact .failed (Nat.succ_pos n) (.refl s) hstep
    | ok t =>
      dsimp only at hout
      by_cases hstops : stops t = true
      · rw [if_pos hstops] at hout
        cases hout
        exact .stopped (Nat.succ_pos n) (.refl s) hstep hstops
      · rw [if_neg hstops] at hout
        have hgo := (Bool.not_eq_true _).mp hstops
        cases ih hout with
        | failed hlt hdone herror =>
          exact .failed (Nat.succ_lt_succ hlt) (.head hstep hgo hdone) herror
        | ranOut hdone => exact .ranOut (.head hstep hgo hdone)
        | stopped hlt hdone hlast hends =>
          exact .stopped (Nat.succ_lt_succ hlt) (.head hstep hgo hdone) hlast hends

/-- Rounds that always have a meaning make a loop that has one. -/
theorem loop_defined (htotal : ∀ s, ∃ out, step s = some out) (n : Nat) (s : σ) :
    ∃ r, loop step stops n s = some r := by
  induction n generalizing s with
  | zero => exact ⟨_, rfl⟩
  | succ n ih =>
    obtain ⟨out, hstep⟩ := htotal s
    cases out with
    | error e => exact ⟨_, loop_of_error hstep⟩
    | ok t =>
      cases hstops : stops t with
      | true => exact ⟨_, loop_of_stops hstep hstops⟩
      | false =>
        obtain ⟨r, hr⟩ := ih t
        exact ⟨r, (loop_of_ok hstep hstops).trans hr⟩

/-! ## The rounds that are left -/

variable {count : σ → Nat}

theorem Rounds.count_add
    (hcount : ∀ s t, count s ≠ 0 → step s = some (.ok t) → count t + 1 = count s)
    (h : Rounds step stops k s t) (hk : k ≤ count s) : count t + k = count s := by
  induction h with
  | refl s => rfl
  | @head k s t u hstep hgo rest ih =>
    have hnext := hcount s t (by omega) hstep
    have := ih (by omega)
    omega

/-- A loop leaves no more rounds than it began with. -/
theorem count_of_loop
    (hcount : ∀ s t, count s ≠ 0 → step s = some (.ok t) → count t + 1 = count s)
    {r : Option ε × σ} (h : loop step stops (count s) s = some r) : count r.2 ≤ count s := by
  cases loop_cases h with
  | failed hlt hdone herror =>
    have := hdone.count_add hcount (Nat.le_of_lt hlt)
    exact Nat.le.intro this
  | ranOut hdone => exact Nat.le.intro (hdone.count_add hcount (Nat.le_refl _))
  | stopped hlt hdone hlast hends =>
    have := hdone.count_add hcount (Nat.le_of_lt hlt)
    have := hcount _ _ (by omega) hlast
    dsimp only
    omega

/-- Rounds went through. Under other rounds with the same effects they do so again, or the loop
fails before it has done them. -/
theorem loop_of_not_rounds
    (hcount : ∀ s t, count s ≠ 0 → step s = some (.ok t) → count t + 1 = count s)
    (hsame : ∀ s t u, step s = some (.ok t) → step' s = some (.ok u) → t = u)
    (htotal : ∀ s, ∃ out, step' s = some out) (h : Rounds step stops k s t) (hk : k ≤ count s)
    (hnot : ¬ Rounds step' stops k s t) :
    ∃ e u, loop step' stops (count s) s = some (some e, u) ∧ count t < count u := by
  induction h with
  | refl s => exact absurd (.refl s) hnot
  | @head k s t u hstep hgo rest ih =>
    have hnext := hcount s t (by omega) hstep
    have hrest := rest.count_add hcount (by omega)
    obtain ⟨out, hstep'⟩ := htotal s
    cases out with
    | error e =>
      refine ⟨e, s, ?_, by omega⟩
      rw [← hnext]
      exact loop_of_error hstep'
    | ok v =>
      obtain rfl := hsame s t v hstep hstep'
      obtain ⟨e, u', hloop, hlt⟩ := ih (by omega) fun h => hnot (.head hstep' hgo h)
      refine ⟨e, u', ?_, hlt⟩
      rw [← hnext, loop_of_ok hstep' hgo, hloop]

end

end X86Port.Lib.CountedLoop
