/-!
# Runs of a program with state and errors

Rules for `EStateM` programs, by their first steps and by their loops.

* `Moves`: where a run takes the state, whether it finishes or stops.
* `Avoids`: an error that no run stops by.
* `Yields`: what a run that finishes gives, under an invariant of the state.
* `loop`, `scan`, `fold`: loops without a bound, up to a first answer, and with an accumulator.
-/

namespace X86Port.Lib.Runs

variable {ε σ α β γ : Type}

/-- The state that a run ends in. -/
def final : EStateM.Result ε σ α → σ
  | .ok _ s => s
  | .error _ s => s

section Steps

variable {x : EStateM ε σ α} {f : α → EStateM ε σ β} {s t : σ}

theorem bind_of_ok {a : α} (h : x s = .ok a t) : (x >>= f) s = f a t := by
  change EStateM.bind x f s = _
  unfold EStateM.bind
  rw [h]

theorem bind_of_error {e : ε} (h : x s = .error e t) : (x >>= f) s = .error e t := by
  change EStateM.bind x f s = _
  unfold EStateM.bind
  rw [h]

theorem bind_eq_ok {b : β} (h : (x >>= f) s = .ok b t) :
    ∃ a u, x s = .ok a u ∧ f a u = .ok b t := by
  cases hx : x s with
  | ok a u => exact ⟨a, u, rfl, (bind_of_ok hx).symm.trans h⟩
  | error e u =>
    rw [bind_of_error hx] at h
    cases h

theorem bind_eq_error {e : ε} (h : (x >>= f) s = .error e t) :
    x s = .error e t ∨ ∃ a u, x s = .ok a u ∧ f a u = .error e t := by
  cases hx : x s with
  | ok a u => exact .inr ⟨a, u, rfl, (bind_of_ok hx).symm.trans h⟩
  | error e' u =>
    rw [bind_of_error hx] at h
    cases h
    exact .inl rfl

end Steps

/-! ## Loops -/

/-- A loop whose body says when it ends. -/
def loop (going : ε) (body : Nat → EStateM ε σ (Option β)) : Nat → Nat → EStateM ε σ β
  | 0, _ => throw going
  | fuel + 1, i => body i >>= fun
    | some b => pure b
    | none => loop going body fuel (i + 1)

/-- `n` rounds from `i` on, up to the first answer. -/
def scan (body : Nat → EStateM ε σ (Option β)) : Nat → Nat → EStateM ε σ (Option β)
  | 0, _ => pure none
  | n + 1, i => body i >>= fun
    | some b => pure (some b)
    | none => scan body n (i + 1)

/-- `n` rounds from `i` on, each with what the ones before it left. -/
def fold (body : Nat → γ → EStateM ε σ γ) : Nat → Nat → γ → EStateM ε σ γ
  | 0, _, c => pure c
  | n + 1, i, c => body i c >>= fold body n (i + 1)

/-! ## Where a run goes -/

/-- Every run takes the state to a related one. -/
def Moves (R : σ → σ → Prop) (x : EStateM ε σ α) : Prop := ∀ s, R s (final (x s))

section Moves

variable {R : σ → σ → Prop} {x : EStateM ε σ α}

theorem moves_pure (hrefl : ∀ s, R s s) (a : α) : Moves R (pure a : EStateM ε σ α) := hrefl

theorem moves_throw (hrefl : ∀ s, R s s) (e : ε) : Moves R (throw e : EStateM ε σ α) := hrefl

theorem moves_bind (htrans : ∀ s t u, R s t → R t u → R s u) {f : α → EStateM ε σ β}
    (hx : Moves R x) (hf : ∀ s a t, x s = .ok a t → Moves R (f a)) : Moves R (x >>= f) := by
  intro s
  have hs := hx s
  cases h : x s with
  | ok a t =>
    rw [h] at hs
    rw [bind_of_ok h]
    exact htrans _ _ _ hs (hf s a t h t)
  | error e t =>
    rw [h] at hs
    rw [bind_of_error h]
    exact hs

theorem moves_ite {c : Prop} [Decidable c] {y : EStateM ε σ α} (hx : c → Moves R x)
    (hy : ¬ c → Moves R y) : Moves R (if c then x else y) := by
  split
  · exact hx ‹_›
  · exact hy ‹_›

variable (hrefl : ∀ s, R s s) (htrans : ∀ s t u, R s t → R t u → R s u)
include hrefl htrans

theorem moves_loop {going : ε} {body : Nat → EStateM ε σ (Option β)}
    (hbody : ∀ i, Moves R (body i)) (fuel i : Nat) : Moves R (loop going body fuel i) := by
  induction fuel generalizing i with
  | zero => exact moves_throw hrefl going
  | succ fuel ih =>
    refine moves_bind htrans (hbody i) fun _ answer _ _ => ?_
    cases answer with
    | some b => exact moves_pure hrefl b
    | none => exact ih (i + 1)

theorem moves_scan {body : Nat → EStateM ε σ (Option β)} {n i : Nat}
    (hbody : ∀ j, i ≤ j → j < i + n → Moves R (body j)) : Moves R (scan body n i) := by
  induction n generalizing i with
  | zero => exact moves_pure hrefl none
  | succ n ih =>
    refine moves_bind htrans (hbody i (by omega) (by omega)) fun _ answer _ _ => ?_
    cases answer with
    | some b => exact moves_pure hrefl (some b)
    | none => exact ih fun j hij hj => hbody j (by omega) (by omega)

theorem moves_fold {body : Nat → γ → EStateM ε σ γ} {n i : Nat}
    (hbody : ∀ j c, i ≤ j → j < i + n → Moves R (body j c)) (c : γ) :
    Moves R (fold body n i c) := by
  induction n generalizing i c with
  | zero => exact moves_pure hrefl c
  | succ n ih =>
    exact moves_bind htrans (hbody i c (by omega) (by omega)) fun _ c _ _ =>
      ih (fun j c hij hj => hbody j c (by omega) (by omega)) c

end Moves

/-! ## Errors -/

/-- No run stops by the error. -/
def Avoids (e : ε) (x : EStateM ε σ α) : Prop := ∀ s t, x s ≠ .error e t

section Avoids

variable {e : ε} {x : EStateM ε σ α}

theorem avoids_pure (a : α) : Avoids e (pure a : EStateM ε σ α) := fun _ _ => nofun

theorem avoids_throw {e' : ε} (h : e' ≠ e) : Avoids e (throw e' : EStateM ε σ α) := by
  rintro s t ⟨⟩
  exact h rfl

theorem avoids_bind {f : α → EStateM ε σ β} (hx : Avoids e x) (hf : ∀ a, Avoids e (f a)) :
    Avoids e (x >>= f) := by
  intro s t h
  obtain h | ⟨a, u, -, h⟩ := bind_eq_error h
  · exact hx s t h
  · exact hf a u t h

theorem avoids_ite {c : Prop} [Decidable c] {y : EStateM ε σ α} (hx : Avoids e x)
    (hy : Avoids e y) : Avoids e (if c then x else y) := by
  split
  · exact hx
  · exact hy

theorem avoids_scan {body : Nat → EStateM ε σ (Option β)} (hbody : ∀ i, Avoids e (body i))
    (n i : Nat) : Avoids e (scan body n i) := by
  induction n generalizing i with
  | zero => exact avoids_pure none
  | succ n ih =>
    refine avoids_bind (hbody i) fun answer => ?_
    cases answer with
    | some b => exact avoids_pure (some b)
    | none => exact ih (i + 1)

theorem avoids_fold {body : Nat → γ → EStateM ε σ γ} (hbody : ∀ i c, Avoids e (body i c))
    (n i : Nat) (c : γ) : Avoids e (fold body n i c) := by
  induction n generalizing i c with
  | zero => exact avoids_pure c
  | succ n ih => exact avoids_bind (hbody i c) (ih (i + 1))

/-- A loop ends by a round that never asks for another one. -/
theorem avoids_loop {body : Nat → EStateM ε σ (Option β)} (hbody : ∀ i, Avoids e (body i))
    {k : Nat} (hlast : ∀ s t, body k s ≠ .ok none t) :
    ∀ fuel i, i ≤ k → k < i + fuel → Avoids e (loop e body fuel i) := by
  intro fuel
  induction fuel with
  | zero => intro i hle hlt; omega
  | succ fuel ih =>
    intro i hle hlt s t h
    obtain h | ⟨answer, u, hround, h⟩ := bind_eq_error h
    · exact hbody i s t h
    · cases answer with
      | some b => cases h
      | none =>
        have hne : i ≠ k := by
          rintro rfl
          exact hlast s u hround
        exact ih (i + 1) (by omega) (by omega) u t h

/-- A loop whose every round asks for another one does not end. -/
theorem loop_going {body : Nat → EStateM ε σ (Option β)} {I : σ → Prop}
    (hround : ∀ i s, I s → ∃ t, body i s = .ok none t ∧ I t) :
    ∀ fuel i s, I s → ∃ t, loop e body fuel i s = .error e t := by
  intro fuel
  induction fuel with
  | zero => exact fun i s _ => ⟨s, rfl⟩
  | succ fuel ih =>
    intro i s hs
    obtain ⟨u, hu, hI⟩ := hround i s hs
    obtain ⟨t, ht⟩ := ih (i + 1) u hI
    exact ⟨t, (bind_of_ok hu).trans ht⟩

end Avoids

/-! ## What a run gives -/

/-- A run that finishes keeps the invariant and gives such a value. -/
def Yields (I : σ → Prop) (x : EStateM ε σ α) (Q : α → Prop) : Prop :=
  ∀ s a t, I s → x s = .ok a t → I t ∧ Q a

section Yields

variable {I : σ → Prop} {x : EStateM ε σ α} {P Q : α → Prop}

theorem yields_pure {a : α} (h : Q a) : Yields I (pure a : EStateM ε σ α) Q := by
  rintro s b t hs ⟨⟩
  exact ⟨hs, h⟩

theorem yields_throw (e : ε) : Yields I (throw e : EStateM ε σ α) Q := fun _ _ _ _ => nofun

theorem Yields.mono (hx : Yields I x P) (h : ∀ a, P a → Q a) : Yields I x Q :=
  fun s a t hs hrun => (hx s a t hs hrun).imp_right (h a)

theorem yields_bind {f : α → EStateM ε σ β} {Q : β → Prop} (hx : Yields I x P)
    (hf : ∀ a, P a → Yields I (f a) Q) : Yields I (x >>= f) Q := by
  intro s b t hs hrun
  obtain ⟨a, u, hfirst, hrest⟩ := bind_eq_ok hrun
  obtain ⟨hu, ha⟩ := hx s a u hs hfirst
  exact hf a ha u b t hu hrest

theorem yields_ite {c : Prop} [Decidable c] {y : EStateM ε σ α} (hx : c → Yields I x Q)
    (hy : ¬ c → Yields I y Q) : Yields I (if c then x else y) Q := by
  split
  · exact hx ‹_›
  · exact hy ‹_›

/-- A scan answers by the first round that does. -/
theorem yields_scan {body : Nat → EStateM ε σ (Option β)} {P : Nat → Option β → Prop}
    (hbody : ∀ i, Yields I (body i) (P i)) (n i : Nat) :
    Yields I (scan body n i) fun answer =>
      match answer with
      | some b => ∃ k < n, P (i + k) (some b) ∧ ∀ j < k, P (i + j) none
      | none => ∀ j < n, P (i + j) none := by
  induction n generalizing i with
  | zero => exact yields_pure fun j hj => absurd hj (Nat.not_lt_zero j)
  | succ n ih =>
    refine yields_bind (hbody i) fun answer hanswer => ?_
    cases answer with
    | some b => exact yields_pure ⟨0, Nat.zero_lt_succ n, hanswer, fun j hj => absurd hj (by omega)⟩
    | none =>
      have hall : ∀ k, (∀ j < k, P (i + 1 + j) none) → ∀ j < k + 1, P (i + j) none := by
        intro k hk j hj
        cases j with
        | zero => exact hanswer
        | succ j => exact (show i + (j + 1) = i + 1 + j by omega) ▸ hk j (by omega)
      refine (ih (i + 1)).mono fun answer h => ?_
      cases answer with
      | none => exact hall n h
      | some b =>
        obtain ⟨k, hk, hb, hbefore⟩ := h
        exact ⟨k + 1, by omega, (show i + 1 + k = i + (k + 1) by omega) ▸ hb, hall k hbefore⟩

theorem yields_fold {body : Nat → γ → EStateM ε σ γ} {P : Nat → γ → Prop}
    (hbody : ∀ i c, P i c → Yields I (body i c) (P (i + 1))) (n i : Nat) {c : γ} (hc : P i c) :
    Yields I (fold body n i c) (P (i + n)) := by
  induction n generalizing i c with
  | zero => exact yields_pure hc
  | succ n ih =>
    refine yields_bind (hbody i c hc) fun c hc => ?_
    exact (show i + 1 + n = i + (n + 1) by omega) ▸ ih (i + 1) hc

end Yields

end X86Port.Lib.Runs
