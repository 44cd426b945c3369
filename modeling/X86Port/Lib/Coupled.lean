import Mathlib.Tactic.SplitIfs

/-!
# Two programs side by side

Programs over a state that can stop with an error, related run by run.

* `Coupled P Q E m n`: from states related by `P`, the two give the same value in states related
  by `Q`, or the same error in states related by `E`.
* `Coupled.bind`, `Coupled.ite`: what sequences and branches keep.
* `Keeps q m`: one program, and a part of the state that it never changes.
-/

namespace X86Port.Lib

variable {ε σ τ α β : Type}

/-- The same value in states related by `Q`, or the same error in states related by `E`. -/
def SameResult (Q E : σ → τ → Prop) : EStateM.Result ε σ α → EStateM.Result ε τ α → Prop
  | .ok a s, .ok b t => a = b ∧ Q s t
  | .error e s, .error f t => e = f ∧ E s t
  | _, _ => False

def Coupled (P Q E : σ → τ → Prop) (m : EStateM ε σ α) (n : EStateM ε τ α) : Prop :=
  ∀ s t, P s t → SameResult Q E (m s) (n t)

variable {P Q R E : σ → τ → Prop}

namespace SameResult

theorem mono {Q' E' : σ → τ → Prop} {x : EStateM.Result ε σ α} {y : EStateM.Result ε τ α}
    (hQ : ∀ s t, Q s t → Q' s t) (hE : ∀ s t, E s t → E' s t) (h : SameResult Q E x y) :
    SameResult Q' E' x y := by
  cases x <;> cases y <;> first | exact h.elim | skip
  · exact ⟨h.1, hQ _ _ h.2⟩
  · exact ⟨h.1, hE _ _ h.2⟩

end SameResult

namespace Coupled

theorem pure (a : α) : Coupled P P E (Pure.pure a : EStateM ε σ α) (Pure.pure a) :=
  fun _ _ h => ⟨rfl, h⟩

theorem throw (e : ε) : Coupled E Q E (MonadExcept.throw e : EStateM ε σ α) (MonadExcept.throw e) :=
  fun _ _ h => ⟨rfl, h⟩

theorem bind {m : EStateM ε σ α} {n : EStateM ε τ α} {f : α → EStateM ε σ β}
    {g : α → EStateM ε τ β} (hm : Coupled P Q E m n) (hf : ∀ a, Coupled Q R E (f a) (g a)) :
    Coupled P R E (m >>= f) (n >>= g) := by
  intro s t hst
  have hres := hm s t hst
  change SameResult R E (EStateM.bind m f s) (EStateM.bind n g t)
  unfold EStateM.bind
  cases hx : m s with
  | ok a s' =>
    cases hy : n t with
    | ok b t' =>
      rw [hx, hy] at hres
      obtain ⟨rfl, hst'⟩ := hres
      exact hf a s' t' hst'
    | error f t' => rw [hx, hy] at hres; exact hres.elim
  | error e s' =>
    cases hy : n t with
    | ok b t' => rw [hx, hy] at hres; exact hres.elim
    | error f t' => rw [hx, hy] at hres; exact hres

theorem ite {c : Prop} [Decidable c] {m m' : EStateM ε σ α} {n n' : EStateM ε τ α}
    (h : Coupled P Q E m n) (h' : Coupled P Q E m' n') :
    Coupled P Q E (if c then m else m') (if c then n else n') := by
  split_ifs
  · exact h
  · exact h'

theorem mono {P' Q' E' : σ → τ → Prop} {m : EStateM ε σ α} {n : EStateM ε τ α}
    (hP : ∀ s t, P' s t → P s t) (hQ : ∀ s t, Q s t → Q' s t) (hE : ∀ s t, E s t → E' s t)
    (h : Coupled P Q E m n) : Coupled P' Q' E' m n :=
  fun s t hst => (h s t (hP s t hst)).mono hQ hE

end Coupled

/-! ## One program -/

variable {γ : Type}

/-- What `q` sees of the state is the same after the program, however it ends. -/
def Keeps (q : σ → γ) (m : EStateM ε σ α) : Prop :=
  ∀ s, (∀ a s', m s = .ok a s' → q s' = q s) ∧ ∀ e s', m s = .error e s' → q s' = q s

namespace Keeps

variable {q : σ → γ}

theorem pure (a : α) : Keeps q (Pure.pure a : EStateM ε σ α) :=
  fun _ => ⟨fun _ _ h => (by cases h; rfl), fun _ _ h => (by cases h)⟩

theorem throw (e : ε) : Keeps q (MonadExcept.throw e : EStateM ε σ α) :=
  fun _ => ⟨fun _ _ h => (by cases h), fun _ _ h => (by cases h; rfl)⟩

theorem bind {m : EStateM ε σ α} {f : α → EStateM ε σ β} (hm : Keeps q m)
    (hf : ∀ a, Keeps q (f a)) : Keeps q (m >>= f) := by
  intro s
  obtain ⟨hok, herror⟩ := hm s
  change (∀ b s', EStateM.bind m f s = .ok b s' → _) ∧ ∀ e s', EStateM.bind m f s = .error e s' → _
  unfold EStateM.bind
  cases hx : m s with
  | ok a s' =>
    have hkeep := hok a s' hx
    exact ⟨fun b t h => ((hf a s').1 b t h).trans hkeep, fun e t h => ((hf a s').2 e t h).trans hkeep⟩
  | error e s' =>
    exact ⟨fun b t h => (by cases h), fun e' t h => (by cases h; exact herror e s' hx)⟩

theorem ite {c : Prop} [Decidable c] {m m' : EStateM ε σ α} (h : Keeps q m) (h' : Keeps q m') :
    Keeps q (if c then m else m') := by
  split_ifs
  · exact h
  · exact h'

end Keeps

end X86Port.Lib
