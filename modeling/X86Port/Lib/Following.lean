import Mathlib.Logic.Relation

/-!
# A machine that follows a run

A run of steps that may be taken in more than one way, and a machine that comes to a matching
state after each of them, in steps of its own.

* `follow`: the machine follows a run of any length, or to where it stops.
-/

namespace X86Port.Lib

variable {α β : Type*}

/-- So many steps. -/
inductive StepsIn (R : α → α → Prop) : Nat → α → α → Prop where
  | done (a : α) : StepsIn R 0 a a
  | step {n : Nat} {a b c : α} (first : R a b) (rest : StepsIn R n b c) : StepsIn R (n + 1) a c

theorem follow {R : α → α → Prop} {machine : β → β → Prop} {Match : α → β → Prop} {Stop : α → Prop}
    (hstep : ∀ a b, Match a b → Stop a ∨
      ∃ a' b', R a a' ∧ Relation.ReflTransGen machine b b' ∧ Match a' b')
    (n : Nat) {a : α} {b : β} (h : Match a b) :
    ∃ k a' b', StepsIn R k a a' ∧ Relation.ReflTransGen machine b b' ∧ Match a' b' ∧
      (k = n ∨ k ≤ n ∧ Stop a') := by
  induction n generalizing a b with
  | zero => exact ⟨0, a, b, .done a, .refl, h, .inl rfl⟩
  | succ n ih =>
    rcases hstep a b h with hstop | ⟨a', b', hfirst, hreach, hmatch⟩
    · exact ⟨0, a, b, .done a, .refl, h, .inr ⟨Nat.zero_le _, hstop⟩⟩
    · obtain ⟨k, a'', b'', hrest, hreach', hmatch', hend⟩ := ih hmatch
      refine ⟨k + 1, a'', b'', .step hfirst hrest, hreach.trans hreach', hmatch', ?_⟩
      rcases hend with rfl | ⟨hle, hstop⟩
      · exact .inl rfl
      · exact .inr ⟨Nat.succ_le_succ hle, hstop⟩

end X86Port.Lib
