import Mathlib.Data.Option.Basic

/-!
# Code with labels

Straight-line instructions, labels and conditional jumps. The machine is at a suffix of the
program, and a jump goes to the suffix behind its label.

* `Ends`: the program leaves, after finitely many steps.
* `Ends.next` … `Ends.label`: one rule for each item.
* `Ends.unique`: it leaves in one way.
-/

namespace X86Port.Lib.JumpCode

inductive Item (ι κ l : Type*) where
  | insn (i : ι)
  | jump (cond : κ) (dest : l)
  | label (here : l)

/-- What an instruction comes to: the next item, the way out, or a trap. -/
inductive Reached (σ ρ : Type*) where
  | next (s : σ)
  | leave (r : ρ)
  | trap

structure Machine (ι κ σ ρ : Type*) where
  exec : ι → σ → Reached σ ρ
  holds : κ → σ → Bool

section

variable {ι κ l σ ρ : Type*} [DecidableEq l]

/-- The code behind a label. -/
def behind (dest : l) : List (Item ι κ l) → Option (List (Item ι κ l))
  | [] => none
  | .label here :: rest => if here = dest then some rest else behind dest rest
  | .insn _ :: rest => behind dest rest
  | .jump _ _ :: rest => behind dest rest

variable (M : Machine ι κ σ ρ) (prog : List (Item ι κ l))

/-- At most `fuel` items of the program, from a suffix of it. -/
def run : Nat → List (Item ι κ l) → σ → Option ρ
  | 0, _, _ => none
  | _ + 1, [], _ => none
  | fuel + 1, .insn i :: rest, s =>
    match M.exec i s with
    | .next s => run fuel rest s
    | .leave r => some r
    | .trap => none
  | fuel + 1, .jump cond dest :: rest, s =>
    if M.holds cond s then (behind dest prog).bind fun code => run fuel code s else run fuel rest s
  | fuel + 1, .label _ :: rest, s => run fuel rest s

example (s : σ) : run M prog 1 [] s = none := by rw [run]

/-- The program leaves with `r`. -/
def Ends (code : List (Item ι κ l)) (s : σ) (r : ρ) : Prop :=
  ∃ fuel, run M prog fuel code s = some r

variable {M prog} {code rest : List (Item ι κ l)} {s s' : σ} {r r' : ρ}

namespace Ends

theorem next {i : ι} (hexec : M.exec i s = .next s') (h : Ends M prog rest s' r) :
    Ends M prog (.insn i :: rest) s r := by
  obtain ⟨fuel, hrun⟩ := h
  refine ⟨fuel + 1, ?_⟩
  rw [run, hexec]
  exact hrun

theorem leave {i : ι} (hexec : M.exec i s = .leave r) : Ends M prog (.insn i :: rest) s r := by
  refine ⟨1, ?_⟩
  rw [run, hexec]

theorem taken {cond : κ} {dest : l} (hholds : M.holds cond s = true)
    (hdest : behind dest prog = some code) (h : Ends M prog code s r) :
    Ends M prog (.jump cond dest :: rest) s r := by
  obtain ⟨fuel, hrun⟩ := h
  refine ⟨fuel + 1, ?_⟩
  rw [run, if_pos hholds, hdest]
  exact hrun

theorem passed {cond : κ} {dest : l} (hholds : M.holds cond s = false) (h : Ends M prog rest s r) :
    Ends M prog (.jump cond dest :: rest) s r := by
  obtain ⟨fuel, hrun⟩ := h
  refine ⟨fuel + 1, ?_⟩
  rw [run, if_neg (by simp [hholds])]
  exact hrun

theorem label {here : l} (h : Ends M prog rest s r) : Ends M prog (.label here :: rest) s r := by
  obtain ⟨fuel, hrun⟩ := h
  exact ⟨fuel + 1, hrun⟩

end Ends

/-- More fuel changes no result. -/
theorem run_mono {fuel : Nat} (h : run M prog fuel code s = some r) (more : Nat) :
    run M prog (fuel + more) code s = some r := by
  induction fuel generalizing code s with
  | zero => cases h
  | succ fuel ih =>
    rw [Nat.succ_add]
    cases code with
    | nil => cases h
    | cons item rest =>
      cases item with
      | insn i =>
        rw [run] at h ⊢
        cases hexec : M.exec i s with
        | next s' =>
          rw [hexec] at h
          exact ih h
        | leave r' =>
          rw [hexec] at h
          exact h
        | trap =>
          rw [hexec] at h
          cases h
      | jump cond dest =>
        rw [run] at h ⊢
        by_cases hholds : M.holds cond s
        · rw [if_pos hholds] at h ⊢
          obtain ⟨code', hdest, hrun⟩ := Option.bind_eq_some_iff.mp h
          rw [hdest]
          exact ih hrun
        · rw [if_neg hholds] at h ⊢
          exact ih h
      | label here => exact ih h

theorem Ends.unique (h : Ends M prog code s r) (h' : Ends M prog code s r') : r = r' := by
  obtain ⟨fuel, hrun⟩ := h
  obtain ⟨fuel', hrun'⟩ := h'
  have hleft := run_mono hrun fuel'
  have hright := run_mono hrun' fuel
  rw [Nat.add_comm] at hright
  exact Option.some.inj (hleft.symm.trans hright)

end

end X86Port.Lib.JumpCode
