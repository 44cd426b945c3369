import X86Port.Lib.JumpCode

/-!
# Code with blocks

Structured code: instructions, blocks, conditionals and conditional branches out of them. A branch
leaves the operand stack as it finds it.

* `run_insn` … `run_block`: one rule for each item and each way it goes.
-/

namespace X86Port.Lib.BlockCode

open JumpCode (Reached)

inductive Item (ι : Type*) where
  | insn (i : ι)
  | brIf (depth : Nat)
  | block (body : List (Item ι))
  | ifThen (body : List (Item ι))

/-- What an instruction comes to, and the condition that a branch or a conditional takes from the
stack. -/
structure Machine (ι σ ρ : Type*) where
  exec : ι → σ → Reached σ ρ
  test : σ → Option (Bool × σ)

/-- What a piece of code comes to: it falls through, it branches out, it leaves, or it traps. -/
inductive Flow (σ ρ : Type*) where
  | next (s : σ)
  | branch (depth : Nat) (s : σ)
  | leave (r : ρ)
  | trap

section

variable {ι σ ρ : Type*}

def Reached.flow : Reached σ ρ → Flow σ ρ
  | .next s => .next s
  | .leave r => .leave r
  | .trap => .trap

def Flow.andThen (k : σ → Flow σ ρ) : Flow σ ρ → Flow σ ρ
  | .next s => k s
  | .branch depth s => .branch depth s
  | .leave r => .leave r
  | .trap => .trap

/-- The end of a block, which a branch of depth zero reaches. -/
def Flow.endBlock : Flow σ ρ → Flow σ ρ
  | .branch 0 s => .next s
  | .branch (depth + 1) s => .branch depth s
  | flow => flow

variable (M : Machine ι σ ρ)

mutual

def step : Item ι → σ → Flow σ ρ
  | .insn i, s => Reached.flow (M.exec i s)
  | .brIf depth, s =>
    match M.test s with
    | some (true, s) => .branch depth s
    | some (false, s) => .next s
    | none => .trap
  | .block body, s => (run body s).endBlock
  | .ifThen body, s =>
    match M.test s with
    | some (true, s) => (run body s).endBlock
    | some (false, s) => .next s
    | none => .trap

def run : List (Item ι) → σ → Flow σ ρ
  | [], s => .next s
  | item :: rest, s => (step item s).andThen fun s => run rest s

end

example (s : σ) : run M [] s = .next s := by rw [run]

example (depth : Nat) (s : σ) (h : M.test s = none) : step M (.brIf depth) s = .trap := by
  rw [step, h]

variable {M} {rest body : List (Item ι)} {s s' : σ} {r : ρ}

theorem run_insn {i : ι} (h : M.exec i s = .next s') :
    run M (.insn i :: rest) s = run M rest s' := by
  rewrite [run, step, h]
  rfl

theorem run_insn_leave {i : ι} (h : M.exec i s = .leave r) :
    run M (.insn i :: rest) s = .leave r := by
  rewrite [run, step, h]
  rfl

theorem run_brIf_taken {depth : Nat} (h : M.test s = some (true, s')) :
    run M (.brIf depth :: rest) s = .branch depth s' := by
  rewrite [run, step, h]
  rfl

theorem run_brIf_passed {depth : Nat} (h : M.test s = some (false, s')) :
    run M (.brIf depth :: rest) s = run M rest s' := by
  rewrite [run, step, h]
  rfl

theorem run_block {flow : Flow σ ρ} (h : run M body s = flow) :
    run M (.block body :: rest) s = flow.endBlock.andThen fun s => run M rest s := by
  rw [run, step, h]

theorem run_ifThen_taken {flow : Flow σ ρ} (h : M.test s = some (true, s'))
    (hbody : run M body s' = flow) :
    run M (.ifThen body :: rest) s = flow.endBlock.andThen fun s => run M rest s := by
  rewrite [run, step, h, ← hbody]
  rfl

theorem run_ifThen_passed (h : M.test s = some (false, s')) :
    run M (.ifThen body :: rest) s = run M rest s' := by
  rewrite [run, step, h]
  rfl

end

end X86Port.Lib.BlockCode
