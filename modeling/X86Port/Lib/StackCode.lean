import Mathlib.Data.BitVec
import Mathlib.Logic.Function.Basic

/-!
# Structured stack code

A function body of a stack machine on 32-bit words: named locals, an operand stack, a store
reached by width and address, host calls, early returns, tail calls and two-armed conditionals.

* `run_append`: running one piece after another.
* `run_const` … `run_ite`: one rule for each instruction.
* `Pushes`: code that leaves one more word and nothing else, closed under the operators.
-/

namespace X86Port.Lib.StackCode

abbrev Word := BitVec 32

/-! ## Operators -/

inductive Op where
  | eqz
  | popcnt
  | eq
  | ne
  | ltS
  | ltU
  | gtS
  | gtU
  | leS
  | leU
  | geS
  | geU
  | add
  | sub
  | and
  | or
  | xor
  | shl
  | shrS
  | shrU
  | rotl
  | rotr
deriving DecidableEq

/-- A verdict as a word. -/
def truth (b : Bool) : Word := if b then 1 else 0

/-- The number of ones of a word. -/
def ones (a : Word) : Nat := (List.range 32).countP fun i => a.getLsbD i

/-- What an operator does to the stack, whose top is the second operand. A shift count is
taken modulo the width. -/
def Op.apply : Op → List Word → Option (List Word)
  | .eqz, a :: st => some (truth (decide (a = 0)) :: st)
  | .popcnt, a :: st => some (BitVec.ofNat 32 (ones a) :: st)
  | .eq, b :: a :: st => some (truth (decide (a = b)) :: st)
  | .ne, b :: a :: st => some (truth (decide (a ≠ b)) :: st)
  | .ltS, b :: a :: st => some (truth (decide (a.toInt < b.toInt)) :: st)
  | .ltU, b :: a :: st => some (truth (decide (a < b)) :: st)
  | .gtS, b :: a :: st => some (truth (decide (b.toInt < a.toInt)) :: st)
  | .gtU, b :: a :: st => some (truth (decide (b < a)) :: st)
  | .leS, b :: a :: st => some (truth (decide (a.toInt ≤ b.toInt)) :: st)
  | .leU, b :: a :: st => some (truth (decide (a ≤ b)) :: st)
  | .geS, b :: a :: st => some (truth (decide (b.toInt ≤ a.toInt)) :: st)
  | .geU, b :: a :: st => some (truth (decide (b ≤ a)) :: st)
  | .add, b :: a :: st => some ((a + b) :: st)
  | .sub, b :: a :: st => some ((a - b) :: st)
  | .and, b :: a :: st => some ((a &&& b) :: st)
  | .or, b :: a :: st => some ((a ||| b) :: st)
  | .xor, b :: a :: st => some ((a ^^^ b) :: st)
  | .shl, b :: a :: st => some (a <<< (b.toNat % 32) :: st)
  | .shrS, b :: a :: st => some (a.sshiftRight (b.toNat % 32) :: st)
  | .shrU, b :: a :: st => some (a >>> (b.toNat % 32) :: st)
  | .rotl, b :: a :: st => some (a.rotateLeft (b.toNat % 32) :: st)
  | .rotr, b :: a :: st => some (a.rotateRight (b.toNat % 32) :: st)
  | _, _ => none

/-! ## Code -/

inductive Instr (ν φ : Type*) where
  | const (v : Word)
  | localGet (x : ν)
  | localSet (x : ν)
  | localTee (x : ν)
  | op (o : Op)
  | load (width offset : Nat)
  | store (width offset : Nat)
  | call (f : φ)
  | ret
  | tail (f : φ)
  | ite (thn els : List (Instr ν φ))

/-- The store a body reaches and the host functions it calls; a function takes its arguments
in the order they were pushed. -/
structure Env (σ φ : Type*) where
  load : σ → Nat → Nat → Option Word
  store : σ → Nat → Nat → Word → Option σ
  arity : φ → Nat
  call : φ → List Word → σ → Option (Option Word × σ)

structure Frame (σ ν : Type*) where
  store : σ
  locals : ν → Word
  stack : List Word

/-- What a piece of code comes to: it falls through, it leaves, or it traps. -/
inductive Outcome (σ ν φ : Type*) where
  | next (fr : Frame σ ν)
  | ret (v : Word) (s : σ)
  | tail (f : φ) (args : List Word) (s : σ)
  | trap

section Outcome

variable {σ ν φ : Type*}

def Outcome.andThen (o : Outcome σ ν φ) (k : Frame σ ν → Outcome σ ν φ) : Outcome σ ν φ :=
  match o with
  | .next fr => k fr
  | .ret v s => .ret v s
  | .tail f args s => .tail f args s
  | .trap => .trap

theorem andThen_assoc (o : Outcome σ ν φ) (j k : Frame σ ν → Outcome σ ν φ) :
    (o.andThen j).andThen k = o.andThen fun fr => (j fr).andThen k := by
  cases o <;> rfl

end Outcome

section Run

variable {σ ν φ : Type*} [DecidableEq ν] (env : Env σ φ)

mutual

def step : Instr ν φ → Frame σ ν → Outcome σ ν φ
  | .const v, ⟨s, l, st⟩ => .next ⟨s, l, v :: st⟩
  | .localGet x, ⟨s, l, st⟩ => .next ⟨s, l, l x :: st⟩
  | .localSet x, ⟨s, l, v :: st⟩ => .next ⟨s, Function.update l x v, st⟩
  | .localTee x, ⟨s, l, v :: st⟩ => .next ⟨s, Function.update l x v, v :: st⟩
  | .op o, ⟨s, l, st⟩ =>
    match o.apply st with
    | some st => .next ⟨s, l, st⟩
    | none => .trap
  | .load width offset, ⟨s, l, a :: st⟩ =>
    match env.load s width (a.toNat + offset) with
    | some v => .next ⟨s, l, v :: st⟩
    | none => .trap
  | .store width offset, ⟨s, l, v :: a :: st⟩ =>
    match env.store s width (a.toNat + offset) v with
    | some s => .next ⟨s, l, st⟩
    | none => .trap
  | .call f, ⟨s, l, st⟩ =>
    if env.arity f ≤ st.length then
      match env.call f (st.take (env.arity f)).reverse s with
      | some (v, s) => .next ⟨s, l, v.toList ++ st.drop (env.arity f)⟩
      | none => .trap
    else
      .trap
  | .ret, ⟨s, _, v :: _⟩ => .ret v s
  | .tail f, ⟨s, _, st⟩ =>
    if env.arity f ≤ st.length then .tail f (st.take (env.arity f)).reverse s else .trap
  | .ite thn els, ⟨s, l, c :: st⟩ => if c ≠ 0 then run thn ⟨s, l, st⟩ else run els ⟨s, l, st⟩
  | _, _ => .trap

def run : List (Instr ν φ) → Frame σ ν → Outcome σ ν φ
  | [], fr => .next fr
  | i :: rest, fr => (step i fr).andThen fun fr => run rest fr

end

/-! ## Running -/

variable (s : σ) (l : ν → Word) (st : List Word) (rest : List (Instr ν φ))

@[simp] theorem run_nil (fr : Frame σ ν) : run env ([] : List (Instr ν φ)) fr = .next fr := rfl

theorem run_cons (i : Instr ν φ) (fr : Frame σ ν) :
    run env (i :: rest) fr = (step env i fr).andThen fun fr => run env rest fr := rfl

example (v : Word) : step env (.const v) ⟨s, l, st⟩ = .next ⟨s, l, v :: st⟩ := by rw [step]

/-- Running one piece after another. -/
theorem run_append (code : List (Instr ν φ)) (fr : Frame σ ν) :
    run env (code ++ rest) fr = (run env code fr).andThen fun fr => run env rest fr := by
  induction code generalizing fr with
  | nil => rfl
  | cons i code ih =>
    rw [List.cons_append, run_cons, run_cons, andThen_assoc]
    simp only [ih]

@[simp] theorem run_const (v : Word) :
    run env (.const v :: rest) ⟨s, l, st⟩ = run env rest ⟨s, l, v :: st⟩ := rfl

@[simp] theorem run_localGet (x : ν) :
    run env (.localGet x :: rest) ⟨s, l, st⟩ = run env rest ⟨s, l, l x :: st⟩ := rfl

@[simp] theorem run_localSet (x : ν) (v : Word) :
    run env (.localSet x :: rest) ⟨s, l, v :: st⟩ =
      run env rest ⟨s, Function.update l x v, st⟩ := rfl

@[simp] theorem run_localTee (x : ν) (v : Word) :
    run env (.localTee x :: rest) ⟨s, l, v :: st⟩ =
      run env rest ⟨s, Function.update l x v, v :: st⟩ := rfl

theorem run_op {o : Op} {st' : List Word} (h : o.apply st = some st') :
    run env (.op o :: rest) ⟨s, l, st⟩ = run env rest ⟨s, l, st'⟩ := by
  rw [run_cons, step, h]
  rfl

/-- An operator by evaluation. -/
theorem run_op_apply (o : Op) :
    run env (.op o :: rest) ⟨s, l, st⟩ =
      match o.apply st with
      | some st => run env rest ⟨s, l, st⟩
      | none => .trap := by
  rw [run_cons, step]
  cases o.apply st <;> rfl

theorem run_load {width offset : Nat} {a v : Word}
    (h : env.load s width (a.toNat + offset) = some v) :
    run env (.load width offset :: rest) ⟨s, l, a :: st⟩ = run env rest ⟨s, l, v :: st⟩ := by
  rw [run_cons, step, h]
  rfl

theorem run_store {width offset : Nat} {a v : Word} {s' : σ}
    (h : env.store s width (a.toNat + offset) v = some s') :
    run env (.store width offset :: rest) ⟨s, l, v :: a :: st⟩ = run env rest ⟨s', l, st⟩ := by
  rw [run_cons, step, h]
  rfl

/-- A call whose arguments are on top, the last of them first. -/
theorem run_call {f : φ} {args : List Word} {v : Option Word} {s' : σ}
    (hargs : args.length = env.arity f) (h : env.call f args.reverse s = some (v, s')) :
    run env (.call f :: rest) ⟨s, l, args ++ st⟩ = run env rest ⟨s', l, v.toList ++ st⟩ := by
  have htake : (args ++ st).take (env.arity f) = args := by
    rw [← hargs, List.take_left]
  have hdrop : (args ++ st).drop (env.arity f) = st := by
    rw [← hargs, List.drop_left]
  rw [run_cons, step, if_pos (by rw [List.length_append]; omega), htake, h, hdrop]
  rfl

@[simp] theorem run_ret (v : Word) :
    run env (.ret :: rest) ⟨s, l, v :: st⟩ = .ret v s := rfl

theorem run_ite (thn els : List (Instr ν φ)) (c : Word) :
    run env (.ite thn els :: rest) ⟨s, l, c :: st⟩ =
      (if c ≠ 0 then run env thn ⟨s, l, st⟩ else run env els ⟨s, l, st⟩).andThen
        fun fr => run env rest fr := rfl

theorem truth_decide (p : Prop) [Decidable p] : truth (decide p) = if p then 1 else 0 := by
  by_cases h : p <;> simp [truth, h]

theorem truth_not (b : Bool) : truth (decide (truth b = 0)) = truth (!b) := by
  cases b <;> rfl

theorem truth_or (b c : Bool) : truth b ||| truth c = truth (b || c) := by
  cases b <;> cases c <;> rfl

theorem truth_and (b c : Bool) : truth b &&& truth c = truth (b && c) := by
  cases b <;> cases c <;> rfl

@[simp] theorem truth_ne_zero (b : Bool) : truth b ≠ 0 ↔ b = true := by
  cases b <;> decide

/-- A conditional on a verdict. -/
@[simp] theorem run_ite_truth (thn els : List (Instr ν φ)) (b : Bool) :
    run env (.ite thn els :: rest) ⟨s, l, truth b :: st⟩ =
      (if b then run env thn ⟨s, l, st⟩ else run env els ⟨s, l, st⟩).andThen
        fun fr => run env rest fr := by
  rw [run_ite]
  simp only [truth_ne_zero]

end Run

/-! ## Expressions -/

section Pushes

variable {σ ν φ : Type*} [DecidableEq ν] {env : Env σ φ} {s : σ} {l : ν → Word}

/-- From this store and these locals the code leaves `v` on top of whatever was there. -/
def Pushes (env : Env σ φ) (s : σ) (l : ν → Word) (code : List (Instr ν φ)) (v : Word) : Prop :=
  ∀ st, run env code ⟨s, l, st⟩ = .next ⟨s, l, v :: st⟩

theorem Pushes.run {code : List (Instr ν φ)} {v : Word} (h : Pushes env s l code v)
    (rest : List (Instr ν φ)) (st : List Word) :
    StackCode.run env (code ++ rest) ⟨s, l, st⟩ = StackCode.run env rest ⟨s, l, v :: st⟩ := by
  rw [run_append, h st]
  rfl

theorem Pushes.congr {code : List (Instr ν φ)} {u v : Word} (h : Pushes env s l code u)
    (huv : u = v) : Pushes env s l code v := huv ▸ h

theorem pushes_const (v : Word) : Pushes env s l [.const v] v := fun _ => rfl

theorem pushes_localGet (x : ν) : Pushes env s l [.localGet x] (l x) := fun _ => rfl

theorem Pushes.load {code : List (Instr ν φ)} {a v : Word} {width offset : Nat}
    (ha : Pushes env s l code a) (h : env.load s width (a.toNat + offset) = some v) :
    Pushes env s l (code ++ [.load width offset]) v := by
  intro st
  rw [ha.run, run_load env s l st [] h]
  rfl

/-- A unary operator over an expression. -/
theorem Pushes.unary {code : List (Instr ν φ)} {a v : Word} {o : Op} (ha : Pushes env s l code a)
    (ho : ∀ st, o.apply (a :: st) = some (v :: st)) : Pushes env s l (code ++ [.op o]) v := by
  intro st
  rw [ha.run, run_op env s l _ [] (ho st)]
  rfl

/-- The negation of a verdict. -/
theorem Pushes.not {code : List (Instr ν φ)} {b : Bool} (hb : Pushes env s l code (truth b)) :
    Pushes env s l (code ++ [.op .eqz]) (truth !b) :=
  (hb.unary fun _ => rfl).congr (truth_not b)

/-- A binary operator over two expressions. -/
theorem Pushes.binary {first second : List (Instr ν φ)} {a b v : Word} {o : Op}
    (ha : Pushes env s l first a) (hb : Pushes env s l second b)
    (ho : ∀ st, o.apply (b :: a :: st) = some (v :: st)) :
    Pushes env s l (first ++ second ++ [.op o]) v := by
  intro st
  rw [List.append_assoc, ha.run, hb.run, run_op env s l _ [] (ho st)]
  rfl

theorem Pushes.or {first second : List (Instr ν φ)} {b c : Bool}
    (hb : Pushes env s l first (truth b)) (hc : Pushes env s l second (truth c)) :
    Pushes env s l (first ++ second ++ [.op .or]) (truth (b || c)) :=
  (hb.binary hc fun _ => rfl).congr (truth_or b c)

theorem Pushes.and {first second : List (Instr ν φ)} {b c : Bool}
    (hb : Pushes env s l first (truth b)) (hc : Pushes env s l second (truth c)) :
    Pushes env s l (first ++ second ++ [.op .and]) (truth (b && c)) :=
  (hb.binary hc fun _ => rfl).congr (truth_and b c)

end Pushes

end X86Port.Lib.StackCode
