import Mathlib.Data.List.Basic
import Mathlib.Tactic.SplitIfs

/-!
# Readers of a binary format

A reader takes the first symbols of a word and leaves the others. That it reads a given encoding
is said for every continuation, so readings compose as encodings are appended.

* `Reads.bind`, `Reads.parse_bind`: one reading after another.
* `reads_within`: a part of known length, read to its end.
* `reads_times`: a counted sequence.
* `Reads.parse`: a whole word.
-/

namespace X86Port.Lib

variable {β α γ : Type}

abbrev Reader (β α : Type) := StateT (List β) Option α

/-- The reader takes exactly this word, whatever follows it. -/
def Reads (p : Reader β α) (word : List β) (a : α) : Prop :=
  ∀ rest, p.run (word ++ rest) = some (a, rest)

/-- A word that is read to its end. -/
def parse (p : Reader β α) (word : List β) : Option α :=
  match p.run word with
  | some (a, []) => some a
  | _ => none

namespace Reader

def item : Reader β β
  | [] => none
  | b :: rest => some (b, rest)

def expect [DecidableEq β] (word : List β) : Reader β Unit := fun bs =>
  if word <+: bs then some ((), bs.drop word.length) else none

def take (n : Nat) : Reader β (List β) := fun bs =>
  if n ≤ bs.length then some (bs.take n, bs.drop n) else none

/-- The next `n` symbols, all of them for one reader. -/
def within (n : Nat) (p : Reader β α) : Reader β α := fun bs =>
  if n ≤ bs.length then (parse p (bs.take n)).map fun a => (a, bs.drop n) else none

def times (p : Reader β α) : Nat → Reader β (List α)
  | 0 => pure []
  | n + 1 => do
    let a ← p
    let as ← times p n
    pure (a :: as)

end Reader

open Reader

theorem reads_pure (a : α) : Reads (pure a : Reader β α) [] a := fun _ => rfl

theorem Reads.bind {p : Reader β α} {f : α → Reader β γ} {xs ys : List β} {a : α} {c : γ}
    (hp : Reads p xs a) (hf : Reads (f a) ys c) : Reads (p >>= f) (xs ++ ys) c := by
  intro rest
  rw [StateT.run_bind, List.append_assoc, hp]
  exact hf rest

/-- What is made of a reading, when it takes nothing more. -/
theorem Reads.last {p : Reader β α} {f : α → Reader β γ} {xs : List β} {a : α} {c : γ}
    (hp : Reads p xs a) (hf : Reads (f a) [] c) : Reads (p >>= f) xs c := by
  have hboth := hp.bind hf
  rwa [List.append_nil] at hboth

theorem reads_lift {o : Option α} {a : α} (h : o = some a) :
    Reads (StateT.lift o : Reader β α) [] a := by
  subst h
  exact fun _ => rfl

theorem Reads.map {p : Reader β α} {xs : List β} {a : α} (f : α → γ) (hp : Reads p xs a) :
    Reads (f <$> p) xs (f a) := by
  intro rest
  rw [StateT.run_map, hp]
  rfl

theorem Reads.parse {p : Reader β α} {word : List β} {a : α} (h : Reads p word a) :
    parse p word = some a := by
  have := h []
  rw [List.append_nil] at this
  rw [Lib.parse, this]

theorem reads_item (b : β) : Reads item [b] b := fun _ => rfl

theorem reads_expect [DecidableEq β] (word : List β) : Reads (expect word) word () := by
  intro rest
  change (if word <+: word ++ rest then _ else _) = _
  rw [if_pos ⟨rest, rfl⟩, List.drop_left]

theorem reads_take (word : List β) : Reads (take word.length) word word := by
  intro rest
  change (if word.length ≤ (word ++ rest).length then _ else _) = _
  rw [if_pos (by simp), List.take_left, List.drop_left]

theorem reads_within {p : Reader β α} {word : List β} {a : α} (h : Lib.parse p word = some a) :
    Reads (within word.length p) word a := by
  intro rest
  change (if word.length ≤ (word ++ rest).length then _ else _) = _
  rw [if_pos (by simp), List.take_left, List.drop_left, h, Option.map_some]

/-- A reading, and then what is left of the word. -/
theorem Reads.parse_bind {p : Reader β α} {xs : List β} {a : α} (hp : Reads p xs a)
    (f : α → Reader β γ) (ys : List β) :
    Lib.parse (p >>= f) (xs ++ ys) = Lib.parse (f a) ys := by
  unfold Lib.parse
  rw [StateT.run_bind, hp]
  rfl

/-- A sequence whose elements are each read from their own encoding. -/
theorem reads_times {ι : Type} {p : Reader β α} {encode : ι → List β} {value : ι → α}
    (l : List ι) (h : ∀ i ∈ l, Reads p (encode i) (value i)) :
    Reads (times p l.length) (l.flatMap encode) (l.map value) := by
  induction l with
  | nil => exact reads_pure []
  | cons i l ih =>
    have hl := ih fun j hj => h j (List.mem_cons_of_mem i hj)
    rw [List.flatMap_cons, List.map_cons]
    refine (h i List.mem_cons_self).bind ?_
    exact hl.map (value i :: ·)

end X86Port.Lib
