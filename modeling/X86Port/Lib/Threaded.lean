import Mathlib.Data.List.FinRange
import Mathlib.Logic.Function.Basic

/-!
# Free lists threaded through a table

A list of the indices of a table, linked by a number in each entry: one more than the index that
comes next, or 0 at the end.

* `Threaded.push`, `Threaded.pop`: the list grows and shrinks at its head.
* `threaded_fresh`: the list that visits a whole table in order.
-/

namespace X86Port.Lib

variable {n : Nat} {next : Fin n → Nat}

/-- The list that starts at `head` visits `l` and ends. -/
inductive Threaded (next : Fin n → Nat) : Nat → List (Fin n) → Prop where
  | nil : Threaded next 0 []
  | cons {i : Fin n} {l : List (Fin n)} (rest : Threaded next (next i) l) :
      Threaded next (i.val + 1) (i :: l)

theorem Threaded.congr {head : Nat} {l : List (Fin n)} (h : Threaded next head l)
    {next' : Fin n → Nat} (hsame : ∀ i ∈ l, next' i = next i) : Threaded next' head l := by
  induction h with
  | nil => exact .nil
  | @cons i l rest ih =>
    have hrest := ih fun j hj => hsame j (List.mem_cons_of_mem _ hj)
    rw [← hsame i List.mem_cons_self] at hrest
    exact .cons hrest

theorem Threaded.push {head : Nat} {l : List (Fin n)} (h : Threaded next head l) {i : Fin n}
    (hi : i ∉ l) {next' : Fin n → Nat} (hhead : next' i = head)
    (hsame : ∀ j, j ≠ i → next' j = next j) : Threaded next' (i.val + 1) (i :: l) := by
  refine .cons ?_
  rw [hhead]
  exact h.congr fun j hj => hsame j fun hji => hi (hji ▸ hj)

theorem Threaded.pop {head : Nat} {l : List (Fin n)} (h : Threaded next head l)
    (hhead : head ≠ 0) : ∃ i rest, l = i :: rest ∧ head = i.val + 1 ∧
      Threaded next (next i) rest := by
  cases h with
  | nil => exact absurd rfl hhead
  | @cons i rest h => exact ⟨i, rest, rfl, rfl, h⟩

/-- The entries of a fresh table, each before the one after it. -/
theorem threaded_fresh (n : Nat) :
    Threaded (fun i : Fin n => if i.val + 1 < n then i.val + 2 else 0) (if n = 0 then 0 else 1)
      (List.finRange n) := by
  have hsuffix : ∀ left k, k + left = n →
      Threaded (fun i : Fin n => if i.val + 1 < n then i.val + 2 else 0)
        (if k < n then k + 1 else 0) ((List.finRange n).drop k) := by
    intro left
    induction left with
    | zero =>
      intro k hk
      rw [if_neg (by omega), List.drop_eq_nil_of_le (by rw [List.length_finRange]; omega)]
      exact .nil
    | succ left ih =>
      intro k hk
      have hlt : k < n := by omega
      rw [if_pos hlt, List.drop_eq_getElem_cons (by rw [List.length_finRange]; exact hlt),
        List.getElem_finRange]
      have hrest := ih (k + 1) (by omega)
      exact Threaded.cons (i := ⟨k, hlt⟩) hrest
  have hall := hsuffix n 0 (Nat.zero_add n)
  by_cases hn : n = 0
  · rw [if_neg (by omega)] at hall
    rw [if_pos hn]
    exact hall
  · rw [if_pos (by omega)] at hall
    rw [if_neg hn]
    exact hall

end X86Port.Lib
