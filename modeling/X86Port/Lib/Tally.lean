import Mathlib.Algebra.BigOperators.Group.Finset.Basic
import Mathlib.Algebra.BigOperators.Group.Finset.Piecewise
import Mathlib.Data.Fintype.Basic

/-!
# Tables that change in one place

* `sum_write`: what a sum over a table gives up and takes when one entry is written.
* `card_write`: the same for the number of entries with a property.
* `swapOut_perm`: a list whose entry is replaced by the last one gives up just that entry.
-/

namespace X86Port.Lib

variable {ι β : Type*} [Fintype ι] [DecidableEq ι]

theorem sum_write {M : Type*} [AddCommMonoid M] (g : β → M) (f : ι → β) (i : ι) (b : β) :
    (∑ x, g (Function.update f i b x)) + g (f i) = (∑ x, g (f x)) + g b := by
  have hcomp : (fun x => g (Function.update f i b x)) =
      Function.update (fun x => g (f x)) i (g b) := by
    ext x
    by_cases hx : x = i
    · rw [hx, Function.update_self, Function.update_self]
    · rw [Function.update_of_ne hx, Function.update_of_ne hx]
  have hsplit := Finset.add_sum_erase Finset.univ (fun x => g (f x)) (Finset.mem_univ i)
  rw [hcomp, Finset.sum_update_of_mem (Finset.mem_univ i), ← hsplit, Finset.sdiff_singleton_eq_erase]
  rw [add_assoc, add_comm (g b), add_comm (∑ x ∈ Finset.univ.erase i, g (f x)) (g (f i))]

theorem card_write (p : β → Prop) [DecidablePred p] (f : ι → β) (i : ι) (b : β) :
    (Finset.univ.filter fun x => p (Function.update f i b x)).card + (if p (f i) then 1 else 0) =
      (Finset.univ.filter fun x => p (f x)).card + (if p b then 1 else 0) := by
  rw [Finset.card_filter, Finset.card_filter]
  exact sum_write (fun y => if p y then 1 else 0) f i b

/-- The entry at `i` replaced by the last one, which goes. -/
def swapOut {α : Type*} (l : List α) (i : Nat) (default : α) : List α :=
  (l.set i (l.getLastD default)).dropLast

theorem swapOut_perm {α : Type*} (before after : List α) (x default : α) :
    (swapOut (before ++ x :: after) before.length default).Perm (before ++ after) := by
  unfold swapOut
  rcases List.eq_nil_or_concat after with rfl | ⟨rest, z, rfl⟩
  · simp
  · have hset : ((before ++ x :: (rest ++ [z])).set before.length
        ((before ++ x :: (rest ++ [z])).getLastD default)).dropLast = before ++ z :: rest := by
      have hlast : (before ++ x :: (rest ++ [z])).getLastD default = z := by
        rw [← List.cons_append, ← List.append_assoc, List.getLastD_concat]
      rw [hlast, List.set_append_right _ _ (Nat.le_refl _), Nat.sub_self, List.set_cons_zero,
        ← List.cons_append, ← List.append_assoc, List.dropLast_concat]
    rw [List.concat_eq_append, hset]
    exact List.Perm.append_left before (List.perm_append_singleton z rest).symm

end X86Port.Lib
