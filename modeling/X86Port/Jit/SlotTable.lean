import Mathlib.Data.List.Nodup
import X86Port.Lib.Probing
import X86Port.Word

/-!
# Tables of guest addresses

The open-addressed table under `jit_profile.c` and `jit_chain_census.c`: a power of two of slots,
of which one half is filled, and what comes later is dropped.

* `Slotted.search`, `Slotted.insert`: a search ends, and a new address is found from then on.
* `admitted_spec`: which addresses a table lets in.
-/

namespace X86Port.Jit

open Lib.Probing

/-- `PROF_EMPTY` and `CHAIN_EMPTY`, the mark of a free slot. -/
def emptySlot : U32 := 0xFFFFFFFF

def mix32 (x : U32) : U32 :=
  let x := x * 0x9E3779B9
  x ^^^ (x >>> 15)

/-- The loop of `round_up_pow2`. -/
def roundUpFrom (v : Nat) : Nat → Nat → Nat
  | 0, p => p
  | fuel + 1, p => if p < v ∧ p < 0x40000000 then roundUpFrom v fuel (2 * p) else p

def roundUpPow2 (v : Nat) : Nat := roundUpFrom v 31 1

/-- The slots of a table for that many addresses; doubling the hint may wrap. -/
def slotsFor (slotHint : U32) : Nat :=
  let slotHint := if slotHint < 64 then 64 else slotHint
  roundUpPow2 (slotHint * 2).toNat

/-- What a slot holds. -/
def slotKey (keys : Nat → U32) (i : Nat) : Option U32 :=
  if keys i = emptySlot then none else some (keys i)

def slotHome (mask : Nat) (k : U32) : Nat := (mix32 k).toNat &&& mask

def slotNext (mask i : Nat) : Nat := (i + 1) &&& mask

/-- The slot that the loop over the table stops at. -/
def searchSlot (keys : Nat → U32) (mask : Nat) (k : U32) : Option Nat :=
  probe (slotKey keys) (slotNext mask) k (mask + 1) (slotHome mask k)

section

variable {keys : Nat → U32} {mask i : Nat} {k : U32} {held : List U32}

theorem roundUpFrom_pow (v fuel b : Nat) : ∃ c, roundUpFrom v fuel (2 ^ b) = 2 ^ c := by
  induction fuel generalizing b with
  | zero => exact ⟨b, rfl⟩
  | succ fuel ih =>
    rw [roundUpFrom]
    split_ifs
    · rw [← Nat.pow_succ']
      exact ih (b + 1)
    · exact ⟨b, rfl⟩

/-- The loop has ended by itself when its rounds are over. -/
theorem roundUpFrom_ends (v fuel b : Nat) (h : 30 ≤ fuel + b) :
    ¬ (roundUpFrom v fuel (2 ^ b) < v ∧ roundUpFrom v fuel (2 ^ b) < 0x40000000) := by
  induction fuel generalizing b with
  | zero =>
    have : 2 ^ 30 ≤ 2 ^ b := Nat.pow_le_pow_right (by decide) (by omega)
    rw [roundUpFrom]
    omega
  | succ fuel ih =>
    rw [roundUpFrom]
    split_ifs with hmore
    · rw [← Nat.pow_succ']
      exact ih (b + 1) (by omega)
    · exact hmore

theorem slotsFor_pow (slotHint : U32) : ∃ b, slotsFor slotHint = 2 ^ b :=
  roundUpFrom_pow _ 31 0

theorem slotsFor_pos (slotHint : U32) : 0 < slotsFor slotHint := by
  obtain ⟨b, hb⟩ := slotsFor_pow slotHint
  rw [hb]
  exact Nat.two_pow_pos b

theorem slotKey_eq_some : slotKey keys i = some k ↔ keys i = k ∧ k ≠ emptySlot := by
  unfold slotKey
  split_ifs with h
  · simp only [false_iff, not_and, not_not]
    rintro rfl
    exact h
  · rw [Option.some_inj]
    exact ⟨fun heq => ⟨heq, heq ▸ h⟩, And.left⟩

theorem slotKey_eq_none : slotKey keys i = none ↔ keys i = emptySlot := by
  unfold slotKey
  split_ifs with h <;> simp [h]

theorem slotKey_update (hk : k ≠ emptySlot) :
    slotKey (Function.update keys i k) = Function.update (slotKey keys) i (some k) := by
  funext j
  by_cases hj : j = i
  · subst hj
    rw [Function.update_self, slotKey_eq_some, Function.update_self]
    exact ⟨rfl, hk⟩
  · unfold slotKey
    rw [Function.update_of_ne hj, Function.update_of_ne hj]

/-- A table that holds these addresses. -/
structure Slotted (keys : Nat → U32) (mask : Nat) (held : List U32) : Prop where
  size : ∃ b, mask + 1 = 2 ^ b
  holds : Holds (slotKey keys) (mask + 1) (slotHome mask) held

theorem slotted_empty (slotHint : U32) :
    Slotted (fun _ => emptySlot) (slotsFor slotHint - 1) [] := by
  refine ⟨?_, ?_⟩
  · rw [Nat.sub_add_cancel (slotsFor_pos slotHint)]
    exact slotsFor_pow slotHint
  · have hnone : slotKey (fun _ => emptySlot) = fun _ => none := funext fun _ => if_pos rfl
    rw [hnone]
    exact Holds.empty _ _

theorem Slotted.mod (h : Slotted keys mask held) (x : Nat) : x &&& mask = x % (mask + 1) := by
  obtain ⟨b, hb⟩ := h.size
  rw [hb, ← Nat.and_two_pow_sub_one_eq_mod, ← hb, Nat.add_sub_cancel]

theorem Slotted.next_eq (h : Slotted keys mask held) :
    ∀ i < mask + 1, slotNext mask i = (i + 1) % (mask + 1) := fun _ _ => h.mod _

theorem Slotted.home_lt (h : Slotted keys mask held) (k : U32) : slotHome mask k < mask + 1 := by
  unfold slotHome
  rw [h.mod]
  exact Nat.mod_lt _ (Nat.succ_pos _)

theorem Slotted.unique (h : Slotted keys mask held) {j : Nat} (hi : i < mask + 1)
    (hj : j < mask + 1) (hki : slotKey keys i = some k) (hkj : slotKey keys j = some k) : i = j :=
  h.holds.placed.unique h.next_eq h.home_lt hi hj hki hkj

theorem Slotted.search (h : Slotted keys mask held) (hroom : held.length < mask + 1) (k : U32) :
    ∃ i < mask + 1, searchSlot keys mask k = some i ∧
      (keys i = k ∧ k ∈ held ∨ keys i = emptySlot ∧ k ∉ held) := by
  obtain ⟨i, hi, hprobe, hend⟩ := h.holds.search h.next_eq h.home_lt hroom k
  refine ⟨i, hi, hprobe, hend.imp (And.imp_left fun hkey => ?_) (And.imp_left ?_)⟩
  · exact (slotKey_eq_some.mp hkey).1
  · exact slotKey_eq_none.mp

theorem Slotted.insert (h : Slotted keys mask held) (hi : i < mask + 1)
    (hsearch : searchSlot keys mask k = some i) (hfree : keys i = emptySlot)
    (hk : k ≠ emptySlot) : Slotted (Function.update keys i k) mask (held ++ [k]) := by
  refine ⟨h.size, ?_⟩
  rw [slotKey_update hk]
  exact h.holds.insert h.next_eq h.home_lt hi hsearch (slotKey_eq_none.mpr hfree)

end

/-! ## What a table lets in -/

/-- The addresses that are held: the first so many that are not the mark of a free slot. -/
def admitSlot (capacity : Nat) (held : List U32) (k : U32) : List U32 :=
  if k = emptySlot ∨ k ∈ held ∨ capacity ≤ held.length then held else held ++ [k]

def admitted (capacity : Nat) (asked : List U32) : List U32 := asked.foldl (admitSlot capacity) []

section

variable {capacity : Nat} {asked : List U32} {k : U32}

theorem admitted_snoc (capacity : Nat) (asked : List U32) (k : U32) :
    admitted capacity (asked ++ [k]) = admitSlot capacity (admitted capacity asked) k :=
  List.foldl_append

/-- An induction over the addresses that were asked for, with the one that came last. -/
theorem admitted_spec (capacity : Nat) (asked : List U32) :
    (admitted capacity asked).Nodup ∧
      (∀ k ∈ admitted capacity asked, k ≠ emptySlot ∧ k ∈ asked) ∧
      (admitted capacity asked).length ≤ capacity ∧
      ∀ k ∈ asked, k ≠ emptySlot → k ∉ admitted capacity asked →
        capacity ≤ (admitted capacity asked).length := by
  induction asked using List.reverseRecOn with
  | nil => exact ⟨List.nodup_nil, nofun, Nat.zero_le _, nofun⟩
  | append_singleton asked e ih =>
    obtain ⟨hnodup, hmem, hle, hfull⟩ := ih
    rw [admitted_snoc]
    unfold admitSlot
    split_ifs with h
    · refine ⟨hnodup, fun x hx => (hmem x hx).imp_right (List.mem_append_left _), hle,
        fun x hx hne hnot => ?_⟩
      rcases List.mem_append.mp hx with hx | hx
      · exact hfull x hx hne hnot
      · rw [List.mem_singleton.mp hx] at hne hnot
        exact (h.resolve_left hne).resolve_left hnot
    · simp only [not_or, not_le] at h
      refine ⟨?_, fun x hx => ?_, ?_, fun x hx hne hnot => ?_⟩
      · rw [← List.concat_eq_append]
        exact hnodup.concat h.2.1
      · rcases List.mem_append.mp hx with hx | hx
        · exact (hmem x hx).imp_right (List.mem_append_left _)
        · rw [List.mem_singleton.mp hx]
          exact ⟨h.1, List.mem_append_right _ (List.mem_singleton_self e)⟩
      · rw [List.length_append]
        exact h.2.2
      · rcases List.mem_append.mp hx with hx | hx
        · have := hfull x hx hne fun hin => hnot (List.mem_append_left _ hin)
          omega
        · exact absurd (List.mem_append_right _ hx) hnot

/-- An address that is let in now was never asked for before. -/
theorem new_of_room (hne : k ≠ emptySlot) (hnot : k ∉ admitted capacity asked)
    (hroom : (admitted capacity asked).length < capacity) : k ∉ asked := fun hin => by
  have := (admitted_spec capacity asked).2.2.2 k hin hne hnot
  omega

theorem admit_of_held (h : k = emptySlot ∨ k ∈ admitted capacity asked ∨
    capacity ≤ (admitted capacity asked).length) :
    admitted capacity (asked ++ [k]) = admitted capacity asked := by
  rw [admitted_snoc]
  exact if_pos h

theorem admit_of_new (hne : k ≠ emptySlot) (hnot : k ∉ admitted capacity asked)
    (hroom : (admitted capacity asked).length < capacity) :
    admitted capacity (asked ++ [k]) = admitted capacity asked ++ [k] := by
  rw [admitted_snoc]
  exact if_neg (by simp only [not_or, not_le]; exact ⟨hne, hnot, hroom⟩)

end

end X86Port.Jit
