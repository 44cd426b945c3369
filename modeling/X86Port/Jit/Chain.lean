import Mathlib.Logic.Function.Basic
import X86Port.Word

/-!
# Chain slots

`jit_chain.c`: the run header a call into translated code reads and steps, and the table of
slots its exits own. A host address is a value of the type `H`.
-/

namespace X86Port.Jit

/-- No guest address: a zero-extended EIP never equals it. -/
def chainUnlinked : U64 := 0xFFFFFFFFFFFFFFFF

/-- One exit site's inline cache. -/
structure ChainSlot (H : Type) where
  guest : U64
  host : H

/-- What one call into translated code may do, and what it did. -/
structure ChainRun where
  budget : U64
  stop : U32
  last : U32
  pending : U32
deriving DecidableEq

/-- An entry of the block cache's front array. -/
structure BlockFront (H : Type) where
  guest : U64
  host : H

/-- The address an exit compares. -/
def zeroExtend (eip : U32) : U64 := eip.setWidth 64

/-! ## The slot table -/

/-- The run header and the slots; the first `claimed` slots have owners. -/
structure Chain (H : Type) where
  run : ChainRun
  capacity : Nat
  claimed : Nat
  slots : Nat → ChainSlot H
  claimed_le : claimed ≤ capacity

section Table

variable {H : Type} [Zero H]

def ChainSlot.unlinked : ChainSlot H := ⟨chainUnlinked, 0⟩

/-- The table of `calloc`; `x86p_jit_chain_create` refuses no slots and too many. -/
def Chain.create (slots : Nat) : Chain H where
  run := ⟨0, 0, 0, 0⟩
  capacity := slots
  claimed := 0
  slots := fun _ => ⟨0, 0⟩
  claimed_le := Nat.zero_le _

/-- A fresh, unlinked slot, or none when every slot is claimed. -/
def Chain.claim (c : Chain H) : Option Nat × Chain H :=
  if h : c.claimed ≥ c.capacity then (none, c)
  else
    (some c.claimed, { c with
      slots := Function.update c.slots c.claimed ChainSlot.unlinked
      claimed := c.claimed + 1
      claimed_le := by omega })

def Chain.rewind (c : Chain H) (claimed : Nat) : Chain H :=
  if h : claimed < c.claimed then
    { c with claimed := claimed, claimed_le := by have := c.claimed_le; omega }
  else c

def Chain.link (c : Chain H) (slot : Nat) (guest : U32) (host : H) : Chain H :=
  { c with slots := Function.update c.slots slot ⟨zeroExtend guest, host⟩ }

def Chain.unlinkSlots (c : Chain H) (count : Nat) : Chain H :=
  { c with
    slots := fun i => if i < count then ChainSlot.unlinked else c.slots i
    run := { c.run with pending := 0 } }

/-- Every slot unlinked, still claimed. -/
def Chain.unlinkAll (c : Chain H) : Chain H := c.unlinkSlots c.claimed

/-- Every slot unlinked and returned. -/
def Chain.reset (c : Chain H) : Chain H :=
  { c.unlinkSlots c.claimed with claimed := 0, claimed_le := Nat.zero_le _ }

end Table

/-- Transfers the call just made, from what it left of `allowed`. -/
def chainedTransfers (run : ChainRun) (allowed : U64) : U64 :=
  allowed - run.budget - (if run.budget = 0 then 1 else 0)

end X86Port.Jit
