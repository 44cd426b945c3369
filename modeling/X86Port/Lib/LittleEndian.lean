import Mathlib.Data.BitVec
import Mathlib.Tactic.SplitIfs

/-!
# Little-endian words in a memory

A memory has a byte at each address, and addresses wrap.

* `load_store`: a word that was stored is loaded again.
* `load_congr`: a load reads its own bytes only.
-/

namespace X86Port.Lib.LittleEndian

variable {a n : Nat}

/-- The word of `n` bytes from the address on. -/
def load (mem : BitVec a → BitVec 8) (addr : BitVec a) : (n : Nat) → BitVec (8 * n)
  | 0 => 0
  | n + 1 => load mem (addr + 1) n ++ mem addr

def store (mem : BitVec a → BitVec 8) (addr : BitVec a) (n : Nat) (v : BitVec (8 * n)) :
    BitVec a → BitVec 8 := fun p =>
  if (p - addr).toNat < n then v.extractLsb' (8 * (p - addr).toNat) 8 else mem p

variable {mem mem' : BitVec a → BitVec 8} {addr : BitVec a}

theorem eq_of_bytes {u v : BitVec (8 * n)}
    (h : ∀ i < n, u.extractLsb' (8 * i) 8 = v.extractLsb' (8 * i) 8) : u = v := by
  apply BitVec.eq_of_getLsbD_eq
  intro i hi
  have hbyte := congrArg (BitVec.getLsbD · (i % 8)) (h (i / 8) (by omega))
  simp only [BitVec.getLsbD_extractLsb'] at hbyte
  rw [show 8 * (i / 8) + i % 8 = i by omega] at hbyte
  simpa [show i % 8 < 8 by omega] using hbyte

theorem byte_load {i : Nat} (hi : i < n) :
    (load mem addr n).extractLsb' (8 * i) 8 = mem (addr + BitVec.ofNat a i) := by
  induction n generalizing addr i with
  | zero => omega
  | succ n ih =>
    have hload : load mem addr (n + 1) = load mem (addr + 1) n ++ mem addr := rfl
    cases i with
    | zero =>
      rw [hload, BitVec.add_zero]
      exact BitVec.extractLsb'_append_eq_right
    | succ i =>
      have hrest : (load mem (addr + 1) n ++ mem addr).extractLsb' (8 * (i + 1)) 8 =
          (load mem (addr + 1) n).extractLsb' (8 * i) 8 := by
        rw [BitVec.extractLsb'_append_eq_of_le (by omega)]
        congr 1
      rw [hload]
      refine hrest.trans ((ih (by omega)).trans (congrArg mem ?_))
      rw [Nat.add_comm i 1, BitVec.ofNat_add, BitVec.add_assoc]
      rfl

theorem load_congr (h : ∀ i < n, mem (addr + BitVec.ofNat a i) = mem' (addr + BitVec.ofNat a i)) :
    load mem addr n = load mem' addr n :=
  eq_of_bytes fun i hi => by rw [byte_load hi, byte_load hi, h i hi]

theorem load_store (hn : n ≤ 2 ^ a) (v : BitVec (8 * n)) :
    load (store mem addr n v) addr n = v := by
  refine eq_of_bytes fun i hi => ?_
  have hback : (addr + BitVec.ofNat a i - addr).toNat = i := by
    rw [BitVec.add_comm, BitVec.add_sub_cancel, BitVec.toNat_ofNat, Nat.mod_eq_of_lt (by omega)]
  rw [byte_load hi, store, hback, if_pos hi]

end X86Port.Lib.LittleEndian
