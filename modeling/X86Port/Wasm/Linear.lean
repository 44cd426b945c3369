import X86Port.Cpu.FlagBits
import X86Port.Lib.StackCode
import X86Port.Memory.Places

/-!
# Linear memory

What an emitted body loads from and stores to. A byte a body must not touch is absent, so a
run that does not trap touches only the bytes that are there.

* `load_word`: a load of bytes that spell a word is that word cut to the width.
* `store_eq`: a store replaces the bytes it names and no others.
-/

namespace X86Port.Wasm

open Memory (valueOf bytesOf length_bytesOf valueOf_bytesOf getLsbD_valueOf_bytesOf)

abbrev LinearMem := Nat → Option U8

/-- Byte `k` of a word, from the low end. -/
def byteOf (v : U32) (k : Nat) : U8 := (v >>> (8 * k)).setWidth 8

namespace LinearMem

def bytes (m : LinearMem) : Nat → Nat → Option (List U8)
  | _, 0 => some []
  | a, n + 1 => (m a).bind fun b => (bytes m (a + 1) n).map fun bs => b :: bs

/-- The zero-extending loads. -/
def load (m : LinearMem) (width a : Nat) : Option U32 := (m.bytes a width).map valueOf

/-- The stores, which truncate. -/
def store (m : LinearMem) (width a : Nat) (v : U32) : Option LinearMem :=
  if ∀ i < width, (m (a + i)).isSome then
    some fun x => if a ≤ x ∧ x < a + width then some (byteOf v (x - a)) else m x
  else
    none

end LinearMem

/-! ## Bytes of a word -/

theorem byteOf_zero (v : U32) : byteOf v 0 = v.setWidth 8 := by
  simp [byteOf]

theorem byteOf_shift (v : U32) (k : Nat) : byteOf (v >>> 8) k = byteOf v (k + 1) := by
  unfold byteOf
  rw [← BitVec.shiftRight_add, Nat.mul_add, Nat.add_comm]

theorem getLsbD_byteOf (v : U32) (k i : Nat) :
    (byteOf v k).getLsbD i = (decide (i < 8) && v.getLsbD (8 * k + i)) := by
  rw [byteOf, BitVec.getLsbD_setWidth, BitVec.getLsbD_ushiftRight]

theorem valueOf_bytesOf_eq_and (v : U32) (w : Cpu.Width) :
    valueOf (bytesOf w.bytes v) = v &&& Cpu.widthMask w := by
  refine BitVec.eq_of_getLsbD_eq fun i hi => ?_
  rw [getLsbD_valueOf_bytesOf _ _ hi, Cpu.getLsbD_and_widthMask, Bool.and_comm, Cpu.Width.bits,
    Nat.mul_comm]

/-! ## Loads -/

section

variable {m : LinearMem}

theorem bytes_eq {f : Nat → U8} {a n : Nat} (h : ∀ i < n, m (a + i) = some (f (a + i))) :
    m.bytes a n = some (Lib.Bytes.load f a n) := by
  induction n generalizing a with
  | zero => rfl
  | succ n ih =>
    have hhead := h 0 (by omega)
    have htail : ∀ i < n, m (a + 1 + i) = some (f (a + 1 + i)) := by
      intro i hi
      have := h (i + 1) (by omega)
      rwa [show a + (i + 1) = a + 1 + i by omega] at this
    rw [LinearMem.bytes, ← Nat.add_zero a, hhead, Nat.add_zero, ih htail]
    unfold Lib.Bytes.load
    rw [List.range_succ_eq_map, List.map_cons, List.map_map]
    refine congrArg some (congrArg _ (List.map_congr_left fun i _ => ?_))
    exact congrArg f (by simp only [Nat.succ_eq_add_one]; omega)

theorem bytes_word {v : U32} {a n : Nat} (h : ∀ i < n, m (a + i) = some (byteOf v i)) :
    m.bytes a n = some (bytesOf n v) := by
  induction n generalizing a v with
  | zero => rfl
  | succ n ih =>
    have hhead := h 0 (by omega)
    have htail : ∀ i < n, m (a + 1 + i) = some (byteOf (v >>> 8) i) := by
      intro i hi
      rw [byteOf_shift, ← h (i + 1) (by omega), Nat.add_right_comm, Nat.add_assoc]
    rw [LinearMem.bytes, ← Nat.add_zero a, hhead, Nat.add_zero, ih htail, byteOf_zero]
    rfl

/-- A load at an operand width of bytes that spell a word. -/
theorem load_word {v : U32} {a : Nat} (w : Cpu.Width)
    (h : ∀ i < w.bytes, m (a + i) = some (byteOf v i)) :
    m.load w.bytes a = some (v &&& Cpu.widthMask w) := by
  rw [LinearMem.load, bytes_word h, Option.map_some, valueOf_bytesOf_eq_and]

theorem load_dword {v : U32} {a : Nat} (h : ∀ i < 4, m (a + i) = some (byteOf v i)) :
    m.load 4 a = some v := by
  rw [LinearMem.load, bytes_word h, Option.map_some, valueOf_bytesOf]

theorem load_byte {b : U8} {a : Nat} (h : m a = some b) : m.load 1 a = some (b.setWidth 32) := by
  simp [LinearMem.load, LinearMem.bytes, h, valueOf]

theorem store_eq {a n : Nat} (v : U32) (h : ∀ i < n, m (a + i) ≠ none) :
    m.store n a v =
      some fun x => if a ≤ x ∧ x < a + n then some (byteOf v (x - a)) else m x := by
  rw [LinearMem.store, if_pos fun i hi => Option.isSome_iff_ne_none.mpr (h i hi)]

end

end X86Port.Wasm
