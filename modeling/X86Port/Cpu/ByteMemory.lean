import X86Port.Cpu.GuestMemory
import X86Port.Memory.WriteAtomic

/-!
# A memory made of bytes

What an access of the interpreter says about single bytes of guest memory, whatever lies behind
them.

* `ByteMemory`: a read gives the bytes of its range, and a write replaces them and no others.
* `byteMemory`: `memory.c` is one, in both modes, where no two guest bytes share a host byte.
-/

namespace X86Port.Cpu

open Lib Lib.Places
open Memory (Mem Host memRead memWrite valueOf bytesOf)

variable {μ : Type}

/-- Byte `i` of a value. -/
def byteOfValue (v : U32) (i : Nat) : U8 := (v >>> (8 * i)).setWidth 8

theorem getLsbD_byteOfValue (v : U32) (i : Nat) {j : Nat} (hj : j < 8) :
    (byteOfValue v i).getLsbD j = v.getLsbD (8 * i + j) := by
  rw [byteOfValue, BitVec.getLsbD_setWidth, BitVec.getLsbD_ushiftRight, decide_eq_true hj,
    Bool.true_and]

/-- A read gives the bytes of its range, the lowest first, and a write replaces them. -/
structure ByteMemory (g : GuestMem μ) where
  byte : μ → U32 → U8
  read_byte : ∀ {m : μ} {a : U32} {n : Nat} {v : U32}, g.read m a n = some v →
    ∀ i < n, byteOfValue v i = byte m (a + BitVec.ofNat 32 i)
  write_byte : ∀ {m : μ} {a : U32} {n : Nat} {v : U32} {m' : μ}, g.write m a n v = some m' →
    ∀ b, byte m' b = if (b - a).toNat < n then byteOfValue v (b - a).toNat else byte m b

/-! ## The memory of the interpreter -/

/-- The host byte behind a guest byte; an unmapped one is zero. -/
def guestByte (m : Mem) (h : Host) (b : U32) : U8 :=
  ((m.place 0 b.toNat).map h.bytes).getD 0

theorem getElem_bytesOf (n : Nat) (v : U32) {i : Nat} (hi : i < (bytesOf n v).length) :
    (bytesOf n v)[i] = byteOfValue v i := by
  induction n generalizing v i with
  | zero => exact absurd hi (by simp [bytesOf])
  | succ n ih =>
    cases i with
    | zero =>
      rw [byteOfValue, Nat.mul_zero, BitVec.ushiftRight_zero]
      rfl
    | succ i =>
      refine (ih (v >>> 8) _).trans ?_
      rw [byteOfValue, byteOfValue, ← BitVec.shiftRight_add, Nat.mul_succ, Nat.add_comm]

theorem byteOfValue_valueOf {bytes : List U8} (hlen : bytes.length ≤ 4) {i : Nat}
    (hi : i < bytes.length) : byteOfValue (valueOf bytes) i = bytes[i] := by
  have hbytes := Memory.bytesOf_valueOf hlen
  rw [← getElem_bytesOf bytes.length _ (by rw [hbytes]; exact hi)]
  simp only [hbytes]

section Guest

variable {m : Mem} {h : Host} {a b : U32} {access : U32}

theorem guestByte_place {x : Nat} (hx : m.place access b.toNat = some x) :
    guestByte m h b = h.bytes x := by
  rw [guestByte, Memory.place_zero hx]
  rfl

theorem toNat_add_placed (hm : m.WellFormed) {n i : Nat} (hn : n ≤ 4)
    (hp : Placed (m.place access) a.toNat n) (hi : i < n) :
    (a + BitVec.ofNat 32 i).toNat = a.toNat + i := by
  have hend := Memory.Placed.end_le hm hp (by omega)
  bv_omega

theorem put_inside (hapart : Unaliased (m.place 0)) {input : List U8}
    (hp : Placed (m.place memWrite) a.toNat input.length) {i : Nat} (hi : i < input.length)
    (hb : b.toNat = a.toNat + i) : guestByte m (Host.put m h a input) b = input[i] := by
  have hunaliased : Unaliased (m.place memWrite) := fun c d x hc hd =>
    hapart (Memory.place_zero hc) (Memory.place_zero hd)
  obtain ⟨x, hx⟩ := Option.ne_none_iff_exists'.mp (hp i hi)
  have hcell : cell (m.place memWrite) (a.toNat + i) = x := by
    rw [cell, hx, Option.getD_some]
  rw [← hb] at hx
  rw [guestByte_place hx, ← hcell]
  exact scatter_apply (hunaliased.distinct hp) hi

theorem put_outside (hapart : Unaliased (m.place 0)) {input : List U8}
    (hp : Placed (m.place memWrite) a.toNat input.length)
    (hb : ∀ i < input.length, b.toNat ≠ a.toNat + i) :
    guestByte m (Host.put m h a input) b = guestByte m h b := by
  unfold guestByte
  cases hx : m.place 0 b.toNat with
  | none => rfl
  | some x =>
    refine scatter_frame fun i hi heq => ?_
    obtain ⟨y, hy⟩ := Option.ne_none_iff_exists'.mp (hp i hi)
    rw [cell, hy, Option.getD_some] at heq
    subst heq
    exact hb i hi (hapart hx (Memory.place_zero hy))

end Guest

/-- The memory of the interpreter, contiguous or sparse, is made of bytes where its guest bytes
are apart on the host. -/
def byteMemory (m : Mem) (hm : m.WellFormed) (hapart : Unaliased (m.place 0)) :
    ByteMemory (guestMem m) where
  byte := guestByte m
  read_byte := by
    intro h a n v hrun i hi
    obtain ⟨w, hw, hread⟩ := Option.bind_eq_some_iff.mp hrun
    obtain rfl := bytes_of_ofBytes hw
    rw [Memory.read_placed hm, Option.join_some] at hread
    split_ifs at hread with hplaced
    obtain rfl := Option.some.inj hread
    have hle := (Memory.bytes_ne_zero w).2
    obtain ⟨x, hx⟩ := Option.ne_none_iff_exists'.mp (hplaced i hi)
    have hcell : cell (m.place memRead) (a.toNat + i) = x := by
      rw [cell, hx, Option.getD_some]
    rw [← toNat_add_placed hm hle hplaced hi] at hx
    rw [byteOfValue_valueOf (by simpa using hle) (by simpa using hi), getElem_gather, hcell,
      guestByte_place hx]
  write_byte := by
    intro h a n v h' hrun b
    obtain ⟨w, hw, hwrite⟩ := Option.bind_eq_some_iff.mp hrun
    obtain rfl := bytes_of_ofBytes hw
    rw [Memory.write_placed hm, Option.join_some] at hwrite
    split_ifs at hwrite with hplaced
    obtain rfl := Option.some.inj hwrite
    obtain ⟨hpos, hle⟩ := Memory.bytes_ne_zero w
    have hlen := Memory.length_bytesOf w.bytes v
    have hend := Memory.Placed.end_le hm hplaced hpos
    rw [← hlen] at hplaced
    split_ifs with hin
    · rw [put_inside hapart hplaced (by rw [hlen]; exact hin) (by bv_omega), getElem_bytesOf]
    · exact put_outside hapart hplaced fun i hi => by bv_omega

/-- A contiguous window is made of bytes. -/
def windowMemory (m : Mem) (hs : m.sparse = none) : ByteMemory (guestMem m) :=
  byteMemory m (Memory.wellFormed_window hs) (Memory.unaliased_window hs)

end X86Port.Cpu
