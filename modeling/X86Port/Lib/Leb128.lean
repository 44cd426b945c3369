import Mathlib.Data.BitVec
import Mathlib.Tactic.SplitIfs

/-!
# LEB128

Numbers as bytes of seven bits, lowest first, every byte but the last with its top bit set.
The readers are the productions of the format for numbers of `N` bits.

* `readU_uleb`, `readS_sleb`: a number that fits is read back, with what follows left alone.
* `uleb_minimal`, `sleb_minimal`: nothing shorter reads as the same number.
* `readU_padded`: a number padded to a fixed width is read back too.
-/

namespace X86Port.Lib.Leb128

/-! ## The readers -/

/-- An unsigned number of at most `N` bits. -/
def readU : Nat → List (BitVec 8) → Option (Nat × List (BitVec 8))
  | _, [] => none
  | N, b :: rest =>
    if b.toNat < 128 then
      if b.toNat < 2 ^ N then some (b.toNat, rest) else none
    else if 7 < N then
      (readU (N - 7) rest).map fun (m, rest) => (128 * m + (b.toNat - 128), rest)
    else none

/-- A signed number of at most `N` bits. -/
def readS : Nat → List (BitVec 8) → Option (Int × List (BitVec 8))
  | _, [] => none
  | N, b :: rest =>
    if b.toNat < 64 then
      if b.toNat < 2 ^ (N - 1) then some (b.toNat, rest) else none
    else if b.toNat < 128 then
      if 128 ≤ b.toNat + 2 ^ (N - 1) then some ((b.toNat : Int) - 128, rest) else none
    else if 7 < N then
      (readS (N - 7) rest).map fun (m, rest) => (128 * m + ((b.toNat : Int) - 128), rest)
    else none

/-! ## The encodings -/

def uleb (v : Nat) : List (BitVec 8) :=
  if v < 128 then [BitVec.ofNat 8 v]
  else BitVec.ofNat 8 (v % 128 + 128) :: uleb (v / 128)
termination_by v

def sleb (v : Int) : List (BitVec 8) :=
  if -64 ≤ v ∧ v < 64 then [BitVec.ofNat 8 (v % 128).toNat]
  else BitVec.ofNat 8 ((v % 128).toNat + 128) :: sleb (v / 128)
termination_by v.natAbs

theorem uleb_last {v : Nat} (h : v < 128) : uleb v = [BitVec.ofNat 8 v] := by
  rw [uleb, if_pos h]

theorem uleb_more {v : Nat} (h : ¬ v < 128) :
    uleb v = BitVec.ofNat 8 (v % 128 + 128) :: uleb (v / 128) := by
  rw [uleb, if_neg h]

theorem sleb_last {v : Int} (h : -64 ≤ v ∧ v < 64) :
    sleb v = [BitVec.ofNat 8 (v % 128).toNat] := by
  rw [sleb, if_pos h]

theorem sleb_more {v : Int} (h : ¬ (-64 ≤ v ∧ v < 64)) :
    sleb v = BitVec.ofNat 8 ((v % 128).toNat + 128) :: sleb (v / 128) := by
  rw [sleb, if_neg h]

/-- A number in `k + 1` bytes, however small it is. -/
def padded : Nat → Nat → List (BitVec 8)
  | 0, v => [BitVec.ofNat 8 (v % 128)]
  | k + 1, v => BitVec.ofNat 8 (v % 128 + 128) :: padded k (v / 128)

@[simp] theorem length_padded (k v : Nat) : (padded k v).length = k + 1 := by
  induction k generalizing v with
  | zero => rfl
  | succ k ih => simp [padded, ih]

theorem toNat_low (v : Nat) : (BitVec.ofNat 8 (v % 128)).toNat = v % 128 := by
  rw [BitVec.toNat_ofNat]
  omega

theorem toNat_more (v : Nat) : (BitVec.ofNat 8 (v % 128 + 128)).toNat = v % 128 + 128 := by
  rw [BitVec.toNat_ofNat]
  omega

/-! ## Unsigned -/

section

variable {N k v : Nat} {b : BitVec 8} {bs rest : List (BitVec 8)}

theorem readU_last (hb : b.toNat = v) (h : v < 128) (hv : v < 2 ^ N) :
    readU N (b :: rest) = some (v, rest) := by
  rw [readU, hb, if_pos h, if_pos hv]

theorem readU_more (hb : b.toNat = v % 128 + 128) (hN : 7 < N)
    (h : readU (N - 7) bs = some (v / 128, rest)) : readU N (b :: bs) = some (v, rest) := by
  have hv : 128 * (v / 128) + (v % 128 + 128 - 128) = v := by omega
  rw [readU, if_neg (by omega), if_pos hN, h, Option.map_some, hb]
  exact congrArg (fun v => some (v, rest)) hv

/-- More than one byte is needed only by a number of more than seven bits. -/
theorem seven_lt (hv : v < 2 ^ N) (h : ¬ v < 128) : 7 < N := by
  by_contra hN
  have : 2 ^ N ≤ 2 ^ 7 := Nat.pow_le_pow_right (by decide) (by omega)
  omega

theorem div_lt_two_pow (hv : v < 2 ^ N) (hN : 7 ≤ N) : v / 128 < 2 ^ (N - 7) := by
  have : 2 ^ N = 128 * 2 ^ (N - 7) := by
    rw [show 128 = 2 ^ 7 from rfl, ← Nat.pow_add, Nat.add_sub_of_le hN]
  omega

theorem readU_uleb (hv : v < 2 ^ N) : readU N (uleb v ++ rest) = some (v, rest) := by
  induction v using uleb.induct generalizing N with
  | case1 v h =>
    rw [uleb_last h]
    refine readU_last ?_ h hv
    rw [BitVec.toNat_ofNat]
    omega
  | case2 v h ih =>
    rw [uleb_more h]
    have hN := seven_lt hv h
    exact readU_more (toNat_more v) hN (ih (div_lt_two_pow hv hN.le))

theorem readU_padded (hv : v < 2 ^ N) (hk : v < 128 ^ (k + 1)) (hN : 7 * k < N) :
    readU N (padded k v ++ rest) = some (v, rest) := by
  induction k generalizing N v with
  | zero =>
    have h : v < 128 := by simpa using hk
    exact readU_last (by rw [toNat_low]; omega) h hv
  | succ k ih =>
    refine readU_more (toNat_more v) (by omega) (ih (div_lt_two_pow hv (by omega)) ?_ (by omega))
    rw [Nat.pow_succ] at hk
    omega

theorem length_uleb_le (v : Nat) : (uleb v).length ≤ 1 + (uleb (v / 128)).length := by
  rw [uleb]
  split_ifs
  · simp
  · rw [List.length_cons, Nat.add_comm]

theorem uleb_minimal (h : readU N bs = some (v, rest)) :
    (uleb v).length + rest.length ≤ bs.length := by
  induction bs generalizing N v with
  | nil => simp [readU] at h
  | cons b bs ih =>
    rw [readU] at h
    split_ifs at h with hb hN hN
    · cases h
      rw [uleb_last hb, List.length_cons, List.length_cons, List.length_nil]
      omega
    · obtain ⟨⟨m, _⟩, hm, hmap⟩ := Option.map_eq_some_iff.1 h
      obtain ⟨rfl, rfl⟩ := Prod.mk.inj hmap
      have hlen := length_uleb_le (128 * m + (b.toNat - 128))
      have hdiv : (128 * m + (b.toNat - 128)) / 128 = m := by
        have := b.isLt
        omega
      rw [hdiv] at hlen
      have := ih hm
      rw [List.length_cons]
      omega

end

/-! ## Signed -/

section

variable {N : Nat} {v : Int} {b : BitVec 8} {bs rest : List (BitVec 8)}

theorem toNat_signedLow (v : Int) : (BitVec.ofNat 8 (v % 128).toNat).toNat = (v % 128).toNat := by
  rw [BitVec.toNat_ofNat]
  omega

theorem toNat_signedMore (v : Int) :
    (BitVec.ofNat 8 ((v % 128).toNat + 128)).toNat = (v % 128).toNat + 128 := by
  rw [BitVec.toNat_ofNat]
  omega

theorem readS_last (hb : b.toNat = (v % 128).toNat) (h : -64 ≤ v ∧ v < 64)
    (hv : -2 ^ (N - 1) ≤ v ∧ v < 2 ^ (N - 1)) : readS N (b :: rest) = some (v, rest) := by
  have hcast : ((2 ^ (N - 1) : Nat) : Int) = 2 ^ (N - 1) := by push_cast; rfl
  rw [readS, hb]
  by_cases hneg : v < 0
  · have hval : ((v % 128).toNat : Int) - 128 = v := by omega
    rw [if_neg (by omega), if_pos (by omega), if_pos (by omega), hval]
  · have hval : ((v % 128).toNat : Int) = v := by omega
    rw [if_pos (by omega), if_pos (by omega), hval]

theorem readS_more (hb : b.toNat = (v % 128).toNat + 128) (hN : 7 < N)
    (h : readS (N - 7) bs = some (v / 128, rest)) : readS N (b :: bs) = some (v, rest) := by
  have hv : 128 * (v / 128) + (((v % 128).toNat + 128 : Nat) - 128 : Int) = v := by omega
  rw [readS, if_neg (by omega), if_neg (by omega), if_pos hN, h, Option.map_some, hb]
  exact congrArg (fun v => some (v, rest)) hv

theorem seven_lt_signed (hv : -2 ^ (N - 1) ≤ v ∧ v < 2 ^ (N - 1)) (h : ¬ (-64 ≤ v ∧ v < 64)) :
    7 < N := by
  by_contra hN
  have hle : 2 ^ (N - 1) ≤ 2 ^ 6 := Nat.pow_le_pow_right (by decide) (by omega)
  have : (2 : Int) ^ (N - 1) ≤ 2 ^ 6 := by exact_mod_cast hle
  omega

theorem div_signed_lt (hv : -2 ^ (N - 1) ≤ v ∧ v < 2 ^ (N - 1)) (hN : 7 < N) :
    -2 ^ (N - 7 - 1) ≤ v / 128 ∧ v / 128 < 2 ^ (N - 7 - 1) := by
  have hsplit : 2 ^ (N - 1) = 128 * 2 ^ (N - 7 - 1) := by
    rw [show 128 = 2 ^ 7 from rfl, ← Nat.pow_add]
    congr 1
    omega
  have : (2 : Int) ^ (N - 1) = 128 * 2 ^ (N - 7 - 1) := by exact_mod_cast hsplit
  omega

theorem readS_sleb (hv : -2 ^ (N - 1) ≤ v ∧ v < 2 ^ (N - 1)) :
    readS N (sleb v ++ rest) = some (v, rest) := by
  induction v using sleb.induct generalizing N with
  | case1 v h =>
    rw [sleb_last h]
    exact readS_last (toNat_signedLow v) h hv
  | case2 v h ih =>
    rw [sleb_more h]
    have hN := seven_lt_signed hv h
    exact readS_more (toNat_signedMore v) hN (ih (div_signed_lt hv hN))

theorem length_sleb_le (v : Int) : (sleb v).length ≤ 1 + (sleb (v / 128)).length := by
  rw [sleb]
  split_ifs
  · simp
  · rw [List.length_cons, Nat.add_comm]

theorem length_sleb_short (h : -64 ≤ v ∧ v < 64) : (sleb v).length = 1 := by
  rw [sleb_last h, List.length_singleton]

theorem sleb_minimal (h : readS N bs = some (v, rest)) :
    (sleb v).length + rest.length ≤ bs.length := by
  induction bs generalizing N v with
  | nil => simp [readS] at h
  | cons b bs ih =>
    rw [readS] at h
    split_ifs at h with hb hN hb' hN hN
    · cases h
      rw [length_sleb_short (by omega), List.length_cons]
      omega
    · cases h
      rw [length_sleb_short (by omega), List.length_cons]
      omega
    · obtain ⟨⟨m, _⟩, hm, hmap⟩ := Option.map_eq_some_iff.1 h
      obtain ⟨rfl, rfl⟩ := Prod.mk.inj hmap
      have hlen := length_sleb_le (128 * m + ((b.toNat : Int) - 128))
      have hdiv : (128 * m + ((b.toNat : Int) - 128)) / 128 = m := by
        have := b.isLt
        omega
      rw [hdiv] at hlen
      have := ih hm
      rw [List.length_cons]
      omega

end

end X86Port.Lib.Leb128
