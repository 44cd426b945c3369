import X86Port.Simd.Int
import X86Port.Lib.Saturation
import Mathlib.Tactic.IntervalCases
import Mathlib.Tactic.Ring

/-!
# Packed rearrangements

Which elements the interleaves, the packs, the shuffles and the byte shifts of `x86p_simd_int`
move, and where.

* `lane_unpack`: the interleave takes its elements from each quadword by itself.
* `rearrangements_exact`: every rearrangement is the one that its name says, except an interleave
  of sixteen bytes whose middle doublewords differ.
-/

namespace X86Port.Simd

open Lib Lib.Lanes

/-! ## What the names say -/

/-- The live bytes hold these elements. -/
structure Elements (w bytes : Nat) (f : Nat → BitVec w) (out : Vec) : Prop where
  width : out.bytes = bytes
  lanes : ∀ j < 8 * bytes / w, lane w out.b j = f j

/-- The elements of the low or the high half of each operand in turn. -/
def interleaved (w n : Nat) (high : Bool) (a b : Vec) (j : Nat) : BitVec w :=
  lane w (if j % 2 = 0 then a.b else b.b) ((if high then 8 * n / w / 2 else 0) + j / 2)

/-- All elements of the one operand, then all of the other, each at the nearest value of the
interval. -/
def packed (W w n : Nat) (lo hi : Int) (a b : Vec) (j : Nat) : BitVec w :=
  BitVec.ofInt w (clamp lo hi
    (if j < 8 * n / W then lane W a.b j else lane W b.b (j - 8 * n / W)).toInt)

/-- Two bits of the immediate. -/
def field (imm : U8) (j : Nat) : Nat := imm.toNat / 4 ^ j % 4

/-- What a rearrangement leaves. -/
def Rearranged (op : SimdOp) (a b : Vec) (imm : U8) (out : Vec) : Prop :=
  match op with
  | .punpcklbw => Elements 8 a.bytes (interleaved 8 a.bytes false a b) out
  | .punpcklwd => Elements 16 a.bytes (interleaved 16 a.bytes false a b) out
  | .punpckldq => Elements 32 a.bytes (interleaved 32 a.bytes false a b) out
  | .punpckhbw => Elements 8 a.bytes (interleaved 8 a.bytes true a b) out
  | .punpckhwd => Elements 16 a.bytes (interleaved 16 a.bytes true a b) out
  | .punpckhdq => Elements 32 a.bytes (interleaved 32 a.bytes true a b) out
  | .punpcklqdq => Elements 64 16 (interleaved 64 16 false a b) out
  | .punpckhqdq => Elements 64 16 (interleaved 64 16 true a b) out
  | .packuswb => Elements 8 a.bytes (packed 16 8 a.bytes 0 255 a b) out
  | .packsswb => Elements 8 a.bytes (packed 16 8 a.bytes (-128) 127 a b) out
  | .packssdw => Elements 16 a.bytes (packed 32 16 a.bytes (-32768) 32767 a b) out
  | .pshufw => Elements 16 8 (fun j => lane 16 b.b (field imm j)) out
  | .pshufd => Elements 32 16 (fun j => lane 32 b.b (field imm j)) out
  | .pshuflw => Elements 16 16 (fun j => lane 16 b.b (if j < 4 then field imm j else j)) out
  | .pshufhw => Elements 16 16
      (fun j => lane 16 b.b (if j < 4 then j else 4 + field imm (j - 4))) out
  | .pslldq => Elements 8 16
      (fun j => if j < (lane 8 b.b 0).toNat then 0 else lane 8 a.b (j - (lane 8 b.b 0).toNat)) out
  | .psrldq => Elements 8 16
      (fun j => if j + (lane 8 b.b 0).toNat < 16 then lane 8 a.b (j + (lane 8 b.b 0).toNat) else 0)
      out
  | _ => False

def interleaves : List SimdOp :=
  [.punpcklbw, .punpcklwd, .punpckldq, .punpckhbw, .punpckhwd, .punpckhdq]

def rearrangements : List SimdOp :=
  interleaves ++ ([.punpcklqdq, .punpckhqdq, .packuswb, .packsswb, .packssdw, .pshufw, .pshufd,
    .pshuflw, .pshufhw, .pslldq, .psrldq] : List SimdOp)

/-- The last doubleword of the low quadword is the first of the high one. -/
def MiddleAlike (v : Vec) : Prop := lane 32 v.b 1 = lane 32 v.b 2

/-! ## The interleaves -/

/-- Where the source takes element `j` of an interleave of `2 * d` elements for each quadword. -/
def unpackedFrom (d : Nat) (high : Bool) (j : Nat) : Nat :=
  2 * d * (j / (2 * d)) + (if high then d else 0) + j % (2 * d) / 2

section Interleave

variable {a b : Vec} {elem d lanes l k j : Nat} {high : Bool}

theorem memcpy_eq (r s : BitVec 128) (elem t f : Nat) :
    memcpy r (elem * t) s (elem * f) elem = setLane r t (lane (8 * elem) s f) := by
  unfold memcpy setLane lane
  rw [← Nat.mul_assoc, ← Nat.mul_assoc]

theorem round_div (hk : k < d) : (2 * d * l + 2 * k) / (2 * d) = l ∧
    (2 * d * l + 2 * k + 1) / (2 * d) = l := by
  have hd : 0 < 2 * d := by omega
  constructor
  · rw [Nat.mul_add_div hd, Nat.div_eq_of_lt (by omega), Nat.add_zero]
  · rw [Nat.add_assoc, Nat.mul_add_div hd, Nat.div_eq_of_lt (by omega), Nat.add_zero]

theorem round_mod (hk : k < d) : (2 * d * l + 2 * k) % (2 * d) / 2 = k ∧
    (2 * d * l + 2 * k + 1) % (2 * d) / 2 = k := by
  constructor
  · rw [Nat.mul_add_mod, Nat.mod_eq_of_lt (by omega), Nat.mul_div_cancel_left k (by decide)]
  · rw [Nat.add_assoc, Nat.mul_add_mod, Nat.mod_eq_of_lt (by omega)]
    omega

/-- A round of the loop over the quadwords, in elements. -/
def unpackRound (a b : Vec) (elem d : Nat) (high : Bool) (l : Nat) (r : BitVec 128) (i : Nat) :
    BitVec 128 :=
  setLane (setLane r (2 * d * l + 2 * i)
      (lane (8 * elem) a.b (2 * d * l + (if high then d else 0) + i)))
    (2 * d * l + 2 * i + 1) (lane (8 * elem) b.b (2 * d * l + (if high then d else 0) + i))

theorem unpack_eq (he : elem * d = 4) (hlanes : a.bytes = 8 * lanes) :
    (unpack a b elem high).b = (List.range lanes).foldl (fun r l =>
      (List.range d).foldl (unpackRound a b elem d high l) r) 0 := by
  have hpos : 0 < elem := Nat.pos_of_ne_zero fun h => by simp [h] at he
  have hper : 8 / elem = 2 * d :=
    Nat.div_eq_of_eq_mul_right hpos (by rw [Nat.mul_left_comm, he])
  have hhalf : 8 / elem / 2 = d := by rw [hper, Nat.mul_div_cancel_left d (by decide)]
  unfold unpack
  rw [hlanes, Nat.mul_div_cancel_left lanes (by decide)]
  dsimp only
  rw [hhalf]
  congr 1
  funext r l
  congr 1
  funext r i
  have hbase : l * 8 = elem * (2 * d * l) := by
    rw [← Nat.mul_assoc, Nat.mul_left_comm elem 2 d, he, Nat.mul_comm]
  have hsource : l * 8 + (if high then d else 0) * elem + i * elem =
      elem * (2 * d * l + (if high then d else 0) + i) := by
    rw [hbase, Nat.mul_add, Nat.mul_add, Nat.mul_comm elem i,
      Nat.mul_comm elem (if high then d else 0)]
  have htarget : l * 8 + i * 2 * elem = elem * (2 * d * l + 2 * i) := by
    rw [hbase, Nat.mul_add, Nat.mul_comm elem (2 * i), Nat.mul_comm i 2]
  have hnext : l * 8 + i * 2 * elem + elem = elem * (2 * d * l + 2 * i + 1) := by
    rw [htarget, ← Nat.mul_succ]
  unfold unpackRound
  rw [hsource, hnext, htarget, memcpy_eq, memcpy_eq]

/-- Rounds of other elements leave element `j`. -/
theorem unpackRound_frame (hk : k < d) (h : l ≠ j / (2 * d) ∨ k ≠ j % (2 * d) / 2)
    (r : BitVec 128) :
    lane (8 * elem) (unpackRound a b elem d high l r k) j = lane (8 * elem) r j := by
  have hdiv := round_div (l := l) hk
  have hmod := round_mod (l := l) hk
  unfold unpackRound
  rw [lane_setLane_ne, lane_setLane_ne]
  · rintro rfl
    exact h.elim (fun h => h hdiv.1.symm) fun h => h hmod.1.symm
  · rintro rfl
    exact h.elim (fun h => h hdiv.2.symm) fun h => h hmod.2.symm

/-- Each quadword of the result interleaves one half of the quadword of the same place. -/
theorem lane_unpack (he : elem * d = 4) (hlanes : a.bytes = 8 * lanes) (htwo : lanes ≤ 2)
    (hj : j < 2 * d * lanes) :
    lane (8 * elem) (unpack a b elem high).b j =
      lane (8 * elem) (if j % 2 = 0 then a.b else b.b) (unpackedFrom d high j) := by
  have hd : 0 < d := Nat.pos_of_ne_zero fun h => by simp [h] at he
  have hl : j / (2 * d) < lanes := Nat.div_lt_of_lt_mul hj
  have hi : j % (2 * d) / 2 < d := by
    have := Nat.mod_lt j (show 0 < 2 * d by omega)
    omega
  have hsplit := Nat.div_add_mod j (2 * d)
  have hroom : 8 * elem * (2 * d * (j / (2 * d)) + j % (2 * d) + 1) ≤ 128 := by
    have h1 : 8 * elem * (j + 1) ≤ 8 * elem * (2 * d * 2) :=
      Nat.mul_le_mul_left _ (le_trans hj (Nat.mul_le_mul_left _ htwo))
    have h2 : 8 * elem * (2 * d * 2) = 128 := by
      calc 8 * elem * (2 * d * 2) = 32 * (elem * d) := by ring
        _ = 128 := by rw [he]
    rw [hsplit]
    omega
  rw [unpack_eq he hlanes]
  refine lane_foldl hl (fun u => lane_foldl hi (fun r => ?_) fun k hk hne r =>
    unpackRound_frame hk (.inr hne) r) fun k _ hne u =>
      lane_foldl_frame fun i hi r => unpackRound_frame hi (.inl hne) r
  -- the round that stores the element
  unfold unpackRound unpackedFrom
  set l := j / (2 * d)
  set m := j % (2 * d) with hm
  have hmod2 : j % 2 = m % 2 := by rw [hm, Nat.mod_mod_of_dvd j (Nat.dvd_mul_right 2 d)]
  rcases Nat.mod_two_eq_zero_or_one m with heven | hodd
  · have hat : 2 * d * l + 2 * (m / 2) = j := by omega
    rw [hat, lane_setLane_ne (by omega), lane_setLane_self (by rwa [hsplit] at hroom), hmod2, heven,
      if_pos rfl]
  · have hat : 2 * d * l + 2 * (m / 2) + 1 = j := by omega
    rw [hat, lane_setLane_self (by rwa [hsplit] at hroom), hmod2, hodd,
      if_neg Nat.one_ne_zero]

theorem unpackedFrom_first (hj : j < 2 * d) :
    unpackedFrom d high j = (if high then d else 0) + j / 2 := by
  unfold unpackedFrom
  rw [Nat.div_eq_of_lt hj, Nat.mod_eq_of_lt hj, Nat.mul_zero, Nat.zero_add]

theorem unpackedFrom_second (hj : j < 2 * d) :
    unpackedFrom d high (2 * d + j) = 2 * d + (if high then d else 0) + j / 2 := by
  have hd : 0 < 2 * d := by omega
  unfold unpackedFrom
  rw [Nat.add_div_left j hd, Nat.div_eq_of_lt hj, Nat.add_mod_left, Nat.mod_eq_of_lt hj,
    Nat.mul_one]

theorem length_elements (he : elem * d = 4) (hlanes : a.bytes = 8 * lanes) :
    8 * a.bytes / (8 * elem) = 2 * d * lanes := by
  have hpos : 0 < elem := Nat.pos_of_ne_zero fun h => by simp [h] at he
  refine Nat.div_eq_of_eq_mul_right (by omega) ?_
  calc 8 * a.bytes = 16 * 4 * lanes := by rw [hlanes]; ring
    _ = 16 * (elem * d) * lanes := by rw [he]
    _ = 8 * elem * (2 * d * lanes) := by ring

theorem middle_iff (he : elem * d = 4) (v : Vec) : MiddleAlike v ↔
    ∀ i < d, lane (8 * elem) v.b (d + i) = lane (8 * elem) v.b (2 * d + i) := by
  have hword : 32 = 8 * elem * d := by rw [Nat.mul_assoc, he]
  unfold MiddleAlike
  rw [lane_eq_iff hword]
  simp only [Nat.mul_one, Nat.mul_comm d 2]

/-- The interleave for each quadword is that of the whole operands when there is one quadword, or
when the quarters that it mistakes for each other are alike. -/
theorem unpack_iff (he : elem * d = 4) (hn : a.bytes = 8 ∨ a.bytes = 16) :
    Elements (8 * elem) a.bytes (interleaved (8 * elem) a.bytes high a b) (unpack a b elem high) ↔
      a.bytes = 8 ∨ MiddleAlike a ∧ MiddleAlike b := by
  rcases hn with hn | hn
  · have hone : a.bytes = 8 * 1 := hn
    refine iff_of_true ⟨rfl, fun j hj => ?_⟩ (.inl hn)
    have hlen := length_elements he hone
    rw [hlen, Nat.mul_one] at hj
    rw [lane_unpack he hone (by decide) (by rwa [Nat.mul_one]), unpackedFrom_first hj]
    unfold interleaved
    rw [hlen, Nat.mul_one, Nat.mul_div_cancel_left d (by decide)]
  · have htwo : a.bytes = 8 * 2 := hn
    have hlen := length_elements he htwo
    have hhalf : 8 * a.bytes / (8 * elem) / 2 = 2 * d := by
      rw [hlen, Nat.mul_div_cancel _ (by decide)]
    have hlane (j : Nat) (hj : j < 2 * d * 2) :
        lane (8 * elem) (unpack a b elem high).b j =
          lane (8 * elem) (if j % 2 = 0 then a.b else b.b) (unpackedFrom d high j) :=
      lane_unpack he htwo (Nat.le_refl 2) hj
    have hspec (j : Nat) : interleaved (8 * elem) a.bytes high a b j =
        lane (8 * elem) (if j % 2 = 0 then a.b else b.b) ((if high then 2 * d else 0) + j / 2) := by
      unfold interleaved
      rw [hhalf]
    rw [or_iff_right (by omega), middle_iff he, middle_iff he]
    constructor
    · rintro ⟨-, hall⟩
      rw [hlen] at hall
      -- the elements that tell the halves apart
      have hpair (i e : Nat) (hi : i < d) (hparity : e < 2) :
          lane (8 * elem) (if e = 0 then a.b else b.b) (d + i) =
            lane (8 * elem) (if e = 0 then a.b else b.b) (2 * d + i) := by
        cases high with
        | false =>
          have hj := hall (2 * d + (2 * i + e)) (by omega)
          rw [hlane _ (by omega), hspec, unpackedFrom_second (by omega)] at hj
          rw [show (2 * d + (2 * i + e)) % 2 = e by omega,
            show (2 * i + e) / 2 = i by omega,
            show (2 * d + (2 * i + e)) / 2 = d + i by omega] at hj
          simpa using hj.symm
        | true =>
          have hj := hall (2 * i + e) (by omega)
          rw [hlane _ (by omega), hspec, unpackedFrom_first (by omega)] at hj
          rw [show (2 * i + e) % 2 = e by omega, show (2 * i + e) / 2 = i by omega] at hj
          simpa using hj
      exact ⟨fun i hi => hpair i 0 hi (by decide), fun i hi => hpair i 1 hi (by decide)⟩
    · rintro ⟨hma, hmb⟩
      refine ⟨rfl, fun j hj => ?_⟩
      rw [hlen] at hj
      have hside (i : Nat) (hi : i < d) :
          lane (8 * elem) (if j % 2 = 0 then a.b else b.b) (d + i) =
            lane (8 * elem) (if j % 2 = 0 then a.b else b.b) (2 * d + i) := by
        split_ifs
        · exact hma i hi
        · exact hmb i hi
      rw [hlane j hj, hspec]
      rcases Nat.lt_or_ge j (2 * d) with hlt | hge
      · rw [unpackedFrom_first hlt]
        cases high with
        | false => rfl
        | true => exact hside (j / 2) (by omega)
      · obtain ⟨t, rfl⟩ := Nat.exists_eq_add_of_le hge
        rw [unpackedFrom_second (by omega), show (2 * d + t) / 2 = d + t / 2 by omega]
        cases high with
        | false => simpa using (hside (t / 2) (by omega)).symm
        | true =>
          congr 1
          simp only [if_true]
          omega

end Interleave

/-! ## Packs, shuffles and byte shifts -/

section Moves

variable {a b : Vec} {imm : U8} {w n j : Nat}

theorem satU8_eq (v : Int) : satU8 v = BitVec.ofInt 8 (clamp 0 255 v) := by
  unfold satU8 clamp
  congr 1
  omega

theorem satS8_eq (v : Int) : satS8 v = BitVec.ofInt 8 (clamp (-128) 127 v) := by
  unfold satS8 clamp
  congr 1
  omega

theorem satU16_eq (v : Int) : satU16 v = BitVec.ofInt 16 (clamp 0 65535 v) := by
  unfold satU16 clamp
  congr 1
  omega

theorem satS16_eq (v : Int) : satS16 v = BitVec.ofInt 16 (clamp (-32768) 32767 v) := by
  unfold satS16 clamp
  congr 1
  omega

/-- The loop of the packs. -/
theorem lane_pack (f g : Nat → BitVec w) (hroom : w * (2 * n) ≤ 128) (hj : j < 2 * n) :
    lane w ((List.range n).foldl (fun r i => setLane (setLane r i (f i)) (n + i) (g i))
      (0 : BitVec 128)) j = if j < n then f j else g (j - n) := by
  have hself {i : Nat} (hi : i < 2 * n) : w * (i + 1) ≤ 128 :=
    le_trans (Nat.mul_le_mul_left w hi) hroom
  split_ifs with hlt
  · refine lane_foldl hlt (fun u => ?_) fun k hk hne u => ?_
    · rw [lane_setLane_ne (by omega), lane_setLane_self (hself hj)]
    · rw [lane_setLane_ne (by omega), lane_setLane_ne hne]
  · refine lane_foldl (i := j - n) (by omega) (fun u => ?_) fun k hk hne u => ?_
    · rw [show n + (j - n) = j by omega, lane_setLane_self (hself hj)]
    · rw [lane_setLane_ne (by omega), lane_setLane_ne (by omega)]

theorem packWords_elements {sat : Int → U8} {lo hi : Int}
    (hsat : ∀ v, sat v = BitVec.ofInt 8 (clamp lo hi v)) (hn : a.bytes = 8 ∨ a.bytes = 16) :
    Elements 8 a.bytes (packed 16 8 a.bytes lo hi a b) (packWords a b sat) := by
  have hhalf : 8 * a.bytes / 16 = a.bytes / 2 := by omega
  refine ⟨rfl, fun j hj => ?_⟩
  have hlane := lane_pack (fun i => sat (a.u16 i).toInt) (fun i => sat (b.u16 i).toInt)
    (n := a.bytes / 2) (j := j) (by omega) (by omega)
  unfold packWords packed
  dsimp only
  rw [hlane, hhalf, ← hsat]
  split_ifs <;> rfl

theorem packDwords_elements {sat : Int → U16} {lo hi : Int}
    (hsat : ∀ v, sat v = BitVec.ofInt 16 (clamp lo hi v)) (hn : a.bytes = 8 ∨ a.bytes = 16) :
    Elements 16 a.bytes (packed 32 16 a.bytes lo hi a b) (packDwords a b sat) := by
  have hhalf : 8 * a.bytes / 32 = a.bytes / 4 := by omega
  refine ⟨rfl, fun j hj => ?_⟩
  have hlane := lane_pack (fun i => sat (a.u32 i).toInt) (fun i => sat (b.u32 i).toInt)
    (n := a.bytes / 4) (j := j) (by omega) (by omega)
  unfold packDwords packed
  dsimp only
  rw [hlane, hhalf, ← hsat]
  split_ifs <;> rfl

theorem selected_eq (imm : U8) (i : Nat) : selected imm i = field imm i := by
  have hpow : 2 ^ (i * 2) = 4 ^ i := by rw [Nat.mul_comm, Nat.pow_mul]
  unfold selected field
  rw [BitVec.toNat_and, BitVec.toNat_ushiftRight, Nat.shiftRight_eq_div_pow, hpow]
  exact Nat.and_two_pow_sub_one_eq_mod _ 2

theorem pshufw_elements : Elements 16 8 (fun j => lane 16 b.b (field imm j)) (pshufw b imm) := by
  refine ⟨rfl, fun j hj => ?_⟩
  unfold pshufw
  dsimp only
  have hlane := lane_foldl_setLane (v := (0 : BitVec 128)) (f := fun i => b.u16 (selected imm i))
    (n := 4) (j := j) 0 (by decide)
  simp only [Nat.zero_add, Nat.zero_le, true_and, Nat.sub_zero] at hlane
  rw [hlane, if_pos (by omega), selected_eq]
  rfl

theorem pshufd_elements : Elements 32 16 (fun j => lane 32 b.b (field imm j)) (pshufd b imm) := by
  refine ⟨rfl, fun j hj => ?_⟩
  unfold pshufd
  dsimp only
  have hlane := lane_foldl_setLane (v := (0 : BitVec 128)) (f := fun i => b.u32 (selected imm i))
    (n := 4) (j := j) 0 (by decide)
  simp only [Nat.zero_add, Nat.zero_le, true_and, Nat.sub_zero] at hlane
  rw [hlane, if_pos (by omega), selected_eq]
  rfl

/-- A word of the half that is shuffled, and one of the other half. -/
theorem lane_pshufHalf {half : Nat} (hhalf : half ≤ 4) : lane 16 (pshufHalf b imm half).b j =
    lane 16 b.b (if half ≤ j ∧ j < half + 4 then half + field imm (j - half) else j) := by
  unfold pshufHalf
  dsimp only
  rw [lane_foldl_setLane half (by omega)]
  split_ifs
  · rw [selected_eq]
    rfl
  · rfl

/-- The bytes that a byte shift stores, and the zeros. -/
theorem lane_byteShift (left : Bool) (hj : j < 16) : lane 8 (byteShift a b left).b j =
    if left ∧ (lane 8 b.b 0).toNat ≤ j then lane 8 a.b (j - (lane 8 b.b 0).toNat)
    else if ¬ left ∧ j + (lane 8 b.b 0).toNat < 16 then lane 8 a.b (j + (lane 8 b.b 0).toNat)
    else 0 := by
  have hcount : (b.u8 0).toNat = (lane 8 b.b 0).toNat := rfl
  unfold byteShift
  dsimp only
  rw [hcount]
  generalize (lane 8 b.b 0).toNat = c
  have hroom : 8 * (j + 1) ≤ 128 := by omega
  -- rounds that store elsewhere
  have hframe (k : Nat) (hne : k ≠ j) (u : BitVec 128) :
      lane 8 (if left = true ∧ k ≥ c then setLane u k (a.u8 (k - c))
        else if ¬ left = true ∧ k + c < 16 then setLane u k (a.u8 (k + c)) else u) j =
          lane 8 u j := by
    split_ifs
    · exact lane_setLane_ne hne
    · exact lane_setLane_ne hne
    · rfl
  by_cases hc : c < 16
  · rw [if_pos hc]
    rw [lane_foldl_round hj fun k _ hne u => hframe k hne u]
    split_ifs
    · exact lane_setLane_self hroom
    · exact lane_setLane_self hroom
    · rw [lane_foldl_frame fun k hk u => hframe k hk.ne u, lane_zero]
  · rw [if_neg hc, if_neg (by omega), if_neg (by omega), lane_zero]

theorem byteShift_left_elements : Elements 8 16
    (fun j => if j < (lane 8 b.b 0).toNat then 0 else lane 8 a.b (j - (lane 8 b.b 0).toNat))
    (byteShift a b true) := by
  refine ⟨rfl, fun j hj => ?_⟩
  rw [lane_byteShift true hj]
  rcases Nat.lt_or_ge j (lane 8 b.b 0).toNat with hlt | hge
  · rw [if_neg fun h => absurd h.2 (Nat.not_le.mpr hlt), if_neg fun h => h.1 rfl, if_pos hlt]
  · rw [if_pos ⟨rfl, hge⟩, if_neg (Nat.not_lt.mpr hge)]

theorem byteShift_right_elements : Elements 8 16
    (fun j => if j + (lane 8 b.b 0).toNat < 16 then lane 8 a.b (j + (lane 8 b.b 0).toNat) else 0)
    (byteShift a b false) := by
  refine ⟨rfl, fun j hj => ?_⟩
  rw [lane_byteShift false hj]
  simp

theorem unpackQdq_elements {high : Bool} :
    Elements 64 16 (interleaved 64 16 high a b) (unpackQdq a b (if high then 1 else 0)) := by
  refine ⟨rfl, fun j hj => ?_⟩
  unfold unpackQdq interleaved
  dsimp only
  have hj2 : j = 0 ∨ j = 1 := by omega
  rcases hj2 with rfl | rfl
  · rw [lane_setLane_ne (by decide), lane_setLane_self (by decide)]
    cases high <;> rfl
  · rw [lane_setLane_self (by decide)]
    cases high <;> rfl

end Moves

/-! ## Packing back, and every element once -/

def zeros (bytes : Nat) : Vec := ⟨0, bytes⟩

/-- The bytes interleaved with zeros and packed again. -/
def PacksBack (a : Vec) (imm : U8) : Prop :=
  ∃ lo hi out, simdInt a (zeros a.bytes) imm .punpcklbw = .ok lo ∧
    simdInt a (zeros a.bytes) imm .punpckhbw = .ok hi ∧
    simdInt lo hi imm .packuswb = .ok out ∧ Elements 8 a.bytes a.u8 out

/-- The live elements in their order. -/
def elements (w : Nat) (v : Vec) : List (BitVec w) :=
  (List.range (8 * v.bytes / w)).map (lane w v.b)

/-- Two interleaves hold every element of both operands once. -/
def HoldsOnce (w : Nat) (low high : SimdOp) (a b : Vec) (imm : U8) : Prop :=
  ∃ lo hi, simdInt a b imm low = .ok lo ∧ simdInt a b imm high = .ok hi ∧
    (elements w lo ++ elements w hi).Perm (elements w a ++ elements w b)

section Round

variable {a b : Vec} {imm : U8} {elem d lanes j : Nat}

theorem toInt_of_bytes {x : U16} {y : U8} (hlow : lane 8 x 0 = y) (hhigh : lane 8 x 1 = 0) :
    x.toInt = y.toNat := by
  have hsplit : x = (lane 8 x 1) ++ (lane 8 x 0) := by
    apply BitVec.eq_of_getLsbD_eq
    intro k hk
    rw [BitVec.getLsbD_append, getLsbD_lane, getLsbD_lane]
    by_cases hlt : k < 8
    · simp [hlt]
    · simp [hlt, show k - 8 < 8 by omega, show 8 + (k - 8) = k by omega]
  have hx : x = y.setWidth 16 := by
    rw [hsplit, hlow, hhigh]
    exact (BitVec.setWidth_eq_append (by decide)).symm
  rw [hx, BitVec.toInt_eq_toNat_of_lt (by rw [BitVec.toNat_setWidth]; omega),
    BitVec.toNat_setWidth, Nat.mod_eq_of_lt (by omega)]

/-- A byte that was interleaved with zeros, packed. -/
theorem packed_byte (hlanes : a.bytes = 8 * lanes) (htwo : lanes ≤ 2) (high : Bool)
    (hj : j < 4 * lanes) :
    BitVec.ofInt 8 (clamp 0 255
      (lane 16 (unpack a (zeros a.bytes) 1 high).b j).toInt) =
        lane 8 a.b (unpackedFrom 4 high (2 * j)) := by
  have hbyte (e : Nat) (he : e < 2) := lane_lane (w := 8)
    (v := (unpack a (zeros a.bytes) 1 high).b) (W := 16) (c := 2) (j := j) rfl he
  have hlow := (hbyte 0 (by decide)).trans
    (lane_unpack (show 1 * 4 = 4 from rfl) hlanes htwo (by omega))
  have hhigh := (hbyte 1 (by decide)).trans
    (lane_unpack (show 1 * 4 = 4 from rfl) hlanes htwo (by omega))
  rw [if_pos (by omega)] at hlow
  rw [if_neg (by omega), zeros, lane_zero] at hhigh
  rw [toInt_of_bytes hlow hhigh, clamp_of_mem (by omega) (by omega), Nat.add_zero]
  exact BitVec.ofInt_natCast _ _ |>.trans (BitVec.ofNat_toNat _ _ |>.trans (BitVec.setWidth_eq _))

/-- Where packing back takes byte `j` from. -/
def packedFrom (n j : Nat) : Nat :=
  if j < n / 2 then unpackedFrom 4 false (2 * j) else unpackedFrom 4 true (2 * (j - n / 2))

theorem lane_packBack (hlanes : a.bytes = 8 * lanes) (htwo : lanes ≤ 2)
    (hj : j < a.bytes) :
    lane 8 (packWords (unpack a (zeros a.bytes) 1 false) (unpack a (zeros a.bytes) 1 true)
      satU8).b j = lane 8 a.b (packedFrom a.bytes j) := by
  have hwide : a.bytes = 8 ∨ a.bytes = 16 := by omega
  have hpack := (packWords_elements (a := unpack a (zeros a.bytes) 1 false)
    (b := unpack a (zeros a.bytes) 1 true) satU8_eq hwide).lanes j
      (by change j < 8 * a.bytes / 8; omega)
  have hwidth : (unpack a (zeros a.bytes) 1 false).bytes = a.bytes := rfl
  have hhalf : 8 * a.bytes / 16 = a.bytes / 2 := by omega
  rw [hpack]
  unfold packed packedFrom
  rw [hwidth, hhalf]
  split_ifs
  · exact packed_byte hlanes htwo false (by omega)
  · exact packed_byte hlanes htwo true (by omega)

theorem packsBack_iff (hn : a.bytes = 8 ∨ a.bytes = 16) :
    PacksBack a imm ↔ a.bytes = 8 ∨ MiddleAlike a := by
  have hiff : PacksBack a imm ↔ Elements 8 a.bytes a.u8 (packWords
      (unpack a (zeros a.bytes) 1 false) (unpack a (zeros a.bytes) 1 true) satU8) := by
    constructor
    · rintro ⟨lo, hi, out, hlo, hhi, hout, h⟩
      cases hlo
      cases hhi
      cases hout
      exact h
    · exact fun h => ⟨_, _, _, rfl, rfl, rfl, h⟩
  have hmiddle := middle_iff (show 1 * 4 = 4 from rfl) a
  rw [hiff]
  rcases hn with hn | hn
  · have hn1 : a.bytes = 8 * 1 := hn
    refine iff_of_true ⟨rfl, fun j hj => ?_⟩ (.inl hn)
    rw [lane_packBack hn1 (by decide) (by omega)]
    have hfrom : packedFrom a.bytes j = j := by
      rw [hn] at hj ⊢
      change j < 8 at hj
      interval_cases j <;> rfl
    rw [hfrom]
    rfl
  · have hn2 : a.bytes = 8 * 2 := hn
    rw [or_iff_right (by omega), hmiddle]
    constructor
    · rintro ⟨-, hall⟩ i hi
      have hbyte := hall (4 + i) (by omega)
      rw [lane_packBack hn2 (by decide) (by omega)] at hbyte
      have hfrom : packedFrom a.bytes (4 + i) = 2 * 4 + i := by
        rw [hn]
        interval_cases i <;> rfl
      rw [hfrom] at hbyte
      exact hbyte.symm
    · intro hm
      refine ⟨rfl, fun j hj => ?_⟩
      rw [lane_packBack hn2 (by decide) (by omega)]
      -- the second and the third quarter change places
      have hfrom : packedFrom a.bytes j =
          if 4 ≤ j ∧ j < 8 then j + 4 else if 8 ≤ j ∧ j < 12 then j - 4 else j := by
        rw [hn] at hj ⊢
        change j < 16 at hj
        interval_cases j <;> rfl
      rw [hfrom]
      split_ifs with h1 h2
      · have := hm (j - 4) (by omega)
        rw [show 4 + (j - 4) = j by omega, show 2 * 4 + (j - 4) = j + 4 by omega] at this
        exact this.symm
      · have := hm (j - 8) (by omega)
        rw [show 4 + (j - 8) = j - 4 by omega, show 2 * 4 + (j - 8) = j by omega] at this
        exact this
      · rfl

theorem interleaves_perm (he : elem * d = 4) (hn : a.bytes = 8 ∨ a.bytes = 16)
    (hb : b.bytes = a.bytes) :
    (elements (8 * elem) (unpack a b elem false) ++ elements (8 * elem) (unpack a b elem true)).Perm
      (elements (8 * elem) a ++ elements (8 * elem) b) := by
  obtain ⟨lanes, hlanes, htwo⟩ : ∃ lanes, a.bytes = 8 * lanes ∧ (lanes = 1 ∨ lanes = 2) := by
    rcases hn with hn | hn
    · exact ⟨1, hn, .inl rfl⟩
    · exact ⟨2, hn, .inr rfl⟩
  have hlen := length_elements he hlanes
  -- every element by its operand and its place
  let pick : Nat × Nat → BitVec (8 * elem) := fun p =>
    lane (8 * elem) (if p.1 = 0 then a.b else b.b) p.2
  have hside (high : Bool) : elements (8 * elem) (unpack a b elem high) =
      ((List.range (2 * d * lanes)).map fun j => (j % 2, unpackedFrom d high j)).map pick := by
    unfold elements
    change (List.range (8 * a.bytes / (8 * elem))).map _ = _
    rw [hlen, List.map_map]
    refine List.map_congr_left fun j hj => ?_
    exact lane_unpack he hlanes (by omega) (List.mem_range.mp hj)
  have hfirst : elements (8 * elem) a =
      ((List.range (2 * d * lanes)).map fun j => (0, j)).map pick := by
    unfold elements
    rw [hlen, List.map_map]
    rfl
  have hsecond : elements (8 * elem) b =
      ((List.range (2 * d * lanes)).map fun j => (1, j)).map pick := by
    unfold elements
    rw [hb, hlen, List.map_map]
    rfl
  rw [hside, hside, hfirst, hsecond, ← List.map_append, ← List.map_append]
  refine List.Perm.map pick ?_
  have hd : d = 4 ∨ d = 2 ∨ d = 1 := by
    have : d ∣ 4 := Dvd.intro_left elem he
    have hle := Nat.le_of_dvd (by decide) this
    interval_cases d <;> omega
  rcases hd with rfl | rfl | rfl <;> rcases htwo with rfl | rfl <;> decide

theorem elements_two {v : Vec} (hv : v.bytes = 16) :
    elements 64 v = [lane 64 v.b 0, lane 64 v.b 1] := by
  unfold elements
  rw [hv]
  rfl

theorem quadwords_perm (ha : a.bytes = 16) (hb : b.bytes = 16) :
    (elements 64 (unpackQdq a b 0) ++ elements 64 (unpackQdq a b 1)).Perm
      (elements 64 a ++ elements 64 b) := by
  have hlow := (@unpackQdq_elements a b false).lanes
  have hhigh := (@unpackQdq_elements a b true).lanes
  rw [elements_two rfl, elements_two rfl, elements_two ha, elements_two hb]
  have hlo0 : lane 64 (unpackQdq a b 0).b 0 = lane 64 a.b 0 := hlow 0 (by decide)
  have hlo1 : lane 64 (unpackQdq a b 0).b 1 = lane 64 b.b 0 := hlow 1 (by decide)
  have hhi0 : lane 64 (unpackQdq a b 1).b 0 = lane 64 a.b 1 := hhigh 0 (by decide)
  have hhi1 : lane 64 (unpackQdq a b 1).b 1 = lane 64 b.b 1 := hhigh 1 (by decide)
  rw [hlo0, hlo1, hhi0, hhi1]
  exact .cons _ (.swap _ _ _)

theorem ok_iff {P : Vec → Prop} {v : Vec} :
    (∃ out, (.ok v : Except IntStop Vec) = .ok out ∧ P out) ↔ P v :=
  ⟨fun ⟨_, h, hp⟩ => by cases h; exact hp, fun hp => ⟨v, rfl, hp⟩⟩

theorem rearranged_iff (hn : a.bytes = 8 ∨ a.bytes = 16) {op : SimdOp}
    (hop : op ∈ rearrangements) :
    (∃ out, simdInt a b imm op = .ok out ∧ Rearranged op a b imm out) ↔
      a.bytes = 8 ∨ op ∉ interleaves ∨ MiddleAlike a ∧ MiddleAlike b := by
  have hbw {high : Bool} := @unpack_iff a b 1 4 high rfl hn
  have hwd {high : Bool} := @unpack_iff a b 2 2 high rfl hn
  have hdq {high : Bool} := @unpack_iff a b 4 1 high rfl hn
  simp only [rearrangements, interleaves, List.cons_append, List.nil_append, List.mem_cons,
    List.not_mem_nil, or_false] at hop
  rcases hop with rfl | rfl | rfl | rfl | rfl | rfl | rfl | rfl | rfl | rfl | rfl | rfl | rfl |
    rfl | rfl | rfl | rfl
  · exact ok_iff.trans (hbw.trans (by simp [interleaves]))
  · exact ok_iff.trans (hwd.trans (by simp [interleaves]))
  · exact ok_iff.trans (hdq.trans (by simp [interleaves]))
  · exact ok_iff.trans (hbw.trans (by simp [interleaves]))
  · exact ok_iff.trans (hwd.trans (by simp [interleaves]))
  · exact ok_iff.trans (hdq.trans (by simp [interleaves]))
  all_goals refine iff_of_true (ok_iff.mpr ?_) (.inr (.inl (by decide)))
  · exact @unpackQdq_elements a b false
  · exact @unpackQdq_elements a b true
  · exact packWords_elements satU8_eq hn
  · exact packWords_elements satS8_eq hn
  · exact packDwords_elements satS16_eq hn
  · exact pshufw_elements
  · exact pshufd_elements
  · refine ⟨rfl, fun j hj => ?_⟩
    rw [lane_pshufHalf (by decide)]
    simp
  · refine ⟨rfl, fun j hj => ?_⟩
    rw [lane_pshufHalf (Nat.le_refl 4)]
    rcases Nat.lt_or_ge j 4 with hlt | hge
    · rw [if_neg (by omega), if_pos hlt]
    · rw [if_pos (by omega), if_neg (by omega)]
  · exact byteShift_left_elements
  · exact byteShift_right_elements

/-- The rearrangements are those of their names, whatever the operands, except that an interleave
of sixteen bytes is one only where the middle doublewords of each operand are alike. -/
theorem rearrangements_exact (hn : a.bytes = 8 ∨ a.bytes = 16) (hb : b.bytes = a.bytes)
    (imm : U8) :
    (∀ op ∈ rearrangements,
      (∃ out, simdInt a b imm op = .ok out ∧ Rearranged op a b imm out) ↔
        a.bytes = 8 ∨ op ∉ interleaves ∨ MiddleAlike a ∧ MiddleAlike b) ∧
    (PacksBack a imm ↔ a.bytes = 8 ∨ MiddleAlike a) ∧
    HoldsOnce 8 .punpcklbw .punpckhbw a b imm ∧ HoldsOnce 16 .punpcklwd .punpckhwd a b imm ∧
    HoldsOnce 32 .punpckldq .punpckhdq a b imm ∧
    (a.bytes = 16 → HoldsOnce 64 .punpcklqdq .punpckhqdq a b imm) := by
  refine ⟨fun op hop => rearranged_iff hn hop, packsBack_iff hn,
    ⟨_, _, rfl, rfl, interleaves_perm (show 1 * 4 = 4 from rfl) hn hb⟩,
    ⟨_, _, rfl, rfl, interleaves_perm (show 2 * 2 = 4 from rfl) hn hb⟩,
    ⟨_, _, rfl, rfl, interleaves_perm (show 4 * 1 = 4 from rfl) hn hb⟩,
    fun hwide => ⟨_, _, rfl, rfl, quadwords_perm hwide (hb.trans hwide)⟩⟩

end Round

/-- The bytes `first`, `first + 1`, … in an XMM register. -/
def counting (first : Nat) : Vec :=
  ⟨(List.range 16).foldl (fun r i => setLane r i (BitVec.ofNat 8 (first + i))) 0, 16⟩

theorem counting_exact : ∃ out, simdInt (counting 0) (counting 16) 0 .packuswb = .ok out ∧
    Rearranged .packuswb (counting 0) (counting 16) 0 out :=
  ((rearrangements_exact (a := counting 0) (b := counting 16) (.inr rfl) rfl 0).1 .packuswb
    (by decide)).mpr (.inr (.inl (by decide)))

/-- PUNPCKLBW of two XMM registers does not interleave their low halves. -/
theorem counting_interleave : ¬ ∃ out, simdInt (counting 0) (counting 16) 0 .punpcklbw = .ok out ∧
    Rearranged .punpcklbw (counting 0) (counting 16) 0 out := by
  rw [rearranged_iff (.inr rfl) (by decide)]
  rintro (hwidth | hop | ⟨ha, -⟩)
  · exact absurd hwidth (by decide)
  · exact hop (by decide)
  · exact absurd ha (by unfold MiddleAlike; decide)

end X86Port.Simd
