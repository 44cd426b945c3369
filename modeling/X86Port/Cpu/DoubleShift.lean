import X86Port.Cpu.AluShift
import X86Port.Cpu.Exchange

/-!
# Double shifts

SHLD and SHRD: `x86p_double_shift` of `bit_ops.c` and the three ways to it.

* `DoubleShifted`: what the manual says of the result and of the flags.
* `doubleShift_cases`: the five regimes of the count.
* `doubleShiftEvaluated_eq`: every C shift on the way has a meaning.
* `double_shift_exact`: the interpreter, the function of `cpu.c` and that of the WebAssembly
  module leave the same.
-/

namespace X86Port.Cpu

open Lib Lib.Places Exec
open Memory (Mem Host bytesOf)

/-! ## What a double shift is -/

/-- The upper half of `dst:src` shifted left, or the lower half of `src:dst` shifted right. -/
def concatShift (left : Bool) {n : Nat} (d s : BitVec n) (c : Nat) : BitVec n :=
  if left then ((d ++ s) <<< c).extractLsb' n n else ((s ++ d) >>> c).extractLsb' 0 n

/-- The bit of the destination that the last of `c` single shifts moves out. -/
def lastBitOut (left : Bool) {n : Nat} (d : BitVec n) (c : Nat) : Bool :=
  if left then d.getMsbD (c - 1) else d.getLsbD (c - 1)

/-- The result `r` and the flag word `e'` of a double shift by `c`, from the flag word `e`. -/
structure DoubleShifted (left : Bool) {n : Nat} (d s : BitVec n) (c : Nat) (e : U32)
    (r : BitVec n) (e' : U32) : Prop extends ResultFlags r e' where
  result : r = concatShift left d s c
  cf : cfOf e' = lastBitOut left d c
  of : c = 1 → ofOf e' = (r.msb != d.msb)
  others : ∀ j ∉ [0, 2, 4, 6, 7, 11], e'.getLsbD j = e.getLsbD j

/-! ## The functions that ask for one -/

def cpuDoubleShift32 (d : Pointer) (source count : U32) (left : Bool) (s : Ctx Host) : Ctx Host :=
  match (doubleShift left (d.load s .dword) source count .dword (eflags s.cpu.flags)).2 with
  | none => s
  | some (result, f) => (d.store s .dword result).withFlags (flagsSetExplicit f)

/-- `x86p_wasm_double_shift`: what it returns, and the flags behind it. -/
def wasmDoubleShift (f : Flags) (dst src count : U32) (w : Width) (left : Bool) : U32 × Flags :=
  match (doubleShift left dst src count w (eflags f)).2 with
  | none => (dst, f)
  | some (result, word) => (result, flagsSetExplicit word)

/-! ## The shifts that C evaluates -/

/-- `v << n` on `uint32_t`, which has a meaning below 32 only. -/
def cShl (v : U32) (n : Nat) : Option U32 := if n < 32 then some (v <<< n) else none

def cShr (v : U32) (n : Nat) : Option U32 := if n < 32 then some (v >>> n) else none

/-- `width_mask`, with its shift. -/
def evaluatedMask (w : Width) : Option U32 :=
  if w.bytes ≥ 4 then some uint32Max else (cShl 1 w.bits).map (· - 1)

/-- `x86p_double_shift`, with a meaning asked of each shift that is evaluated. -/
def doubleShiftEvaluated (left : Bool) (dst src count : U32) (w : Width) (eflags : U32) :
    Option (Bool × Option (U32 × U32)) := do
  let bits := w.bits
  let mask ← evaluatedMask w
  let count := (count &&& 31).toNat
  let defined := decide (count ≤ bits)
  if count = 0 ∨ defined = false then
    return (defined, none)
  let dst := dst &&& mask
  let src := src &&& mask
  let upper ← if left then cShl dst count else cShr dst count
  let lower ← if left then cShr src (bits - count) else cShl src (bits - count)
  let prev ←
    if count = 1 then some dst
    else do
      let upper ← if left then cShl dst (count - 1) else cShr dst (count - 1)
      let lower ← if left then cShr src (bits - count + 1) else cShl src (bits - count + 1)
      some (upper ||| lower)
  let out ← if left then cShr dst (bits - count) else cShr dst (count - 1)
  let r := (upper ||| lower) &&& mask
  let prev := prev &&& mask
  let sign ← cShr r (bits - 1)
  let low ← (List.range 8).mapM (cShr r)
  let parity := low.foldl (fun p v => p ^^^ (v &&& 1)) 0
  let changed ← cShr (r ^^^ prev) (bits - 1)
  let f := setBit eflags flagCF (decide (out &&& 1 ≠ 0))
  let f := setBit f flagSF (decide (sign &&& 1 ≠ 0))
  let f := setBit f flagZF (decide (r = 0))
  let f := setBit f flagPF (decide (parity = 0))
  let f := setBit f flagAF true
  let f := setBit f flagOF (decide (changed &&& 1 ≠ 0))
  return (defined, some (r, f))

section Value

variable {w : Width}

/-! ## The result -/

/-- The two shifts of the code make one shift of the concatenation. -/
theorem concatShift_eq (left : Bool) {n : Nat} (d s : BitVec n) {c : Nat} (hc : c ≤ n) :
    concatShift left d s c =
      if left then d <<< c ||| s >>> (n - c) else d >>> c ||| s <<< (n - c) := by
  unfold concatShift
  cases left with
  | true =>
    simp only [if_true]
    ext i hi
    simp only [BitVec.getElem_extractLsb', BitVec.getLsbD_shiftLeft, BitVec.getLsbD_append,
      BitVec.getElem_or, BitVec.getElem_shiftLeft, BitVec.getElem_ushiftRight]
    by_cases hic : i < c
    · have h1 : n + i - c < n := by omega
      have h2 : n - c + i = n + i - c := by omega
      simp [hic, h1, h2, show n + i < n + n by omega, show ¬ n + i < c by omega]
    · have h1 : ¬ n + i - c < n := by omega
      have h2 : n + i - c - n = i - c := by omega
      simp [hic, h1, h2, show n + i < n + n by omega, show ¬ n + i < c by omega,
        show n ≤ n - c + i by omega]
      rw [BitVec.getLsbD_eq_getElem (by omega)]
  | false =>
    simp only [Bool.false_eq_true, if_false]
    ext i hi
    simp only [BitVec.getElem_extractLsb', BitVec.getLsbD_ushiftRight, BitVec.getLsbD_append,
      BitVec.getElem_or, BitVec.getElem_shiftLeft, BitVec.getElem_ushiftRight, Nat.zero_add]
    by_cases hic : c + i < n
    · simp [hic, show i < n - c by omega]
    · have h1 : c + i - n = i - (n - c) := by omega
      have h2 : d.getLsbD (c + i) = false := BitVec.getLsbD_of_ge d _ (by omega)
      simp [hic, h1, h2, show ¬ i < n - c by omega]
      rw [BitVec.getLsbD_eq_getElem (by omega)]

theorem operand_eq_setWidth (v : U32) (w : Width) :
    v &&& widthMask w = (operand w v).setWidth 32 := by
  refine BitVec.eq_of_getLsbD_eq fun i hi => ?_
  unfold operand
  rw [getLsbD_and_widthMask, BitVec.getLsbD_setWidth, BitVec.getLsbD_setWidth, decide_eq_true hi,
    Bool.true_and, Bool.and_comm]

/-- The two shifts on 32 bits, cut to the width. -/
theorem shifted_and_widthMask (left : Bool) (d s : BitVec w.bits) {c : Nat} (hc : c ≤ w.bits) :
    ((if left then d.setWidth 32 <<< c ||| s.setWidth 32 >>> (w.bits - c)
      else d.setWidth 32 >>> c ||| s.setWidth 32 <<< (w.bits - c)) &&& widthMask w) =
        (concatShift left d s c).setWidth 32 := by
  have hw := w.bits_pos
  rw [concatShift_eq left d s hc]
  refine BitVec.eq_of_getLsbD_eq fun i hi => ?_
  rw [getLsbD_and_widthMask, BitVec.getLsbD_setWidth, decide_eq_true hi, Bool.true_and]
  by_cases hin : i < w.bits
  · cases left with
    | true =>
      simp only [if_true, BitVec.getLsbD_or, BitVec.getLsbD_shiftLeft, BitVec.getLsbD_ushiftRight,
        BitVec.getLsbD_setWidth, decide_eq_true hin, decide_eq_true hi, Bool.and_true,
        Bool.true_and]
      congr 1
      · by_cases hic : i < c
        · simp [hic]
        · simp [hic, show i - c < 32 by omega]
      · by_cases hlt : w.bits - c + i < 32
        · simp [hlt]
        · simp [hlt, BitVec.getLsbD_of_ge s (w.bits - c + i) (by omega)]
    | false =>
      simp only [Bool.false_eq_true, if_false, BitVec.getLsbD_or, BitVec.getLsbD_shiftLeft,
        BitVec.getLsbD_ushiftRight, BitVec.getLsbD_setWidth, decide_eq_true hin,
        decide_eq_true hi, Bool.and_true, Bool.true_and]
      congr 1
      · by_cases hlt : c + i < 32
        · simp [hlt]
        · simp [hlt, BitVec.getLsbD_of_ge d (c + i) (by omega)]
      · by_cases hic : i < w.bits - c
        · simp [hic]
        · simp [hic, show i - (w.bits - c) < 32 by omega]
  · rw [decide_eq_false hin, Bool.and_false, BitVec.getLsbD_of_ge _ i (by omega)]

/-! ## The flags -/

theorem getLsbD_setBit (e : U32) (b : Bool) {k : Nat} (hk : k < 32) (j : Nat) :
    (setBit e (1#32 <<< k) b).getLsbD j = if j = k then b else e.getLsbD j := by
  have hflag := getLsbD_flag hk j
  unfold setBit
  cases b with
  | true =>
    rw [if_pos rfl, BitVec.getLsbD_or, hflag]
    by_cases hj : j = k <;> simp [hj]
  | false =>
    rw [if_neg Bool.false_ne_true, BitVec.getLsbD_and, BitVec.getLsbD_not, hflag]
    by_cases hj : j = k
    · simp [hj]
    · simpa [hj] using fun h => BitVec.lt_of_getLsbD h

/-- The flag word that a double shift puts together. -/
def shiftWord (e : U32) (cf sf zf pf of : Bool) : U32 :=
  setBit (setBit (setBit (setBit (setBit (setBit e flagCF cf) flagSF sf) flagZF zf) flagPF pf)
    flagAF true) flagOF of

theorem getLsbD_shiftWord (e : U32) (cf sf zf pf of : Bool) (j : Nat) :
    (shiftWord e cf sf zf pf of).getLsbD j =
      if j = 11 then of else if j = 4 then true else if j = 2 then pf else if j = 6 then zf
      else if j = 7 then sf else if j = 0 then cf else e.getLsbD j := by
  unfold shiftWord flagCF flagSF flagZF flagPF flagAF flagOF
  simp only [getLsbD_setBit _ _ (show 11 < 32 by decide),
    getLsbD_setBit _ _ (show 4 < 32 by decide),
    getLsbD_setBit _ _ (show 2 < 32 by decide), getLsbD_setBit _ _ (show 6 < 32 by decide),
    getLsbD_setBit _ _ (show 7 < 32 by decide), getLsbD_setBit _ _ (show 0 < 32 by decide)]

/-- What the code computes, in the words of the manual. -/
theorem doubleShift_eq (left : Bool) (dst src count : U32) (w : Width) (e : U32) :
    let c := count.toNat % 32
    let d := operand w dst
    let s := operand w src
    let r := concatShift left d s c
    doubleShift left dst src count w e =
      if c = 0 then (true, none)
      else if w.bits < c then (false, none)
      else (true, some (r.setWidth 32, shiftWord e (lastBitOut left d c) r.msb (decide (r = 0))
        (evenParity (r.setWidth 32))
        (r.msb != (if c = 1 then d else concatShift left d s (c - 1)).msb))) := by
  have hw := w.bits_pos
  have hcount : (count &&& 31).toNat = count.toNat % 32 := by
    rw [BitVec.toNat_and]
    exact Nat.and_two_pow_sub_one_eq_mod count.toNat 5
  dsimp only
  unfold doubleShift
  dsimp only
  rw [hcount]
  generalize hc : count.toNat % 32 = c
  by_cases hzero : c = 0
  · rw [if_pos (Or.inl hzero), if_pos hzero, hzero]
    rfl
  rw [if_neg hzero]
  by_cases hle : c ≤ w.bits
  · have hprev : (if c = 1 then dst &&& widthMask w
        else if left then
          (dst &&& widthMask w) <<< (c - 1) ||| (src &&& widthMask w) >>> (w.bits - c + 1)
        else (dst &&& widthMask w) >>> (c - 1) ||| (src &&& widthMask w) <<< (w.bits - c + 1)) &&&
          widthMask w = (if c = 1 then operand w dst
            else concatShift left (operand w dst) (operand w src) (c - 1)).setWidth 32 := by
      by_cases hone : c = 1
      · rw [if_pos hone, if_pos hone, BitVec.and_assoc, BitVec.and_self, operand_eq_setWidth]
      · rw [if_neg hone, if_neg hone, operand_eq_setWidth dst, operand_eq_setWidth src,
          show w.bits - c + 1 = w.bits - (c - 1) by omega,
          shifted_and_widthMask left _ _ (by omega)]
    have hbit (v : BitVec w.bits) : (v.setWidth 32).getLsbD (w.bits - 1) = v.msb := by
      rw [BitVec.getLsbD_setWidth, decide_eq_true (by omega), Bool.true_and,
        BitVec.msb_eq_getLsbD_last]
    have hcf : (if left then bit (dst &&& widthMask w) (w.bits - c)
        else bit (dst &&& widthMask w) (c - 1)) = lastBitOut left (operand w dst) c := by
      unfold lastBitOut
      rw [operand_eq_setWidth, bit_eq_getLsbD, bit_eq_getLsbD, BitVec.getLsbD_setWidth,
        BitVec.getLsbD_setWidth, decide_eq_true (show w.bits - c < 32 by omega),
        decide_eq_true (show c - 1 < 32 by omega), BitVec.getMsbD,
        decide_eq_true (show c - 1 < w.bits by omega),
        show w.bits - 1 - (c - 1) = w.bits - c by omega]
      simp
    rw [if_neg (by simp [hzero, hle]), if_neg (show ¬ w.bits < c by omega), hprev, hcf,
      operand_eq_setWidth dst, operand_eq_setWidth src, shifted_and_widthMask left _ _ hle,
      bit_eq_getLsbD, bit_eq_getLsbD, BitVec.getLsbD_xor, hbit, hbit, decide_eq_true hle,
      decide_eq_decide.mpr (setWidth_operand_eq_zero_iff _)]
    rfl
  · rw [if_pos (Or.inr (decide_eq_false hle)), if_pos (by omega), decide_eq_false hle]

/-- The flag word of a double shift, by its bits. -/
theorem shiftWord_flags (e : U32) (cf sf zf pf of : Bool) :
    let e' := shiftWord e cf sf zf pf of
    cfOf e' = cf ∧ sfOf e' = sf ∧ zfOf e' = zf ∧ pfOf e' = pf ∧ ofOf e' = of := by
  dsimp only
  unfold cfOf sfOf zfOf pfOf ofOf
  simp only [getLsbD_shiftWord]
  simp

/-- The five regimes of the count: none, and beyond the width or not, with one apart. -/
theorem doubleShift_cases (left : Bool) (dst src count : U32) (w : Width) (e : U32) :
    let c := count.toNat % 32
    (c = 0 → doubleShift left dst src count w e = (true, none)) ∧
    (w.bits < c → doubleShift left dst src count w e = (false, none)) ∧
    (1 ≤ c → c ≤ w.bits → ∃ (r : BitVec w.bits) (e' : U32),
      doubleShift left dst src count w e = (true, some (r.setWidth 32, e')) ∧
        DoubleShifted left (operand w dst) (operand w src) c e r e') := by
  intro c
  have heq := doubleShift_eq left dst src count w e
  dsimp only at heq
  refine ⟨fun hzero => ?_, fun hwide => ?_, fun hone hle => ?_⟩
  · rw [heq, if_pos hzero]
  · rw [heq, if_neg (show ¬ count.toNat % 32 = 0 by omega), if_pos hwide]
  · rw [if_neg (show ¬ count.toNat % 32 = 0 by omega),
      if_neg (show ¬ w.bits < count.toNat % 32 by omega)] at heq
    obtain ⟨hcf, hsf, hzf, hpf, hof⟩ := shiftWord_flags e
      (lastBitOut left (operand w dst) c) (concatShift left (operand w dst) (operand w src) c).msb
      (decide (concatShift left (operand w dst) (operand w src) c = 0))
      (evenParity ((concatShift left (operand w dst) (operand w src) c).setWidth 32))
      ((concatShift left (operand w dst) (operand w src) c).msb !=
        (if c = 1 then operand w dst
          else concatShift left (operand w dst) (operand w src) (c - 1)).msb)
    refine ⟨_, _, heq, ⟨hzf, hsf, ?_⟩, rfl, hcf, fun hc => ?_, fun j hj => ?_⟩
    · rw [hpf, lowByteOnes_setWidth]
    · rw [hof, if_pos hc]
    · simp only [List.mem_cons, List.not_mem_nil, or_false, not_or] at hj
      simp only [getLsbD_shiftWord, hj, if_false]

/-! ## The shifts on the way -/

theorem cShl_of_lt {n : Nat} (v : U32) (hn : n < 32) : cShl v n = some (v <<< n) := if_pos hn

theorem cShr_of_lt {n : Nat} (v : U32) (hn : n < 32) : cShr v n = some (v >>> n) := if_pos hn

theorem evaluatedMask_eq (w : Width) : evaluatedMask w = some (widthMask w) := by
  cases w <;> rfl

theorem mapM_cShr (r : U32) :
    (List.range 8).mapM (cShr r) = some ((List.range 8).map fun i => r >>> i) := by
  have h (l : List Nat) (hl : ∀ i ∈ l, i < 32) :
      l.mapM (cShr r) = some (l.map fun i => r >>> i) := by
    induction l with
    | nil => rfl
    | cons i l ih =>
      rw [List.mapM_cons, cShr_of_lt r (hl i (by simp)), ih fun j hj => hl j (by simp [hj])]
      rfl
  exact h _ fun i hi => by
    rw [List.mem_range] at hi
    omega

/-- The bits that the loop folds together are the parity of the low byte. -/
theorem foldl_parity (r : U32) :
    decide (((List.range 8).map fun i => r >>> i).foldl (fun p v => p ^^^ (v &&& 1)) 0 = 0) =
      evenParity r := by
  have hbit (v : U32) (p : Bool) : BitVec.ofNat 32 p.toNat ^^^ (v &&& 1) =
      BitVec.ofNat 32 (p ^^ v.getLsbD 0).toNat := by
    have hone : v &&& 1 = BitVec.ofNat 32 (v.getLsbD 0).toNat := and_one_eq v
    rw [hone]
    cases p <;> cases v.getLsbD 0 <;> rfl
  have hfold (l : List Nat) (p : Bool) :
      (l.map fun i => r >>> i).foldl (fun p v => p ^^^ (v &&& 1)) (BitVec.ofNat 32 p.toNat) =
        BitVec.ofNat 32 (l.foldl (fun p i => p ^^ r.getLsbD i) p).toNat := by
    induction l generalizing p with
    | nil => rfl
    | cons i l ih =>
      rw [List.map_cons, List.foldl_cons, List.foldl_cons, hbit, ih, BitVec.getLsbD_ushiftRight,
        Nat.add_zero]
  have hzero := hfold (List.range 8) false
  rw [show BitVec.ofNat 32 false.toNat = (0 : U32) from rfl] at hzero
  rw [hzero, evenParity_eq]
  unfold lowByteOnes
  refine decide_eq_decide.mpr ?_
  simp only [List.range, List.range.loop, List.foldl_cons, List.foldl_nil, List.countP_cons,
    List.countP_nil, BitVec.testBit_toNat]
  generalize r.getLsbD 0 = b0
  generalize r.getLsbD 1 = b1
  generalize r.getLsbD 2 = b2
  generalize r.getLsbD 3 = b3
  generalize r.getLsbD 4 = b4
  generalize r.getLsbD 5 = b5
  generalize r.getLsbD 6 = b6
  generalize r.getLsbD 7 = b7
  revert b0 b1 b2 b3 b4 b5 b6 b7
  decide

/-- Every shift that is evaluated has a meaning. -/
theorem doubleShiftEvaluated_eq (left : Bool) (dst src count : U32) (w : Width) (e : U32) :
    doubleShiftEvaluated left dst src count w e = some (doubleShift left dst src count w e) := by
  have hw := w.bits_pos
  have hcount : (count &&& 31).toNat < 32 := by
    rw [BitVec.toNat_and]
    exact Nat.and_lt_two_pow _ (by decide : (31#32).toNat < 2 ^ 5)
  unfold doubleShiftEvaluated doubleShift
  dsimp only
  rw [evaluatedMask_eq]
  change (if _ then _ else _) = some _
  by_cases hnone : (count &&& 31).toNat = 0 ∨ decide ((count &&& 31).toNat ≤ w.bits) = false
  · rw [if_pos hnone, if_pos hnone]
    rfl
  · rw [if_neg hnone, if_neg hnone]
    simp only [not_or, decide_eq_false_iff_not, not_not] at hnone
    obtain ⟨hpos, hle⟩ := hnone
    generalize (count &&& 31).toNat = c at *
    have hbits (v : U32) := cShr_of_lt v (show w.bits - 1 < 32 by omega)
    rcases Nat.lt_or_ge 1 c with hone | hone
    · cases left <;>
        simp only [if_true, if_false, Bool.false_eq_true, if_neg (show ¬ c = 1 by omega),
          cShl_of_lt _ hcount, cShr_of_lt _ hcount,
          cShl_of_lt _ (show c - 1 < 32 by omega), cShr_of_lt _ (show c - 1 < 32 by omega),
          cShl_of_lt _ (show w.bits - c < 32 by omega),
          cShr_of_lt _ (show w.bits - c < 32 by omega),
          cShl_of_lt _ (show w.bits - c + 1 < 32 by omega),
          cShr_of_lt _ (show w.bits - c + 1 < 32 by omega), hbits, mapM_cShr, foldl_parity,
          Option.bind_eq_bind, Option.bind_some, pure, bit] <;> rfl
    · obtain rfl : c = 1 := by omega
      cases left <;>
        simp only [if_true, if_false, Bool.false_eq_true,
          cShl_of_lt _ (show 1 < 32 by omega), cShr_of_lt _ (show 1 < 32 by omega),
          cShl_of_lt _ (show 1 - 1 < 32 by omega), cShr_of_lt _ (show 1 - 1 < 32 by omega),
          cShl_of_lt _ (show w.bits - 1 < 32 by omega), hbits, mapM_cShr, foldl_parity,
          Option.bind_eq_bind, Option.bind_some, pure, bit] <;> rfl

end Value

/-! ## The three ways to a double shift -/

/-- A decoded SHLD or SHRD: a place, a register of its width, and an immediate count or CL. -/
structure IsDoubleShift (i : Insn) (w : Width) : Prop where
  place : IsPlace i.operand0 w
  source : i.operand1.kind = .reg
  size : i.operand1.size = w.bytes
  count : i.operand2.kind = .imm ∨ i.operand2.kind = .reg ∧ i.operand2.size = 1

def countOf (i : Insn) (s : Ctx Host) : U32 :=
  if i.operand2.kind = .imm then i.operand2.imm else regRead s.cpu.toCpuState i.operand2.reg .byte

/-- A value and explicit flags in the place of a double shift. -/
def shiftedState (m : Mem) (i : Insn) (w : Width) (s : Ctx Host) (r e : U32) : Ctx Host :=
  (if i.operand0.kind = .mem then stored m s i.operand0 w r
    else s.withRegs (regWrite s.cpu.toCpuState i.operand0.reg w r)).withFlags (flagsSetExplicit e)

section Exact

variable (m : Mem) (i : Insn) (w : Width) (s : Ctx Host) (left : Bool)

/-- The destination can be read. -/
def Readable : Prop :=
  i.operand0.kind = .mem → Placed (m.place Memory.memRead) (effectiveAddress s.cpu i.operand0).toNat
    w.bytes

/-- What the interpreter, the function of `cpu.c` and that of the WebAssembly module do with a
count: nothing, a report, or the same result and flags. -/
structure DoubleShiftExact (other : OtherOp → Insn → Exec Host Unit) : Prop where
  nothing : (countOf i s).toNat % 32 = 0 → Readable m i w s →
    executeDecoded (guestMem m) other i s = .ok () (behindInsn i s s) ∧
      (∀ d, cpuDoubleShift32 d (regRead s.cpu.toCpuState i.operand1.reg w) (countOf i s) left s =
        s) ∧
      wasmDoubleShift s.cpu.flags (destination m s i.operand0 w)
        (regRead s.cpu.toCpuState i.operand1.reg w) (countOf i s) w left =
          (destination m s i.operand0 w, s.cpu.flags)
  undefined : w.bits < (countOf i s).toNat % 32 → Readable m i w s →
    ∃ t, executeDecoded (guestMem m) other i s = .error (.fault .unsupported 0) t ∧
      t.cpu = s.cpu ∧ t.mem = s.mem ∧ t.seg = s.seg
  same : 1 ≤ (countOf i s).toNat % 32 → (countOf i s).toNat % 32 ≤ w.bits →
    Exchangeable m s i.operand0 w.bytes → ∃ (r : BitVec w.bits) (e : U32),
      DoubleShifted left (operand w (destination m s i.operand0 w))
        (operand w (regRead s.cpu.toCpuState i.operand1.reg w)) ((countOf i s).toNat % 32)
        (eflags s.cpu.flags) r e ∧
      eflags (flagsSetExplicit e) = e ∧
      executeDecoded (guestMem m) other i s =
        .ok () (behindInsn i s (shiftedState m i w s (r.setWidth 32) e)) ∧
      wasmDoubleShift s.cpu.flags (destination m s i.operand0 w)
        (regRead s.cpu.toCpuState i.operand1.reg w) (countOf i s) w left =
          (r.setWidth 32, flagsSetExplicit e) ∧
      (w = .dword → ∀ d, PointsAt m s i.operand0 w.bytes d →
        SameOutcome (shiftedState m i w s (r.setWidth 32) e)
          (cpuDoubleShift32 d (regRead s.cpu.toCpuState i.operand1.reg w) (countOf i s) left s))

variable {m i w s left}

/-- The word that is put together keeps the fixed bits. -/
theorem eflags_shifted {f : Flags} {n c : Nat} {d s r : BitVec n} {e : U32}
    (h : DoubleShifted left d s c (eflags f) r e) :
    eflags (flagsSetExplicit e) = e := by
  refine BitVec.eq_of_getLsbD_eq fun j _ => ?_
  rw [eflags_explicit]
  by_cases hj : j ∈ [0, 2, 4, 6, 7, 11]
  · simp only [List.mem_cons, List.not_mem_nil, or_false] at hj
    rcases hj with rfl | rfl | rfl | rfl | rfl | rfl <;> simp [flagBits, eflagsFixed]
  · rw [h.others j hj, getLsbD_eflags]
    simp only [List.mem_cons, List.not_mem_nil, or_false, not_or] at hj
    simp [flagBits, hj]

theorem readOperand_count (hi : IsDoubleShift i w) :
    readOperand (guestMem m) i.operand2 s = .ok (countOf i s) s := by
  unfold countOf
  rcases hi.count with himm | ⟨hreg, hsize⟩
  · rw [if_pos himm]
    exact readOperand_imm _ himm
  · rw [if_neg (by rw [hreg]; decide)]
    exact readOperand_reg _ hreg (by rw [hsize]; rfl)

theorem readOperand_readable (hm : m.WellFormed) (hi : IsDoubleShift i w) (h : Readable m i w s) :
    readOperand (guestMem m) i.operand0 s = .ok (destination m s i.operand0 w) s := by
  obtain ⟨hk | hk, hsize⟩ := hi.place
  · rw [readOperand_reg _ hk (hsize ▸ ofBytes_bytes w), destination, if_neg (by rw [hk]; decide)]
  · exact readOperand_placed hm hk hsize (h hk)

/-- What the interpreter does once its operands are read. -/
theorem executeDoubleShift_read (hm : m.WellFormed) (hi : IsDoubleShift i w)
    (h : Readable m i w s) :
    executeDoubleShift (guestMem m) left i s =
      (match doubleShift left (destination m s i.operand0 w)
          (regRead s.cpu.toCpuState i.operand1.reg w) (countOf i s) w (eflags s.cpu.flags) with
        | (false, none) => unsupported
        | (true, none) => pure ()
        | (_, some (r, f)) => do
          writeOperand (guestMem m) i.operand0 r
          setExplicit f) s := by
  have hsize : Width.ofBytes i.operand1.size = some w := hi.size ▸ ofBytes_bytes w
  have hdst : Width.ofBytes i.operand0.size = some w := hi.place.2 ▸ ofBytes_bytes w
  unfold executeDoubleShift
  rewrite [askFlags_bind, bind_ok (readOperand_readable hm hi h),
    bind_ok (readOperand_reg (guestMem m) hi.source hsize), bind_ok (readOperand_count hi), hdst,
    orFatal_bind_some]
  rcases doubleShift left (destination m s i.operand0 w)
    (regRead s.cpu.toCpuState i.operand1.reg w) (countOf i s) w (eflags s.cpu.flags) with
    ⟨_ | _, _ | ⟨r, f⟩⟩ <;> rfl

theorem executeDoubleShift_write (hm : m.WellFormed) (hi : IsDoubleShift i w)
    (h : Exchangeable m s i.operand0 w.bytes) {r e : U32}
    (hshift : doubleShift left (destination m s i.operand0 w)
      (regRead s.cpu.toCpuState i.operand1.reg w) (countOf i s) w (eflags s.cpu.flags) =
        (true, some (r, e))) :
    executeDoubleShift (guestMem m) left i s = .ok () (shiftedState m i w s r e) := by
  rw [executeDoubleShift_read hm hi fun hk => (h hk).1, hshift]
  dsimp only
  unfold shiftedState
  by_cases hk : i.operand0.kind = .mem
  · simp only [if_pos hk]
    rw [bind_ok (writeOperand_stored hm hk hi.place.2 h r)]
    rfl
  · have hdst : Width.ofBytes i.operand0.size = some w := hi.place.2 ▸ ofBytes_bytes w
    simp only [if_neg hk]
    rw [bind_ok (writeOperand_reg _ (hi.place.1.resolve_right hk) hdst r)]
    rfl

/-- The pointer leaves what the interpreter leaves. -/
theorem cpuDoubleShift32_same (hw : w = .dword) (h : Exchangeable m s i.operand0 w.bytes)
    {source count r e : U32}
    (hshift : doubleShift left (destination m s i.operand0 w) source count w
      (eflags s.cpu.flags) = (true, some (r, e))) {d : Pointer}
    (hd : PointsAt m s i.operand0 w.bytes d) :
    SameOutcome (shiftedState m i w s r e) (cpuDoubleShift32 d source count left s) := by
  subst hw
  have hload := load_pointsAt hd
  unfold cpuDoubleShift32 shiftedState
  rw [hload, hshift]
  cases d with
  | host p =>
    obtain ⟨hk, hrun⟩ := hd
    simp only [if_pos hk]
    exact ⟨rfl, (bytes_stored hrun (h hk).2 r).symm⟩
  | reg q =>
    obtain ⟨hk, rfl⟩ := hd
    simp only [if_neg (show ¬ i.operand0.kind = .mem by rw [hk]; decide)]
    exact ⟨rfl, rfl⟩

theorem doubleShiftExact (hm : m.WellFormed) (other : OtherOp → Insn → Exec Host Unit)
    (hop : i.op = if left then .shld else .shrd) (hi : IsDoubleShift i w) :
    DoubleShiftExact m i w s left other := by
  set s₀ : Ctx Host := { s with nextEip := s.cpu.eip + i.length } with hs₀
  have hexecute : execute (guestMem m) other i s₀ = executeDoubleShift (guestMem m) left i s₀ := by
    unfold execute
    rw [hop]
    cases left <;> rfl
  have hread := fun h => @executeDoubleShift_read m i w s₀ left hm hi h
  obtain ⟨hnothing, hwide, hdefined⟩ := doubleShift_cases left (destination m s i.operand0 w)
    (regRead s.cpu.toCpuState i.operand1.reg w) (countOf i s) w (eflags s.cpu.flags)
  refine ⟨fun hzero h => ⟨?_, fun d => ?_, ?_⟩, fun hcount h => ?_, fun hone hle h => ?_⟩
  · have hexec : execute (guestMem m) other i s₀ = .ok () s₀ := by
      rw [hexecute, hread h]
      exact congrArg (fun out => (match out with
        | (false, none) => unsupported
        | (true, none) => pure ()
        | (_, some (r, f)) => do
          writeOperand (guestMem m) i.operand0 r
          setExplicit f : Exec Host Unit) s₀) (hnothing hzero)
    exact executeDecoded_ok _ other hexec
  · unfold cpuDoubleShift32
    rw [(doubleShift_cases left (d.load s .dword) _ (countOf i s) .dword _).1 hzero]
  · unfold wasmDoubleShift
    rw [hnothing hzero]
  · have hexec : execute (guestMem m) other i s₀ = .error (.fault .unsupported 0) s₀ := by
      rw [hexecute, hread h]
      exact congrArg (fun out => (match out with
        | (false, none) => unsupported
        | (true, none) => pure ()
        | (_, some (r, f)) => do
          writeOperand (guestMem m) i.operand0 r
          setExplicit f : Exec Host Unit) s₀) (hwide hcount)
    exact ⟨s₀, executeDecoded_error _ other hexec, rfl, rfl, rfl⟩
  · obtain ⟨r, e, hshift, hshifted⟩ := hdefined hone hle
    have hexec : execute (guestMem m) other i s₀ =
        .ok () (shiftedState m i w s₀ (r.setWidth 32) e) := by
      rw [hexecute]
      exact @executeDoubleShift_write m i w s₀ left hm hi h _ _ hshift
    have hstate : ({ shiftedState m i w s₀ (r.setWidth 32) e with
        cpu := { (shiftedState m i w s₀ (r.setWidth 32) e).cpu with
          eip := (shiftedState m i w s₀ (r.setWidth 32) e).nextEip } } : Ctx Host) =
        behindInsn i s (shiftedState m i w s (r.setWidth 32) e) := by
      unfold shiftedState
      split_ifs <;> rfl
    have hdone := executeDecoded_ok _ other hexec
    rw [hstate] at hdone
    refine ⟨r, e, hshifted, eflags_shifted hshifted, hdone, ?_, fun hw d hd => ?_⟩
    · unfold wasmDoubleShift
      rw [hshift]
    · exact cpuDoubleShift32_same hw h hshift hd

end Exact

/-! ## The result -/

/-- A double shift is a shift of the concatenation in every regime of the count, every shift that
C evaluates has a meaning, and the three ways to it leave the same. -/
theorem double_shift_exact :
    (∀ (left : Bool) (dst src count : U32) (w : Width) (e : U32),
      let c := count.toNat % 32
      (c = 0 → doubleShift left dst src count w e = (true, none)) ∧
      (w.bits < c → doubleShift left dst src count w e = (false, none)) ∧
      (1 ≤ c → c ≤ w.bits → ∃ (r : BitVec w.bits) (e' : U32),
        doubleShift left dst src count w e = (true, some (r.setWidth 32, e')) ∧
          DoubleShifted left (operand w dst) (operand w src) c e r e') ∧
      doubleShiftEvaluated left dst src count w e = some (doubleShift left dst src count w e)) ∧
    ∀ (m : Mem) (other : OtherOp → Insn → Exec Host Unit) (i : Insn) (w : Width) (s : Ctx Host)
      (left : Bool), m.WellFormed → (i.op = if left then .shld else .shrd) → IsDoubleShift i w →
        DoubleShiftExact m i w s left other := by
  refine ⟨fun left dst src count w e => ?_, fun m other i w s left hm hop hi =>
    doubleShiftExact hm other hop hi⟩
  obtain ⟨hnothing, hwide, hdefined⟩ := doubleShift_cases left dst src count w e
  exact ⟨hnothing, hwide, hdefined, doubleShiftEvaluated_eq left dst src count w e⟩

/-- SHRD EAX, ECX, 11. -/
def shrdEax : Insn where
  length := 4
  op := .shrd
  operands := 3
  operand0 := ⟨.ds, .reg, 4, eax, none, none, 1, 0, 0, false, false, false⟩
  operand1 := ⟨.ds, .reg, 4, ecx, none, none, 1, 0, 0, false, false, false⟩
  operand2 := ⟨.ds, .imm, 1, eax, none, none, 1, 0, 11, false, false, false⟩
  addressWidth := 32

/-- Bit 9 of ECX comes in as bit 30 of EAX, whose own bit 8 is shifted out. -/
theorem shrdEax_exact :
    DoubleShiftExact ⟨0, 0, 0x1000, none, none⟩ shrdEax .dword filled false
      (fun _ _ => unsupported) ∧
    (doubleShift false (filled.cpu.reg eax) (filled.cpu.reg ecx) 11 .dword 0).2.map Prod.fst =
      some 0x40000000 :=
  ⟨double_shift_exact.2 ⟨0, 0, 0x1000, none, none⟩ (fun _ _ => unsupported) shrdEax .dword filled
    false (Memory.wellFormed_window rfl) rfl ⟨⟨.inl rfl, rfl⟩, rfl, rfl, .inl rfl⟩, by decide⟩

end X86Port.Cpu
