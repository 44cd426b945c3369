import X86Port.Cpu.Flags

/-!
# The bits of a flag word

What the masks and shifts of `flags.c` read, one bit at a time.

* `toNat_and_widthMask`, `getLsbD_and_widthMask`: an operand cut to its width.
* `eflags_cf` … `eflags_of`: each bit of the materialised word is the derived flag.
* `evenParity_eq`: the folded byte counts the bits of the low byte.
-/

namespace X86Port.Cpu

/-! ## Single bits -/

theorem decide_and_twoPow (v : U32) {k : Nat} (hk : k < 32) :
    decide (v &&& 1#32 <<< k ≠ 0) = v.getLsbD k := by
  have htwo : (1#32 <<< k) = BitVec.twoPow 32 k := rfl
  rw [htwo, BitVec.and_twoPow]
  cases h : v.getLsbD k with
  | false => simp
  | true =>
    have hne : BitVec.twoPow 32 k ≠ 0 := by
      intro hz
      have := congrArg (fun x : U32 => x.getLsbD k) hz
      simp [hk] at this
    simpa using hne

theorem bit_eq_getLsbD (v : U32) (i : Nat) : bit v i = v.getLsbD i := by
  have h := decide_and_twoPow (v >>> i) (k := 0) (by decide)
  unfold bit
  rw [show (1#32 <<< 0) = 1#32 from rfl] at h
  rw [show (0#32) = 0 from rfl, h, BitVec.getLsbD_ushiftRight, Nat.add_zero]

theorem getLsbD_flagIf (s : Bool) {k : Nat} (hk : k < 32) (i : Nat) :
    (flagIf s (1#32 <<< k)).getLsbD i = (s && decide (i = k)) := by
  have htwo : (1#32 <<< k) = BitVec.twoPow 32 k := rfl
  unfold flagIf
  cases s with
  | false => simp
  | true =>
    rw [if_pos rfl, htwo, BitVec.getLsbD_twoPow]
    by_cases h : i = k <;> simp [h, hk, eq_comm (a := k)]

/-! ## Widths -/

theorem Width.bits_pos (w : Width) : 8 ≤ w.bits ∧ w.bits ≤ 32 := by
  cases w <;> decide

theorem widthMask_eq (w : Width) : widthMask w = BitVec.ofNat 32 (2 ^ w.bits - 1) := by
  cases w <;> rfl

theorem getLsbD_widthMask (w : Width) (i : Nat) :
    (widthMask w).getLsbD i = decide (i < w.bits) := by
  have := w.bits_pos
  rw [widthMask_eq, BitVec.getLsbD_ofNat, Nat.testBit_two_pow_sub_one]
  by_cases h : i < w.bits
  · simp [h, show i < 32 by omega]
  · simp [h]

theorem getLsbD_and_widthMask (v : U32) (w : Width) (i : Nat) :
    (v &&& widthMask w).getLsbD i = (v.getLsbD i && decide (i < w.bits)) := by
  rw [BitVec.getLsbD_and, getLsbD_widthMask]

theorem toNat_widthMask (w : Width) : (widthMask w).toNat = 2 ^ w.bits - 1 := by
  cases w <;> rfl

theorem toNat_and_widthMask (v : U32) (w : Width) :
    (v &&& widthMask w).toNat = v.toNat % 2 ^ w.bits := by
  rw [BitVec.toNat_and, toNat_widthMask, Nat.and_two_pow_sub_one_eq_mod]

theorem and_widthMask_of_lt {v : U32} {w : Width} (h : v.toNat < 2 ^ w.bits) :
    v &&& widthMask w = v := by
  apply BitVec.eq_of_toNat_eq
  rw [toNat_and_widthMask, Nat.mod_eq_of_lt h]

theorem toNat_and_widthMask_lt (v : U32) (w : Width) :
    (v &&& widthMask w).toNat < 2 ^ w.bits := by
  rw [toNat_and_widthMask]
  exact Nat.mod_lt _ (Nat.two_pow_pos _)

theorem msb_eq (v : U32) (w : Width) : msb v w = v.getLsbD (w.bits - 1) :=
  bit_eq_getLsbD v _

/-- The top bit of a value that fits its width. -/
theorem msb_eq_decide {v : U32} {w : Width} (h : v.toNat < 2 ^ w.bits) :
    msb v w = decide (2 ^ (w.bits - 1) ≤ v.toNat) := by
  rw [msb_eq, ← BitVec.testBit_toNat, Nat.testBit_eq_decide_div_mod_eq]
  cases w <;> simp only [Width.bits, Width.bytes] at h ⊢ <;> grind

/-! ## The materialised word -/

/-- The six flags at their positions, whatever order they were collected in. -/
def flagBits (cf pf af zf sf of : Bool) (i : Nat) : Bool :=
  cf && decide (i = 0) || pf && decide (i = 2) || af && decide (i = 4) ||
    zf && decide (i = 6) || sf && decide (i = 7) || of && decide (i = 11)

theorem getLsbD_flag {k : Nat} (hk : k < 32) (i : Nat) :
    (1#32 <<< k).getLsbD i = decide (i = k) := by
  have h := getLsbD_flagIf true hk i
  simpa [flagIf] using h

theorem getLsbD_flagIf_flags (s : Bool) (i : Nat) :
    (flagIf s flagCF).getLsbD i = (s && decide (i = 0)) ∧
      (flagIf s flagPF).getLsbD i = (s && decide (i = 2)) ∧
      (flagIf s flagAF).getLsbD i = (s && decide (i = 4)) ∧
      (flagIf s flagZF).getLsbD i = (s && decide (i = 6)) ∧
      (flagIf s flagSF).getLsbD i = (s && decide (i = 7)) ∧
      (flagIf s flagOF).getLsbD i = (s && decide (i = 11)) :=
  ⟨getLsbD_flagIf s (by decide) i, getLsbD_flagIf s (by decide) i,
    getLsbD_flagIf s (by decide) i, getLsbD_flagIf s (by decide) i,
    getLsbD_flagIf s (by decide) i, getLsbD_flagIf s (by decide) i⟩

theorem getLsbD_arithFlags (i : Nat) :
    arithFlags.getLsbD i = flagBits true true true true true true i := by
  unfold arithFlags flagBits flagCF flagPF flagAF flagZF flagSF flagOF
  simp only [BitVec.getLsbD_or, Bool.true_and]
  rw [getLsbD_flag (by decide), getLsbD_flag (by decide), getLsbD_flag (by decide),
    getLsbD_flag (by decide), getLsbD_flag (by decide), getLsbD_flag (by decide)]

/-- The six flags of a word that states them outright. -/
theorem getLsbD_and_arithFlags (v : U32) (i : Nat) :
    (v &&& arithFlags).getLsbD i =
      flagBits (v.getLsbD 0) (v.getLsbD 2) (v.getLsbD 4) (v.getLsbD 6) (v.getLsbD 7)
        (v.getLsbD 11) i := by
  have h : ∀ k, (v.getLsbD i && decide (i = k)) = (v.getLsbD k && decide (i = k)) := by
    intro k
    by_cases hk : i = k <;> simp [hk]
  rw [BitVec.getLsbD_and, getLsbD_arithFlags]
  unfold flagBits
  simp only [Bool.true_and, Bool.and_or_distrib_left, h]

/-- Every bit of the materialised word. -/
theorem getLsbD_eflags (f : Flags) (i : Nat) :
    (eflags f).getLsbD i = (eflagsFixed.getLsbD i ||
      flagBits (flagCf f) (flagPf f) (flagAf f) (flagZf f) (flagSf f) (flagOf f) i) := by
  unfold eflags
  cases hk : f.kind with
  | none => simp [flagBits, flagCf, flagPf, flagAf, flagZf, flagSf, flagOf, hk]
  | explicit =>
    have hcf : flagCf f = f.a.getLsbD 0 := by
      simp only [flagCf, hk]
      exact decide_and_twoPow f.a (by decide)
    have hpf : flagPf f = f.a.getLsbD 2 := by
      simp only [flagPf, hk]
      exact decide_and_twoPow f.a (by decide)
    have haf : flagAf f = f.a.getLsbD 4 := by
      simp only [flagAf, hk]
      exact decide_and_twoPow f.a (by decide)
    have hzf : flagZf f = f.a.getLsbD 6 := by
      simp only [flagZf, hk]
      exact decide_and_twoPow f.a (by decide)
    have hsf : flagSf f = f.a.getLsbD 7 := by
      simp only [flagSf, hk]
      exact decide_and_twoPow f.a (by decide)
    have hof : flagOf f = f.a.getLsbD 11 := by
      simp only [flagOf, hk]
      exact decide_and_twoPow f.a (by decide)
    rw [hcf, hpf, haf, hzf, hsf, hof, BitVec.getLsbD_or, getLsbD_and_arithFlags, Bool.or_comm]
  | logic =>
    have hcf : flagCf f = false := by simp only [flagCf, hk]
    have haf : flagAf f = false := by simp only [flagAf, hk]
    have hof : flagOf f = false := by simp only [flagOf, hk]
    rw [hcf, haf, hof]
    simp only [BitVec.getLsbD_or, getLsbD_flagIf_flags, flagBits, Bool.false_and, Bool.or_false,
      Bool.false_or]
    cases eflagsFixed.getLsbD i <;> cases flagPf f <;> cases flagZf f <;> cases flagSf f <;>
      simp [Bool.or_comm, Bool.or_assoc]
  | _ =>
    simp only [BitVec.getLsbD_or, getLsbD_flagIf_flags, flagBits, Bool.or_assoc]

section Word

variable (f : Flags)

theorem eflags_cf : (eflags f).getLsbD 0 = flagCf f := by
  rw [getLsbD_eflags]
  simp [flagBits, eflagsFixed]

theorem eflags_pf : (eflags f).getLsbD 2 = flagPf f := by
  rw [getLsbD_eflags]
  simp [flagBits, eflagsFixed]

theorem eflags_af : (eflags f).getLsbD 4 = flagAf f := by
  rw [getLsbD_eflags]
  simp [flagBits, eflagsFixed]

theorem eflags_zf : (eflags f).getLsbD 6 = flagZf f := by
  rw [getLsbD_eflags]
  simp [flagBits, eflagsFixed]

theorem eflags_sf : (eflags f).getLsbD 7 = flagSf f := by
  rw [getLsbD_eflags]
  simp [flagBits, eflagsFixed]

theorem eflags_of : (eflags f).getLsbD 11 = flagOf f := by
  rw [getLsbD_eflags]
  simp [flagBits, eflagsFixed]

end Word

theorem eflags_explicit (e : U32) (i : Nat) :
    (eflags (flagsSetExplicit e)).getLsbD i =
      (eflagsFixed.getLsbD i ||
        flagBits (e.getLsbD 0) (e.getLsbD 2) (e.getLsbD 4) (e.getLsbD 6) (e.getLsbD 7)
          (e.getLsbD 11) i) := by
  unfold eflags flagsSetExplicit
  dsimp only
  rw [BitVec.getLsbD_or, getLsbD_and_arithFlags, Bool.or_comm]

/-! ## Parity -/

/-- The number of ones among the low eight bits. -/
def lowByteOnes (v : Nat) : Nat := (List.range 8).countP fun i => v.testBit i

theorem evenParity_eq (r : U32) : evenParity r = decide (lowByteOnes r.toNat % 2 = 0) := by
  have hmask : ∀ i, i < 8 → (0xFF#32).getLsbD i = true := by decide
  unfold evenParity lowByteOnes
  rw [bit_eq_getLsbD]
  simp only [BitVec.getLsbD_not, BitVec.getLsbD_xor, BitVec.getLsbD_and,
    BitVec.getLsbD_ushiftRight, BitVec.testBit_toNat, Nat.reduceAdd, List.range, List.range.loop,
    List.countP_cons, List.countP_nil]
  rw [hmask 0 (by decide), hmask 1 (by decide), hmask 2 (by decide), hmask 3 (by decide),
    hmask 4 (by decide), hmask 5 (by decide), hmask 6 (by decide), hmask 7 (by decide)]
  generalize r.getLsbD 0 = b0
  generalize r.getLsbD 1 = b1
  generalize r.getLsbD 2 = b2
  generalize r.getLsbD 3 = b3
  generalize r.getLsbD 4 = b4
  generalize r.getLsbD 5 = b5
  generalize r.getLsbD 6 = b6
  generalize r.getLsbD 7 = b7
  revert b0 b1 b2 b3 b4 b5 b6 b7
  decide

end X86Port.Cpu
