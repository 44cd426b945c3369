import X86Port.Arm64.ArithmeticEffects

/-!
# Branches of the encoder

* `A64Branch.word`: a branch with its distance.
* `retarget_word`: `x86p_a64_emit_bind_to` changes the distance of a word, and nothing else, or
  finds that it does not fit.
* `decode_word`: the branch that the host takes.
-/

namespace X86Port.Arm64

open Lib

/-- The calls that make a site. -/
inductive A64Branch where
  | bcc (cc : BitVec 4)
  | b
  | cbzW (reg : RegNo)
  | cbnzW (reg : RegNo)
  | cbzX (reg : RegNo)
  | cbnzX (reg : RegNo)
  | tbz (reg : RegNo) (bit : U32)
  | tbnz (reg : RegNo) (bit : U32)
  | bl

namespace A64Branch

def emit : A64Branch → A64Emit → A64Site × A64Emit
  | bcc cc, e => e.bcc cc
  | b, e => e.b
  | cbzW reg, e => e.cbzW reg
  | cbnzW reg, e => e.cbnzW reg
  | cbzX reg, e => e.cbzX reg
  | cbnzX reg, e => e.cbnzX reg
  | tbz reg bit, e => e.tbz reg bit
  | tbnz reg bit, e => e.tbnz reg bit
  | bl, e => e.bl

/-- Whether the host goes there. -/
def taken : A64Branch → A64State → Bool
  | bcc cc, s => s.holds cc
  | b, _ | bl, _ => true
  | cbzW reg, s => decide (s.w reg = 0)
  | cbnzW reg, s => !decide (s.w reg = 0)
  | cbzX reg, s => decide (s.x reg = 0)
  | cbnzX reg, s => !decide (s.x reg = 0)
  | tbz reg bit, s => !(s.x reg).getLsbD bit.toNat
  | tbnz reg bit, s => (s.x reg).getLsbD bit.toNat

def links : A64Branch → Bool
  | bl => true
  | _ => false

/-- A bit number that no register has. -/
def Refused : A64Branch → Prop
  | tbz _ bit | tbnz _ bit => 63 < bit
  | _ => False

/-! ## Words -/

/-- The word without its distance. -/
def head : A64Branch → U32
  | bcc cc => 0x54000000#32 ||| inWord cc
  | b => 0x14000000#32
  | cbzW reg => 0x34000000#32 ||| inWord reg
  | cbnzW reg => 0x35000000#32 ||| inWord reg
  | cbzX reg => 0xB4000000#32 ||| inWord reg
  | cbnzX reg => 0xB5000000#32 ||| inWord reg
  | tbz reg bit =>
    0x36000000#32 ||| ((bit >>> 5) &&& 1#32) <<< 31 ||| (bit &&& 31#32) <<< 19 ||| inWord reg
  | tbnz reg bit =>
    0x37000000#32 ||| ((bit >>> 5) &&& 1#32) <<< 31 ||| (bit &&& 31#32) <<< 19 ||| inWord reg
  | bl => 0x94000000#32

/-- The bits of the distance, and their place. -/
def width : A64Branch → Nat
  | b | bl => 26
  | tbz _ _ | tbnz _ _ => 14
  | _ => 19

def place : A64Branch → Nat
  | b | bl => 0
  | _ => 5

/-- The word with a distance, in words. -/
def word (k : A64Branch) (off : Int) : U32 :=
  k.head ||| inWord (BitVec.ofInt k.width off) <<< k.place

def Fits (k : A64Branch) (off : Int) : Prop := -2 ^ (k.width - 1) ≤ off ∧ off < 2 ^ (k.width - 1)

instance (k : A64Branch) (off : Int) : Decidable (k.Fits off) := inferInstanceAs (Decidable (_ ∧ _))

theorem width_pos (k : A64Branch) : 0 < k.width := by
  cases k <;> exact Nat.succ_pos _

theorem fits_zero (k : A64Branch) : k.Fits 0 := by
  have hpos : (0 : Int) < 2 ^ (k.width - 1) := Int.pow_pos (by decide)
  exact ⟨by omega, hpos⟩

theorem word_zero (k : A64Branch) : k.word 0 = k.head := by
  have hzero : inWord (BitVec.ofInt k.width 0) <<< k.place = 0 := by cases k <;> rfl
  unfold word
  rw [hzero]
  exact BitVec.or_zero

/-! ## Distances -/

/-- The distance as the source cuts it. -/
theorem cut_distance {n : Nat} (hn : n ≤ 32) (off : Int) :
    BitVec.ofInt 32 off &&& BitVec.ofNat 32 (2 ^ n - 1) = inWord (BitVec.ofInt n off) := by
  have hdvd : ((2 ^ n : Nat) : Int) ∣ ((2 ^ 32 : Nat) : Int) :=
    Int.natCast_dvd_natCast.mpr (pow_dvd_pow 2 hn)
  have hback := Int.emod_nonneg off (show ((2 ^ 32 : Nat) : Int) ≠ 0 by decide)
  rw [and_ones_eq _ hn]
  refine congrArg inWord (BitVec.eq_of_toNat_eq ?_)
  rw [BitVec.toNat_setWidth, BitVec.toNat_ofInt, BitVec.toNat_ofInt,
    ← Int.emod_emod_of_dvd off hdvd,
    Int.toNat_emod hback (Int.natCast_nonneg _), Int.toNat_natCast]

/-- A word with its distance, under a mask. -/
theorem distance_masked {n k : Nat} {mask : U32} (rest : U32) (off : Int)
    (h : mask.extractLsb' k n = 0) :
    (rest ||| inWord (BitVec.ofInt n off) <<< k) &&& mask = rest &&& mask := by
  rw [BitVec.and_or_distrib_right, inWord, placed_masked_off _ h]
  exact BitVec.or_zero

section

variable (base : U32) {n : Nat} (v : BitVec n) (off off' : Int)

/-- Another distance, where it fits. -/
theorem changed {fits : Prop} [Decidable fits] {out : Prop} [Decidable out] (h : out ↔ ¬ fits)
    {word word' : U32} (hword : word = word') :
    (if out then none else some word) = if fits then some word' else none := by
  by_cases hfits : fits
  · rw [if_neg fun hout => h.mp hout hfits, if_pos hfits, hword]
  · rw [if_pos (h.mpr hfits), if_neg hfits]

theorem retarget26 (hbase : base &&& 0x7C000000 = 0x14000000) (hkeep : base &&& 0xFC000000 = base) :
    A64Emit.retarget (base ||| inWord (BitVec.ofInt 26 off) <<< 0) off' =
      if -2 ^ 25 ≤ off' ∧ off' < 2 ^ 25 then some (base ||| inWord (BitVec.ofInt 26 off') <<< 0)
      else none := by
  have hkind : (base ||| inWord (BitVec.ofInt 26 off) <<< 0) &&& 0x7C000000 = 0x14000000 :=
    (distance_masked base off rfl).trans hbase
  have hkept : (base ||| inWord (BitVec.ofInt 26 off) <<< 0) &&& 0xFC000000 = base :=
    (distance_masked base off rfl).trans hkeep
  have hcut : BitVec.ofInt 32 off' &&& 0x03FFFFFF = inWord (BitVec.ofInt 26 off') :=
    @cut_distance 26 (by decide) off'
  unfold A64Emit.retarget
  rw [if_pos hkind]
  refine changed (by omega) ?_
  rw [hkept, hcut, BitVec.shiftLeft_zero]

theorem retarget14 (rest : U32) (hrest : rest &&& 0x7E000000 = 0x36000000)
    (hkeep : rest &&& 0xFFF8001F#32 = rest) :
    A64Emit.retarget (rest ||| inWord (BitVec.ofInt 14 off) <<< 5) off' =
      if -2 ^ 13 ≤ off' ∧ off' < 2 ^ 13 then some (rest ||| inWord (BitVec.ofInt 14 off') <<< 5)
      else none := by
  have hkind : (rest ||| inWord (BitVec.ofInt 14 off) <<< 5) &&& 0x7E000000 = 0x36000000 :=
    (distance_masked rest off rfl).trans hrest
  have hother : (rest ||| inWord (BitVec.ofInt 14 off) <<< 5) &&& 0x7C000000 ≠ 0x14000000 := by
    intro h
    have hsub : _ &&& 0x7C000000 = (0x36000000 : U32) &&& 0x7C000000 := congrArg (· &&& _) hkind
    rw [BitVec.and_assoc, show (0x7E000000 : U32) &&& 0x7C000000 = 0x7C000000 from rfl, h] at hsub
    cases hsub
  have hkept : (rest ||| inWord (BitVec.ofInt 14 off) <<< 5) &&& 0xFFF8001F#32 = rest :=
    (distance_masked rest off rfl).trans hkeep
  have hcut : BitVec.ofInt 32 off' &&& 0x3FFF = inWord (BitVec.ofInt 14 off') :=
    @cut_distance 14 (by decide) off'
  unfold A64Emit.retarget
  rw [if_neg hother, if_pos hkind]
  refine changed (by omega) ?_
  rw [hkept, hcut]

theorem retarget19 (rest : U32) (hrest : rest &&& 0x7C000000 ≠ 0x14000000)
    (hrest' : rest &&& 0x7E000000 ≠ 0x36000000) (hkeep : rest &&& 0xFF00001F#32 = rest) :
    A64Emit.retarget (rest ||| inWord (BitVec.ofInt 19 off) <<< 5) off' =
      if -2 ^ 18 ≤ off' ∧ off' < 2 ^ 18 then some (rest ||| inWord (BitVec.ofInt 19 off') <<< 5)
      else none := by
  have hother : (rest ||| inWord (BitVec.ofInt 19 off) <<< 5) &&& 0x7C000000 ≠ 0x14000000 :=
    (distance_masked rest off rfl).trans_ne hrest
  have hother' : (rest ||| inWord (BitVec.ofInt 19 off) <<< 5) &&& 0x7E000000 ≠ 0x36000000 :=
    (distance_masked rest off rfl).trans_ne hrest'
  have hkept : (rest ||| inWord (BitVec.ofInt 19 off) <<< 5) &&& 0xFF00001F#32 = rest :=
    (distance_masked rest off rfl).trans hkeep
  have hcut : BitVec.ofInt 32 off' &&& 0x7FFFF = inWord (BitVec.ofInt 19 off') :=
    @cut_distance 19 (by decide) off'
  unfold A64Emit.retarget
  rw [if_neg hother, if_neg hother']
  refine changed (by omega) ?_
  rw [hkept, hcut]

/-- The low bits beside the opcode of B.cond, CBZ and CBNZ. -/
theorem retarget19_low (hbase : base &&& 0x7C000000 ≠ 0x14000000)
    (hbase' : base &&& 0x7E000000 ≠ 0x36000000) (hkeep : base &&& 0xFF00001F#32 = base)
    (hn : (0x7C000000 : U32).extractLsb' 0 n = 0 ∧ (0x7E000000 : U32).extractLsb' 0 n = 0 ∧
      (0xFF00001F#32).extractLsb' 0 n = BitVec.allOnes n) :
    A64Emit.retarget (base ||| inWord v ||| inWord (BitVec.ofInt 19 off) <<< 5) off' =
      if -2 ^ 18 ≤ off' ∧ off' < 2 ^ 18 then
        some (base ||| inWord v ||| inWord (BitVec.ofInt 19 off') <<< 5)
      else none := by
  have hoff : ∀ {mask : U32}, mask.extractLsb' 0 n = 0 →
      (base ||| inWord v) &&& mask = base &&& mask :=
    fun h => by
      rw [BitVec.and_or_distrib_right, inWord, lowest_masked_off v h]
      exact BitVec.or_zero
  refine retarget19 off off' _ ((hoff hn.1).trans_ne hbase) ((hoff hn.2.1).trans_ne hbase') ?_
  rw [BitVec.and_or_distrib_right,
      hkeep, inWord, lowest_masked_on v hn.2.2]

/-- The number of the bit that TBZ and TBNZ test, in its two places. -/
theorem testBit_places (bit : U32) (reg : RegNo) :
    base ||| ((bit >>> 5) &&& 1#32) <<< 31 ||| (bit &&& 31#32) <<< 19 ||| inWord reg =
      base ||| inWord ((bit >>> 5).setWidth 1 : BitVec 1) <<< 31 |||
        inWord (bit.setWidth 5 : BitVec 5) <<< 19 ||| inWord reg := by
  have hhigh : (bit >>> 5) &&& 1#32 = inWord ((bit >>> 5).setWidth 1 : BitVec 1) :=
    and_ones_eq _ (by decide : 1 ≤ 32)
  have hlow : bit &&& 31#32 = inWord (bit.setWidth 5 : BitVec 5) :=
    and_ones_eq _ (by decide : 5 ≤ 32)
  rw [hhigh, hlow]

theorem retarget14_test (bit : U32) (reg : RegNo) (hbase : base &&& 0x7E000000 = 0x36000000)
    (hkeep : base &&& 0xFFF8001F#32 = base) :
    A64Emit.retarget (base ||| ((bit >>> 5) &&& 1#32) <<< 31 ||| (bit &&& 31#32) <<< 19 |||
        inWord reg |||
        inWord (BitVec.ofInt 14 off) <<< 5) off' =
      if -2 ^ 13 ≤ off' ∧ off' < 2 ^ 13 then
        some (base ||| ((bit >>> 5) &&& 1#32) <<< 31 ||| (bit &&& 31#32) <<< 19 ||| inWord reg |||
          inWord (BitVec.ofInt 14 off') <<< 5)
      else none := by
  rw [testBit_places]
  refine retarget14 off off' _ ?_ ?_
  · rw [BitVec.and_or_distrib_right, BitVec.and_or_distrib_right, BitVec.and_or_distrib_right,
      hbase,
      inWord, inWord, inWord, placed_masked_off _ rfl, placed_masked_off _ rfl,
      lowest_masked_off _ rfl]
    rfl
  · rw [BitVec.and_or_distrib_right, BitVec.and_or_distrib_right, BitVec.and_or_distrib_right,
      hkeep,
      inWord, inWord, inWord, placed_masked_on _ rfl, placed_masked_on _ rfl,
      lowest_masked_on _ rfl]

end

theorem retarget_word (k : A64Branch) (off off' : Int) :
    A64Emit.retarget (k.word off) off' = if k.Fits off' then some (k.word off') else none := by
  have hlow4 : (0x7C000000 : U32).extractLsb' 0 4 = 0 ∧ (0x7E000000 : U32).extractLsb' 0 4 = 0 ∧
      (0xFF00001F#32).extractLsb' 0 4 = BitVec.allOnes 4 := ⟨rfl, rfl, rfl⟩
  have hlow5 : (0x7C000000 : U32).extractLsb' 0 5 = 0 ∧ (0x7E000000 : U32).extractLsb' 0 5 = 0 ∧
      (0xFF00001F#32).extractLsb' 0 5 = BitVec.allOnes 5 := ⟨rfl, rfl, rfl⟩
  cases k with
  | bcc cc => exact retarget19_low _ cc off off' (by decide) (by decide) rfl hlow4
  | b => exact retarget26 _ off off' rfl rfl
  | cbzW reg => exact retarget19_low _ reg off off' (by decide) (by decide) rfl hlow5
  | cbnzW reg => exact retarget19_low _ reg off off' (by decide) (by decide) rfl hlow5
  | cbzX reg => exact retarget19_low _ reg off off' (by decide) (by decide) rfl hlow5
  | cbnzX reg => exact retarget19_low _ reg off off' (by decide) (by decide) rfl hlow5
  | tbz reg bit => exact retarget14_test _ off off' bit reg rfl rfl
  | tbnz reg bit => exact retarget14_test _ off off' bit reg rfl rfl
  | bl => exact retarget26 _ off off' rfl rfl

/-! ## What the host makes of it -/

theorem or_swap (x y z : U32) : x ||| y ||| z = x ||| z ||| y := by
  rw [BitVec.or_assoc, BitVec.or_comm y, BitVec.or_assoc]

theorem decode_imm26 (link : Bool) (base : U32)
    (hbase : base = flagWord link <<< 31 ||| 0x14000000#32)
    (off : Int) :
    decode (base ||| inWord (BitVec.ofInt 26 off) <<< 0) =
      some (.branch link (BitVec.ofInt 26 off)) := by
  rw [hbase, BitVec.shiftLeft_zero]
  exact decode_branch link _

theorem decode_compare (sf nonzero : Bool) (reg : RegNo) (base : U32)
    (hbase : base = flagWord sf <<< 31 ||| 0x34000000#32 ||| flagWord nonzero <<< 24) (off : Int) :
    decode (base ||| inWord reg ||| inWord (BitVec.ofInt 19 off) <<< 5) =
      some (.compareBranch sf nonzero (BitVec.ofInt 19 off) reg) := by
  rw [hbase, or_swap]
  exact decode_compareBranch sf reg nonzero _

theorem decode_test (nonzero : Bool) (reg : RegNo) (bit base : U32)
    (hbase : base = 0x36000000#32 ||| flagWord nonzero <<< 24) (off : Int) :
    decode (base ||| ((bit >>> 5) &&& 1#32) <<< 31 ||| (bit &&& 31#32) <<< 19 ||| inWord reg |||
      inWord (BitVec.ofInt 14 off) <<< 5) =
        some (.testBranch ((bit >>> 5).setWidth 1 ++ bit.setWidth 5) nonzero (BitVec.ofInt 14 off)
          reg) := by
  rw [hbase, testBit_places, or_swap]
  exact decode_testBranch reg _ _ nonzero _

theorem toNat_testBit {bit : U32} (h : ¬ 63 < bit) :
    ((bit >>> 5).setWidth 1 ++ bit.setWidth 5 : BitVec 6).toNat = bit.toNat := by
  have hle : bit.toNat ≤ 63 := BitVec.not_lt.mp h
  rw [BitVec.toNat_append, BitVec.toNat_setWidth, BitVec.toNat_setWidth, BitVec.toNat_ushiftRight,
    Nat.shiftRight_eq_div_pow, Nat.shiftLeft_eq, ← Nat.shiftLeft_eq,
    ← Nat.shiftLeft_add_eq_or_of_lt (Nat.mod_lt _ (by decide)), Nat.shiftLeft_eq]
  omega

theorem toInt_distance {n : Nat} (hn : 0 < n) {off : Int}
    (h : -2 ^ (n - 1) ≤ off ∧ off < 2 ^ (n - 1)) :
    (BitVec.ofInt n off).toInt = off := by
  rw [BitVec.toInt_ofInt]
  obtain ⟨m, rfl⟩ := Nat.exists_eq_add_of_lt hn
  rw [Nat.zero_add, Nat.add_sub_cancel] at h
  have hpow : ((2 ^ (0 + m + 1) : Nat) : Int) = 2 * 2 ^ m := by
    rw [Nat.zero_add, Nat.pow_succ, Nat.mul_comm, Int.natCast_mul, Int.natCast_pow]
    rfl
  exact Int.bmod_eq_of_le (by omega) (by omega)

/-- The branch that the host takes. -/
theorem decode_word (k : A64Branch) (hk : ¬ k.Refused) {off : Int} (h : k.Fits off) :
    ∃ i, decode (k.word off) = some i ∧ i.links = k.links ∧
      ∀ s, i.branchTo s = some (k.taken s, off) := by
  have hback : (BitVec.ofInt k.width off).toInt = off := toInt_distance k.width_pos h
  cases k with
  | bcc cc =>
    have hword := decode_branchCond (BitVec.ofInt 19 off) cc
    rw [or_swap] at hword
    exact ⟨_, hword, rfl, fun s => congrArg (fun d => some (s.holds cc, d)) hback⟩
  | b =>
    exact ⟨_, decode_imm26 false _ rfl off, rfl, fun s => congrArg (fun d => some (true, d)) hback⟩
  | cbzW reg =>
    exact ⟨_, decode_compare false false reg _ rfl off, rfl, fun s =>
      congrArg₂ (fun t d => some (t, d)) (Bool.xor_false _) hback⟩
  | cbnzW reg =>
    exact ⟨_, decode_compare false true reg _ rfl off, rfl, fun s =>
      congrArg₂ (fun t d => some (t, d)) (Bool.xor_true _) hback⟩
  | cbzX reg =>
    refine ⟨_, decode_compare true false reg _ rfl off, rfl, fun s => ?_⟩
    have htaken : (decide (s.read true reg = 0) != false) = decide (s.x reg = 0) := by
      rw [s.read_x]
      exact Bool.xor_false _
    exact congrArg₂ (fun t d => some (t, d)) htaken hback
  | cbnzX reg =>
    refine ⟨_, decode_compare true true reg _ rfl off, rfl, fun s => ?_⟩
    have htaken : (decide (s.read true reg = 0) != true) = !decide (s.x reg = 0) := by
      rw [s.read_x]
      exact Bool.xor_true _
    exact congrArg₂ (fun t d => some (t, d)) htaken hback
  | tbz reg bit =>
    refine ⟨_, decode_test false reg bit _ rfl off, rfl, fun s => ?_⟩
    refine congrArg₂ (fun t d => some (t, d)) ?_ hback
    rw [toNat_testBit hk]
    exact beq_false _
  | tbnz reg bit =>
    refine ⟨_, decode_test true reg bit _ rfl off, rfl, fun s => ?_⟩
    refine congrArg₂ (fun t d => some (t, d)) ?_ hback
    rw [toNat_testBit hk]
    exact beq_true _
  | bl =>
    exact ⟨_, decode_imm26 true _ rfl off, rfl, fun s => congrArg (fun d => some (true, d)) hback⟩

end A64Branch

end X86Port.Arm64
