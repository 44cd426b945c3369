import Mathlib.Data.List.FinRange
import Mathlib.Tactic.FinCases
import X86Port.Memory.Pieces
import X86Port.X87.Ext80

/-!
# Saving and restoring the unit

`FNSAVE` writes seven dwords and the eight registers in physical order and reinitialises the unit;
`FRSTOR` reads them back. The registers are the ten-byte encodings, as on the hosts that keep those.

* `tag_packTags`: the tag word has each register's class in its own two bits.
* `restore_image`: a unit is recovered from its image.
* `saveExact_iff`: a save is all or nothing, and can be undone, just where the probe of its range
  says enough about the writes.
-/

namespace X86Port.X87

open Cpu (Width)
open Lib Lib.Places Memory

/-! ## The unit -/

def tagValid : U8 := 0
def tagZero : U8 := 1
def tagSpecial : U8 := 2
def tagEmpty : U8 := 3

def x87CwInit : U16 := 0x037F#16

def x87TopMask : U16 := 0x3800#16

/-- The unit, with the census pointer as a number. Every writer of `top` masks it to three bits. -/
structure Fpu where
  reg : Fin 8 → Ext80
  tag : Fin 8 → U8
  top : U8
  control : U16
  status : U16
  doubleArith : U8
  opCensus : ℕ
  top_lt : top.toNat < 8

def Fpu.reset (f : Fpu) : Fpu where
  reg := fun _ => ⟨0, 0⟩
  tag := fun _ => tagEmpty
  top := 0
  control := x87CwInit
  status := 0
  doubleArith := f.doubleArith
  opCensus := 0
  top_lt := by decide

/-- The status word as a guest reads it. -/
def x87Status (f : Fpu) : U16 :=
  (f.status &&& ~~~x87TopMask) ||| ((f.top &&& 7).setWidth 16 <<< 11)

def tagOfFields (significand : U64) (signExponent : U16) : U8 :=
  let exponent := signExponent &&& 0x7FFF#16
  if exponent = 0x7FFF#16 then tagSpecial
  else if exponent = 0 ∧ significand = 0 then tagZero
  else tagValid

def tagOf (value : Ext80) : U8 := tagOfFields value.signif value.signExp

/-! ## The image -/

/-- The class of a register, as the tag word has it. -/
def Fpu.tagClass (f : Fpu) (i : Fin 8) : U8 :=
  if f.tag i = tagEmpty then tagEmpty else tagOf (f.reg i)

def packTags (f : Fpu) : U16 :=
  (List.finRange 8).foldl (fun w i => w ||| (f.tagClass i).setWidth 16 <<< (2 * i.val)) 0

def unpackTags (w : U16) (i : Fin 8) : U8 :=
  let tag := (w >>> (2 * i.val)) &&& 3
  if tag = tagEmpty.setWidth 16 then tagEmpty else tagValid

/-- The low bytes of a significand, little-endian. -/
def signifBytes : ℕ → U64 → List U8
  | 0, _ => []
  | n + 1, v => v.setWidth 8 :: signifBytes n (v >>> 8)

def signifOf : List U8 → U64
  | [] => 0
  | b :: bs => signifOf bs <<< 8 ||| b.setWidth 64

def regToF80 (v : Ext80) : List U8 :=
  signifBytes 8 v.signif ++ [v.signExp.setWidth 8, (v.signExp >>> 8).setWidth 8]

def regFromF80 (bytes : List U8) : Ext80 where
  signif := signifOf (bytes.take 8)
  signExp := (bytes.getD 8 0).setWidth 16 ||| (bytes.getD 9 0).setWidth 16 <<< 8

/-- The environment; the pointers to the last instruction and operand are not kept. -/
def envWords (f : Fpu) : List U32 :=
  [f.control.setWidth 32, (x87Status f).setWidth 32, (packTags f).setWidth 32, 0, 0, 0, 0]

def envFields (f : Fpu) : List Field := (envWords f).map fun word => (.dword, word)

/-- The registers byte by byte, in physical order. -/
def regFields (f : Fpu) : List Field :=
  (List.finRange 8).flatMap fun i =>
    (regToF80 (f.reg i)).map fun byte => (.byte, byte.setWidth 32)

def stateBytes : ℕ := 108

def image (f : Fpu) : List U8 := fieldBytes (envFields f ++ regFields f)

/-! ## Save and restore -/

/-- The loop that reads every byte of the range, from the one at offset `i` on. -/
def probeState (m : Mem) (h : Host) (addr : U32) : ℕ → ℕ → Option Bool
  | 0, _ => some true
  | rest + 1, i => (Memory.read m h (addr + BitVec.ofNat 32 i) .byte).bind fun
    | none => some false
    | some _ => probeState m h addr rest (i + 1)

def writeEnv (f : Fpu) (m : Mem) (h : Host) (addr : U32) : Option (Bool × Host) :=
  writePieces m (layOut addr 0 (envFields f)) h

def writeRegs (f : Fpu) (m : Mem) (h : Host) (addr : U32) : Option (Bool × Host) :=
  writePieces m (layOut addr 28 (regFields f)) h

/-- What the save returns, and the unit and the host it leaves. -/
def saveState (f : Fpu) (m : Mem) (h : Host) (addr : U32) : Option (Bool × Fpu × Host) :=
  (probeState m h addr stateBytes 0).bind fun readable =>
    if readable then
      (writeEnv f m h addr).bind fun (ok, h) =>
        if ok then
          (writeRegs f m h addr).map fun (ok, h) => if ok then (true, f.reset, h) else (false, f, h)
        else some (false, f, h)
    else some (false, f, h)

/-- The unit with the fields of an image that was read in full. -/
def loadState (f : Fpu) (env regs : List U32) : Fpu where
  reg := fun i => regFromF80 (((regs.drop (10 * i.val)).take 10).map (·.setWidth 8))
  tag := unpackTags ((env.getD 2 0).setWidth 16)
  top := ((env.getD 1 0 >>> 11) &&& 7).setWidth 8
  control := (env.getD 0 0).setWidth 16
  status := (env.getD 1 0).setWidth 16 &&& ~~~x87TopMask
  doubleArith := f.doubleArith
  opCensus := f.opCensus
  top_lt := by
    rw [BitVec.toNat_setWidth, BitVec.toNat_and]
    exact lt_of_le_of_lt (Nat.mod_le _ _) (lt_of_le_of_lt Nat.and_le_right (by decide))

def restoreState (f : Fpu) (m : Mem) (h : Host) (addr : U32) : Option (Bool × Fpu) :=
  (readPieces m h (readsAt addr 0 (List.replicate 7 .dword))).bind fun
    | none => some (false, f)
    | some env => (readPieces m h (readsAt addr 28 (List.replicate 80 .byte))).map fun
      | none => (false, f)
      | some regs => (true, loadState f env regs)

/-! ## The tag word -/

theorem tagOf_lt (v : Ext80) : (tagOf v).toNat < 3 := by
  unfold tagOf tagOfFields
  dsimp only
  split_ifs <;> decide

theorem getLsbD_tagClass (f : Fpu) (i : Fin 8) {j : ℕ} (hj : 2 ≤ j) :
    ((f.tagClass i).setWidth 16 : U16).getLsbD j = false := by
  have hlt : (f.tagClass i).toNat < 4 := by
    have := tagOf_lt (f.reg i)
    unfold Fpu.tagClass
    split_ifs
    · decide
    · omega
  have hpow : 2 ^ 2 ≤ 2 ^ j := Nat.pow_le_pow_right Nat.two_pos hj
  rw [BitVec.getLsbD_setWidth, BitVec.getLsbD, Nat.testBit_lt_two_pow (by omega), Bool.and_false]

theorem getLsbD_foldl_or {ι : Type*} {w : ℕ} (f : ι → BitVec w) (j : ℕ) (l : List ι) :
    ∀ start : BitVec w, (l.foldl (fun x i => x ||| f i) start).getLsbD j =
      (start.getLsbD j || l.any fun i => (f i).getLsbD j) := by
  induction l with
  | nil => simp
  | cons i l ih =>
    intro start
    rw [List.foldl_cons, ih, BitVec.getLsbD_or, List.any_cons, Bool.or_assoc]

/-- Each register's class stands in its own two bits of the word. -/
theorem tag_packTags (f : Fpu) (i : Fin 8) :
    (packTags f >>> (2 * i.val)) &&& 3 = (f.tagClass i).setWidth 16 := by
  have hthree (j : ℕ) : (3 : U16).getLsbD j = decide (j < 2) := by
    change (2 ^ 2 - 1).testBit j = _
    exact Nat.testBit_two_pow_sub_one 2 j
  apply BitVec.eq_of_getLsbD_eq
  intro j hj
  rw [BitVec.getLsbD_and, hthree, BitVec.getLsbD_ushiftRight]
  by_cases hlow : j < 2
  · have hi := i.isLt
    have hstart (k : ℕ) : (0 : U16).getLsbD k = false := BitVec.getLsbD_zero
    rw [decide_eq_true hlow, Bool.and_true, packTags, getLsbD_foldl_or, hstart, Bool.false_or,
      Bool.eq_iff_iff, List.any_eq_true]
    constructor
    · rintro ⟨k, _, hk⟩
      rw [BitVec.getLsbD_shiftLeft, Bool.and_eq_true, Bool.and_eq_true] at hk
      by_cases hsame : k.val = i.val
      · have hki : k = i := Fin.ext hsame
        rw [hki, Nat.add_sub_cancel_left] at hk
        exact hk.2
      · -- another register's bits are elsewhere
        have hge : 2 ≤ 2 * i.val + j - 2 * k.val ∨ 2 * i.val + j < 2 * k.val := by omega
        rcases hge with hge | hlt
        · rw [getLsbD_tagClass f k hge] at hk
          exact absurd hk.2 Bool.false_ne_true
        · simp [hlt] at hk
    · intro hbit
      refine ⟨i, List.mem_finRange i, ?_⟩
      rw [BitVec.getLsbD_shiftLeft, Nat.add_sub_cancel_left, hbit, Bool.and_true]
      simp [show 2 * i.val + j < 16 by omega]
  · rw [decide_eq_false hlow, Bool.and_false, getLsbD_tagClass f i (by omega)]

/-- The word says which registers are empty. -/
theorem unpackTags_packTags (f : Fpu) (i : Fin 8) :
    unpackTags (packTags f) i = tagEmpty ↔ f.tag i = tagEmpty := by
  have hother := tagOf_lt (f.reg i)
  unfold unpackTags
  dsimp only
  rw [tag_packTags, Fpu.tagClass]
  by_cases hempty : f.tag i = tagEmpty
  · rw [if_pos hempty, if_pos rfl]
    exact iff_of_true rfl hempty
  · rw [if_neg hempty, if_neg]
    · exact iff_of_false (by decide) hempty
    · intro heq
      have hnat := congrArg BitVec.toNat heq
      rw [BitVec.toNat_setWidth, BitVec.toNat_setWidth] at hnat
      change _ = 3 at hnat
      omega

/-! ## The ten bytes -/

theorem getLsbD_signifOf (n : ℕ) (v : U64) {i : ℕ} (hi : i < 64) :
    (signifOf (signifBytes n v)).getLsbD i = (decide (i < 8 * n) && v.getLsbD i) := by
  induction n generalizing v i with
  | zero => simp [signifBytes, signifOf]
  | succ n ih =>
    rw [signifBytes, signifOf, BitVec.getLsbD_or, BitVec.getLsbD_shiftLeft, BitVec.getLsbD_setWidth,
      BitVec.getLsbD_setWidth]
    by_cases hlow : i < 8
    · simp [hlow, hi, show i < 8 * (n + 1) by omega]
    · rw [ih _ (by omega), BitVec.getLsbD_ushiftRight, show 8 + (i - 8) = i by omega]
      simp [hlow, hi, show i - 8 < 8 * n ↔ i < 8 * (n + 1) by omega]

theorem regFromF80_regToF80 (v : Ext80) : regFromF80 (regToF80 v) = v := by
  obtain ⟨signif, signExp⟩ := v
  have hsignif : signifOf (signifBytes 8 signif) = signif := by
    apply BitVec.eq_of_getLsbD_eq
    intro i hi
    rw [getLsbD_signifOf 8 signif hi, decide_eq_true (by omega), Bool.true_and]
  have hsignExp : (signExp.setWidth 8 : U8).setWidth 16 |||
      ((signExp >>> 8).setWidth 8 : U8).setWidth 16 <<< 8 = signExp := by
    apply BitVec.eq_of_getLsbD_eq
    intro i hi
    rw [BitVec.getLsbD_or, BitVec.getLsbD_shiftLeft, BitVec.getLsbD_setWidth,
      BitVec.getLsbD_setWidth, BitVec.getLsbD_setWidth, BitVec.getLsbD_setWidth,
      BitVec.getLsbD_ushiftRight]
    by_cases hlow : i < 8
    · simp [hlow, hi]
    · rw [show 8 + (i - 8) = i by omega]
      simp [hlow, hi, show i - 8 < 8 by omega, show i - 8 < 16 by omega]
  change Ext80.mk (signifOf (signifBytes 8 signif)) _ = _
  rw [hsignif]
  exact congrArg (Ext80.mk signif) hsignExp

/-! ## What an image holds -/

/-- The unit has what another one had when it was saved. -/
structure Recovered (saved f : Fpu) : Prop where
  control : f.control = saved.control
  statusWord : x87Status f = x87Status saved
  status : f.status = saved.status &&& ~~~x87TopMask
  top : f.top = saved.top
  empty : ∀ i, f.tag i = tagEmpty ↔ saved.tag i = tagEmpty
  bytes : ∀ i, regToF80 (f.reg i) = regToF80 (saved.reg i)

theorem getLsbD_topMask (j : ℕ) : x87TopMask.getLsbD j = (decide (11 ≤ j) && decide (j < 14)) := by
  have hmask : x87TopMask = 7#16 <<< 11 := rfl
  have hseven (k : ℕ) : (7#16).getLsbD k = decide (k < 3) := by
    change (2 ^ 3 - 1).testBit k = _
    exact Nat.testBit_two_pow_sub_one 3 k
  rw [hmask, BitVec.getLsbD_shiftLeft, hseven]
  by_cases hlow : j < 11
  · simp [hlow]
  · by_cases hhigh : j < 14
    · simp [hlow, hhigh, show 11 ≤ j by omega, show j < 16 by omega, show j - 11 < 3 by omega]
    · simp [hhigh, show ¬ j - 11 < 3 by omega]

theorem getLsbD_top (f : Fpu) {j : ℕ} (hj : 3 ≤ j) : f.top.getLsbD j = false := by
  have hpow : 2 ^ 3 ≤ 2 ^ j := Nat.pow_le_pow_right Nat.two_pos hj
  have := f.top_lt
  rw [BitVec.getLsbD, Nat.testBit_lt_two_pow (by omega)]

theorem top_and_seven (f : Fpu) : f.top &&& 7 = f.top := by
  have hlt := f.top_lt
  apply BitVec.eq_of_toNat_eq
  rw [BitVec.toNat_and, show (7 : U8).toNat = 2 ^ 3 - 1 from rfl, Nat.and_two_pow_sub_one_eq_mod,
    Nat.mod_eq_of_lt hlt]

/-- The status word keeps the stored bits outside the field and TOP inside it. -/
theorem x87Status_and_not_mask (f : Fpu) :
    x87Status f &&& ~~~x87TopMask = f.status &&& ~~~x87TopMask := by
  apply BitVec.eq_of_getLsbD_eq
  intro j hj
  rw [x87Status, top_and_seven]
  simp only [BitVec.getLsbD_and, BitVec.getLsbD_or, BitVec.getLsbD_not, BitVec.getLsbD_shiftLeft,
    BitVec.getLsbD_setWidth, getLsbD_topMask]
  by_cases hlow : 11 ≤ j
  · by_cases hhigh : j < 14
    · simp [hlow, hhigh]
    · simp [hhigh, hlow, hj, getLsbD_top f (show 3 ≤ j - 11 by omega)]
  · simp [hlow, hj, show j < 11 by omega]

theorem top_of_x87Status (f : Fpu) : (((x87Status f).setWidth 32 >>> 11 &&& 7 : U32)).setWidth 8 =
    f.top := by
  have hseven (k : ℕ) : (7 : U32).getLsbD k = decide (k < 3) := by
    change (2 ^ 3 - 1).testBit k = _
    exact Nat.testBit_two_pow_sub_one 3 k
  apply BitVec.eq_of_getLsbD_eq
  intro j hj
  rw [x87Status, top_and_seven]
  simp only [BitVec.getLsbD_and, BitVec.getLsbD_or, BitVec.getLsbD_not, BitVec.getLsbD_shiftLeft,
    BitVec.getLsbD_setWidth, BitVec.getLsbD_ushiftRight, getLsbD_topMask, hseven]
  by_cases hlow : j < 3
  · simp [hlow, hj, show 11 + j < 14 by omega, show 11 + j < 16 by omega, show 11 + j < 32 by omega,
      show j < 16 by omega]
  · simp [hlow, getLsbD_top f (show 3 ≤ j by omega)]

theorem regs_of_image (f : Fpu) (i : Fin 8) :
    ((((regFields f).map Prod.snd).drop (10 * i.val)).take 10).map (·.setWidth 8) =
      regToF80 (f.reg i) := by
  have hback (v : Ext80) : ((regToF80 v).map fun byte => byte.setWidth 32).map
      (fun word : U32 => (word.setWidth 8 : U8)) = regToF80 v := by
    rw [List.map_map]
    refine List.map_id'' (fun byte => ?_) _
    simp
  rw [← hback (f.reg i)]
  congr 1
  fin_cases i <;> rfl

/-- A unit is recovered from the values of its image. -/
theorem recovered_loadState (f g : Fpu) :
    Recovered f (loadState g (envWords f) ((regFields f).map Prod.snd)) := by
  have hstatus : (loadState g (envWords f) ((regFields f).map Prod.snd)).status =
      f.status &&& ~~~x87TopMask := by
    rw [← x87Status_and_not_mask]
    change ((x87Status f).setWidth 32).setWidth 16 &&& _ = _
    rw [BitVec.setWidth_setWidth_of_le _ (by omega), BitVec.setWidth_eq]
  have htop : (loadState g (envWords f) ((regFields f).map Prod.snd)).top = f.top :=
    top_of_x87Status f
  refine ⟨?_, ?_, hstatus, htop, fun i => ?_, fun i => ?_⟩
  · change (f.control.setWidth 32).setWidth 16 = _
    rw [BitVec.setWidth_setWidth_of_le _ (by omega), BitVec.setWidth_eq]
  · rw [x87Status, x87Status, hstatus, htop, BitVec.and_assoc, BitVec.and_self]
  · rw [← unpackTags_packTags f i]
    change unpackTags (((packTags f).setWidth 32).setWidth 16) i = _ ↔ _
    rw [BitVec.setWidth_setWidth_of_le _ (by omega), BitVec.setWidth_eq]
  · change regToF80 (regFromF80 _) = _
    rw [regs_of_image, regFromF80_regToF80]

/-! ## The save -/

def stateWidths : List Width := List.replicate 7 .dword ++ List.replicate 80 .byte

theorem stateWidths_eq (f : Fpu) : (envFields f ++ regFields f).map Prod.fst = stateWidths := rfl

theorem envWidths_eq (f : Fpu) : (envFields f).map Prod.fst = List.replicate 7 .dword := rfl

theorem regWidths_eq (f : Fpu) : (regFields f).map Prod.fst = List.replicate 80 .byte := rfl

theorem image_eq (f : Fpu) : image f = fieldBytes (envFields f) ++ fieldBytes (regFields f) :=
  List.flatMap_append

theorem length_image (f : Fpu) : (image f).length = stateBytes := by
  rw [image, length_fieldBytes, stateWidths_eq]
  rfl

section Save

variable {m : Mem} {h : Host} {addr : U32} {f : Fpu}

/-- Every byte of the range can be read. -/
def Readable (m : Mem) (addr : U32) : Prop :=
  ∀ i < stateBytes, m.offsets memRead addr i ≠ none

instance (m : Mem) (addr : U32) : Decidable (Readable m addr) :=
  inferInstanceAs (Decidable (∀ i < stateBytes, _))

/-- The bytes of the image that are written before a write is refused. -/
def granted (m : Mem) (addr : U32) : ℕ := grantedBytes m memWrite addr 0 stateWidths

theorem probeState_eq (hm : m.WellFormed) : ∀ rest i,
    probeState m h addr rest i =
      some (decide (∀ j < rest, m.offsets memRead addr (i + j) ≠ none)) := by
  intro rest
  induction rest with
  | zero => simp [probeState]
  | succ rest ih =>
    intro i
    rw [probeState, read_placed hm, Option.bind_some]
    by_cases hfirst : m.offsets memRead addr i ≠ none
    · have hplaced : Placed (m.place memRead) (addr + BitVec.ofNat 32 i).toNat Width.byte.bytes := by
        intro j hj
        have h0 : j = 0 := Nat.lt_one_iff.mp hj
        rw [h0]
        exact hfirst
      rw [if_pos hplaced]
      dsimp only
      rw [ih]
      congr 2
      refine propext ⟨fun hall j hj => ?_, fun hall j hj => ?_⟩
      · cases j with
        | zero => exact hfirst
        | succ j =>
          rw [show i + (j + 1) = i + 1 + j by omega]
          exact hall j (by omega)
      · rw [show i + 1 + j = i + (j + 1) by omega]
        exact hall (j + 1) (by omega)
    · have hrefused : ¬ Placed (m.place memRead) (addr + BitVec.ofNat 32 i).toNat
          Width.byte.bytes := fun hplaced => hfirst (hplaced 0 Nat.one_pos)
      rw [if_neg hrefused, decide_eq_false]
      exact fun hall => hfirst (hall 0 (Nat.zero_lt_succ _))

/-- What a save returns, and what it leaves of the unit and of the memory. -/
theorem saveState_eq (hm : m.WellFormed) (f : Fpu) (h : Host) (addr : U32) :
    if Readable m addr then
      ∃ h', h'.bytes = scatter (m.offsets memWrite addr) h.bytes 0 ((image f).take (granted m addr)) ∧
        saveState f m h addr =
          some (if granted m addr = stateBytes then (true, f.reset, h') else (false, f, h'))
    else saveState f m h addr = some (false, f, h) := by
  have hprobe : probeState m h addr stateBytes 0 = some (decide (Readable m addr)) := by
    rw [probeState_eq hm]
    simp only [Nat.zero_add]
    rfl
  by_cases hread : Readable m addr
  · rw [if_pos hread]
    obtain ⟨h', hrun, hbytes⟩ :=
      @writePieces_layOut m addr hm (envFields f ++ regFields f) h 0
    have hgranted : grantedBytes m memWrite addr 0 stateWidths = granted m addr := rfl
    rw [stateWidths_eq, hgranted] at hrun hbytes
    refine ⟨h', hbytes, ?_⟩
    rw [saveState, hprobe, decide_eq_true hread, Option.bind_some, if_pos rfl]
    rw [layOut_append, writePieces_append] at hrun
    have hsize : size stateWidths = stateBytes := rfl
    rw [hsize] at hrun
    -- one walk of the whole record, seen as the source's two
    cases henv : writePieces m (layOut addr 0 (envFields f)) h with
    | none =>
      rw [henv] at hrun
      cases hrun
    | some result =>
      obtain ⟨ok, h1⟩ := result
      rw [henv, Option.bind_some] at hrun
      dsimp only at hrun
      rw [writeEnv, henv, Option.bind_some]
      dsimp only
      cases ok with
      | false =>
        rw [if_neg Bool.false_ne_true, Option.some.injEq, Prod.mk.injEq] at hrun
        obtain ⟨hdone, rfl⟩ := hrun
        rw [if_neg Bool.false_ne_true, if_neg (of_decide_eq_false hdone.symm)]
      | true =>
        rw [if_pos rfl] at hrun
        rw [if_pos rfl, writeRegs]
        rw [show 0 + size ((envFields f).map Prod.fst) = 28 from rfl] at hrun
        rw [hrun, Option.map_some]
        dsimp only
        by_cases hdone : granted m addr = stateBytes
        · rw [if_pos hdone, if_pos (decide_eq_true hdone)]
        · rw [if_neg hdone, decide_eq_false hdone, if_neg Bool.false_ne_true]
  · rw [if_neg hread, saveState, hprobe, decide_eq_false hread, Option.bind_some,
      if_neg Bool.false_ne_true]

theorem restoreState_total (hm : m.WellFormed) (f : Fpu) (h : Host) (addr : U32) :
    ∃ ok g, restoreState f m h addr = some (ok, g) ∧ (ok = false → g = f) := by
  have htotal : ∀ reads, ∃ result, readPieces m h reads = some result := by
    intro reads
    induction reads with
    | nil => exact ⟨_, rfl⟩
    | cons r reads ih =>
      obtain ⟨result, hresult⟩ := ih
      obtain ⟨a, w⟩ := r
      rw [readPieces, read_placed hm, Option.bind_some]
      split_ifs
      · exact ⟨_, by rw [hresult]; rfl⟩
      · exact ⟨none, rfl⟩
  obtain ⟨env, henv⟩ := htotal (readsAt addr 0 (List.replicate 7 .dword))
  obtain ⟨regs, hregs⟩ := htotal (readsAt addr 28 (List.replicate 80 .byte))
  rw [restoreState, henv, Option.bind_some]
  cases env with
  | none => exact ⟨false, f, rfl, fun _ => rfl⟩
  | some env =>
    dsimp only
    rw [hregs, Option.map_some]
    cases regs with
    | none => exact ⟨false, f, rfl, fun _ => rfl⟩
    | some regs => exact ⟨true, _, rfl, fun hfalse => Bool.noConfusion hfalse⟩

/-- A record of values that fit their widths is read back as it is. -/
theorem values_regFields (f : Fpu) :
    ((regFields f).map fun field => valueOf (bytesOf field.1.bytes field.2)) =
      (regFields f).map Prod.snd := by
  refine List.map_congr_left fun field hmem => ?_
  obtain ⟨i, _, hfield⟩ := List.mem_flatMap.mp hmem
  obtain ⟨byte, _, rfl⟩ := List.mem_map.mp hfield
  have hbyte : ((byte.setWidth 32 : U32).setWidth 8 : U8) = byte := by simp
  simp [valueOf, bytesOf, Width.bytes, hbyte]

theorem values_envFields (f : Fpu) :
    ((envFields f).map fun field => valueOf (bytesOf field.1.bytes field.2)) = envWords f := by
  rw [envFields, List.map_map]
  refine (List.map_congr_left fun word _ => ?_).trans (List.map_id _)
  exact valueOf_bytesOf word

/-- An image in memory that can be read and was written without a wrap is restored. -/
theorem restore_image (hm : m.WellFormed) (hread : Readable m addr)
    (hgranted : granted m addr = stateBytes)
    (himage : gather h.bytes (m.offsets 0 addr) 0 stateBytes = image f) (g : Fpu) :
    ∃ g', restoreState g m h addr = some (true, g') ∧ Recovered f g' := by
  obtain ⟨henvWrite, hregsWrite⟩ :=
    grantedBytes_append (List.replicate 7 Width.dword) (List.replicate 80 .byte) 0 hgranted
  rw [show 0 + size (List.replicate 7 Width.dword) = 28 from rfl] at hregsWrite
  have henv : grantedBytes m memRead addr 0 ((envFields f).map Prod.fst) =
      size ((envFields f).map Prod.fst) := by
    rw [envWidths_eq]
    refine grantedBytes_of_offsets hm _ 0 henvWrite fun i hi => ?_
    rw [Nat.zero_add]
    exact hread i (lt_of_lt_of_le hi (by decide))
  have hregs : grantedBytes m memRead addr 28 ((regFields f).map Prod.fst) =
      size ((regFields f).map Prod.fst) := by
    rw [regWidths_eq]
    refine grantedBytes_of_offsets hm _ 28 hregsWrite fun i hi => hread _ ?_
    exact Nat.add_lt_add_left (show i < 80 from hi) 28
  have hcells : gather h.bytes (m.offsets memRead addr) 0 (28 + 80) =
      fieldBytes (envFields f) ++ fieldBytes (regFields f) := by
    rw [← image_eq, ← himage]
    refine gather_congr fun i hi => ?_
    rw [Nat.zero_add]
    exact cell_zero (hread i hi)
  rw [← gather_append] at hcells
  obtain ⟨hfirst, hrest⟩ := List.append_inj hcells (by
    rw [length_gather, length_fieldBytes, envWidths_eq]
    rfl)
  have hreadEnv := readPieces_layOut (h := h) hm (envFields f) 0 henv (by
    rw [envWidths_eq]
    exact hfirst)
  have hreadRegs := readPieces_layOut (h := h) hm (regFields f) 28 hregs (by
    rw [regWidths_eq]
    exact hrest)
  rw [values_envFields, envWidths_eq] at hreadEnv
  rw [values_regFields, regWidths_eq] at hreadRegs
  refine ⟨loadState g (envWords f) ((regFields f).map Prod.snd), ?_, recovered_loadState f g⟩
  rw [restoreState, hreadEnv, Option.bind_some]
  dsimp only
  rw [hreadRegs, Option.map_some]

/-! ## All or nothing -/

/-- A save writes the whole image and reinitialises the unit, and every restore of it recovers the
unit; or it leaves the unit and every byte of guest memory. -/
def SaveExact (f : Fpu) (m : Mem) (h : Host) (addr : U32) : Prop :=
  ∃ ok f' h', saveState f m h addr = some (ok, f', h') ∧
    (ok = true → gather h'.bytes (m.offsets 0 addr) 0 stateBytes = image f ∧ f' = f.reset ∧
      ∀ g, ∃ g', restoreState g m h' addr = some (true, g') ∧ Recovered f g') ∧
    (ok = false → f' = f ∧ ∀ a x, m.place 0 a = some x → h'.bytes x = h.bytes x)

/-- No host byte is to hold two values of the image. -/
def NoClash (f : Fpu) (m : Mem) (addr : U32) : Prop :=
  ∀ i < stateBytes, ∀ j < stateBytes, m.offsets 0 addr i = m.offsets 0 addr j →
    (image f)[i]? = (image f)[j]?

/-- The host bytes under the writes before the first refused one hold what those put there. -/
def Held (f : Fpu) (m : Mem) (h : Host) (addr : U32) : Prop :=
  ∀ i < granted m addr, ∀ x, m.offsets 0 addr i = some x →
    (∀ j < granted m addr, i < j → m.offsets 0 addr j ≠ some x) → (image f)[i]? = some (h.bytes x)

/-- What the probe of a range would have to tell: that all the writes are granted to bytes of
their own, or else that the ones before the first refused change nothing. -/
def SaveSafe (f : Fpu) (m : Mem) (h : Host) (addr : U32) : Prop :=
  Readable m addr →
    (granted m addr = stateBytes → NoClash f m addr) ∧
      (granted m addr ≠ stateBytes → Held f m h addr)

theorem offsets_zero {access : U32} {i : ℕ} (hplaced : m.offsets access addr i ≠ none) :
    m.offsets 0 addr i = m.offsets access addr i := by
  obtain ⟨x, hx⟩ := Option.ne_none_iff_exists'.mp hplaced
  rw [hx]
  exact place_zero hx

theorem granted_le (m : Mem) (addr : U32) : granted m addr ≤ stateBytes :=
  grantedBytes_le stateWidths 0

/-- Each byte that is written has a place, whatever is asked of it. -/
theorem offsets_granted (hm : m.WellFormed) {i : ℕ} (hi : i < granted m addr) :
    m.offsets 0 addr i ≠ none ∧ m.offsets memWrite addr i = m.offsets 0 addr i := by
  have hplaced := offsets_of_granted hm stateWidths 0 i hi
  rw [Nat.zero_add] at hplaced
  rw [offsets_zero hplaced]
  exact ⟨hplaced, rfl⟩

theorem scatter_granted (hm : m.WellFormed) (f : Fpu) (bytes : ℕ → U8) :
    scatter (m.offsets memWrite addr) bytes 0 ((image f).take (granted m addr)) =
      scatter (m.offsets 0 addr) bytes 0 ((image f).take (granted m addr)) := by
  refine scatter_congr fun i hi => ?_
  rw [List.length_take] at hi
  rw [Nat.zero_add, cell, cell, (offsets_granted hm (show i < granted m addr by omega)).2]

/-- The whole image is in memory after the writes just where it does not clash with itself. -/
theorem written_iff (hm : m.WellFormed) (hdone : granted m addr = stateBytes) (bytes : ℕ → U8) :
    gather (scatter (m.offsets 0 addr) bytes 0 (image f)) (m.offsets 0 addr) 0 stateBytes = image f ↔
      NoClash f m addr := by
  have hlen := length_image f
  have hplaced (i : ℕ) (hi : i < stateBytes) : m.offsets 0 addr i ≠ none :=
    (offsets_granted hm (hdone ▸ hi)).1
  rw [← hlen, gather_scatter_iff]
  constructor
  · intro hagree i hi j hj hsame
    rw [List.getElem?_eq_getElem (hlen ▸ hi), List.getElem?_eq_getElem (hlen ▸ hj),
      hagree i (hlen ▸ hi) j (hlen ▸ hj)]
    rw [Nat.zero_add, Nat.zero_add, cell, cell, hsame]
  · intro hno i hi j hj hcell
    rw [Nat.zero_add, Nat.zero_add] at hcell
    have hsame : m.offsets 0 addr i = m.offsets 0 addr j := by
      obtain ⟨x, hx⟩ := Option.ne_none_iff_exists'.mp (hplaced j (hlen ▸ hj))
      rw [hx, ← cell_eq_iff (hplaced i (hlen ▸ hi)), hcell,
        cell_eq_iff (hplaced j (hlen ▸ hj)), hx]
    have := hno i (hlen ▸ hi) j (hlen ▸ hj) hsame
    rwa [List.getElem?_eq_getElem hi, List.getElem?_eq_getElem hj, Option.some_inj] at this

/-- The writes before a refused one change nothing just where their bytes were there. -/
theorem unchanged_iff (hm : m.WellFormed) :
    (∀ a x, m.place 0 a = some x →
      scatter (m.offsets 0 addr) h.bytes 0 ((image f).take (granted m addr)) x = h.bytes x) ↔
      Held f m h addr := by
  have hlen := length_image f
  have hle := granted_le m addr
  have hlenTake : ((image f).take (granted m addr)).length = granted m addr := by
    rw [List.length_take]
    omega
  have hlast {i x : ℕ} (hi : m.offsets 0 addr i = some x) :
      (∀ j < granted m addr, i < j → m.offsets 0 addr j ≠ some x) ↔
        ∀ j < ((image f).take (granted m addr)).length, i < j →
          cell (m.offsets 0 addr) (0 + j) ≠ cell (m.offsets 0 addr) (0 + i) := by
    rw [hlenTake]
    refine forall_congr' fun j => forall_congr' fun hj => forall_congr' fun _ => ?_
    rw [Nat.zero_add, Nat.zero_add, (cell_eq_iff (by rw [hi]; simp)).mpr hi, ne_eq, ne_eq,
      cell_eq_iff (offsets_granted hm hj).1]
  constructor
  · intro hsame i hi x hx hfree
    have hin : i < ((image f).take (granted m addr)).length := by omega
    have hput := scatter_last (h := h.bytes) hin ((hlast hx).mp hfree)
    rw [Nat.zero_add, (cell_eq_iff (by rw [hx]; simp)).mpr hx, hsame _ x hx] at hput
    rw [hput, List.getElem_take, List.getElem?_eq_getElem]
  · intro hheld a x _
    refine congrFun (scatter_eq_self_iff.mpr fun i hi hfree => ?_) x
    obtain ⟨y, hy⟩ := Option.ne_none_iff_exists'.mp (offsets_granted hm (hlenTake ▸ hi)).1
    have := hheld i (hlenTake ▸ hi) y hy ((hlast hy).mpr hfree)
    rw [Nat.zero_add, (cell_eq_iff (by rw [hy]; simp)).mpr hy, List.getElem_take]
    rw [List.getElem?_eq_getElem (by omega), Option.some_inj] at this
    exact this.symm

theorem saveExact_iff (hm : m.WellFormed) : SaveExact f m h addr ↔ SaveSafe f m h addr := by
  have hsave := saveState_eq hm f h addr
  by_cases hread : Readable m addr
  · rw [if_pos hread] at hsave
    obtain ⟨h', hbytes, hrun⟩ := hsave
    rw [scatter_granted hm] at hbytes
    rw [SaveSafe, SaveExact, hrun]
    by_cases hdone : granted m addr = stateBytes
    · have hwritten := written_iff (f := f) hm hdone h.bytes
      rw [hdone, ← length_image f, List.take_length] at hbytes
      rw [← hbytes] at hwritten
      rw [if_pos hdone]
      constructor
      · rintro ⟨ok, f', h2, heq, hok, -⟩ -
        cases heq
        exact ⟨fun _ => hwritten.mp (hok rfl).1, fun hnot => absurd hdone hnot⟩
      · intro hsafe
        have himage := hwritten.mpr ((hsafe hread).1 hdone)
        exact ⟨true, f.reset, h', rfl, fun _ => ⟨himage, rfl, fun g =>
          restore_image hm hread hdone himage g⟩, fun hfalse => nomatch hfalse⟩
    · have hunchanged := @unchanged_iff m h addr f hm
      rw [← hbytes] at hunchanged
      rw [if_neg hdone]
      constructor
      · rintro ⟨ok, f', h2, heq, -, hfail⟩ -
        cases heq
        exact ⟨fun h => absurd h hdone, fun _ => hunchanged.mp (hfail rfl).2⟩
      · intro hsafe
        exact ⟨false, f, h', rfl, (fun htrue => nomatch htrue), fun _ =>
          ⟨rfl, hunchanged.mpr ((hsafe hread).2 hdone)⟩⟩
  · rw [if_neg hread] at hsave
    refine iff_of_true ⟨false, f, h, hsave, (fun htrue => nomatch htrue), fun _ => ⟨rfl, ?_⟩⟩
      fun h => absurd h hread
    exact fun _ _ _ => rfl

/-- No image clashes with itself in a window. -/
theorem noClash_window (hs : m.sparse = none) (hm : m.WellFormed)
    (hdone : granted m addr = stateBytes) : NoClash f m addr := by
  intro i hi j hj hsame
  obtain ⟨x, hx⟩ := Option.ne_none_iff_exists'.mp (offsets_granted hm (hdone ▸ hi)).1
  have haddr := unaliased_window hs hx (hsame ▸ hx)
  have hij : i = j := by
    unfold stateBytes at hi hj
    simp only [BitVec.toNat_add, BitVec.toNat_ofNat] at haddr
    omega
  rw [hij]

/-- A save is all or nothing and can be undone just where the probe of its range would have told,
and a restore that fails changes nothing. -/
theorem save_all_or_nothing_iff (hm : m.WellFormed) (f : Fpu) (h : Host) (addr : U32) :
    (SaveExact f m h addr ↔ SaveSafe f m h addr) ∧
      ∃ ok g, restoreState f m h addr = some (ok, g) ∧ (ok = false → g = f) :=
  ⟨saveExact_iff hm, restoreState_total hm f h addr⟩

end Save

/-- The unit a process starts with. -/
def initialUnit : Fpu where
  reg := fun _ => ⟨0, 0⟩
  tag := fun _ => tagEmpty
  top := 0
  control := x87CwInit
  status := 0
  doubleArith := 0
  opCensus := 0
  top_lt := by decide

theorem readOnlyBehind_pos : 1 ≤ 12 := by decide

theorem readOnlyBehind_le : 12 ≤ 31 := by decide

/-- A page that can be written, and one behind it that can only be read. -/
def readOnlyBehind : Mem where
  host := 0
  lo := 0x1000
  size := 0x2000
  sparse := none
  perms := some ⟨[3, 1], 12, readOnlyBehind_pos, readOnlyBehind_le, by decide⟩

def zeroHost : Host := ⟨fun _ => 0, false, []⟩

/-- One on top of the stack, a quiet NaN and a zero below it. -/
def busyUnit : Fpu where
  reg := fun i =>
    if i = 5 then ⟨0x8000000000000000, 0x3FFF⟩
    else if i = 6 then ⟨0xC000000000000000, 0x7FFF⟩ else ⟨0, 0⟩
  tag := fun i => if i = 5 then tagValid else if i = 6 then tagSpecial
    else if i = 7 then tagZero else tagEmpty
  top := 5
  control := 0x27F
  status := 0x4021
  doubleArith := 1
  opCensus := 0
  top_lt := by decide

set_option maxRecDepth 4000 in
theorem busyUnit_saved : SaveExact busyUnit readOnlyBehind zeroHost 0x1100 := by
  have hm : readOnlyBehind.WellFormed := wellFormed_window rfl
  have hdone : granted readOnlyBehind 0x1100 = stateBytes := by decide
  exact (save_all_or_nothing_iff hm busyUnit zeroHost 0x1100).1.mpr fun _ =>
    ⟨fun _ => noClash_window rfl hm hdone, fun hnot => absurd hdone hnot⟩

/-- Across the two pages the environment's first dword is written before the second is refused. -/
theorem initialUnit_half_saved : ¬ SaveExact initialUnit readOnlyBehind zeroHost 0x1FFC := by
  have hm : readOnlyBehind.WellFormed := wellFormed_window rfl
  have hread : Readable readOnlyBehind 0x1FFC := by decide
  have hgranted : granted readOnlyBehind 0x1FFC = 4 := by decide
  rw [saveExact_iff hm]
  intro hsafe
  have hheld := (hsafe hread).2 (by rw [hgranted]; decide)
  rw [Held, hgranted] at hheld
  have hfirst := hheld 0 (by decide) 0xFFC rfl (by decide)
  revert hfirst
  decide

end X86Port.X87
