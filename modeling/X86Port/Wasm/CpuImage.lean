import Mathlib.Tactic.IntervalCases
import X86Port.Cpu.Registers
import X86Port.Wasm.Linear

/-!
# The guest CPU in linear memory

`X86pCpu` as the bytes emitted code loads and stores. Fields this model has no use for, and
the width of a flag state that has recorded none, are bytes of the memory around it.

* `load_reg`, `load_eip`, `load_flags`: what a load of a field yields.
* `store_reg`, `store_eip`, `store_flags`: a store of a field is the updated CPU.
-/

namespace X86Port.Wasm

open Cpu (Reg Width FlagKind Flags CpuState X86Cpu byteReg regRead regWrite widthMask)

/-! ## Layout -/

/-- Where the fields behind the x87 state sit. -/
structure CpuLayout where
  df : Nat
  fsBase : Nat
  gsBase : Nat
  flags_lt_df : 51 < df
  df_lt_fsBase : df < fsBase
  fsBase_lt_gsBase : fsBase + 4 ≤ gsBase

def regOffset (index : Reg) : Nat := 4 * index.val

/-- At width 1 an index names a byte register. -/
def regOffsetW (index : Reg) : Width → Nat
  | .byte => regOffset (byteReg index).1 + (byteReg index).2 / 8
  | _ => regOffset index

def eipOffset : Nat := 32
def flagsOffset : Nat := 36
def aOffset : Nat := 36
def bOffset : Nat := 40
def rOffset : Nat := 44
def kindOffset : Nat := 48
def wOffset : Nat := 49
def carryInOffset : Nat := 50

def kindCode : FlagKind → U8
  | .none => 0
  | .add => 1
  | .sub => 2
  | .logic => 3
  | .inc => 4
  | .dec => 5
  | .shl => 6
  | .shr => 7
  | .sar => 8
  | .explicit => 9

def widthCode (w : Width) : U8 := BitVec.ofNat 8 w.bytes

/-- The byte at an offset into the structure, where the model has a field. -/
def cpuByte (lay : CpuLayout) (c : X86Cpu) (o : Nat) : Option U8 :=
  if o < 32 then some (byteOf (c.reg (Fin.ofNat 8 (o / 4))) (o % 4))
  else if o < 36 then some (byteOf c.eip (o - 32))
  else if o < 40 then some (byteOf c.flags.a (o - 36))
  else if o < 44 then some (byteOf c.flags.b (o - 40))
  else if o < 48 then some (byteOf c.flags.r (o - 44))
  else if o = 48 then some (kindCode c.flags.kind)
  else if o = 49 then if c.flags.kind = .none then none else some (widthCode c.flags.w)
  else if o = 50 then some c.flags.carryIn
  else if o = lay.df then some (if c.df then 1 else 0)
  else if lay.fsBase ≤ o ∧ o < lay.fsBase + 4 then some (byteOf c.fsBase (o - lay.fsBase))
  else if lay.gsBase ≤ o ∧ o < lay.gsBase + 4 then some (byteOf c.gsBase (o - lay.gsBase))
  else none

/-- A CPU at an address of a memory that holds everything else. -/
def image (lay : CpuLayout) (cpu : Nat) (c : X86Cpu) (rest : LinearMem) : LinearMem := fun x =>
  (if cpu ≤ x then cpuByte lay c (x - cpu) else none).or (rest x)

/-- The width byte is there even while no kind has been recorded. -/
def Backed (cpu : Nat) (rest : LinearMem) : Prop := rest (cpu + wOffset) ≠ none

section

variable {lay : CpuLayout} {cpu : Nat} {c : X86Cpu} {rest : LinearMem}

theorem image_field {o : Nat} {b : U8} (h : cpuByte lay c o = some b) :
    image lay cpu c rest (cpu + o) = some b := by
  rw [image, if_pos (Nat.le_add_right _ _), Nat.add_sub_cancel_left, h]
  rfl

theorem image_of_none {x : Nat} (h : ∀ o, x = cpu + o → cpuByte lay c o = none) :
    image lay cpu c rest x = rest x := by
  unfold image
  split_ifs with hle
  · rw [h (x - cpu) (by omega)]
    rfl
  · rfl

/-! ## Loads -/

theorem cpuByte_reg (r : Reg) {i : Nat} (hi : i < 4) :
    cpuByte lay c (regOffset r + i) = some (byteOf (c.reg r) i) := by
  have hdiv : (4 * r.val + i) / 4 = r.val := by omega
  have hmod : (4 * r.val + i) % 4 = i := by omega
  unfold cpuByte regOffset
  rw [if_pos (by omega), hdiv, hmod]
  congr 3
  exact Fin.ofNat_val_eq_self r

theorem cpuByte_eip {i : Nat} (hi : i < 4) :
    cpuByte lay c (eipOffset + i) = some (byteOf c.eip i) := by
  unfold cpuByte eipOffset
  rw [if_neg (by omega), if_pos (by omega), Nat.add_sub_cancel_left]

theorem cpuByte_a {i : Nat} (hi : i < 4) :
    cpuByte lay c (aOffset + i) = some (byteOf c.flags.a i) := by
  unfold cpuByte aOffset
  rw [if_neg (by omega), if_neg (by omega), if_pos (by omega), Nat.add_sub_cancel_left]

theorem cpuByte_b {i : Nat} (hi : i < 4) :
    cpuByte lay c (bOffset + i) = some (byteOf c.flags.b i) := by
  unfold cpuByte bOffset
  rw [if_neg (by omega), if_neg (by omega), if_neg (by omega), if_pos (by omega),
    Nat.add_sub_cancel_left]

theorem cpuByte_r {i : Nat} (hi : i < 4) :
    cpuByte lay c (rOffset + i) = some (byteOf c.flags.r i) := by
  unfold cpuByte rOffset
  rw [if_neg (by omega), if_neg (by omega), if_neg (by omega), if_neg (by omega),
    if_pos (by omega), Nat.add_sub_cancel_left]

theorem cpuByte_kind : cpuByte lay c kindOffset = some (kindCode c.flags.kind) := rfl

theorem cpuByte_w (h : c.flags.kind ≠ .none) :
    cpuByte lay c wOffset = some (widthCode c.flags.w) := by
  unfold cpuByte wOffset
  simp [h]

theorem cpuByte_carryIn : cpuByte lay c carryInOffset = some c.flags.carryIn := rfl

theorem cpuByte_df : cpuByte lay c lay.df = some (if c.df then 1 else 0) := by
  have := lay.flags_lt_df
  unfold cpuByte
  rw [if_neg (by omega), if_neg (by omega), if_neg (by omega), if_neg (by omega),
    if_neg (by omega), if_neg (by omega), if_neg (by omega), if_neg (by omega), if_pos rfl]

theorem cpuByte_fsBase {i : Nat} (hi : i < 4) :
    cpuByte lay c (lay.fsBase + i) = some (byteOf c.fsBase i) := by
  have := lay.flags_lt_df
  have := lay.df_lt_fsBase
  unfold cpuByte
  rw [if_neg (by omega), if_neg (by omega), if_neg (by omega), if_neg (by omega),
    if_neg (by omega), if_neg (by omega), if_neg (by omega), if_neg (by omega),
    if_neg (by omega), if_pos (by omega), Nat.add_sub_cancel_left]

theorem cpuByte_gsBase {i : Nat} (hi : i < 4) :
    cpuByte lay c (lay.gsBase + i) = some (byteOf c.gsBase i) := by
  have := lay.flags_lt_df
  have := lay.df_lt_fsBase
  have := lay.fsBase_lt_gsBase
  unfold cpuByte
  rw [if_neg (by omega), if_neg (by omega), if_neg (by omega), if_neg (by omega),
    if_neg (by omega), if_neg (by omega), if_neg (by omega), if_neg (by omega),
    if_neg (by omega), if_neg (by omega), if_pos (by omega), Nat.add_sub_cancel_left]

/-- A load of a word field. -/
theorem load_field {o : Nat} {v : U32} (h : ∀ i < 4, cpuByte lay c (o + i) = some (byteOf v i)) :
    (image lay cpu c rest).load 4 (cpu + o) = some v := by
  refine load_dword fun i hi => ?_
  rw [Nat.add_assoc, image_field (h i hi)]

theorem byteReg_shift (r : Reg) : (byteReg r).2 = 0 ∨ (byteReg r).2 = 8 := by
  unfold byteReg
  split_ifs <;> simp

/-- A register operand is loaded as the interpreter reads it. -/
theorem load_reg (r : Reg) (w : Width) :
    (image lay cpu c rest).load w.bytes (cpu + regOffsetW r w) =
      some (regRead c.toCpuState r w) := by
  cases w with
  | byte =>
    refine load_word .byte fun i hi => ?_
    have hzero : i = 0 := by
      simp only [Width.bytes] at hi
      omega
    have hlt : (byteReg r).2 / 8 < 4 := by
      rcases byteReg_shift r with h | h <;> simp [h]
    have hbyte : image lay cpu c rest (cpu + (regOffset (byteReg r).1 + (byteReg r).2 / 8)) =
        some (byteOf (c.reg (byteReg r).1) ((byteReg r).2 / 8)) :=
      image_field (cpuByte_reg (byteReg r).1 hlt)
    rw [hzero, Nat.add_zero, regOffsetW, hbyte]
    rcases byteReg_shift r with h | h <;> simp [h, byteOf]
  | word =>
    refine load_word .word fun i hi => ?_
    have hlt : i < 4 := by
      simp only [Width.bytes] at hi
      omega
    rw [Nat.add_assoc, show regOffsetW r .word = regOffset r from rfl,
      image_field (cpuByte_reg r hlt)]
  | dword => exact load_field fun i hi => cpuByte_reg r hi

/-! ## Stores -/

/-- A store that replaces the bytes of one field. -/
theorem store_field {c' : X86Cpu} {o n : Nat} {v : U32} (hthere : ∀ i < n, cpuByte lay c (o + i) ≠ none)
    (h : ∀ j, cpuByte lay c' j =
      if o ≤ j ∧ j < o + n then some (byteOf v (j - o)) else cpuByte lay c j) :
    (image lay cpu c rest).store n (cpu + o) v = some (image lay cpu c' rest) := by
  rw [store_eq]
  · refine congrArg some (funext fun x => ?_)
    unfold image
    by_cases hx : cpu ≤ x
    · rw [if_pos hx, if_pos hx, h (x - cpu)]
      by_cases hin : cpu + o ≤ x ∧ x < cpu + o + n
      · rw [if_pos hin, if_pos (by omega)]
        rw [show x - (cpu + o) = x - cpu - o by omega]
        rfl
      · rw [if_neg hin, if_neg (by omega)]
    · rw [if_neg hx, if_neg hx, if_neg (by omega)]
  · intro i hi
    obtain ⟨b, hb⟩ := Option.ne_none_iff_exists'.mp (hthere i hi)
    rw [Nat.add_assoc, image_field hb]
    exact Option.some_ne_none b

/-- A word with one of its fields of whole bytes replaced. -/
theorem byteOf_insert (old v : U32) (w : Width) {t k : Nat} (hk : k < 4) :
    byteOf ((old &&& ~~~(widthMask w <<< (8 * t))) ||| ((v &&& widthMask w) <<< (8 * t))) k =
      if t ≤ k ∧ k < t + w.bytes then byteOf v (k - t) else byteOf old k := by
  have hbits : w.bits = 8 * w.bytes := by rw [Width.bits, Nat.mul_comm]
  refine BitVec.eq_of_getLsbD_eq fun i hi => ?_
  have hpos : 8 * k + i < 32 := by omega
  rw [getLsbD_byteOf, BitVec.getLsbD_or, BitVec.getLsbD_and, BitVec.getLsbD_not,
    BitVec.getLsbD_shiftLeft, BitVec.getLsbD_shiftLeft, Cpu.getLsbD_and_widthMask,
    Cpu.getLsbD_widthMask]
  split_ifs with hin
  · have hsub : 8 * k + i - 8 * t = 8 * (k - t) + i := by omega
    have hlt : 8 * (k - t) + i < w.bits := by omega
    have hge : ¬ 8 * k + i < 8 * t := by omega
    rw [getLsbD_byteOf, hsub]
    simp [hpos, hi, hlt, hge]
  · by_cases hge : 8 * k + i < 8 * t
    · rw [getLsbD_byteOf]
      simp [hpos, hge]
    · have hlt : ¬ 8 * k + i - 8 * t < w.bits := by omega
      rw [getLsbD_byteOf]
      simp [hpos, hge, hlt]

/-- The register a narrow write leaves is the old one with the written bytes replaced. -/
theorem regWrite_reg (c : CpuState) (r : Reg) (w : Width) (v : U32) :
    ∃ t, ∃ q : Reg, regOffsetW r w = 4 * q.val + t ∧ t + w.bytes ≤ 4 ∧
      regWrite c r w v = c.setReg q
        ((c.reg q &&& ~~~(widthMask w <<< (8 * t))) ||| ((v &&& widthMask w) <<< (8 * t))) := by
  cases w with
  | byte =>
    refine ⟨(byteReg r).2 / 8, (byteReg r).1, rfl, ?_, ?_⟩
    · rcases byteReg_shift r with h | h <;> simp [h, Width.bytes]
    · rcases byteReg_shift r with h | h <;> simp [h, regWrite, widthMask]
  | word =>
    refine ⟨0, r, rfl, by simp [Width.bytes], ?_⟩
    simp [regWrite, widthMask]
  | dword =>
    refine ⟨0, r, rfl, by simp [Width.bytes], ?_⟩
    have hmask : 0xFFFFFFFF#32 = BitVec.allOnes 32 := rfl
    simp only [regWrite, widthMask, Nat.mul_zero, BitVec.shiftLeft_zero]
    rw [hmask, BitVec.and_allOnes, BitVec.not_allOnes, BitVec.and_zero, BitVec.zero_or]

/-- A register store is the interpreter's register write. -/
theorem store_reg (r : Reg) (w : Width) (v : U32) :
    (image lay cpu c rest).store w.bytes (cpu + regOffsetW r w) v =
      some (image lay cpu { c with toCpuState := regWrite c.toCpuState r w v } rest) := by
  obtain ⟨t, q, hoff, hfit, hwrite⟩ := regWrite_reg c.toCpuState r w v
  rw [hoff, hwrite]
  refine store_field ?_ fun j => ?_
  · intro i hi
    have hbyte : cpuByte lay c (regOffset q + (t + i)) = some (byteOf (c.reg q) (t + i)) :=
      cpuByte_reg q (by omega)
    rw [regOffset, ← Nat.add_assoc] at hbyte
    rw [hbyte]
    exact Option.some_ne_none _
  · by_cases hj : j < 32
    · have hq : (Fin.ofNat 8 (j / 4)).val = j / 4 := Nat.mod_eq_of_lt (by omega)
      have hnew : ∀ c' : X86Cpu, cpuByte lay c' j =
          some (byteOf (c'.reg (Fin.ofNat 8 (j / 4))) (j % 4)) := fun c' => by
        unfold cpuByte
        rw [if_pos hj]
      rw [hnew, hnew, Cpu.setReg_reg]
      by_cases heq : Fin.ofNat 8 (j / 4) = q
      · rw [heq, Function.update_self, byteOf_insert _ _ _ (Nat.mod_lt _ (by decide))]
        have hval : j / 4 = q.val := by rw [← heq, hq]
        split_ifs with h1 h2 h2
        · rw [show j - (4 * q.val + t) = j % 4 - t by omega]
        · omega
        · omega
        · rfl
      · rw [Function.update_of_ne heq, if_neg]
        rintro ⟨hlo, hhi⟩
        refine heq (Fin.ext ?_)
        omega
    · rw [if_neg (by omega)]
      unfold cpuByte
      rw [if_neg hj, if_neg hj]
      rfl

theorem store_eip (v : U32) :
    (image lay cpu c rest).store 4 (cpu + eipOffset) v =
      some (image lay cpu { c with eip := v } rest) := by
  refine store_field ?_ fun j => ?_
  · intro i hi
    rw [cpuByte_eip hi]
    exact Option.some_ne_none _
  · unfold cpuByte eipOffset
    by_cases hin : 32 ≤ j ∧ j < 32 + 4
    · rw [if_pos hin, if_neg (by omega), if_pos (by omega)]
    · rw [if_neg hin]
      by_cases hj : j < 32
      · rw [if_pos hj, if_pos hj]
      · rw [if_neg hj, if_neg hj, if_neg (by omega : ¬ j < 36), if_neg (by omega : ¬ j < 36)]

/-- The five stores of a flag tuple, in their order; the carry is another store's. -/
def storeFlags (m : LinearMem) (cpu : Nat) (kind : FlagKind) (a b r : U32) (w : Width) :
    Option LinearMem :=
  (m.store 4 (cpu + aOffset) a).bind fun m =>
  (m.store 4 (cpu + bOffset) b).bind fun m =>
  (m.store 4 (cpu + rOffset) r).bind fun m =>
  (m.store 1 (cpu + kindOffset) ((kindCode kind).setWidth 32)).bind fun m =>
  m.store 1 (cpu + wOffset) ((widthCode w).setWidth 32)

theorem store_carry (v : U32) :
    (image lay cpu c rest).store 1 (cpu + carryInOffset) v =
      some (image lay cpu { c with flags := { c.flags with carryIn := v.setWidth 8 } } rest) := by
  have := lay.flags_lt_df
  refine store_field ?_ fun j => ?_
  · intro i hi
    rw [show i = 0 by omega, Nat.add_zero, cpuByte_carryIn]
    exact Option.some_ne_none _
  · unfold cpuByte carryInOffset
    by_cases hin : 50 ≤ j ∧ j < 50 + 1
    · rw [if_pos hin, show j = 50 by omega, ← byteOf_zero]
      rfl
    · rw [if_neg hin]
      have hne : j ≠ 50 := by omega
      simp only [if_neg hne]

theorem store_a (v : U32) :
    (image lay cpu c rest).store 4 (cpu + aOffset) v =
      some (image lay cpu { c with flags := { c.flags with a := v } } rest) := by
  refine store_field ?_ fun j => ?_
  · intro i hi
    rw [cpuByte_a hi]
    exact Option.some_ne_none _
  · unfold cpuByte aOffset
    by_cases hin : 36 ≤ j ∧ j < 36 + 4
    · rw [if_pos hin, if_neg (by omega), if_neg (by omega), if_pos (by omega)]
    · rw [if_neg hin]
      by_cases hj : j < 36
      · simp only [if_pos hj]
      · simp only [if_neg (show ¬ j < 40 by omega)]

theorem store_b (v : U32) :
    (image lay cpu c rest).store 4 (cpu + bOffset) v =
      some (image lay cpu { c with flags := { c.flags with b := v } } rest) := by
  refine store_field ?_ fun j => ?_
  · intro i hi
    rw [cpuByte_b hi]
    exact Option.some_ne_none _
  · unfold cpuByte bOffset
    by_cases hin : 40 ≤ j ∧ j < 40 + 4
    · rw [if_pos hin, if_neg (by omega), if_neg (by omega), if_neg (by omega),
        if_pos (by omega)]
    · rw [if_neg hin]
      by_cases hj : j < 40
      · simp only [if_pos hj]
      · simp only [if_neg (show ¬ j < 44 by omega)]

theorem store_r (v : U32) :
    (image lay cpu c rest).store 4 (cpu + rOffset) v =
      some (image lay cpu { c with flags := { c.flags with r := v } } rest) := by
  refine store_field ?_ fun j => ?_
  · intro i hi
    rw [cpuByte_r hi]
    exact Option.some_ne_none _
  · unfold cpuByte rOffset
    by_cases hin : 44 ≤ j ∧ j < 44 + 4
    · rw [if_pos hin, if_neg (by omega), if_neg (by omega), if_neg (by omega),
        if_neg (by omega), if_pos (by omega)]
    · rw [if_neg hin]
      by_cases hj : j < 44
      · simp only [if_pos hj]
      · simp only [if_neg (show ¬ j < 48 by omega)]

/-- The kind and the width come to one record: a kind without its width is not a flag state. -/
theorem store_kind_w (hrest : Backed cpu rest) {kind : FlagKind} (hkind : kind ≠ .none)
    (w : Width) :
    (((image lay cpu c rest).store 1 (cpu + kindOffset) ((kindCode kind).setWidth 32)).bind
        fun m => m.store 1 (cpu + wOffset) ((widthCode w).setWidth 32)) =
      some (image lay cpu { c with flags := { c.flags with kind := kind, w := w } } rest) := by
  have hdf := lay.flags_lt_df
  have hbyte : ∀ b : U8, byteOf (b.setWidth 32) 0 = b := fun b => by
    rw [byteOf_zero, BitVec.setWidth_setWidth_of_le b (by decide), BitVec.setWidth_eq]
  rw [store_eq _ fun i hi => ?_, Option.bind_some, store_eq _ fun i hi => ?_]
  · refine congrArg some (funext fun x => ?_)
    by_cases hw : x = cpu + wOffset
    · rw [if_pos (by omega), hw, Nat.sub_self, hbyte,
        image_field (cpuByte_w (by exact hkind))]
    · rw [if_neg (by omega)]
      by_cases hk : x = cpu + kindOffset
      · rw [if_pos (by omega), hk, Nat.sub_self, hbyte, image_field cpuByte_kind]
      · rw [if_neg (by omega)]
        have hsame : ∀ j, j ≠ kindOffset → j ≠ wOffset → cpuByte lay c j =
            cpuByte lay { c with flags := { c.flags with kind := kind, w := w } } j := by
          intro j hj hj'
          unfold cpuByte kindOffset wOffset at *
          simp only [if_neg hj, if_neg hj']
        unfold image
        split_ifs with hle
        · rw [hsame (x - cpu) (by omega) (by omega)]
        · rfl
  · rw [show i = 0 by omega, Nat.add_zero, if_neg (by unfold wOffset kindOffset; omega)]
    unfold image
    rw [ne_eq, Option.or_eq_none_iff]
    exact fun h => hrest h.2
  · rw [show i = 0 by omega, Nat.add_zero, image_field cpuByte_kind]
    exact Option.some_ne_none _

/-- A flag tuple stored field for field is the recorded one. -/
theorem store_flags (hrest : Backed cpu rest) {kind : FlagKind} (hkind : kind ≠ .none)
    (a b r : U32) (w : Width) :
    storeFlags (image lay cpu c rest) cpu kind a b r w =
      some (image lay cpu { c with flags := ⟨a, b, r, kind, w, c.flags.carryIn⟩ } rest) := by
  unfold storeFlags
  rw [store_a, Option.bind_some, store_b, Option.bind_some, store_r, Option.bind_some,
    store_kind_w hrest hkind]

theorem store_df (v : Bool) :
    (image lay cpu c rest).store 1 (cpu + lay.df) (if v then 1 else 0) =
      some (image lay cpu { c with df := v } rest) := by
  have hlt := lay.flags_lt_df
  have hfs := lay.df_lt_fsBase
  refine store_field ?_ fun j => ?_
  · intro i hi
    rw [show i = 0 by omega, Nat.add_zero, cpuByte_df]
    exact Option.some_ne_none _
  · by_cases hin : lay.df ≤ j ∧ j < lay.df + 1
    · rw [if_pos hin, show j = lay.df by omega, cpuByte_df, Nat.sub_self, byteOf_zero]
      cases v <;> rfl
    · rw [if_neg hin]
      have hne : j ≠ lay.df := by omega
      unfold cpuByte
      simp only [if_neg hne]

end

end X86Port.Wasm
