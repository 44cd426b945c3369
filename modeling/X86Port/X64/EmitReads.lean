import X86Port.X64.EmitForms

/-!
# Reading the encoder's instructions back

* `reads_modRm_reg`, `reads_modRm_mem`: ModRM with all that follows it.
* `reads_form`: every call writes the instruction that it is asked for.
-/

namespace X86Port.X64

open Lib (Reads Reader)

/-! ## Fields -/

theorem number_split (n : BitVec 4) : number (n.getLsbD 3) (n.setWidth 3) = n := by
  revert n
  decide

theorem high_bit (n : BitVec 4) :
    n.setWidth 8 >>> 3 = (BitVec.ofBool (n.getLsbD 3)).setWidth 8 := by
  revert n
  decide

theorem low_bits (n : BitVec 4) : n.setWidth 8 &&& 7 = (n.setWidth 3).setWidth 8 := by
  revert n
  decide

theorem rexValue_fields (w : Bool) (r b : BitVec 4) :
    IsRex (rexValue w r b) ∧ (rexValue w r b).getLsbD 3 = w ∧
      (rexValue w r b).getLsbD 2 = r.getLsbD 3 ∧ (rexValue w r b).getLsbD 1 = false ∧
      (rexValue w r b).getLsbD 0 = b.getLsbD 3 := by
  unfold rexValue
  rw [high_bit r, high_bit b]
  generalize r.getLsbD 3 = high
  generalize b.getLsbD 3 = high'
  revert w high high'
  decide

theorem modRm_fields (mode : BitVec 2) (reg rm : BitVec 4) :
    topField (modRmByte (mode.setWidth 8) reg rm) = mode ∧
      midField (modRmByte (mode.setWidth 8) reg rm) = reg.setWidth 3 ∧
      lowField (modRmByte (mode.setWidth 8) reg rm) = rm.setWidth 3 := by
  unfold modRmByte
  rw [low_bits reg, low_bits rm]
  generalize reg.setWidth 3 = x
  generalize rm.setWidth 3 = y
  revert mode x y
  decide

/-- A prefix is no REX. -/
theorem not_legacy_of_rex {b : U8} (h : IsRex b) : ¬ IsLegacy b := by
  revert b
  decide

/-! ## Prefixes -/

/-- What is read where `rexBytes` was put down. -/
def rexOf (w : Bool) (r b : BitVec 4) : Option Rex :=
  if rexValue w r b ≠ 0x40 then some ⟨w, r.getLsbD 3, false, b.getLsbD 3⟩ else none

theorem rexOf_getD (w : Bool) (r b : BitVec 4) :
    (rexOf w r b).getD noRex = ⟨w, r.getLsbD 3, false, b.getLsbD 3⟩ := by
  obtain ⟨-, hw, hr, -, hb⟩ := rexValue_fields w r b
  unfold rexOf
  split_ifs with hplain
  · rfl
  · rw [not_not.mp hplain] at hw hr hb
    rw [← hw, ← hr, ← hb]
    rfl

theorem operandSize_rexOf (legacy : Option U8) (w : Bool) (r b : BitVec 4) :
    operandSize legacy (rexOf w r b) = if w then 64 else if legacy = some 0x66 then 16 else 32 := by
  rw [operandSize, rexOf_getD]

theorem run_readRex {op : U8} (hop : ¬ IsRex op) (w : Bool) (r b : BitVec 4) (rest : List U8) :
    readRex.run (rexBytes w r b ++ op :: rest) = some (rexOf w r b, op :: rest) := by
  obtain ⟨hrex, hw, hr, hx, hb⟩ := rexValue_fields w r b
  unfold rexBytes rexOf
  split_ifs with hplain
  · change (if IsRex (rexValue w r b) then _ else _) = _
    rw [if_pos hrex, hw, hr, hx, hb]
    rfl
  · exact if_neg hop

/-- The prefixes of an instruction, and then its opcode. -/
theorem reads_decode {legacy : Option U8} (hlegacy : ∀ p ∈ legacy, IsLegacy p) {w : Bool}
    {r b : BitVec 4} {op : U8} {tail : List U8} {i : HostInstr} (hop : ¬ IsLegacy op)
    (hop' : ¬ IsRex op) (h : Reads (readOpcode legacy (rexOf w r b)) (op :: tail) i) :
    Reads decode (legacy.toList ++ (rexBytes w r b ++ (op :: tail))) i := by
  intro rest
  have hread : readLegacy.run (legacy.toList ++ (rexBytes w r b ++ op :: tail) ++ rest) =
      some (legacy, rexBytes w r b ++ op :: (tail ++ rest)) := by
    cases legacy with
    | some p =>
      have hp := hlegacy p rfl
      change (if IsLegacy p then _ else _) = _
      rw [if_pos hp]
      exact congrArg (fun bytes => some (some p, bytes)) (List.append_assoc _ (op :: tail) rest)
    | none =>
      unfold rexBytes
      split_ifs with hplain
      · exact if_neg (not_legacy_of_rex (rexValue_fields w r b).1)
      · exact if_neg hop
  rw [decode, StateT.run_bind, hread]
  change (readRex.run _ >>= _) = _
  rw [run_readRex hop']
  exact h rest

/-! ## Opcodes -/

/-- A one-byte opcode. -/
theorem reads_oneByte {legacy : Option U8} (hlegacy : legacy = none ∨ legacy = some 0x66) {w : Bool}
    {r b : BitVec 4} {op : U8} {tail : List U8} {i : HostInstr} {layout : Layout} {size : Nat}
    (hsize : (if w then 64 else if legacy = some 0x66 then 16 else 32) = size)
    (hop : ¬ IsLegacy op ∧ ¬ IsRex op ∧ op ≠ 0x0F)
    (hlayout : oneByte (rexOf w r b) size op = some layout)
    (h : Reads (readLayout ⟨w, r.getLsbD 3, false, b.getLsbD 3⟩ size op layout) tail i) :
    Reads decode (legacy.toList ++ (rexBytes w r b ++ ([op] ++ tail))) i := by
  obtain ⟨hop₁, hop₂, hop₃⟩ := hop
  refine reads_decode ?_ hop₁ hop₂ ?_
  · rintro p hp
    obtain rfl | rfl := hlegacy
    · cases hp
    · cases hp
      decide
  · intro rest
    rw [← rexOf_getD, ← hsize, ← operandSize_rexOf] at h
    rw [← hsize, ← operandSize_rexOf] at hlayout
    change (if op = 0x0F then _ else _ : Reader U8 HostInstr).run (tail ++ rest) = _
    rw [if_neg hop₃, if_pos hlegacy, hlayout]
    exact h rest

/-- An opcode behind `0x0F`. -/
theorem reads_twoByte {legacy : Option U8} (hlegacy : ∀ p ∈ legacy, IsLegacy p) {w : Bool}
    {r b : BitVec 4} {op : U8} {tail : List U8} {i : HostInstr} {layout : Layout} {size : Nat}
    (hsize : (if w then 64 else if legacy = some 0x66 then 16 else 32) = size)
    (hlayout : twoByte legacy (rexOf w r b) size op = some layout)
    (h : Reads (readLayout ⟨w, r.getLsbD 3, false, b.getLsbD 3⟩ size op layout) tail i) :
    Reads decode (legacy.toList ++ (rexBytes w r b ++ ([0x0F, op] ++ tail))) i := by
  refine reads_decode hlegacy (by decide) (by decide) ?_
  intro rest
  rw [← rexOf_getD, ← hsize, ← operandSize_rexOf] at h
  rw [← hsize, ← operandSize_rexOf] at hlayout
  change ((StateT.lift (twoByte legacy _ _ op) >>= _ : Reader U8 HostInstr)).run (tail ++ rest) = _
  rw [hlayout]
  exact h rest

/-! ## Operands -/

theorem signExtend_low8 {disp : U32} (h : -128 ≤ disp.toInt ∧ disp.toInt ≤ 127) :
    (disp.setWidth 8).signExtend 64 = disp.signExtend 64 := by
  apply BitVec.eq_of_toInt_eq
  rw [BitVec.toInt_signExtend_of_le (by decide), BitVec.toInt_signExtend_of_le (by decide),
    BitVec.toInt_setWidth]
  have hval := BitVec.toInt_eq_toNat_bmod disp
  rw [hval] at h ⊢
  simp only [Int.bmod] at h ⊢
  omega

theorem signExtend_short {imm : U32} (h : -128 ≤ imm.toInt ∧ imm.toInt ≤ 127) :
    (imm.setWidth 8).signExtend 32 = imm := by
  apply BitVec.eq_of_toInt_eq
  rw [BitVec.toInt_signExtend_of_le (by decide), BitVec.toInt_setWidth]
  have hval := BitVec.toInt_eq_toNat_bmod imm
  rw [hval] at h ⊢
  simp only [Int.bmod] at h ⊢
  omega

theorem dispMode_cases (base : BitVec 4) (disp : U32) :
    (dispMode base disp = 0 ∧ disp = 0 ∧ base.setWidth 3 ≠ 5) ∨
      (dispMode base disp = 1 ∧ -128 ≤ disp.toInt ∧ disp.toInt ≤ 127) ∨
      dispMode base disp = 2 := by
  unfold dispMode
  split_ifs with hzero hshort
  · refine .inl ⟨rfl, hzero.1, fun hfive => hzero.2 ?_⟩
    rw [low_bits, hfive]
    rfl
  · exact .inr (.inl ⟨rfl, hshort⟩)
  · exact .inr (.inr rfl)

theorem reads_disp (base : BitVec 4) (disp : U32) :
    Reads (readDisp ((dispMode base disp).setWidth 2)) (dispBytes (dispMode base disp) disp)
      (disp.signExtend 64) := by
  obtain ⟨hmode, hdisp, -⟩ | ⟨hmode, hshort⟩ | hmode := dispMode_cases base disp
  · rw [hmode, hdisp]
    exact Lib.reads_pure 0
  · rw [hmode, ← signExtend_low8 hshort]
    exact (reads_le 1 (disp.setWidth 8)).map fun b : BitVec (8 * 1) => b.signExtend 64
  · rw [hmode]
    exact (reads_le 4 disp).map fun v : BitVec (8 * 4) => v.signExtend 64

/-- `[base + disp]` behind its ModRM. -/
theorem reads_mem (w high : Bool) (base : BitVec 4) (disp : U32) :
    Reads (readMem ⟨w, high, false, base.getLsbD 3⟩ ((dispMode base disp).setWidth 2)
        (base.setWidth 3))
      (sibBytes base ++ dispBytes (dispMode base disp) disp)
      ⟨.reg base, none, disp.signExtend 64⟩ := by
  have hdisp := reads_disp base disp
  have hnumber := number_split base
  unfold readMem sibBytes
  by_cases hsib : base.setWidth 3 = 4
  · have hlow : base.setWidth 8 &&& 7 = (4 : U8) := by
      rw [low_bits, hsib]
      rfl
    rw [if_pos hsib, if_pos hlow, hlow]
    rw [hsib] at hnumber
    refine (Lib.reads_item _).bind ?_
    have hindex : number false (midField (0x20 ||| 4)) = 4 := by decide
    have hbase : lowField (0x20 ||| 4) = 4 := by decide
    have hnot : ¬ ((dispMode base disp).setWidth 2 = 0 ∧ lowField (0x20 ||| 4) = 5) := by
      rw [hbase]
      exact fun h => absurd h.2 (by decide)
    rw [if_pos hindex, if_neg hnot, hbase, hnumber]
    exact hdisp.last (Lib.reads_pure _)
  · have hlow : ¬ base.setWidth 8 &&& 7 = (4 : U8) := by
      intro h
      rw [low_bits] at h
      exact hsib (by generalize base.setWidth 3 = x at h ⊢; revert x; decide)
    have hnot : ¬ ((dispMode base disp).setWidth 2 = 0 ∧ base.setWidth 3 = 5) := by
      rintro ⟨hzero, hfive⟩
      obtain ⟨-, -, hne⟩ | ⟨hmode, -⟩ | hmode := dispMode_cases base disp
      · exact hne hfive
      · rw [hmode] at hzero
        exact absurd hzero (by decide)
      · rw [hmode] at hzero
        exact absurd hzero (by decide)
    rw [if_neg hsib, if_neg hlow, if_neg hnot, hnumber]
    exact hdisp.map (MemOperand.mk (.reg base) none)

theorem reads_modRm_reg (w : Bool) (reg rm : BitVec 4) :
    Reads (readModRm ⟨w, reg.getLsbD 3, false, rm.getLsbD 3⟩) [modRmByte 3 reg rm]
      (reg, .reg rm) := by
  obtain ⟨hmode, hreg, hrm⟩ := modRm_fields 3 reg rm
  refine (Lib.reads_item (modRmByte 3 reg rm)).bind ?_
  have htop : topField (modRmByte 3 reg rm) = 3 := hmode
  have hmid : midField (modRmByte 3 reg rm) = reg.setWidth 3 := hreg
  have hlow : lowField (modRmByte 3 reg rm) = rm.setWidth 3 := hrm
  rw [if_pos htop, hmid, hlow, number_split, number_split]
  exact Lib.reads_pure _

theorem reads_modRm_mem (w : Bool) (reg base : BitVec 4) (disp : U32) :
    Reads (readModRm ⟨w, reg.getLsbD 3, false, base.getLsbD 3⟩) (memBytes reg base disp)
      (reg, .mem ⟨.reg base, none, disp.signExtend 64⟩) := by
  have hwide : dispMode base disp = ((dispMode base disp).setWidth 2).setWidth 8 ∧
      (dispMode base disp).setWidth 2 ≠ 3#2 := by
    obtain ⟨hmode, -⟩ | ⟨hmode, -⟩ | hmode := dispMode_cases base disp
    · rw [hmode]
      decide
    · rw [hmode]
      decide
    · rw [hmode]
      decide
  obtain ⟨hmode, hreg, hrm⟩ := modRm_fields ((dispMode base disp).setWidth 2) reg base
  rw [← hwide.1] at hmode hreg hrm
  refine (Lib.reads_item _).bind ?_
  have hnot : ¬ (dispMode base disp).setWidth 2 = (3 : BitVec 2) := hwide.2
  rw [hmode, hreg, hrm, number_split]
  dsimp only
  rw [if_neg hnot]
  exact (reads_mem w _ base disp).map fun m => (reg, RegOrMem.mem m)

/-! ## Layouts -/

theorem reads_reg {w : Bool} {reg rm : BitVec 4} {size : Nat} {op : U8} {form : ImmForm}
    {build : BitVec 4 → RegOrMem → U64 → Option HostInstr} {imm : List U8} {v : U64}
    {i : HostInstr} (himm : Reads (readImm size form) imm v)
    (hbuild : build reg (.reg rm) v = some i) :
    Reads (readLayout ⟨w, reg.getLsbD 3, false, rm.getLsbD 3⟩ size op (.modRm form build))
      (modRmByte 3 reg rm :: imm) i := by
  refine (reads_modRm_reg w reg rm).bind ?_
  exact himm.last (Lib.reads_lift hbuild)

theorem reads_regMem {w : Bool} {reg base : BitVec 4} {disp : U32} {size : Nat} {op : U8}
    {form : ImmForm} {build : BitVec 4 → RegOrMem → U64 → Option HostInstr} {imm : List U8}
    {v : U64} {i : HostInstr} (himm : Reads (readImm size form) imm v)
    (hbuild : build reg (.mem ⟨.reg base, none, disp.signExtend 64⟩) v = some i) :
    Reads (readLayout ⟨w, reg.getLsbD 3, false, base.getLsbD 3⟩ size op (.modRm form build))
      (memBytes reg base disp ++ imm) i := by
  refine (reads_modRm_mem w reg base disp).bind ?_
  exact himm.last (Lib.reads_lift hbuild)

theorem reads_low {w high : Bool} {r : BitVec 4} {size : Nat} {op : U8} {form : ImmForm}
    {build : BitVec 4 → U64 → HostInstr} {imm : List U8} {v : U64}
    (hop : lowField op = r.setWidth 3) (himm : Reads (readImm size form) imm v) :
    Reads (readLayout ⟨w, high, false, r.getLsbD 3⟩ size op (.low form build)) imm (build r v) := by
  refine himm.last ?_
  rw [hop, number_split]
  exact Lib.reads_pure _

theorem reads_bare {rex : Rex} {size : Nat} (op : U8) {form : ImmForm} (build : U64 → HostInstr)
    {imm : List U8} {v : U64} (himm : Reads (readImm size form) imm v) :
    Reads (readLayout rex size op (.bare form build)) imm (build v) := himm.map build

/-! ## Immediates -/

theorem reads_none (size : Nat) : Reads (readImm size .none) [] 0 := Lib.reads_pure 0

theorem reads_byte (size : Nat) (b : U8) : Reads (readImm size .byte) (leBytes 1 b) (b.setWidth 64) :=
  (reads_le 1 b).map fun b : BitVec (8 * 1) => b.setWidth 64

theorem reads_signedByte (size : Nat) (b : U8) :
    Reads (readImm size .signedByte) (leBytes 1 b) ((b.signExtend size).setWidth 64) :=
  (reads_le 1 b).map fun b : BitVec (8 * 1) => (b.signExtend size).setWidth 64

theorem reads_signed32 (v : U32) : Reads (readImm 32 .signed) (leBytes 4 v) (v.setWidth 64) := by
  have h := (reads_le 4 v).map fun v : BitVec (8 * 4) => (v.signExtend 32).setWidth 64
  rwa [BitVec.signExtend_eq] at h

theorem reads_signed16 (v : U16) : Reads (readImm 16 .signed) (leBytes 2 v) (v.setWidth 64) := by
  have h := (reads_le 2 v).map fun v : BitVec (8 * 2) => (v.signExtend 16).setWidth 64
  rwa [BitVec.signExtend_eq] at h

theorem reads_rel (size : Nat) (v : U32) :
    Reads (readImm size .rel) (leBytes 4 v) (v.signExtend 64) :=
  (reads_le 4 v).map fun v : BitVec (8 * 4) => v.signExtend 64

theorem reads_whole32 (v : U32) : Reads (readImm 32 .whole) (leBytes 4 v) (v.setWidth 64) :=
  (reads_le 4 v).map fun v : BitVec (8 * 4) => v.setWidth 64

theorem reads_whole64 (v : U64) : Reads (readImm 64 .whole) (leBytes 8 v) v := by
  have h := (reads_le 8 v).map fun v : BitVec (8 * 8) => v.setWidth 64
  rwa [BitVec.setWidth_eq] at h

/-! ## Every call -/

theorem bits3_cases (x : BitVec 3) :
    x = 0 ∨ x = 1 ∨ x = 2 ∨ x = 3 ∨ x = 4 ∨ x = 5 ∨ x = 6 ∨ x = 7 := by
  revert x
  decide

/-- A one-byte opcode with a register in it. -/
theorem reads_lowForm (first : U8) (size : Nat) (form : ImmForm)
    (build : BitVec 4 → U64 → HostInstr) {w : Bool} {r : BitVec 4} {imm : List U8} {v : U64}
    (hsize : (if w then 64 else 32) = size)
    (hlow : ∀ x : BitVec 3, lowField (first + x.setWidth 8) = x ∧ ¬ IsLegacy (first + x.setWidth 8) ∧
      ¬ IsRex (first + x.setWidth 8) ∧ first + x.setWidth 8 ≠ 0x0F)
    (hlayout : ∀ (rex : Option Rex) (x : BitVec 3),
      oneByte rex size (first + x.setWidth 8) = some (.low form build))
    (himm : Reads (readImm size form) imm v) :
    Reads decode (lowForm w [] first r imm) (build r v) := by
  unfold lowForm
  rw [low_bits]
  obtain ⟨hfield, hop⟩ := hlow (r.setWidth 3)
  exact reads_oneByte (.inl rfl) hsize hop (hlayout _ _) (reads_low hfield himm)

theorem bits4_cases (x : BitVec 4) :
    x = 0 ∨ x = 1 ∨ x = 2 ∨ x = 3 ∨ x = 4 ∨ x = 5 ∨ x = 6 ∨ x = 7 ∨
      x = 8 ∨ x = 9 ∨ x = 10 ∨ x = 11 ∨ x = 12 ∨ x = 13 ∨ x = 14 ∨ x = 15 := by
  revert x
  decide

theorem cc_masked (cc : U32) : (cc &&& 0xF).setWidth 8 = (cc.setWidth 4).setWidth 8 := by
  apply BitVec.eq_of_toNat_eq
  rw [BitVec.toNat_setWidth, BitVec.toNat_and, show (0xF : U32).toNat = 2 ^ 4 - 1 from rfl,
    Nat.and_two_pow_sub_one_eq_mod, BitVec.toNat_setWidth, BitVec.toNat_setWidth]

theorem digit_masked (v : U32) : digit ((v &&& 7).setWidth 4) = v.setWidth 3 := by
  apply BitVec.eq_of_toNat_eq
  rw [digit, BitVec.toNat_setWidth, BitVec.toNat_setWidth, BitVec.toNat_and,
    show (7 : U32).toNat = 2 ^ 3 - 1 from rfl, Nat.and_two_pow_sub_one_eq_mod,
    BitVec.toNat_setWidth]
  omega

theorem cmov_layout (rex : Option Rex) (cc : BitVec 4) :
    twoByte none rex 32 (0x40 + cc.setWidth 8) =
      some (.modRm .none fun reg rm _ => some ⟨.cmov cc, 32, [.gpr reg, rm.gpr]⟩) := by
  obtain rfl | rfl | rfl | rfl | rfl | rfl | rfl | rfl | rfl | rfl | rfl | rfl | rfl | rfl | rfl |
    rfl := bits4_cases cc <;> rfl

theorem set_layout (rex : Option Rex) (cc : BitVec 4) :
    twoByte none rex 32 (0x90 + cc.setWidth 8) =
      some (.modRm .none fun _ rm _ => some ⟨.set cc, 8, [rm.byte rex]⟩) := by
  obtain rfl | rfl | rfl | rfl | rfl | rfl | rfl | rfl | rfl | rfl | rfl | rfl | rfl | rfl | rfl |
    rfl := bits4_cases cc <;> rfl

/-- AL, CL, DL and BL are spelled alike with REX and without. -/
theorem byteReg_low {n : BitVec 4} (h : ¬ HostReg.rbx.code < n) (rex : Option Rex) :
    byteReg rex n = .gpr n := by
  have hlow : ¬ 4 ≤ n := by
    revert n
    decide
  exact if_neg fun hboth => hlow hboth.2

theorem no_legacy : ∀ p ∈ (none : Option U8), IsLegacy p := nofun

theorem repeat_legacy : ∀ p ∈ some (0xF3 : U8), IsLegacy p := by
  rintro p ⟨⟩
  decide

theorem reads_form {f : Form} (hf : ¬ f.Refused) : Reads decode f.bytes f.asked := by
  cases f with
  | movR32Imm32 dst imm =>
    refine reads_lowForm 0xB8 32 .whole (fun r v => ⟨.mov, 32, [.gpr r, .imm v]⟩) rfl (by decide)
      (fun rex x => ?_) (reads_whole32 imm)
    obtain rfl | rfl | rfl | rfl | rfl | rfl | rfl | rfl := bits3_cases x <;> rfl
  | movR64Imm64 dst imm =>
    refine reads_lowForm 0xB8 64 .whole (fun r v => ⟨.mov, 64, [.gpr r, .imm v]⟩) rfl (by decide)
      (fun rex x => ?_) (reads_whole64 imm)
    obtain rfl | rfl | rfl | rfl | rfl | rfl | rfl | rfl := bits3_cases x <;> rfl
  | pushR64 r =>
    refine reads_lowForm 0x50 32 .none (fun r _ => ⟨.push, 64, [.gpr r]⟩) rfl (by decide)
      (fun rex x => ?_) (reads_none _)
    obtain rfl | rfl | rfl | rfl | rfl | rfl | rfl | rfl := bits3_cases x <;> rfl
  | popR64 r =>
    refine reads_lowForm 0x58 32 .none (fun r _ => ⟨.pop, 64, [.gpr r]⟩) rfl (by decide)
      (fun rex x => ?_) (reads_none _)
    obtain rfl | rfl | rfl | rfl | rfl | rfl | rfl | rfl := bits3_cases x <;> rfl
  | bswapR32 dst =>
    have hfield : ∀ x : BitVec 3, lowField (0xC8 + x.setWidth 8) = x := by decide
    have hlayout : ∀ (rex : Option Rex) (x : BitVec 3),
        twoByte none rex 32 (0xC8 + x.setWidth 8) =
          some (.low .none fun r _ => ⟨.bswap, 32, [.gpr r]⟩) := by
      intro rex x
      obtain rfl | rfl | rfl | rfl | rfl | rfl | rfl | rfl := bits3_cases x <;> rfl
    rw [Form.bytes, lowForm, low_bits]
    exact reads_twoByte no_legacy rfl (hlayout _ _) (reads_low (hfield _) (reads_none _))
  | movR64R64 dst src =>
    exact reads_oneByte (.inl rfl) rfl (by decide) rfl (reads_reg (reads_none _) rfl)
  | movR32R32 dst src =>
    exact reads_oneByte (.inl rfl) rfl (by decide) rfl (reads_reg (reads_none _) rfl)
  | load32 dst base disp =>
    exact reads_oneByte (.inl rfl) rfl (by decide) rfl (reads_regMem (reads_none _) rfl)
  | load64 dst base disp =>
    exact reads_oneByte (.inl rfl) rfl (by decide) rfl (reads_regMem (reads_none _) rfl)
  | store32 base disp src =>
    exact reads_oneByte (.inl rfl) rfl (by decide) rfl (reads_regMem (reads_none _) rfl)
  | store64 base disp src =>
    exact reads_oneByte (.inl rfl) rfl (by decide) rfl (reads_regMem (reads_none _) rfl)
  | lea64 dst base disp =>
    exact reads_oneByte (.inl rfl) rfl (by decide) rfl (reads_regMem (reads_none _) rfl)
  | store32Imm base disp imm =>
    exact reads_oneByte (.inl rfl) rfl (by decide) rfl (reads_regMem (reads_signed32 imm) rfl)
  | store8Imm base disp imm =>
    exact reads_oneByte (.inl rfl) rfl (by decide) rfl (reads_regMem (reads_byte _ imm) rfl)
  | aluR32R32 op dst src =>
    cases op <;>
      exact reads_oneByte (.inl rfl) rfl (by decide) rfl (reads_reg (reads_none _) rfl)
  | aluR64R64 op dst src =>
    cases op <;>
      exact reads_oneByte (.inl rfl) rfl (by decide) rfl (reads_reg (reads_none _) rfl)
  | aluR32Mem op dst base disp =>
    cases op <;>
      exact reads_oneByte (.inl rfl) rfl (by decide) rfl (reads_regMem (reads_none _) rfl)
  | aluR64Mem op dst base disp =>
    cases op <;>
      exact reads_oneByte (.inl rfl) rfl (by decide) rfl (reads_regMem (reads_none _) rfl)
  | aluR64Imm8 op dst imm =>
    cases op <;>
      exact reads_oneByte (.inl rfl) rfl (by decide) rfl (reads_reg (reads_signedByte _ imm) rfl)
  | shiftR32Imm8 op dst count =>
    cases op <;>
      exact reads_oneByte (.inl rfl) rfl (by decide) rfl (reads_reg (reads_byte _ count) rfl)
  | shiftR64Imm8 op dst count =>
    cases op <;>
      exact reads_oneByte (.inl rfl) rfl (by decide) rfl (reads_reg (reads_byte _ count) rfl)
  | shiftR32Cl op dst =>
    cases op <;>
      exact reads_oneByte (.inl rfl) rfl (by decide) rfl (reads_reg (reads_none _) rfl)
  | aluR32Imm32 op dst imm =>
    rw [Form.bytes]
    split_ifs with hshort
    · have himm := reads_signedByte 32 (imm.setWidth 8)
      rw [signExtend_short hshort] at himm
      cases op <;> exact reads_oneByte (.inl rfl) rfl (by decide) rfl (reads_reg himm rfl)
    · cases op <;>
        exact reads_oneByte (.inl rfl) rfl (by decide) rfl (reads_reg (reads_signed32 imm) rfl)
  | imulR64R64 dst src => exact reads_twoByte no_legacy rfl rfl (reads_reg (reads_none _) rfl)
  | movupsLoad dst base disp => exact reads_twoByte no_legacy rfl rfl (reads_regMem (reads_none _) rfl)
  | movupsStore base disp src =>
    exact reads_twoByte no_legacy rfl rfl (reads_regMem (reads_none _) rfl)
  | packedPs op dst src =>
    cases op <;> exact reads_twoByte no_legacy rfl rfl (reads_reg (reads_none _) rfl)
  | halfLoad op dst base disp =>
    cases op <;> exact reads_twoByte no_legacy rfl rfl (reads_regMem (reads_none _) rfl)
  | shufps dst src imm => exact reads_twoByte no_legacy rfl rfl (reads_reg (reads_byte _ imm) rfl)
  | load8Zx dst base disp => exact reads_twoByte no_legacy rfl rfl (reads_regMem (reads_none _) rfl)
  | load16Zx dst base disp => exact reads_twoByte no_legacy rfl rfl (reads_regMem (reads_none _) rfl)
  | testR32R32 a b =>
    exact reads_oneByte (.inl rfl) rfl (by decide) rfl (reads_reg (reads_none _) rfl)
  | testR32Imm32 a imm =>
    exact reads_oneByte (.inl rfl) rfl (by decide) rfl (reads_reg (reads_signed32 imm) rfl)
  | x87M escape dig base disp =>
    have hdigit : digit ((dig &&& 7).setWidth 4) = dig.setWidth 3 := digit_masked dig
    have hasked : (Form.x87M escape dig base disp).asked =
        ⟨.x87 escape (digit ((dig &&& 7).setWidth 4)), 80, [base.field disp]⟩ := by
      rw [hdigit]
      rfl
    rw [hasked]
    obtain rfl | rfl | rfl | rfl | rfl | rfl | rfl | rfl := bits3_cases escape <;>
      exact reads_oneByte (.inl rfl) rfl (by decide) rfl (reads_regMem (reads_none _) rfl)
  | x87Reg escape dig st =>
    have hdigit : digit (dig.setWidth 4) = dig := BitVec.setWidth_setWidth_of_le dig (by decide)
    have hst : (st.setWidth 4).setWidth 3 = st := BitVec.setWidth_setWidth_of_le st (by decide)
    have hasked : (Form.x87Reg escape dig st).asked =
        ⟨.x87 escape (digit (dig.setWidth 4)), 80, [.st ((st.setWidth 4).setWidth 3)]⟩ := by
      rw [hdigit, hst]
      rfl
    rw [hasked]
    obtain rfl | rfl | rfl | rfl | rfl | rfl | rfl | rfl := bits3_cases escape <;>
      exact reads_oneByte (.inl rfl) rfl (by decide) rfl (reads_reg (reads_none _) rfl)
  | ret =>
    have hread := reads_oneByte (w := false) (r := 0) (b := 0) (.inl rfl) rfl (by decide) rfl
      (reads_bare 0xC3 (fun _ => ⟨.ret, 64, []⟩) (reads_none 32))
    exact hread
  | callR64 target =>
    exact reads_oneByte (.inl rfl) rfl (by decide) rfl (reads_reg (reads_none _) rfl)
  | jmpR64 target =>
    exact reads_oneByte (.inl rfl) rfl (by decide) rfl (reads_reg (reads_none _) rfl)
  | decM64 base disp =>
    exact reads_oneByte (.inl rfl) rfl (by decide) rfl (reads_regMem (reads_none _) rfl)
  | jmpM64 base disp =>
    exact reads_oneByte (.inl rfl) rfl (by decide) rfl (reads_regMem (reads_none _) rfl)
  | cmovccR32R32 cc dst src =>
    rw [Form.bytes, Form.asked, cc_masked]
    exact reads_twoByte no_legacy rfl (cmov_layout _ _) (reads_reg (reads_none _) rfl)
  | setccR8 cc dst =>
    rw [Form.bytes, Form.asked, cc_masked]
    exact reads_twoByte no_legacy rfl (set_layout _ _)
      (reads_reg (reads_none _) (congrArg (fun x => some (HostInstr.mk _ 8 [x])) (byteReg_low hf _)))
  | store8Reg base disp src =>
    exact reads_oneByte (.inl rfl) rfl (by decide) rfl
      (reads_regMem (reads_none _) (congrArg (fun x => some (HostInstr.mk _ 8 [_, x])) (byteReg_low hf _)))
  | movssLoad dst base disp =>
    exact reads_twoByte repeat_legacy rfl rfl (reads_regMem (reads_none _) rfl)
  | movssRr dst src =>
    exact reads_twoByte repeat_legacy rfl rfl (reads_reg (reads_none _) rfl)
  | store16Reg base disp src =>
    exact reads_oneByte (.inr rfl) rfl (by decide) rfl (reads_regMem (reads_none _) rfl)
  | store16Imm base disp imm =>
    exact reads_oneByte (.inr rfl) rfl (by decide) rfl (reads_regMem (reads_signed16 imm) rfl)
  | orM16Imm16 base disp imm =>
    exact reads_oneByte (.inr rfl) rfl (by decide) rfl (reads_regMem (reads_signed16 imm) rfl)

end X86Port.X64
