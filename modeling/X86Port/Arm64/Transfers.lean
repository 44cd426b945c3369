import X86Port.Arm64.Does

/-!
# Pairs, vectors and addresses of the encoder

* `does_storePair32`: two words, in one store or in two.
* `emits_pushPair`, `emits_popPair`: pairs on the stack.
* `does_loadQ`, `does_storeQ`: vector registers.
* `does_lea64`, `emits_addSpImm`: addresses.
* `does_aluWImm`, `does_aluXImm`, `does_cmpWImm`: immediates that may need a constant.
-/

namespace X86Port.Arm64

/-! ## Pairs -/
section
variable (e : A64Emit) {base a b : RegNo} {disp : U32}

theorem scaled_pair (h4 : disp.toInt.tmod 4 = 0) (hlow : -256 ≤ disp.toInt)
    (hhigh : disp.toInt ≤ 252) :
    (BitVec.ofInt 7 (disp.toInt.tdiv 4)).signExtend 64 * 4#64 = disp.signExtend 64 := by
  have hdiv : disp.toInt.tdiv 4 * 4 = disp.toInt := Int.tdiv_mul_cancel (Int.dvd_of_tmod_eq_zero h4)
  have hfield : (BitVec.ofInt 7 (disp.toInt.tdiv 4)).toInt = disp.toInt.tdiv 4 := by
    rw [BitVec.toInt_ofInt, Int.bmod]
    omega
  change BitVec.ofInt 64 _ * BitVec.ofInt 64 4 = BitVec.ofInt 64 _
  rw [hfield, ← BitVec.ofInt_mul, hdiv]

theorem field7_inWord (v : Int) : BitVec.ofInt 32 v &&& 0x7F = inWord (BitVec.ofInt 7 v) := by
  have hfield : (BitVec.ofInt 32 v).setWidth 7 = BitVec.ofInt 7 v := by
    apply BitVec.eq_of_toNat_eq
    rw [BitVec.toNat_setWidth, BitVec.toNat_ofInt, BitVec.toNat_ofInt]
    omega
  rw [← hfield]
  exact and_ones_eq _ (by decide : 7 ≤ 32)

/-- Two words beside each other. -/
def A64State.storeTwo (s : A64State) (addr : U64) (p q : U32) : A64State :=
  (s.store addr 4 p).store (addr + 4) 4 q

theorem emits_stp (h4 : disp.toInt.tmod 4 = 0) (hlow : -256 ≤ disp.toInt)
    (hhigh : disp.toInt ≤ 252) :
    Emits e (e.put32 (0x29000000#32 ||| (BitVec.ofInt 32 (disp.toInt.tdiv 4) &&& 0x7F) <<< 15 |||
      inWord b <<< 10 ||| inWord base <<< 5 ||| inWord a)) fun s =>
        s.storeTwo (s.addr base disp) (s.w a) (s.w b) := by
  rw [field7_inWord]
  refine Emits.word (decode_pair a base b 0 2 false (BitVec.ofInt 7 (disp.toInt.tdiv 4)))
    fun s => ?_
  have haddr : s.gpr base + (BitVec.ofInt 7 (disp.toInt.tdiv 4)).signExtend 64 * 4#64 =
      s.addr base disp := congrArg (s.gpr base + ·) (scaled_pair h4 hlow hhigh)
  change some ((s.store (s.gpr base + _ * 4#64) 4 (s.w a)).store
    (s.gpr base + _ * 4#64 + 4#64) 4 (s.w b)) = _
  rw [haddr]
  rfl

theorem addr_next (s : A64State) (base : RegNo) {disp : U32} (hwrap : disp.toInt < 2 ^ 31 - 4) :
    s.addr base (disp + 4) = s.addr base disp + 4 := by
  have hlow := BitVec.le_toInt disp
  have hint : (disp + 4).toInt = disp.toInt + 4 := by
    rw [BitVec.toInt_add, show (4 : U32).toInt = 4 from rfl]
    exact Int.bmod_eq_of_le (by omega) (by omega)
  have hsum : (disp + 4).signExtend 64 = disp.signExtend 64 + 4 := by
    change BitVec.ofInt 64 _ = BitVec.ofInt 64 _ + BitVec.ofInt 64 4
    rw [hint, BitVec.ofInt_add]
  unfold A64State.addr
  rw [hsum, BitVec.add_assoc]

theorem does_storePair32 (hreach : Reachable base disp 4) (hreach' : Reachable base (disp + 4) 4)
    (hlost : ∀ r ∈ [base, a, b], r ∉ lostFor disp 4 ++ lostFor (disp + 4) 4)
    (hwrap : disp.toInt < 2 ^ 31 - 4) :
    Does e (e.storePair32 base disp a b) fun s t =>
      EqBut (lostFor disp 4 ++ lostFor (disp + 4) 4)
        (s.storeTwo (s.addr base disp) (s.w a) (s.w b)) t := by
  have hfree : ∀ r ∈ [base, a, b], r ∉ lostFor disp 4 ∧ r ∉ lostFor (disp + 4) 4 := fun r hr => by
    have := hlost r hr
    rwa [List.mem_append, not_or] at this
  unfold A64Emit.storePair32
  split_ifs with hfar
  · refine ((does_store32 e hreach (hfree a (by simp)).1 (hfree base (by simp)).1).trans
      (does_store32 _ hreach' (hfree b (by simp)).2 (hfree base (by simp)).2)).mono fun s t => ?_
    rintro ⟨u, hu, ht⟩
    have hbase : base ∉ lostFor disp 4 := (hfree base (by simp)).1
    have hb : b ∉ lostFor disp 4 := (hfree b (by simp)).1
    have haddr : u.addr base (disp + 4) = s.addr base disp + 4 :=
      (hu.addr hbase _).trans (addr_next s base hwrap)
    have hword : u.w b = s.w b := hu.w hb
    rw [haddr, hword] at ht
    exact (hu.store_both _ _ _).trans ht
  · simp only [not_or, not_not, not_lt] at hfar
    exact (emits_stp e hfar.1 hfar.2.1 hfar.2.2).does fun s =>
      (EqBut.refl [] _).mono fun r hr => absurd hr List.not_mem_nil

/-! ### Pairs on the stack -/

def A64State.pushed (s : A64State) (p q : U64) : A64State :=
  ((s.store (s.gpr 31 - 16) 8 p).store (s.gpr 31 - 8) 8 q).setSp 31 (s.gpr 31 - 16)

def A64State.popped (s : A64State) (a b : RegNo) : A64State :=
  ((s.setSp 31 (s.gpr 31 + 16)).write a (s.load (s.gpr 31) 8)).write b (s.load (s.gpr 31 + 8) 8)

theorem emits_pushPair : Emits e (e.pushPair a b) fun s => s.pushed (s.x a) (s.x b) := by
  unfold A64Emit.pushPair
  rw [field7_inWord]
  refine Emits.word (decode_pair a 31 b 2 3 false (BitVec.ofInt 7 (-2))) fun s => ?_
  have hmoved : s.gpr 31 + (BitVec.ofInt 7 (-2)).signExtend 64 * 8#64 = s.gpr 31 - 16 := by
    rw [show (BitVec.ofInt 7 (-2)).signExtend 64 * 8#64 = -16 from rfl, BitVec.sub_eq_add_neg]
  have hnext : s.gpr 31 - 16 + 8#64 = s.gpr 31 - 8 := by
    rw [BitVec.sub_eq_add_neg, BitVec.add_assoc, BitVec.sub_eq_add_neg]
    rfl
  have hwide : ∀ r, (s.x r).setWidth (8 * 8) = s.x r := fun r => BitVec.setWidth_eq _
  change some (((s.store (s.gpr 31 + _ * 8#64) 8 ((s.x a).setWidth (8 * 8))).store
    (s.gpr 31 + _ * 8#64 + 8#64) 8 ((s.x b).setWidth (8 * 8))).setSp 31 (s.gpr 31 + _ * 8#64)) = _
  rw [hmoved, hnext, hwide, hwide]
  rfl

theorem emits_popPair (hne : a ≠ b) : Emits e (e.popPair a b) fun s => s.popped a b := by
  refine Emits.word (decode_pair a 31 b 2 1 true 2) fun s => ?_
  have hmoved : s.gpr 31 + (2 : BitVec 7).signExtend 64 * 8#64 = s.gpr 31 + 16 := rfl
  have hexec : s.pair 2 1 true 2 b 31 a = some (((s.setSp 31 (s.gpr 31 +
      (2 : BitVec 7).signExtend 64 * 8#64)).write a (s.load (s.gpr 31) 8)).write b
        (s.load (s.gpr 31 + 8#64) 8)) := if_neg hne
  exact hexec

end

/-! ## Vectors -/

section

variable (e : A64Emit) {v base : RegNo} {disp : U32}

theorem ldstQ_eq (baseWord : U32) (v base : RegNo) (disp : U32) :
    e.ldstQ baseWord v base disp = e.ldstUnsigned baseWord v base disp 16 := by
  unfold A64Emit.ldstQ A64Emit.ldstUnsigned A64Emit.fitsScaledUnsigned
  by_cases hneg : disp.toInt < 0
  · rw [if_neg (by omega), if_pos hneg]
    simp
  by_cases hmod : disp.toNat % 16 ≠ 0
  · rw [if_neg fun h => hmod h.2.1, if_neg hneg, if_pos hmod]
    simp
  by_cases hlarge : disp.toNat / 16 > 4095
  · rw [if_neg fun h => absurd h.2.2 (by omega), if_neg hneg, if_neg hmod, if_pos hlarge]
    simp
  · rw [if_pos ⟨by omega, not_not.mp hmod, by omega⟩, if_neg hneg, if_neg hmod, if_neg hlarge]

theorem does_loadQ (hreach : Reachable base disp 16) :
    Does e (e.loadQ v base disp) fun s t =>
      EqBut (lostFor disp 16) (s.setVec v (s.load (s.addr base disp) 16)) t := by
  have h := @emits_ldst e 0 3 true v base disp 16 (fun a t => t.setVec v (t.load a 16)) rfl
    (fun _ _ => rfl) hreach
  unfold A64Emit.loadQ
  rw [ldstQ_eq]
  refine h.does fun s => ?_
  have hsame := approach_eqBut base disp 16 s
  rw [hsame.load]
  exact hsame.setVec_both _ _

theorem does_storeQ (hreach : Reachable base disp 16) :
    Does e (e.storeQ base disp v) fun s t =>
      EqBut (lostFor disp 16) (s.store (s.addr base disp) 16 (s.vec v)) t := by
  have h := @emits_ldst e 0 2 true v base disp 16 (fun a t => t.store a 16 (t.vec v)) rfl
    (fun _ _ => rfl) hreach
  unfold A64Emit.storeQ
  rw [ldstQ_eq]
  refine h.does fun s => ?_
  have hsame := approach_eqBut base disp 16 s
  rw [hsame.vec]
  exact hsame.store_both _ _ _

theorem at_base (s : A64State) (base : RegNo) :
    s.gpr base + (0 : BitVec 12).setWidth 64 <<< 4 = s.gpr base := BitVec.add_zero _

theorem emits_loadQAt : Emits e (e.loadQAt v base) fun s => s.setVec v (s.load (s.gpr base) 16) :=
  Emits.word (decode_loadStore v base 0 3 true 0) fun s =>
    congrArg (fun a => some (s.setVec v (s.load a 16))) (at_base s base)

theorem emits_storeQAt : Emits e (e.storeQAt base v) fun s => s.store (s.gpr base) 16 (s.vec v) :=
  Emits.word (decode_loadStore v base 0 2 true 0) fun s =>
    congrArg (fun a => some (s.store a 16 (s.vec v))) (at_base s base)

theorem emits_movQQ (src : RegNo) : Emits e (e.movQQ v src) fun s => s.setVec v (s.vec src) :=
  Emits.word (decode_orrVec v src src) fun s =>
    congrArg (fun u => some (s.setVec v u)) BitVec.or_self

end

/-! ## Addresses -/

section

variable (e : A64Emit) {dst base : RegNo} {disp : U32}

def lostTo (dst : RegNo) (disp : U32) : List RegNo :=
  if Near disp then [] else [constantRegister dst]

theorem does_lea64 (hreach : Near disp ∨ base ≠ 31 ∧ base ≠ constantRegister dst ∧ dst ≠ 31) :
    Does e (e.lea64 dst base disp) fun s t =>
      EqBut (lostTo dst disp) (s.setSp dst (s.addr base disp)) t := by
  unfold lostTo
  by_cases hnear : Near disp
  · exact (emits_materialize_near e dst base hnear).does fun s => EqBut.refl _ _
  · obtain ⟨hbase, htmp, hdst⟩ := hreach.resolve_left hnear
    rw [if_neg hnear]
    refine (emits_materialize_far e hnear hbase htmp hdst).does fun s => ?_
    have hne : dst ∉ [constantRegister dst] := by
      rw [List.mem_singleton]
      unfold constantRegister scratch
      split_ifs with h
      · subst h
        decide
      · exact fun heq => h heq.symm
    have h : EqBut [constantRegister dst] s (s.setSp (constantRegister dst) (disp.signExtend 64)) :=
      (EqBut.refl _ s).setSp (List.mem_singleton.mpr rfl) _
    refine (h.setSp_both dst _).mono fun r hr => List.mem_of_mem_erase hr

theorem emits_spImm (isSub : Bool) {imm : U32} (h : imm ≤ 0xFFF) :
    Emits e (e.addSubImm true isSub 31 31 imm false) fun s =>
      s.setSp 31 (if isSub then s.gpr 31 - imm.setWidth 64 else s.gpr 31 + imm.setWidth 64) := by
  refine (emits_addSubImm e true isSub 31 31 imm false).congr fun s => ?_
  have himm : ((imm.setWidth 12 : BitVec 12).setWidth 64 <<< 0 : U64) = imm.setWidth 64 :=
    (BitVec.shiftLeft_zero _).trans (widened h)
  have hsp : s.readSp true 31 = s.gpr 31 := BitVec.setWidth_eq _
  have hput : ∀ v : U64, s.writeSp 31 v = s.setSp 31 v := fun v =>
    congrArg (s.setSp 31) (BitVec.setWidth_eq v)
  refine (congrArg (fun q : U64 => s.addSub isSub false (s.readSp true 31) q _) himm).trans ?_
  rw [hsp]
  cases isSub with
  | false => exact (s.addSub_add _ _ _).trans (hput _)
  | true => exact (s.addSub_sub _ _ _).trans (hput _)

end

/-! ## Immediates -/

section

variable (e : A64Emit) {dst : RegNo}

theorem eval_addSub {k : Nat} {op : A64Alu} (hop : op = .add ∨ op = .sub) (p q : BitVec k) :
    op.eval p q = if decide (op = .sub) = true then p - q else p + q := by
  rcases hop with rfl | rfl <;> rfl

/-- What is computed after a constant was put into the second scratch register. -/
theorem constant_lost (s : A64State) (dst : RegNo) (c : U64) {k : Nat} (v : BitVec k) :
    EqBut [9] (s.write dst v) ((s.setX 9 c).write dst v) :=
  ((eqBut_setX s (List.mem_singleton.mpr rfl) c).write_both (by decide) dst v).mono fun _ hr =>
    List.mem_of_mem_erase hr

theorem does_aluWImm (op : A64Alu) (imm : U32) (hsp : dst ≠ 31) (hdst : dst ≠ 9) :
    Does e (e.aluWImm op dst imm) fun s t => EqBut [9] (s.write dst (op.eval (s.w dst) imm)) t := by
  have hconstant : Does e (e.aluWConst op dst imm) fun s t =>
      EqBut [9] (s.write dst (op.eval (s.w dst) imm)) t :=
    (emits_aluWConst e op imm hdst).does fun s => constant_lost s dst _ _
  unfold A64Emit.aluWImm
  by_cases hop : op = .add ∨ op = .sub
  · rw [if_pos hop]
    cases hfits : e.addSubWImm (decide (op = .sub)) dst dst imm with
    | none => exact hconstant
    | some e' =>
      refine (emits_addSubWImm e hfits).does fun s => ?_
      have hread : (s.gpr dst).setWidth 32 = s.w dst := by
        unfold A64State.w
        rw [s.x_of_ne hsp]
      rw [eval_addSub hop, hread, s.writeSp_of_ne hsp]
      exact EqBut.refl _ _
  · rw [if_neg hop]
    cases hones : (if op = .and then contiguousLsbOnes imm else none) with
    | some n =>
      split_ifs at hones with hand
      obtain ⟨hpos, hle, himm⟩ := contiguousLsbOnes_eq hones
      refine (emits_logicalImm e hpos hle hsp).does fun s => ?_
      rw [hand, himm]
      exact EqBut.refl _ _
    | none =>
      dsimp only
      split_ifs with hnot
      · refine (emits_mvn e).does fun s => ?_
        rw [hnot.1, hnot.2]
        exact EqBut.refl _ _
      · exact hconstant

/-- The immediates of an addition or subtraction. -/
def FitsImm (imm : U32) : Prop := imm ≤ 0xFFF ∨ imm &&& 0xFFF = 0 ∧ imm >>> 12 ≤ 0xFFF

instance (imm : U32) : Decidable (FitsImm imm) := inferInstanceAs (Decidable (_ ∨ _))

theorem does_aluXImm {op : A64Alu} {imm : U32} (hop : op = .add ∨ op = .sub ∨ ¬ FitsImm imm)
    (hsp : dst ≠ 31) (hdst : dst ≠ 9) :
    Does e (e.aluXImm op dst imm) fun s t =>
      EqBut [9] (s.write dst (op.eval (s.x dst) (imm.setWidth 64))) t := by
  have hshort : ∀ (sh : Bool) (v : U32), FitsImm imm →
      (v.setWidth 12 : BitVec 12).setWidth 64 <<< (if sh then 12 else 0) = imm.setWidth 64 →
      Does e (e.addSubImm true (decide (op = .sub)) dst dst v sh) fun s t =>
        EqBut [9] (s.write dst (op.eval (s.x dst) (imm.setWidth 64))) t := by
    intro sh v hfits hv
    have hop' : op = .add ∨ op = .sub := hop.imp_right fun h => h.resolve_right (not_not.mpr hfits)
    refine (emits_addSubImm e true _ dst dst v sh).does fun s => ?_
    have hstep : s.addSub (decide (op = .sub)) false (s.x dst) (imm.setWidth 64 : U64)
        (fun t r => t.writeSp dst r) = s.write dst (op.eval (s.x dst) (imm.setWidth 64)) := by
      rcases hop' with rfl | rfl
      · exact (s.addSub_add _ _ _).trans (s.writeSp_of_ne hsp _)
      · exact (s.addSub_sub _ _ _).trans (s.writeSp_of_ne hsp _)
    rw [s.readSp_of_ne hsp, s.read_x]
    exact (congrArg
      (fun q : U64 => s.addSub _ false (s.x dst) q fun t r => t.writeSp dst r) hv).trans
      hstep ▸ EqBut.refl _ _
  unfold A64Emit.aluXImm
  split_ifs with hsmall hround
  · exact hshort false imm (.inl hsmall) ((BitVec.shiftLeft_zero _).trans (widened hsmall))
  · exact hshort true _ (.inr hround) (widened_shifted hround.1 hround.2)
  · refine ((emits_movXImm64 e 9 (imm.setWidth 64)).trans (emits_alu _ true dst dst 9 op)).does
      fun s => ?_
    have h9 : s.write 9 (imm.setWidth 64 : U64) = s.setX 9 (imm.setWidth 64) := s.write_x 9 _
    have hdst' : (s.setX 9 (imm.setWidth 64)).x dst = s.x dst := s.setX_x_of_ne hdst
    have hval : (s.setX 9 (imm.setWidth 64)).x 9 = imm.setWidth 64 := s.setX_x_self (by decide)
    rw [Function.comp_apply, h9, A64State.read_x, A64State.read_x, hdst', hval]
    exact constant_lost s dst _ _

theorem does_cmpWImm {a : RegNo} (imm : U32) (hsp : a ≠ 31) (ha : a ≠ 9) :
    Does e (e.cmpWImm a imm) fun s t => EqBut [9] (s.compared true (s.w a) imm) t := by
  by_cases h : imm ≤ 0xFFF
  · exact (emits_cmpWImm_small e a h hsp).does fun s => EqBut.refl _ _
  · exact (emits_cmpWImm_large e a h ha).does fun s =>
      (eqBut_setX s (List.mem_singleton.mpr rfl) _).compared_both _ _ _

/-- A load, and then an operation with it. -/
theorem does_aluWMem (op : A64Alu) {base : RegNo} {disp : U32} (hreach : Reachable base disp 4)
    (hdst : dst ∉ 9 :: lostFor disp 4) :
    Does e (e.aluWMem op dst base disp) fun s t =>
      EqBut (9 :: lostFor disp 4)
        (s.write dst (op.eval (s.w dst) (s.load (s.addr base disp) 4))) t := by
  refine ((does_load32 e hreach).trans
    ((emits_alu _ false dst dst 9 op).does fun s => EqBut.refl [] _)).mono fun s t => ?_
  rintro ⟨u, hu, ht⟩
  have h : EqBut (9 :: lostFor disp 4) s u ∧ u.w 9 = s.load (s.addr base disp) 4 := by
    rcases hu with hu | ⟨rfl, hu⟩
    · have h9 : (9 : RegNo) ∉ (lostFor disp 4).erase 9 := by
        unfold lostFor
        split_ifs <;> decide
      refine ⟨((@eqBut_setX s [9] 9 (by decide) _).trans hu).mono fun r hr => ?_, ?_⟩
      · rcases List.mem_append.mp hr with hr | hr
        · exact List.mem_cons.mpr (.inl (List.mem_singleton.mp hr))
        · exact List.mem_cons_of_mem _ (List.mem_of_mem_erase hr)
      · rw [hu.w h9]
        exact @A64State.read_write false 9 s (by decide) _
    · exact ⟨EqBut.refl _ _, hu⟩
  have hsp : (31 : RegNo) ∉ 9 :: lostFor disp 4 := fun hmem =>
    (List.mem_cons.mp hmem).elim (by decide) (sp_not_lost disp 4)
  have hread : u.w dst = s.w dst := h.1.w hdst
  change EqBut [] (u.write dst (op.eval (u.w dst) (u.w 9))) t at ht
  rw [hread, h.2] at ht
  refine ((h.1.write_both hsp dst _).trans ht).mono fun r hr => ?_
  rw [List.append_nil] at hr
  exact List.mem_of_mem_erase hr

end

end X86Port.Arm64
