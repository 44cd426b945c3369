import X86Port.X87.Canonical
import X86Port.X87.StackFaults

/-!
# Moves of a register

FXCH, the register forms of FLD and FST, FCMOV, FCHS and FABS move the ten bytes of a register or
its sign. The unit takes them through the host's `long double`; the helper that the backends call
copies the storage.

* `jitX87Copy`: that helper.
* `Move.onBytes`, `Move.through`: a move of the ten bytes, and the one that the unit makes.
* `moves_keep_bytes_iff`: just when the two are the same.
-/

namespace X86Port.X87

open Lib.Runs
open Memory (Mem readBytes writeBytes)

/-- `x86p_jit_x87_copy`. -/
def jitX87Copy (f : Fpu) (src dst : Fin 8) (push : Bool) (pops : ℕ) : Bool × Fpu :=
  match f.read src with
  | none => (false, f)
  | some value =>
    (true, Fpu.pops pops (if push then (f.pushValue value).2 else f.write dst value))

/-! ## The moves -/

inductive Move where
  | load (p : Fin 8)
  | store (p : Fin 8) (pops : ℕ)
  | exchange (p : Fin 8)
  | cmov (p : Fin 8)
  | sign (absolute : Bool)
  deriving DecidableEq

namespace Move

/-- The register forms; a conditional one moves where its condition holds. -/
inductive Of (i : X87Insn) (taken : Bool) : Move → Prop where
  | load {p : Fin 8} : i.x87 = .load → i.operand0 = .st p → Of i taken (.load p)
  | store {p : Fin 8} : i.x87 = .store → i.operand0 = .st p → Of i taken (.store p i.pops)
  | exchange : i.x87 = .exchange → Of i taken (.exchange i.other)
  | cmov : i.x87 = .cmov → taken = true → Of i taken (.cmov i.operand1.position)
  | changeSign : i.x87 = .changeSign → Of i taken (.sign false)
  | abs : i.x87 = .abs → Of i taken (.sign true)

/-- The move of the ten bytes. -/
def onBytes (f : Fpu) : Move → Fpu
  | load p => (jitX87Copy f p 0 true 0).2
  | store p pops => (jitX87Copy f 0 p false pops).2
  | exchange p =>
    match f.read 0, f.read p with
    | some a, some b => (f.write 0 b).write p a
    | _, _ => f
  | cmov p => (jitX87Copy f p 0 false 0).2
  | sign absolute =>
    match f.read 0 with
    | none => f
    | some v => f.write 0 (if absolute then v.clearSign else v.flipSign)

/-- The encodings that are moved. A push that has no room moves none. -/
def moved (f : Fpu) : Move → List Ext80
  | load p => if f.tag f.above = tagEmpty then (f.read p).toList else []
  | store _ _ => (f.read 0).toList
  | exchange p =>
    match f.read 0, f.read p with
    | some a, some b => [a, b]
    | _, _ => []
  | cmov p => (f.read p).toList
  | sign _ => (f.read 0).toList

variable {L : Type}

/-- The move as the unit makes it. -/
def through (H : FloatHost L) (f : Fpu) : Move → Fpu
  | load p => H.loadFrom f p
  | store p pops =>
    match H.get f 0 with
    | none => f
    | some v => (H.set f p v).pops pops
  | exchange p => H.exchange f p
  | cmov p => H.moveFrom f p
  | sign absolute => H.sign f absolute

end Move

/-! ## What survives -/

/-- What the software behind the pair keeps to; the host with the ten-byte type has none. -/
def Storage.Lawful {L : Type} {H : FloatHost L} : Storage L H → Prop
  | .native _ => True
  | .pair S _ => S.Lawful

/-- The encodings that come back from the host's type. -/
def Storage.Keeps {L : Type} {H : FloatHost L} : Storage L H → Ext80 → Prop
  | .native _, _ => True
  | .pair _ _, v => v.Canonical

section Storage

variable {L : Type} {H : FloatHost L} {storage : Storage L H} (hsoft : storage.Lawful) (v : Ext80)
include hsoft

theorem regOf_longOf_iff : H.regOf (H.longOf v) = v ↔ storage.Keeps v := by
  cases storage with
  | native U => exact iff_of_true rfl trivial
  | pair S B => exact SoftFloat.widen_narrow_iff hsoft

theorem regOf_sign_iff (absolute : Bool) :
    H.regOf (if absolute then H.abs (H.longOf v) else H.neg (H.longOf v)) =
      (if absolute then v.clearSign else v.flipSign) ↔ storage.Keeps v := by
  cases storage with
  | native U => cases absolute <;> exact iff_of_true rfl trivial
  | pair S B =>
    cases absolute with
    | false => exact SoftFloat.widen_flipSign_iff hsoft
    | true => exact SoftFloat.widen_clearSign_iff hsoft

/-- What came back once comes back again. -/
theorem regOf_longOf_twice :
    H.regOf (H.longOf (H.regOf (H.longOf v))) = H.regOf (H.longOf v) := by
  cases storage with
  | native U => rfl
  | pair S B => exact SoftFloat.widen_narrow hsoft (SoftFloat.canonical_widen hsoft _)

end Storage

/-! ## The two moves -/

section Through

variable {L : Type} {H : FloatHost L} {f : Fpu}

theorem write_eq_iff (i : Fin 8) (v w : Ext80) : f.write i v = f.write i w ↔ v = w := by
  constructor
  · intro h
    rw [← f.reg_write_self i v, h, f.reg_write_self]
  · exact fun h => congrArg _ h

theorem pops_write_eq_iff (n : ℕ) (i : Fin 8) (v w : Ext80) :
    (f.write i v).pops n = (f.write i w).pops n ↔ v = w := by
  constructor
  · intro h
    have hreg := congrArg Fpu.reg h
    rw [Fpu.reg_pops, Fpu.reg_pops] at hreg
    rw [← f.reg_write_self i v, hreg, f.reg_write_self]
  · rintro rfl
    rfl

theorem pushValue_of_room (h : f.tag f.above = tagEmpty) (v : Ext80) :
    f.pushValue v = (true, (f.withTop f.above).storeSlot f.above v) := by
  unfold Fpu.pushValue
  rw [if_neg (not_not.2 h)]

theorem pushValue_eq_iff (h : f.tag f.above = tagEmpty) (v w : Ext80) :
    (f.pushValue v).2 = (f.pushValue w).2 ↔ v = w := by
  constructor
  · intro heq
    have hreg (u : Ext80) : (f.pushValue u).2.reg f.above = u := by
      rw [pushValue_of_room h]
      exact Function.update_self _ _ _
    rw [← hreg v, heq, hreg]
  · rintro rfl
    rfl

theorem exchange_eq_iff (p : Fin 8) (a b a' b' : Ext80) (hself : p = 0 → a = b ∧ a' = b') :
    (f.write 0 b').write p a' = (f.write 0 b).write p a ↔ a' = a ∧ b' = b := by
  constructor
  · intro h
    have hreg (a b : Ext80) : ((f.write 0 b).write p a).reg (f.phys p) = a :=
      (f.write 0 b).reg_write_self p a
    have hfirst : a' = a := by rw [← hreg a' b', h, hreg]
    by_cases hp : p = 0
    · obtain ⟨rfl, rfl⟩ := hself hp
      exact ⟨hfirst, hfirst⟩
    · have hzero (a b : Ext80) : ((f.write 0 b).write p a).reg (f.phys 0) = b := by
        have hne : f.phys 0 ≠ (f.write 0 b).phys p := fun heq => hp (f.phys_injective heq).symm
        rw [Fpu.reg_write_of_ne _ hne, f.reg_write_self]
      exact ⟨hfirst, by rw [← hzero a' b', h, hzero]⟩
  · rintro ⟨rfl, rfl⟩
    rfl

variable {storage : Storage L H} (hsoft : storage.Lawful)
include hsoft

/-- The unit moves the bytes just when what it moves survives. -/
theorem through_eq_iff (move : Move) :
    move.through H f = move.onBytes f ↔ ∀ v ∈ move.moved f, storage.Keeps v := by
  cases move with
  | load p =>
    rw [Move.through, Move.onBytes, Move.moved, FloatHost.loadFrom, FloatHost.get, jitX87Copy]
    cases hread : f.read p with
    | none => simp
    | some v =>
      rw [Option.map_some]
      dsimp only
      rw [if_pos rfl, Fpu.pops, FloatHost.push]
      by_cases hroom : f.tag f.above = tagEmpty
      · rw [if_pos hroom, pushValue_eq_iff hroom, regOf_longOf_iff hsoft]
        simp
      · rw [if_neg hroom, Fpu.pushValue, if_pos hroom, Fpu.pushValue, if_pos hroom]
        simp
  | store p pops =>
    rw [Move.through, Move.onBytes, Move.moved, FloatHost.get, jitX87Copy]
    cases hread : f.read 0 with
    | none => simp
    | some v =>
      rw [Option.map_some]
      dsimp only
      rw [FloatHost.set, if_neg (by simp), pops_write_eq_iff, regOf_longOf_iff hsoft]
      simp
  | exchange p =>
    rw [Move.through, Move.onBytes, Move.moved, FloatHost.exchange, FloatHost.get, FloatHost.get]
    cases hread : f.read 0 with
    | none => simp
    | some a =>
      cases hother : f.read p with
      | none => simp
      | some b =>
        rw [Option.map_some, Option.map_some]
        dsimp only
        rw [FloatHost.set, FloatHost.set, exchange_eq_iff, regOf_longOf_iff hsoft,
          regOf_longOf_iff hsoft]
        · simp
        · rintro rfl
          rw [hread] at hother
          cases hother
          exact ⟨rfl, rfl⟩
  | cmov p =>
    rw [Move.through, Move.onBytes, Move.moved, FloatHost.moveFrom, FloatHost.get, jitX87Copy]
    cases hread : f.read p with
    | none => simp
    | some v =>
      rw [Option.map_some]
      dsimp only
      rw [FloatHost.set, if_neg (by simp), Fpu.pops, write_eq_iff, regOf_longOf_iff hsoft]
      simp
  | sign absolute =>
    rw [Move.through, Move.onBytes, Move.moved, FloatHost.sign, FloatHost.get]
    cases hread : f.read 0 with
    | none => simp
    | some v =>
      rw [Option.map_some]
      dsimp only
      rw [FloatHost.set, write_eq_iff, regOf_sign_iff hsoft]
      simp

omit hsoft in
theorem execute_move {m : Mem} {i : X87Insn} {addr : U32} {s : X87State} {move : Move}
    (h : Move.Of i (Cpu.cond i.cond s.cpu.flags) move) :
    H.execute m i false addr s = .ok () { s with fpu := move.through H s.fpu } := by
  unfold FloatHost.execute
  cases h with
  | load hk ho =>
    rw [hk, ho]
    rfl
  | @store p hk ho =>
    rw [hk, Move.through]
    cases hget : H.get s.fpu 0 with
    | none =>
      exact bind_of_ok (x := X87Run.askFpu fun f => H.get f 0) (a := H.get s.fpu 0) rfl |>.trans
        (by rw [hget]; rfl)
    | some v =>
      refine (bind_of_ok (x := X87Run.askFpu fun f => H.get f 0) (a := H.get s.fpu 0) rfl).trans ?_
      rw [hget]
      simp only [FloatHost.storeValue, ho]
      rfl
  | exchange hk =>
    rw [hk]
    rfl
  | cmov hk htaken =>
    rw [hk]
    dsimp only
    rw [if_pos htaken]
    rfl
  | changeSign hk =>
    rw [hk]
    rfl
  | abs hk =>
    rw [hk]
    rfl

end Through

/-! ## By way of memory -/

theorem getLsbD_signifOf_ge {l : List U8} {i : ℕ} (hi : 8 * l.length ≤ i) :
    (signifOf l).getLsbD i = false := by
  induction l generalizing i with
  | nil => exact BitVec.getLsbD_zero
  | cons b l ih =>
    rw [List.length_cons] at hi
    rw [signifOf, BitVec.getLsbD_or, BitVec.getLsbD_shiftLeft, BitVec.getLsbD_setWidth,
      ih (by omega), BitVec.getLsbD_of_ge b i (by omega)]
    simp

theorem signifBytes_signifOf {l : List U8} (h : l.length ≤ 8) :
    signifBytes l.length (signifOf l) = l := by
  induction l with
  | nil => rfl
  | cons b l ih =>
    rw [List.length_cons] at h
    have hlow : (signifOf l <<< 8 ||| b.setWidth 64).setWidth 8 = b := by
      apply BitVec.eq_of_getLsbD_eq
      intro i hi
      rw [BitVec.getLsbD_setWidth, BitVec.getLsbD_or, BitVec.getLsbD_shiftLeft,
        BitVec.getLsbD_setWidth]
      simp [hi, show i < 64 by omega]
    have hrest : (signifOf l <<< 8 ||| b.setWidth 64) >>> 8 = signifOf l := by
      apply BitVec.eq_of_getLsbD_eq
      intro i hi
      rw [BitVec.getLsbD_ushiftRight, BitVec.getLsbD_or, BitVec.getLsbD_shiftLeft,
        BitVec.getLsbD_setWidth, BitVec.getLsbD_of_ge b (8 + i) (by omega), Bool.and_false,
        Bool.or_false, Nat.add_sub_cancel_left]
      by_cases h56 : 8 + i < 64
      · simp [h56]
      · rw [getLsbD_signifOf_ge (by omega), Bool.and_false]
    rw [List.length_cons, signifBytes, signifOf, hlow, hrest, ih (by omega)]

theorem regToF80_regFromF80 {bytes : List U8} (h : bytes.length = 10) :
    regToF80 (regFromF80 bytes) = bytes := by
  have hsignif : signifBytes 8 (signifOf (bytes.take 8)) = bytes.take 8 := by
    have hlen : (bytes.take 8).length = 8 := by rw [List.length_take, h]; rfl
    have hround := signifBytes_signifOf (l := bytes.take 8) (by omega)
    rwa [hlen] at hround
  have hlow (b c : U8) : (b.setWidth 16 ||| c.setWidth 16 <<< 8 : U16).setWidth 8 = b := by
    apply BitVec.eq_of_getLsbD_eq
    intro i hi
    simp [hi]
  have hhigh (b c : U8) : ((b.setWidth 16 ||| c.setWidth 16 <<< 8 : U16) >>> 8).setWidth 8 = c := by
    apply BitVec.eq_of_getLsbD_eq
    intro i hi
    simp [hi, show 8 + i < 16 by omega]
  rw [regToF80, regFromF80]
  dsimp only
  rw [hsignif, hlow, hhigh]
  have hlast : [bytes.getD 8 0, bytes.getD 9 0] = bytes.drop 8 := by
    rw [List.drop_eq_getElem_cons (by omega), List.drop_eq_getElem_cons (by omega),
      List.drop_of_length_le (by omega), List.getD_eq_getElem _ _ (by omega),
      List.getD_eq_getElem _ _ (by omega)]
  rw [hlast, List.take_append_drop]

theorem regToF80_eq_iff {bytes : List U8} {v : Ext80} (h : bytes.length = 10) :
    regToF80 v = bytes ↔ v = regFromF80 bytes := by
  constructor
  · rintro rfl
    rw [regFromF80_regToF80]
  · rintro rfl
    exact regToF80_regFromF80 h

section Reload

variable {L : Type} {H : FloatHost L} {m : Mem} {i : X87Insn} {addr : U32} {s t : X87State}

theorem readMem_eq_ok {n : ℕ} {bytes : List U8} (h : X87Run.readMem m addr n s = .ok bytes t) :
    readBytes m s.mem addr (BitVec.ofNat 32 n) = some (some bytes) := by
  unfold X87Run.readMem at h
  split at h <;> cases h
  assumption

theorem writeMem_eq_ok {bytes : List U8} (h : X87Run.writeMem m addr bytes s = .ok () t) :
    writeBytes m s.mem addr bytes = some (some t.mem) := by
  unfold X87Run.writeMem at h
  split at h <;> cases h
  assumption

/-- FLD m80 puts what comes back from the host's type above the top. -/
theorem load_ten (hk : i.x87 = .load) (ho : i.operand0 = .mem 10) {bytes : List U8}
    (hread : readBytes m s.mem addr 10 = some (some bytes))
    (hrun : H.execute m i true addr s = .ok () t) :
    t = { s with fpu := (H.push s.fpu (H.longOf (regFromF80 bytes))).2 } := by
  unfold FloatHost.execute at hrun
  rw [hk] at hrun
  dsimp only at hrun
  rw [if_pos rfl] at hrun
  obtain ⟨v, u, hvalue, hpush⟩ := bind_eq_ok hrun
  unfold FloatHost.readValue at hvalue
  rw [ho] at hvalue
  obtain ⟨read, u', hbytes, hrest⟩ := bind_eq_ok hvalue
  cases readMem_ok hbytes
  cases hread.symm.trans (readMem_eq_ok hbytes)
  cases hrest
  exact onFpu_ok hpush

/-- FSTP m80 stores what comes back from the host's type. -/
theorem store_ten (hk : i.x87 = .store) (ho : i.operand0 = .mem 10) {v : Ext80}
    (hread : s.fpu.read 0 = some v) (hrun : H.execute m i true addr s = .ok () t) :
    writeBytes m s.mem addr (regToF80 (H.regOf (H.longOf v))) = some (some t.mem) := by
  unfold FloatHost.execute at hrun
  rw [hk] at hrun
  dsimp only at hrun
  obtain ⟨got, u, hask, hrest⟩ := bind_eq_ok hrun
  cases hask
  have hget : H.get s.fpu 0 = some (H.longOf v) := by rw [FloatHost.get, hread, Option.map_some]
  simp only [hget] at hrest
  obtain ⟨_, u1, hstore, hpops⟩ := bind_eq_ok hrest
  unfold FloatHost.storeValue FloatHost.writeValue at hstore
  rw [ho] at hstore
  obtain ⟨result, u2, hask', hwritten⟩ := bind_eq_ok hstore
  cases hask'
  obtain ⟨_, u3, hset, hwrite⟩ := bind_eq_ok hwritten
  cases onFpu_ok hset
  have hbytes := writeMem_eq_ok hwrite
  rw [onFpu_ok hpops]
  exact hbytes

theorem read_push (h : s.fpu.tag s.fpu.above = tagEmpty) (v : L) :
    (H.push s.fpu v).2.read 0 = some (H.regOf v) := by
  have hphys : ((s.fpu.withTop s.fpu.above).storeSlot s.fpu.above (H.regOf v)).phys 0 =
      s.fpu.above := by
    rw [Fpu.phys_storeSlot, Fpu.phys_withTop, add_zero]
  have htag : ¬ ((s.fpu.withTop s.fpu.above).storeSlot s.fpu.above (H.regOf v)).Empty 0 := by
    rw [Fpu.Empty, hphys]
    change ¬ Function.update _ _ _ _ = _
    rw [Function.update_self]
    decide
  rw [FloatHost.push, pushValue_of_room h, Fpu.read_of_occupied htag, hphys]
  exact congrArg some (Function.update_self _ _ _)

end Reload

/-- The ten bytes are kept just where what is moved survives the host's type: by every register
form, and by FSTP m80 after an FLD m80 that had room. -/
theorem moves_keep_bytes_iff {L : Type} {H : FloatHost L} (storage : Storage L H)
    (hsoft : storage.Lawful) (m : Mem) :
    (∀ i addr s t move, Move.Of i (Cpu.cond i.cond s.cpu.flags) move →
      H.execute m i false addr s = .ok () t →
      (t.fpu = move.onBytes s.fpu ↔ ∀ v ∈ move.moved s.fpu, storage.Keeps v)) ∧
    ∀ (i j : X87Insn) (addr addr' : U32) (s t u : X87State) (bytes : List U8),
      i.x87 = .load → i.operand0 = .mem 10 → j.x87 = .store → j.operand0 = .mem 10 →
      bytes.length = 10 → readBytes m s.mem addr 10 = some (some bytes) →
      s.fpu.tag s.fpu.above = tagEmpty →
      H.execute m i true addr s = .ok () t → H.execute m j true addr' t = .ok () u →
      ∃ stored, writeBytes m s.mem addr' stored = some (some u.mem) ∧
        (stored = bytes ↔ storage.Keeps (regFromF80 bytes)) := by
  constructor
  · intro i addr s t move hmove hrun
    rw [execute_move hmove] at hrun
    cases hrun
    exact through_eq_iff hsoft move
  · intro i j addr addr' s t u bytes hi hi' hj hj' hlen hread hroom hload hstore
    have ht := load_ten hi hi' hread hload
    have hpushed : t.fpu.read 0 = some (H.regOf (H.longOf (regFromF80 bytes))) := by
      rw [ht]
      exact read_push hroom _
    have hmem : t.mem = s.mem := by rw [ht]
    refine ⟨_, hmem ▸ store_ten hj hj' hpushed hstore, ?_⟩
    rw [regOf_longOf_twice hsoft, regToF80_eq_iff hlen, regOf_longOf_iff hsoft]

/-! ## A NaN, minus three and an MMX value -/

/-- A host whose operators give zero. -/
def idleDouble : Binary64 where
  apply _ _ _ := 0
  sqrt _ := 0
  sin _ := 0
  cos _ := 0
  tan _ := 0
  atan2 _ _ := 0

def exactPair : Storage F128 (.pair SoftFloat.exact idleDouble) := .pair _ _

/-- FLD ST(1), of a NaN that is canonical. -/
def fldSecond : X87Insn := { unnamed .load with operands := 1, operand0 := .st 1 }

def fldTen : X87Insn := { unnamed .load with operands := 1, operand0 := .mem 10 }

def fstpTen : X87Insn := { unnamed .store with operands := 1, operand0 := .mem 10, pops := 1 }

/-- Minus three, as a program has it in memory. -/
def minusThree : List U8 := regToF80 ⟨0xC000000000000000, 0xC000⟩

/-- The busy unit, with minus three at 0x1100. -/
def tenBytes : X87State :=
  { freshState with
    fpu := busyUnit
    mem := { zeroHost with bytes := fun a => minusThree.getD (a - 0x100) 0 } }

theorem fldSecond_of :
    Move.Of fldSecond (Cpu.cond fldSecond.cond tenBytes.cpu.flags) (.load 1) :=
  .load rfl rfl

set_option maxRecDepth 4000 in
theorem fldSecond_keeps :
    (Move.load 1).through (.pair SoftFloat.exact idleDouble) busyUnit =
        (Move.load 1).onBytes busyUnit ∧
      ∃ t u stored,
        (FloatHost.pair SoftFloat.exact idleDouble).execute readOnlyBehind fldTen true 0x1100
            tenBytes = .ok () t ∧
          (FloatHost.pair SoftFloat.exact idleDouble).execute readOnlyBehind fstpTen true 0x1200 t =
            .ok () u ∧
          writeBytes readOnlyBehind tenBytes.mem 0x1200 stored = some (some u.mem) ∧
          stored = minusThree := by
  have hmoves := moves_keep_bytes_iff exactPair SoftFloat.exact_lawful readOnlyBehind
  constructor
  · refine (hmoves.1 fldSecond 0 tenBytes _ (.load 1) fldSecond_of
      (execute_move fldSecond_of)).mpr fun v hv => ?_
    obtain rfl : v = ⟨0xC000000000000000, 0x7FFF⟩ := by revert hv; decide +revert
    exact (by decide : Ext80.Canonical ⟨0xC000000000000000, 0x7FFF⟩)
  · obtain ⟨stored, hwrite, hstored⟩ := hmoves.2 fldTen fstpTen 0x1100 0x1200 tenBytes _ _
      minusThree rfl rfl rfl rfl rfl rfl (by decide) rfl rfl
    refine ⟨_, _, stored, rfl, rfl, hwrite, hstored.mpr ?_⟩
    exact (by decide : Ext80.Canonical (regFromF80 minusThree))

/-- `ST(0)` as an MMX write of one leaves it. -/
def mmxState : X87State := { freshState with fpu := initialUnit.write 0 ⟨1, 0xFFFF⟩ }

def fldTop : X87Insn := { unnamed .load with operands := 1, operand0 := .st 0 }

theorem fldTop_of : Move.Of fldTop (Cpu.cond fldTop.cond mmxState.cpu.flags) (.load 0) :=
  .load rfl rfl

/-- FLD ST(0) of the MMX value leaves another one above it. -/
theorem fldTop_changes :
    ∃ t, (FloatHost.pair SoftFloat.exact idleDouble).execute readOnlyBehind fldTop false 0 mmxState =
      .ok () t ∧ t.fpu ≠ (jitX87Copy mmxState.fpu 0 0 true 0).2 := by
  refine ⟨_, execute_move fldTop_of, fun h => ?_⟩
  have hmoved : (⟨1, 0xFFFF⟩ : Ext80) ∈ (Move.load 0).moved mmxState.fpu := by decide
  have hkeeps : Ext80.Canonical ⟨1, 0xFFFF⟩ :=
    (through_eq_iff (show exactPair.Lawful from SoftFloat.exact_lawful) (.load 0)).1 h _ hmoved
  revert hkeeps
  decide

end X86Port.X87
