import X86Port.Lib.Runs
import X86Port.X87.Execute
import X86Port.X87.Storage

/-!
# Stack faults

A position that an instruction reads is reached by one of two accessors: one that says nothing
about an empty register, and the operations of `x87.c`, which raise IE and SF but leave C1.

* `Reported`: what a stack fault is to leave.
* `StackOutcome`, `execute_outcome`: the five ways in which an instruction leaves the unit.
* `stackFaults_reported_iff`: just when a fault is reported.
-/

namespace X86Port.X87

open Lib.Runs
open Memory (Mem)

/-! ## What an instruction reads and pushes -/

namespace X87Insn

/-- The positions that are read by the accessor which only says that they are empty. -/
def quietReads (i : X87Insn) (hasMem taken : Bool) : List (Fin 8) :=
  match i.x87 with
  | .load => if hasMem then [] else [i.operand0.position]
  | .store | .storeInt | .changeSign | .abs | .test => [0]
  | .arith => if hasMem then [] else (i.arithPositions.map Prod.snd).toList
  | .compare => if hasMem then [] else [i.other]
  | .exchange => [0, i.other]
  | .compareInt => [0, i.flagsOther]
  | .cmov => if taken then [i.operand1.position] else []
  | .fn => if i.fn.twoOperand then [0, 1] else [0]
  | _ => []

/-- The positions that are read by an operation which raises IE and SF for an empty one. -/
def loudReads (i : X87Insn) (hasMem : Bool) : List (Fin 8) :=
  match i.x87 with
  | .arith => if hasMem then [0] else (i.arithPositions.map Prod.fst).toList
  | .compare => [0]
  | _ => []

/-- The pops of the decoder's instructions. -/
def Decoded (i : X87Insn) (hasMem : Bool) : Prop :=
  match i.x87 with
  | .store | .storeInt | .compareInt => i.pops ≤ 1
  | .arith => i.pops = 0 ∨ i.pops = 1 ∧ hasMem = false ∧ i.operands = 2 ∧ i.operand1 = .st 0
  | .compare => i.pops ≤ 1 ∨ i.pops = 2 ∧ hasMem = false ∧ i.operands = 0
  | _ => True

/-- The instructions that are there to write the status word. -/
def WritesStatus (i : X87Insn) : Prop :=
  i.x87 = .init ∨ i.x87 = .clearExc ∨ i.x87 = .saveState ∨ i.x87 = .restoreState

/-- The instruction pushes whatever it finds. -/
def Loads (i : X87Insn) : Prop := i.x87 = .load ∨ i.x87 = .loadInt ∨ ∃ c, i.x87 = .const c

end X87Insn

section Faults

variable {L : Type} (H : FloatHost L)

/-- What the function unit gives where the binary64 form does not answer. -/
def FloatHost.fnResult (f : Fpu) (fn : X87Fn) : Option (FnResult L) :=
  match if f.doubleArith ≠ 0 then H.answerDouble f fn else none with
  | some _ => none
  | none =>
    (H.get f 0).bind fun a =>
      (if fn.twoOperand then H.get f 1 else some H.zero).bind fun b => H.fn fn f.control a b

/-- The function pushes a second result after its first. -/
def FloatHost.FnPushes (f : Fpu) (fn : X87Fn) : Prop :=
  ∃ r, H.fnResult f fn = some r ∧ r.pushed ∧ fn.consumes = false

def Quiet (i : X87Insn) (hasMem : Bool) (s : X87State) : Prop :=
  ∃ p ∈ i.quietReads hasMem (Cpu.cond i.cond s.cpu.flags), s.fpu.Empty p

def Loud (i : X87Insn) (hasMem : Bool) (s : X87State) : Prop :=
  ∃ p ∈ i.loudReads hasMem, s.fpu.Empty p

/-- A stack register that the instruction needs is empty. -/
def Underflows (i : X87Insn) (hasMem : Bool) (s : X87State) : Prop :=
  Quiet i hasMem s ∨ Loud i hasMem s

/-- The instruction pushes onto an occupied register. -/
def Overflows (i : X87Insn) (s : X87State) : Prop :=
  s.fpu.tag s.fpu.above ≠ tagEmpty ∧ (i.Loads ∨ i.x87 = .fn ∧ H.FnPushes s.fpu i.fn)

/-- Every stack fault is reported, with C1 saying which way the stack was left. -/
structure Reported (i : X87Insn) (hasMem : Bool) (s t : X87State) : Prop where
  underflow : Underflows i hasMem s →
    t.fpu.status &&& x87StackFault = x87StackFault ∧ t.fpu.status &&& x87C1 = 0 ∧
      t.fpu.reg = s.fpu.reg
  overflow : ¬ Underflows i hasMem s → Overflows H i s →
    t.fpu.status &&& (x87StackFault ||| x87C1) = x87StackFault ||| x87C1 ∧
      t.fpu.top = s.fpu.top ∧ t.fpu.tag = s.fpu.tag ∧ t.fpu.reg = s.fpu.reg
  otherwise : ¬ Underflows i hasMem s → ¬ Overflows H i s →
    t.fpu.status &&& x87Sf = s.fpu.status &&& x87Sf

/-- A quiet read has been reported before; a loud one is reported where C1 is clear or a pop
clears it; and a function's push is refused after its first result is stored. -/
structure ReportsWhen (i : X87Insn) (hasMem : Bool) (s : X87State) : Prop where
  quiet : Quiet i hasMem s →
    s.fpu.status &&& x87StackFault = x87StackFault ∧ s.fpu.status &&& x87C1 = 0
  loud : ¬ Quiet i hasMem s → Loud i hasMem s →
    s.fpu.status &&& x87C1 = 0 ∨ i.x87 = .compare ∧ i.pops ≠ 0
  function : ¬ Underflows i hasMem s → i.x87 = .fn → s.fpu.tag s.fpu.above ≠ tagEmpty →
    ∀ r, H.fnResult s.fpu i.fn = some r → r.pushed → i.fn.consumes = false →
      s.fpu.reg (s.fpu.phys 0) = H.regOf r.r0 ∧ s.fpu.tag (s.fpu.phys 0) = tagValid

end Faults

/-! ## Status bits -/

theorem or_and_of_disjoint {w : ℕ} {a b c : BitVec w} (h : b &&& c = 0) :
    (a ||| b) &&& c = a &&& c := by
  apply BitVec.eq_of_getLsbD_eq
  intro i hi
  have hbit : (b.getLsbD i && c.getLsbD i) = false := by
    rw [← BitVec.getLsbD_and, h]
    exact BitVec.getLsbD_zero
  rw [BitVec.getLsbD_and, BitVec.getLsbD_and, BitVec.getLsbD_or, Bool.and_or_distrib_right, hbit,
    Bool.or_false]

theorem and_not_and_of_disjoint {w : ℕ} {a b c : BitVec w} (h : b &&& c = 0) :
    (a &&& ~~~b) &&& c = a &&& c := by
  apply BitVec.eq_of_getLsbD_eq
  intro i hi
  have hbit : (b.getLsbD i && c.getLsbD i) = false := by
    rw [← BitVec.getLsbD_and, h]
    exact BitVec.getLsbD_zero
  simp only [BitVec.getLsbD_and, BitVec.getLsbD_not, hi, decide_true, Bool.true_and]
  revert hbit
  cases a.getLsbD i <;> cases b.getLsbD i <;> cases c.getLsbD i <;> decide

theorem or_and_self {w : ℕ} (a b : BitVec w) : (a ||| b) &&& b = b := by
  apply BitVec.eq_of_getLsbD_eq
  intro i hi
  rw [BitVec.getLsbD_and, BitVec.getLsbD_or]
  cases a.getLsbD i <;> cases b.getLsbD i <;> rfl

theorem and_not_and_self {w : ℕ} (a b : BitVec w) : (a &&& ~~~b) &&& b = 0 := by
  apply BitVec.eq_of_getLsbD_eq
  intro i hi
  refine Eq.trans ?_ (BitVec.getLsbD_zero (w := w) (i := i)).symm
  simp only [BitVec.getLsbD_and, BitVec.getLsbD_not, hi, decide_true, Bool.true_and]
  cases a.getLsbD i <;> cases b.getLsbD i <;> rfl

/-- SF is as it was. -/
def KeepsSf (f g : Fpu) : Prop := g.status &&& x87Sf = f.status &&& x87Sf

namespace KeepsSf

variable {f g k : Fpu}

theorem refl (f : Fpu) : KeepsSf f f := Eq.refl _

theorem trans (h : KeepsSf f g) (h' : KeepsSf g k) : KeepsSf f k := Eq.trans h' h

theorem of_status (h : g.status = f.status) : KeepsSf f g := congrArg (· &&& x87Sf) h

theorem raise (f : Fpu) {bits : U16} (h : bits &&& x87Sf = 0) : KeepsSf f (f.raise bits) :=
  or_and_of_disjoint h

theorem lower (f : Fpu) {bits : U16} (h : bits &&& x87Sf = 0) : KeepsSf f (f.lower bits) :=
  and_not_and_of_disjoint h

end KeepsSf

/-- An operation that leaves SF, and every occupied register occupied. -/
structure Sound (f g : Fpu) : Prop where
  keeps : KeepsSf f g
  occupied : ∀ j, ¬ f.Empty j → ¬ g.Empty j

namespace Sound

variable {f g k : Fpu}

theorem trans (h : Sound f g) (h' : Sound g k) : Sound f k :=
  ⟨h.keeps.trans h'.keeps, fun j hj => h'.occupied j (h.occupied j hj)⟩

theorem refl (f : Fpu) : Sound f f := ⟨KeepsSf.refl f, fun _ => id⟩

theorem raise (f : Fpu) {bits : U16} (h : bits &&& x87Sf = 0) : Sound f (f.raise bits) :=
  ⟨KeepsSf.raise f h, fun _ => id⟩

theorem lower (f : Fpu) {bits : U16} (h : bits &&& x87Sf = 0) : Sound f (f.lower bits) :=
  ⟨KeepsSf.lower f h, fun _ => id⟩

theorem write (f : Fpu) (i : Fin 8) (v : Ext80) : Sound f (f.write i v) := by
  refine ⟨KeepsSf.of_status rfl, fun j hj hempty => ?_⟩
  exact hj ((f.empty_write i j v).1 hempty).2

/-- Pops of registers that were occupied. -/
theorem pops (h : Sound f g) {n : ℕ} (hn : n ≤ 8) (hocc : ∀ j : Fin 8, j.val < n → ¬ f.Empty j) :
    KeepsSf f (g.pops n) :=
  h.keeps.trans (KeepsSf.of_status
    (Fpu.status_pops_of_occupied hn fun j hj => h.occupied j (hocc j hj)))

end Sound

/-! ## The operations -/

section Operations

variable {L : Type} {H : FloatHost L} {f : Fpu}

theorem push_refused (h : f.tag f.above ≠ tagEmpty) (v : L) :
    (H.push f v).2 = f.raise (x87Ie ||| x87Sf ||| x87C1) := by
  unfold FloatHost.push Fpu.pushValue
  rw [if_pos h]

theorem keepsSf_pushValue (h : f.tag f.above = tagEmpty) (v : Ext80) :
    KeepsSf f (f.pushValue v).2 := by
  apply KeepsSf.of_status
  unfold Fpu.pushValue
  rw [if_neg (not_not.2 h)]
  rfl

theorem get_eq_none_iff {i : Fin 8} : H.get f i = none ↔ f.Empty i := by
  rw [FloatHost.get, Option.map_eq_none_iff, Fpu.read_eq_none_iff]

theorem get_of_occupied {i : Fin 8} (h : ¬ f.Empty i) :
    H.get f i = some (H.longOf (f.reg (f.phys i))) := by
  rw [FloatHost.get, Fpu.read_of_occupied h, Option.map_some]

theorem get_of_empty {i : Fin 8} (h : f.Empty i) : H.get f i = none := get_eq_none_iff.2 h

theorem sound_arithRaw {op : X87Op} {dst : Fin 8} (h : ¬ f.Empty dst) (src : Ext80)
    (reverse : Bool) : Sound f (H.arithRaw f op dst src reverse).2 := by
  have hraised (g : Fpu) {op x y} : Sound g (g.raise (H.arith g.control g.doubleArith op x y).2) :=
    Sound.raise g (H.arith_sf ..)
  unfold FloatHost.arithRaw
  rw [Fpu.read_of_occupied h]
  dsimp only
  split_ifs
  · exact ((Sound.raise f (by decide)).trans (hraised (f.raise x87Ze))).trans (Sound.write ..)
  · exact (hraised f).trans (Sound.write ..)
  · exact ((Sound.raise f (by decide)).trans (hraised (f.raise x87Ze))).trans (Sound.write ..)
  · exact (hraised f).trans (Sound.write ..)

theorem arithRaw_empty {op : X87Op} {dst : Fin 8} (h : f.Empty dst) (src : Ext80)
    (reverse : Bool) : (H.arithRaw f op dst src reverse).2 = f.raise x87StackFault := by
  unfold FloatHost.arithRaw
  rw [Fpu.read_of_empty h]

theorem sound_compare (h : ¬ f.Empty 0) (other : L) : Sound f (H.compare f other).2 := by
  have hlower : Sound f (f.lower x87Conditions) := Sound.lower f (by decide)
  unfold FloatHost.compare
  rw [get_of_occupied h]
  dsimp only
  cases H.order (H.longOf (f.reg (f.phys 0))) other with
  | none => exact (hlower.trans (Sound.raise _ (by decide))).trans (Sound.raise _ (by decide))
  | some order =>
    cases order with
    | lt => exact hlower.trans (Sound.raise _ (by decide))
    | eq => exact hlower.trans (Sound.raise _ (by decide))
    | gt => exact hlower.trans (Sound.raise _ (by decide))

theorem compare_empty (h : f.Empty 0) (other : L) :
    (H.compare f other).2 = f.raise x87StackFault := by
  unfold FloatHost.compare
  rw [get_of_empty h]

theorem keepsSf_test (h : ¬ f.Empty 0) : KeepsSf f (H.test f) := by
  have hlower : KeepsSf f (f.lower x87Conditions) := KeepsSf.lower f (by decide)
  unfold FloatHost.test
  rw [get_of_occupied h]
  dsimp only
  split_ifs
  · exact hlower.trans (KeepsSf.raise _ (by decide))
  · exact hlower.trans (KeepsSf.raise _ (by decide))
  · exact hlower
  · exact hlower.trans (KeepsSf.raise _ (by decide))

theorem keepsSf_examine (f : Fpu) : KeepsSf f (H.examine f) := by
  have hlower : KeepsSf f (f.lower x87Conditions) := KeepsSf.lower f (by decide)
  have hclass (c : FpClass) : FloatHost.classBits c &&& x87Sf = 0 := by cases c <;> decide
  unfold FloatHost.examine
  dsimp only
  cases H.get (f.lower x87Conditions) 0 with
  | none => exact hlower.trans (KeepsSf.raise _ (by decide))
  | some v =>
    dsimp only
    split_ifs
    · exact (hlower.trans (KeepsSf.raise _ (by decide))).trans (KeepsSf.raise _ (hclass _))
    · exact hlower.trans (KeepsSf.raise _ (hclass _))

theorem sound_fnStatus (f : Fpu) (fn : X87Fn) (sw : U16) : Sound f (H.fnStatus f fn sw) := by
  have hwritten : fn.written &&& x87Sf = 0 := by cases fn <;> decide
  have hmask {b : U16} (h : b &&& x87Sf = 0) : sw &&& b &&& x87Sf = 0 := by
    rw [BitVec.and_assoc, h]
    exact BitVec.and_zero
  have hbits : Sound f ((f.lower fn.written).raise (sw &&& fn.written)) :=
    (Sound.lower f hwritten).trans (Sound.raise _ (hmask hwritten))
  unfold FloatHost.fnStatus
  dsimp only
  split_ifs
  · exact hbits.trans (Sound.raise _ (hmask (by decide)))
  · exact hbits

theorem tag_fnStatus (f : Fpu) (fn : X87Fn) (sw : U16) : (H.fnStatus f fn sw).tag = f.tag := by
  unfold FloatHost.fnStatus
  dsimp only
  split_ifs <;> rfl

theorem reg_fnStatus (f : Fpu) (fn : X87Fn) (sw : U16) : (H.fnStatus f fn sw).reg = f.reg := by
  unfold FloatHost.fnStatus
  dsimp only
  split_ifs <;> rfl

theorem top_fnStatus (f : Fpu) (fn : X87Fn) (sw : U16) : (H.fnStatus f fn sw).top = f.top := by
  unfold FloatHost.fnStatus
  dsimp only
  split_ifs <;> rfl

theorem keepsSf_popValue (h : ¬ f.Empty 0) : KeepsSf f f.popValue.2 := by
  rw [Fpu.popValue_of_occupied h]
  exact KeepsSf.of_status rfl

theorem occupied_of_read {i : Fin 8} {v : Ext80} (h : f.read i = some v) : ¬ f.Empty i := by
  intro hempty
  rw [Fpu.read_of_empty hempty] at h
  cases h

theorem patan_of_double {fn : X87Fn} : fn.hasDouble = true → fn.twoOperand = true → fn = .patan := by
  cases fn <;> decide

/-- Where the binary64 form answers, its operands are there and its push has room. -/
theorem answerDouble_eq_some {fn : X87Fn} {g : Fpu} (h : H.answerDouble f fn = some g) :
    ¬ f.Empty 0 ∧ ¬ (fn.doublePushes = true ∧ f.tag f.above ≠ tagEmpty) ∧
      (fn.twoOperand = true → ¬ f.Empty 1) ∧ ∃ r, g = FloatHost.storeDouble f fn r := by
  obtain ⟨a, ha, h⟩ := Option.bind_eq_some_iff.1 h
  by_cases hpush : fn.doublePushes = true ∧ f.tag f.above ≠ tagEmpty
  · rw [if_pos hpush] at h
    cases h
  rw [if_neg hpush] at h
  by_cases hform : fn.hasDouble = true
  · rw [if_neg (not_not.2 hform)] at h
    obtain ⟨r, hr, rfl⟩ := Option.map_eq_some_iff.1 h
    refine ⟨occupied_of_read ha, hpush, fun htwo => ?_, r, rfl⟩
    rw [if_pos (patan_of_double hform htwo)] at hr
    obtain ⟨b, hb, _⟩ := Option.bind_eq_some_iff.1 hr
    exact occupied_of_read hb
  · rw [if_pos hform] at h
    cases h

/-- The binary64 form does not push onto an occupied register. -/
theorem keepsSf_answerDouble {fn : X87Fn} {g : Fpu} (h : H.answerDouble f fn = some g) :
    KeepsSf f g := by
  obtain ⟨hocc, hpush, _, r, rfl⟩ := answerDouble_eq_some h
  have hlower : KeepsSf f (f.lower fn.written) := KeepsSf.lower f (by cases fn <;> decide)
  unfold FloatHost.storeDouble
  dsimp only
  by_cases hpushes : fn.doublePushes = true
  · have hempty : f.tag f.above = tagEmpty := by
      by_contra hne
      exact hpush ⟨hpushes, hne⟩
    have hpatan : fn ≠ .patan := by
      rintro rfl
      cases hpushes
    rw [if_pos hpushes, if_neg hpatan]
    apply hlower.trans
    apply keepsSf_pushValue (f := (f.lower fn.written).write 0 r.1)
    exact (Fpu.tag_write_of_ne (f.lower fn.written) f.above_ne_phys_zero r.1).trans hempty
  · rw [if_neg hpushes]
    split_ifs
    · exact hlower.trans (keepsSf_popValue (f := f.lower fn.written) hocc)
    · exact hlower

end Operations

/-! ## Outcomes -/

/-- The ways in which an instruction leaves the unit. -/
inductive StackOutcome {L : Type} (H : FloatHost L) (i : X87Insn) (hasMem : Bool) (s : X87State) :
    Fpu → Prop
  | silent (hq : Quiet i hasMem s) : StackOutcome H i hasMem s s.fpu
  | fault (hq : ¬ Quiet i hasMem s) (hl : Loud i hasMem s) :
    StackOutcome H i hasMem s ((s.fpu.raise x87StackFault).pops i.pops)
  | refused (hn : ¬ Underflows i hasMem s) (hfull : s.fpu.tag s.fpu.above ≠ tagEmpty)
    (hloads : i.Loads) : StackOutcome H i hasMem s (s.fpu.raise (x87Ie ||| x87Sf ||| x87C1))
  | replaced (hn : ¬ Underflows i hasMem s) (hfull : s.fpu.tag s.fpu.above ≠ tagEmpty)
    (hk : i.x87 = .fn) (r : FnResult L) (hr : H.fnResult s.fpu i.fn = some r) (hp : r.pushed)
    (hc : i.fn.consumes = false) : StackOutcome H i hasMem s
      ((H.set (H.fnStatus s.fpu i.fn r.sw) 0 r.r0).raise (x87Ie ||| x87Sf ||| x87C1))
  | done (hn : ¬ Underflows i hasMem s) (ho : ¬ Overflows H i s) (g : Fpu)
    (h : KeepsSf s.fpu g) : StackOutcome H i hasMem s g

/-- The kinds that may push. -/
def X87Kind.pushes : X87Kind → Bool
  | load | loadInt | const _ | fn => true
  | _ => false

section Outcomes

variable {L : Type} {H : FloatHost L} {m : Mem} {i : X87Insn} {hasMem : Bool} {addr : U32}
  {s t : X87State}

theorem not_overflows (h : i.x87.pushes = false) : ¬ Overflows H i s := by
  rintro ⟨_, (hload | hload | ⟨c, hload⟩) | ⟨hfn, _⟩⟩
  · rw [hload] at h
    cases h
  · rw [hload] at h
    cases h
  · rw [hload] at h
    cases h
  · rw [hfn] at h
    cases h

theorem outcome_push (hn : ¬ Underflows i hasMem s) (hl : i.Loads) (v : L) :
    StackOutcome H i hasMem s (H.push s.fpu v).2 := by
  by_cases hfull : s.fpu.tag s.fpu.above ≠ tagEmpty
  · rw [push_refused hfull]
    exact .refused hn hfull hl
  · exact .done hn (fun h => hfull h.1) _ (keepsSf_pushValue (not_not.1 hfull) _)

/-- An operation that no register can be missing for. -/
theorem outcome_free (hq : i.quietReads hasMem (Cpu.cond i.cond s.cpu.flags) = [])
    (hl : i.loudReads hasMem = []) (ho : ¬ Overflows H i s) {g : Fpu} (h : KeepsSf s.fpu g) :
    StackOutcome H i hasMem s g := by
  refine .done ?_ ho g h
  rintro (⟨p, hp, _⟩ | ⟨p, hp, _⟩)
  · rw [hq] at hp
    cases hp
  · rw [hl] at hp
    cases hp

theorem onFpu_ok {g : Fpu → Fpu} (h : X87Run.onFpu g s = .ok () t) :
    t = { s with fpu := g s.fpu } := by
  cases h
  rfl

theorem readMem_ok {n : ℕ} {bytes : List U8} (h : X87Run.readMem m addr n s = .ok bytes t) :
    t = s := by
  unfold X87Run.readMem at h
  split at h <;> cases h
  rfl

theorem orUndefined_ok {α : Type} {o : Option α} {a : α}
    (h : X87Run.orUndefined o s = .ok a t) : t = s ∧ o = some a := by
  cases o with
  | none => cases h
  | some b =>
    cases h
    exact ⟨rfl, rfl⟩

theorem readValue_ok {width : ℕ} {integer : Bool} {v : L}
    (h : H.readValue m addr width integer s = .ok v t) : t = s := by
  unfold FloatHost.readValue at h
  split at h
  · obtain ⟨bytes, u, hread, hrest⟩ := bind_eq_ok h
    obtain ⟨raw, u', hraw, hlast⟩ := bind_eq_ok hrest
    cases hlast
    exact (orUndefined_ok hraw).1.trans (readMem_ok hread)
  · cases h

theorem writeMem_ok {bytes : List U8} (h : X87Run.writeMem m addr bytes s = .ok () t) :
    t.fpu = s.fpu ∧ t.cpu = s.cpu := by
  unfold X87Run.writeMem at h
  split at h <;> cases h
  exact ⟨rfl, rfl⟩

theorem writeWord_ok {w : U16} (h : X87Run.writeWord m addr w s = .ok () t) :
    t.fpu = s.fpu ∧ t.cpu = s.cpu := by
  unfold X87Run.writeWord at h
  split at h <;> cases h
  exact ⟨rfl, rfl⟩

theorem sound_regToIntegerBits (f : Fpu) (value : Ext80) (width : ℕ) :
    Sound f (regToIntegerBits f value width).2 := by
  unfold regToIntegerBits
  split
  · exact Sound.refl f
  · exact Sound.raise f (by decide)

theorem sound_operandBytes (f : Fpu) (value : Ext80) (width : ℕ) (integer : Bool) :
    Sound f (H.operandBytesFromReg f value width integer).2 := by
  unfold FloatHost.operandBytesFromReg
  dsimp only
  split_ifs
  · exact Sound.refl f
  · exact sound_regToIntegerBits f value width
  · exact Sound.refl f
  · exact Sound.refl f

theorem writeValue_ok {width : ℕ} {integer : Bool} {v : L}
    (h : H.writeValue m addr width integer v s = .ok () t) : Sound s.fpu t.fpu := by
  unfold FloatHost.writeValue at h
  split at h
  · obtain ⟨result, u, hask, hrest⟩ := bind_eq_ok h
    cases hask
    obtain ⟨_, u', hset, hwrite⟩ := bind_eq_ok hrest
    cases onFpu_ok hset
    rw [(writeMem_ok hwrite).1]
    exact sound_operandBytes ..
  · cases h

end Outcomes

/-! ## Each instruction -/

section Instructions

variable {L : Type} {H : FloatHost L} {m : Mem} {i : X87Insn} {hasMem : Bool} {addr : U32}
  {s t : X87State}

theorem quiet_iff {l : List (Fin 8)} (h : i.quietReads hasMem (Cpu.cond i.cond s.cpu.flags) = l) :
    Quiet i hasMem s ↔ ∃ p ∈ l, s.fpu.Empty p := by
  rw [Quiet, h]

theorem loud_iff {l : List (Fin 8)} (h : i.loudReads hasMem = l) :
    Loud i hasMem s ↔ ∃ p ∈ l, s.fpu.Empty p := by
  rw [Loud, h]

theorem quiet_one {p : Fin 8} (h : i.quietReads hasMem (Cpu.cond i.cond s.cpu.flags) = [p]) :
    Quiet i hasMem s ↔ s.fpu.Empty p := by
  rw [quiet_iff h]
  simp

theorem quiet_two {p q : Fin 8}
    (h : i.quietReads hasMem (Cpu.cond i.cond s.cpu.flags) = [p, q]) :
    Quiet i hasMem s ↔ s.fpu.Empty p ∨ s.fpu.Empty q := by
  rw [quiet_iff h]
  simp

theorem loud_one {p : Fin 8} (h : i.loudReads hasMem = [p]) :
    Loud i hasMem s ↔ s.fpu.Empty p := by
  rw [loud_iff h]
  simp

theorem not_loud (h : i.loudReads hasMem = []) : ¬ Loud i hasMem s := by
  rintro ⟨p, hp, _⟩
  rw [h] at hp
  cases hp

theorem not_quiet (h : i.quietReads hasMem (Cpu.cond i.cond s.cpu.flags) = []) :
    ¬ Quiet i hasMem s := by
  rintro ⟨p, hp, _⟩
  rw [h] at hp
  cases hp

/-- An operation on `ST(0)`, by the quiet accessor. -/
theorem outcome_top (hq : i.quietReads hasMem (Cpu.cond i.cond s.cpu.flags) = [0])
    (hl : i.loudReads hasMem = []) (hp : i.x87.pushes = false) {g : Fpu}
    (hempty : s.fpu.Empty 0 → g = s.fpu) (hocc : ¬ s.fpu.Empty 0 → KeepsSf s.fpu g) :
    StackOutcome H i hasMem s g := by
  by_cases htop : s.fpu.Empty 0
  · rw [hempty htop]
    exact .silent ((quiet_one hq).2 htop)
  · refine .done ?_ (not_overflows hp) g (hocc htop)
    rintro (h | h)
    · exact htop ((quiet_one hq).1 h)
    · exact not_loud hl h

theorem outcome_load (hk : i.x87 = .load) (hrun : H.execute m i hasMem addr s = .ok () t) :
    StackOutcome H i hasMem s t.fpu := by
  have hl : i.Loads := .inl hk
  have hloud : i.loudReads hasMem = [] := by rw [X87Insn.loudReads, hk]
  unfold FloatHost.execute at hrun
  rw [hk] at hrun
  dsimp only at hrun
  cases hasMem with
  | true =>
    have hquiet : i.quietReads true (Cpu.cond i.cond s.cpu.flags) = [] := by
      rw [X87Insn.quietReads, hk]
      rfl
    obtain ⟨v, u, hread, hpush⟩ := bind_eq_ok hrun
    cases readValue_ok hread
    cases onFpu_ok hpush
    exact outcome_push (fun h => h.elim (not_quiet hquiet) (not_loud hloud)) hl v
  | false =>
    have hquiet : i.quietReads false (Cpu.cond i.cond s.cpu.flags) = [i.operand0.position] := by
      rw [X87Insn.quietReads, hk]
      rfl
    rw [if_neg Bool.false_ne_true] at hrun
    cases hop : i.operand0 with
    | st p =>
      rw [hop] at hrun hquiet
      cases onFpu_ok hrun
      dsimp only
      rw [FloatHost.loadFrom]
      by_cases hempty : s.fpu.Empty p
      · rw [get_of_empty hempty]
        exact .silent ((quiet_one hquiet).2 hempty)
      · rw [get_of_occupied hempty]
        refine outcome_push (fun h => h.elim (fun hq => ?_) (not_loud hloud)) hl _
        exact hempty ((quiet_one hquiet).1 hq)
    | none =>
      rw [hop] at hrun
      cases hrun
    | mem _ =>
      rw [hop] at hrun
      cases hrun
    | reg _ =>
      rw [hop] at hrun
      cases hrun

theorem outcome_loadInt (hk : i.x87 = .loadInt) (hrun : H.execute m i hasMem addr s = .ok () t) :
    StackOutcome H i hasMem s t.fpu := by
  have hloud : i.loudReads hasMem = [] := by rw [X87Insn.loudReads, hk]
  have hquiet : i.quietReads hasMem (Cpu.cond i.cond s.cpu.flags) = [] := by
    rw [X87Insn.quietReads, hk]
  unfold FloatHost.execute at hrun
  rw [hk] at hrun
  dsimp only at hrun
  split at hrun
  · obtain ⟨v, u, hread, hpush⟩ := bind_eq_ok hrun
    cases readValue_ok hread
    cases onFpu_ok hpush
    exact outcome_push (fun h => h.elim (not_quiet hquiet) (not_loud hloud)) (.inr (.inl hk)) v
  · cases hrun

theorem storeValue_ok {v : L} (h : H.storeValue m i hasMem addr v s = .ok () t) :
    Sound s.fpu t.fpu := by
  unfold FloatHost.storeValue at h
  split at h
  · exact writeValue_ok h
  · cases hop : i.operand0 with
    | st p =>
      rw [hop] at h
      cases onFpu_ok h
      exact Sound.write ..
    | none =>
      rw [hop] at h
      cases h
    | mem _ =>
      rw [hop] at h
      cases h
    | reg _ =>
      rw [hop] at h
      cases h

/-- One position and a pop of it at the end. -/
theorem Sound.pops_le_one {f g : Fpu} (h : Sound f g) {n : ℕ} (hn : n ≤ 1) (hocc : ¬ f.Empty 0) :
    KeepsSf f (g.pops n) := by
  refine h.pops (Nat.le_trans hn (by decide)) fun j hj => ?_
  have hzero : j = 0 := Fin.ext (Nat.lt_one_iff.1 (Nat.lt_of_lt_of_le hj hn))
  rwa [hzero]

theorem outcome_store (hd : i.Decoded hasMem) (hk : i.x87 = .store)
    (hrun : H.execute m i hasMem addr s = .ok () t) : StackOutcome H i hasMem s t.fpu := by
  have hpops : i.pops ≤ 1 := by
    rw [X87Insn.Decoded, hk] at hd
    exact hd
  unfold FloatHost.execute at hrun
  rw [hk] at hrun
  dsimp only at hrun
  obtain ⟨v, u, hask, hrest⟩ := bind_eq_ok hrun
  cases hask
  dsimp only at hrest
  apply outcome_top (by rw [X87Insn.quietReads, hk]) (by rw [X87Insn.loudReads, hk]) (by rw [hk]; rfl)
  · intro hempty
    rw [get_of_empty hempty] at hrest
    cases hrest
    rfl
  · intro hocc
    rw [get_of_occupied hocc] at hrest
    obtain ⟨_, u, hstore, hpop⟩ := bind_eq_ok hrest
    cases onFpu_ok hpop
    exact (storeValue_ok hstore).pops_le_one hpops hocc

theorem outcome_storeInt (hd : i.Decoded hasMem) (hk : i.x87 = .storeInt)
    (hrun : H.execute m i hasMem addr s = .ok () t) : StackOutcome H i hasMem s t.fpu := by
  have hpops : i.pops ≤ 1 := by
    rw [X87Insn.Decoded, hk] at hd
    exact hd
  unfold FloatHost.execute at hrun
  rw [hk] at hrun
  dsimp only at hrun
  split at hrun
  · obtain ⟨v, u, hask, hrest⟩ := bind_eq_ok hrun
    cases hask
    dsimp only at hrest
    apply outcome_top (by rw [X87Insn.quietReads, hk]) (by rw [X87Insn.loudReads, hk])
      (by rw [hk]; rfl)
    · intro hempty
      rw [get_of_empty hempty] at hrest
      cases hrest
      rfl
    · intro hocc
      rw [get_of_occupied hocc] at hrest
      obtain ⟨_, u, hstore, hpop⟩ := bind_eq_ok hrest
      cases onFpu_ok hpop
      exact (writeValue_ok hstore).pops_le_one hpops hocc
  · cases hrun

theorem arithOperands_ok {o : Option (Fin 8 × Ext80)}
    (h : H.arithOperands m i hasMem addr s = .ok o t) : t = s ∧
      (hasMem = true ∧ (∃ v, o = some (0, v)) ∨
        hasMem = false ∧ ∃ dst src, i.arithPositions = some (dst, src) ∧
          o = (s.fpu.read src).map (dst, ·)) := by
  unfold FloatHost.arithOperands at h
  cases hasMem with
  | true =>
    obtain ⟨v, u, hread, hpure⟩ := bind_eq_ok h
    cases hpure
    exact ⟨readValue_ok hread, .inl ⟨rfl, _, rfl⟩⟩
  | false =>
    rw [if_neg Bool.false_ne_true] at h
    cases hpos : i.arithPositions with
    | none =>
      rw [hpos] at h
      cases h
    | some p =>
      rw [hpos] at h
      cases h
      exact ⟨rfl, .inr ⟨rfl, p.1, p.2, rfl, rfl⟩⟩

theorem arithPositions_snd {dst src : Fin 8} (h : i.arithPositions = some (dst, src))
    (hn : i.operands = 2) (hsrc : i.operand1 = .st 0) : src = 0 := by
  unfold X87Insn.arithPositions at h
  rw [hn, hsrc] at h
  cases hop : i.operand0 with
  | st p =>
    rw [hop] at h
    cases h
    rfl
  | none =>
    rw [hop] at h
    cases h
  | mem _ =>
    rw [hop] at h
    cases h
  | reg _ =>
    rw [hop] at h
    cases h

/-- An operation on a register that another operand has been found for, and its pops. -/
theorem outcome_arith_found {dst : Fin 8} (hk : i.x87 = .arith) (hq : ¬ Quiet i hasMem s)
    (hl : i.loudReads hasMem = [dst]) (hpops : i.pops = 0 ∨ i.pops = 1 ∧ ¬ s.fpu.Empty 0)
    (src : Ext80) :
    StackOutcome H i hasMem s ((H.arithRaw s.fpu i.op dst src i.reverse).2.pops i.pops) := by
  by_cases hempty : s.fpu.Empty dst
  · rw [arithRaw_empty hempty]
    exact .fault hq ((loud_one hl).2 hempty)
  · have hsound := @sound_arithRaw _ H s.fpu i.op dst hempty src i.reverse
    refine .done (fun h => h.elim hq fun h => hempty ((loud_one hl).1 h))
      (not_overflows (by rw [hk]; rfl)) _ ?_
    rcases hpops with hpops | ⟨hpops, hocc⟩
    · rw [hpops]
      exact hsound.keeps
    · exact hsound.pops_le_one (le_of_eq hpops) hocc

theorem outcome_arith (hd : i.Decoded hasMem) (hk : i.x87 = .arith)
    (hrun : H.execute m i hasMem addr s = .ok () t) : StackOutcome H i hasMem s t.fpu := by
  rw [X87Insn.Decoded, hk] at hd
  dsimp only at hd
  unfold FloatHost.execute at hrun
  rw [hk] at hrun
  dsimp only at hrun
  obtain ⟨o, u, hoperands, hrest⟩ := bind_eq_ok hrun
  obtain ⟨rfl, ⟨rfl, v, rfl⟩ | ⟨rfl, dst, src, hpos, rfl⟩⟩ := arithOperands_ok hoperands
  · have hquiet : i.quietReads true (Cpu.cond i.cond u.cpu.flags) = [] := by
      rw [X87Insn.quietReads, hk]
      rfl
    have hloud : i.loudReads true = [0] := by
      rw [X87Insn.loudReads, hk]
      rfl
    cases onFpu_ok hrest
    exact outcome_arith_found hk (not_quiet hquiet) hloud (hd.imp_right fun h => by cases h.2.1) v
  · have hquiet : i.quietReads false (Cpu.cond i.cond u.cpu.flags) = [src] := by
      rw [X87Insn.quietReads, hk, hpos]
      rfl
    have hloud : i.loudReads false = [dst] := by
      rw [X87Insn.loudReads, hk, hpos]
      rfl
    by_cases hempty : u.fpu.Empty src
    · rw [Fpu.read_of_empty hempty] at hrest
      cases hrest
      exact .silent ((quiet_one hquiet).2 hempty)
    · rw [Fpu.read_of_occupied hempty] at hrest
      cases onFpu_ok hrest
      refine outcome_arith_found hk (fun h => hempty ((quiet_one hquiet).1 h)) hloud ?_ _
      refine hd.imp_right fun h => ⟨h.1, ?_⟩
      rwa [arithPositions_snd hpos h.2.2.1 h.2.2.2] at hempty

/-- A comparison with a value that has been found, and its pops. -/
theorem outcome_compare_found (hk : i.x87 = .compare) (hq : ¬ Quiet i hasMem s)
    (hpops : i.pops ≤ 1 ∨ i.pops = 2 ∧ ¬ s.fpu.Empty 1) (other : L) :
    StackOutcome H i hasMem s ((H.compare s.fpu other).2.pops i.pops) := by
  have hloud : i.loudReads hasMem = [0] := by rw [X87Insn.loudReads, hk]
  by_cases hempty : s.fpu.Empty 0
  · rw [compare_empty hempty]
    exact .fault hq ((loud_one hloud).2 hempty)
  · have hsound := sound_compare (H := H) hempty other
    refine .done (fun h => h.elim hq fun h => hempty ((loud_one hloud).1 h))
      (not_overflows (by rw [hk]; rfl)) _ ?_
    rcases hpops with hpops | ⟨hpops, hocc⟩
    · exact hsound.pops_le_one hpops hempty
    · rw [hpops]
      refine hsound.pops (by decide) fun j hj => ?_
      have hcases : j = 0 ∨ j = 1 := by
        have hval : j.val = 0 ∨ j.val = 1 := by omega
        exact hval.imp Fin.ext Fin.ext
      rcases hcases with rfl | rfl
      · exact hempty
      · exact hocc

theorem outcome_compare (hd : i.Decoded hasMem) (hk : i.x87 = .compare)
    (hrun : H.execute m i hasMem addr s = .ok () t) : StackOutcome H i hasMem s t.fpu := by
  rw [X87Insn.Decoded, hk] at hd
  dsimp only at hd
  unfold FloatHost.execute at hrun
  rw [hk] at hrun
  dsimp only at hrun
  cases hasMem with
  | true =>
    have hquiet : i.quietReads true (Cpu.cond i.cond s.cpu.flags) = [] := by
      rw [X87Insn.quietReads, hk]
      rfl
    obtain ⟨v, u, hread, hrest⟩ := bind_eq_ok hrun
    cases readValue_ok hread
    cases onFpu_ok hrest
    exact outcome_compare_found hk (not_quiet hquiet) (hd.imp_right fun h => by cases h.2.1) v
  | false =>
    have hquiet : i.quietReads false (Cpu.cond i.cond s.cpu.flags) = [i.other] := by
      rw [X87Insn.quietReads, hk]
      rfl
    rw [if_neg Bool.false_ne_true] at hrun
    split at hrun
    · cases onFpu_ok hrun
      dsimp only
      rw [FloatHost.compareRegister]
      by_cases hempty : s.fpu.Empty i.other
      · rw [get_of_empty hempty]
        exact .silent ((quiet_one hquiet).2 hempty)
      · rw [get_of_occupied hempty]
        refine outcome_compare_found hk (fun h => hempty ((quiet_one hquiet).1 h)) ?_ _
        refine hd.imp_right fun h => ⟨h.1, ?_⟩
        have hother : i.other = 1 := by rw [X87Insn.other, h.2.2]
        rwa [hother] at hempty
    · cases hrun

theorem exchange_empty {f : Fpu} {p : Fin 8} (h : f.Empty 0 ∨ f.Empty p) :
    H.exchange f p = f := by
  unfold FloatHost.exchange
  rcases h with h | h
  · rw [get_of_empty h]
  · rw [get_of_empty h]
    cases H.get f 0 <;> rfl

theorem exchange_occupied {f : Fpu} {p : Fin 8} (h : ¬ f.Empty 0) (h' : ¬ f.Empty p) :
    H.exchange f p = H.set (H.set f 0 (H.longOf (f.reg (f.phys p)))) p
      (H.longOf (f.reg (f.phys 0))) := by
  unfold FloatHost.exchange
  rw [get_of_occupied h, get_of_occupied h']

theorem outcome_exchange (hk : i.x87 = .exchange)
    (hrun : H.execute m i hasMem addr s = .ok () t) : StackOutcome H i hasMem s t.fpu := by
  have hquiet : i.quietReads hasMem (Cpu.cond i.cond s.cpu.flags) = [0, i.other] := by
    rw [X87Insn.quietReads, hk]
  unfold FloatHost.execute at hrun
  rw [hk] at hrun
  cases onFpu_ok hrun
  by_cases hq : Quiet i hasMem s
  · have hempty := (quiet_two hquiet).1 hq
    dsimp only
    rw [exchange_empty hempty]
    exact .silent hq
  · have hocc := not_or.1 (fun h => hq ((quiet_two hquiet).2 h))
    refine .done (fun h => h.elim hq (not_loud (by rw [X87Insn.loudReads, hk])))
      (not_overflows (by rw [hk]; rfl)) _ ?_
    dsimp only
    rw [exchange_occupied hocc.1 hocc.2]
    exact KeepsSf.of_status rfl

/-- An operation on `ST(0)` that leaves a unit without it alone. -/
theorem outcome_onTop {g : Fpu → Fpu} (hrun : X87Run.onFpu g s = .ok () t)
    (hq : i.quietReads hasMem (Cpu.cond i.cond s.cpu.flags) = [0])
    (hl : i.loudReads hasMem = []) (hp : i.x87.pushes = false)
    (hempty : s.fpu.Empty 0 → g s.fpu = s.fpu) (hocc : ¬ s.fpu.Empty 0 → KeepsSf s.fpu (g s.fpu)) :
    StackOutcome H i hasMem s t.fpu := by
  cases onFpu_ok hrun
  exact outcome_top hq hl hp hempty hocc

theorem sign_empty {f : Fpu} (h : f.Empty 0) (absolute : Bool) : H.sign f absolute = f := by
  rw [FloatHost.sign, get_of_empty h]

theorem sign_occupied {f : Fpu} (h : ¬ f.Empty 0) (absolute : Bool) :
    H.sign f absolute = H.set f 0 (if absolute then H.abs (H.longOf (f.reg (f.phys 0)))
      else H.neg (H.longOf (f.reg (f.phys 0)))) := by
  rw [FloatHost.sign, get_of_occupied h]

theorem keepsSf_sign {f : Fpu} (h : ¬ f.Empty 0) (absolute : Bool) :
    KeepsSf f (H.sign f absolute) := by
  rw [sign_occupied h]
  exact KeepsSf.of_status rfl

theorem test_empty {f : Fpu} (h : f.Empty 0) : H.test f = f := by
  rw [FloatHost.test, get_of_empty h]

theorem compareFlagsPop_empty {f : Fpu} {p : Fin 8} (h : f.Empty 0 ∨ f.Empty p)
    (flags : Cpu.Flags) (n : ℕ) : H.compareFlagsPop f flags p n = (f, flags) := by
  have hflags : H.compareFlags f flags p = (false, f, flags) := by
    unfold FloatHost.compareFlags
    rcases h with h | h
    · rw [get_of_empty h]
    · rw [get_of_empty h]
      cases H.get f 0 <;> rfl
  rw [FloatHost.compareFlagsPop, hflags]
  rfl

theorem compareFlagsPop_occupied {f : Fpu} {p : Fin 8} (h : ¬ f.Empty 0) (h' : ¬ f.Empty p)
    (flags : Cpu.Flags) (n : ℕ) :
    (H.compareFlagsPop f flags p n).1 = (f.lower x87C1).pops n := by
  unfold FloatHost.compareFlagsPop FloatHost.compareFlags
  rw [get_of_occupied h, get_of_occupied h']
  rfl

theorem outcome_compareInt (hd : i.Decoded hasMem) (hk : i.x87 = .compareInt)
    (hrun : H.execute m i hasMem addr s = .ok () t) : StackOutcome H i hasMem s t.fpu := by
  have hpops : i.pops ≤ 1 := by
    rw [X87Insn.Decoded, hk] at hd
    exact hd
  have hquiet : i.quietReads hasMem (Cpu.cond i.cond s.cpu.flags) = [0, i.flagsOther] := by
    rw [X87Insn.quietReads, hk]
  unfold FloatHost.execute at hrun
  rw [hk] at hrun
  cases hrun
  by_cases hq : Quiet i hasMem s
  · have hempty := (quiet_two hquiet).1 hq
    dsimp only
    rw [compareFlagsPop_empty hempty]
    exact .silent hq
  · have hocc := not_or.1 (fun h => hq ((quiet_two hquiet).2 h))
    refine .done (fun h => h.elim hq (not_loud (by rw [X87Insn.loudReads, hk])))
      (not_overflows (by rw [hk]; rfl)) _ ?_
    dsimp only
    rw [compareFlagsPop_occupied hocc.1 hocc.2]
    exact (Sound.lower s.fpu (by decide)).pops_le_one hpops hocc.1

theorem outcome_cmov (hk : i.x87 = .cmov)
    (hrun : H.execute m i hasMem addr s = .ok () t) : StackOutcome H i hasMem s t.fpu := by
  have hloud : i.loudReads hasMem = [] := by rw [X87Insn.loudReads, hk]
  have hno : ¬ Overflows H i s := not_overflows (by rw [hk]; rfl)
  unfold FloatHost.execute at hrun
  rw [hk] at hrun
  dsimp only at hrun
  by_cases htaken : Cpu.cond i.cond s.cpu.flags = true
  · have hquiet : i.quietReads hasMem (Cpu.cond i.cond s.cpu.flags) = [i.operand1.position] := by
      rw [X87Insn.quietReads, hk, htaken]
      rfl
    rw [if_pos htaken] at hrun
    cases hrun
    dsimp only
    rw [FloatHost.moveFrom]
    by_cases hempty : s.fpu.Empty i.operand1.position
    · rw [get_of_empty hempty]
      exact .silent ((quiet_one hquiet).2 hempty)
    · rw [get_of_occupied hempty]
      exact .done (fun h => h.elim (fun h => hempty ((quiet_one hquiet).1 h)) (not_loud hloud))
        hno _ (KeepsSf.of_status rfl)
  · have hquiet : i.quietReads hasMem (Cpu.cond i.cond s.cpu.flags) = [] := by
      rw [X87Insn.quietReads, hk]
      exact if_neg htaken
    rw [if_neg htaken] at hrun
    cases hrun
    exact outcome_free hquiet hloud hno (KeepsSf.refl _)

theorem outcome_storeFn {r : FnResult L} (hk : i.x87 = .fn) (hn : ¬ Underflows i hasMem s)
    (hocc : ¬ s.fpu.Empty 0) (hr : H.fnResult s.fpu i.fn = some r) :
    StackOutcome H i hasMem s (H.storeFn s.fpu i.fn r) := by
  have hstatus := sound_fnStatus (H := H) s.fpu i.fn r.sw
  have hno (h : ¬ (r.pushed = true ∧ i.fn.consumes = false)) : ¬ Overflows H i s := by
    rintro ⟨_, hload | ⟨_, r', hr', hpush⟩⟩
    · rcases hload with hload | hload | ⟨c, hload⟩ <;> · rw [hk] at hload; cases hload
    · rw [hr] at hr'
      cases hr'
      exact h hpush
  unfold FloatHost.storeFn
  dsimp only
  by_cases hc : i.fn.consumes = true
  · rw [if_pos hc]
    refine .done hn (hno fun h => by rw [hc] at h; cases h.2) _ ?_
    exact hstatus.keeps.trans (keepsSf_popValue (hstatus.occupied 0 hocc))
  · rw [if_neg hc]
    have hconsumes : i.fn.consumes = false := Bool.eq_false_iff.2 hc
    by_cases hp : r.pushed = true
    · have hwritten : (H.set (H.fnStatus s.fpu i.fn r.sw) 0 r.r0).tag
          (H.set (H.fnStatus s.fpu i.fn r.sw) 0 r.r0).above = s.fpu.tag s.fpu.above := by
        refine (Fpu.tag_write_of_ne _ (Fpu.above_ne_phys_zero _) _).trans ?_
        rw [tag_fnStatus, Fpu.above_of_top (top_fnStatus ..)]
      rw [if_pos hp]
      by_cases hfull : s.fpu.tag s.fpu.above ≠ tagEmpty
      · rw [push_refused (by rwa [hwritten])]
        exact .replaced hn hfull hk r hr hp hconsumes
      · refine .done hn (fun h => hfull h.1) _ ?_
        refine hstatus.keeps.trans ?_
        refine KeepsSf.trans (Sound.write _ 0 _).keeps (keepsSf_pushValue ?_ _)
        exact hwritten.trans (not_not.1 hfull)
    · rw [if_neg hp]
      exact .done hn (hno fun h => hp h.1) _ (hstatus.keeps.trans (Sound.write _ 0 _).keeps)

theorem outcome_fn (hk : i.x87 = .fn)
    (hrun : H.execute m i hasMem addr s = .ok () t) : StackOutcome H i hasMem s t.fpu := by
  have hquiet : i.quietReads hasMem (Cpu.cond i.cond s.cpu.flags) =
      if i.fn.twoOperand then [0, 1] else [0] := by rw [X87Insn.quietReads, hk]
  have hloud : i.loudReads hasMem = [] := by rw [X87Insn.loudReads, hk]
  have hmissing : Quiet i hasMem s ↔ s.fpu.Empty 0 ∨ i.fn.twoOperand = true ∧ s.fpu.Empty 1 := by
    cases htwo : i.fn.twoOperand with
    | true =>
      rw [htwo] at hquiet
      rw [quiet_two hquiet]
      simp
    | false =>
      rw [htwo] at hquiet
      rw [quiet_one hquiet]
      simp
  unfold FloatHost.execute at hrun
  rw [hk] at hrun
  dsimp only at hrun
  cases hfn : H.applyFn s.fpu i.fn with
  | none =>
    rw [hfn] at hrun
    cases hrun
  | some g =>
    rw [hfn] at hrun
    cases hrun
    dsimp only
    unfold FloatHost.applyFn at hfn
    cases hdouble : (if s.fpu.doubleArith ≠ 0 then H.answerDouble s.fpu i.fn else none) with
    | some g' =>
      rw [hdouble] at hfn
      cases hfn
      have hanswer : H.answerDouble s.fpu i.fn = some g := by
        split_ifs at hdouble
        exact hdouble
      obtain ⟨hocc, _, htwo, _⟩ := answerDouble_eq_some hanswer
      refine .done (fun h => h.elim (fun h => ?_) (not_loud hloud)) ?_ _
        (keepsSf_answerDouble hanswer)
      · exact (hmissing.1 h).elim hocc fun h => htwo h.1 h.2
      · rintro ⟨_, hload | ⟨_, r, hr, _⟩⟩
        · rcases hload with hload | hload | ⟨c, hload⟩ <;> · rw [hk] at hload; cases hload
        · rw [FloatHost.fnResult, hdouble] at hr
          cases hr
    | none =>
      rw [hdouble] at hfn
      dsimp only at hfn
      by_cases hq : Quiet i hasMem s
      · have hsame : s.fpu = g := by
          rcases hmissing.1 hq with hempty | ⟨htwo, hempty⟩
          · rw [get_of_empty hempty] at hfn
            exact Option.some_inj.1 hfn
          · rw [if_pos htwo, get_of_empty hempty] at hfn
            cases hget : H.get s.fpu 0 <;> rw [hget] at hfn <;> exact Option.some_inj.1 hfn
        rw [← hsame]
        exact .silent hq
      · have hocc : ¬ s.fpu.Empty 0 := fun h => hq (hmissing.2 (.inl h))
        obtain ⟨b, hb⟩ : ∃ b, (if i.fn.twoOperand then H.get s.fpu 1 else some H.zero) = some b := by
          by_cases htwo : i.fn.twoOperand = true
          · exact ⟨_, (if_pos htwo).trans
              (get_of_occupied fun h => hq (hmissing.2 (.inr ⟨htwo, h⟩)))⟩
          · exact ⟨_, if_neg htwo⟩
        rw [hb, get_of_occupied hocc] at hfn
        obtain ⟨r, hr, rfl⟩ := Option.map_eq_some_iff.1 hfn
        refine outcome_storeFn hk (fun h => h.elim hq (not_loud hloud)) hocc ?_
        rw [FloatHost.fnResult, hdouble, hb, get_of_occupied hocc]
        exact hr

/-- An instruction that reads no position and pushes nothing. -/
theorem outcome_plain (hq : i.quietReads hasMem (Cpu.cond i.cond s.cpu.flags) = [])
    (hl : i.loudReads hasMem = []) (hp : i.x87.pushes = false) (h : KeepsSf s.fpu t.fpu) :
    StackOutcome H i hasMem s t.fpu := outcome_free hq hl (not_overflows hp) h

theorem storeStatus_ok (h : storeStatus m i hasMem addr s = .ok () t) : t.fpu = s.fpu := by
  unfold storeStatus at h
  obtain ⟨sw, u, hask, hrest⟩ := bind_eq_ok h
  cases hask
  dsimp only at hrest
  cases hasMem with
  | true => exact (writeWord_ok hrest).1
  | false =>
    cases hrest
    rfl

theorem readWord_ok {w : U16} (h : X87Run.readWord m addr s = .ok w t) : t = s := by
  unfold X87Run.readWord at h
  split at h <;> cases h
  rfl

/-- Every instruction leaves the unit in one of the five ways. -/
theorem execute_outcome (hd : i.Decoded hasMem) (hw : ¬ i.WritesStatus)
    (hrun : H.execute m i hasMem addr s = .ok () t) : StackOutcome H i hasMem s t.fpu := by
  cases hk : i.x87 with
  | load => exact outcome_load hk hrun
  | loadInt => exact outcome_loadInt hk hrun
  | store => exact outcome_store hd hk hrun
  | storeInt => exact outcome_storeInt hd hk hrun
  | arith => exact outcome_arith hd hk hrun
  | compare => exact outcome_compare hd hk hrun
  | exchange => exact outcome_exchange hk hrun
  | compareInt => exact outcome_compareInt hd hk hrun
  | cmov => exact outcome_cmov hk hrun
  | fn => exact outcome_fn hk hrun
  | changeSign =>
    unfold FloatHost.execute at hrun
    rw [hk] at hrun
    exact outcome_onTop hrun (by rw [X87Insn.quietReads, hk]) (by rw [X87Insn.loudReads, hk])
      (by rw [hk]; rfl) (fun h => sign_empty h false) (fun h => keepsSf_sign h false)
  | abs =>
    unfold FloatHost.execute at hrun
    rw [hk] at hrun
    exact outcome_onTop hrun (by rw [X87Insn.quietReads, hk]) (by rw [X87Insn.loudReads, hk])
      (by rw [hk]; rfl) (fun h => sign_empty h true) (fun h => keepsSf_sign h true)
  | test =>
    unfold FloatHost.execute at hrun
    rw [hk] at hrun
    exact outcome_onTop hrun (by rw [X87Insn.quietReads, hk]) (by rw [X87Insn.loudReads, hk])
      (by rw [hk]; rfl) test_empty keepsSf_test
  | const c =>
    unfold FloatHost.execute at hrun
    rw [hk] at hrun
    cases onFpu_ok hrun
    exact outcome_push (fun h => h.elim (not_quiet (by rw [X87Insn.quietReads, hk]))
      (not_loud (by rw [X87Insn.loudReads, hk]))) (.inr (.inr ⟨c, hk⟩)) _
  | examine =>
    unfold FloatHost.execute at hrun
    rw [hk] at hrun
    cases onFpu_ok hrun
    exact outcome_plain (by rw [X87Insn.quietReads, hk]) (by rw [X87Insn.loudReads, hk])
      (by rw [hk]; rfl) (keepsSf_examine _)
  | storeStatus =>
    unfold FloatHost.execute at hrun
    rw [hk] at hrun
    exact outcome_plain (by rw [X87Insn.quietReads, hk]) (by rw [X87Insn.loudReads, hk])
      (by rw [hk]; rfl) (KeepsSf.of_status (congrArg Fpu.status (storeStatus_ok hrun)))
  | loadControl =>
    unfold FloatHost.execute at hrun
    rw [hk] at hrun
    refine outcome_plain (by rw [X87Insn.quietReads, hk]) (by rw [X87Insn.loudReads, hk])
      (by rw [hk]; rfl) ?_
    dsimp only at hrun
    split at hrun
    · obtain ⟨v, u, hread, hset⟩ := bind_eq_ok hrun
      cases readWord_ok hread
      cases onFpu_ok hset
      exact KeepsSf.of_status rfl
    · cases hrun
  | storeControl =>
    unfold FloatHost.execute at hrun
    rw [hk] at hrun
    refine outcome_plain (by rw [X87Insn.quietReads, hk]) (by rw [X87Insn.loudReads, hk])
      (by rw [hk]; rfl) ?_
    dsimp only at hrun
    split at hrun
    · obtain ⟨w, u, hask, hwrite⟩ := bind_eq_ok hrun
      cases hask
      exact KeepsSf.of_status (congrArg Fpu.status (writeWord_ok hwrite).1)
    · cases hrun
  | free =>
    unfold FloatHost.execute at hrun
    rw [hk] at hrun
    cases onFpu_ok hrun
    refine outcome_plain (by rw [X87Insn.quietReads, hk]) (by rw [X87Insn.loudReads, hk])
      (by rw [hk]; rfl) (KeepsSf.of_status ?_)
    dsimp only
    split <;> rfl
  | wait =>
    unfold FloatHost.execute at hrun
    rw [hk] at hrun
    cases hrun
    exact outcome_plain (by rw [X87Insn.quietReads, hk]) (by rw [X87Insn.loudReads, hk])
      (by rw [hk]; rfl) (KeepsSf.refl _)
  | init => exact absurd (.inl hk) hw
  | clearExc => exact absurd (.inr (.inl hk)) hw
  | saveState => exact absurd (.inr (.inr (.inl hk))) hw
  | restoreState => exact absurd (.inr (.inr (.inr hk))) hw

/-- What the pops after a loud fault do to C1: those of a comparison find the same empty
register, and those of the arithmetic find an occupied one. -/
theorem fault_pops (hd : i.Decoded hasMem) (hq : ¬ Quiet i hasMem s) (hl : Loud i hasMem s) :
    (i.x87 = .compare ∧ i.pops ≠ 0 ∧ (s.fpu.raise x87StackFault).pops i.pops =
      ((s.fpu.raise x87StackFault).raise x87StackFault).lower x87C1) ∨
    ¬ (i.x87 = .compare ∧ i.pops ≠ 0) ∧
      ((s.fpu.raise x87StackFault).pops i.pops).status = s.fpu.status ||| x87StackFault := by
  cases hk : i.x87 with
  | compare =>
    have hempty : s.fpu.Empty 0 := (loud_one (by rw [X87Insn.loudReads, hk])).1 hl
    by_cases hpops : i.pops = 0
    · exact .inr ⟨fun h => h.2 hpops, by rw [hpops]; rfl⟩
    · exact .inl ⟨rfl, hpops, Fpu.pops_of_empty hpops (f := s.fpu.raise x87StackFault) hempty⟩
  | arith =>
    rw [X87Insn.Decoded, hk] at hd
    refine .inr ⟨(fun h => by cases h.1), ?_⟩
    rcases hd with hpops | ⟨hpops, rfl, hn, hsrc⟩
    · rw [hpops]
      rfl
    · obtain ⟨p, hp, _⟩ := hl
      rw [X87Insn.loudReads, hk] at hp
      cases hpos : i.arithPositions with
      | none =>
        rw [hpos] at hp
        cases hp
      | some d =>
        have hzero := arithPositions_snd hpos hn hsrc
        have hocc : ¬ s.fpu.Empty 0 := fun h => hq ((quiet_one (p := 0) (by
          rw [X87Insn.quietReads, hk, hpos, ← hzero]
          rfl)).2 h)
        exact Fpu.status_pops_of_occupied (f := s.fpu.raise x87StackFault) (by omega) fun j hj => by
          have hj0 : j = 0 := Fin.ext (by omega)
          rwa [hj0]
  | _ =>
    obtain ⟨p, hp, _⟩ := hl
    rw [X87Insn.loudReads, hk] at hp
    cases hp

/-- Just when the stack fault of an instruction is reported, over any host of the unit. -/
theorem stackFaults_reported_iff {L : Type} (H : FloatHost L) (m : Mem) (i : X87Insn)
    (hasMem : Bool) (addr : U32) (s t : X87State) (hd : i.Decoded hasMem)
    (hw : ¬ i.WritesStatus) (hrun : H.execute m i hasMem addr s = .ok () t) :
    Reported H i hasMem s t ↔ ReportsWhen H i hasMem s := by
  have hout := execute_outcome hd hw hrun
  generalize hg : t.fpu = g at hout
  cases hout with
  | silent hq =>
    constructor
    · intro h
      obtain ⟨hbits, hc1, _⟩ := h.underflow (.inl hq)
      rw [hg] at hbits hc1
      exact ⟨fun _ => ⟨hbits, hc1⟩, fun hn => absurd hq hn, fun hn => absurd (.inl hq) hn⟩
    · intro h
      obtain ⟨hbits, hc1⟩ := h.quiet hq
      rw [← hg] at hbits hc1
      exact ⟨fun _ => ⟨hbits, hc1, congrArg Fpu.reg hg⟩, fun hn => absurd (.inl hq) hn,
        fun hn => absurd (.inl hq) hn⟩
  | fault hq hl =>
    have hreg : t.fpu.reg = s.fpu.reg := by rw [hg, Fpu.reg_pops, Fpu.reg_raise]
    have hnone : ∀ {P : Prop}, ¬ Underflows i hasMem s → P := fun hn => absurd (.inr hl) hn
    rcases fault_pops hd hq hl with ⟨hk, hpops, hpopped⟩ | ⟨hcmp, hstatus⟩
    · have hraised : t.fpu.status &&& x87StackFault = x87StackFault := by
        rw [hg, hpopped, Fpu.status_lower, and_not_and_of_disjoint (by decide), Fpu.status_raise,
          or_and_self]
      have hlowered : t.fpu.status &&& x87C1 = 0 := by
        rw [hg, hpopped, Fpu.status_lower, and_not_and_self]
      exact iff_of_true ⟨fun _ => ⟨hraised, hlowered, hreg⟩, hnone, hnone⟩
        ⟨fun h => absurd h hq, fun _ _ => .inr ⟨hk, hpops⟩, hnone⟩
    · have hraised : t.fpu.status &&& x87StackFault = x87StackFault := by
        rw [hg, hstatus, or_and_self]
      have hkept : t.fpu.status &&& x87C1 = s.fpu.status &&& x87C1 := by
        rw [hg, hstatus, or_and_of_disjoint (by decide)]
      constructor
      · intro h
        refine ⟨fun h => absurd h hq, fun _ _ => .inl ?_, hnone⟩
        rw [← hkept]
        exact (h.underflow (.inr hl)).2.1
      · intro h
        have hclear := (h.loud hq hl).resolve_right hcmp
        exact ⟨fun _ => ⟨hraised, hkept.trans hclear, hreg⟩, hnone, hnone⟩
  | refused hn hfull hloads =>
    have hover : Overflows H i s := ⟨hfull, .inl hloads⟩
    have hraised : t.fpu.status &&& (x87StackFault ||| x87C1) = x87StackFault ||| x87C1 := by
      rw [hg]
      exact or_and_self _ _
    refine iff_of_true ⟨fun h => absurd h hn, fun _ _ => ⟨hraised, ?_⟩, fun _ h => absurd hover h⟩
      ⟨fun h => absurd (.inl h) hn, fun _ h => absurd (.inr h) hn, fun _ hk => ?_⟩
    · rw [hg]
      exact ⟨rfl, rfl, rfl⟩
    · rcases hloads with hload | hload | ⟨c, hload⟩ <;> · rw [hload] at hk; cases hk
  | replaced hn hfull hk r hr hp hc =>
    have hover : Overflows H i s := ⟨hfull, .inr ⟨hk, r, hr, hp, hc⟩⟩
    have hraised : t.fpu.status &&& (x87StackFault ||| x87C1) = x87StackFault ||| x87C1 := by
      rw [hg]
      exact or_and_self _ _
    have htop : t.fpu.top = s.fpu.top := by
      rw [hg]
      exact top_fnStatus (H := H) s.fpu i.fn r.sw
    have hphys : (H.fnStatus s.fpu i.fn r.sw).phys 0 = s.fpu.phys 0 :=
      Fpu.phys_of_top (top_fnStatus ..) 0
    have htag : t.fpu.tag = Function.update s.fpu.tag (s.fpu.phys 0) tagValid := by
      rw [hg, ← hphys, ← tag_fnStatus (H := H) s.fpu i.fn r.sw]
      rfl
    have hreg : t.fpu.reg = Function.update s.fpu.reg (s.fpu.phys 0) (H.regOf r.r0) := by
      rw [hg, ← hphys, ← reg_fnStatus (H := H) s.fpu i.fn r.sw]
      rfl
    constructor
    · intro h
      obtain ⟨_, _, htags, hregs⟩ := h.overflow hn hover
      rw [htag, Function.update_eq_self_iff] at htags
      rw [hreg, Function.update_eq_self_iff] at hregs
      refine ⟨fun h => absurd (.inl h) hn, fun _ h => absurd (.inr h) hn,
        fun _ _ _ r' hr' _ _ => ?_⟩
      rw [hr] at hr'
      cases hr'
      exact ⟨hregs.symm, htags.symm⟩
    · intro h
      obtain ⟨hregs, htags⟩ := h.function hn hk hfull r hr hp hc
      refine ⟨fun h => absurd h hn, fun _ _ => ⟨hraised, htop, ?_, ?_⟩, fun _ h => absurd hover h⟩
      · rw [htag, Function.update_eq_self_iff]
        exact htags.symm
      · rw [hreg, Function.update_eq_self_iff]
        exact hregs.symm
  | done hn ho g h =>
    refine iff_of_true ⟨fun h => absurd h hn, fun _ h => absurd h ho, fun _ _ => ?_⟩
      ⟨fun h => absurd (.inl h) hn, fun _ h => absurd (.inr h) hn, fun _ hk hfull r hr hp hc =>
        absurd ⟨hfull, .inr ⟨hk, r, hr, hp, hc⟩⟩ ho⟩
    rw [hg]
    exact h

end Instructions

/-! ## FCHS, FADD and FLD -/

/-- A unit of the host that gives zero for everything. -/
def idleUnit : HostUnit where
  constant _ := ⟨0, 0⟩
  widenF32 _ := ⟨0, 0⟩
  widenF64 _ := ⟨0, 0⟩
  narrowF32 _ _ := 0
  narrowF64 _ _ := 0
  arith _ _ _ _ := ⟨0, 0⟩
  fn _ _ _ _ := none

def unnamed (x87 : X87Kind) : X87Insn :=
  ⟨x87, 0, .none, .none, 0, .add, false, false, .o, .sqrt⟩

def freshState : X87State :=
  ⟨⟨⟨fun _ => 0, false, ⟨0, 0, 0, .none, .dword, 0⟩⟩, 0, 0, 0⟩, initialUnit, zeroHost⟩

def holding (f : Fpu) : X87State := { freshState with fpu := f }

/-- FADD with an operand in memory. -/
def addMem : X87Insn := { unnamed .arith with operands := 1, operand0 := .mem 4 }

/-- FLD ST(1). -/
def loadSecond : X87Insn := { unnamed .load with operands := 1, operand0 := .st 1 }

/-- The busy unit after its top was freed. -/
def poppedUnit : Fpu := busyUnit.free 0

/-- The busy unit with no register left. -/
def fullUnit : Fpu := { busyUnit with tag := fun _ => tagValid }

theorem busyUnit_reported :
    (∃ t, (FloatHost.native idleUnit).execute readOnlyBehind (unnamed .changeSign) false 0
        (holding busyUnit) = .ok () t ∧
      Reported (.native idleUnit) (unnamed .changeSign) false (holding busyUnit) t) ∧
    (∃ t, (FloatHost.native idleUnit).execute readOnlyBehind addMem true 0x1100
        (holding poppedUnit) = .ok () t ∧
      Reported (.native idleUnit) addMem true (holding poppedUnit) t) ∧
    ∃ t, (FloatHost.native idleUnit).execute readOnlyBehind loadSecond false 0
        (holding fullUnit) = .ok () t ∧
      Reported (.native idleUnit) loadSecond false (holding fullUnit) t := by
  refine ⟨⟨_, rfl, ?_⟩, ⟨_, rfl, ?_⟩, ⟨_, rfl, ?_⟩⟩
  · refine (stackFaults_reported_iff (.native idleUnit) readOnlyBehind (unnamed .changeSign) false 0
      (holding busyUnit) _ trivial (by simp [X87Insn.WritesStatus, unnamed]) rfl).mpr
        ⟨?_, fun _ => ?_, fun _ hk => nomatch hk⟩
    · rintro ⟨p, hp, hempty⟩
      obtain rfl := List.mem_singleton.mp hp
      exact absurd hempty (by decide)
    · rintro ⟨p, hp, -⟩
      cases hp
  · refine (stackFaults_reported_iff (.native idleUnit) readOnlyBehind addMem true 0x1100
      (holding poppedUnit) _ (.inl rfl) (by simp [X87Insn.WritesStatus, addMem, unnamed]) rfl).mpr
        ⟨?_, fun _ _ => .inl (by decide), fun _ hk => nomatch hk⟩
    rintro ⟨p, hp, -⟩
    cases hp
  · refine (stackFaults_reported_iff (.native idleUnit) readOnlyBehind loadSecond false 0
      (holding fullUnit) _ trivial (by simp [X87Insn.WritesStatus, loadSecond, unnamed]) rfl).mpr
        ⟨?_, fun _ => ?_, fun _ hk => nomatch hk⟩
    · rintro ⟨p, hp, hempty⟩
      obtain rfl := List.mem_singleton.mp hp
      exact absurd hempty (by decide)
    · rintro ⟨p, hp, -⟩
      cases hp

/-- FCHS of an empty register leaves the status word at zero. -/
theorem fchs_unreported :
    (FloatHost.native idleUnit).execute readOnlyBehind (unnamed .changeSign) false 0 freshState =
        .ok () freshState ∧
      ¬ Reported (.native idleUnit) (unnamed .changeSign) false freshState freshState := by
  refine ⟨rfl, fun h => ?_⟩
  have hempty : Underflows (unnamed .changeSign) false freshState :=
    .inl ⟨0, List.mem_singleton_self 0, rfl⟩
  exact absurd (h.underflow hempty).1 (by decide)

end X86Port.X87
