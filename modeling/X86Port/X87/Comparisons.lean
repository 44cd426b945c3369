import X86Port.Cpu.Exec
import X86Port.Cpu.RegParts
import X86Port.X87.Order
import X86Port.X87.StackFaults

/-!
# Comparisons

FCOM in the status word, FCOMI in EFLAGS and FTST against zero are three pieces of code over one
order.

* `statusFlags`: FNSTSW AX and SAHF.
* `compare_found`, `test_found`, `compareFlags_found`: each comparison by the order of its operands.
* `comparisons_agree_iff`: just when they agree; IE is raised by FCOM alone.
-/

namespace X86Port.X87

open Cpu (Flags X86Cpu CpuState regRead regWrite eax eflags eflagsFixed flagsSetExplicit flagCF
  flagPF flagZF arithFlags)
open Lib.Rounding

/-! ## Where a relation is kept -/

def x87Relation : U16 := x87C0 ||| x87C2 ||| x87C3

def flagsRelation : U32 := flagZF ||| flagPF ||| flagCF

/-- C3, C2 and C0 of a relation. -/
def relationBits : Option Ordering → U16
  | none => x87Relation
  | some order => FloatHost.orderBits order

/-- ZF, PF and CF of a relation. -/
def relationFlags : Option Ordering → U32
  | none => flagsRelation
  | some .lt => flagCF
  | some .eq => flagZF
  | some .gt => 0

/-- What FCOM raises. -/
def compareBits (relation : Option Ordering) : U16 :=
  relationBits relation ||| if relation = none then x87Ie else 0

/-- Less and greater turned around. -/
def swapRelation (bits : U16) : U16 :=
  if bits = x87C0 then 0 else if bits = 0 then x87C0 else bits

/-- FNSTSW AX and SAHF. -/
def statusFlags (c : X86Cpu) (f : Fpu) : Flags :=
  let ah := regRead (regWrite c.toCpuState eax .word ((x87Status f).setWidth 32)) eax .word >>> 8
  flagsSetExplicit ((eflags c.flags &&& ~~~0xFF#32) ||| (ah &&& 0xD5) ||| 0x02)

theorem statusFlags_run {m : Memory.Mem} {i : X87Insn} {addr : U32} {s t : X87State} {μ : Type}
    {k : Cpu.Ctx μ} (hi : i.operand0 = .reg eax)
    (hstore : storeStatus m i false addr s = .ok () t) (hk : k.cpu = t.cpu) :
    ∃ k', Cpu.Exec.sahf k = .ok () k' ∧ k'.cpu.flags = statusFlags s.cpu s.fpu := by
  have ht : t.cpu = { s.cpu with toCpuState :=
      (regWrite s.cpu.toCpuState eax .word ((x87Status s.fpu).setWidth 32)) } := by
    unfold storeStatus at hstore
    rw [hi] at hstore
    dsimp only at hstore
    rw [ite_self] at hstore
    cases hstore
    rfl
  obtain ⟨cpu, seg, mem, nextEip⟩ := k
  change cpu = t.cpu at hk
  rw [hk, ht]
  exact ⟨_, rfl, rfl⟩

/-! ## The bits -/

theorem relation_shift (w : U16) :
    w.setWidth 32 >>> 8 &&& flagsRelation = (w &&& x87Relation).setWidth 32 >>> 8 := by
  have hmask : flagsRelation = x87Relation.setWidth 32 >>> 8 := by decide
  rw [hmask, BitVec.setWidth_and, BitVec.ushiftRight_and_distrib]

theorem relation_of_x87Status (f : Fpu) : x87Status f &&& x87Relation = f.status &&& x87Relation := by
  have hmask : x87Relation = ~~~x87TopMask &&& x87Relation := by decide
  rw [hmask, ← BitVec.and_assoc, ← BitVec.and_assoc, x87Status_and_not_mask]

/-- ZF, PF and CF after FNSTSW AX and SAHF are C3, C2 and C0. -/
theorem relation_of_statusFlags (c : X86Cpu) (f : Fpu) :
    eflags (statusFlags c f) &&& flagsRelation = (f.status &&& x87Relation).setWidth 32 >>> 8 := by
  have hread : regRead (regWrite c.toCpuState eax .word ((x87Status f).setWidth 32)) eax .word =
      (x87Status f).setWidth 32 &&& Cpu.widthMask .word := Cpu.regRead_regWrite ..
  have hkeep : (eflags c.flags &&& ~~~0xFF#32) &&& flagsRelation = 0 := by
    rw [BitVec.and_assoc, show ~~~0xFF#32 &&& flagsRelation = 0 by decide]
    exact BitVec.and_zero
  unfold statusFlags
  rw [hread]
  change ((_ ||| _ ||| _) &&& arithFlags ||| eflagsFixed) &&& flagsRelation = _
  rw [or_and_of_disjoint (by decide), BitVec.and_assoc,
    show arithFlags &&& flagsRelation = flagsRelation by decide, or_and_of_disjoint (by decide),
    BitVec.or_comm, or_and_of_disjoint hkeep, BitVec.and_assoc,
    show (0xD5 : U32) &&& flagsRelation = flagsRelation by decide, BitVec.ushiftRight_and_distrib,
    BitVec.and_assoc, show Cpu.widthMask .word >>> 8 &&& flagsRelation = flagsRelation by decide,
    relation_shift, relation_of_x87Status]

theorem relationFlags_eq (relation : Option Ordering) :
    relationFlags relation = (relationBits relation).setWidth 32 >>> 8 := by
  rcases relation with _ | _ | _ | _ <;> decide

theorem relationBits_and (relation : Option Ordering) :
    relationBits relation &&& x87Relation = relationBits relation := by
  rcases relation with _ | _ | _ | _ <;> decide

theorem compareBits_and (relation : Option Ordering) :
    compareBits relation &&& x87Relation = relationBits relation := by
  rcases relation with _ | _ | _ | _ <;> decide

theorem swapRelation_relationBits (relation : Option Ordering) :
    swapRelation (relationBits relation) = relationBits (relation.map Ordering.swap) := by
  rcases relation with _ | _ | _ | _ <;> decide

/-! ## The operations by the order -/

section Found

variable {L : Type} {H : FloatHost L} {number : L → Option Line} {f : Fpu} {p : Fin 8}

theorem raise_zero (f : Fpu) : f.raise 0 = f := by
  change { f with status := f.status ||| 0#16 } = f
  rw [BitVec.or_zero]

theorem raise_raise (f : Fpu) (a b : U16) : (f.raise a).raise b = f.raise (a ||| b) := by
  change { f with status := (f.status ||| a) ||| b } = { f with status := f.status ||| (a ||| b) }
  rw [BitVec.or_assoc]

theorem compare_found (h : ¬ f.Empty 0) (y : L) :
    (H.compare f y).2 =
      (f.lower x87Conditions).raise (compareBits (H.order (H.longOf (f.reg (f.phys 0))) y)) := by
  unfold FloatHost.compare
  rw [get_of_occupied h]
  dsimp only
  cases H.order (H.longOf (f.reg (f.phys 0))) y with
  | none =>
    exact raise_raise _ _ _
  | some order =>
    cases order <;> rfl

theorem compareRegister_found (hp : ¬ f.Empty p) (n : ℕ) :
    H.compareRegister f p n = (H.compare f (H.longOf (f.reg (f.phys p)))).2.pops n := by
  unfold FloatHost.compareRegister
  rw [get_of_occupied hp]

theorem test_found (hH : H.Ordered number) (h : ¬ f.Empty 0) :
    H.test f = (f.lower x87Conditions).raise
      (relationBits (H.order (H.longOf (f.reg (f.phys 0))) H.zero)) := by
  unfold FloatHost.test
  rw [get_of_occupied h]
  dsimp only
  rw [hH.lt, hH.lt, hH.eq, hH.order]
  unfold onNumbers orderOf
  rw [hH.zero]
  cases number (H.longOf (f.reg (f.phys 0))) with
  | none => rfl
  | some a =>
    dsimp only
    rcases lt_trichotomy a (Line.finite 0) with hlt | heq | hgt
    · rw [if_pos (decide_eq_true hlt), (cmp_eq_lt_iff _ _).2 hlt]
      rfl
    · rw [if_neg (by simp [heq]), if_pos (decide_eq_true heq), (cmp_eq_eq_iff _ _).2 heq]
      rfl
    · rw [if_neg (by simpa using hgt.le), if_neg (by simpa using hgt.ne'), if_neg (by simpa using hgt),
        (cmp_eq_gt_iff _ _).2 hgt]
      exact (raise_zero _).symm

theorem compareFlags_found (hH : H.Ordered number) (h : ¬ f.Empty 0) (hp : ¬ f.Empty p)
    (flags : Flags) :
    H.compareFlags f flags p = (true, f.lower x87C1, flagsSetExplicit (eflagsFixed |||
      relationFlags (H.order (H.longOf (f.reg (f.phys 0))) (H.longOf (f.reg (f.phys p)))))) := by
  unfold FloatHost.compareFlags
  rw [get_of_occupied h, get_of_occupied hp]
  dsimp only
  rw [hH.isNan, hH.isNan, hH.lt, hH.eq, hH.order]
  unfold onNumbers orderOf
  cases number (H.longOf (f.reg (f.phys 0))) with
  | none => rfl
  | some a =>
    cases number (H.longOf (f.reg (f.phys p))) with
    | none => rfl
    | some b =>
      dsimp only [Option.isNone]
      rw [if_neg (show ¬ (false || false) = true by decide)]
      rcases lt_trichotomy a b with hlt | heq | hgt
      · rw [if_pos (decide_eq_true hlt), (cmp_eq_lt_iff _ _).2 hlt]
        rfl
      · rw [if_neg (by simp [heq]), if_pos (decide_eq_true heq), (cmp_eq_eq_iff _ _).2 heq]
        rfl
      · rw [if_neg (by simpa using hgt.le), if_neg (by simpa using hgt.ne'),
          (cmp_eq_gt_iff _ _).2 hgt]
        exact congrArg (fun w => (true, f.lower x87C1, flagsSetExplicit w)) BitVec.or_zero.symm

theorem lower_raise_and {a b c bits : U16} (h : ~~~b &&& c = 0) :
    ((a &&& ~~~b) ||| bits) &&& c = bits &&& c := by
  have hlower : (a &&& ~~~b) &&& c = 0 := by
    rw [BitVec.and_assoc, h]
    exact BitVec.and_zero
  rw [BitVec.or_comm, or_and_of_disjoint hlower]

theorem relation_of_compare (h : ¬ f.Empty 0) (y : L) :
    (H.compare f y).2.status &&& x87Relation =
      relationBits (H.order (H.longOf (f.reg (f.phys 0))) y) := by
  rw [compare_found h, Fpu.status_raise, Fpu.status_lower, lower_raise_and (by decide),
    compareBits_and]

theorem relation_of_test (hH : H.Ordered number) (h : ¬ f.Empty 0) :
    (H.test f).status &&& x87Relation =
      relationBits (H.order (H.longOf (f.reg (f.phys 0))) H.zero) := by
  rw [test_found hH h, Fpu.status_raise, Fpu.status_lower, lower_raise_and (by decide),
    relationBits_and]

theorem relation_of_compareFlags (hH : H.Ordered number) (h : ¬ f.Empty 0) (hp : ¬ f.Empty p)
    (flags : Flags) : eflags (H.compareFlags f flags p).2.2 &&& flagsRelation =
      relationFlags (H.order (H.longOf (f.reg (f.phys 0))) (H.longOf (f.reg (f.phys p)))) := by
  rw [compareFlags_found hH h hp]
  dsimp only
  rcases H.order (H.longOf (f.reg (f.phys 0))) (H.longOf (f.reg (f.phys p))) with _ | _ | _ | _ <;>
    decide

theorem swap_order (hH : H.Ordered number) (x y : L) :
    H.order y x = (H.order x y).map Ordering.swap := by
  rw [hH.order, hH.order, orderOf, orderOf]
  cases number x with
  | none => cases number y <;> rfl
  | some a =>
    cases number y with
    | none => rfl
    | some b => exact congrArg some (cmp_swap a b).symm

/-! ## C1 and IE -/

/-- What a comparison leaves of a bit it neither keeps as a condition nor raises with one. -/
theorem ie_of_compare (h : ¬ f.Empty 0) (y : L) :
    (H.compare f y).2.status &&& x87Ie = f.status &&& x87Ie |||
      if H.order (H.longOf (f.reg (f.phys 0))) y = none then x87Ie else 0 := by
  have hbits : compareBits (H.order (H.longOf (f.reg (f.phys 0))) y) &&& x87Ie =
      if H.order (H.longOf (f.reg (f.phys 0))) y = none then x87Ie else 0 := by
    rcases H.order (H.longOf (f.reg (f.phys 0))) y with _ | _ | _ | _ <;> decide
  rw [compare_found h, Fpu.status_raise, Fpu.status_lower, BitVec.and_or_distrib_right, hbits,
    and_not_and_of_disjoint (by decide)]

theorem ie_of_test (hH : H.Ordered number) (h : ¬ f.Empty 0) :
    (H.test f).status &&& x87Ie = f.status &&& x87Ie := by
  have hbits : relationBits (H.order (H.longOf (f.reg (f.phys 0))) H.zero) &&& x87Ie = 0 := by
    rcases H.order (H.longOf (f.reg (f.phys 0))) H.zero with _ | _ | _ | _ <;> decide
  rw [test_found hH h, Fpu.status_raise, Fpu.status_lower, or_and_of_disjoint hbits,
    and_not_and_of_disjoint (by decide)]

theorem ie_of_compareFlags (hH : H.Ordered number) (h : ¬ f.Empty 0) (hp : ¬ f.Empty p)
    (flags : Flags) :
    (H.compareFlags f flags p).2.1.status &&& x87Ie = f.status &&& x87Ie := by
  rw [compareFlags_found hH h hp, Fpu.status_lower, and_not_and_of_disjoint (by decide)]

theorem c1_of_compare (h : ¬ f.Empty 0) (y : L) : (H.compare f y).2.status &&& x87C1 = 0 := by
  rw [compare_found h, Fpu.status_raise, Fpu.status_lower, lower_raise_and (by decide)]
  rcases H.order (H.longOf (f.reg (f.phys 0))) y with _ | _ | _ | _ <;> decide

theorem c1_of_test (hH : H.Ordered number) (h : ¬ f.Empty 0) : (H.test f).status &&& x87C1 = 0 := by
  rw [test_found hH h, Fpu.status_raise, Fpu.status_lower, lower_raise_and (by decide)]
  rcases H.order (H.longOf (f.reg (f.phys 0))) H.zero with _ | _ | _ | _ <;> decide

theorem c1_of_compareFlags (hH : H.Ordered number) (h : ¬ f.Empty 0) (hp : ¬ f.Empty p)
    (flags : Flags) : (H.compareFlags f flags p).2.1.status &&& x87C1 = 0 := by
  rw [compareFlags_found hH h hp, Fpu.status_lower, and_not_and_self]

/-- IE is as it was just where it was set already or nothing raises it. -/
theorem ie_same_iff (a : U16) (relation : Option Ordering) :
    (a &&& x87Ie ||| if relation = none then x87Ie else 0) = a &&& x87Ie ↔
      a &&& x87Ie ≠ 0 ∨ relation ≠ none := by
  have hbit : a &&& x87Ie = if a.getLsbD 0 then x87Ie else 0 := BitVec.and_twoPow a 0
  rw [hbit]
  cases a.getLsbD 0 <;> rcases relation with _ | _ | _ | _ <;> decide

theorem order_ne_none_iff (hH : H.Ordered number) (x y : L) :
    H.order x y ≠ none ↔ (number x).isSome ∧ (number y).isSome := by
  rw [hH.order, orderOf]
  cases number x with
  | none => simp
  | some a =>
    cases number y with
    | none => simp
    | some b => exact iff_of_true (Option.some_ne_none _) ⟨rfl, rfl⟩

end Found

/-! ## The agreement -/

/-- The first registers of the stack are occupied. -/
def Fpu.Holds (f : Fpu) (n : ℕ) : Prop := n ≤ 8 ∧ ∀ j : Fin 8, j.val < n → ¬ f.Empty j

/-- The comparisons of `ST(0)` with `ST(p)`, with values in memory and with zero. -/
structure ComparisonsAgree {L : Type} (H : FloatHost L) (number : L → Option Line) (c : X86Cpu)
    (f : Fpu) (p : Fin 8) : Prop where
  flags : ∀ n n', f.Holds n → f.Holds n' →
    eflags (statusFlags c (H.compareRegister f p n)) &&& flagsRelation =
      eflags (H.compareFlagsPop f c.flags p n').2 &&& flagsRelation
  memory : ∀ n value, number value = number (H.longOf (f.reg (f.phys p))) →
    (H.compare f value).2.pops n = H.compareRegister f p n
  zero : (H.test f).status &&& x87Relation = (H.compare f H.zero).2.status &&& x87Relation
  clear : ∀ n value, f.Holds n → (H.compareRegister f p n).status &&& x87C1 = 0 ∧
    ((H.compare f value).2.pops n).status &&& x87C1 = 0 ∧
    (H.compareFlagsPop f c.flags p n).1.status &&& x87C1 = 0 ∧ (H.test f).status &&& x87C1 = 0
  invalid : ∀ n n', f.Holds n → f.Holds n' →
    (H.compareRegister f p n).status &&& x87Ie =
      (H.compareFlagsPop f c.flags p n').1.status &&& x87Ie ∧
    (H.compare f H.zero).2.status &&& x87Ie = (H.test f).status &&& x87Ie
  pops : ∀ n value, f.Holds n → Fpu.Popped n f (H.compareRegister f p n) ∧
    Fpu.Popped n f ((H.compare f value).2.pops n) ∧
    Fpu.Popped n f (H.compareFlagsPop f c.flags p n).1 ∧ Fpu.Popped 0 f (H.test f)
  swap : ∀ g : Fpu, ¬ g.Empty 0 →
    (H.compare g (H.longOf (f.reg (f.phys 0)))).2.status &&& x87Relation =
      swapRelation ((H.compare f (H.longOf (g.reg (g.phys 0)))).2.status &&& x87Relation)

section Agree

variable {L : Type} {H : FloatHost L} {number : L → Option Line} {f g : Fpu} {p : Fin 8} {n : ℕ}

/-- The pops of an operation that only changed the status. -/
theorem popped_of_status (hreg : g.reg = f.reg) (htag : g.tag = f.tag) (htop : g.top = f.top)
    (h : f.Holds n) : Fpu.Popped n f (g.pops n) ∧ (g.pops n).status = g.status := by
  have hphys : g.phys = f.phys := funext fun i => Fpu.phys_of_top htop i
  have hocc (j : Fin 8) (hj : j.val < n) : ¬ g.Empty j := by
    rw [Fpu.Empty, htag, hphys]
    exact h.2 j hj
  have hpop := Fpu.popped_pops h.1 hocc
  refine ⟨⟨hpop.reg.trans hreg, by rw [hpop.top, htop], fun q => ?_⟩,
    Fpu.status_pops_of_occupied h.1 hocc⟩
  rw [hpop.tag, htag, hphys]

theorem compare_pops (h0 : ¬ f.Empty 0) (y : L) (h : f.Holds n) :
    Fpu.Popped n f ((H.compare f y).2.pops n) ∧
      ((H.compare f y).2.pops n).status = (H.compare f y).2.status :=
  popped_of_status (by rw [compare_found h0, Fpu.reg_raise, Fpu.reg_lower])
    (by rw [compare_found h0, Fpu.tag_raise, Fpu.tag_lower])
    (by rw [compare_found h0, Fpu.top_raise, Fpu.top_lower]) h

theorem compareFlags_pops (hH : H.Ordered number) (h0 : ¬ f.Empty 0) (hp : ¬ f.Empty p)
    (flags : Flags) (h : f.Holds n) :
    Fpu.Popped n f (H.compareFlagsPop f flags p n).1 ∧
      (H.compareFlagsPop f flags p n).1.status = (H.compareFlags f flags p).2.1.status ∧
      (H.compareFlagsPop f flags p n).2 = (H.compareFlags f flags p).2.2 := by
  have hpop := popped_of_status (f := f) (g := f.lower x87C1) rfl rfl rfl h
  unfold FloatHost.compareFlagsPop
  rw [compareFlags_found hH h0 hp]
  exact ⟨hpop.1, hpop.2, rfl⟩

/-- The comparisons of a storage agree just where IE was set already or the operands are
ordered. -/
theorem comparisons_agree_iff (storage : Storage L H) (c : X86Cpu) (h0 : ¬ f.Empty 0)
    (hp : ¬ f.Empty p) :
    ComparisonsAgree H storage.number c f p ↔ f.status &&& x87Ie ≠ 0 ∨
      (storage.number (H.longOf (f.reg (f.phys 0)))).isSome ∧
        (storage.number (H.longOf (f.reg (f.phys p)))).isSome := by
  have hH := storage.ordered
  have hzero : f.Holds 0 := ⟨Nat.zero_le _, fun j hj => absurd hj (Nat.not_lt_zero _)⟩
  have hregister (n : ℕ) (h : f.Holds n) : (H.compareRegister f p n).status =
      (H.compare f (H.longOf (f.reg (f.phys p)))).2.status := by
    rw [compareRegister_found hp, (compare_pops h0 _ h).2]
  constructor
  · intro h
    have hinvalid := (h.invalid 0 0 hzero hzero).1
    rw [hregister 0 hzero, (compareFlags_pops hH h0 hp c.flags hzero).2.1, ie_of_compare h0,
      ie_of_compareFlags hH h0 hp, ie_same_iff, order_ne_none_iff hH] at hinvalid
    exact hinvalid
  · intro h
    constructor
    case flags =>
      intro n n' hn hn'
      rw [relation_of_statusFlags, hregister n hn, relation_of_compare h0,
        (compareFlags_pops hH h0 hp c.flags hn').2.2, relation_of_compareFlags hH h0 hp,
        relationFlags_eq]
    case memory =>
      intro n value hvalue
      rw [compareRegister_found hp, compare_found h0, compare_found h0, hH.order, hH.order, orderOf,
        orderOf, hvalue]
    case zero => rw [relation_of_test hH h0, relation_of_compare h0]
    case clear =>
      intro n value hn
      rw [hregister n hn, (compare_pops h0 value hn).2,
        (compareFlags_pops hH h0 hp c.flags hn).2.1]
      exact ⟨c1_of_compare h0 _, c1_of_compare h0 _, c1_of_compareFlags hH h0 hp _,
        c1_of_test hH h0⟩
    case invalid =>
      intro n n' hn hn'
      rw [hregister n hn, (compareFlags_pops hH h0 hp c.flags hn').2.1, ie_of_compare h0,
        ie_of_compareFlags hH h0 hp, ie_same_iff, order_ne_none_iff hH, ie_of_compare h0,
        ie_of_test hH h0, ie_same_iff, order_ne_none_iff hH, hH.zero]
      exact ⟨h, h.imp_right fun hboth => ⟨hboth.1, rfl⟩⟩
    case pops =>
      intro n value hn
      rw [compareRegister_found hp]
      refine ⟨(compare_pops h0 _ hn).1, (compare_pops h0 value hn).1,
        (compareFlags_pops hH h0 hp c.flags hn).1, ?_⟩
      rw [test_found hH h0]
      exact (popped_of_status (f := f) (g := (f.lower x87Conditions).raise _) rfl rfl rfl hzero).1
    case swap =>
      intro g hg
      rw [relation_of_compare hg, relation_of_compare h0, swapRelation_relationBits,
        swap_order hH]

end Agree

/-! ## Two numbers, and a NaN against itself -/

/-- A unit with minus three above one. -/
def twoNumbers : Fpu :=
  (initialUnit.write 1 ⟨0x8000000000000000, 0x3FFF⟩).write 0 ⟨0xC000000000000000, 0xC000⟩

theorem twoNumbers_agree :
    ComparisonsAgree (.native idleUnit) Ext80.number freshState.cpu twoNumbers 1 :=
  (comparisons_agree_iff (.native idleUnit) freshState.cpu (f := twoNumbers) (p := 1) (by decide)
    (by decide)).mpr (.inr ⟨by decide, by decide⟩)

/-- A unit with a quiet NaN in `ST(0)`. -/
def nanUnit : Fpu := initialUnit.write 0 ⟨0xC000000000000000, 0x7FFF⟩

/-- FCOM raises IE for the NaN, FCOMI does not. -/
theorem nanUnit_disagrees :
    ¬ nanUnit.Empty 0 ∧
      ¬ ComparisonsAgree (.native idleUnit) Ext80.number freshState.cpu nanUnit 0 := by
  refine ⟨by decide, fun h => ?_⟩
  have hzero : nanUnit.Holds 0 := ⟨Nat.zero_le _, fun j hj => absurd hj (Nat.not_lt_zero _)⟩
  have hinvalid := (h.invalid 0 0 hzero hzero).1
  revert hinvalid
  decide

end X86Port.X87
