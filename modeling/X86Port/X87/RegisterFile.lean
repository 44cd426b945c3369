import Mathlib.Logic.Function.Basic
import X86Port.X87.State

/-!
# The register file by position

`x87_stack.h`: `ST(i)` is `i` registers after the one TOP names, and every access goes by that
sum.

* `read_of_occupied`, `read_of_empty`: a read says whether the position is occupied.
* `pops_reg`, `pops_of_occupied`: pops change no contents, and raise nothing on a full stack.
* `pops_of_empty`: a run of pops that meets an empty register leaves an underflow.
-/

namespace X86Port.X87

/-! ## Status bits -/

def x87Ie : U16 := 0x0001#16
def x87De : U16 := 0x0002#16
def x87Ze : U16 := 0x0004#16
def x87Oe : U16 := 0x0008#16
def x87Ue : U16 := 0x0010#16
def x87Pe : U16 := 0x0020#16
def x87Sf : U16 := 0x0040#16
def x87Es : U16 := 0x0080#16
def x87C0 : U16 := 0x0100#16
def x87C1 : U16 := 0x0200#16
def x87C2 : U16 := 0x0400#16
def x87C3 : U16 := 0x4000#16
def x87B : U16 := 0x8000#16

/-- The four condition bits. -/
def x87Conditions : U16 := x87C0 ||| x87C1 ||| x87C2 ||| x87C3

/-- The six exceptions. -/
def x87Exceptions : U16 := x87Ie ||| x87De ||| x87Ze ||| x87Oe ||| x87Ue ||| x87Pe

def x87FnclexMask : U16 := x87B ||| x87Es ||| x87Sf ||| x87Exceptions

/-- The status an invalid stack operation leaves, without C1. -/
def x87StackFault : U16 := x87Ie ||| x87Sf

namespace Fpu

/-! ## The file -/

/-- The register at a position. -/
def phys (f : Fpu) (i : Fin 8) : Fin 8 := ⟨(f.top.toNat + i.val) % 8, Nat.mod_lt _ (by decide)⟩

/-- The register that a push goes to. -/
def above (f : Fpu) : Fin 8 := ⟨(f.top.toNat + 7) % 8, Nat.mod_lt _ (by decide)⟩

def Empty (f : Fpu) (i : Fin 8) : Prop := f.tag (f.phys i) = tagEmpty

instance (f : Fpu) (i : Fin 8) : Decidable (f.Empty i) := inferInstanceAs (Decidable (_ = _))

/-- A position that is out of range is not a value of the index here. -/
def read (f : Fpu) (i : Fin 8) : Option Ext80 :=
  if f.tag (f.phys i) = tagEmpty then none else some (f.reg (f.phys i))

def raise (f : Fpu) (bits : U16) : Fpu := { f with status := f.status ||| bits }

def lower (f : Fpu) (bits : U16) : Fpu := { f with status := f.status &&& ~~~bits }

def storeSlot (f : Fpu) (p : Fin 8) (v : Ext80) : Fpu :=
  { f with reg := Function.update f.reg p v, tag := Function.update f.tag p tagValid }

def freeSlot (f : Fpu) (p : Fin 8) : Fpu := { f with tag := Function.update f.tag p tagEmpty }

def withTop (f : Fpu) (p : Fin 8) : Fpu where
  reg := f.reg
  tag := f.tag
  top := BitVec.ofNat 8 p.val
  control := f.control
  status := f.status
  doubleArith := f.doubleArith
  opCensus := f.opCensus
  top_lt := by
    rw [BitVec.toNat_ofNat]
    exact lt_of_le_of_lt (Nat.mod_le _ _) p.isLt

def write (f : Fpu) (i : Fin 8) (v : Ext80) : Fpu := f.storeSlot (f.phys i) v

/-- The first component is what the call returns. -/
def pushValue (f : Fpu) (v : Ext80) : Bool × Fpu :=
  if f.tag f.above ≠ tagEmpty then (false, f.raise (x87Ie ||| x87Sf ||| x87C1))
  else (true, (f.withTop f.above).storeSlot f.above v)

def popValue (f : Fpu) : Option Ext80 × Fpu :=
  if f.tag (f.phys 0) = tagEmpty then (none, (f.raise x87StackFault).lower x87C1)
  else (some (f.reg (f.phys 0)), (f.freeSlot (f.phys 0)).withTop (f.phys 1))

/-- `do_pops`: the values are discarded. -/
def pops : ℕ → Fpu → Fpu
  | 0, f => f
  | n + 1, f => pops n f.popValue.2

def free (f : Fpu) (i : Fin 8) : Fpu := f.freeSlot (f.phys i)

def clearExceptions (f : Fpu) : Fpu := f.lower x87FnclexMask

/-! ## What an access reads -/

section Access

variable {f : Fpu} {i : Fin 8}

theorem read_of_empty (h : f.Empty i) : f.read i = none := if_pos h

theorem read_of_occupied (h : ¬ f.Empty i) : f.read i = some (f.reg (f.phys i)) := if_neg h

theorem read_eq_none_iff : f.read i = none ↔ f.Empty i := by
  constructor
  · intro h
    by_contra hne
    rw [read_of_occupied hne] at h
    cases h
  · exact read_of_empty

theorem toNat_withTop (f : Fpu) (p : Fin 8) : (f.withTop p).top.toNat = p.val := by
  change (BitVec.ofNat 8 p.val).toNat = p.val
  rw [BitVec.toNat_ofNat, Nat.mod_eq_of_lt (Nat.lt_trans p.isLt (by decide))]

theorem phys_withTop (f : Fpu) (p i : Fin 8) : (f.withTop p).phys i = p + i := by
  apply Fin.ext
  change ((f.withTop p).top.toNat + i.val) % 8 = _
  rw [toNat_withTop, Fin.val_add]

theorem phys_add (f : Fpu) (i j : Fin 8) : f.phys (i + j) = f.phys i + j := by
  apply Fin.ext
  rw [Fin.val_add]
  change (f.top.toNat + (i + j).val) % 8 = ((f.top.toNat + i.val) % 8 + j.val) % 8
  rw [Fin.val_add]
  omega

theorem phys_injective (f : Fpu) : Function.Injective f.phys := by
  intro i j h
  have hval := congrArg Fin.val h
  change (f.top.toNat + i.val) % 8 = (f.top.toNat + j.val) % 8 at hval
  apply Fin.ext
  have := i.isLt
  have := j.isLt
  omega

end Access

/-! ## Fields that an update leaves alone -/

@[simp] theorem phys_raise (f : Fpu) (bits : U16) : (f.raise bits).phys = f.phys := rfl
@[simp] theorem phys_lower (f : Fpu) (bits : U16) : (f.lower bits).phys = f.phys := rfl
@[simp] theorem phys_storeSlot (f : Fpu) (p : Fin 8) (v : Ext80) :
    (f.storeSlot p v).phys = f.phys := rfl
@[simp] theorem phys_write (f : Fpu) (i : Fin 8) (v : Ext80) : (f.write i v).phys = f.phys := rfl
@[simp] theorem above_raise (f : Fpu) (bits : U16) : (f.raise bits).above = f.above := rfl
@[simp] theorem above_lower (f : Fpu) (bits : U16) : (f.lower bits).above = f.above := rfl
@[simp] theorem above_write (f : Fpu) (i : Fin 8) (v : Ext80) : (f.write i v).above = f.above := rfl
@[simp] theorem reg_raise (f : Fpu) (bits : U16) : (f.raise bits).reg = f.reg := rfl
@[simp] theorem reg_lower (f : Fpu) (bits : U16) : (f.lower bits).reg = f.reg := rfl
@[simp] theorem tag_raise (f : Fpu) (bits : U16) : (f.raise bits).tag = f.tag := rfl
@[simp] theorem tag_lower (f : Fpu) (bits : U16) : (f.lower bits).tag = f.tag := rfl
@[simp] theorem top_raise (f : Fpu) (bits : U16) : (f.raise bits).top = f.top := rfl
@[simp] theorem top_lower (f : Fpu) (bits : U16) : (f.lower bits).top = f.top := rfl
@[simp] theorem status_raise (f : Fpu) (bits : U16) :
    (f.raise bits).status = f.status ||| bits := rfl
@[simp] theorem status_lower (f : Fpu) (bits : U16) :
    (f.lower bits).status = f.status &&& ~~~bits := rfl
@[simp] theorem status_write (f : Fpu) (i : Fin 8) (v : Ext80) :
    (f.write i v).status = f.status := rfl
@[simp] theorem top_write (f : Fpu) (i : Fin 8) (v : Ext80) : (f.write i v).top = f.top := rfl

/-- A write leaves its own position occupied, and no other one changed. -/
theorem empty_write (f : Fpu) (i j : Fin 8) (v : Ext80) :
    (f.write i v).Empty j ↔ j ≠ i ∧ f.Empty j := by
  change Function.update f.tag (f.phys i) tagValid (f.phys j) = tagEmpty ↔ _
  by_cases hij : j = i
  · rw [hij, Function.update_self]
    exact iff_of_false (by decide) (fun h => h.1 rfl)
  · rw [Function.update_of_ne (fun h => hij (f.phys_injective h))]
    exact ⟨fun h => ⟨hij, h⟩, fun h => h.2⟩

theorem above_of_top {f g : Fpu} (h : f.top = g.top) : f.above = g.above :=
  Fin.ext (congrArg (fun top : U8 => (top.toNat + 7) % 8) h)

theorem phys_of_top {f g : Fpu} (h : f.top = g.top) (i : Fin 8) : f.phys i = g.phys i :=
  Fin.ext (congrArg (fun top : U8 => (top.toNat + i.val) % 8) h)

theorem above_ne_phys_zero (f : Fpu) : f.above ≠ f.phys 0 := by
  intro h
  have hval : (f.top.toNat + 7) % 8 = (f.top.toNat + 0) % 8 := congrArg Fin.val h
  omega

theorem tag_write_of_ne (f : Fpu) {i p : Fin 8} (h : p ≠ f.phys i) (v : Ext80) :
    (f.write i v).tag p = f.tag p := Function.update_of_ne h _ _

theorem reg_write_self (f : Fpu) (i : Fin 8) (v : Ext80) : (f.write i v).reg (f.phys i) = v :=
  Function.update_self _ _ _

theorem reg_write_of_ne (f : Fpu) {i : Fin 8} {p : Fin 8} (h : p ≠ f.phys i) (v : Ext80) :
    (f.write i v).reg p = f.reg p := Function.update_of_ne h _ _

/-! ## Pops -/

theorem popValue_of_empty {f : Fpu} (h : f.Empty 0) :
    f.popValue = (none, (f.raise x87StackFault).lower x87C1) := if_pos h

theorem popValue_of_occupied {f : Fpu} (h : ¬ f.Empty 0) :
    f.popValue = (some (f.reg (f.phys 0)), (f.freeSlot (f.phys 0)).withTop (f.phys 1)) := if_neg h

theorem reg_popValue (f : Fpu) : f.popValue.2.reg = f.reg := by
  unfold popValue
  split_ifs <;> rfl

theorem reg_pops (n : ℕ) (f : Fpu) : (pops n f).reg = f.reg := by
  induction n generalizing f with
  | zero => rfl
  | succ n ih => rw [pops, ih, reg_popValue]

/-- A pop frees its register, and the position after it becomes the top. -/
theorem empty_popValue {f : Fpu} (h : ¬ f.Empty 0) (j : Fin 8) :
    f.popValue.2.Empty j ↔ 1 + j = 0 ∨ f.Empty (1 + j) := by
  have hphys : ((f.freeSlot (f.phys 0)).withTop (f.phys 1)).phys j = f.phys (1 + j) := by
    rw [phys_withTop, phys_add]
  rw [popValue_of_occupied h]
  change Function.update f.tag (f.phys 0) tagEmpty
    (((f.freeSlot (f.phys 0)).withTop (f.phys 1)).phys j) = tagEmpty ↔ _
  rw [hphys]
  by_cases hzero : 1 + j = 0
  · rw [hzero, Function.update_self]
    exact iff_of_true rfl (.inl rfl)
  · rw [Function.update_of_ne fun heq => hzero (f.phys_injective heq)]
    exact ⟨.inr, fun h => h.resolve_left hzero⟩

theorem val_one_add {j : Fin 8} {n : ℕ} (hn : n + 1 ≤ 8) (hj : j.val < n) :
    (1 + j : Fin 8).val = j.val + 1 := by
  rw [Fin.val_add, Fin.val_one, Nat.mod_eq_of_lt (by omega), Nat.add_comm]

/-- After a pop the rest of the occupied registers are the first ones. -/
theorem occupied_popValue {n : ℕ} (hn : n + 1 ≤ 8) {f : Fpu}
    (h : ∀ j : Fin 8, j.val < n + 1 → ¬ f.Empty j) (j : Fin 8) (hj : j.val < n) :
    ¬ f.popValue.2.Empty j := by
  intro hempty
  rcases (empty_popValue (h 0 (Nat.succ_pos n)) j).1 hempty with hzero | hnext
  · have := congrArg Fin.val hzero
    rw [val_one_add hn hj] at this
    exact absurd this (Nat.succ_ne_zero _)
  · exact h (1 + j) (by rw [val_one_add hn hj]; omega) hnext

theorem status_pops_of_occupied {n : ℕ} (hn : n ≤ 8) {f : Fpu}
    (h : ∀ j : Fin 8, j.val < n → ¬ f.Empty j) : (pops n f).status = f.status := by
  induction n generalizing f with
  | zero => rfl
  | succ n ih =>
    rw [pops, ih (by omega) (occupied_popValue hn h), popValue_of_occupied (h 0 (Nat.succ_pos n))]
    rfl

/-- `g` is `f` with its first registers freed and the one after them at the top. -/
structure Popped (n : ℕ) (f g : Fpu) : Prop where
  reg : g.reg = f.reg
  top : g.top.toNat = (f.top.toNat + n) % 8
  tag : ∀ q, g.tag q = if ∃ j : Fin 8, j.val < n ∧ q = f.phys j then tagEmpty else f.tag q

theorem popped_pops {n : ℕ} (hn : n ≤ 8) {f : Fpu} (h : ∀ j : Fin 8, j.val < n → ¬ f.Empty j) :
    Popped n f (pops n f) := by
  refine ⟨reg_pops n f, ?_, ?_⟩
  · induction n generalizing f with
    | zero =>
      have := f.top_lt
      rw [pops]
      omega
    | succ n ih =>
      have htop : f.popValue.2.top.toNat = (f.top.toNat + 1) % 8 := by
        rw [popValue_of_occupied (h 0 (Nat.succ_pos n)), toNat_withTop]
        rfl
      rw [pops, ih (by omega) (occupied_popValue hn h), htop]
      omega
  · induction n generalizing f with
    | zero =>
      intro q
      rw [if_neg]
      · rfl
      · rintro ⟨j, hj, -⟩
        exact absurd hj (Nat.not_lt_zero _)
    | succ n ih =>
      intro q
      have hocc := h 0 (Nat.succ_pos n)
      have hphys (j : Fin 8) : f.popValue.2.phys j = f.phys (1 + j) := by
        rw [popValue_of_occupied hocc, phys_withTop, phys_add]
      have htag : f.popValue.2.tag q = if q = f.phys 0 then tagEmpty else f.tag q := by
        rw [popValue_of_occupied hocc]
        exact Function.update_apply ..
      rw [pops, ih (by omega) (occupied_popValue hn h), htag, ← ite_or]
      congr 1
      refine propext ⟨?_, ?_⟩
      · rintro (⟨j, hj, rfl⟩ | rfl)
        · exact ⟨1 + j, by rw [val_one_add hn hj]; omega, hphys j⟩
        · exact ⟨0, Nat.succ_pos n, rfl⟩
      · rintro ⟨j, hj, rfl⟩
        by_cases hzero : j = 0
        · exact .inr (congrArg f.phys hzero)
        · have hval : j.val ≠ 0 := fun h => hzero (Fin.ext h)
          refine .inl ⟨⟨j.val - 1, by omega⟩, by dsimp only; omega, ?_⟩
          rw [hphys]
          congr 1
          apply Fin.ext
          rw [val_one_add hn (by dsimp only; omega)]
          dsimp only
          omega

/-- A pop that found nothing finds nothing again. -/
theorem pops_of_empty {n : ℕ} (hn : n ≠ 0) {f : Fpu} (h : f.Empty 0) :
    pops n f = (f.raise x87StackFault).lower x87C1 := by
  induction n generalizing f with
  | zero => exact absurd rfl hn
  | succ n ih =>
    rw [pops, popValue_of_empty h]
    by_cases hlast : n = 0
    · rw [hlast]
      rfl
    · have hagain : (((f.raise x87StackFault).lower x87C1).raise x87StackFault).lower x87C1 =
          (f.raise x87StackFault).lower x87C1 := by
        unfold raise lower
        congr 1
        apply BitVec.eq_of_getLsbD_eq
        intro i hi
        simp only [BitVec.getLsbD_and, BitVec.getLsbD_or, BitVec.getLsbD_not]
        cases f.status.getLsbD i <;> cases x87StackFault.getLsbD i <;>
          cases x87C1.getLsbD i <;> simp
      rw [ih hlast (f := (f.raise x87StackFault).lower x87C1) h, hagain]

end Fpu

end X86Port.X87
