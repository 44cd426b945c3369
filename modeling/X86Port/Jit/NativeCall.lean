import X86Port.Jit.LeafCall
import X86Port.Lib.JumpCode

/-!
# Native hosts at a CALL

The registers, flags and heap that the code of a CALL runs on where blocks are machine code, and
what the loads, stores, calls and shared routines of that code do, over the registers of any host.
A routine or a function called leaves anything in the registers and the flags it may write.

* `load32_eip` … `loadPtr_leaf`: the accesses to the guest CPU's EIP and to a site.
* `callThrough_leaf`, `callThrough_fill`: the two calls.
-/

namespace X86Port.Jit

open Lib.JumpCode (Reached)

/-- Which registers a backend gives to the guest CPU, the target, the arguments and the result of
a call and the value of a push, and which ones a called function, the read of an operand and a
push keep. -/
structure NativeAbi (R : Type) where
  cpu : R
  target : R
  arg₀ : R
  arg₁ : R
  result : R
  pushed : R
  calleeKeeps : R → Bool
  readKeeps : R → Bool
  pushKeeps : R → Bool

structure NativeState (R γ : Type) (capacity : Nat) where
  reg : R → U64
  zf : Bool
  cf : Bool
  heap : CallHeap γ 64 capacity

namespace NativeState

variable {R γ : Type} {capacity : Nat} (s : NativeState R γ capacity)

def withHeap (h : CallHeap γ 64 capacity) : NativeState R γ capacity := { s with heap := h }

def flags (zf cf : Bool) : NativeState R γ capacity := { s with zf := zf, cf := cf }

def addr (base : R) (disp : Nat) : Nat := (s.reg base + BitVec.ofNat 64 disp).toNat

@[simp] theorem withHeap_reg (h : CallHeap γ 64 capacity) : (s.withHeap h).reg = s.reg := rfl

@[simp] theorem flags_reg (zf cf : Bool) : (s.flags zf cf).reg = s.reg := rfl

@[simp] theorem flags_heap (zf cf : Bool) : (s.flags zf cf).heap = s.heap := rfl

def low (r : R) : U32 := (s.reg r).setWidth 32

variable [DecidableEq R]

def set (r : R) (v : U64) : NativeState R γ capacity := { s with reg := Function.update s.reg r v }

def setLow (r : R) (v : U32) : NativeState R γ capacity := s.set r (v.setWidth 64)

/-- The result of a function that answers an `int`, under what it leaves above. -/
def setInt (r : R) (high v : U32) : NativeState R γ capacity := s.set r (high ++ v)

@[simp] theorem set_heap (r : R) (v : U64) : (s.set r v).heap = s.heap := rfl

@[simp] theorem setLow_heap (r : R) (v : U32) : (s.setLow r v).heap = s.heap := rfl

@[simp] theorem set_self (r : R) (v : U64) : (s.set r v).reg r = v := Function.update_self _ _ _

theorem set_ne {r r' : R} (h : r' ≠ r) (v : U64) : (s.set r v).reg r' = s.reg r' :=
  Function.update_of_ne h _ _

theorem setLow_ne {r r' : R} (h : r' ≠ r) (v : U32) : (s.setLow r v).reg r' = s.reg r' :=
  Function.update_of_ne h _ _

theorem low_set_ne {r r' : R} (h : r' ≠ r) (v : U64) : (s.set r v).low r' = s.low r' := by
  rw [low, set_ne s h, low]

theorem low_setLow_ne {r r' : R} (h : r' ≠ r) (v : U32) : (s.setLow r v).low r' = s.low r' :=
  s.low_set_ne h _

@[simp] theorem low_setLow (r : R) (v : U32) : (s.setLow r v).low r = v := by
  rw [low, setLow, set_self, BitVec.setWidth_setWidth_of_le v (by decide), BitVec.setWidth_eq]

@[simp] theorem low_setInt (r : R) (high v : U32) : (s.setInt r high v).low r = v := by
  rewrite [low, setInt, set_self, BitVec.setWidth_append, dif_pos (by decide)]
  rfl

end NativeState

/-- What is left in registers and flags that may be written. -/
structure Leftover (R γ : Type) (capacity : Nat) where
  reg : NativeState R γ capacity → R → U64
  zf : NativeState R γ capacity → Bool
  cf : NativeState R γ capacity → Bool

def Leftover.after {R γ : Type} {capacity : Nat} (left : Leftover R γ capacity)
    (keeps : R → Bool) (s : NativeState R γ capacity) (h : CallHeap γ 64 capacity) :
    NativeState R γ capacity where
  reg r := if keeps r then s.reg r else left.reg s r
  zf := left.zf s
  cf := left.cf s
  heap := h

/-- What the code of a CALL runs in: the consumer, the addresses, the CALL's operand, and what
may be left behind. -/
structure NativeEnv (R γ : Type) (capacity : Nat) where
  host : LeafHost γ 64
  home : SiteHome 64 capacity
  callee : γ → Option U32
  left : Leftover R γ capacity

section

variable {R γ : Type} [DecidableEq R] {capacity : Nat} (A : NativeAbi R)
  (E : NativeEnv R γ capacity)

namespace NativeEnv

def load32 (dst base : R) (disp : Nat) (s : NativeState R γ capacity) :
    Reached (NativeState R γ capacity) (Left γ 64 capacity) :=
  match E.home.load32 s.heap (s.addr base disp) with
  | some v => .next (s.setLow dst v)
  | none => .trap

def loadPtr (dst base : R) (disp : Nat) (s : NativeState R γ capacity) :
    Reached (NativeState R γ capacity) (Left γ 64 capacity) :=
  match E.home.loadPtr s.heap (s.addr base disp) with
  | some v => .next (s.set dst v)
  | none => .trap

def store32 (base : R) (disp : Nat) (v : U32) (s : NativeState R γ capacity) :
    Reached (NativeState R γ capacity) (Left γ 64 capacity) :=
  match E.home.store32 s.heap (s.addr base disp) v with
  | some h => .next (s.withHeap h)
  | none => .trap

/-- A call through a register: of a leaf on the guest CPU, or of the fill function on a site. -/
def callThrough (r : R) (s : NativeState R γ capacity) :
    Reached (NativeState R γ capacity) (Left γ 64 capacity) :=
  if s.reg A.arg₀ = E.home.cpu then
    let called := s.heap.callLeaf E.host (s.reg r)
    .next ((E.left.after A.calleeKeeps s called.2).setInt A.result
      ((E.left.reg s A.result >>> 32).setWidth 32) called.1)
  else if s.reg r = E.home.fill then
    match E.home.siteAt (s.reg A.arg₀) with
    | some i =>
      let filled := s.heap.fill E.host i (s.low A.arg₁)
      .next ((E.left.after A.calleeKeeps s filled.2).set A.result filled.1)
    | none => .trap
  else .trap

/-- The read of the CALL's operand into the target register. -/
def readTarget (s : NativeState R γ capacity) :
    Reached (NativeState R γ capacity) (Left γ 64 capacity) :=
  match E.callee s.heap.guest.rest with
  | some target => .next ((E.left.after A.readKeeps s s.heap).setLow A.target target)
  | none => .leave (s.heap.leave none)

/-- The push of a register. -/
def push (s : NativeState R γ capacity) :
    Reached (NativeState R γ capacity) (Left γ 64 capacity) :=
  match E.host.push (s.low A.pushed) s.heap.guest.rest with
  | some rest => .next (E.left.after A.pushKeeps s (s.heap.withRest rest))
  | none => .leave (s.heap.leave none)

end NativeEnv

end

/-! ## What each of them does -/

section

variable {R γ : Type} {capacity : Nat} {A : NativeAbi R} {E : NativeEnv R γ capacity}
  {s : NativeState R γ capacity} {cpu base : R} {site : Fin capacity}

theorem after_reg (left : Leftover R γ capacity) {keeps : R → Bool} (h : CallHeap γ 64 capacity)
    {r : R} (hr : keeps r = true) : (left.after keeps s h).reg r = s.reg r := if_pos hr

theorem after_low (left : Leftover R γ capacity) {keeps : R → Bool} (h : CallHeap γ 64 capacity)
    {r : R} (hr : keeps r = true) : (left.after keeps s h).low r = s.low r := by
  rw [NativeState.low, after_reg left h hr, NativeState.low]

@[simp] theorem after_heap (left : Leftover R γ capacity) (keeps : R → Bool)
    (h : CallHeap γ 64 capacity) : (left.after keeps s h).heap = h := rfl

theorem addr_eip (hcpu : s.reg cpu = E.home.cpu) :
    s.addr cpu E.home.eip = E.home.cpu.toNat + E.home.eip := by
  rw [NativeState.addr, hcpu, SiteHome.toNat_eip]

theorem addr_site (hbase : s.reg base = E.home.sitePtr site) {offset : Nat}
    (hoffset : offset ≤ leafAt) : s.addr base offset = E.home.siteAddr site + offset := by
  rw [NativeState.addr, hbase,
    SiteHome.toNat_siteField site (hoffset.trans_lt E.home.leafAt_lt)]

variable [DecidableEq R]

namespace NativeEnv

theorem load32_eip (hcpu : s.reg cpu = E.home.cpu) (dst : R) :
    E.load32 dst cpu E.home.eip s = .next (s.setLow dst s.heap.guest.eip) := by
  rw [load32, addr_eip hcpu, SiteHome.load32_eip]

omit [DecidableEq R] in
theorem store32_eip (hcpu : s.reg cpu = E.home.cpu) (v : U32) :
    E.store32 cpu E.home.eip v s = .next (s.withHeap (s.heap.withEip v)) := by
  rw [store32, addr_eip hcpu, SiteHome.store32_eip]

theorem load32_target (hbase : s.reg base = E.home.sitePtr site) (dst : R) :
    E.load32 dst base targetAt s = .next (s.setLow dst (s.heap.pool.site site).target) := by
  rw [load32, addr_site hbase (by decide), SiteHome.load32_target]

theorem load32_refills (hbase : s.reg base = E.home.sitePtr site) (dst : R) :
    E.load32 dst base refillsAt s = .next (s.setLow dst (s.heap.pool.site site).refills) := by
  rw [load32, addr_site hbase (by decide), SiteHome.load32_refills]

theorem loadPtr_leaf (hbase : s.reg base = E.home.sitePtr site) (dst : R) :
    E.loadPtr dst base leafAt s = .next (s.set dst (s.heap.pool.site site).leaf) := by
  rw [loadPtr, addr_site hbase (by decide), SiteHome.loadPtr_leaf]

/-- A leaf on the guest CPU. -/
theorem callThrough_leaf (r : R) (harg : s.reg A.arg₀ = E.home.cpu) :
    E.callThrough A r s = .next ((E.left.after A.calleeKeeps s
      (s.heap.callLeaf E.host (s.reg r)).2).setInt A.result
        ((E.left.reg s A.result >>> 32).setWidth 32) (s.heap.callLeaf E.host (s.reg r)).1) :=
  if_pos harg

/-- The fill function on a site and a target. -/
theorem callThrough_fill {r : R} (hr : s.reg r = E.home.fill)
    (harg : s.reg A.arg₀ = E.home.sitePtr site) :
    E.callThrough A r s = .next ((E.left.after A.calleeKeeps s
      (s.heap.fill E.host site (s.low A.arg₁)).2).set A.result
        (s.heap.fill E.host site (s.low A.arg₁)).1) := by
  rw [callThrough, harg, if_neg (E.home.sitePtr_ne_cpu site), if_pos hr, SiteHome.siteAt_sitePtr]

theorem readTarget_some {target : U32} (h : E.callee s.heap.guest.rest = some target) :
    E.readTarget A s = .next ((E.left.after A.readKeeps s s.heap).setLow A.target target) := by
  rw [readTarget, h]

theorem readTarget_none (h : E.callee s.heap.guest.rest = none) :
    E.readTarget A s = .leave (s.heap.leave none) := by
  rw [readTarget, h]

theorem push_some {ret : U32} {rest : γ} (h : E.host.push ret s.heap.guest.rest = some rest) :
    E.push A (s.setLow A.pushed ret) =
      .next (E.left.after A.pushKeeps (s.setLow A.pushed ret) (s.heap.withRest rest)) := by
  rw [push, NativeState.low_setLow, NativeState.setLow_heap, h]

theorem push_none {ret : U32} (h : E.host.push ret s.heap.guest.rest = none) :
    E.push A (s.setLow A.pushed ret) = .leave (s.heap.leave none) := by
  rw [push, NativeState.low_setLow, NativeState.setLow_heap, h]

end NativeEnv

end

end X86Port.Jit
