import X86Port.Jit.Chain

/-!
# Chained exits

The code an exit of a translated block runs: the WebAssembly exit of `jit_wasm_chain.c`, the
x86-64 exit of `jit_x64_branch.c` and the AArch64 exit of `jit_arm64_branch.c`, each as a step
on the run header over the slots and the front array. `chainedExit` says what an exit is for.

* `x64Exit_eq`, `arm64Exit_eq`: the machine-code exits are the chained exit.
* `wasmExit_eq_iff`: the WebAssembly exit is one too, except where it steps the budget twice.
* `callRun_accounts`: a call into translated code keeps its budget and never enters the stop.
* `wasm_call_accounts`: so does the WebAssembly call, as long as no exit steps twice.
-/

namespace X86Port.Jit

variable {H : Type}

/-! ## What an exit sees -/

/-- A block lowered into the same module: its address, its table entry, its function. -/
structure ChainSibling (H : Type) where
  guest : U32
  entry : H
  function : U32

/-- An exit: the slot it owns, if it got one, and the address it leaves for, which is
computed or fixed. -/
structure ChainExit (H : Type) where
  slot : Option Nat
  target : U32
  computed : Bool
  siblings : List (ChainSibling H)

/-- The slots and the front array, when there is one, as an exit finds them. -/
structure ChainTables (H : Type) where
  slots : Nat → ChainSlot H
  front : Option (Nat → BlockFront H)

/-- The shift and the size of jit-common's front array. -/
structure FrontShape where
  shift : Nat
  slots : U32

def FrontShape.index (f : FrontShape) (target : U32) : Nat :=
  ((target >>> f.shift) &&& (f.slots - 1)).toNat

/-- The block a transfer enters. -/
structure Entered (H : Type) where
  target : U32
  host : H

/-! ## The WebAssembly exit -/

/-- The tail call of a transfer: through the trampoline, or to a sibling's function. -/
structure WasmCall (H : Type) where
  target : U32
  host : H
  function : Option U32

inductive ChainHost where
  | slot
  | probed
deriving DecidableEq

section Wasm

variable [DecidableEq H] [Zero H]

/-- The stop, the budget, the transfer; `none` is a branch out of the block. -/
def emitTransfer (run : ChainRun) (target : U32) (kind : ChainHost) (host : H)
    (sibling : Option (ChainSibling H)) : ChainRun × Option (WasmCall H) :=
  if target = run.stop then (run, none)
  else
    let run := { run with budget := run.budget + (-1) }
    if run.budget = 0 then (run, none)
    else
      let run := { run with last := target }
      let run := if kind = .probed then { run with pending := 0 } else run
      let function := sibling.bind fun s => if host = s.entry then some s.function else none
      (run, some ⟨target, host, function⟩)

/-- The front entry for the address, when it holds it with a host. -/
def emitProbe (f : FrontShape) (t : ChainTables H) (run : ChainRun) (target : U32) :
    ChainRun × Option (WasmCall H) :=
  match t.front with
  | none => (run, none)
  | some front =>
    let entry := front (f.index target)
    if entry.guest ≠ zeroExtend target then (run, none)
    else if entry.host = 0 then (run, none)
    else emitTransfer run target .probed entry.host none

def siblingAt (x : ChainExit H) : Option (ChainSibling H) :=
  if x.computed then none else x.siblings.find? fun s => decide (s.guest = x.target)

def wasmChainExit (f : FrontShape) (t : ChainTables H) (x : ChainExit H) (run : ChainRun) :
    ChainRun × Option (WasmCall H) :=
  match x.slot with
  | none => (run, none)
  | some slot =>
    let hit :=
      if (t.slots slot).guest ≠ zeroExtend x.target then (run, none)
      else emitTransfer run x.target .slot (t.slots slot).host (siblingAt x)
    match hit with
    | (run, some call) => (run, some call)
    | (run, none) =>
      -- reached by a missed slot, and by a transfer that branched out
      let run := { run with pending := BitVec.ofNat 32 (slot + 1) }
      if x.computed then emitProbe f t run x.target else (run, none)

def WasmCall.entered (c : WasmCall H) : Entered H := ⟨c.target, c.host⟩

/-- The exit as a step: the header it leaves, and the block entered, if any. -/
def wasmExit (f : FrontShape) (t : ChainTables H) (x : ChainExit H) (run : ChainRun) :
    ChainRun × Option (Entered H) :=
  let out := wasmChainExit f t x run
  (out.1, out.2.map WasmCall.entered)

end Wasm

/-! ## The machine-code exits -/

section Native

variable [DecidableEq H] [Zero H]

/-- The stop and the budget; whether the transfer may go on. Both backends emit it alike. -/
def transferChecks (run : ChainRun) (target : U32) : ChainRun × Bool :=
  if target = run.stop then (run, false)
  else
    let run := { run with budget := run.budget - 1 }
    if run.budget = 0 then (run, false)
    else ({ run with last := target }, true)

/-- Past a front entry's prologue lies its chain entry. -/
def x64ChainProbe (f : FrontShape) (past : H → H) (front : Nat → BlockFront H)
    (run : ChainRun) (target : U32) : ChainRun × Option (Entered H) :=
  let entry := front (f.index target)
  if zeroExtend target ≠ entry.guest then (run, none)
  else if entry.host = 0 then (run, none)
  else
    match transferChecks run target with
    | (run, false) => (run, none)
    | (run, true) => ({ run with pending := 0 }, some ⟨target, past entry.host⟩)

def x64Exit (f : FrontShape) (past : H → H) (t : ChainTables H) (x : ChainExit H)
    (run : ChainRun) : ChainRun × Option (Entered H) :=
  match x.slot with
  | none => (run, none)
  | some slot =>
    let pending := BitVec.ofNat 32 slot + 1
    if zeroExtend x.target ≠ (t.slots slot).guest then
      match x.computed, t.front with
      | true, some front => x64ChainProbe f past front { run with pending := pending } x.target
      | _, _ => ({ run with pending := pending }, none)
    else
      match transferChecks run x.target with
      | (run, false) => ({ run with pending := pending }, none)
      | (run, true) => (run, some ⟨x.target, (t.slots slot).host⟩)

/-- Every failure goes to the one return that names the slot. -/
def arm64ChainLeave (pending : U32) (run : ChainRun) : ChainRun × Option (Entered H) :=
  ({ run with pending := pending }, none)

def arm64ChainProbe (f : FrontShape) (past : H → H) (front : Nat → BlockFront H) (pending : U32)
    (run : ChainRun) (target : U32) : ChainRun × Option (Entered H) :=
  let entry := front (f.index target)
  if zeroExtend target ≠ entry.guest then arm64ChainLeave pending run
  else if entry.host = 0 then arm64ChainLeave pending run
  else
    match transferChecks run target with
    | (run, false) => arm64ChainLeave pending run
    | (run, true) => ({ run with pending := 0 }, some ⟨target, past entry.host⟩)

def arm64Exit (f : FrontShape) (past : H → H) (t : ChainTables H) (x : ChainExit H)
    (run : ChainRun) : ChainRun × Option (Entered H) :=
  match x.slot with
  | none => (run, none)
  | some slot =>
    let pending := BitVec.ofNat 32 slot + 1
    if zeroExtend x.target ≠ (t.slots slot).guest then
      match x.computed, t.front with
      | true, some front => arm64ChainProbe f past front pending run x.target
      | _, _ => arm64ChainLeave pending run
    else
      match transferChecks run x.target with
      | (run, false) => arm64ChainLeave pending run
      | (run, true) => (run, some ⟨x.target, (t.slots slot).host⟩)

end Native

/-! ## What an exit is for -/

section Spec

variable [DecidableEq H] [Zero H]

/-- The host the front array holds for an address, when it refuses it not. -/
def frontHost (f : FrontShape) (t : ChainTables H) (target : U32) : Option H :=
  t.front.bind fun front =>
    let entry := front (f.index target)
    if entry.guest = zeroExtend target ∧ entry.host ≠ 0 then some entry.host else none

/-- Where an exit through `slot` may go on: to what its slot names, else, for a computed
address, to what the front array holds; and whether the slot named it. -/
def chainTarget (f : FrontShape) (past : H → H) (t : ChainTables H) (slot : Nat)
    (x : ChainExit H) : Option (H × Bool) :=
  if (t.slots slot).guest = zeroExtend x.target then some ((t.slots slot).host, true)
  else if x.computed then (frontHost f t x.target).map fun host => (past host, false)
  else none

/-- The exit as the run header's comment describes it: transfer to a target that is not the
stop while the budget lasts, otherwise return and name the slot. -/
def chainedExit (f : FrontShape) (past : H → H) (t : ChainTables H) (x : ChainExit H)
    (run : ChainRun) : ChainRun × Option (Entered H) :=
  match x.slot with
  | none => (run, none)
  | some slot =>
    let pending := BitVec.ofNat 32 slot + 1
    match chainTarget f past t slot x with
    | none => ({ run with pending := pending }, none)
    | some (host, linked) =>
      if x.target = run.stop then ({ run with pending := pending }, none)
      else if run.budget = 1 then ({ run with pending := pending, budget := 0 }, none)
      else
        ({ run with
          budget := run.budget - 1
          last := x.target
          pending := if linked then run.pending else 0 }, some ⟨x.target, host⟩)

/-- A linked computed exit that finds the budget at 1, with its target in the front array. -/
def DoubleStep (f : FrontShape) (t : ChainTables H) (x : ChainExit H) (run : ChainRun) : Prop :=
  ∃ slot, x.slot = some slot ∧ (t.slots slot).guest = zeroExtend x.target ∧
    x.target ≠ run.stop ∧ run.budget = 1 ∧ x.computed = true ∧ frontHost f t x.target ≠ none

theorem sub_one_eq_zero_iff (budget : U64) : budget - 1 = 0 ↔ budget = 1 := by
  bv_omega

theorem transferChecks_eq (run : ChainRun) (target : U32) :
    transferChecks run target =
      if target = run.stop then (run, false)
      else if run.budget = 1 then ({ run with budget := 0 }, false)
      else ({ run with budget := run.budget - 1, last := target }, true) := by
  unfold transferChecks
  dsimp only
  by_cases hstop : target = run.stop
  · rw [if_pos hstop, if_pos hstop]
  · rw [if_neg hstop, if_neg hstop]
    by_cases hone : run.budget = 1
    · rw [if_pos ((sub_one_eq_zero_iff _).mpr hone), if_pos hone, hone]
      rfl
    · rw [if_neg (fun h => hone ((sub_one_eq_zero_iff _).mp h)), if_neg hone]

theorem x64ChainProbe_eq (f : FrontShape) (past : H → H) (front : Nat → BlockFront H)
    (t : ChainTables H) (hfront : t.front = some front) (run : ChainRun) (target : U32) :
    x64ChainProbe f past front run target =
      match frontHost f t target with
      | none => (run, none)
      | some host =>
        match transferChecks run target with
        | (run, false) => (run, none)
        | (run, true) => ({ run with pending := 0 }, some ⟨target, past host⟩) := by
  unfold x64ChainProbe frontHost
  rw [hfront, Option.bind_some]
  dsimp only
  by_cases hguest : (front (f.index target)).guest = zeroExtend target
  · rw [if_neg (not_not.mpr hguest.symm)]
    by_cases hhost : (front (f.index target)).host = 0
    · rw [if_pos hhost, if_neg (fun h => h.2 hhost)]
    · rw [if_neg hhost, if_pos ⟨hguest, hhost⟩]
  · rw [if_pos (fun h => hguest h.symm), if_neg (fun h => hguest h.1)]

theorem x64Exit_eq (f : FrontShape) (past : H → H) (t : ChainTables H) (x : ChainExit H)
    (run : ChainRun) : x64Exit f past t x run = chainedExit f past t x run := by
  unfold x64Exit chainedExit
  cases hslot : x.slot with
  | none => rfl
  | some slot =>
    dsimp only
    unfold chainTarget
    by_cases hguest : (t.slots slot).guest = zeroExtend x.target
    · rw [if_neg (not_not.mpr hguest.symm), if_pos hguest, transferChecks_eq]
      by_cases hstop : x.target = run.stop
      · simp only [if_pos hstop]
      · by_cases hone : run.budget = 1
        · simp only [if_neg hstop, if_pos hone]
        · simp only [if_neg hstop, if_neg hone, if_true]
    · rw [if_pos (fun h => hguest h.symm), if_neg hguest]
      cases hcomputed : x.computed with
      | false => rfl
      | true =>
        cases hfront : t.front with
        | none =>
          have hnone : frontHost f t x.target = none := by
            unfold frontHost
            rw [hfront]
            rfl
          rw [hnone]
          rfl
        | some front =>
          dsimp only
          rw [x64ChainProbe_eq f past front t hfront]
          cases hhost : frontHost f t x.target with
          | none => rfl
          | some host =>
            rw [transferChecks_eq, if_pos rfl, Option.map_some]
            by_cases hstop : x.target = run.stop
            · simp only [if_pos hstop]
            · by_cases hone : run.budget = 1
              · simp only [if_neg hstop, if_pos hone]
              · simp only [if_neg hstop, if_neg hone, Bool.false_eq_true, if_false]

/-- Both backends name the slot in the same places. -/
theorem arm64Exit_eq (f : FrontShape) (past : H → H) (t : ChainTables H) (x : ChainExit H)
    (run : ChainRun) : arm64Exit f past t x run = chainedExit f past t x run := by
  rw [← x64Exit_eq]
  unfold arm64Exit x64Exit arm64ChainLeave
  cases hslot : x.slot with
  | none => rfl
  | some slot =>
    dsimp only
    by_cases hguest : zeroExtend x.target ≠ (t.slots slot).guest
    · rw [if_pos hguest, if_pos hguest]
      cases x.computed with
      | false => rfl
      | true =>
        cases t.front with
        | none => rfl
        | some front =>
          unfold arm64ChainProbe x64ChainProbe arm64ChainLeave
          dsimp only
          split_ifs with h1 h2
          · rfl
          · rfl
          · rw [transferChecks_eq, transferChecks_eq]
            dsimp only
            split_ifs <;> rfl
    · rw [if_neg hguest, if_neg hguest]

omit [Zero H] in
theorem emitTransfer_eq (run : ChainRun) (target : U32) (kind : ChainHost) (host : H)
    (sibling : Option (ChainSibling H)) :
    ((emitTransfer run target kind host sibling).1,
        (emitTransfer run target kind host sibling).2.map WasmCall.entered) =
      if target = run.stop then (run, none)
      else if run.budget = 1 then ({ run with budget := 0 }, none)
      else ({ run with
        budget := run.budget - 1
        last := target
        pending := if kind = .probed then 0 else run.pending }, some ⟨target, host⟩) := by
  have hstep : run.budget + (-1) = run.budget - 1 := by bv_omega
  unfold emitTransfer
  dsimp only
  rw [hstep]
  by_cases hstop : target = run.stop
  · simp only [if_pos hstop]
    rfl
  · by_cases hone : run.budget = 1
    · simp only [if_neg hstop, hone]
      rfl
    · simp only [if_neg hstop, if_neg hone, if_neg (mt (sub_one_eq_zero_iff _).mp hone)]
      cases kind <;> rfl

/-- The step of the emitted probe. -/
def wasmProbe (f : FrontShape) (t : ChainTables H) (run : ChainRun) (target : U32) :
    ChainRun × Option (Entered H) :=
  ((emitProbe f t run target).1, (emitProbe f t run target).2.map WasmCall.entered)

theorem wasmProbe_eq (f : FrontShape) (t : ChainTables H) (run : ChainRun) (target : U32) :
    wasmProbe f t run target =
      match frontHost f t target with
      | none => (run, none)
      | some host =>
        if target = run.stop then (run, none)
        else if run.budget = 1 then ({ run with budget := 0 }, none)
        else ({ run with budget := run.budget - 1, last := target, pending := 0 },
          some ⟨target, host⟩) := by
  unfold wasmProbe emitProbe frontHost
  cases t.front with
  | none => rfl
  | some front =>
    dsimp only [Option.bind_some]
    by_cases hguest : (front (f.index target)).guest = zeroExtend target
    · rw [if_neg (not_not.mpr hguest)]
      by_cases hhost : (front (f.index target)).host = 0
      · rw [if_pos hhost, if_neg (fun h => h.2 hhost)]
        rfl
      · rw [if_neg hhost, if_pos ⟨hguest, hhost⟩, emitTransfer_eq]
        rfl
    · rw [if_pos hguest, if_neg (fun h => hguest h.1)]
      rfl

theorem wasmProbe_of_stop (f : FrontShape) (t : ChainTables H) {run : ChainRun} {target : U32}
    (hstop : target = run.stop) : wasmProbe f t run target = (run, none) := by
  rw [wasmProbe_eq]
  cases frontHost f t target with
  | none => rfl
  | some host => exact if_pos hstop

/-- A spent budget steps below zero and the probe transfers. -/
theorem wasmProbe_of_spent (f : FrontShape) (t : ChainTables H) {run : ChainRun} {target : U32}
    (hstop : target ≠ run.stop) (hspent : run.budget = 0) :
    wasmProbe f t run target = match frontHost f t target with
      | none => (run, none)
      | some host =>
        ({ run with budget := 0 - 1, last := target, pending := 0 }, some ⟨target, host⟩) := by
  rw [wasmProbe_eq]
  cases frontHost f t target with
  | none => rfl
  | some host =>
    dsimp only
    rw [if_neg hstop, hspent, if_neg (by decide)]

/-- A slot that names another address leaves the pending slot and the probe. -/
theorem wasmExit_of_miss (f : FrontShape) (t : ChainTables H) (x : ChainExit H) (run : ChainRun)
    {slot : Nat} (hslot : x.slot = some slot)
    (hguest : (t.slots slot).guest ≠ zeroExtend x.target) :
    wasmExit f t x run =
      if x.computed then wasmProbe f t { run with pending := BitVec.ofNat 32 slot + 1 } x.target
      else ({ run with pending := BitVec.ofNat 32 slot + 1 }, none) := by
  have hname : BitVec.ofNat 32 (slot + 1) = BitVec.ofNat 32 slot + 1 := by
    rw [BitVec.ofNat_add]
    rfl
  unfold wasmExit wasmChainExit wasmProbe
  rw [hslot]
  dsimp only
  rw [if_pos hguest, hname]
  cases x.computed <;> rfl

/-- A linked slot transfers, or else leaves the pending slot and the probe. -/
theorem wasmExit_of_hit (f : FrontShape) (t : ChainTables H) (x : ChainExit H) (run : ChainRun)
    {slot : Nat} (hslot : x.slot = some slot)
    (hguest : (t.slots slot).guest = zeroExtend x.target) :
    wasmExit f t x run =
      if x.target ≠ run.stop ∧ run.budget ≠ 1 then
        ({ run with budget := run.budget - 1, last := x.target },
          some ⟨x.target, (t.slots slot).host⟩)
      else
        let left := { run with
          budget := if x.target = run.stop then run.budget else 0
          pending := BitVec.ofNat 32 slot + 1 }
        if x.computed then wasmProbe f t left x.target else (left, none) := by
  have hname : BitVec.ofNat 32 (slot + 1) = BitVec.ofNat 32 slot + 1 := by
    rw [BitVec.ofNat_add]
    rfl
  have htransfer := emitTransfer_eq run x.target .slot (t.slots slot).host (siblingAt x)
  rw [if_neg (show ChainHost.slot ≠ .probed by decide)] at htransfer
  unfold wasmExit wasmChainExit wasmProbe
  rw [hslot]
  dsimp only
  rw [if_neg (not_not.mpr hguest), hname]
  generalize emitTransfer run x.target .slot (t.slots slot).host (siblingAt x) = out at htransfer
  obtain ⟨after, call⟩ := out
  by_cases hstop : x.target = run.stop
  · rw [if_pos hstop] at htransfer
    obtain ⟨rfl, hcall⟩ := Prod.mk.inj htransfer
    rw [Option.map_eq_none_iff] at hcall
    subst hcall
    rw [if_neg (fun h => h.1 hstop), if_pos hstop]
    cases x.computed <;> rfl
  · rw [if_neg hstop] at htransfer
    by_cases hone : run.budget = 1
    · rw [if_pos hone] at htransfer
      obtain ⟨rfl, hcall⟩ := Prod.mk.inj htransfer
      rw [Option.map_eq_none_iff] at hcall
      subst hcall
      rw [if_neg (fun h => h.2 hone), if_neg hstop]
      cases x.computed <;> rfl
    · rw [if_neg hone] at htransfer
      obtain ⟨rfl, hcall⟩ := Prod.mk.inj htransfer
      rw [Option.map_eq_some_iff] at hcall
      obtain ⟨a, rfl, ha⟩ := hcall
      rw [if_pos (show x.target ≠ run.stop ∧ run.budget ≠ 1 from ⟨hstop, hone⟩)]
      dsimp only
      rw [Option.map_some, ha]

/-- Where the slot names another address, or the exit's target is fixed, there is one place to
transfer from; elsewhere the second one steps a spent budget again. -/
theorem wasmExit_eq_iff (f : FrontShape) (t : ChainTables H) (x : ChainExit H) (run : ChainRun) :
    wasmExit f t x run = chainedExit f id t x run ↔ ¬ DoubleStep f t x run := by
  cases hslot : x.slot with
  | none =>
    refine iff_of_true ?_ (fun ⟨slot, h, _⟩ => by rw [hslot] at h; cases h)
    unfold wasmExit wasmChainExit chainedExit
    rw [hslot]
    rfl
  | some slot =>
    unfold chainedExit chainTarget
    rw [hslot]
    dsimp only
    by_cases hguest : (t.slots slot).guest = zeroExtend x.target
    · rw [wasmExit_of_hit f t x run hslot hguest, if_pos hguest]
      dsimp only
      by_cases hstop : x.target = run.stop
      · refine iff_of_true ?_ (fun ⟨_, _, _, h, _⟩ => h hstop)
        rw [if_neg (fun h => h.1 hstop), if_pos hstop, if_pos hstop, wasmProbe_of_stop]
        · exact ite_self _
        · exact hstop
      · rw [if_neg hstop, if_neg hstop]
        by_cases hone : run.budget = 1
        · have hprobe := @wasmProbe_of_spent _ _ _ f t
            { run with budget := 0, pending := BitVec.ofNat 32 slot + 1 } x.target hstop rfl
          rw [if_neg (fun h => h.2 hone), if_pos hone, hprobe]
          cases hcomputed : x.computed with
          | false =>
            refine iff_of_true rfl ?_
            rintro ⟨_, _, _, _, _, h, _⟩
            rw [hcomputed] at h
            cases h
          | true =>
            cases hhost : frontHost f t x.target with
            | none =>
              refine iff_of_true rfl ?_
              rintro ⟨_, _, _, _, _, _, h⟩
              exact h hhost
            | some host =>
              refine iff_of_false ?_ (not_not.mpr ⟨slot, hslot, hguest, hstop, hone, hcomputed, ?_⟩)
              · rw [if_pos rfl]
                exact fun h => by cases (Prod.mk.inj h).2
              · rw [hhost]
                exact Option.some_ne_none host
        · refine iff_of_true ?_ (fun ⟨_, _, _, _, h, _⟩ => hone h)
          rw [if_pos ⟨hstop, hone⟩, if_neg hone]
          rfl
    · refine iff_of_true ?_ ?_
      · rw [wasmExit_of_miss f t x run hslot hguest, if_neg hguest, wasmProbe_eq]
        cases x.computed with
        | false => rfl
        | true => cases frontHost f t x.target <;> rfl
      · rintro ⟨slot', h, hguest', _⟩
        cases Option.some.inj (hslot.symm.trans h)
        exact hguest hguest'

end Spec

/-! ## A call into translated code -/

/-- What a call did: the header it left, the transfers it made, and whether it returned. -/
structure CallResult (H : Type) where
  run : ChainRun
  entered : List (Entered H)
  returned : Bool

section Call

/-- The exits of one call in turn, each over the slots and the front array it finds. -/
def callRun (exit : ChainTables H → ChainExit H → ChainRun → ChainRun × Option (Entered H)) :
    ChainRun → List (ChainTables H × ChainExit H) → CallResult H
  | run, [] => ⟨run, [], false⟩
  | run, (t, x) :: rest =>
    match exit t x run with
    | (run, none) => ⟨run, [], true⟩
    | (run, some e) =>
      let r := callRun exit run rest
      { r with entered := e :: r.entered }

/-- What the dispatcher may rely on after, and at any point of, a call it gave `run`. -/
structure CallAccounts (run : ChainRun) (r : CallResult H) : Prop where
  transfers_lt : r.entered.length < run.budget.toNat
  budget : (r.run.budget ≠ 0 ∧ r.run.budget.toNat + r.entered.length = run.budget.toNat) ∨
    (r.returned = true ∧ r.run.budget = 0 ∧ r.entered.length + 1 = run.budget.toNat)
  stop : r.run.stop = run.stop ∧ ∀ e ∈ r.entered, e.target ≠ run.stop
  last : r.run.last = (r.entered.getLast?.map Entered.target).getD run.last
  pending : r.run.pending ≠ 0 → r.returned = true
  counted : (chainedTransfers r.run run.budget).toNat = r.entered.length

/-- What one exit does to the header, whether it enters a block or returns. -/
inductive ExitOutcome (run : ChainRun) : ChainRun × Option (Entered H) → Prop where
  | entered {after : ChainRun} {e : Entered H} (hone : run.budget ≠ 1)
    (hbudget : after.budget = run.budget - 1) (hstop : after.stop = run.stop)
    (htarget : e.target ≠ run.stop) (hlast : after.last = e.target)
    (hpending : run.pending = 0 → after.pending = 0) : ExitOutcome run (after, some e)
  | left {after : ChainRun} (hstop : after.stop = run.stop) (hlast : after.last = run.last)
    (hbudget : after.budget = run.budget ∨ (run.budget = 1 ∧ after.budget = 0)) :
    ExitOutcome run (after, none)

theorem chainedExit_outcome [DecidableEq H] [Zero H] (f : FrontShape) (past : H → H)
    (t : ChainTables H) (x : ChainExit H) (run : ChainRun) :
    ExitOutcome run (chainedExit f past t x run) := by
  unfold chainedExit
  cases x.slot with
  | none => exact ExitOutcome.left rfl rfl (Or.inl rfl)
  | some slot =>
    dsimp only
    cases chainTarget f past t slot x with
    | none => exact ExitOutcome.left rfl rfl (Or.inl rfl)
    | some found =>
      obtain ⟨host, linked⟩ := found
      dsimp only
      by_cases hstop : x.target = run.stop
      · rw [if_pos hstop]
        exact ExitOutcome.left rfl rfl (Or.inl rfl)
      · rw [if_neg hstop]
        by_cases hone : run.budget = 1
        · rw [if_pos hone]
          exact ExitOutcome.left rfl rfl (Or.inr ⟨hone, rfl⟩)
        · rw [if_neg hone]
          refine ExitOutcome.entered hone rfl rfl hstop rfl (fun h => ?_)
          cases linked with
          | false => rfl
          | true => exact h

theorem counted_of_budget {left allowed : ChainRun} {n : Nat}
    (h : (left.budget ≠ 0 ∧ left.budget.toNat + n = allowed.budget.toNat) ∨
      (left.budget = 0 ∧ n + 1 = allowed.budget.toNat)) :
    (chainedTransfers left allowed.budget).toNat = n := by
  unfold chainedTransfers
  rcases h with ⟨hne, hsum⟩ | ⟨hzero, hsum⟩
  · rw [if_neg hne]
    bv_omega
  · rw [if_pos hzero, hzero]
    bv_omega

/-- The accounts hold at any point of a call whose exits each do what an exit may do. -/
theorem callRun_accounts
    {exit : ChainTables H → ChainExit H → ChainRun → ChainRun × Option (Entered H)}
    (hexit : ∀ t x run, ExitOutcome run (exit t x run))
    (exits : List (ChainTables H × ChainExit H)) :
    ∀ run : ChainRun, run.budget ≠ 0 → run.pending = 0 →
      CallAccounts run (callRun exit run exits) := by
  induction exits with
  | nil =>
    intro run hbudget hpending
    exact {
      transfers_lt := by
        rw [callRun, List.length_nil]
        bv_omega
      budget := Or.inl ⟨hbudget, rfl⟩
      stop := ⟨rfl, fun e he => by cases he⟩
      last := rfl
      pending := fun h => absurd hpending h
      counted := counted_of_budget (Or.inl ⟨hbudget, rfl⟩) }
  | cons head rest ih =>
    intro run hbudget hpending
    obtain ⟨t, x⟩ := head
    have hout := hexit t x run
    unfold callRun
    generalize exit t x run = out at hout
    cases hout with
    | @left after hstop hlast hspent =>
      have hleft : (after.budget ≠ 0 ∧ after.budget.toNat + 0 = run.budget.toNat) ∨
          (after.budget = 0 ∧ 0 + 1 = run.budget.toNat) := by
        rcases hspent with h | ⟨hone, hzero⟩
        · left
          rw [h]
          exact ⟨hbudget, rfl⟩
        · right
          rw [hone]
          exact ⟨hzero, rfl⟩
      exact {
        transfers_lt := by
          rw [List.length_nil]
          bv_omega
        budget := hleft.imp_right fun h => ⟨rfl, h⟩
        stop := ⟨hstop, fun e he => by cases he⟩
        last := hlast
        pending := fun _ => rfl
        counted := counted_of_budget hleft }
    | @entered after e hone hstep hstop htarget hlast hclear =>
      have hne : after.budget ≠ 0 := by
        rw [hstep]
        exact mt (sub_one_eq_zero_iff _).mp hone
      have hnat : after.budget.toNat + 1 = run.budget.toNat := by
        rw [hstep]
        bv_omega
      have hrest := ih after hne (hclear hpending)
      have hlt := hrest.transfers_lt
      have hsum := hrest.budget
      dsimp only
      generalize callRun exit after rest = r at hrest hlt hsum
      have hleft : (r.run.budget ≠ 0 ∧
            r.run.budget.toNat + (r.entered.length + 1) = run.budget.toNat) ∨
          (r.returned = true ∧ r.run.budget = 0 ∧
            r.entered.length + 1 + 1 = run.budget.toNat) := by
        rcases hsum with ⟨h1, h2⟩ | ⟨h1, h2, h3⟩
        · exact Or.inl ⟨h1, by omega⟩
        · exact Or.inr ⟨h1, h2, by omega⟩
      exact {
        transfers_lt := by
          rw [List.length_cons]
          omega
        budget := hleft
        stop := by
          refine ⟨hrest.stop.1.trans hstop, fun e' he' => ?_⟩
          rcases List.mem_cons.mp he' with rfl | h
          · exact htarget
          · rw [← hstop]
            exact hrest.stop.2 e' h
        last := by
          rw [hrest.last, hlast]
          cases hentered : r.entered with
          | nil => rfl
          | cons e' es =>
            rw [List.getLast?_cons_cons]
            obtain ⟨z, hz⟩ := Option.isSome_iff_exists.mp
              (show (e' :: es).getLast?.isSome = true by simp)
            rw [hz]
            rfl
        pending := hrest.pending
        counted := counted_of_budget (hleft.imp_right fun h => h.2) }

end Call

/-! ## The three backends -/

section Backends

variable [DecidableEq H] [Zero H]

/-- No exit of a WebAssembly call finds itself where it would step the budget twice. -/
def NoDoubleStep (f : FrontShape) : ChainRun → List (ChainTables H × ChainExit H) → Prop
  | _, [] => True
  | run, (t, x) :: rest =>
    ¬ DoubleStep f t x run ∧
      ((wasmExit f t x run).2 ≠ none → NoDoubleStep f (wasmExit f t x run).1 rest)

theorem callRun_wasm_eq (f : FrontShape) (exits : List (ChainTables H × ChainExit H)) :
    ∀ run : ChainRun, NoDoubleStep f run exits →
      callRun (wasmExit f) run exits = callRun (chainedExit f id) run exits := by
  induction exits with
  | nil => exact fun _ _ => rfl
  | cons head rest ih =>
    intro run hsteps
    obtain ⟨t, x⟩ := head
    obtain ⟨hfirst, hrest⟩ := hsteps
    have hexit := (wasmExit_eq_iff f t x run).mpr hfirst
    unfold callRun
    rw [← hexit]
    generalize wasmExit f t x run = out at hrest
    obtain ⟨after, entered⟩ := out
    cases entered with
    | none => rfl
    | some e =>
      dsimp only
      rw [ih after (hrest (Option.some_ne_none e))]

/-- The machine-code exits keep the accounts of every call; a WebAssembly call keeps them and
does what they do as long as no exit steps the budget twice, and an exit differs from theirs
exactly where it does. -/
theorem wasm_call_accounts (f : FrontShape) (past : H → H) (run : ChainRun)
    (exits : List (ChainTables H × ChainExit H)) (hbudget : run.budget ≠ 0)
    (hpending : run.pending = 0) :
    (CallAccounts run (callRun (x64Exit f past) run exits) ∧
      callRun (arm64Exit f past) run exits = callRun (x64Exit f past) run exits) ∧
    (NoDoubleStep f run exits →
      CallAccounts run (callRun (wasmExit f) run exits) ∧
        callRun (wasmExit f) run exits = callRun (x64Exit f id) run exits) ∧
    ∀ (t : ChainTables H) (x : ChainExit H) (r : ChainRun),
      wasmExit f t x r = x64Exit f id t x r ↔ ¬ DoubleStep f t x r := by
  have hx64 : ∀ past : H → H, x64Exit f past = chainedExit f past := by
    intro past
    funext t x r
    exact x64Exit_eq f past t x r
  have harm64 : arm64Exit f past = chainedExit f past := by
    funext t x r
    exact arm64Exit_eq f past t x r
  rw [harm64, hx64, hx64]
  refine ⟨⟨?_, rfl⟩, ?_, wasmExit_eq_iff f⟩
  · exact callRun_accounts (chainedExit_outcome f past) exits run hbudget hpending
  · intro hsteps
    rw [callRun_wasm_eq f exits run hsteps]
    exact ⟨callRun_accounts (chainedExit_outcome f id) exits run hbudget hpending, rfl⟩

end Backends

/-- A computed exit whose slot and whose front entry both name its target. -/
def returnExit : ChainTables U32 × ChainExit U32 :=
  (⟨fun _ => ⟨zeroExtend 0x401000, 7⟩, some fun _ => ⟨zeroExtend 0x401000, 7⟩⟩,
    ⟨some 0, 0x401000, true, []⟩)

def twoTransfers : ChainRun := ⟨3, 0, 0x400000, 0⟩

theorem returnExit_accounts :
    CallAccounts twoTransfers
      (callRun (wasmExit ⟨4, 1⟩) twoTransfers [returnExit, returnExit]) := by
  have hsteps : NoDoubleStep ⟨4, 1⟩ twoTransfers [returnExit, returnExit] := by
    refine ⟨?_, fun _ => ⟨?_, fun _ => trivial⟩⟩ <;> rintro ⟨_, _, _, _, h, _⟩
    · exact absurd h (by decide)
    · exact absurd h (by decide)
  exact ((wasm_call_accounts ⟨4, 1⟩ id twoTransfers [returnExit, returnExit] (by decide)
    rfl).2.1 hsteps).1

/-- The last transfer of a spent budget, made twice: the budget wraps and the call goes on. -/
theorem returnExit_outruns :
    let run : ChainRun := { twoTransfers with budget := 1 }
    let r := callRun (wasmExit ⟨4, 1⟩) run [returnExit]
    (r.run.budget = uint64Max ∧ r.entered.length = 1 ∧ r.returned = false) ∧
      ¬ CallAccounts run r ∧
      (callRun (x64Exit ⟨4, 1⟩ id) run [returnExit]).entered.length = 0 := by
  refine ⟨by decide, ?_, by decide⟩
  intro h
  exact absurd h.transfers_lt (by decide)

end X86Port.Jit
