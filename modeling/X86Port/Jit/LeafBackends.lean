import X86Port.Arm64.LeafSite
import X86Port.Wasm.LeafSite
import X86Port.X64.LeafSite

/-!
# Leaf calls on every backend

The code of a CALL as each backend emits it, in runs of the engine that translate, rewind, evict
and flush blocks between CALLs.

* `runs_call`, `runs_unique`: the code comes to what `call` says, whatever the registers hold.
* `trace_reachable`: what the code leaves of the pool is the lookup's.
* `leaf_calls_transparent`: every CALL of every run.
-/

namespace X86Port.Jit

open Lib.JumpCode (Ends)

inductive LeafBackend where
  | x64 (abi : X64.HostAbi)
  | arm64
  | wasm

/-- The bits of a pointer. -/
def LeafBackend.bits : LeafBackend → Nat
  | .x64 _ => 64
  | .arm64 => 64
  | .wasm => 32

/-- A translated CALL: a direct one in a block with or without a resolver, or one through the
operand that `read` reads, with the answer of its claim. -/
inductive GuestCall (γ : Type) (capacity : Nat) where
  | direct (target : U32) (leafed : Bool)
  | indirect (read : γ → Option U32) (claimed : Option (Fin capacity))

section

variable {γ : Type} {capacity : Nat}

def GuestCall.callee : GuestCall γ capacity → γ → Option U32
  | .direct target _, _ => some target
  | .indirect read _, rest => read rest

def GuestCall.search : GuestCall γ capacity → LeafSearch capacity
  | .direct _ leafed => .direct leafed
  | .indirect _ claimed => .indirect claimed

/-- What a WebAssembly block was lowered with at a CALL, what its routines leave behind, and the
frame it runs in. -/
structure WasmStart (γ : Type) (capacity : Nat) where
  use : Wasm.SiteUse capacity
  answer : Option (Fin capacity)
  left : Wasm.LeafFrame γ capacity → Wasm.WasmLocal → U32
  frame : Wasm.LeafFrame γ capacity

/-- What the code of a CALL starts from: what its routines and calls will leave behind, and the
registers with the heap. -/
def LeafBackend.Start (γ : Type) (capacity : Nat) : LeafBackend → Type
  | .x64 _ => Leftover X64.HostReg γ capacity × NativeState X64.HostReg γ capacity
  | .arm64 => Leftover Arm64.A64Reg γ capacity × NativeState Arm64.A64Reg γ capacity
  | .wasm => WasmStart γ capacity

def LeafBackend.heap : (B : LeafBackend) → B.Start γ capacity → CallHeap γ B.bits capacity
  | .x64 _, start => start.2.heap
  | .arm64, start => start.2.heap
  | .wasm, start => start.frame.store

/-- The CPU pointer is where the block keeps it, and a WebAssembly lowering took the CALL's site,
from its claim or from the block it relowers. -/
def LeafBackend.Ready :
    (B : LeafBackend) → SiteHome B.bits capacity → GuestCall γ capacity → B.Start γ capacity → Prop
  | .x64 _, home, _, start => start.2.reg X64.cpuReg = home.cpu
  | .arm64, home, _, start => start.2.reg Arm64.cpuReg = home.cpu
  | .wasm, home, .direct _ _, start => start.frame.locals .cpu = home.cpu
  | .wasm, home, .indirect _ claimed, start =>
    start.frame.locals .cpu = home.cpu ∧ Wasm.takeSite start.use start.answer = claimed

/-- The code of the CALL leaves its block with `left`. -/
def LeafBackend.Runs : (B : LeafBackend) → LeafHost γ B.bits → SiteHome B.bits capacity →
    GuestCall γ capacity → U32 → B.Start γ capacity → Left γ B.bits capacity → Prop
  | .x64 abi, host, home, .direct target leafed, ret, start, left =>
    let E : NativeEnv X64.HostReg γ capacity := ⟨host, home, fun _ => some target, start.1⟩
    let code := X64.emitCallRel abi home (host.directLeaf leafed target) ret target
    Ends (X64.leafMachine abi E) code code start.2 left
  | .x64 abi, host, home, .indirect read claimed, ret, start, left =>
    let E : NativeEnv X64.HostReg γ capacity := ⟨host, home, read, start.1⟩
    let code := X64.emitCallIndirect abi home claimed ret
    Ends (X64.leafMachine abi E) code code start.2 left
  | .arm64, host, home, .direct target leafed, ret, start, left =>
    let E : NativeEnv Arm64.A64Reg γ capacity := ⟨host, home, fun _ => some target, start.1⟩
    let code := Arm64.emitCallRel home (host.directLeaf leafed target) ret target
    Ends (Arm64.leafMachine E) code code start.2 left
  | .arm64, host, home, .indirect read claimed, ret, start, left =>
    let E : NativeEnv Arm64.A64Reg γ capacity := ⟨host, home, read, start.1⟩
    let code := Arm64.emitCallIndirect home claimed ret
    Ends (Arm64.leafMachine E) code code start.2 left
  | .wasm, host, home, .direct target leafed, ret, start, left =>
    let E : Wasm.LeafEnv γ capacity := ⟨host, home, fun _ => some target, start.left⟩
    let code := Wasm.callDirect home (host.directLeaf leafed target) target ret
    Lib.BlockCode.run E.machine code start.frame = .leave left
  | .wasm, host, home, .indirect read _, ret, start, left =>
    let E : Wasm.LeafEnv γ capacity := ⟨host, home, read, start.left⟩
    let code := Wasm.callIndirect home (Wasm.takeSite start.use start.answer) ret
    Lib.BlockCode.run E.machine code start.frame = .leave left

/-- A CALL leaves its block in one way. -/
theorem runs_unique {B : LeafBackend} {host : LeafHost γ B.bits} {home : SiteHome B.bits capacity}
    {guestCall : GuestCall γ capacity} {ret : U32} {start : B.Start γ capacity}
    {left left' : Left γ B.bits capacity} (h : B.Runs host home guestCall ret start left)
    (h' : B.Runs host home guestCall ret start left') : left = left' := by
  cases B with
  | x64 abi => cases guestCall <;> exact Ends.unique h h'
  | arm64 => cases guestCall <;> exact Ends.unique h h'
  | wasm => cases guestCall <;> exact Lib.BlockCode.Flow.leave.inj (h.symm.trans h')

/-- The code of a CALL comes to what the CALL comes to, where the leaf it finds changes nothing
when it declines. -/
theorem runs_call {B : LeafBackend} {host : LeafHost γ B.bits} {home : SiteHome B.bits capacity}
    {guestCall : GuestCall γ capacity} {start : B.Start γ capacity}
    (hready : B.Ready home guestCall start)
    (hleaf : ∀ target rest,
      (guestCall.search.find host target ((B.heap start).withRest rest)).1 ≠ 0 →
      host.Declines (guestCall.search.find host target ((B.heap start).withRest rest)).1
        ⟨target, rest⟩) (ret : U32) :
    B.Runs host home guestCall ret start
      (call host guestCall.callee guestCall.search ret (B.heap start)) := by
  cases B with
  | x64 abi =>
    cases guestCall with
    | direct target leafed =>
      exact X64.ends_callRel (E := ⟨host, home, fun _ => some target, start.1⟩) hready leafed
    | indirect read claimed =>
      exact X64.ends_callIndirect (E := ⟨host, home, read, start.1⟩) hready claimed hleaf
  | arm64 =>
    cases guestCall with
    | direct target leafed =>
      exact Arm64.ends_callRel (E := ⟨host, home, fun _ => some target, start.1⟩) hready leafed
    | indirect read claimed =>
      exact Arm64.ends_callIndirect (E := ⟨host, home, read, start.1⟩) hready claimed hleaf
  | wasm =>
    cases guestCall with
    | direct target leafed =>
      exact Wasm.run_callDirect (E := ⟨host, home, fun _ => some target, start.left⟩) hready leafed
    | indirect read claimed =>
      obtain ⟨hcpu, rfl⟩ := hready
      exact Wasm.run_callIndirect (E := ⟨host, home, read, start.left⟩) hcpu _

end

/-! ## Runs of the engine -/

section

variable {β γ : Type} {capacity : Nat} {B : LeafBackend} {host : LeafHost γ B.bits}
  {home : SiteHome B.bits capacity} {Returns : LeafGuest γ → LeafGuest γ → Prop}

/-- One CALL that ran: the rest of the guest before it, and how it left its block. -/
structure Executed (γ : Type) (p capacity : Nat) where
  guestCall : GuestCall γ capacity
  ret : U32
  before : γ
  left : Left γ p capacity

/-- The CALL of a live block: one through a site has it from its block. -/
def GuestCall.Live {p : Nat} (w : SiteWorld β p capacity) : GuestCall γ capacity → Prop
  | .indirect _ (some i) => ∃ b, w.block b = some (some i)
  | _ => True

/-- The pool and the answers of its sites after a CALL that left so. -/
def SiteWorld.after {p : Nat} (w : SiteWorld β p capacity) (left : Left γ p capacity) :
    SiteWorld β p capacity :=
  { w with pool := left.pool, filled := fun i => w.filled i + left.fills.count i }

/-- The heap that a CALL starts on. -/
def SiteWorld.heap {p : Nat} (w : SiteWorld β p capacity) (eip : U32) (before : γ) :
    CallHeap γ p capacity :=
  ⟨⟨eip, before⟩, w.pool, [], []⟩

variable {w : SiteWorld β B.bits capacity} {guestCall : GuestCall γ capacity}

/-- In a sound state a CALL finds no leaf, or its target's. -/
theorem find_answer (hw : w.Sound host.resolve) (hlive : guestCall.Live w) (eip : U32) (before : γ)
    (target : U32) (rest : γ) :
    (guestCall.search.find host target ((w.heap eip before).withRest rest)).1 = 0 ∨
      (guestCall.search.find host target ((w.heap eip before).withRest rest)).1 =
        host.resolve target := by
  rcases guestCall with ⟨callee, leafed⟩ | ⟨read, _ | i⟩
  · cases leafed with
    | true => exact .inr rfl
    | false => exact .inl rfl
  · exact .inl rfl
  · obtain ⟨b, hb⟩ := hlive
    have hanswer := hw.siteLeaf_answer (hw.held b i hb) target
    have hfound : (((w.heap eip before).withRest rest).siteLeaf host i target).1 =
        (w.pool.siteLeaf host.resolve i target).1 := (siteLeaf_pool _ i target).1
    exact hanswer.imp hfound.trans hfound.trans

/-- The code of a CALL in a sound state. -/
theorem runs_sound (hhost : host.Contract Returns) (hw : w.Sound host.resolve)
    (hlive : guestCall.Live w) {start : B.Start γ capacity} (hready : B.Ready home guestCall start)
    {eip : U32} {before : γ} (hheap : B.heap start = w.heap eip before) (ret : U32) :
    B.Runs host home guestCall ret start
      (call host guestCall.callee guestCall.search ret (w.heap eip before)) := by
  rw [← hheap]
  refine runs_call hready (fun target rest hleaf => ?_) ret
  rw [hheap] at hleaf ⊢
  exact hhost.found (find_answer hw hlive eip before target rest) rest hleaf

theorem after_same {left : Left γ B.bits capacity} (hpool : left.pool = w.pool)
    (hfills : left.fills = []) : w.after left = w := by
  unfold SiteWorld.after
  rw [hpool, hfills]
  rfl

theorem after_site {left : Left γ B.bits capacity} {i : Fin capacity} {target : U32}
    (hpool : left.pool = (w.pool.siteLeaf host.resolve i target).2)
    (hfills : left.fills = if w.pool.Asks i target then [i] else []) :
    w.after left = w.call host.resolve i target := by
  unfold SiteWorld.after SiteWorld.call
  rw [hpool, hfills]
  congr 1
  funext j
  split_ifs with hasks
  · rw [Function.update_apply]
    split_ifs with hji
    · rw [hji, List.count_singleton_self]
    · rw [List.count_singleton, if_neg (by simpa using Ne.symm hji), Nat.add_zero]
  · rfl

variable [DecidableEq β]

variable (B host home) in
/-- A run of the engine and of the code of its blocks, with the CALLs so far, the last first. -/
inductive Trace : List (Executed γ B.bits capacity) → SiteWorld β B.bits capacity → Prop
  | start : Trace [] (SiteWorld.create β B.bits capacity)
  | engine {es : List (Executed γ B.bits capacity)} {w w' : SiteWorld β B.bits capacity} :
      Trace es w → w.EngineStep w' → Trace es w'
  | called {es : List (Executed γ B.bits capacity)} {w : SiteWorld β B.bits capacity}
      {guestCall : GuestCall γ capacity} {start : B.Start γ capacity} {ret eip : U32} {before : γ}
      {left : Left γ B.bits capacity} : Trace es w → guestCall.Live w →
      B.Ready home guestCall start → B.heap start = w.heap eip before →
      B.Runs host home guestCall ret start left →
      Trace (⟨guestCall, ret, before, left⟩ :: es) (w.after left)

/-- What a CALL leaves of the pool is what its lookup leaves. -/
theorem after_call (hlive : guestCall.Live w) (ret eip : U32) (before : γ) :
    Relation.ReflTransGen (SiteWorld.Step host.resolve) w
      (w.after (call host guestCall.callee guestCall.search ret (w.heap eip before))) := by
  unfold call
  cases hcallee : guestCall.callee (w.heap eip before).guest.rest with
  | none => rw [after_same rfl rfl]
  | some target =>
    cases hpush : host.push ret (w.heap eip before).guest.rest with
    | none => rw [after_same rfl rfl]
    | some rest =>
      dsimp only
      generalize hfound : guestCall.search.find host target ((w.heap eip before).withRest rest) =
        found
      obtain ⟨hpool, hfills⟩ := takeLeaf_pool host found.1 target ret found.2
      rcases guestCall with ⟨callee, leafed⟩ | ⟨read, _ | i⟩
      · subst hfound
        rw [after_same hpool hfills]
      · subst hfound
        rw [after_same hpool hfills]
      · obtain ⟨b, hb⟩ := hlive
        subst hfound
        have hlookup : (((w.heap eip before).withRest rest).siteLeaf host i target).2.pool =
            (w.pool.siteLeaf host.resolve i target).2 := (siteLeaf_pool _ i target).2
        have hfilled : (((w.heap eip before).withRest rest).siteLeaf host i target).2.fills =
            if w.pool.Asks i target then [i] else [] := (siteLeaf_fills _ i target).2.2
        rw [after_site (hpool.trans hlookup) (hfills.trans hfilled)]
        exact .single (.called target hb)

variable {es : List (Executed γ B.bits capacity)}

theorem trace_reachable (hhost : host.Contract Returns) (h : Trace B host home es w) :
    w.Reachable host.resolve := by
  induction h with
  | start => exact .refl
  | engine _ hstep ih => exact ih.tail (.engine hstep)
  | called _ hlive hready hheap hruns ih =>
    have hsound := SiteWorld.reachable_sound ih
    rw [runs_unique hruns (runs_sound hhost hsound hlive hready hheap _)]
    exact ih.trans (after_call hlive _ _ _)

/-- How a CALL was left, and which leaf it called. -/
def Executed.IsTransparent {p : Nat} (host : LeafHost γ p)
    (Returns : LeafGuest γ → LeafGuest γ → Prop) (e : Executed γ p capacity) : Prop :=
  LeafTransparent host Returns e.guestCall.callee e.ret e.before e.left.dest e.left.rest
    e.left.entries

theorem trace_transparent (hhost : host.Contract Returns)
    (h : Trace B host home es w) : ∀ e ∈ es, e.IsTransparent host Returns := by
  induction h with
  | start => exact nofun
  | engine _ _ ih => exact ih
  | @called es w guestCall start ret eip before left htrace hlive hready hheap hruns ih =>
    have hsound := SiteWorld.reachable_sound (trace_reachable hhost htrace)
    have hleft := runs_unique hruns (runs_sound hhost hsound hlive hready hheap ret)
    intro e he
    obtain rfl | he := List.mem_cons.mp he
    · rw [hleft]
      exact call_transparent hhost rfl (find_answer hsound hlive eip before)
    · exact ih e he

/-- In every run, every CALL is left as an ordinary CALL is, or for its return address when the
leaf of its target completed; a live block's CALL leaves its block whatever its registers hold;
no site was filled more often than its refills allow, and no two live blocks share one. -/
theorem leaf_calls_transparent (hhost : host.Contract Returns)
    (h : Trace B host home es w) :
    (∀ e ∈ es, e.IsTransparent host Returns) ∧
      (∀ (guestCall : GuestCall γ capacity) (start : B.Start γ capacity) (ret eip : U32)
        (before : γ), guestCall.Live w → B.Ready home guestCall start →
        B.heap start = w.heap eip before → ∃ left, B.Runs host home guestCall ret start left) ∧
      (∀ i, w.filled i ≤ leafSiteRefills.toNat) ∧
      ∀ b c i, w.block b = some (some i) → w.block c = some (some i) → b = c := by
  have hsound := SiteWorld.reachable_sound (trace_reachable hhost h)
  refine ⟨trace_transparent hhost h, fun guestCall start ret eip before hlive hready hheap => ?_,
    hsound.bounded, hsound.apart⟩
  exact ⟨_, runs_sound hhost hsound hlive hready hheap ret⟩

end

/-! ## One leaf and three CALLs -/

theorem oneSite_wide : 32 ≤ 32 := Nat.le_refl 32

theorem oneSite_eip : 0 + 4 ≤ 8 := by decide

theorem oneSite_cpu : (0 : U32).toNat + 8 ≤ 2 ^ 32 := by decide

theorem oneSite_sites : (4096 : U32).toNat + 1 * siteBytes 32 ≤ 2 ^ 32 := by decide

theorem oneSite_apart : (0 : U32).toNat + 8 ≤ (4096 : U32).toNat ∨
    (4096 : U32).toNat + 1 * siteBytes 32 ≤ (0 : U32).toNat := by decide

/-- A guest CPU of two words, and one site beyond it. -/
def oneSite : SiteHome 32 1 :=
  ⟨0, 8, 0, 4096, 7, oneSite_wide, oneSite_eip, oneSite_cpu, oneSite_sites, oneSite_apart⟩

/-- A consumer with a leaf for address 5, which pops its return address. The rest of its guest is
the top of the stack. -/
def oneLeaf : LeafHost U32 32 where
  resolve target := if target = 5 then 1 else 0
  leaf _ g := (1, ⟨g.rest, 0⟩)
  push ret _ := some ret

theorem oneLeaf_contract : oneLeaf.Contract fun g g' => g' = ⟨g.rest, 0⟩ where
  declines _ _ _ hanswer := absurd hanswer (show ¬ (1 : U32) = 0 by decide)
  completes _ _ _ _ _ hpush _ := ⟨(Option.some.inj hpush).symm, rfl⟩

/-- One block, whose CALL has claimed the site. -/
def oneBlock : SiteWorld Unit 32 1 :=
  { (SiteWorld.create Unit 32 1).claim ⟨0, none⟩ with
    block := Function.update (fun _ => none) () (some (some ⟨0, Nat.one_pos⟩))
    translation := none }

theorem oneBlock_trace : Trace .wasm oneLeaf oneSite [] oneBlock := by
  have hstart : Trace .wasm oneLeaf oneSite [] (SiteWorld.create Unit 32 1) := .start
  have hclaimed := (hstart.engine (.marked rfl)).engine (.claimed rfl)
  exact hclaimed.engine (.published (t := ⟨0, some ⟨0, Nat.one_pos⟩⟩) (b := ()) rfl rfl)

/-- A CALL through an operand that holds the top of the stack, with the site. -/
def operandCall : GuestCall U32 1 := .indirect some (some ⟨0, Nat.one_pos⟩)

def operandStart (w : SiteWorld Unit 32 1) (before : U32) : LeafBackend.wasm.Start U32 1 :=
  ⟨⟨true, some ⟨0, Nat.one_pos⟩⟩, none, fun _ _ => 0, ⟨w.heap 0 before, fun _ => 0, []⟩⟩

theorem Trace.operandCalled {es : List (Executed U32 32 1)} {w : SiteWorld Unit 32 1}
    (h : Trace .wasm oneLeaf oneSite es w) (hlive : operandCall.Live w) (before : U32) :
    Trace .wasm oneLeaf oneSite
      (⟨operandCall, 100, before,
        call oneLeaf operandCall.callee operandCall.search 100 (w.heap 0 before)⟩ :: es)
      (w.after (call oneLeaf operandCall.callee operandCall.search 100 (w.heap 0 before))) := by
  have hsound := SiteWorld.reachable_sound (trace_reachable oneLeaf_contract h)
  have hready : LeafBackend.Ready .wasm oneSite operandCall (operandStart w before) := ⟨rfl, rfl⟩
  exact h.called hlive hready rfl (runs_sound oneLeaf_contract hsound hlive hready rfl 100)

/-- Two CALLs of the leaf's address, the second answered by the site, and one of an address that
has no leaf. -/
theorem leaf_calls_transparent_oneLeaf :
    ∃ (es : List (Executed U32 32 1)) (w : SiteWorld Unit 32 1),
      Trace .wasm oneLeaf oneSite es w ∧
        es.map (fun e => (e.before, e.left.dest, e.left.entries.length)) =
          [(9, some 9, 0), (5, some 100, 1), (5, some 100, 1)] ∧
        w.filled ⟨0, Nat.one_pos⟩ = 2 ∧
        ∀ e ∈ es, e.IsTransparent oneLeaf fun g g' => g' = ⟨g.rest, 0⟩ := by
  have hfirst := oneBlock_trace.operandCalled ⟨(), rfl⟩ 5
  have hsecond := hfirst.operandCalled ⟨(), rfl⟩ 5
  have hthird := hsecond.operandCalled ⟨(), rfl⟩ 9
  exact ⟨_, _, hthird, rfl, rfl, (leaf_calls_transparent oneLeaf_contract hthird).1⟩
end X86Port.Jit
