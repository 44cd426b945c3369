import X86Port.Jit.LeafCall
import X86Port.Lib.BlockCode
import X86Port.Wasm.State

/-!
# Leaves on the WebAssembly host

`jit_wasm_leaf.c`, with the CALL of `jit_wasm_branch.c` that it completes.

* `run_siteLeaf`: the leaf that a site gives for the target in its local.
* `run_callIndirect`, `run_callDirect`: the code of a CALL comes to what `Jit.call` says.
-/

namespace X86Port.Wasm

open Jit (CallHeap Left LeafHost LeafSearch SiteHome)
open Lib

/-- `kX86pWasmImportLeafCall` and `kX86pWasmImportLeafSiteFill`. -/
inductive LeafImport where
  | leafCall
  | leafSiteFill
deriving DecidableEq

abbrev LeafPiece := List (StackCode.Instr WasmLocal LeafImport)

abbrev LeafFrame (γ : Type) (capacity : Nat) := StackCode.Frame (CallHeap γ 32 capacity) WasmLocal

/-- Plain code, and the routines that the CALL shares with other instructions: the read of its
operand into the target's local, the push of the result's local, and the exits. -/
inductive LeafInsn where
  | piece (code : LeafPiece)
  | readTarget
  | pushLocalR
  | exitImm (eip : U32)
  | exitLocal (eip : WasmLocal)

abbrev LeafCode := List (BlockCode.Item LeafInsn)

/-- What the code of a CALL runs in: the consumer, the addresses, the CALL's operand, and what
its routines leave in the locals they may write. -/
structure LeafEnv (γ : Type) (capacity : Nat) where
  host : LeafHost γ 32
  home : SiteHome 32 capacity
  callee : γ → Option U32
  left : LeafFrame γ capacity → WasmLocal → U32

section

variable {γ : Type} {capacity : Nat} (E : LeafEnv γ capacity)

/-- A leaf is its index in the function table of the main module, which makes the call. -/
def LeafEnv.callImport :
    LeafImport → List U32 → CallHeap γ 32 capacity → Option (Option U32 × CallHeap γ 32 capacity)
  | .leafCall, [cpu, leaf], h =>
    if cpu = E.home.cpu then
      some (some (h.callLeaf E.host leaf).1, (h.callLeaf E.host leaf).2)
    else none
  | .leafSiteFill, [site, target], h =>
    (E.home.siteAt site).map fun i =>
      (some (h.fill E.host i target).1, (h.fill E.host i target).2)
  | _, _, _ => none

def LeafEnv.env : StackCode.Env (CallHeap γ 32 capacity) LeafImport where
  load h width a :=
    if width = 4 then (E.home.load32 h a).or (E.home.loadPtr h a) else none
  store h width a v := if width = 4 then E.home.store32 h a v else none
  arity _ := 2
  call := E.callImport

def readKeeps : WasmLocal → Bool
  | .cpu => true
  | _ => false

/-- The push writes the address and the first operand's local, and not the target's. -/
def pushKeeps : WasmLocal → Bool
  | .cpu | .target => true
  | _ => false

/-- The locals after a routine. -/
def LeafEnv.after (keeps : WasmLocal → Bool) (fr : LeafFrame γ capacity) (x : WasmLocal) : U32 :=
  if keeps x then fr.locals x else E.left fr x

def LeafEnv.exec : LeafInsn → LeafFrame γ capacity →
    JumpCode.Reached (LeafFrame γ capacity) (Left γ 32 capacity)
  | .piece code, fr =>
    match StackCode.run E.env code fr with
    | .next fr => .next fr
    | _ => .trap
  | .readTarget, fr =>
    match E.callee fr.store.guest.rest with
    | some target =>
      .next { fr with locals := Function.update (E.after readKeeps fr) .target target }
    | none => .leave (fr.store.leave none)
  | .pushLocalR, fr =>
    match E.host.push (fr.locals .r) fr.store.guest.rest with
    | some rest =>
      .next { fr with store := fr.store.withRest rest, locals := E.after pushKeeps fr }
    | none => .leave (fr.store.leave none)
  | .exitImm eip, fr => .leave (fr.store.leave (some eip))
  | .exitLocal eip, fr => .leave (fr.store.leave (some (fr.locals eip)))

/-- The condition on top of the stack. -/
def popCondition (fr : LeafFrame γ capacity) : Option (Bool × LeafFrame γ capacity) :=
  match fr.stack with
  | c :: st => some (decide (c ≠ 0), { fr with stack := st })
  | [] => none

def LeafEnv.machine :
    BlockCode.Machine LeafInsn (LeafFrame γ capacity) (Left γ 32 capacity) :=
  ⟨E.exec, popCondition⟩

end

/-! ## What is emitted -/

section

variable {capacity : Nat} (H : SiteHome 32 capacity)

/-- A leaf of zero is the one in its local. -/
def callLeaf (leaf target : U32) (indirect : Bool) : LeafPiece := [
  .localGet .cpu,
  if indirect then .localGet .target else .const target,
  .store 4 H.eip,
  .localGet .cpu,
  if leaf ≠ 0 then .const leaf else .localGet .r,
  .call .leafCall]

def siteField (site : U32) (offset : Nat) : LeafPiece := [.const site, .load 4 offset]

def siteLeaf (site : U32) : LeafPiece :=
  siteField site Jit.targetAt ++ ([
    .localGet .target,
    .op .eq,
    .ite (siteField site Jit.leafAt)
      (siteField site Jit.refillsAt ++ ([
        .const Jit.leafSiteRefills,
        .op .ltU,
        .ite [.const site, .localGet .target, .call .leafSiteFill] [.const 0]] : LeafPiece)),
    .localSet .r] : LeafPiece)

/-- How a lowering comes by the site of a CALL: a first one claims it, a relowering is given the
one its block was published with. -/
structure SiteUse (capacity : Nat) where
  relowering : Bool
  site : Option (Fin capacity)

def takeSite (use : SiteUse capacity) (claimed : Option (Fin capacity)) : Option (Fin capacity) :=
  if use.relowering then use.site else claimed

/-- The block of `lower_site`. -/
def siteBlock (site : Fin capacity) (next : U32) : LeafCode := [
  .insn (.piece (siteLeaf (H.sitePtr site) ++ ([.localGet .r, .op .eqz] : LeafPiece))),
  .brIf 0,
  .insn (.piece (callLeaf H 0 0 true ++ ([.op .eqz] : LeafPiece))),
  .brIf 0,
  .insn (.exitImm next)]

def lowerSite (site : Fin capacity) (next : U32) : LeafCode :=
  [.block (siteBlock H site next), .insn (.exitLocal .target)]

def lowerDirect (leaf target next : U32) : LeafCode := [
  .insn (.piece (callLeaf H leaf target false)),
  .ifThen [.insn (.exitImm next)],
  .insn (.exitImm target)]

/-- An indirect CALL, whose `site` is what `takeSite` answers. -/
def callIndirect (site : Option (Fin capacity)) (next : U32) : LeafCode :=
  ([.insn .readTarget, .insn (.piece [.const next, .localSet .r]), .insn .pushLocalR] : LeafCode) ++
    match site with
    | some i => lowerSite H i next
    | none => [.insn (.exitLocal .target)]

/-- A direct CALL; `leaf` is the resolver's answer, zero without a resolver. -/
def callDirect (leaf target next : U32) : LeafCode :=
  ([.insn (.piece [.const next, .localSet .r]), .insn .pushLocalR] : LeafCode) ++
    if leaf ≠ 0 then lowerDirect H leaf target next else [.insn (.exitImm target)]

end

/-! ## The leaf of a site -/

section Site

variable {γ : Type} {capacity : Nat} {E : LeafEnv γ capacity} {h : CallHeap γ 32 capacity}
  {l : WasmLocal → U32} {st : List U32} {site : Fin capacity}

theorem load_target :
    E.env.load h 4 ((E.home.sitePtr site).toNat + Jit.targetAt) =
      some (h.pool.site site).target := by
  rw [LeafEnv.env, SiteHome.toNat_sitePtr]
  dsimp only
  rw [if_pos rfl, SiteHome.load32_target, Option.some_or]

theorem load_refills :
    E.env.load h 4 ((E.home.sitePtr site).toNat + Jit.refillsAt) =
      some (h.pool.site site).refills := by
  rw [LeafEnv.env, SiteHome.toNat_sitePtr]
  dsimp only
  rw [if_pos rfl, SiteHome.load32_refills, Option.some_or]

theorem load_leaf :
    E.env.load h 4 ((E.home.sitePtr site).toNat + Jit.leafAt) =
      some (h.pool.site site).leaf := by
  rw [LeafEnv.env, SiteHome.toNat_sitePtr]
  dsimp only
  rw [if_pos rfl, SiteHome.load32_leaf, SiteHome.loadPtr_leaf, Option.none_or]

theorem store_heapEip (v : U32) :
    E.env.store h 4 (E.home.cpu.toNat + E.home.eip) v = some (h.withEip v) := by
  rw [LeafEnv.env]
  dsimp only
  rw [if_pos rfl, SiteHome.store32_eip]

theorem call_leafCall (leaf : U32) :
    E.env.call .leafCall [E.home.cpu, leaf] h =
      some (some (h.callLeaf E.host leaf).1, (h.callLeaf E.host leaf).2) := if_pos rfl

theorem call_fill (target : U32) :
    E.env.call .leafSiteFill [E.home.sitePtr site, target] h =
      some (some (h.fill E.host site target).1, (h.fill E.host site target).2) := by
  change (E.home.siteAt (E.home.sitePtr site)).map _ = _
  rewrite [SiteHome.siteAt_sitePtr]
  rfl

/-- The code of `site_leaf` is the lookup. -/
theorem run_siteLeaf :
    StackCode.run E.env (siteLeaf (E.home.sitePtr site)) ⟨h, l, st⟩ =
      .next ⟨(h.siteLeaf E.host site (l .target)).2,
        Function.update l .r (h.siteLeaf E.host site (l .target)).1, st⟩ := by
  unfold siteLeaf siteField
  rw [List.cons_append, List.cons_append, List.nil_append, StackCode.run_const,
    StackCode.run_load _ _ _ _ _ load_target, StackCode.run_localGet,
    StackCode.run_op _ _ _ _ _ rfl, StackCode.run_ite_truth]
  by_cases htarget : (h.pool.site site).target = l .target
  · have hleaf : h.siteLeaf E.host site (l .target) = ((h.pool.site site).leaf, h) := if_pos htarget
    rw [if_pos (decide_eq_true htarget), StackCode.run_const,
      StackCode.run_load _ _ _ _ _ load_leaf, hleaf]
    rfl
  · rw [if_neg (by simpa using htarget), List.cons_append, List.cons_append, List.nil_append,
      StackCode.run_const, StackCode.run_load _ _ _ _ _ load_refills, StackCode.run_const,
      StackCode.run_op _ _ _ _ _ rfl, StackCode.run_ite_truth]
    by_cases hrefills : (h.pool.site site).refills < Jit.leafSiteRefills
    · have hleaf : h.siteLeaf E.host site (l .target) = h.fill E.host site (l .target) := by
        rw [CallHeap.siteLeaf, if_neg htarget, if_pos hrefills]
      have hargs : [l .target, E.home.sitePtr site].length = E.env.arity .leafSiteFill := rfl
      have hcall := StackCode.run_call E.env h l st [] hargs (call_fill (l .target))
      rewrite [List.cons_append, List.cons_append, List.nil_append] at hcall
      rw [if_pos (decide_eq_true hrefills), hleaf, StackCode.run_const, StackCode.run_localGet,
        hcall]
      rfl
    · have hleaf : h.siteLeaf E.host site (l .target) = (0, h) := by
        rw [CallHeap.siteLeaf, if_neg htarget, if_neg hrefills]
      rw [if_neg (by simpa using hrefills), hleaf]
      rfl

/-- The leaf in its local, on the target in its own. -/
theorem run_callLeaf_site (hcpu : l .cpu = E.home.cpu) :
    StackCode.run E.env (callLeaf E.home 0 0 true) ⟨h, l, st⟩ =
      .next ⟨((h.withEip (l .target)).callLeaf E.host (l .r)).2, l,
        ((h.withEip (l .target)).callLeaf E.host (l .r)).1 :: st⟩ := by
  have hargs : [l .r, E.home.cpu].length = E.env.arity .leafCall := rfl
  have hcode : callLeaf E.home 0 0 true = [.localGet .cpu, .localGet .target,
      .store 4 E.home.eip, .localGet .cpu, .localGet .r, .call .leafCall] := rfl
  rw [hcode, StackCode.run_localGet, StackCode.run_localGet, hcpu,
    StackCode.run_store _ _ _ _ _ (store_heapEip _), StackCode.run_localGet,
    StackCode.run_localGet, hcpu]
  exact StackCode.run_call E.env _ l st [] hargs (call_leafCall (l .r))

/-- A leaf known at translation. -/
theorem run_callLeaf_direct (hcpu : l .cpu = E.home.cpu) {leaf : U32} (hleaf : leaf ≠ 0)
    (target : U32) :
    StackCode.run E.env (callLeaf E.home leaf target false) ⟨h, l, st⟩ =
      .next ⟨((h.withEip target).callLeaf E.host leaf).2, l,
        ((h.withEip target).callLeaf E.host leaf).1 :: st⟩ := by
  have hargs : [leaf, E.home.cpu].length = E.env.arity .leafCall := rfl
  have hcode : callLeaf E.home leaf target false = [.localGet .cpu, .const target,
      .store 4 E.home.eip, .localGet .cpu, .const leaf, .call .leafCall] := by
    rewrite [callLeaf, if_pos hleaf]
    rfl
  rw [hcode, StackCode.run_localGet, StackCode.run_const, hcpu,
    StackCode.run_store _ _ _ _ _ (store_heapEip _), StackCode.run_localGet, StackCode.run_const,
    hcpu]
  exact StackCode.run_call E.env _ l st [] hargs (call_leafCall leaf)

end Site

/-! ## The code of a CALL -/

section Call

variable {γ : Type} {capacity : Nat} {E : LeafEnv γ capacity} {fr fr' : LeafFrame γ capacity}
  {next target : U32}

theorem exec_piece {code : LeafPiece} (h : StackCode.run E.env code fr = .next fr') :
    E.machine.exec (.piece code) fr = .next fr' := by
  change E.exec (.piece code) fr = .next fr'
  rw [LeafEnv.exec, h]

/-- The branch out where the word on top of the stack is zero. -/
theorem test_eqz (h : CallHeap γ 32 capacity) (l : WasmLocal → U32) (st : List U32) (v : U32) :
    E.machine.test ⟨h, l, StackCode.truth (decide (v = 0)) :: st⟩ =
      some (decide (v = 0), ⟨h, l, st⟩) := by
  by_cases hv : v = 0
  · rewrite [decide_eq_true hv]
    rfl
  · rewrite [decide_eq_false hv]
    rfl

theorem test_word (h : CallHeap γ 32 capacity) (l : WasmLocal → U32) (st : List U32) (v : U32) :
    E.machine.test ⟨h, l, v :: st⟩ = some (decide (v ≠ 0), ⟨h, l, st⟩) := rfl

/-- A branch out of a block, behind which the block's end is reached. -/
theorem run_branchOut {body rest : LeafCode}
    (hbody : BlockCode.run E.machine body fr = .branch 0 fr') :
    BlockCode.run E.machine (.block body :: rest) fr = BlockCode.run E.machine rest fr' :=
  BlockCode.run_block hbody

/-- The code of a site, the return address pushed and the target in its local. -/
theorem run_lowerSite {site : Fin capacity} {h : CallHeap γ 32 capacity} {l : WasmLocal → U32}
    {st : List U32} (hcpu : l .cpu = E.home.cpu) (htarget : l .target = target) :
    BlockCode.run E.machine (lowerSite E.home site next) ⟨h, l, st⟩ =
      .leave (Jit.takeLeaf E.host (h.siteLeaf E.host site target).1 target next
        (h.siteLeaf E.host site target).2) := by
  generalize hfound : h.siteLeaf E.host site target = found
  generalize hl' : Function.update l .r found.1 = l'
  have hcpu' : l' .cpu = E.home.cpu := by rw [← hl', Function.update_of_ne (by decide), hcpu]
  have htarget' : l' .target = target := by
    rw [← hl', Function.update_of_ne (by decide), htarget]
  have hleaf' : l' .r = found.1 := by rw [← hl', Function.update_self]
  have hlookup : StackCode.run E.env (siteLeaf (E.home.sitePtr site) ++
      ([.localGet .r, .op .eqz] : LeafPiece)) ⟨h, l, st⟩ =
        .next ⟨found.2, l', StackCode.truth (decide (found.1 = 0)) :: st⟩ := by
    rewrite [StackCode.run_append, run_siteLeaf, htarget, hfound, hl', ← hleaf']
    rfl
  unfold lowerSite
  by_cases hnone : found.1 = 0
  · rw [hnone, Jit.takeLeaf_zero]
    have htest := test_eqz (E := E) found.2 l' st found.1
    rw [decide_eq_true hnone] at htest hlookup
    have hbody : BlockCode.run E.machine (siteBlock E.home site next) ⟨h, l, st⟩ =
        .branch 0 ⟨found.2, l', st⟩ := by
      rw [siteBlock, BlockCode.run_insn (exec_piece hlookup), BlockCode.run_brIf_taken htest]
    rw [run_branchOut hbody]
    refine BlockCode.run_insn_leave ?_
    rewrite [← htarget']
    rfl
  · rw [Jit.takeLeaf_of_ne hnone]
    have htest := test_eqz (E := E) found.2 l' st found.1
    rw [decide_eq_false hnone] at htest hlookup
    generalize hcalled : (found.2.withEip target).callLeaf E.host found.1 = called
    have hcall : StackCode.run E.env (callLeaf E.home 0 0 true ++ ([.op .eqz] : LeafPiece))
        ⟨found.2, l', st⟩ =
          .next ⟨called.2, l', StackCode.truth (decide (called.1 = 0)) :: st⟩ := by
      rewrite [StackCode.run_append, run_callLeaf_site hcpu', htarget', hleaf', hcalled]
      rfl
    have hbody : BlockCode.run E.machine (siteBlock E.home site next) ⟨h, l, st⟩ =
        BlockCode.run E.machine [.brIf 0, .insn (.exitImm next)]
          ⟨called.2, l', StackCode.truth (decide (called.1 = 0)) :: st⟩ := by
      rw [siteBlock, BlockCode.run_insn (exec_piece hlookup), BlockCode.run_brIf_passed htest,
        BlockCode.run_insn (exec_piece hcall)]
    have htest' := test_eqz (E := E) called.2 l' st called.1
    by_cases hanswer : called.1 = 0
    · rw [decide_eq_true hanswer] at htest' hbody
      rw [if_pos hanswer, run_branchOut (hbody.trans (BlockCode.run_brIf_taken htest'))]
      refine BlockCode.run_insn_leave ?_
      rewrite [← htarget']
      rfl
    · rw [decide_eq_false hanswer] at htest' hbody
      rw [if_neg hanswer]
      exact BlockCode.run_block (hbody.trans ((BlockCode.run_brIf_passed htest').trans
        (BlockCode.run_insn_leave rfl)))

/-- The return address in its local. -/
theorem exec_returnAddress (fr : LeafFrame γ capacity) :
    E.machine.exec (.piece [.const next, .localSet .r]) fr =
      .next { fr with locals := Function.update fr.locals .r next } :=
  exec_piece rfl

theorem exec_push {h : CallHeap γ 32 capacity} {l : WasmLocal → U32} {st : List U32} {rest : γ}
    (hr : l .r = next) (hpush : E.host.push next h.guest.rest = some rest) :
    E.machine.exec .pushLocalR ⟨h, l, st⟩ =
      .next ⟨h.withRest rest, E.after pushKeeps ⟨h, l, st⟩, st⟩ := by
  subst hr
  change E.exec .pushLocalR ⟨h, l, st⟩ = _
  rw [LeafEnv.exec]
  dsimp only
  rw [hpush]

theorem exec_push_none {h : CallHeap γ 32 capacity} {l : WasmLocal → U32} {st : List U32}
    (hr : l .r = next) (hpush : E.host.push next h.guest.rest = none) :
    E.machine.exec .pushLocalR ⟨h, l, st⟩ = .leave (h.leave none) := by
  subst hr
  change E.exec .pushLocalR ⟨h, l, st⟩ = _
  rw [LeafEnv.exec]
  dsimp only
  rw [hpush]

/-- An indirect CALL. -/
theorem run_callIndirect (hcpu : fr.locals .cpu = E.home.cpu) (claimed : Option (Fin capacity)) :
    BlockCode.run E.machine (callIndirect E.home claimed next) fr =
      .leave (Jit.call E.host E.callee (.indirect claimed) next fr.store) := by
  unfold Jit.call callIndirect
  cases hcallee : E.callee fr.store.guest.rest with
  | none =>
    have hread : E.machine.exec .readTarget fr = .leave (fr.store.leave none) := by
      change E.exec .readTarget fr = _
      rw [LeafEnv.exec, hcallee]
    exact BlockCode.run_insn_leave hread
  | some target =>
    generalize hl :
      Function.update (Function.update (E.after readKeeps fr) .target target) .r next = l
    have hcpu₁ : l .cpu = E.home.cpu := by
      rw [← hl, Function.update_of_ne (by decide), Function.update_of_ne (by decide), ← hcpu]
      rfl
    have htarget₁ : l .target = target := by
      rw [← hl, Function.update_of_ne (by decide), Function.update_self]
    have hr₁ : l .r = next := by rw [← hl, Function.update_self]
    have hread : E.machine.exec .readTarget fr =
        .next { fr with locals := Function.update (E.after readKeeps fr) .target target } := by
      change E.exec .readTarget fr = _
      rw [LeafEnv.exec, hcallee]
    rw [List.cons_append, List.cons_append, List.cons_append, List.nil_append,
      BlockCode.run_insn hread, BlockCode.run_insn (exec_returnAddress _), hl]
    dsimp only
    cases hpush : E.host.push next fr.store.guest.rest with
    | none => exact BlockCode.run_insn_leave (exec_push_none hr₁ hpush)
    | some rest =>
      rw [BlockCode.run_insn (exec_push hr₁ hpush)]
      cases claimed with
      | none =>
        dsimp only [LeafSearch.find]
        rw [Jit.takeLeaf_zero]
        refine BlockCode.run_insn_leave ?_
        rewrite [← htarget₁]
        rfl
      | some site => exact run_lowerSite hcpu₁ htarget₁

/-- A direct CALL. -/
theorem run_callDirect (hcpu : fr.locals .cpu = E.home.cpu) (leafed : Bool) :
    BlockCode.run E.machine (callDirect E.home (E.host.directLeaf leafed target) target next) fr =
      .leave (Jit.call E.host (fun _ => some target) (.direct leafed) next fr.store) := by
  unfold Jit.call callDirect
  generalize hl : Function.update fr.locals .r next = l
  have hcpu₁ : l .cpu = E.home.cpu := by rw [← hl, Function.update_of_ne (by decide), hcpu]
  have hr₁ : l .r = next := by rw [← hl, Function.update_self]
  rw [List.cons_append, List.cons_append, List.nil_append,
    BlockCode.run_insn (exec_returnAddress _), hl]
  dsimp only
  cases hpush : E.host.push next fr.store.guest.rest with
  | none => exact BlockCode.run_insn_leave (exec_push_none hr₁ hpush)
  | some rest =>
    rw [BlockCode.run_insn (exec_push hr₁ hpush)]
    dsimp only [LeafSearch.find]
    generalize E.host.directLeaf leafed target = leaf
    by_cases hnone : leaf = 0
    · rw [hnone, Jit.takeLeaf_zero]
      exact BlockCode.run_insn_leave rfl
    · rw [if_pos hnone, Jit.takeLeaf_of_ne hnone]
      generalize hcalled : ((fr.store.withRest rest).withEip target).callLeaf E.host leaf = called
      generalize hl' : E.after pushKeeps ⟨fr.store, l, fr.stack⟩ = l'
      have hcpu' : l' .cpu = E.home.cpu := by
        rw [← hl', ← hcpu₁]
        rfl
      have hcall : StackCode.run E.env (callLeaf E.home leaf target false)
          ⟨fr.store.withRest rest, l', fr.stack⟩ = .next ⟨called.2, l', called.1 :: fr.stack⟩ := by
        rw [run_callLeaf_direct hcpu' hnone, hcalled]
      have htest := test_word (E := E) called.2 l' fr.stack called.1
      rw [lowerDirect, BlockCode.run_insn (exec_piece hcall)]
      by_cases hanswer : called.1 = 0
      · rw [decide_eq_false (not_not.mpr hanswer)] at htest
        rw [BlockCode.run_ifThen_passed htest, if_pos hanswer]
        exact BlockCode.run_insn_leave rfl
      · rw [decide_eq_true hanswer] at htest
        rw [if_neg hanswer]
        exact BlockCode.run_ifThen_taken htest (BlockCode.run_insn_leave rfl)

end Call

end X86Port.Wasm
