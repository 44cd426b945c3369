import X86Port.Wasm.Lower
import X86Port.Wasm.Rows

/-!
# Runs of translated blocks

The block loop of `jit_wasm_lower.c` over the rows of its dispatch table, and a run of the body it
writes beside the interpreter over the code it was written from.

* `lowerLoop_progress`: what the loop has written goes where the interpreter goes.
* `lowerBlock_runs`: so does a whole body, wherever it leaves.
-/

namespace X86Port.Wasm

open Lib StackCode
open Memory (Host)
open Cpu (Ctx Exec Insn OtherOp Alike GuestMem)
open Cpu.Exec
open Jit (JitExit JitBlock)

/-! ## The families -/

/-- The rows of the table that are elsewhere. -/
structure OtherRows where
  accepts : Insn → Bool
  terminates : Insn → Bool
  lower : WasmLower → Insn → U32 → Code × WasmLower

/-- The decoder, the plan of a translation, what its chained exits emit and count, the leaves its
CALLs find, and the bytes that bodies come to. -/
structure RowTable where
  decode : List U8 → Option Insn
  plan : WasmPlan
  lay : CpuLayout
  chainEmit : ChainUse → ExitTarget → Code
  chainExits : ChainUse → Code → ChainExits
  resolve : U32 → U32
  claimed : Option U32
  bodyRoom : List Code → Bool
  here : List Code → Code → Nat
  cap : Nat
  intact : List Code → Bool
  elsewhere : OtherRows

namespace RowTable

variable (B : RowTable)

/-- Without a chain, an exit emits nothing behind the store of the EIP. -/
def state (use : ChainUse) : WasmState :=
  ⟨B.plan, B.lay, if use.chain.isSome then B.chainEmit use else fun _ => []⟩

def exits (use : ChainUse) (code : Code) : ChainExits :=
  if use.chain.isSome then B.chainExits use code else ⟨false, none, 0, 0, false, 0⟩

/-- A relowering claims no site. -/
def leafCalls (leaf : LeafUse) : LeafCalls :=
  ⟨B.resolve, if leaf.relowering then leaf.site.map (BitVec.ofNat 32) else B.claimed⟩

theorem unchained_state {use : ChainUse} (h : use.chain = none) : (B.state use).Unchained := by
  intro target
  unfold state
  rw [h]
  rfl

end RowTable

/-- A body that is being written, behind the bodies of its module. -/
structure OpenBody where
  module : List Code
  chain : ChainUse
  low : WasmLower
  code : Code

def OpenBody.add (b : OpenBody) (lowered : Code × WasmLower) : OpenBody :=
  { b with low := lowered.2, code := b.code ++ lowered.1 }

def rowFamilies (B : RowTable) : Families Insn (List Code) OpenBody (List Code) where
  decode := B.decode
  length := fun i => i.length.toNat
  accepts := fun i => rowAccepts i || B.elsewhere.accepts i
  terminates := fun i => if rowAccepts i then rowTerminates i else B.elsewhere.terminates i
  continues := rowContinues
  lower := fun i pc b =>
    b.add (if rowAccepts i then rowLower b.low i pc else B.elsewhere.lower b.low i pc)
  continueLower := fun i pc b => b.add (rowContinue b.low i pc)
  exitImm := fun eip exit b => { b with code := b.code ++ b.low.state.exitImm eip exit }
  moduleInit := fun _ _ => []
  bodyBegin := fun m _ chain leaf =>
    if B.bodyRoom m then
      some ⟨m, chain, ⟨B.state chain, none, none, leaf.map B.leafCalls, none⟩, []⟩
    else none
  bodyEnd := fun b => b.module ++ [b.code]
  finish := some
  size := List.length
  here := fun b => B.here b.module b.code
  cap := fun _ => B.cap
  intact := B.intact
  chain := fun b => B.exits b.chain b.code
  leafSite := fun b => b.low.leafSite.map BitVec.toNat

/-! ## The interpreter -/

section

variable (B : RowTable) (fetch : Fetch) (g : GuestMem Host)
  (other : OtherOp → Insn → Exec Host Unit)

/-- `x86p_step`, over the code the block is lowered from. -/
def interpretStep : Exec Host Unit := do
  let pc ← ask fun s => s.cpu.eip
  if fetchInsn fetch pc maxInsnLen = [] then fault .fetchFault pc
  else
    match B.decode (fetchInsn fetch pc maxInsnLen) with
    | none => fault .decodeFailed pc
    | some i => executeDecoded g other i

def interpretSteps : Nat → Exec Host Unit
  | 0 => pure ()
  | n + 1 => do
    interpretSteps n
    interpretStep B fetch g other

/-- The instruction at an address. -/
def insnAt (pc : U32) : Option Insn :=
  if fetchInsn fetch pc maxInsnLen = [] then none else B.decode (fetchInsn fetch pc maxInsnLen)

/-- The interpreter is past `n` instructions, and none of them took a branch. -/
structure Straight (n : Nat) (t u : Ctx Host) : Prop where
  steps : interpretSteps B fetch g other n t = .ok () u
  untaken : ∀ k < n, ∀ w i, interpretSteps B fetch g other k t = .ok () w →
    insnAt B fetch w.cpu.eip = some i → ¬ Taken i w

/-- The interpreter leaves a block from the inside: with the instruction that takes a branch, or
at one that faults. -/
inductive LeavesWithin (count : Nat) (t : Ctx Host) : JitExit → Nat → Ctx Host → Prop
  | taken {n u u' i} : n < count → Straight B fetch g other n t u →
      insnAt B fetch u.cpu.eip = some i → Taken i u → interpretStep B fetch g other u = .ok () u' →
      LeavesWithin count t .blockEnd (n + 1) u'
  | faulted {n u u' addr} : n < count → Straight B fetch g other n t u →
      interpretStep B fetch g other u = .error (.fault .memoryFault addr) u' →
      LeavesWithin count t .memoryFault n u

/-- The exit by which the interpreter leaves the block that the loop has lowered, after how many
instructions and in which state. -/
inductive BlockLeaves (r : LoopEnd OpenBody) (t : Ctx Host) : JitExit → Nat → Ctx Host → Prop
  | within {exit n u} : LeavesWithin B fetch g other r.count t exit n u → BlockLeaves r t exit n u
  | ended {u} : r.terminated = false → Straight B fetch g other r.count t u → u.cpu.eip = r.pc →
      BlockLeaves r t r.exit r.count u

end

section

variable {B : RowTable} {fetch : Fetch} {g : GuestMem Host}
  {other : OtherOp → Insn → Exec Host Unit} {count n n' : Nat} {t u u' : Ctx Host}

theorem interpretStep_decoded {i : Insn} (h : insnAt B fetch t.cpu.eip = some i) :
    interpretStep B fetch g other t = executeDecoded g other i t := by
  unfold insnAt at h
  split_ifs at h with hbytes
  unfold interpretStep
  rw [ask_bind, if_neg hbytes, h]

theorem insnAt_eq {pc : U32} {i : Insn} (hbytes : fetchInsn fetch pc maxInsnLen ≠ [])
    (hdecode : B.decode (fetchInsn fetch pc maxInsnLen) = some i) :
    insnAt B fetch pc = some i := (if_neg hbytes).trans hdecode

namespace Straight

theorem zero (t : Ctx Host) : Straight B fetch g other 0 t t := ⟨rfl, nofun⟩

theorem succ (h : Straight B fetch g other n t u) {i : Insn}
    (hat : insnAt B fetch u.cpu.eip = some i) (hnot : ¬ Taken i u)
    (hstep : interpretStep B fetch g other u = .ok () u') : Straight B fetch g other (n + 1) t u' := by
  refine ⟨(bind_ok h.steps).trans hstep, fun k hk w j hw hj => ?_⟩
  rcases Nat.lt_succ_iff_lt_or_eq.mp hk with hlt | rfl
  · exact h.untaken k hlt w j hw hj
  · obtain rfl := (EStateM.Result.ok.inj (hw.symm.trans h.steps)).2
    rw [hat] at hj
    exact Option.some.inj hj ▸ hnot

theorem state_unique (h : Straight B fetch g other n t u) (h' : Straight B fetch g other n t u') :
    u = u' := (EStateM.Result.ok.inj (h.steps.symm.trans h'.steps)).2

end Straight

theorem interpretSteps_before (hle : n ≤ n')
    (h : interpretSteps B fetch g other n' t = .ok () u') :
    ∃ u, interpretSteps B fetch g other n t = .ok () u := by
  induction hle generalizing u' with
  | refl => exact ⟨u', h⟩
  | step _ ih =>
    obtain ⟨_, w, hw, -⟩ := bind_inv h
    exact ih hw

/-- A run that goes past an instruction executes it, and it takes no branch. -/
theorem Straight.goes_on (h : Straight B fetch g other n t u)
    (h' : Straight B fetch g other n' t u') (hlt : n < n') :
    (∃ w, interpretStep B fetch g other u = .ok () w) ∧
      ∀ i, insnAt B fetch u.cpu.eip = some i → ¬ Taken i u := by
  refine ⟨?_, fun i hi => h'.untaken n hlt u i h.steps hi⟩
  obtain ⟨w, hw⟩ := interpretSteps_before hlt h'.steps
  exact ⟨w, (bind_ok h.steps).symm.trans hw⟩

/-- Behind `n` instructions of a block the interpreter goes no further straight on. -/
def Stops (B : RowTable) (fetch : Fetch) (g : GuestMem Host)
    (other : OtherOp → Insn → Exec Host Unit) (count n : Nat) (u : Ctx Host) : Prop :=
  n = count ∨ (∃ i, insnAt B fetch u.cpu.eip = some i ∧ Taken i u) ∨
    ∃ e w, interpretStep B fetch g other u = .error e w

theorem Straight.le_of_stops (h : Straight B fetch g other n t u)
    (hstops : Stops B fetch g other count n u) (h' : Straight B fetch g other n' t u')
    (hle : n' ≤ count) : n' ≤ n := by
  by_contra hnot
  obtain ⟨⟨w, hstep⟩, huntaken⟩ := h.goes_on h' (Nat.lt_of_not_le hnot)
  rcases hstops with rfl | ⟨i, hat, htaken⟩ | ⟨e, w', hfault⟩
  · exact hnot hle
  · exact huntaken i hat htaken
  · cases hstep.symm.trans hfault

theorem Straight.stops_unique (h : Straight B fetch g other n t u)
    (hstops : Stops B fetch g other count n u) (hle : n ≤ count)
    (h' : Straight B fetch g other n' t u') (hstops' : Stops B fetch g other count n' u')
    (hle' : n' ≤ count) : n = n' ∧ u = u' := by
  obtain rfl : n = n' := Nat.le_antisymm (h'.le_of_stops hstops' h hle) (h.le_of_stops hstops h' hle')
  exact ⟨rfl, h.state_unique h'⟩

/-- The interpreter leaves a block in one way. -/
theorem BlockLeaves.unique {r : LoopEnd OpenBody} {exit exit' : JitExit}
    (h : BlockLeaves B fetch g other r t exit n u)
    (h' : BlockLeaves B fetch g other r t exit' n' u') : exit = exit' ∧ n = n' ∧ u = u' := by
  have htaken {n : Nat} {u : Ctx Host} {i : Insn} (hat : insnAt B fetch u.cpu.eip = some i)
      (htaken : Taken i u) : Stops B fetch g other r.count n u := .inr (.inl ⟨i, hat, htaken⟩)
  have hfaulted {n : Nat} {u w : Ctx Host} {e : Cpu.Halt}
      (hstep : interpretStep B fetch g other u = .error e w) :
      Stops B fetch g other r.count n u := .inr (.inr ⟨e, w, hstep⟩)
  cases h with
  | within h =>
    cases h with
    | taken hlt hs hat ht hstep =>
      cases h' with
      | within h' =>
        cases h' with
        | taken hlt' hs' hat' ht' hstep' =>
          obtain ⟨rfl, rfl⟩ := hs.stops_unique (htaken hat ht) hlt.le hs' (htaken hat' ht') hlt'.le
          exact ⟨rfl, rfl, (EStateM.Result.ok.inj (hstep.symm.trans hstep')).2⟩
        | faulted hlt' hs' hstep' =>
          obtain ⟨rfl, rfl⟩ := hs.stops_unique (htaken hat ht) hlt.le hs' (hfaulted hstep') hlt'.le
          cases hstep.symm.trans hstep'
      | ended _ hs' _ =>
        have hsame := hs.stops_unique (htaken hat ht) hlt.le hs' (.inl rfl) (Nat.le_refl _)
        exact absurd hsame.1 hlt.ne
    | faulted hlt hs hstep =>
      cases h' with
      | within h' =>
        cases h' with
        | taken hlt' hs' hat' ht' hstep' =>
          obtain ⟨rfl, rfl⟩ := hs.stops_unique (hfaulted hstep) hlt.le hs' (htaken hat' ht') hlt'.le
          cases hstep.symm.trans hstep'
        | faulted hlt' hs' hstep' =>
          exact ⟨rfl, hs.stops_unique (hfaulted hstep) hlt.le hs' (hfaulted hstep') hlt'.le⟩
      | ended _ hs' _ =>
        have hsame := hs.stops_unique (hfaulted hstep) hlt.le hs' (.inl rfl) (Nat.le_refl _)
        exact absurd hsame.1 hlt.ne
  | ended _ hs _ =>
    cases h' with
    | within h' =>
      cases h' with
      | taken hlt' hs' hat' ht' _ =>
        have hsame := hs'.stops_unique (htaken hat' ht') hlt'.le hs (.inl rfl) (Nat.le_refl _)
        exact absurd hsame.1 hlt'.ne
      | faulted hlt' hs' hstep' =>
        have hsame := hs'.stops_unique (hfaulted hstep') hlt'.le hs (.inl rfl) (Nat.le_refl _)
        exact absurd hsame.1 hlt'.ne
    | ended _ hs' _ => exact ⟨rfl, rfl, hs.state_unique hs'⟩

theorem LeavesWithin.mono {exit : JitExit} {count' : Nat} (hle : count ≤ count')
    (h : LeavesWithin B fetch g other count t exit n u) :
    LeavesWithin B fetch g other count' t exit n u := by
  cases h with
  | taken hlt hs hat ht hstep => exact .taken (hlt.trans_le hle) hs hat ht hstep
  | faulted hlt hs hstep => exact .faulted (hlt.trans_le hle) hs hstep

end

/-- The guest code is made of instructions whose rows are here, or that no row accepts. -/
structure Covered (B : RowTable) (fetch : Fetch) : Prop where
  decoded : ∀ bytes i, B.decode bytes = some i → Decoded i
  ordinary : ∀ pc i, insnAt B fetch pc = some i → Ordinary i
  rows : ∀ pc i, insnAt B fetch pc = some i → B.elsewhere.accepts i = false

section

variable {B : RowTable} {st : WasmState} (W : World st) (others : Imports) (fetch : Fetch)
  (other : OtherOp → Insn → Exec Host Unit)

/-- The code has left from inside the block, beside the interpreter. -/
def Left (code : Code) (count : Nat) (s t : Ctx Host) : Prop :=
  ∃ exit n u v, LeavesWithin B fetch (Cpu.guestMem W.m) other count t exit n u ∧ Alike v u ∧
    W.Ends others code s v exit u.cpu.eip

/-- What the code of the first `count` instructions has come to: it has gone where the
interpreter is, or it has left. -/
def Progress (b : OpenBody) (pc : U32) (count : Nat) (s t : Ctx Host) : Prop :=
  (∃ u v, Straight B fetch (Cpu.guestMem W.m) other count t u ∧ Alike v u ∧
    Tracks b.low v.cpu.flags ∧ W.Reaches others b.code s v ∧ u.cpu.eip = pc) ∨
  Left (B := B) W others fetch other b.code count s t

/-- The body is written for that state, and its CALLs find no leaves. -/
structure Plain (st : WasmState) (l : WasmLower) : Prop where
  state : l.state = st
  leaf : l.leaf = none

theorem Plain.keeps {l l' : WasmLower} (h : Plain st l) (hkeeps : Keeps l l') : Plain st l' :=
  ⟨hkeeps.state.trans h.state, hkeeps.leaf.trans h.leaf⟩

variable {W others fetch other}

theorem Left.append {code : Code} {count count' : Nat} {s t : Ctx Host}
    (h : Left (B := B) W others fetch other code count s t) (hcount : count ≤ count')
    (more : Code) : Left (B := B) W others fetch other (code ++ more) count' s t := by
  obtain ⟨exit, n, u, v, hwithin, hv, hends⟩ := h
  refine ⟨exit, n, u, v, hwithin.mono hcount, hv, fun e l hl rest => ?_⟩
  rw [List.append_assoc]
  exact hends e l hl _

variable {b : OpenBody} {pc : U32} {count : Nat} {s t : Ctx Host}

/-- The code of one more instruction. -/
theorem Progress.add (hflat : W.Flat) (hchain : st.Unchained) (hplain : Plain st b.low)
    (h : Progress (B := B) W others fetch other b pc count s t) {i : Insn}
    (hat : insnAt B fetch pc = some i) (haccepts : rowAccepts i = true) (hdecoded : Decoded i)
    (hordinary : Ordinary i) :
    Progress (B := B) W others fetch other (b.add (rowCode b.low i pc)) (pc + i.length) (count + 1)
        s t ∧
      (rowFalls i = false → Left (B := B) W others fetch other
        (b.add (rowCode b.low i pc)).code (count + 1) s t) := by
  rcases h with ⟨u, v, hu, hv, htracks, hreaches, rfl⟩ | hleft
  · have hstep : interpretStep B fetch (Cpu.guestMem W.m) other u =
        executeDecoded (Cpu.guestMem W.m) other i u := interpretStep_decoded hat
    have hends : ∀ {w : Ctx Host} {exit : JitExit} {eip : U32},
        W.Ends others (rowCode b.low i u.cpu.eip).1 v w exit eip →
        W.Ends others (b.add (rowCode b.low i u.cpu.eip)).code s w exit eip := by
      intro w exit eip hends e l hl rest
      obtain ⟨l', hl', hrun⟩ := hreaches e l hl
      change run _ (b.code ++ (rowCode b.low i u.cpu.eip).1 ++ rest) _ = _
      rw [List.append_assoc, hrun]
      exact hends e l' hl' rest
    obtain ⟨hok, hrefused⟩ := row_step hflat hchain others other hplain.state hplain.leaf hv htracks
      haccepts hdecoded hordinary rfl
    cases hexec : executeDecoded (Cpu.guestMem W.m) other i u with
    | ok a u' =>
      obtain ⟨v', hv', ⟨hnot, htracks', hreaches', heip'⟩ | ⟨htaken, hleaves⟩⟩ := hok u' hexec
      · exact ⟨.inl ⟨u', v', hu.succ hat hnot (hstep.trans hexec), hv', htracks',
            hreaches.append hreaches', heip'⟩,
          fun hfalls => absurd (taken_of_not_falls hfalls u) hnot⟩
      · have hleft : Left (B := B) W others fetch other (b.add (rowCode b.low i u.cpu.eip)).code
            (count + 1) s t := ⟨.blockEnd, count + 1, u', v',
          .taken (Nat.lt_succ_self count) hu hat htaken (hstep.trans hexec), hv', hends hleaves⟩
        exact ⟨.inr hleft, fun _ => hleft⟩
    | error e u' =>
      obtain ⟨⟨addr, rfl⟩, hleaves⟩ := hrefused e u' hexec
      have hleft : Left (B := B) W others fetch other (b.add (rowCode b.low i u.cpu.eip)).code
          (count + 1) s t := ⟨.memoryFault, count, u, v,
        .faulted (Nat.lt_succ_self count) hu (hstep.trans hexec), hv, hends hleaves⟩
      exact ⟨.inr hleft, fun _ => hleft⟩
  · have hleft' := hleft.append (Nat.le_succ count) (rowCode b.low i pc).1
    exact ⟨.inr hleft', fun _ => hleft'⟩

/-! ## The loop -/

/-- Why the loop stops before the instruction at `pc`, and the exit that its body ends in. -/
inductive StopsBefore (B : RowTable) (fetch : Fetch) (boundary : U32 → Bool) (eip : U32)
    (b : OpenBody) (pc : U32) (count : Nat) : JitExit → Prop
  | limit : count = maxInsns → StopsBefore B fetch boundary eip b pc count .blockEnd
  | room : B.cap < B.here b.module b.code + worstCaseInsnBytes + exitBytes +
      chainReserve (B.exits b.chain b.code) → StopsBefore B fetch boundary eip b pc count .blockEnd
  | unreadable : insnAt B fetch pc = none → StopsBefore B fetch boundary eip b pc count .blockEnd
  | boundary : pc ≠ eip → boundary pc = true → StopsBefore B fetch boundary eip b pc count .blockEnd
  | refused {i} : insnAt B fetch pc = some i → (rowFamilies B).accepts i = false →
      StopsBefore B fetch boundary eip b pc count .unsupported

/-- What the loop makes of a body that has come to `pc`. -/
structure LoopLeaves (W : World st) (others : Imports) (fetch : Fetch)
    (other : OtherOp → Insn → Exec Host Unit) (boundary : U32 → Bool) (eip : U32) (b : OpenBody)
    (pc : U32) (count : Nat) (r : LoopEnd OpenBody) : Prop where
  module : r.state.module = b.module
  plain : Plain st r.state.low
  stops : r.terminated = false → StopsBefore B fetch boundary eip r.state r.pc r.count r.exit
  progress : ∀ s t, Progress (B := B) W others fetch other b pc count s t →
    Progress (B := B) W others fetch other r.state r.pc r.count s t ∧
      (r.terminated = true → Left (B := B) W others fetch other r.state.code r.count s t)

/-- What the loop emits for an instruction of a row. -/
theorem rowFamilies_code (b : OpenBody) {i : Insn} (h : rowAccepts i = true) (pc : U32) :
    emitInsn (rowFamilies B) b (i, pc) = b.add (rowCode b.low i pc) := by
  simp only [emitInsn, rowFamilies, rowCode, h, if_true]
  split_ifs <;> rfl

theorem rowFamilies_ends {i : Insn} (h : rowAccepts i = true) :
    ((rowFamilies B).terminates i && !(rowFamilies B).continues i) = !rowFalls i := by
  simp only [rowFamilies, rowFalls, h, if_true]
  cases rowTerminates i <;> cases rowContinues i <;> rfl

/-- Where the loop took no instruction it stops before the one there is. -/
theorem stopsBefore_of_exit {b : OpenBody} {pc : U32} {count : Nat} {exit : JitExit}
    {boundary : U32 → Bool} {eip : U32} {status : Option Jit.JitStatus}
    (h : nextInsn (rowFamilies B) fetch boundary eip pc = .inr (exit, status)) :
    StopsBefore B fetch boundary eip b pc count exit := by
  obtain ⟨rfl, hnone⟩ | ⟨hbytes, hstop⟩ := nextInsn_exit h
  · exact .unreadable (if_pos hnone)
  · obtain ⟨rfl, hnone⟩ | ⟨rfl, hne, hboundary⟩ | ⟨rfl, i, hdecode, hrefused⟩ := hstop
    · exact .unreadable ((if_neg hbytes).trans hnone)
    · exact .boundary hne hboundary
    · exact .refused (insnAt_eq hbytes hdecode) hrefused

theorem lowerLoop_progress (hflat : W.Flat) (hchain : st.Unchained) (hcovered : Covered B fetch)
    {boundary : U32 → Bool} {eip : U32} {r : LoopEnd OpenBody} (remaining : Nat) :
    ∀ (b : OpenBody) (pc : U32) (count : Nat) (oversized : Bool), count + remaining = maxInsns →
      Plain st b.low →
      lowerLoop (rowFamilies B) fetch boundary eip remaining b pc count oversized = .ok r →
      LoopLeaves (B := B) W others fetch other boundary eip b pc count r := by
  induction remaining with
  | zero =>
    intro b pc count oversized hcount hplain h
    cases h
    exact ⟨rfl, hplain, fun _ => .limit hcount, fun s t hprogress =>
      ⟨hprogress, fun hend => Bool.noConfusion hend⟩⟩
  | succ remaining ih =>
    intro b pc count oversized hcount hplain h
    obtain ⟨exit, rfl, hstop⟩ | ⟨i, oversized', hinsn, hrest⟩ := lowerLoop_ok h
    · have hstops : StopsBefore B fetch boundary eip b pc count exit := by
        obtain ⟨rfl, hroom⟩ | ⟨status, hexit⟩ := hstop
        · exact .room hroom
        · exact stopsBefore_of_exit hexit
      exact ⟨rfl, hplain, fun _ => hstops, fun s t hprogress =>
        ⟨hprogress, fun hend => Bool.noConfusion hend⟩⟩
    · obtain ⟨hbytes, hdecode, haccepted⟩ := nextInsn_insn hinsn
      have hat : insnAt B fetch pc = some i := insnAt_eq hbytes hdecode
      have haccepts : rowAccepts i = true := by
        have hnot := hcovered.rows pc i hat
        change (rowAccepts i || B.elsewhere.accepts i) = true at haccepted
        rwa [hnot, Bool.or_false] at haccepted
      have hadd := fun (s t : Ctx Host)
          (hprogress : Progress (B := B) W others fetch other b pc count s t) =>
        hprogress.add hflat hchain hplain hat haccepts
          (hcovered.decoded _ i hdecode) (hcovered.ordinary pc i hat)
      have hplain' : Plain st (b.add (rowCode b.low i pc)).low :=
        hplain.keeps (rowCode_keeps b.low i pc)
      have hlength : BitVec.ofNat 32 ((rowFamilies B).length i) = i.length :=
        (BitVec.ofNat_toNat 32 i.length).trans (BitVec.setWidth_eq i.length)
      rw [rowFamilies_code b haccepts, rowFamilies_ends haccepts, hlength] at hrest
      cases hfalls : rowFalls i with
      | true =>
        rw [hfalls, if_neg (by decide)] at hrest
        obtain ⟨hmodule, hplain, hstops, hprogress⟩ :=
          ih (b.add (rowCode b.low i pc)) _ _ _ (by omega) hplain' hrest
        exact ⟨hmodule, hplain, hstops, fun s t hbefore => hprogress s t (hadd s t hbefore).1⟩
      | false =>
        rw [hfalls, if_pos (by decide)] at hrest
        rw [hrest]
        exact ⟨rfl, hplain', fun hend => Bool.noConfusion hend, fun s t hbefore =>
          (hadd s t hbefore).imp_right fun hleft _ => hleft hfalls⟩

/-! ## The block -/

/-- A body no branch ended leaves for where the loop stopped. -/
theorem LoopLeaves.close (hchain : st.Unchained) {boundary : U32 → Bool} {eip : U32}
    {r : LoopEnd OpenBody}
    (h : LoopLeaves (B := B) W others fetch other boundary eip b pc count r)
    (hbefore : Progress (B := B) W others fetch other b pc count s t) :
    ∃ exit n u v, BlockLeaves B fetch (Cpu.guestMem W.m) other r t exit n u ∧ Alike v u ∧
      W.Ends others (closeBlock (rowFamilies B) r).code s v exit u.cpu.eip := by
  obtain ⟨-, hplain, -, hprogress⟩ := h
  obtain ⟨hprogress, hleft⟩ := hprogress s t hbefore
  unfold closeBlock
  cases hterminated : r.terminated with
  | true =>
    obtain ⟨exit, n, u, v, hwithin, hv, hends⟩ := hleft hterminated
    exact ⟨exit, n, u, v, .within hwithin, hv, hends⟩
  | false =>
    rw [if_neg (by decide)]
    rcases hprogress with ⟨u, v, hu, hv, -, hreaches, heip⟩ | hearly
    · refine ⟨r.exit, r.count, u, v, .ended hterminated hu heip, hv, fun e l hl rest => ?_⟩
      obtain ⟨l', hl', hrun⟩ := hreaches e l hl
      change run _ (r.state.code ++ r.state.low.state.exitImm r.pc r.exit ++ rest) _ = _
      rw [List.append_assoc, hrun, hplain.state, W.run_exitImm_at hchain hl', heip]
    · obtain ⟨exit, n, u, v, hwithin, hv, hends⟩ := hearly.append (Nat.le_refl r.count)
        (r.state.low.state.exitImm r.pc r.exit)
      exact ⟨exit, n, u, v, .within hwithin, hv, hends⟩

theorem bodyEnd_closeBlock (r : LoopEnd OpenBody) :
    (rowFamilies B).bodyEnd (closeBlock (rowFamilies B) r) =
      r.state.module ++ [(closeBlock (rowFamilies B) r).code] := by
  unfold closeBlock
  cases r.terminated <;> rfl

theorem lowerBlock_inv {I E S M : Type} {F : Families I E S M} {m m' : E} {eip : U32}
    {boundary : U32 → Bool} {chain : ChainUse} {leaf : LeafUse} {block : JitBlock}
    (hnone : chain.chain = none)
    (h : lowerBlock F m fetch eip boundary chain leaf = .ok (block, m')) :
    ∃ body r, F.bodyBegin m eip chain none = some body ∧
      lowerLoop F fetch boundary eip maxInsns body eip 0 false = .ok r ∧
      block.insns = r.count ∧ block.guestLen = r.pc - eip ∧ m' = F.bodyEnd (closeBlock F r) := by
  unfold lowerBlock at h
  dsimp only at h
  rw [hnone] at h
  split at h
  · cases h
  · rename_i body hbody
    split at h
    · cases h
    · rename_i r hloop
      split_ifs at h
      obtain ⟨hblock, hm⟩ := Prod.mk.inj (Except.ok.inj h)
      rw [← hblock, ← hm]
      exact ⟨body, r, hbody, hloop, rfl, rfl, rfl⟩

end

/-! ## A loop -/

def registerOperand (r : Cpu.Reg) : Cpu.Operand :=
  ⟨.ds, .reg, 4, r, none, none, 1, 0, 0, false, false, false⟩

def relativeOperand (displacement : U32) : Cpu.Operand :=
  ⟨.ds, .imm, 1, Cpu.eax, none, none, 1, 0, displacement, false, false, true⟩

def noOperand : Cpu.Operand := ⟨.ds, .none, 0, Cpu.eax, none, none, 1, 0, 0, false, false, false⟩

/-- DEC EAX, JNZ and RET. -/
def decodeLoop : List U8 → Option Insn
  | 0x48 :: _ => some ⟨1, .aluUnary .dec, 1, registerOperand Cpu.eax, noOperand, noOperand, 32⟩
  | 0x75 :: d :: _ =>
    some ⟨2, .jcc .nz, 1, relativeOperand (d.signExtend 32), noOperand, noOperand, 32⟩
  | 0xC3 :: _ => some ⟨1, .ret, 0, noOperand, noOperand, noOperand, 32⟩
  | _ => none

def loopMem : Memory.Mem := ⟨0x10000, 0x1000, 0x1000, none, none⟩

def loopTable : RowTable where
  decode := decodeLoop
  plan := planFromMem loopMem 0 0
  lay := flatLayout
  chainEmit := fun _ _ => []
  chainExits := fun _ _ => ⟨true, none, 0, 0, false, 0⟩
  resolve := fun _ => 0
  claimed := none
  bodyRoom := fun _ => true
  here := fun bodies code => bodies.length + code.length
  cap := 4096
  intact := fun _ => true
  elsewhere := ⟨fun _ => false, fun _ => false, fun l _ _ => ([], l)⟩

def loopFetch : Fetch := fun addr =>
  if 0x1000 ≤ addr.toNat then [0x48, 0x75, 0xFD, 0xC3][addr.toNat - 0x1000]? else none

/-- No chain. -/
def loopUse : ChainUse := ⟨none, none, []⟩

def loopWorld : World (loopTable.state loopUse) where
  m := loopMem
  home := flatHome
  memAt := 0
  permsAt := 0
  contiguous := rfl
  plan := rfl
  fits := by decide
  apart := by decide
  table := nofun

/-- EAX counts, and 0x2000 is on the stack at 0x1100. -/
def loopCtx (count top : U32) : Ctx Host where
  cpu := { zeroCpu with
    eip := 0x1000
    reg := fun r => if r = Cpu.eax then count else if r = Cpu.esp then top else 0 }
  seg := fun _ => 0
  mem := ⟨fun a => if a = 0x10101 then 0x20 else 0, false, []⟩
  nextEip := 0

theorem covered_loop : Covered loopTable loopFetch := by
  have hdecoded : ∀ bytes i, decodeLoop bytes = some i →
      i.operand0.kind ≠ .mem ∧ i.operand1.kind ≠ .mem ∧
        i.op ∉ [Cpu.InsnOp.xchg, .push, .jecxz, .pop, .lea] := by
    intro bytes i h
    unfold decodeLoop at h
    split at h <;> cases h <;> exact ⟨nofun, nofun, by simp⟩
  refine ⟨fun bytes i h => ?_, fun pc i h => ?_, fun _ _ _ => rfl⟩
  · obtain ⟨h0, h1, hop⟩ := hdecoded bytes i h
    simp only [List.mem_cons, not_or] at hop
    exact ⟨fun h => absurd h h0, fun h => absurd h h1, fun h => absurd h hop.1,
      fun h => absurd h hop.2.1, fun h => absurd h hop.2.2.1⟩
  · unfold insnAt at h
    split_ifs at h
    obtain ⟨-, -, hop⟩ := hdecoded _ i h
    simp only [List.mem_cons, not_or] at hop
    exact ⟨fun h => absurd h hop.2.2.2.1, fun h => absurd h hop.2.2.2.2.1⟩

def decInsn : Insn := ⟨1, .aluUnary .dec, 1, registerOperand Cpu.eax, noOperand, noOperand, 32⟩

def jnzInsn : Insn := ⟨2, .jcc .nz, 1, relativeOperand 0xFFFFFFFD, noOperand, noOperand, 32⟩

abbrev loopLeaves (r : LoopEnd OpenBody) (t : Ctx Host) : JitExit → Nat → Ctx Host → Prop :=
  BlockLeaves loopTable loopFetch (Cpu.guestMem loopMem) (fun _ _ => unsupported) r t

abbrev loopStraight : Nat → Ctx Host → Ctx Host → Prop :=
  Straight loopTable loopFetch (Cpu.guestMem loopMem) fun _ _ => unsupported

section

variable {r : LoopEnd OpenBody} (hcount : r.count = 3)

include hcount

/-- A count of two goes round again. -/
theorem loop_again : ∃ u, loopLeaves r (loopCtx 2 0x1100) .blockEnd 2 u ∧
    u.cpu.eip = 0x1000 ∧ u.cpu.reg Cpu.eax = 1 := by
  have hstart : loopStraight 0 (loopCtx 2 0x1100) (loopCtx 2 0x1100) := .zero _
  have hdec := hstart.succ (i := decInsn) rfl id rfl
  exact ⟨_, .within (.taken (i := jnzInsn) (by rw [hcount]; decide) hdec rfl rfl rfl), by decide,
    by decide⟩

/-- A count of one comes to the RET, which pops. -/
theorem loop_returns : ∃ u, loopLeaves r (loopCtx 1 0x1100) .blockEnd 3 u ∧
    u.cpu.eip = 0x2000 ∧ u.cpu.reg Cpu.eax = 0 := by
  have hstart : loopStraight 0 (loopCtx 1 0x1100) (loopCtx 1 0x1100) := .zero _
  have hdec := hstart.succ (i := decInsn) rfl id rfl
  have hjnz := hdec.succ (i := jnzInsn) rfl (show ¬ Cpu.cond .nz _ = true by decide) rfl
  exact ⟨_, .within (.taken (by rw [hcount]; decide) hjnz rfl trivial rfl), by decide, by decide⟩

/-- Without a stack the RET faults, behind the other two. -/
theorem loop_faults : ∃ u, loopLeaves r (loopCtx 1 0) .memoryFault 2 u ∧
    u.cpu.eip = 0x1003 ∧ u.cpu.reg Cpu.eax = 0 := by
  have hstart : loopStraight 0 (loopCtx 1 0) (loopCtx 1 0) := .zero _
  have hdec := hstart.succ (i := decInsn) rfl id rfl
  have hjnz := hdec.succ (i := jnzInsn) rfl (show ¬ Cpu.cond .nz _ = true by decide) rfl
  exact ⟨_, .within (.faulted (by rw [hcount]; decide) hjnz rfl), by decide, by decide⟩

end

end X86Port.Wasm
