import X86Port.Jit.LinkedRuns
import X86Port.Jit.Room

/-!
# The budget of a run

A run of `x86p_jit_engine_run` ends, enters no more blocks than it was given steps for, and counts
every block it entered.

* `KeepsBudget`: what a call into translated code does with the budget it is given.
* `Spent`: the account of the events of a run.
* `run_respects_budget`: the run ends, and its account is that of the engine.
-/

namespace X86Port.Jit

variable {κ τ ω μ : Type} {m : Machine κ τ ω μ}

/-! ## The protocol of a call -/

/-- Each transfer steps the budget of a call, and an exit that finds it at 1 steps it to 0 and
returns; a call without a run header transfers to nothing. -/
structure KeepsBudget (world : World ω μ) : Prop where
  chained : ∀ w host run eip, run.budget ≠ 0 →
    ((world.call w host (some run) eip).1.run.budget ≠ 0 ∧
      (world.call w host (some run) eip).1.run.budget.toNat +
        (world.call w host (some run) eip).1.transfers = run.budget.toNat) ∨
    ((world.call w host (some run) eip).1.run.budget = 0 ∧
      (world.call w host (some run) eip).1.transfers + 1 = run.budget.toNat)
  alone : ∀ w host eip, (world.call w host none eip).1.transfers = 0

theorem allowed_bounds {t : RunTerms} {steps : U64} (hlimit : m.config.transferLimit ≠ 0)
    (hsteps : steps < t.maxSteps) :
    m.allowed t steps ≠ 0 ∧ (m.allowed t steps).toNat + steps.toNat ≤ t.maxSteps.toNat := by
  unfold Machine.allowed
  split_ifs with hlinking hless
  · bv_omega
  · bv_omega
  · bv_omega

/-- A call is charged for the transfers it made, and makes no more than it was allowed. -/
theorem callMade_transfers (hcalls : KeepsBudget m.world) (hlimit : m.config.transferLimit ≠ 0)
    {t : RunTerms} {steps transfers : U64} {called : Called} (hsteps : steps < t.maxSteps)
    (h : CallMade m t steps called transfers) :
    transfers.toNat = called.transfers ∧
      steps.toNat + (1 + called.transfers) ≤ t.maxSteps.toNat := by
  obtain ⟨hne, hle⟩ := allowed_bounds hlimit hsteps
  obtain ⟨w, host, eip, ⟨hcalled, htransfers⟩ | ⟨run, hbudget, hcalled, htransfers⟩⟩ := h
  · have hzero := hcalls.alone w host eip
    rw [← hcalled] at hzero
    rw [htransfers, hzero]
    exact ⟨rfl, by bv_omega⟩
  · have hspent := hcalls.chained w host run eip (hbudget ▸ hne)
    rw [← hcalled] at hspent
    rw [htransfers, ← hbudget]
    refine ⟨counted_of_budget hspent, ?_⟩
    · rw [hbudget] at hspent
      rcases hspent with ⟨hleft, hsum⟩ | ⟨-, hsum⟩
      · bv_omega
      · omega

/-! ## The account of a run -/

/-- Blocks entered by the events: those called and those transferred to. -/
def blocksEntered : List RunEvent → Nat
  | [] => 0
  | .entered transfers _ _ :: events => 1 + transfers + blocksEntered events
  | _ :: events => blocksEntered events

def blocksTransferred : List RunEvent → Nat
  | [] => 0
  | .entered transfers _ _ :: events => transfers + blocksTransferred events
  | _ :: events => blocksTransferred events

def dispatches : List RunEvent → Nat
  | [] => 0
  | .dispatched :: events => 1 + dispatches events
  | _ :: events => dispatches events

/-- At most one failed translation is retried before a block is entered, so many having been
retried already. -/
def RetriedOnce : Nat → List RunEvent → Prop
  | _, [] => True
  | retries, .retried :: events => retries = 0 ∧ RetriedOnce 1 events
  | _, .entered _ _ _ :: events => RetriedOnce 0 events
  | retries, _ :: events => RetriedOnce retries events

/-- What a run from here may do with the steps that are left. -/
structure Spent (e : Engine κ τ) (left retries : Nat) (e' : Engine κ τ)
    (events : List RunEvent) : Prop where
  entered : e'.stats.blocksEntered =
    e.stats.blocksEntered + BitVec.ofNat 64 (blocksEntered events)
  chained : e'.stats.blocksChained =
    e.stats.blocksChained + BitVec.ofNat 64 (blocksTransferred events)
  within : blocksEntered events + dispatches events ≤ left
  retried : RetriedOnce retries events

theorem Spent.nothing (e : Engine κ τ) (left retries : Nat) : Spent e left retries e [] where
  entered := by simp [blocksEntered]
  chained := by simp [blocksTransferred]
  within := Nat.zero_le _
  retried := trivial

theorem Spent.uncounted {e e' : Engine κ τ} (h : e.Uncounted e') (left retries : Nat) :
    Spent e left retries e' [] where
  entered := by simp [blocksEntered, h.entered]
  chained := by simp [blocksTransferred, h.chained]
  within := Nat.zero_le _
  retried := trivial

theorem blocksEntered_pos {transfers : Nat} {pending left : U32} {events : List RunEvent}
    (h : .entered transfers pending left ∈ events) : 0 < blocksEntered events := by
  induction events with
  | nil => cases h
  | cons event events ih =>
    cases event with
    | entered => exact Nat.add_pos_left (Nat.add_pos_left Nat.one_pos _) _
    | _ => exact ih ((List.mem_cons.mp h).resolve_left (by simp))

/-! ## A step of the loop -/

/-- Iterations that are left to a run: a step is used up, or the one retry between two blocks. -/
def iterationsLeft (t : RunTerms) (l : Locals ω) : Nat :=
  2 * (t.maxSteps.toNat - l.steps.toNat) + (1 - l.retries)

/-- A link before the call is no entry. -/
theorem LinkMade.account {l : Locals ω} {links : List RunEvent} (h : LinkMade l links)
    (events : List RunEvent) :
    blocksEntered (links ++ events) = blocksEntered events ∧
      blocksTransferred (links ++ events) = blocksTransferred events ∧
      dispatches (links ++ events) = dispatches events ∧
      ∀ retries, RetriedOnce retries (links ++ events) ↔ RetriedOnce retries events := by
  obtain rfl | ⟨slot, claimed, host, -, -, -, rfl⟩ := h
  · exact ⟨rfl, rfl, rfl, fun _ => Iff.rfl⟩
  · exact ⟨rfl, rfl, rfl, fun _ => Iff.rfl⟩

theorem ofNat_entered (n k : Nat) (x : U64) (hx : x.toNat = n) :
    BitVec.ofNat 64 (1 + n + k) = 1 + x + BitVec.ofNat 64 k := by
  rw [BitVec.ofNat_add, BitVec.ofNat_add, ← hx, BitVec.ofNat_toNat, BitVec.setWidth_eq]
  rfl

/-- A call, and whatever the run does after it. -/
theorem spent_called {e : Engine κ τ} {t : RunTerms} {l l' : Locals ω} {e' e'' : Engine κ τ}
    {links : List RunEvent} {called : Called} {transfers : U64}
    (hlinks : LinkMade l links) (hsteps : l'.steps = l.steps + (1 + transfers))
    (hretries : l'.retries = 0)
    (hentered : e'.stats.blocksEntered = e.stats.blocksEntered + (1 + transfers))
    (hchained : e'.stats.blocksChained = e.stats.blocksChained + transfers)
    (hcount : transfers.toNat = called.transfers)
    (hfits : l.steps.toNat + (1 + called.transfers) ≤ t.maxSteps.toNat)
    {events : List RunEvent}
    (h : Spent e' (t.maxSteps.toNat - l'.steps.toNat) l'.retries e'' events) :
    Spent e (t.maxSteps.toNat - l.steps.toNat) l.retries e''
      (links ++ [.entered called.transfers called.run.pending called.eip] ++ events) := by
  rw [List.append_assoc]
  obtain ⟨hin, hchain, hdispatch, hretry⟩ := hlinks.account
    ([.entered called.transfers called.run.pending called.eip] ++ events)
  have hnat : l'.steps.toNat = l.steps.toNat + (1 + called.transfers) := by
    rw [hsteps]
    have := t.maxSteps.isLt
    bv_omega
  refine ⟨?_, ?_, ?_, ?_⟩
  · rw [hin, h.entered, hentered]
    change _ = _ + BitVec.ofNat 64 (1 + called.transfers + blocksEntered events)
    rw [ofNat_entered _ _ transfers hcount, BitVec.add_assoc]
  · rw [hchain, h.chained, hchained]
    change _ = _ + BitVec.ofNat 64 (called.transfers + blocksTransferred events)
    rw [BitVec.ofNat_add, ← hcount, BitVec.ofNat_toNat, BitVec.setWidth_eq, BitVec.add_assoc]
  · rw [hin, hdispatch]
    have hwithin := h.within
    change 1 + called.transfers + blocksEntered events + dispatches events ≤ _
    omega
  · rw [hretry]
    have := h.retried
    rw [hretries] at this
    exact this

/-- An iteration that goes round again uses up an iteration, and its events are accounted for
together with those of the rest of the run; one that does not go round is all there is. -/
theorem step_spent (hcalls : KeepsBudget m.world) (hlimit : m.config.transferLimit ≠ 0)
    {t : RunTerms} {e : Engine κ τ} {l : Locals ω} {step : Step κ τ ω}
    (hsteps : l.steps < t.maxSteps) (h : StepOutcome m t e l step) :
    match step.status with
    | some _ => Spent e (t.maxSteps.toNat - l.steps.toNat) l.retries step.engine step.events
    | none => iterationsLeft t step.locals < iterationsLeft t l ∧
      ∀ {e' : Engine κ τ} {events : List RunEvent},
        Spent step.engine (t.maxSteps.toNat - step.locals.steps.toNat) step.locals.retries
          e' events →
        Spent e (t.maxSteps.toNat - l.steps.toNat) l.retries e' (step.events ++ events) := by
  cases h with
  | ended status hcount => exact Spent.uncounted hcount _ _
  | @dispatched e' l' hcount hnext hretries hpending =>
    have hnat : l'.steps.toNat = l.steps.toNat + 1 := by
      rw [hnext]
      bv_omega
    have hlt : l.steps.toNat < t.maxSteps.toNat := hsteps
    refine ⟨by unfold iterationsLeft; dsimp only; omega, fun {_ events} h => ⟨?_, ?_, ?_, ?_⟩⟩
    · exact h.entered.trans (by rw [hcount.entered]; rfl)
    · exact h.chained.trans (by rw [hcount.chained]; rfl)
    · have hwithin := h.within
      change blocksEntered events + (1 + dispatches events) ≤ _
      dsimp only at hwithin
      omega
    · have hretried := h.retried
      dsimp only at hretried
      rw [hretries] at hretried
      exact hretried
  | @retried e' l' hcount hfirst hsame hretries hpending =>
    refine ⟨by unfold iterationsLeft; dsimp only; rw [hsame]; omega, fun h => ⟨?_, ?_, ?_, ?_⟩⟩
    · exact h.entered.trans (by rw [hcount.entered]; rfl)
    · exact h.chained.trans (by rw [hcount.chained]; rfl)
    · have hwithin := h.within
      dsimp only at hwithin
      rw [hsame] at hwithin
      exact hwithin
    · have hretried := h.retried
      dsimp only at hretried
      rw [hretries] at hretried
      exact ⟨hfirst, hretried⟩
  | called called transfers hlinks hcall hevents hnext hretries heip hpending hentered hchained =>
    obtain ⟨hcount, hfits⟩ := callMade_transfers hcalls hlimit hsteps hcall
    have hnat : step.locals.steps.toNat = l.steps.toNat + (1 + called.transfers) := by
      rw [hnext]
      have := t.maxSteps.isLt
      bv_omega
    rw [hevents]
    cases step.status with
    | some status =>
      have hend := spent_called hlinks hnext hretries hentered hchained hcount hfits
        (Spent.nothing step.engine (t.maxSteps.toNat - step.locals.steps.toNat)
          step.locals.retries)
      rwa [List.append_nil] at hend
    | none =>
      refine ⟨?_, fun h => spent_called hlinks hnext hretries hentered hchained hcount hfits h⟩
      unfold iterationsLeft
      omega

/-! ## The run -/

section Run

variable {Inv : τ → Prop} (hst : m.storage.Bounded Inv)

include hst

theorem translateAt_isSome {e : Engine κ τ} (he : Inv e.storage) (w : ω) (eip : U32) :
    (e.translateAt m w eip).isSome := by
  obtain ⟨⟨ok, e'⟩, hroom⟩ := Option.isSome_iff_exists.mp (Engine.evictForRoom_isSome hst he)
  unfold Engine.translateAt
  rw [hroom]
  cases ok <;> rfl

theorem translateMiss_isSome {e : Engine κ τ} (he : Inv e.storage) (l : Locals ω) :
    (m.translateMiss e l).isSome := by
  obtain ⟨⟨out, e'⟩, htranslate⟩ :=
    Option.isSome_iff_exists.mp (translateAt_isSome hst he l.world l.eip)
  unfold Machine.translateMiss
  rw [htranslate]
  cases out with
  | failed status => cases status <;> rfl
  | _ => rfl

theorem prepare_isSome (t : RunTerms) {e : Engine κ τ} (he : Inv e.storage) (l : Locals ω) :
    (m.prepare t e l).isSome := by
  have hfind : Inv (m.findUnguarded t e l.eip).2.storage := by
    unfold Machine.findUnguarded
    split_ifs <;> exact he
  unfold Machine.prepare
  generalize m.findUnguarded t e l.eip = found at hfind
  obtain ⟨host, e1⟩ := found
  cases host with
  | some host => rfl
  | none =>
    have hasked := ((Engine.keeps_inv hst).askEmbedder hfind
      { l with pending := { l.pending with slot := 0 } }).2
    dsimp only
    unfold Machine.prepareMiss
    generalize m.askEmbedder e1 { l with pending := { l.pending with slot := 0 } } = answer
      at hasked
    obtain ⟨step, e2, l2⟩ := answer
    cases step with
    | some step => rfl
    | none =>
      have hany : Inv (m.findAny e2 l2.eip).2.storage := by
        unfold Machine.findAny
        split_ifs <;> exact hasked
      dsimp only
      generalize m.findAny e2 l2.eip = found at hany
      obtain ⟨host, e3⟩ := found
      cases host with
      | some host => rfl
      | none => exact translateMiss_isSome hst hany l2

theorem iterate_inv (t : RunTerms) {e : Engine κ τ} (he : Inv e.storage) (l : Locals ω) :
    ∃ step, m.iterate t e l = some step ∧ Inv step.engine.storage := by
  obtain ⟨p, hp⟩ := Option.isSome_iff_exists.mp (prepare_isSome hst t he l)
  have hprepared : Inv p.engine.storage :=
    (Engine.keeps_inv hst).prepare (fun _ _ => ⟨rfl, rfl⟩) he hp
  unfold Machine.iterate
  rw [hp]
  cases p with
  | done step => exact ⟨step, rfl, hprepared⟩
  | enter host e1 l1 events =>
    exact ⟨_, rfl, (Engine.keeps_inv hst).enter t host hprepared l1⟩

/-- By induction on the iterations: each that goes round again uses one up. -/
theorem runLoop_spent (hcalls : KeepsBudget m.world) (hlimit : m.config.transferLimit ≠ 0)
    (t : RunTerms) (iterations : Nat) : ∀ {e : Engine κ τ} {l : Locals ω}, Inv e.storage →
      iterationsLeft t l ≤ iterations → ∃ r, m.runLoop t iterations e l = some r ∧
        Spent e (t.maxSteps.toNat - l.steps.toNat) l.retries r.engine r.events := by
  induction iterations with
  | zero =>
    intro e l _ hleft
    have hdone : ¬ l.steps < t.maxSteps := by
      unfold iterationsLeft at hleft
      rw [BitVec.lt_def]
      omega
    unfold Machine.runLoop
    rw [if_neg hdone]
    exact ⟨_, rfl, Spent.nothing e _ _⟩
  | succ iterations ih =>
    intro e l he hleft
    unfold Machine.runLoop
    by_cases hsteps : l.steps < t.maxSteps
    · obtain ⟨step, hstep, hinv⟩ := iterate_inv hst t he l
      have hspent := step_spent hcalls hlimit hsteps (iterate_outcome hstep)
      rw [if_pos hsteps, hstep]
      obtain ⟨status, e', l', events⟩ := step
      cases status with
      | some status => exact ⟨_, rfl, hspent⟩
      | none =>
        obtain ⟨hless, hrest⟩ := hspent
        obtain ⟨r, hr, hr'⟩ := ih hinv (Nat.le_of_lt_succ (hless.trans_le hleft))
        dsimp only
        rw [hr]
        exact ⟨_, rfl, hrest hr'⟩
    · rw [if_neg hsteps]
      exact ⟨_, rfl, Spent.nothing e _ _⟩

omit hst in
theorem beginRun_uncounted (e : Engine κ τ) (w : ω) : e.Uncounted (m.beginRun e w).2 := by
  have hall := Engine.invalidateAll_uncounted (m := m) e
  unfold Machine.beginRun
  split_ifs
  · generalize e.invalidateAll m = flushed at hall
    obtain ⟨ok, e1⟩ := flushed
    cases ok <;> exact ⟨hall.entered, hall.chained⟩
  · exact Engine.Uncounted.refl e

theorem beginRun_inv {e : Engine κ τ} (he : Inv e.storage) (w : ω) :
    Inv (m.beginRun e w).2.storage := by
  have hall := Engine.invalidateAll_inv hst he
  unfold Machine.beginRun
  split_ifs
  · generalize e.invalidateAll m = flushed at hall
    obtain ⟨ok, e1⟩ := flushed
    cases ok <;> exact hall
  · exact he

/-- Every run ends. It enters no more blocks than it has steps for, in-place dispatches counted,
and its engine counts each of them; a translation that failed is tried again at most once before a
block is entered; and a run of no steps enters nothing. -/
theorem run_respects_budget (hcalls : KeepsBudget m.world)
    (hlimit : m.config.transferLimit ≠ 0) {e : Engine κ τ} (he : Inv e.storage) (w : ω)
    (eip : U32) (maxSteps : U64) {iterations : Nat}
    (hiterations : 2 * maxSteps.toNat + 1 ≤ iterations) :
    ∃ r, m.run iterations e w eip maxSteps = some r ∧
      Spent e maxSteps.toNat 0 r.engine r.events ∧
      (maxSteps = 0 → ∀ transfers pending left,
        .entered transfers pending left ∉ r.events) := by
  have hbegin := beginRun_inv (m := m) hst he w
  have hcount := beginRun_uncounted (m := m) e w
  have hrun : ∃ r, m.run iterations e w eip maxSteps = some r ∧
      Spent e maxSteps.toNat 0 r.engine r.events := by
    unfold Machine.run
    generalize m.beginRun e w = begun at hbegin hcount
    obtain ⟨ok, e1⟩ := begun
    cases ok with
    | false => exact ⟨_, rfl, Spent.uncounted hcount _ _⟩
    | true =>
      obtain ⟨r, hr, hspent⟩ := runLoop_spent hst hcalls hlimit (m.terms e1 w maxSteps) iterations
        (l := ⟨w, eip, 0, 0, ⟨0, 0⟩⟩) hbegin hiterations
      exact ⟨r, hr, hspent.entered.trans (by rw [hcount.entered]),
        hspent.chained.trans (by rw [hcount.chained]), hspent.within, hspent.retried⟩
  obtain ⟨r, hr, hspent⟩ := hrun
  refine ⟨r, hr, hspent, fun hzero transfers pending left hmem => ?_⟩
  have hpos := blocksEntered_pos hmem
  have hwithin := hspent.within
  rw [hzero] at hwithin
  exact absurd hwithin (by rw [show (0 : U64).toNat = 0 from rfl]; omega)

end Run

/-! ## A block that jumps to itself -/

theorem selfLoop_bounded : selfLoop.storage.Bounded fun _ => True where
  evict := fun _ _ => trivial
  reset := fun _ _ => trivial
  invalidate := fun _ _ _ _ => trivial
  translate := fun _ _ _ _ _ => trivial
  room := fun _ _ => rfl

theorem selfLoop_keepsBudget : KeepsBudget selfLoop.world where
  chained := by
    intro calls host run eip hne
    unfold selfLoop
    dsimp only
    split_ifs
    · exact .inl ⟨hne, rfl⟩
    · exact .inr ⟨rfl, by bv_omega⟩
  alone := fun _ _ _ => rfl

/-- Five steps of it: two calls, the second with three transfers. -/
theorem selfLoop_budget : ∃ r, selfLoop.run 11 selfLoopEngine 0 0x1000 5 = some r ∧
    Spent selfLoopEngine 5 0 r.engine r.events ∧
    ((5 : U64) = 0 → ∀ transfers pending left,
      .entered transfers pending left ∉ r.events) :=
  run_respects_budget selfLoop_bounded selfLoop_keepsBudget (by decide) trivial 0 0x1000 5
    (by decide)

end X86Port.Jit
