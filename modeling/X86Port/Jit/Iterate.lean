import X86Port.Jit.ChainExit
import X86Port.Jit.Engine

/-!
# What an iteration of the run loop can do

* `Engine.Uncounted`: what makes room, translates or links counts no block.
* `MissOutcome`: where an iteration goes that finds no unguarded translation.
* `StepOutcome`: what a whole iteration does; `iterate_outcome` says there is nothing else.
-/

namespace X86Port.Jit

variable {κ τ ω μ : Type} (m : Machine κ τ ω μ)

/-! ## What counts no block -/

/-- The counters of entered blocks are as they were. -/
structure Engine.Uncounted (e e' : Engine κ τ) : Prop where
  entered : e'.stats.blocksEntered = e.stats.blocksEntered
  chained : e'.stats.blocksChained = e.stats.blocksChained

namespace Engine

variable {m}

theorem Uncounted.refl (e : Engine κ τ) : Uncounted e e := ⟨rfl, rfl⟩

theorem Uncounted.trans {e e' e'' : Engine κ τ} (h : Uncounted e e') (h' : Uncounted e' e'') :
    Uncounted e e'' := ⟨h'.entered.trans h.entered, h'.chained.trans h.chained⟩

theorem invalidateAll_uncounted (e : Engine κ τ) : Uncounted e (e.invalidateAll m).2 := by
  unfold invalidateAll
  dsimp only
  split_ifs
  · exact ⟨rfl, rfl⟩
  · exact ⟨rfl, rfl⟩

theorem perform_uncounted (e : Engine κ τ) (op : EngineOp) : Uncounted e (e.perform m op) := by
  cases op with
  | invalidate lo hi =>
    unfold perform invalidate dropRange
    dsimp only
    split_ifs
    · exact ⟨rfl, rfl⟩
    · exact ⟨rfl, rfl⟩
  | invalidateAll => exact invalidateAll_uncounted e

theorem performAll_uncounted (ops : List EngineOp) (e : Engine κ τ) :
    Uncounted e (e.performAll m ops) :=
  performAll_rel Uncounted.refl Uncounted.trans perform_uncounted ops e

theorem evictOnce_uncounted (e : Engine κ τ) (limit : StorageRoom) :
    Uncounted e (e.evictOnce m limit).2 := by
  have hstart : Uncounted e { e with storage := (m.storage.evict e.storage).2.2 } := ⟨rfl, rfl⟩
  have htold := hstart.trans (forgetAll_rel (m := m) Uncounted.refl Uncounted.trans
    (fun _ _ => ⟨rfl, rfl⟩) (m.storage.evict e.storage).2.1 _)
  unfold evictOnce
  dsimp only
  split_ifs
  · refine htold.trans ?_
    unfold countEviction
    cases limit <;> exact ⟨rfl, rfl⟩
  · exact htold

theorem evictForRoom_uncounted {e e' : Engine κ τ} {ok : Bool}
    (h : e.evictForRoom m = some (ok, e')) : Uncounted e e' :=
  evictForRoom_rel Uncounted.refl Uncounted.trans invalidateAll_uncounted evictOnce_uncounted h

theorem cacheBlock_uncounted (e : Engine κ τ) (w : ω) (eip : U32) (block : JitBlock)
    (exec : Nat) : Uncounted e (e.cacheBlock m w eip block exec).2 := by
  unfold cacheBlock
  generalize m.cache.insert e.cache eip exec block.guestLen = out
  obtain ⟨inserted, cache⟩ := out
  cases inserted with
  | false =>
    have hall := invalidateAll_uncounted (m := m) { e with cache := cache }
    dsimp only
    generalize invalidateAll m { e with cache := cache } = flushed at hall
    obtain ⟨ok, e'⟩ := flushed
    cases ok <;> exact ⟨hall.entered, hall.chained⟩
  | true =>
    dsimp only
    split_ifs
    · exact ⟨rfl, rfl⟩
    · exact ⟨rfl, rfl⟩

theorem translateAt_uncounted {e e' : Engine κ τ} {w : ω} {eip : U32} {out : TranslateEnd}
    (h : e.translateAt m w eip = some (out, e')) : Uncounted e e' := by
  unfold translateAt at h
  cases hroom : e.evictForRoom m with
  | none =>
    rw [hroom] at h
    cases h
  | some made =>
    obtain ⟨ok, e1⟩ := made
    have hmade := evictForRoom_uncounted hroom
    rw [hroom] at h
    cases ok with
    | false =>
      cases h
      exact hmade
    | true =>
      have hend := congrArg Prod.snd (Option.some.inj h)
      dsimp only at hend
      rw [← hend]
      refine hmade.trans ?_
      unfold finishTranslate
      split
      · exact ⟨rfl, rfl⟩
      · exact ⟨(cacheBlock_uncounted _ w eip _ _).entered,
          (cacheBlock_uncounted _ w eip _ _).chained⟩

end Engine

/-! ## Up to the call -/

/-- Where an iteration goes that finds no unguarded translation: out of the run, round again after
a dispatch or a failed translation, or into a translation. -/
inductive MissOutcome (e : Engine κ τ) (l : Locals ω) : Prepared κ τ ω → Prop where
  | ended {e' : Engine κ τ} (status : RunStatus) (w : ω) (eip : U32) (retries : Nat)
    (hcount : e.Uncounted e') : MissOutcome e l
      (.done ⟨some status, e', { l with world := w, eip := eip, retries := retries }, []⟩)
  | dispatched {e' : Engine κ τ} (w : ω) (eip : U32) (hcount : e.Uncounted e') : MissOutcome e l
      (.done ⟨none, e', { l with world := w, eip := eip, steps := l.steps + 1 }, [.dispatched]⟩)
  | retried {e' : Engine κ τ} (w : ω) (eip : U32) (hcount : e.Uncounted e')
    (hfirst : l.retries = 0) : MissOutcome e l
      (.done ⟨none, e', { l with world := w, eip := eip, retries := l.retries + 1 }, [.retried]⟩)
  | found {e' : Engine κ τ} (host : Nat) (w : ω) (eip : U32) (hcount : e.Uncounted e') :
    MissOutcome e l (.enter host e' { l with world := w, eip := eip } [])

variable {m}

theorem MissOutcome.of_uncounted {e e1 : Engine κ τ} {l : Locals ω} {w : ω} {eip : U32}
    {p : Prepared κ τ ω} (hcount : e.Uncounted e1)
    (h : MissOutcome e1 { l with world := w, eip := eip } p) : MissOutcome e l p := by
  cases h with
  | ended status w eip retries h => exact .ended status w eip retries (hcount.trans h)
  | dispatched w eip h => exact .dispatched w eip (hcount.trans h)
  | retried w eip h hfirst => exact .retried w eip (hcount.trans h) hfirst
  | found host w eip h => exact .found host w eip (hcount.trans h)

theorem translateMiss_outcome {e : Engine κ τ} {l : Locals ω} {p : Prepared κ τ ω}
    (h : m.translateMiss e l = some p) : MissOutcome e l p := by
  unfold Machine.translateMiss at h
  cases htranslate : e.translateAt m l.world l.eip with
  | none =>
    rw [htranslate] at h
    cases h
  | some answer =>
    obtain ⟨out, e'⟩ := answer
    have hcount := Engine.translateAt_uncounted htranslate
    have hrefused : ∀ q : Prepared κ τ ω, q = .done
        (if l.retries + 1 ≤ 1 then ⟨none, e', { l with retries := l.retries + 1 }, [.retried]⟩
          else ⟨some .outOfCode, e', { l with retries := l.retries + 1 }, []⟩) →
        MissOutcome e l q := by
      rintro q rfl
      split_ifs with hfirst
      · exact .retried l.world l.eip hcount (by omega)
      · exact .ended .outOfCode l.world l.eip (l.retries + 1) hcount
    rw [htranslate] at h
    cases out with
    | found exec =>
      cases h
      exact .found exec l.world l.eip hcount
    | full => exact hrefused p (Option.some.inj h).symm
    | failed status =>
      cases status with
      | outOfSpace => exact hrefused p (Option.some.inj h).symm
      | fetchFault =>
        cases h
        exact .ended .fetchFault l.world l.eip l.retries hcount
      | decodeFailed =>
        cases h
        exact .ended .decodeFailed l.world l.eip l.retries hcount
      | unsupportedAtEntry =>
        cases h
        exact .ended .unsupported l.world l.eip l.retries ⟨hcount.entered, hcount.chained⟩

/-- What asking the embedder comes to. -/
theorem askEmbedder_outcome (e : Engine κ τ) (l : Locals ω) :
    (∀ step, (m.askEmbedder e l).1 = some step → MissOutcome e l (.done step)) ∧
      e.Uncounted (m.askEmbedder e l).2.1 ∧
      ((m.askEmbedder e l).1 = none → ∃ w eip,
        (m.askEmbedder e l).2.2 = { l with world := w, eip := eip }) := by
  unfold Machine.askEmbedder
  cases m.world.intercept with
  | none =>
    exact ⟨fun step hstep => (by cases hstep), Engine.Uncounted.refl e,
      fun _ => ⟨l.world, l.eip, rfl⟩⟩
  | some intercept =>
    dsimp only
    have hstart : e.Uncounted { e with stats := { e.stats with
      interceptCalls := e.stats.interceptCalls + 1 } } := ⟨rfl, rfl⟩
    have hasked := hstart.trans
      (Engine.performAll_uncounted (m := m) (intercept l.world l.eip).1.ops _)
    cases (intercept l.world l.eip).1.yes with
    | false =>
      rw [if_neg Bool.false_ne_true]
      exact ⟨fun step hstep => (by cases hstep), hasked, fun _ => ⟨_, _, rfl⟩⟩
    | true =>
      rw [if_pos rfl]
      cases m.world.dispatch with
      | none =>
        refine ⟨fun step hstep => ?_, hasked, fun h => by cases h⟩
        cases hstep
        exact .ended .intercept _ _ l.retries hasked
      | some dispatch =>
        dsimp only
        have hdone := hasked.trans (Engine.performAll_uncounted (m := m)
          (dispatch (intercept l.world l.eip).2 (intercept l.world l.eip).1.eip).1.ops _)
        generalize hd : dispatch (intercept l.world l.eip).2 (intercept l.world l.eip).1.eip = done
          at hdone
        cases done.1.yes with
        | false =>
          rw [if_neg Bool.false_ne_true]
          refine ⟨fun step hstep => ?_, hdone, fun h => by cases h⟩
          cases hstep
          exact .ended .intercept _ _ l.retries hdone
        | true =>
          rw [if_pos rfl]
          refine ⟨fun step hstep => ?_, hdone, fun h => by cases h⟩
          cases hstep
          exact .dispatched _ _ hdone

theorem findAny_uncounted (e : Engine κ τ) (eip : U32) :
    e.Uncounted (m.findAny e eip).2 := by
  unfold Machine.findAny
  split_ifs
  · exact Engine.Uncounted.refl e
  · exact ⟨rfl, rfl⟩

theorem prepareMiss_outcome {e : Engine κ τ} {l : Locals ω} {p : Prepared κ τ ω}
    (h : m.prepareMiss e l = some p) : MissOutcome e l p := by
  unfold Machine.prepareMiss at h
  obtain ⟨hstep, hcount, hmoved⟩ := askEmbedder_outcome (m := m) e l
  generalize m.askEmbedder e l = answer at h hstep hcount hmoved
  obtain ⟨step, e1, l1⟩ := answer
  cases step with
  | some step =>
    cases h
    exact hstep step rfl
  | none =>
    obtain ⟨w, eip, hl⟩ := hmoved rfl
    dsimp only at h hl hcount
    subst hl
    dsimp only at h
    have hfound := findAny_uncounted (m := m) e1 eip
    generalize m.findAny e1 eip = found at h hfound
    obtain ⟨host, e2⟩ := found
    cases host with
    | some host =>
      cases h
      exact .found host w eip (hcount.trans hfound)
    | none => exact MissOutcome.of_uncounted (hcount.trans hfound) (translateMiss_outcome h)

/-! ## From the call on -/

/-- A call the run made, and the transfers it was charged for. -/
def CallMade (m : Machine κ τ ω μ) (t : RunTerms) (steps : U64) (called : Called)
    (transfers : U64) : Prop :=
  ∃ w host eip, (called = (m.world.call w host none eip).1 ∧ transfers = 0) ∨
    ∃ run : ChainRun, run.budget = m.allowed t steps ∧
      called = (m.world.call w host (some run) eip).1 ∧
      transfers = chainedTransfers called.run (m.allowed t steps)

theorem callBlock_spec (t : RunTerms) (host : Nat) (e : Engine κ τ) (l : Locals ω) :
    let out := m.callBlock t host e l
    CallMade m t l.steps out.1 out.2.1 ∧ e.Uncounted out.2.2.1 ∧
      out.2.2.2.steps = l.steps ∧ out.2.2.2.retries = l.retries ∧
      out.2.2.2.eip = out.1.eip ∧
      (out.2.2.2.pending.slot = out.1.run.pending ∨
        out.2.2.2.pending.slot = l.pending.slot) := by
  dsimp only
  unfold Machine.callBlock
  cases e.links with
  | none =>
    dsimp only
    exact ⟨⟨l.world, host, l.eip, Or.inl ⟨rfl, rfl⟩⟩, Engine.performAll_uncounted _ _, rfl, rfl,
      rfl, Or.inr rfl⟩
  | some c =>
    dsimp only
    refine ⟨⟨l.world, host, l.eip, Or.inr ⟨_, rfl, rfl, rfl⟩⟩, ?_, rfl, rfl, rfl, ?_⟩
    · have hstart : e.Uncounted
          (Machine.setRun e ⟨m.allowed t l.steps, t.stop, l.eip, 0⟩) := ⟨rfl, rfl⟩
      have hops := hstart.trans (Engine.performAll_uncounted (m := m)
        (m.world.call l.world host
          (some ⟨m.allowed t l.steps, t.stop, l.eip, 0⟩) l.eip).1.ops _)
      exact ⟨hops.entered, hops.chained⟩
    · split_ifs
      · exact Or.inl rfl
      · exact Or.inr rfl

/-- What an iteration does from the call on. -/
structure EnterOutcome (m : Machine κ τ ω μ) (t : RunTerms) (e : Engine κ τ) (l : Locals ω)
    (step : Step κ τ ω) (called : Called) (transfers : U64) : Prop where
  call : CallMade m t l.steps called transfers
  events : step.events = [.entered called.transfers called.run.pending called.eip]
  steps : step.locals.steps = l.steps + (1 + transfers)
  retries : step.locals.retries = 0
  eip : step.locals.eip = called.eip
  pending : step.locals.pending.slot = called.run.pending ∨
    step.locals.pending.slot = l.pending.slot
  entered : step.engine.stats.blocksEntered = e.stats.blocksEntered + (1 + transfers)
  chained : step.engine.stats.blocksChained = e.stats.blocksChained + transfers

theorem leave_spec (e : Engine κ τ) (l : Locals ω) (exit : Option JitExit)
    (events : List RunEvent) :
    (Machine.leave e l exit events).locals = l ∧ (Machine.leave e l exit events).events = events ∧
      e.Uncounted (Machine.leave e l exit events).engine := by
  unfold Machine.leave
  cases Machine.exitStatus exit with
  | none => exact ⟨rfl, rfl, Engine.Uncounted.refl e⟩
  | some status =>
    dsimp only
    split_ifs
    · exact ⟨rfl, rfl, rfl, rfl⟩
    · exact ⟨rfl, rfl, Engine.Uncounted.refl e⟩

theorem enter_outcome (t : RunTerms) (host : Nat) (e : Engine κ τ) (l : Locals ω) :
    ∃ called transfers, EnterOutcome m t e l (m.enter t host e l) called transfers := by
  have hwatch : ∀ l' : Locals ω, e.Uncounted (m.watchEntry e l').1 ∧
      (m.watchEntry e l').2.steps = l'.steps ∧ (m.watchEntry e l').2.retries = l'.retries ∧
      (m.watchEntry e l').2.pending = l'.pending := by
    intro l'
    unfold Machine.watchEntry
    split_ifs
    · exact ⟨⟨rfl, rfl⟩, rfl, rfl, rfl⟩
    · exact ⟨Engine.Uncounted.refl e, rfl, rfl, rfl⟩
  obtain ⟨hwcount, hwsteps, hwretries, hwpending⟩ := hwatch { l with retries := 0 }
  unfold Machine.enter
  dsimp only
  generalize m.watchEntry e { l with retries := 0 } = watched at hwcount hwsteps hwretries hwpending
  obtain ⟨e0, l0⟩ := watched
  dsimp only at hwcount hwsteps hwretries hwpending ⊢
  have hcall := callBlock_spec (m := m) t host e0 l0
  generalize m.callBlock t host e0 l0 = out at hcall
  obtain ⟨called, transfers, e1, l1⟩ := out
  dsimp only at hcall ⊢
  obtain ⟨hmade, hcount, hsteps, hretries, heip, hpending⟩ := hcall
  rw [hwsteps] at hmade hsteps
  rw [hwretries] at hretries
  rw [hwpending] at hpending
  have hall := hwcount.trans hcount
  have hentered : (Machine.countCall e1 l.eip called.run.last transfers).stats.blocksEntered =
      e.stats.blocksEntered + (1 + transfers) := by
    rw [← hall.entered]
    rfl
  have hchained : (Machine.countCall e1 l.eip called.run.last transfers).stats.blocksChained =
      e.stats.blocksChained + transfers := by
    rw [← hall.chained]
    rfl
  refine ⟨called, transfers, ?_⟩
  generalize Machine.countCall e1 l.eip called.run.last transfers = counted at hentered hchained
  have hleft : ∀ e2 : Engine κ τ, counted.Uncounted e2 → ∀ step : Step κ τ ω,
      step.locals = { l1 with steps := l1.steps + (1 + transfers) } →
      step.events = [.entered called.transfers called.run.pending called.eip] →
      e2.Uncounted step.engine → EnterOutcome m t e l step called transfers := by
    intro e2 h2 step hl hev he
    exact {
      call := hmade
      events := hev
      steps := by rw [hl, ← hsteps]
      retries := by rw [hl, ← hretries]
      eip := by rw [hl, ← heip]
      pending := by
        rw [hl]
        exact hpending
      entered := he.entered.trans (h2.entered.trans hentered)
      chained := he.chained.trans (h2.chained.trans hchained) }
  split_ifs
  · have hflush := Engine.invalidateAll_uncounted (m := m) counted
    generalize Engine.invalidateAll m counted = flushed at hflush
    obtain ⟨ok, e2⟩ := flushed
    cases ok with
    | false => exact hleft e2 hflush _ rfl rfl (Engine.Uncounted.refl e2)
    | true =>
      obtain ⟨hl, hev, he⟩ := leave_spec e2 { l1 with steps := l1.steps + (1 + transfers) }
        called.exit [.entered called.transfers called.run.pending called.eip]
      exact hleft e2 hflush _ hl hev he
  · obtain ⟨hl, hev, he⟩ := leave_spec counted { l1 with steps := l1.steps + (1 + transfers) }
      called.exit [.entered called.transfers called.run.pending called.eip]
    exact hleft counted (Engine.Uncounted.refl counted) _ hl hev he

/-! ## An iteration -/

/-- The slot the exit of the last call named is written, or none is. -/
def LinkMade (l : Locals ω) (events : List RunEvent) : Prop :=
  events = [] ∨ ∃ slot claimed host, slot < claimed ∧ l.pending.slot ≠ 0 ∧
    slot + 1 = l.pending.slot.toNat ∧ events = [.linked slot claimed l.eip host]

theorem linkPending_spec (e : Engine κ τ) (l : Locals ω) (host : Nat) :
    LinkMade l (m.linkPending e l.pending l.eip host).2 ∧
      e.Uncounted (m.linkPending e l.pending l.eip host).1 := by
  unfold Machine.linkPending
  cases e.links with
  | none => exact ⟨Or.inl rfl, Engine.Uncounted.refl e⟩
  | some c =>
    dsimp only
    split_ifs with hskip
    · exact ⟨Or.inl rfl, Engine.Uncounted.refl e⟩
    · rw [not_or, not_or] at hskip
      obtain ⟨hslot, -, hclaimed⟩ := hskip
      have hpos : 0 < l.pending.slot.toNat := by bv_omega
      exact ⟨Or.inr ⟨_, _, _, by omega, hslot, by omega, rfl⟩, rfl, rfl⟩

/-- What an iteration does: one of the ways out or round, or a call with the link before it. -/
inductive StepOutcome (m : Machine κ τ ω μ) (t : RunTerms) (e : Engine κ τ) (l : Locals ω) :
    Step κ τ ω → Prop where
  | ended {e' : Engine κ τ} {l' : Locals ω} (status : RunStatus) (hcount : e.Uncounted e') :
    StepOutcome m t e l ⟨some status, e', l', []⟩
  | dispatched {e' : Engine κ τ} {l' : Locals ω} (hcount : e.Uncounted e')
    (hsteps : l'.steps = l.steps + 1) (hretries : l'.retries = l.retries)
    (hpending : l'.pending.slot = 0) : StepOutcome m t e l ⟨none, e', l', [.dispatched]⟩
  | retried {e' : Engine κ τ} {l' : Locals ω} (hcount : e.Uncounted e')
    (hfirst : l.retries = 0) (hsteps : l'.steps = l.steps) (hretries : l'.retries = 1)
    (hpending : l'.pending.slot = 0) : StepOutcome m t e l ⟨none, e', l', [.retried]⟩
  | called {step : Step κ τ ω} {links : List RunEvent} (called : Called) (transfers : U64)
    (hlinks : LinkMade l links) (hcall : CallMade m t l.steps called transfers)
    (hevents : step.events =
      links ++ [.entered called.transfers called.run.pending called.eip])
    (hsteps : step.locals.steps = l.steps + (1 + transfers)) (hretries : step.locals.retries = 0)
    (heip : step.locals.eip = called.eip)
    (hpending : step.locals.pending.slot = called.run.pending ∨ step.locals.pending.slot = 0)
    (hentered : step.engine.stats.blocksEntered = e.stats.blocksEntered + (1 + transfers))
    (hchained : step.engine.stats.blocksChained = e.stats.blocksChained + transfers) :
    StepOutcome m t e l step

theorem findUnguarded_uncounted (t : RunTerms) (e : Engine κ τ) (eip : U32) :
    e.Uncounted (m.findUnguarded t e eip).2 := by
  unfold Machine.findUnguarded
  split_ifs
  · exact ⟨rfl, rfl⟩
  · exact Engine.Uncounted.refl e

/-- A call that follows whatever came before it in its iteration. -/
theorem StepOutcome.of_enter {t : RunTerms} {e e1 : Engine κ τ} {l l1 : Locals ω}
    {links : List RunEvent} (host : Nat) (hcount : e.Uncounted e1) (hlinks : LinkMade l links)
    (hsteps : l1.steps = l.steps) (hpending : l1.pending.slot = 0) :
    StepOutcome m t e l { m.enter t host e1 l1 with
      events := links ++ (m.enter t host e1 l1).events } := by
  obtain ⟨called, transfers, h⟩ := enter_outcome (m := m) t host e1 l1
  refine .called called transfers hlinks (hsteps ▸ h.call) (by rw [h.events]) ?_ h.retries h.eip
    ?_ ?_ ?_
  · exact h.steps.trans (by rw [hsteps])
  · exact h.pending.imp_right fun h' => h'.trans hpending
  · exact h.entered.trans (by rw [hcount.entered])
  · exact h.chained.trans (by rw [hcount.chained])

/-- Nothing else happens in an iteration. -/
theorem iterate_outcome {t : RunTerms} {e : Engine κ τ} {l : Locals ω} {step : Step κ τ ω}
    (h : m.iterate t e l = some step) : StepOutcome m t e l step := by
  unfold Machine.iterate Machine.prepare at h
  have hfound := findUnguarded_uncounted (m := m) t e l.eip
  generalize m.findUnguarded t e l.eip = found at h hfound
  obtain ⟨host, e1⟩ := found
  cases host with
  | some host =>
    dsimp only at h hfound
    cases hlinking : t.linking with
    | false =>
      rw [hlinking] at h
      cases h
      exact .of_enter host hfound (Or.inl rfl) rfl rfl
    | true =>
      rw [hlinking] at h
      obtain ⟨hlinks, hcount⟩ := linkPending_spec (m := m) e1 l host
      cases h
      exact .of_enter host (hfound.trans hcount) hlinks rfl rfl
  | none =>
    dsimp only at h hfound
    cases hmiss : m.prepareMiss e1 { l with pending := { l.pending with slot := 0 } } with
    | none =>
      rw [hmiss] at h
      cases h
    | some p =>
      have houtcome := prepareMiss_outcome hmiss
      rw [hmiss] at h
      cases houtcome with
      | ended status w eip retries hcount =>
        cases h
        exact .ended status (hfound.trans hcount)
      | dispatched w eip hcount =>
        cases h
        exact .dispatched (hfound.trans hcount) rfl rfl rfl
      | retried w eip hcount hfirst =>
        cases h
        exact .retried (hfound.trans hcount) hfirst rfl (by dsimp only at hfirst ⊢; omega) rfl
      | found host w eip hcount =>
        cases h
        exact .of_enter host (hfound.trans hcount) (Or.inl rfl) rfl rfl

end X86Port.Jit
