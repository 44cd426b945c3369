import X86Port.Jit.Linked

/-!
# The states an engine reaches

* `Reachable`: from a start, by the embedder's operations and by the halves of the iterations of
  any runs, in any order.
* `run_reachable`: a whole run stays within them.
* `Keeps`: what the parts of the engine must keep for every reachable state to keep it.
-/

namespace X86Port.Jit

variable {κ τ ω μ : Type} {m : Machine κ τ ω μ} {view : κ → U32 → Option CachedBlock}

/-- The states any order of operations reaches, those in which translated code is called
included. -/
inductive Reachable (m : Machine κ τ ω μ) (start : Engine κ τ) : Engine κ τ → Prop where
  | start : Reachable m start start
  | perform {e : Engine κ τ} (op : EngineOp) (h : Reachable m start e) :
    Reachable m start (e.perform m op)
  | begin {e : Engine κ τ} (w : ω) (h : Reachable m start e) :
    Reachable m start (m.beginRun e w).2
  | prepare {e : Engine κ τ} {t : RunTerms} (ht : Terms m t) {l : Locals ω} {p : Prepared κ τ ω}
    (h : Reachable m start e) (hp : m.prepare t e l = some p) : Reachable m start p.engine
  | enter {e : Engine κ τ} (t : RunTerms) (host : Nat) (l : Locals ω) (h : Reachable m start e) :
    Reachable m start (m.enter t host e l).engine

theorem terms_terms (e : Engine κ τ) (w : ω) (maxSteps : U64) :
    Terms m (m.terms e w maxSteps) := by
  intro h
  unfold Machine.terms Machine.contract at h
  simp only [Bool.and_eq_true, Bool.not_eq_true'] at h
  exact h.1.1.1.1.2

theorem iterate_reachable {start e : Engine κ τ} {t : RunTerms} (ht : Terms m t)
    (h : Reachable m start e) {l : Locals ω} {step : Step κ τ ω}
    (hstep : m.iterate t e l = some step) : Reachable m start step.engine := by
  unfold Machine.iterate at hstep
  cases hp : m.prepare t e l with
  | none =>
    rw [hp] at hstep
    cases hstep
  | some p =>
    have hprepared := Reachable.prepare ht h hp
    rw [hp] at hstep
    cases p with
    | done step =>
      cases hstep
      exact hprepared
    | enter host e1 l1 events =>
      cases hstep
      exact Reachable.enter t host l1 hprepared

theorem runLoop_reachable {start : Engine κ τ} {t : RunTerms} (ht : Terms m t)
    (iterations : Nat) : ∀ {e : Engine κ τ} {l : Locals ω} {r : Machine.RunResult κ τ ω},
      Reachable m start e → m.runLoop t iterations e l = some r → Reachable m start r.engine := by
  induction iterations with
  | zero =>
    intro e l r h hr
    unfold Machine.runLoop at hr
    split_ifs at hr
    · cases hr
      exact h
  | succ iterations ih =>
    intro e l r h hr
    unfold Machine.runLoop at hr
    split_ifs at hr
    · dsimp only at hr
      cases hstep : m.iterate t e l with
      | none =>
        rw [hstep] at hr
        cases hr
      | some step =>
        have hreach := iterate_reachable ht h hstep
        rw [hstep] at hr
        obtain ⟨status, e', l', events⟩ := step
        cases status with
        | none =>
          obtain ⟨r', hr', rfl⟩ := Option.map_eq_some_iff.mp hr
          exact ih (e := e') (r := r') hreach hr'
        | some status =>
          cases hr
          exact hreach
    · cases hr
      exact h

theorem run_reachable {start e : Engine κ τ} (h : Reachable m start e) {iterations : Nat} {w : ω}
    {eip : U32} {maxSteps : U64} {r : Machine.RunResult κ τ ω}
    (hr : m.run iterations e w eip maxSteps = some r) : Reachable m start r.engine := by
  unfold Machine.run at hr
  have hbegin := Reachable.begin w h
  generalize m.beginRun e w = begun at hr hbegin
  obtain ⟨ok, e1⟩ := begun
  cases ok with
  | false =>
    cases hr
    exact hbegin
  | true => exact runLoop_reachable (terms_terms e1 w maxSteps) iterations hbegin hr

/-! ## What the parts keep -/

/-- Counters, headers and slots may differ, and nothing else. -/
structure SameBooks (view : κ → U32 → Option CachedBlock) (e e' : Engine κ τ) : Prop where
  cache : view e'.cache = view e.cache
  storage : e'.storage = e.storage
  links : e'.links.map (fun c => (c.claimed, c.capacity)) =
    e.links.map fun c => (c.claimed, c.capacity)

theorem SameBooks.refl (e : Engine κ τ) : SameBooks view e e := ⟨rfl, rfl, rfl⟩

/-- A lookup changes nothing that the map shows. -/
def BlockCache.LookupKeeps {κ : Type} (cache : BlockCache κ)
    (view : κ → U32 → Option CachedBlock) : Prop :=
  ∀ c guest, view (cache.lookup c guest).2 = view c ∧
    view (cache.lookupRefusing c guest).2 = view c

theorem BlockCache.Lawful.lookupKeeps {κ : Type} {cache : BlockCache κ}
    {view : κ → U32 → Option CachedBlock} (h : cache.Lawful view) : cache.LookupKeeps view :=
  fun c guest => ⟨(h.lookup c guest).2, (h.refusing c guest).2⟩

/-- A property that every part of the engine keeps. -/
structure Keeps (m : Machine κ τ ω μ) (view : κ → U32 → Option CachedBlock)
    (P : Engine κ τ → Prop) : Prop where
  perform : ∀ e op, P e → P (e.perform m op)
  evict : ∀ e limit, P e → P (e.evictOnce m limit).2
  translate : ∀ e w eip, P e → P (e.finishTranslate m w eip
    (m.storage.translate e.storage (m.world.reads w) eip
      (e.links.map fun c => (c.claimed, c.capacity))).1
    (m.storage.translate e.storage (m.world.reads w) eip
      (e.links.map fun c => (c.claimed, c.capacity))).2).2
  book : ∀ e e', SameBooks view e e' → P e → P e'

namespace Keeps

variable {P : Engine κ τ → Prop} (h : Keeps m view P)
  (hlaw : m.cache.LookupKeeps view)

include h

theorem performAll (ops : List EngineOp) (e : Engine κ τ) (he : P e) : P (e.performAll m ops) :=
  Engine.performAll_rel (R := fun e e' => P e → P e') (fun _ => id)
    (fun hab hbc => hbc ∘ hab) h.perform ops e he

theorem evictForRoom {e e' : Engine κ τ} {ok : Bool} (he : P e)
    (hroom : e.evictForRoom m = some (ok, e')) : P e' :=
  Engine.evictForRoom_rel (R := fun e e' => P e → P e') (fun _ => id)
    (fun hab hbc => hbc ∘ hab) (fun e => h.perform e .invalidateAll) h.evict hroom he

theorem translateAt {e e' : Engine κ τ} (he : P e) {w : ω} {eip : U32}
    {out : Engine.TranslateEnd} (htranslate : e.translateAt m w eip = some (out, e')) :
    P e' := by
  unfold Engine.translateAt at htranslate
  cases hroom : e.evictForRoom m with
  | none =>
    rw [hroom] at htranslate
    cases htranslate
  | some made =>
    obtain ⟨ok, e1⟩ := made
    have h1 := h.evictForRoom he hroom
    rw [hroom] at htranslate
    cases ok with
    | false =>
      cases htranslate
      exact h1
    | true =>
      have hend := congrArg Prod.snd (Option.some.inj htranslate)
      dsimp only at hend
      rw [← hend]
      exact h.translate e1 w eip h1

theorem stats (e : Engine κ τ) (he : P e) (s : EngineStats) : P { e with stats := s } :=
  h.book e _ ⟨rfl, rfl, rfl⟩ he

theorem askEmbedder {e : Engine κ τ} (he : P e) (l : Locals ω) :
    (∀ step, (m.askEmbedder e l).1 = some step → P step.engine) ∧
      P (m.askEmbedder e l).2.1 := by
  unfold Machine.askEmbedder
  cases m.world.intercept with
  | none => exact ⟨fun step hstep => (by cases hstep), he⟩
  | some intercept =>
    dsimp only
    have hasked := h.performAll (intercept l.world l.eip).1.ops _
      (h.stats e he { e.stats with interceptCalls := e.stats.interceptCalls + 1 })
    cases (intercept l.world l.eip).1.yes with
    | false =>
      rw [if_neg Bool.false_ne_true]
      exact ⟨fun step hstep => (by cases hstep), hasked⟩
    | true =>
      rw [if_pos rfl]
      cases m.world.dispatch with
      | none =>
        refine ⟨fun step hstep => ?_, hasked⟩
        cases hstep
        exact hasked
      | some dispatch =>
        dsimp only
        generalize dispatch (intercept l.world l.eip).2 (intercept l.world l.eip).1.eip = done
        have hdone := h.performAll done.1.ops _ hasked
        cases done.1.yes with
        | false =>
          rw [if_neg Bool.false_ne_true]
          refine ⟨fun step hstep => ?_, hdone⟩
          cases hstep
          exact hdone
        | true =>
          rw [if_pos rfl]
          refine ⟨fun step hstep => ?_, hdone⟩
          cases hstep
          exact hdone

theorem translateMiss {e : Engine κ τ} (he : P e) {l : Locals ω} {p : Prepared κ τ ω}
    (hp : m.translateMiss e l = some p) : P p.engine := by
  unfold Machine.translateMiss at hp
  cases htranslate : e.translateAt m l.world l.eip with
  | none =>
    rw [htranslate] at hp
    cases hp
  | some answer =>
    obtain ⟨out, e'⟩ := answer
    have hend := h.translateAt he htranslate
    rw [htranslate] at hp
    cases out with
    | found exec =>
      cases hp
      exact hend
    | full =>
      dsimp only at hp
      split_ifs at hp <;> cases hp <;> exact hend
    | failed status =>
      cases status with
      | outOfSpace =>
        dsimp only at hp
        split_ifs at hp <;> cases hp <;> exact hend
      | fetchFault =>
        cases hp
        exact hend
      | decodeFailed =>
        cases hp
        exact hend
      | unsupportedAtEntry =>
        cases hp
        exact h.stats e' hend _

include hlaw

theorem prepare {t : RunTerms} {e : Engine κ τ} (he : P e) {l : Locals ω}
    {p : Prepared κ τ ω} (hp : m.prepare t e l = some p) : P p.engine := by
  have hfind : P (m.findUnguarded t e l.eip).2 := by
    refine h.book e _ ?_ he
    unfold Machine.findUnguarded
    split_ifs
    · exact ⟨(hlaw e.cache l.eip).2, rfl, rfl⟩
    · exact SameBooks.refl e
  unfold Machine.prepare at hp
  generalize m.findUnguarded t e l.eip = found at hp hfind
  obtain ⟨host, e1⟩ := found
  cases host with
  | some host =>
    cases hlinking : t.linking with
    | false =>
      dsimp only at hp
      rw [hlinking] at hp
      cases hp
      exact hfind
    | true =>
      dsimp only at hp
      rw [hlinking, if_pos rfl] at hp
      cases hp
      refine h.book e1 _ ?_ hfind
      unfold Machine.linkPending
      cases hlinks : e1.links with
      | none => exact SameBooks.refl e1
      | some c =>
        dsimp only
        split_ifs
        · exact SameBooks.refl e1
        · exact ⟨rfl, rfl, by rw [hlinks]; rfl⟩
  | none =>
    dsimp only at hp
    unfold Machine.prepareMiss at hp
    obtain ⟨hstep, hasked⟩ := h.askEmbedder hfind
      { l with pending := { l.pending with slot := 0 } }
    generalize m.askEmbedder e1 { l with pending := { l.pending with slot := 0 } } = answer
      at hp hstep hasked
    obtain ⟨step, e2, l2⟩ := answer
    cases step with
    | some step =>
      cases hp
      exact hstep step rfl
    | none =>
      dsimp only at hp
      have hany : P (m.findAny e2 l2.eip).2 := by
        refine h.book e2 _ ?_ hasked
        unfold Machine.findAny
        split_ifs
        · exact SameBooks.refl e2
        · exact ⟨(hlaw e2.cache l2.eip).1, rfl, rfl⟩
      generalize m.findAny e2 l2.eip = found at hp hany
      obtain ⟨host, e3⟩ := found
      cases host with
      | some host =>
        cases hp
        exact hany
      | none => exact h.translateMiss hany hp

omit hlaw

theorem setRun (e : Engine κ τ) (he : P e) (run : ChainRun) : P (Machine.setRun e run) := by
  refine h.book e _ ⟨rfl, rfl, ?_⟩ he
  unfold Machine.setRun
  dsimp only
  rw [Option.map_map]
  rfl

theorem enter (t : RunTerms) (host : Nat) {e : Engine κ τ} (he : P e) (l : Locals ω) :
    P (m.enter t host e l).engine := by
  have hwatch : ∀ l' : Locals ω, P (m.watchEntry e l').1 := by
    intro l'
    refine h.book e _ ?_ he
    unfold Machine.watchEntry
    split_ifs
    · exact ⟨rfl, rfl, rfl⟩
    · exact SameBooks.refl e
  have hcall : ∀ (e0 : Engine κ τ) (l0 : Locals ω), P e0 → P (m.callBlock t host e0 l0).2.2.1 := by
    intro e0 l0 h0
    unfold Machine.callBlock
    cases e0.links with
    | none => exact h.performAll _ e0 h0
    | some c => exact h.setRun _ (h.performAll _ _ (h.setRun e0 h0 _)) _
  have hleave : ∀ (e0 : Engine κ τ) (l0 : Locals ω) (exit : Option JitExit)
      (events : List RunEvent), P e0 → P (Machine.leave e0 l0 exit events).engine := by
    intro e0 l0 exit events h0
    unfold Machine.leave
    cases Machine.exitStatus exit with
    | none => exact h0
    | some status =>
      dsimp only
      split_ifs
      · exact h.stats e0 h0 _
      · exact h0
  have hcalled := hcall (m.watchEntry e { l with retries := 0 }).1
    (m.watchEntry e { l with retries := 0 }).2 (hwatch { l with retries := 0 })
  unfold Machine.enter
  dsimp only
  generalize m.callBlock t host (m.watchEntry e { l with retries := 0 }).1
    (m.watchEntry e { l with retries := 0 }).2 = out at hcalled
  obtain ⟨called, transfers, e1, l1⟩ := out
  have hcount : P (Machine.countCall e1 l.eip called.run.last transfers) :=
    h.book e1 _ ⟨rfl, rfl, rfl⟩ hcalled
  dsimp only
  split_ifs
  · have hflush := h.perform _ .invalidateAll hcount
    unfold Engine.perform at hflush
    generalize Engine.invalidateAll m
      (Machine.countCall e1 l.eip called.run.last transfers) = flushed at hflush
    obtain ⟨ok, e2⟩ := flushed
    cases ok with
    | false => exact hflush
    | true => exact hleave _ _ _ _ hflush
  · exact hleave _ _ _ _ hcount

include hlaw

/-- What every part keeps, every reachable state has. -/
theorem reachable {start e : Engine κ τ} (hstart : P start) (hreach : Reachable m start e) :
    P e := by
  induction hreach with
  | start => exact hstart
  | perform op _ ih => exact h.perform _ op ih
  | @begin e w _ ih =>
    unfold Machine.beginRun
    split_ifs
    · have hflush := h.perform e .invalidateAll ih
      unfold Engine.perform at hflush
      generalize Engine.invalidateAll m e = flushed at hflush
      obtain ⟨ok, e1⟩ := flushed
      cases ok with
      | false => exact hflush
      | true => exact h.book e1 _ ⟨rfl, rfl, rfl⟩ hflush
    · exact ih
  | prepare ht _ hp ih => exact h.prepare hlaw ih hp
  | enter t host l _ ih => exact h.enter t host ih l

end Keeps

end X86Port.Jit
