import X86Port.Jit.Iterate
import X86Port.Jit.Reach

/-!
# Linking over whole runs

* `linked_reachable`: every reachable state's linked slots name live, unguarded translations.
* `NamedLinks`: a run writes only claimed slots, each for the address the exit that named it in
  the call just made left for.
* `linked_live`: both.
-/

namespace X86Port.Jit

variable {κ τ ω μ : Type} {m : Machine κ τ ω μ} {view : κ → U32 → Option CachedBlock}

theorem linked_reachable (hlaw : m.cache.Lawful view) {cache : κ} {storage : τ}
    {cacheBlocks : Nat} {hostState : U32} {e : Engine κ τ}
    (h : Reachable m (Engine.create m cache storage cacheBlocks hostState) e) :
    Linked m view e := by
  induction h with
  | start =>
    refine Unlinked.linkedIn (fun c hc i hi => ?_) _ _
    unfold Engine.create at hc
    dsimp only at hc
    split_ifs at hc
    cases hc
    exact absurd hi (Nat.not_lt_zero i)
  | perform op _ ih => exact (perform_kept hlaw _ op).linked ih
  | @begin e w _ ih =>
    unfold Machine.beginRun
    split_ifs
    · have hflush := (invalidateAll_kept hlaw e).linked ih
      generalize Engine.invalidateAll m e = flushed at hflush
      obtain ⟨ok, e1⟩ := flushed
      cases ok with
      | false => exact hflush
      | true => exact hflush
    · exact ih
  | prepare ht _ hp ih => exact prepare_linked hlaw ht ih hp
  | enter t host l _ ih => exact enter_linked hlaw host ih l

/-! ## The slots a run writes -/

/-- The slot and the address that the call just made left for, at the end of some events. -/
def leftBy : Option (U32 × U32) → List RunEvent → Option (U32 × U32)
  | left, [] => left
  | _, .entered _ pending eip :: events => leftBy (some (pending, eip)) events
  | _, _ :: events => leftBy none events

/-- Every slot written is claimed, and right after a call whose exit named it, one more than its
index, and left for the address it is written for. -/
def NamedLinks : Option (U32 × U32) → List RunEvent → Prop
  | _, [] => True
  | left, .linked slot claimed guest _ :: events =>
    slot < claimed ∧ (∃ pending, left = some (pending, guest) ∧ pending.toNat = slot + 1) ∧
      NamedLinks none events
  | _, .entered _ pending eip :: events => NamedLinks (some (pending, eip)) events
  | _, .dispatched :: events => NamedLinks none events
  | _, .retried :: events => NamedLinks none events

theorem namedLinks_append (before after : List RunEvent) : ∀ left : Option (U32 × U32),
    NamedLinks left (before ++ after) ↔
      NamedLinks left before ∧ NamedLinks (leftBy left before) after := by
  induction before with
  | nil => exact fun left => (and_iff_right trivial).symm
  | cons event before ih =>
    intro left
    cases event with
    | linked slot claimed guest host =>
      unfold leftBy
      rw [List.cons_append, NamedLinks, NamedLinks, ih, and_assoc, and_assoc]
    | entered transfers pending eip => exact ih _
    | dispatched => exact ih _
    | retried => exact ih _

/-- The pending slot of a run is one the call just made named, for where the guest is now. -/
def PendingNamed (left : Option (U32 × U32)) (l : Locals ω) : Prop :=
  l.pending.slot ≠ 0 → left = some (l.pending.slot, l.eip)

theorem linkMade_named {l : Locals ω} {links : List RunEvent} (h : LinkMade l links)
    {left : Option (U32 × U32)} (hleft : PendingNamed left l) : NamedLinks left links := by
  rcases h with rfl | ⟨slot, claimed, host, hslot, hne, hpending, rfl⟩
  · trivial
  · exact ⟨hslot, ⟨l.pending.slot, hleft hne, hpending.symm⟩, trivial⟩

theorem step_named {t : RunTerms} {e : Engine κ τ} {l : Locals ω} {step : Step κ τ ω}
    (h : StepOutcome m t e l step) {left : Option (U32 × U32)} (hleft : PendingNamed left l) :
    NamedLinks left step.events ∧
      (step.status = none → PendingNamed (leftBy left step.events) step.locals) := by
  cases h with
  | ended status _ => exact ⟨trivial, fun h => by cases h⟩
  | dispatched _ _ _ hpending => exact ⟨trivial, fun _ hne => absurd hpending hne⟩
  | retried _ _ _ _ hpending => exact ⟨trivial, fun _ hne => absurd hpending hne⟩
  | called called transfers hlinks _ hevents _ _ heip hpending _ _ =>
    rw [hevents, namedLinks_append]
    refine ⟨⟨linkMade_named hlinks hleft, trivial⟩, fun _ hne => ?_⟩
    have hend : ∀ (links : List RunEvent) (left : Option (U32 × U32)),
        leftBy left (links ++ [.entered called.transfers called.run.pending called.eip]) =
          some (called.run.pending, called.eip) := by
      intro links
      induction links with
      | nil => exact fun _ => rfl
      | cons event links ih =>
        intro left
        cases event <;> exact ih _
    rw [hend, heip]
    rcases hpending with h | h
    · rw [h]
    · exact absurd h hne

theorem runLoop_named (t : RunTerms) (iterations : Nat) :
    ∀ {e : Engine κ τ} {l : Locals ω} {r : Machine.RunResult κ τ ω} {left : Option (U32 × U32)},
      PendingNamed left l → m.runLoop t iterations e l = some r → NamedLinks left r.events := by
  induction iterations with
  | zero =>
    intro e l r left hleft hr
    unfold Machine.runLoop at hr
    split_ifs at hr
    · cases hr
      trivial
  | succ iterations ih =>
    intro e l r left hleft hr
    unfold Machine.runLoop at hr
    split_ifs at hr
    · dsimp only at hr
      cases hstep : m.iterate t e l with
      | none =>
        rw [hstep] at hr
        cases hr
      | some step =>
        obtain ⟨hnamed, hnext⟩ := step_named (iterate_outcome hstep) hleft
        rw [hstep] at hr
        obtain ⟨status, e', l', events⟩ := step
        cases status with
        | none =>
          obtain ⟨r', hr', rfl⟩ := Option.map_eq_some_iff.mp hr
          exact (namedLinks_append events r'.events left).mpr ⟨hnamed, ih (hnext rfl) hr'⟩
        | some status =>
          cases hr
          exact hnamed
    · cases hr
      trivial

theorem run_named {e : Engine κ τ} {iterations : Nat} {w : ω} {eip : U32} {maxSteps : U64}
    {r : Machine.RunResult κ τ ω} (hr : m.run iterations e w eip maxSteps = some r) :
    NamedLinks none r.events := by
  unfold Machine.run at hr
  generalize m.beginRun e w = begun at hr
  obtain ⟨ok, e1⟩ := begun
  cases ok with
  | false =>
    cases hr
    trivial
  | true => exact runLoop_named _ _ (fun hne => absurd rfl hne) hr

/-- In every state any order of operations and runs reaches, the states in which translated code
is called included, a claimed slot is unlinked or names an unguarded translation in the cache; and
a run writes only claimed slots, for the address the exit of the call just made left for. -/
theorem linked_live (hlaw : m.cache.Lawful view) (cache : κ) (storage : τ) (cacheBlocks : Nat)
    (hostState : U32) (e : Engine κ τ)
    (h : Reachable m (Engine.create m cache storage cacheBlocks hostState) e) :
    Linked m view e ∧ ∀ (iterations : Nat) (w : ω) (eip : U32) (maxSteps : U64)
      (r : Machine.RunResult κ τ ω), m.run iterations e w eip maxSteps = some r →
        Reachable m (Engine.create m cache storage cacheBlocks hostState) r.engine ∧
          NamedLinks none r.events :=
  ⟨linked_reachable hlaw h, fun _ _ _ _ _ hr => ⟨run_reachable h hr, run_named hr⟩⟩

/-! ## A block that jumps to itself -/

/-- A storage with room for everything. -/
def bumpStorage : BlockStorage Nat Unit where
  room := fun _ => .room
  used := fun s => s
  evict := fun s => (0, [], s)
  reset := fun _ => 0
  invalidate := fun s _ _ => s
  translate := fun s _ eip pool =>
    (⟨.ok (⟨some (s + 16), eip, 2, 1, 16, 1, 0, pool.map Prod.fst, none⟩, s + 16), 1, 0⟩, s + 16)

/-- `jmp $` at 0x1000: its first call returns with its slot pending, the others spend the budget
on transfers to itself. -/
def selfLoop : Machine CacheList Nat Nat Unit where
  cache := listCache 4
  storage := bumpStorage
  world := {
    hostState := fun _ => 0
    reads := fun _ => ()
    runStop := some fun _ => 0
    boundary := none
    intercept := none
    dispatch := none
    watch := fun w _ _ _ => w
    call := fun calls _ run eip =>
      match run with
      | none => (⟨some .blockEnd, eip, ⟨0, 0, 0, 0⟩, 0, []⟩, calls + 1)
      | some run =>
        if calls = 0 then (⟨some .blockEnd, eip, { run with pending := 1 }, 0, []⟩, 1)
        else (⟨some .blockEnd, eip, { run with budget := 0, pending := 1 },
          run.budget.toNat - 1, []⟩, calls + 1) }
  config := ⟨false, false, false, 0, 4, 2, 0xFFFFFFFFFFFFFFFF⟩

def selfLoopEngine : Engine CacheList Nat := Engine.create selfLoop [] 0 4 0

theorem selfLoop_linked :
    ∃ r, selfLoop.run 8 selfLoopEngine 0 0x1000 5 = some r ∧
      r.events = [.entered 0 1 0x1000, .linked 0 1 0x1000 20, .entered 3 1 0x1000] ∧
      Linked selfLoop CacheList.find r.engine ∧ NamedLinks none r.events := by
  have hsome : (selfLoop.run 8 selfLoopEngine 0 0x1000 5).map Machine.RunResult.events =
      some [.entered 0 1 0x1000, .linked 0 1 0x1000 20, .entered 3 1 0x1000] := by
    decide +kernel
  obtain ⟨r, hr, hevents⟩ := Option.map_eq_some_iff.mp hsome
  have hstart := (linked_live (m := selfLoop) (listCache_lawful 4) [] 0 4 0 selfLoopEngine .start).2
    8 0 0x1000 5 r hr
  have hend := linked_live (m := selfLoop) (listCache_lawful 4) [] 0 4 0 r.engine hstart.1
  exact ⟨r, hr, hevents, hend.1, hstart.2⟩

end X86Port.Jit
