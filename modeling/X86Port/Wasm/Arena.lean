import X86Port.Wasm.Host

/-!
# The module arena

`jit_wasm_arena.c`: a bounded table of live modules over an engine. A token is a slot of the
table; the limits an engine shows by refusing a module are learned and retired here.

* `publish_ok`, `publish_error`: a publication takes a slot that was not live, or changes none.
* `release_isLive`: a release ends exactly one slot.
* `publish_view`, `adopt_view`, `release_view`: what they do to the engine behind the arena.
-/

namespace X86Port.Wasm

structure ArenaSlot where
  live : Bool
  module : Nat
  nextFree : Nat
deriving DecidableEq

/-- The table of `cap` slots, its free list, the learned ceiling and the counters. `host` is
`none` for a host that is missing an operation. -/
structure Arena (cap : Nat) (σ M : Type) where
  host : Option (WasmHost σ M)
  user : σ
  slots : Fin cap → ArenaSlot
  freeHead : Nat
  live : Nat
  ceiling : Nat
  headroom : Nat
  published : Nat
  released : Nat
  refusals : Nat
  failures : Nat
  adoptions : Nat
  ceilingsLearned : Nat
  ceilingsRetired : Nat

/-- Why a publication was refused: the cases of its message. -/
inductive PublishRefusal where
  | noEngine
  | emptyModule
  | allLive
  | notFree (slot : Nat)
  | rejected (why : Refused)
deriving DecidableEq

def ceilingHeadroomDivisor : Nat := 16

namespace Arena

variable {cap : Nat} {σ M : Type}

/-- The free list runs through the slots, lowest index first; a table of no slots is empty. -/
def init (cap : Nat) (host : Option (WasmHost σ M)) (user : σ) : Arena cap σ M where
  host := host
  user := user
  slots := fun i => ⟨false, 0, if i.val + 1 < cap then i.val + 2 else 0⟩
  freeHead := if cap = 0 then 0 else 1
  live := 0
  ceiling := 0
  headroom := 0
  published := 0
  released := 0
  refusals := 0
  failures := 0
  adoptions := 0
  ceilingsLearned := 0
  ceilingsRetired := 0

/-- A refusal about the engine puts its live count in force as a ceiling. -/
def learnCeiling (a : Arena cap σ M) (why : Refused) : Arena cap σ M :=
  if why = .byEngine ∧ (a.ceiling = 0 ∨ a.live < a.ceiling) then
    { a with
      ceiling := a.live
      headroom := a.live / ceilingHeadroomDivisor
      ceilingsLearned := a.ceilingsLearned + 1 }
  else a

def publish (a : Arena cap σ M) (bytes : M) (len : Nat) :
    Except PublishRefusal (Fin cap) × Arena cap σ M :=
  match a.host with
  | none => (.error .noEngine, { a with refusals := a.refusals + 1 })
  | some host =>
    if len = 0 then (.error .emptyModule, { a with refusals := a.refusals + 1 })
    else if a.freeHead = 0 then (.error .allLive, { a with refusals := a.refusals + 1 })
    else if h : a.freeHead - 1 < cap then
      let i : Fin cap := ⟨a.freeHead - 1, h⟩
      if (a.slots i).live then
        (.error (.notFree i.val), { a with refusals := a.refusals + 1 })
      else
        match host.instantiate bytes a.user with
        | (.error why, user) =>
          (.error (.rejected why),
            learnCeiling { a with user := user, failures := a.failures + 1 } why)
        | (.ok module, user) =>
          (.ok i, { a with
            user := user
            freeHead := (a.slots i).nextFree
            slots := Function.update a.slots i ⟨true, module, 0⟩
            live := a.live + 1
            published := a.published + 1 })
    else
      (.error (.notFree (a.freeHead - 1)), { a with refusals := a.refusals + 1 })

/-- The address an export may be entered at. -/
def entry (a : Arena cap σ M) (token : Fin cap) (field : BodyName) :
    Option Nat × Arena cap σ M :=
  if (a.slots token).live then
    match a.host with
    | none => (none, a)
    | some host =>
      let (callable, user) := host.resolve (a.slots token).module field a.user
      (if callable = 0 then none else some callable, { a with user := user })
  else (none, a)

def canAdopt (a : Arena cap σ M) : Bool :=
  match a.host with
  | some host => host.adopt.isSome
  | none => false

def adopt (a : Arena cap σ M) (dest : Fin cap) (destField : BodyName) (source : Fin cap)
    (sourceField : BodyName) (entry : Nat) : Bool × Arena cap σ M :=
  match a.host.bind WasmHost.adopt with
  | none => (false, a)
  | some adopt =>
    if (a.slots dest).live && (a.slots source).live && decide (entry ≠ 0) then
      let (moved, user) :=
        adopt (a.slots dest).module destField (a.slots source).module sourceField entry a.user
      (moved, { a with
        user := user
        adoptions := if moved then a.adoptions + 1 else a.adoptions })
    else (false, a)

/-- A ceiling has done its job once the arena is below it by the headroom. -/
def retireCeiling (a : Arena cap σ M) : Arena cap σ M :=
  if a.ceiling = 0 ∨ a.live + a.headroom ≥ a.ceiling then a
  else { a with ceiling := 0, headroom := 0, ceilingsRetired := a.ceilingsRetired + 1 }

def release (a : Arena cap σ M) (token : Fin cap) : Arena cap σ M :=
  if (a.slots token).live then
    retireCeiling { a with
      user := match a.host with
        | some host => host.release (a.slots token).module a.user
        | none => a.user
      slots := Function.update a.slots token ⟨false, 0, a.freeHead⟩
      freeHead := token.val + 1
      live := a.live - 1
      released := a.released + 1 }
  else a

def releaseAll (a : Arena cap σ M) : Arena cap σ M :=
  (List.finRange cap).foldl release a

def hasRoom (a : Arena cap σ M) : Bool :=
  decide (a.live < cap) && (decide (a.ceiling = 0) || decide (a.live + a.headroom < a.ceiling))

/-! ## Which slots are live -/

def isLive (a : Arena cap σ M) (token : Fin cap) : Bool := (a.slots token).live

theorem learnCeiling_fields (a : Arena cap σ M) (why : Refused) :
    (a.learnCeiling why).slots = a.slots ∧ (a.learnCeiling why).host = a.host ∧
      (a.learnCeiling why).user = a.user := by
  unfold learnCeiling
  split_ifs <;> exact ⟨rfl, rfl, rfl⟩

theorem retireCeiling_fields (a : Arena cap σ M) :
    a.retireCeiling.slots = a.slots ∧ a.retireCeiling.host = a.host ∧
      a.retireCeiling.user = a.user ∧ a.retireCeiling.released = a.released := by
  unfold retireCeiling
  split_ifs <;> exact ⟨rfl, rfl, rfl, rfl⟩

/-- What a publication can do. -/
inductive PublishOutcome (a : Arena cap σ M) (bytes : M) :
    Except PublishRefusal (Fin cap) × Arena cap σ M → Prop where
  | refused {a' : Arena cap σ M} (why : PublishRefusal) (hslots : a'.slots = a.slots)
    (hhost : a'.host = a.host) (huser : a'.user = a.user) : PublishOutcome a bytes (.error why, a')
  | rejected {a' : Arena cap σ M} {host : WasmHost σ M} (why : Refused)
    (hslots : a'.slots = a.slots) (hhost : a'.host = a.host) (hbound : a.host = some host)
    (huser : host.instantiate bytes a.user = (.error why, a'.user)) :
    PublishOutcome a bytes (.error (.rejected why), a')
  | published {a' : Arena cap σ M} {host : WasmHost σ M} {token : Fin cap} {module : Nat}
    (hfree : a.isLive token = false)
    (hslots : a'.slots = Function.update a.slots token ⟨true, module, 0⟩)
    (hhost : a'.host = a.host) (hbound : a.host = some host)
    (huser : host.instantiate bytes a.user = (.ok module, a'.user))
    (hreleased : a'.released = a.released) : PublishOutcome a bytes (.ok token, a')

theorem publish_outcome (a : Arena cap σ M) (bytes : M) (len : Nat) :
    PublishOutcome a bytes (a.publish bytes len) := by
  unfold publish
  cases hhost : a.host with
  | none => exact PublishOutcome.refused _ rfl hhost.symm rfl
  | some host =>
    dsimp only
    split_ifs with hlen hhead hin hlive
    · exact PublishOutcome.refused _ rfl hhost.symm rfl
    · exact PublishOutcome.refused _ rfl hhost.symm rfl
    · exact PublishOutcome.refused _ rfl hhost.symm rfl
    · cases hinst : host.instantiate bytes a.user with
      | mk result user =>
        cases result with
        | error why =>
          refine PublishOutcome.rejected why (learnCeiling_fields _ why).1
            ((learnCeiling_fields _ why).2.1.trans hhost.symm) hhost ?_
          rw [(learnCeiling_fields _ why).2.2, hinst]
        | ok module =>
          exact PublishOutcome.published (Bool.eq_false_iff.mpr hlive) rfl hhost.symm hhost
            hinst rfl
    · exact PublishOutcome.refused _ rfl hhost.symm rfl

theorem publish_ok {a a' : Arena cap σ M} {bytes : M} {len : Nat} {token : Fin cap}
    (h : a.publish bytes len = (.ok token, a')) :
    a.isLive token = false ∧ a'.isLive = Function.update a.isLive token true := by
  have hout := publish_outcome a bytes len
  rw [h] at hout
  cases hout with
  | published hfree hslots hhost hbound huser hreleased =>
    refine ⟨hfree, ?_⟩
    funext t
    unfold isLive
    rw [hslots]
    by_cases ht : t = token
    · rw [ht, Function.update_self, Function.update_self]
    · rw [Function.update_of_ne ht, Function.update_of_ne ht]

theorem publish_error {a a' : Arena cap σ M} {bytes : M} {len : Nat} {why : PublishRefusal}
    (h : a.publish bytes len = (.error why, a')) : a'.slots = a.slots := by
  have hout := publish_outcome a bytes len
  rw [h] at hout
  cases hout with
  | refused _ hslots => exact hslots
  | rejected _ hslots => exact hslots

theorem isLive_congr {a a' : Arena cap σ M} (h : a'.slots = a.slots) : a'.isLive = a.isLive := by
  funext t
  unfold isLive
  rw [h]

theorem entry_slots (a : Arena cap σ M) (token : Fin cap) (field : BodyName) :
    (a.entry token field).2.slots = a.slots := by
  unfold entry
  split_ifs
  · cases a.host <;> rfl
  · rfl

theorem adopt_slots (a : Arena cap σ M) (dest source : Fin cap)
    (destField sourceField : BodyName) (entry : Nat) :
    (a.adopt dest destField source sourceField entry).2.slots = a.slots := by
  unfold adopt
  cases a.host.bind WasmHost.adopt with
  | none => rfl
  | some adopt =>
    dsimp only
    split_ifs <;> rfl

theorem release_slots (a : Arena cap σ M) (token : Fin cap) :
    (a.release token).slots =
      if a.isLive token then Function.update a.slots token ⟨false, 0, a.freeHead⟩
      else a.slots := by
  unfold release isLive
  by_cases hlive : (a.slots token).live = true
  · rw [if_pos hlive, if_pos hlive, (retireCeiling_fields _).1]
  · rw [if_neg hlive, if_neg hlive]

theorem release_isLive (a : Arena cap σ M) (token : Fin cap) :
    (a.release token).isLive = Function.update a.isLive token false := by
  funext t
  unfold isLive
  rw [release_slots]
  by_cases ht : t = token
  · rw [ht, Function.update_self]
    by_cases hlive : a.isLive token = true
    · rw [if_pos hlive, Function.update_self]
    · rw [if_neg hlive]
      exact Bool.eq_false_iff.mpr hlive
  · rw [Function.update_of_ne ht]
    by_cases hlive : a.isLive token = true
    · rw [if_pos hlive, Function.update_of_ne ht]
    · rw [if_neg hlive]

theorem releaseAll_isLive (a : Arena cap σ M) (token : Fin cap) :
    a.releaseAll.isLive token = false := by
  have hkeep : ∀ (tokens : List (Fin cap)) (a : Arena cap σ M), a.isLive token = false →
      (tokens.foldl release a).isLive token = false := by
    intro tokens
    induction tokens with
    | nil => exact fun _ h => h
    | cons t ts ih =>
      intro a h
      refine ih _ ?_
      rw [release_isLive]
      by_cases ht : token = t
      · rw [ht, Function.update_self]
      · rw [Function.update_of_ne ht, h]
  have hall : ∀ (tokens : List (Fin cap)) (a : Arena cap σ M), token ∈ tokens →
      (tokens.foldl release a).isLive token = false := by
    intro tokens
    induction tokens with
    | nil => exact fun _ h => by cases h
    | cons t ts ih =>
      intro a hmem
      rcases List.mem_cons.mp hmem with rfl | h
      · exact hkeep ts _ (by rw [release_isLive, Function.update_self])
      · exact ih _ h
  exact hall _ a (List.mem_finRange token)

/-! ## The engine behind the arena -/

section Engine

variable {host : WasmHost σ M} {view : σ → Entries} {exportsOf : M → BodyName → Bool}

theorem publish_view (hlaw : host.Lawful view exportsOf) {a a' : Arena cap σ M}
    (hhost : a.host = some host) {bytes : M} {len : Nat}
    {result : Except PublishRefusal (Fin cap)} (h : a.publish bytes len = (result, a')) :
    a'.host = some host ∧
    match result with
    | .error _ => a'.slots = a.slots ∧ view a'.user = view a.user
    | .ok token => ∃ module, a.isLive token = false ∧
        a'.slots = Function.update a.slots token ⟨true, module, 0⟩ ∧
        (view a.user).live module = false ∧
        view a'.user = (view a.user).instantiate module (exportsOf bytes) ∧
        a'.released = a.released := by
  have hout := publish_outcome a bytes len
  rw [h] at hout
  cases hout with
  | refused why hslots hhost' huser => exact ⟨hhost'.trans hhost, hslots, by rw [huser]⟩
  | rejected why hslots hhost' hbound huser =>
    cases Option.some.inj (hhost.symm.trans hbound)
    exact ⟨hhost'.trans hhost, hslots, hlaw.instantiate_error huser⟩
  | @published _ _ token module hfree hslots hhost' hbound huser hreleased =>
    cases Option.some.inj (hhost.symm.trans hbound)
    obtain ⟨hfresh, hview⟩ := hlaw.instantiate_ok huser
    exact ⟨hhost'.trans hhost, module, hfree, hslots, hfresh, hview, hreleased⟩

/-- Between live slots, an adoption is what the engine makes of it. -/
theorem adopt_view (hlaw : host.Lawful view exportsOf) {a : Arena cap σ M}
    (hhost : a.host = some host) (hcan : a.canAdopt = true) {dest source : Fin cap}
    (hdest : a.isLive dest = true) (hsource : a.isLive source = true)
    (destField sourceField : BodyName) {entry : Nat} (hentry : entry ≠ 0) :
    let out := a.adopt dest destField source sourceField entry
    let v := view a.user
    out.2.slots = a.slots ∧ out.2.host = a.host ∧ out.2.released = a.released ∧
    if v.CanAdopt (a.slots dest).module destField (a.slots source).module then
      out.1 = true ∧ view out.2.user =
        v.adopt (a.slots dest).module destField (a.slots source).module sourceField entry
    else out.1 = false ∧ view out.2.user = v := by
  unfold canAdopt at hcan
  rw [hhost] at hcan
  obtain ⟨adopt, hadopt⟩ := Option.isSome_iff_exists.mp hcan
  have hlaw' := hlaw.adopt hadopt (a.slots dest).module destField (a.slots source).module
    sourceField entry a.user
  unfold isLive at hdest hsource
  have hgo : ((a.slots dest).live && (a.slots source).live && decide (entry ≠ 0)) = true := by
    rw [hdest, hsource, decide_eq_true hentry]
    rfl
  dsimp only
  unfold Arena.adopt
  rw [hhost, Option.bind_some, hadopt]
  dsimp only
  rw [if_pos hgo]
  exact ⟨rfl, rfl, rfl, hlaw'⟩

theorem release_view (hlaw : host.Lawful view exportsOf) {a : Arena cap σ M}
    (hhost : a.host = some host) {token : Fin cap} (hlive : a.isLive token = true)
    (hheld : (view a.user).live (a.slots token).module = true) :
    view (a.release token).user = (view a.user).release (a.slots token).module ∧
      (a.release token).host = some host ∧ (a.release token).released = a.released + 1 := by
  unfold isLive at hlive
  unfold release
  rw [if_pos hlive, (retireCeiling_fields _).2.1, (retireCeiling_fields _).2.2.1,
    (retireCeiling_fields _).2.2.2, hhost]
  exact ⟨hlaw.release _ _ hheld, rfl, rfl⟩

end Engine

end Arena

end X86Port.Wasm
