import Mathlib.Logic.Function.Basic
import Mathlib.Data.Fin.Basic

/-!
# The WebAssembly engine behind the arena

The four operations the arena asks an engine for, what they do to the modules and the table
entries an engine holds, and the engine of `jit_wasm_host.c`.

* `Entries`: the abstract engine, with the effect of each operation.
* `WasmHost.Lawful`: a host whose operations have these effects.
* `jsHost_lawful`: the JavaScript host is one.
* `adopt_back`: an adoption in the other direction undoes one.
-/

namespace X86Port.Wasm

/-- `X86P_WASM_MAX_BODIES`. -/
def maxBodies : Nat := 64

/-- The export names `b0` to `b63`, by the body they name. -/
structure BodyName where
  index : Fin maxBodies
deriving DecidableEq

def bodyName (i : Nat) : Option BodyName :=
  if h : i < maxBodies then some ⟨⟨i, h⟩⟩ else none

/-- The name a module of one body exports. -/
def firstBody : BodyName := ⟨⟨0, by decide⟩⟩

/-- What a refused instantiation is about. -/
inductive Refused where
  | byEngine
  | module
deriving DecidableEq

/-- The operations of an engine with states `σ` and modules `M`. A host that cannot move an
entry has no `adopt`; a `resolve` that fails answers 0, the null entry. -/
structure WasmHost (σ M : Type) where
  instantiate : M → σ → Except Refused Nat × σ
  resolve : Nat → BodyName → σ → Nat × σ
  adopt : Option (Nat → BodyName → Nat → BodyName → Nat → σ → Bool × σ)
  release : Nat → σ → σ

/-! ## The abstract engine -/

/-- The modules an engine holds with their exports, the body each table entry runs, and the
entries each module takes with it when it is released. -/
@[ext]
structure Entries where
  live : Nat → Bool
  exports : Nat → BodyName → Bool
  entry : Nat → Option (Nat × BodyName)
  owned : Nat → BodyName → Option Nat

namespace Entries

/-- A fresh module, which owns no entry. -/
def instantiate (v : Entries) (id : Nat) (exports : BodyName → Bool) : Entries where
  live := Function.update v.live id true
  exports := Function.update v.exports id exports
  entry := v.entry
  owned := Function.update v.owned id fun _ => none

/-- An entry pointed at another module's export, and its ownership moved with it. -/
def adopt (v : Entries) (dest : Nat) (destField : BodyName) (source : Nat) (sourceField : BodyName)
    (index : Nat) : Entries :=
  { v with
    entry := Function.update v.entry index (some (dest, destField))
    owned := fun id field =>
      if id = source ∧ field = sourceField then none
      else if id = dest ∧ field = destField then some index
      else v.owned id field }

/-- Whether a module takes an entry with it. -/
def Owns (v : Entries) (id index : Nat) : Prop :=
  ∃ i : Fin maxBodies, v.owned id ⟨i⟩ = some index

instance (v : Entries) (id index : Nat) : Decidable (v.Owns id index) :=
  inferInstanceAs (Decidable (∃ i : Fin maxBodies, v.owned id ⟨i⟩ = some index))

/-- A module gone, with the entries it owned. -/
def release (v : Entries) (id : Nat) : Entries where
  live := Function.update v.live id false
  exports := Function.update v.exports id fun _ => false
  entry := fun index => if v.Owns id index then none else v.entry index
  owned := Function.update v.owned id fun _ => none

/-- Whether an engine can move an entry onto an export of `dest`. -/
def CanAdopt (v : Entries) (dest : Nat) (destField : BodyName) (source : Nat) : Prop :=
  v.live dest = true ∧ v.live source = true ∧ v.exports dest destField = true

instance (v : Entries) (dest : Nat) (destField : BodyName) (source : Nat) :
    Decidable (v.CanAdopt dest destField source) := inferInstanceAs (Decidable (_ ∧ _))

/-- An adoption in the other direction undoes one. -/
theorem adopt_back {v : Entries} {dest source index : Nat} {destField sourceField : BodyName}
    (hentry : v.entry index = some (source, sourceField))
    (howned : v.owned source sourceField = some index) (hfree : v.owned dest destField = none) :
    (v.adopt dest destField source sourceField index).adopt source sourceField dest destField index =
      v := by
  ext1
  · rfl
  · rfl
  · rw [adopt, adopt, Function.update_idem, ← hentry, Function.update_eq_self]
  · funext id field
    dsimp only [adopt]
    by_cases h1 : id = dest ∧ field = destField
    · rw [if_pos h1, h1.1, h1.2, hfree]
    · rw [if_neg h1]
      by_cases h2 : id = source ∧ field = sourceField
      · rw [if_pos h2, h2.1, h2.2, howned]
      · rw [if_neg h2, if_neg h2, if_neg h1]

/-- A module that owns nothing takes no entry with it. -/
theorem release_entry {v : Entries} {id : Nat} (h : ∀ field, v.owned id field = none) :
    (v.release id).entry = v.entry := by
  funext index
  refine if_neg ?_
  rintro ⟨i, hi⟩
  rw [h] at hi
  cases hi

end Entries

/-- A host does what the abstract engine does: an instantiation gives a module that was not
held, and an adoption moves the entry, or fails and changes nothing when a module is gone or
the export is missing. -/
structure WasmHost.Lawful {σ M : Type} (host : WasmHost σ M) (view : σ → Entries)
    (exportsOf : M → BodyName → Bool) : Prop where
  instantiate_ok : ∀ {bytes s id s'}, host.instantiate bytes s = (.ok id, s') →
    (view s).live id = false ∧ view s' = (view s).instantiate id (exportsOf bytes)
  instantiate_error : ∀ {bytes s why s'}, host.instantiate bytes s = (.error why, s') →
    view s' = view s
  adopt : ∀ {adopt}, host.adopt = some adopt → ∀ dest destField source sourceField index s,
    let out := adopt dest destField source sourceField index s
    if (view s).CanAdopt dest destField source then
      out.1 = true ∧ view out.2 = (view s).adopt dest destField source sourceField index
    else out.1 = false ∧ view out.2 = view s
  release : ∀ id s, (view s).live id = true → view (host.release id s) = (view s).release id

/-! ## The JavaScript host -/

/-- A module the host holds: what it exports and the entries it owns. -/
structure JsModule where
  exports : BodyName → Bool
  entries : BodyName → Option Nat

/-- The host map, its next id, the indirect table, and where the table grows. -/
structure JsHost where
  modules : Nat → Option JsModule
  next : Nat
  table : Nat → Option (Nat × BodyName)
  grown : Nat
  fresh : ∀ id, next ≤ id → modules id = none

/-- What compiling offered bytes gives: the module's exports, or a refusal. -/
abbrev Compiler (M : Type) := M → Except Refused (BodyName → Bool)

namespace JsHost

variable {M : Type}

def instantiate (compile : Compiler M) (bytes : M) (s : JsHost) : Except Refused Nat × JsHost :=
  match compile bytes with
  | .error why => (.error why, s)
  | .ok exports =>
    (.ok s.next, { s with
      modules := Function.update s.modules s.next (some ⟨exports, fun _ => none⟩)
      next := s.next + 1
      fresh := by
        intro id hid
        rw [Function.update_of_ne (by omega)]
        exact s.fresh id (by omega) })

/-- A change of the modules that adds none. -/
def setModules (s : JsHost) (modules : Nat → Option JsModule)
    (h : ∀ id, s.modules id = none → modules id = none) : JsHost :=
  { s with modules := modules, fresh := fun id hid => h id (s.fresh id hid) }

def resolve (id : Nat) (field : BodyName) (s : JsHost) : Nat × JsHost :=
  match hm : s.modules id with
  | none => (0, s)
  | some m =>
    match m.entries field with
    | some entry => (entry, s)
    | none =>
      if m.exports field then
        let entry := s.grown + 1
        let s' := s.setModules
          (Function.update s.modules id
            (some { m with entries := Function.update m.entries field (some entry) }))
          (by
            intro j hj
            rw [Function.update_of_ne (by rintro rfl; rw [hm] at hj; cases hj)]
            exact hj)
        (entry, { s' with
          table := Function.update s.table entry (some (id, field))
          grown := entry })
      else (0, s)

def adoptModules (s : JsHost) (dest : Nat) (destField : BodyName) (source : Nat)
    (sourceField : BodyName) (entry : Nat) : Nat → Option JsModule := fun id =>
  (s.modules id).map fun m =>
    let set := if id = dest then Function.update m.entries destField (some entry) else m.entries
    { m with entries := if id = source then Function.update set sourceField none else set }

def adopt (dest : Nat) (destField : BodyName) (source : Nat) (sourceField : BodyName) (entry : Nat)
    (s : JsHost) : Bool × JsHost :=
  match s.modules dest, s.modules source with
  | some m, some _ =>
    if m.exports destField then
      let s' := s.setModules (s.adoptModules dest destField source sourceField entry)
        (fun id h => by rw [adoptModules, h]; rfl)
      (true, { s' with table := Function.update s.table entry (some (dest, destField)) })
    else (false, s)
  | _, _ => (false, s)

def release (id : Nat) (s : JsHost) : JsHost :=
  match s.modules id with
  | none => s
  | some m =>
    let s' := s.setModules (Function.update s.modules id none)
      (fun j h => by
        by_cases hj : j = id
        · rw [hj, Function.update_self]
        · rw [Function.update_of_ne hj]
          exact h)
    { s' with table := fun index =>
        if ∃ i : Fin maxBodies, m.entries ⟨i⟩ = some index then none else s.table index }

def view (s : JsHost) : Entries where
  live := fun id => (s.modules id).isSome
  exports := fun id field => ((s.modules id).map fun m => m.exports field).getD false
  entry := s.table
  owned := fun id field => (s.modules id).bind fun m => m.entries field

theorem view_live (s : JsHost) (id : Nat) : s.view.live id = (s.modules id).isSome := rfl

theorem view_exports (s : JsHost) (id : Nat) (field : BodyName) :
    s.view.exports id field = ((s.modules id).map fun m => m.exports field).getD false := rfl

theorem view_owned (s : JsHost) (id : Nat) (field : BodyName) :
    s.view.owned id field = (s.modules id).bind fun m => m.entries field := rfl

end JsHost

def jsHost {M : Type} (compile : Compiler M) : WasmHost JsHost M where
  instantiate := JsHost.instantiate compile
  resolve := JsHost.resolve
  adopt := some JsHost.adopt
  release := JsHost.release

def emptyHost : JsHost := ⟨fun _ => none, 1, fun _ => none, 0, fun _ _ => rfl⟩

section Laws

variable {M : Type} (compile : Compiler M)

/-- The exports of the module that offered bytes compile to. -/
def Compiler.exportsOf (bytes : M) (field : BodyName) : Bool :=
  match compile bytes with
  | .ok exports => exports field
  | .error _ => false

theorem jsHost_instantiate_ok {bytes : M} {s s' : JsHost} {id : Nat}
    (h : JsHost.instantiate compile bytes s = (.ok id, s')) :
    s.view.live id = false ∧
      s'.view = s.view.instantiate id (Compiler.exportsOf compile bytes) := by
  unfold JsHost.instantiate at h
  cases hcompile : compile bytes with
  | error why =>
    rw [hcompile] at h
    cases h
  | ok exports =>
    rw [hcompile] at h
    obtain ⟨hid, hs'⟩ := Prod.mk.inj h
    cases hid
    subst hs'
    have hfree : s.modules s.next = none := s.fresh _ (Nat.le_refl _)
    have hexports : Compiler.exportsOf compile bytes = exports := by
      funext field
      unfold Compiler.exportsOf
      rw [hcompile]
    refine ⟨by rw [JsHost.view_live, hfree]; rfl, ?_⟩
    ext1
    · funext j
      by_cases hj : j = s.next
      · simp [JsHost.view, Entries.instantiate, hj]
      · simp [JsHost.view, Entries.instantiate, hj]
    · funext j field
      by_cases hj : j = s.next
      · simp [JsHost.view, Entries.instantiate, hj, hexports]
      · simp [JsHost.view, Entries.instantiate, hj]
    · rfl
    · funext j field
      by_cases hj : j = s.next
      · simp [JsHost.view, Entries.instantiate, hj]
      · simp [JsHost.view, Entries.instantiate, hj]

theorem jsHost_adopt (dest : Nat) (destField : BodyName) (source : Nat) (sourceField : BodyName)
    (index : Nat) (s : JsHost) :
    let out := JsHost.adopt dest destField source sourceField index s
    if s.view.CanAdopt dest destField source then
      out.1 = true ∧ out.2.view = s.view.adopt dest destField source sourceField index
    else out.1 = false ∧ out.2.view = s.view := by
  dsimp only
  unfold JsHost.adopt
  cases hdest : s.modules dest with
  | none =>
    rw [if_neg]
    · exact ⟨rfl, rfl⟩
    · rintro ⟨hlive, -, -⟩
      rw [JsHost.view_live, hdest] at hlive
      cases hlive
  | some m =>
    cases hsource : s.modules source with
    | none =>
      rw [if_neg]
      · exact ⟨rfl, rfl⟩
      · rintro ⟨-, hlive, -⟩
        rw [JsHost.view_live, hsource] at hlive
        cases hlive
    | some n =>
      dsimp only
      by_cases hexport : m.exports destField = true
      · rw [if_pos, if_pos hexport]
        · refine ⟨rfl, ?_⟩
          ext1
          · funext id
            simp [JsHost.view, JsHost.setModules, JsHost.adoptModules, Entries.adopt]
          · funext id field
            simp [JsHost.view, JsHost.setModules, JsHost.adoptModules, Entries.adopt,
              Function.comp_def]
          · rfl
          · funext id field
            rw [JsHost.view_owned]
            dsimp only [JsHost.setModules, JsHost.adoptModules, Entries.adopt]
            rw [JsHost.view_owned, Option.bind_map]
            by_cases h1 : id = source ∧ field = sourceField
            · rw [if_pos h1, h1.1, h1.2, hsource]
              simp
            · rw [if_neg h1]
              by_cases h2 : id = dest ∧ field = destField
              · rw [if_pos h2, h2.1, h2.2, hdest]
                by_cases h3 : dest = source
                · have h4 : destField ≠ sourceField := by
                    intro h
                    exact h1 ⟨h2.1.trans h3, h2.2.trans h⟩
                  simp [h3, h4]
                · simp [h3]
              · rw [if_neg h2]
                cases hid : s.modules id with
                | none => rfl
                | some k =>
                  dsimp only [Option.bind_some, Function.comp_apply]
                  have hset : (if id = dest then
                      Function.update k.entries destField (some index) else k.entries) field =
                        k.entries field := by
                    by_cases h3 : id = dest
                    · rw [if_pos h3, Function.update_of_ne (fun h => h2 ⟨h3, h⟩)]
                    · rw [if_neg h3]
                  by_cases h3 : id = source
                  · rw [if_pos h3, Function.update_of_ne (fun h => h1 ⟨h3, h⟩), hset]
                  · rw [if_neg h3, hset]
        · exact ⟨by rw [JsHost.view_live, hdest]; rfl, by rw [JsHost.view_live, hsource]; rfl,
            by rw [JsHost.view_exports, hdest]; exact hexport⟩
      · rw [if_neg, if_neg hexport]
        · exact ⟨rfl, rfl⟩
        · rintro ⟨-, -, h⟩
          rw [JsHost.view_exports, hdest] at h
          exact hexport h

theorem jsHost_release (id : Nat) (s : JsHost) (hlive : s.view.live id = true) :
    (s.release id).view = s.view.release id := by
  obtain ⟨m, hm⟩ := Option.isSome_iff_exists.mp hlive
  have howns : ∀ index, s.view.Owns id index ↔
      ∃ i : Fin maxBodies, m.entries ⟨i⟩ = some index := by
    intro index
    unfold Entries.Owns
    simp only [JsHost.view_owned, hm, Option.bind_some]
  have hrelease : s.release id = { s.setModules (Function.update s.modules id none)
      (fun j h => by
        by_cases hj : j = id
        · rw [hj, Function.update_self]
        · rw [Function.update_of_ne hj]
          exact h) with
      table := fun index =>
        if ∃ i : Fin maxBodies, m.entries ⟨i⟩ = some index then none else s.table index } := by
    unfold JsHost.release
    split
    · rename_i h
      rw [hm] at h
      cases h
    · rename_i m' h
      cases Option.some.inj (hm.symm.trans h)
      rfl
  rw [hrelease]
  ext1
  · funext j
    by_cases hj : j = id
    · simp [JsHost.view, JsHost.setModules, Entries.release, hj]
    · simp [JsHost.view, JsHost.setModules, Entries.release, hj]
  · funext j field
    by_cases hj : j = id
    · simp [JsHost.view, JsHost.setModules, Entries.release, hj]
    · simp [JsHost.view, JsHost.setModules, Entries.release, hj]
  · funext index
    dsimp only [Entries.release]
    by_cases hi : s.view.Owns id index
    · rw [if_pos hi]
      exact if_pos ((howns index).mp hi)
    · rw [if_neg hi]
      exact if_neg (fun h => hi ((howns index).mpr h))
  · funext j field
    by_cases hj : j = id
    · simp [JsHost.view, JsHost.setModules, Entries.release, hj]
    · simp [JsHost.view, JsHost.setModules, Entries.release, hj]

theorem jsHost_lawful : (jsHost compile).Lawful JsHost.view (Compiler.exportsOf compile) where
  instantiate_ok := jsHost_instantiate_ok compile
  instantiate_error := by
    intro bytes s why s' h
    change JsHost.instantiate compile bytes s = _ at h
    unfold JsHost.instantiate at h
    cases hcompile : compile bytes with
    | error _ =>
      rw [hcompile] at h
      exact congrArg JsHost.view (Prod.mk.inj h).2.symm
    | ok _ =>
      rw [hcompile] at h
      cases h
  adopt := by
    intro adopt hadopt
    cases hadopt
    exact jsHost_adopt
  release := jsHost_release

end Laws

end X86Port.Wasm
