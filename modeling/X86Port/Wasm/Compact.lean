import X86Port.Wasm.Arena
import X86Port.Wasm.Lower

/-!
# Compaction

`jit_wasm_compact.c`: blocks published one to a module are lowered again into one module, their
table entries are moved onto its bodies, and the modules they came from are released.

* `compact_isLive`: which arena slots a compaction ends and begins, on any host.
* `moveEntries_view`: moving the entries either moves all of them or puts all of them back.
* `compact_all_or_nothing`: on a lawful host a compaction moves every block or changes none.
-/

namespace X86Port.Wasm

open Jit

/-- A block to be moved, as it was published. -/
structure CompactBlock (cap : Nat) where
  guest : U32
  guestLen : U32
  token : Fin cap
  chainExits : Nat
  entry : Nat
  chainFirst : Option Nat
  leafSite : Option Nat
deriving DecidableEq

structure CompactResult (cap : Nat) where
  token : Fin cap
  bytes : Nat
  moved : Nat
  directExits : Nat
deriving DecidableEq

/-- What the blocks are translated in. -/
structure TranslateEnv where
  boundary : U32 → Bool
  chain : Option ChainPool
  leaf : Bool

/-- Why a batch was refused: the cases of its message. -/
inductive CompactRefusal where
  | nullArgument
  | tooManyBlocks (count : Nat)
  | cannotMove
  | notLowered (why : BatchRefusal)
  | changed (guest nowLen : U32) (nowExits : Nat) (wasLen : U32) (wasExits : Nat)
  | notPublished (why : PublishRefusal)
  | notMoved (guest : U32) (body : Nat)
deriving DecidableEq

/-- Body `i` comes after the 48 imports. -/
def bodyFunction (i : Nat) : Nat := 48 + i

section Compact

variable {cap : Nat} {σ I E S M : Type}

def siblingsOf (blocks : List (CompactBlock cap)) : List Sibling :=
  blocks.mapIdx fun i b => ⟨b.guest, b.entry, bodyFunction i⟩

/-- Each block keeps its slots and its leaf site; one published with no slot keeps none. -/
def batchItems (env : TranslateEnv) (blocks : List (CompactBlock cap)) : List BatchItem :=
  blocks.map fun b => {
    eip := b.guest
    chain := ⟨env.chain, some (if b.chainExits = 0 then 0 else b.chainFirst.getD 0, b.chainExits),
      siblingsOf blocks⟩
    leaf := ⟨env.leaf, true, b.leafSite⟩ }

/-- The evidence that a block lowered to what it was published as. -/
def loweredTheSame (was : CompactBlock cap) (now : JitBlock) : Bool :=
  decide (now.guestEip = was.guest) && decide (now.guestLen = was.guestLen) &&
    decide (now.chainExits = was.chainExits) && decide (now.leafSite = was.leafSite)

/-- The blocks already moved, the last one first, moved back. -/
def moveBack (a : Arena cap σ M) (token : Fin cap) :
    List (CompactBlock cap × BodyName) → Arena cap σ M
  | [] => a
  | (b, was) :: moved =>
    moveBack (a.adopt b.token firstBody token was b.entry).2 token moved

/-- The entries moved onto the new module from body `i` on; the first that fails moves the
others back. -/
def moveEntries (a : Arena cap σ M) (token : Fin cap) :
    Nat → List (CompactBlock cap × BodyName) → List (CompactBlock cap) →
      Except (Nat × CompactBlock cap) Unit × Arena cap σ M
  | _, _, [] => (.ok (), a)
  | i, moved, b :: blocks =>
    match bodyName i with
    | none => (.error (i, b), moveBack a token moved)
    | some field =>
      match a.adopt token field b.token firstBody b.entry with
      | (false, a) => (.error (i, b), moveBack a token moved)
      | (true, a) => moveEntries a token (i + 1) ((b, field) :: moved) blocks

/-- The tokens of the blocks, released in turn. -/
def releaseOld (a : Arena cap σ M) (blocks : List (CompactBlock cap)) : Arena cap σ M :=
  blocks.foldl (fun a b => a.release b.token) a

def compact (F : Families I E S M) (a : Arena cap σ M) (fetch : Fetch) (bufferBytes : Nat)
    (env : TranslateEnv) (blocks : List (CompactBlock cap)) :
    Except CompactRefusal (CompactResult cap) × Arena cap σ M :=
  if blocks.length = 0 then (.error .nullArgument, a)
  else if blocks.length > maxBodies then (.error (.tooManyBlocks blocks.length), a)
  else if !a.canAdopt then (.error .cannotMove, a)
  else
    match translateBatch F fetch env.boundary bufferBytes (batchItems env blocks) with
    | .error why => (.error (.notLowered why), a)
    | .ok (bytes, lowered) =>
      match (blocks.zip lowered).find? fun p => !loweredTheSame p.1 p.2 with
      | some (was, now) =>
        (.error (.changed was.guest now.guestLen now.chainExits was.guestLen was.chainExits), a)
      | none =>
        match a.publish bytes (F.size bytes) with
        | (.error why, a) => (.error (.notPublished why), a)
        | (.ok token, a) =>
          match moveEntries a token 0 [] blocks with
          | (.error (i, b), a) => (.error (.notMoved b.guest i), a.release token)
          | (.ok (), a) =>
            (.ok {
              token := token
              bytes := F.size bytes
              moved := blocks.length
              directExits := (lowered.map JitBlock.chainExitsDirect).sum }, releaseOld a blocks)

/-! ## The arena's slots -/

theorem moveBack_slots (token : Fin cap) (moved : List (CompactBlock cap × BodyName)) :
    ∀ a : Arena cap σ M, (moveBack a token moved).slots = a.slots := by
  induction moved with
  | nil => exact fun _ => rfl
  | cons head moved ih =>
    intro a
    exact (ih _).trans (Arena.adopt_slots ..)

theorem moveEntries_slots (token : Fin cap) (blocks : List (CompactBlock cap)) :
    ∀ (a : Arena cap σ M) (i : Nat) (moved : List (CompactBlock cap × BodyName)),
      (moveEntries a token i moved blocks).2.slots = a.slots := by
  induction blocks with
  | nil => exact fun _ _ _ => rfl
  | cons b blocks ih =>
    intro a i moved
    unfold moveEntries
    cases bodyName i with
    | none => exact moveBack_slots token moved a
    | some field =>
      have hslots := Arena.adopt_slots a token b.token field firstBody b.entry
      dsimp only
      generalize a.adopt token field b.token firstBody b.entry = out at hslots
      obtain ⟨result, after⟩ := out
      cases result with
      | false => exact (moveBack_slots token moved after).trans hslots
      | true => exact (ih after _ _).trans hslots

theorem releaseOld_isLive (blocks : List (CompactBlock cap)) :
    ∀ (a : Arena cap σ M) (t : Fin cap), (releaseOld a blocks).isLive t =
      if t ∈ blocks.map CompactBlock.token then false else a.isLive t := by
  induction blocks with
  | nil => exact fun _ _ => rfl
  | cons b blocks ih =>
    intro a t
    have hrest := ih (a.release b.token) t
    rw [Arena.release_isLive] at hrest
    rw [List.map_cons]
    by_cases hb : t = b.token
    · rw [hb, if_pos List.mem_cons_self]
      rw [hb, Function.update_self, ite_self] at hrest
      exact hrest
    · rw [Function.update_of_ne hb] at hrest
      by_cases ht : t ∈ blocks.map CompactBlock.token
      · rw [if_pos ht] at hrest
        rw [if_pos (List.mem_cons_of_mem _ ht)]
        exact hrest
      · rw [if_neg ht] at hrest
        rw [if_neg (by simp only [List.mem_cons, not_or]; exact ⟨hb, ht⟩)]
        exact hrest

/-- On any host, a refused batch leaves the arena's slots as they were, and one that is taken
begins a slot that was free and ends those of its blocks. -/
theorem compact_isLive (F : Families I E S M) (a : Arena cap σ M) (fetch : Fetch)
    (bufferBytes : Nat) (env : TranslateEnv) (blocks : List (CompactBlock cap)) :
    match compact F a fetch bufferBytes env blocks with
    | (.error _, a') => a'.isLive = a.isLive
    | (.ok r, a') => a.isLive r.token = false ∧ r.moved = blocks.length ∧
        ∀ t, a'.isLive t = if t ∈ blocks.map CompactBlock.token then false
          else if t = r.token then true else a.isLive t := by
  unfold compact
  split_ifs with h1 h2 h3
  · rfl
  · rfl
  · rfl
  · cases translateBatch F fetch env.boundary bufferBytes (batchItems env blocks) with
    | error why => rfl
    | ok result =>
      obtain ⟨bytes, lowered⟩ := result
      dsimp only
      cases (blocks.zip lowered).find? fun p => !loweredTheSame p.1 p.2 with
      | some p => rfl
      | none =>
        dsimp only
        cases hpublish : a.publish bytes (F.size bytes) with
        | mk result published =>
          cases result with
          | error why => exact Arena.isLive_congr (Arena.publish_error hpublish)
          | ok token =>
            obtain ⟨hfree, hlive⟩ := Arena.publish_ok hpublish
            have hslots := moveEntries_slots token blocks published 0 []
            dsimp only
            generalize moveEntries published token 0 [] blocks = out at hslots
            obtain ⟨moved, after⟩ := out
            have hafter : after.isLive = Function.update a.isLive token true :=
              (Arena.isLive_congr hslots).trans hlive
            cases moved with
            | error why =>
              dsimp only
              rw [Arena.release_isLive, hafter, Function.update_idem, ← hfree,
                Function.update_eq_self]
            | ok _ =>
              refine ⟨hfree, rfl, fun t => ?_⟩
              dsimp only
              rw [releaseOld_isLive, hafter, Function.update_apply]

end Compact

/-! ## Moving entries in the abstract engine -/

/-- One entry to move: the body it goes to, the module it comes from, its index. -/
structure Move where
  field : BodyName
  source : Nat
  index : Nat

namespace Entries

variable {v : Entries} {new : Nat}

def apply (v : Entries) (new : Nat) (m : Move) : Entries :=
  v.adopt new m.field m.source firstBody m.index

/-- An entry that still lies with the module it was published in, which exports and owns
nothing else, and a body of the new module that owns no entry yet. -/
structure Ready (v : Entries) (new : Nat) (m : Move) : Prop where
  source_ne : m.source ≠ new
  live : v.live m.source = true
  exported : v.exports m.source firstBody = true
  enters : v.entry m.index = some (m.source, firstBody)
  owned : v.owned m.source firstBody = some m.index
  only : ∀ field, field ≠ firstBody → v.owned m.source field = none
  free : v.owned new m.field = none

/-- An entry that the new module's body runs, with nothing left in the module it came from. -/
structure Landed (v : Entries) (new : Nat) (m : Move) : Prop where
  source_ne : m.source ≠ new
  live : v.live m.source = true
  enters : v.entry m.index = some (new, m.field)
  owned : v.owned new m.field = some m.index
  emptied : ∀ field, v.owned m.source field = none

theorem apply_owned_source {m : Move} (h : v.Ready new m) (field : BodyName) :
    (v.apply new m).owned m.source field = none := by
  dsimp only [apply, adopt]
  by_cases hf : field = firstBody
  · rw [if_pos ⟨rfl, hf⟩]
  · rw [if_neg (fun h' => hf h'.2), if_neg (fun h' => h.source_ne h'.1)]
    exact h.only field hf

theorem apply_owned_new {m : Move} (hne : m.source ≠ new) (field : BodyName) :
    (v.apply new m).owned new field =
      if field = m.field then some m.index else v.owned new field := by
  dsimp only [apply, adopt]
  rw [if_neg (fun h => hne h.1.symm)]
  by_cases hf : field = m.field
  · rw [if_pos ⟨rfl, hf⟩, if_pos hf]
  · rw [if_neg (fun h => hf h.2), if_neg hf]

theorem apply_owned_other {m : Move} {id : Nat} (h1 : id ≠ m.source) (h2 : id ≠ new)
    (field : BodyName) : (v.apply new m).owned id field = v.owned id field := by
  dsimp only [apply, adopt]
  rw [if_neg (fun h => h1 h.1), if_neg (fun h => h2 h.1)]

theorem apply_landed {m : Move} (h : v.Ready new m) : (v.apply new m).Landed new m where
  source_ne := h.source_ne
  live := h.live
  enters := Function.update_self ..
  owned := by rw [apply_owned_new h.source_ne, if_pos rfl]
  emptied := apply_owned_source h

/-- A move keeps what other moves need, and what they have done. -/
theorem Ready.of_apply {m m' : Move} (h : v.Ready new m) (hm : v.Ready new m')
    (hsource : m'.source ≠ m.source) (hindex : m'.index ≠ m.index) (hfield : m'.field ≠ m.field) :
    (v.apply new m).Ready new m' where
  source_ne := hm.source_ne
  live := hm.live
  exported := hm.exported
  enters := (Function.update_of_ne hindex ..).trans hm.enters
  owned := (apply_owned_other hsource hm.source_ne _).trans hm.owned
  only := fun field hf => (apply_owned_other hsource hm.source_ne field).trans (hm.only field hf)
  free := by
    rw [apply_owned_new h.source_ne, if_neg hfield]
    exact hm.free

theorem Landed.of_apply {m m' : Move} (h : v.Ready new m) (hm : v.Landed new m') :
    (v.apply new m).Landed new m' where
  source_ne := hm.source_ne
  live := hm.live
  enters := by
    refine (Function.update_of_ne ?_ ..).trans hm.enters
    intro heq
    have hclash := hm.enters
    rw [heq, h.enters] at hclash
    exact h.source_ne (congrArg Prod.fst (Option.some.inj hclash))
  owned := by
    rw [apply_owned_new h.source_ne, if_neg]
    · exact hm.owned
    · intro heq
      have hclash := hm.owned
      rw [heq, h.free] at hclash
      cases hclash
  emptied := by
    intro field
    by_cases hs : m'.source = m.source
    · rw [hs]
      exact apply_owned_source h field
    · exact (apply_owned_other hs hm.source_ne field).trans (hm.emptied field)

/-- The engine after some moves, the last one first, each of which was ready. -/
inductive Moved (new : Nat) (v0 : Entries) : List Move → Entries → Prop where
  | start : Moved new v0 [] v0
  | step {moved : List Move} {v : Entries} {m : Move} (hmoved : Moved new v0 moved v)
    (hready : v.Ready new m) : Moved new v0 (m :: moved) (v.apply new m)

theorem Moved.landed {v0 : Entries} {moved : List Move} (h : Moved new v0 moved v) :
    ∀ m ∈ moved, v.Landed new m := by
  induction h with
  | start => exact fun m hm => by cases hm
  | step hmoved hready ih =>
    intro m hm
    rcases List.mem_cons.mp hm with rfl | hm
    · exact apply_landed hready
    · exact (ih m hm).of_apply hready

theorem Moved.frame {v0 : Entries} {moved : List Move} (h : Moved new v0 moved v) :
    v.live = v0.live ∧ v.exports = v0.exports ∧
      (∀ index, (∀ m ∈ moved, m.index ≠ index) → v.entry index = v0.entry index) := by
  induction h with
  | start => exact ⟨rfl, rfl, fun _ _ => rfl⟩
  | step hmoved hready ih =>
    refine ⟨ih.1, ih.2.1, fun index hindex => ?_⟩
    refine (Function.update_of_ne ?_ ..).trans
      (ih.2.2 index fun m hm => hindex m (List.mem_cons_of_mem _ hm))
    exact (hindex _ List.mem_cons_self).symm

end Entries

/-! ## Moving entries through the arena -/

theorem bodyName_inj {i j : Nat} {field : BodyName} (hi : bodyName i = some field)
    (hj : bodyName j = some field) : i = j := by
  unfold bodyName at hi hj
  split at hi
  · split at hj
    · have h := (Option.some.inj hi).trans (Option.some.inj hj).symm
      exact congrArg (fun f : BodyName => f.index.val) h
    · cases hj
  · cases hi

section Engine

variable {cap : Nat} {σ M : Type} {host : WasmHost σ M} {view : σ → Entries}
  {exportsOf : M → BodyName → Bool}

/-- The move of a block onto a body. -/
def moveOf (slots : Fin cap → ArenaSlot) (p : CompactBlock cap × BodyName) : Move :=
  ⟨p.2, (slots p.1.token).module, p.1.entry⟩

/-- An arena bound to a host that can move entries. -/
structure Binds (host : WasmHost σ M) (a : Arena cap σ M) : Prop where
  host_eq : a.host = some host
  canAdopt : a.canAdopt = true

theorem Binds.congr {a a' : Arena cap σ M} (h : Binds host a) (heq : a'.host = a.host) :
    Binds host a' where
  host_eq := heq.trans h.host_eq
  canAdopt := by
    have := h.canAdopt
    unfold Arena.canAdopt at this ⊢
    rwa [heq]

/-- Every move is undone, the last one first. -/
theorem moveBack_view (hlaw : host.Lawful view exportsOf) (token : Fin cap) {new : Nat}
    {v0 : Entries} (hnew : v0.live new = true) (moved : List (CompactBlock cap × BodyName)) :
    ∀ a : Arena cap σ M, Binds host a → a.isLive token = true → (a.slots token).module = new →
      (∀ p ∈ moved, a.isLive p.1.token = true ∧ p.1.entry ≠ 0) →
      Entries.Moved new v0 (moved.map (moveOf a.slots)) (view a.user) →
      view (moveBack a token moved).user = v0 ∧ (moveBack a token moved).host = a.host := by
  induction moved with
  | nil =>
    intro a _ _ _ _ hmoved
    cases hmoved
    exact ⟨rfl, rfl⟩
  | cons p moved ih =>
    intro a hbinds htoken hmodule hlive hmoved
    obtain ⟨hp, hentry⟩ := hlive p List.mem_cons_self
    rw [List.map_cons] at hmoved
    generalize hv : view a.user = after at hmoved
    cases hmoved with
    | @step _ before _ hbefore hready =>
      have hframe := hbefore.frame
      obtain ⟨hslots, hhost, -, hout⟩ := Arena.adopt_view hlaw hbinds.host_eq hbinds.canAdopt
        hp htoken firstBody p.2 hentry
      have hcan : (view a.user).CanAdopt (a.slots p.1.token).module firstBody
          (a.slots token).module := by
        rw [hv, hmodule]
        refine ⟨hready.live, ?_, hready.exported⟩
        exact (congrFun hframe.1 new).trans hnew
      rw [if_pos hcan, hv, hmodule] at hout
      have hback : view (a.adopt p.1.token firstBody token p.2 p.1.entry).2.user = before :=
        hout.2.trans (Entries.adopt_back hready.enters hready.owned hready.free)
      unfold moveBack
      generalize a.adopt p.1.token firstBody token p.2 p.1.entry = out at hslots hhost hback
      obtain ⟨hrest, hhost'⟩ := ih out.2 (hbinds.congr hhost)
        ((congrFun (Arena.isLive_congr hslots) token).trans htoken) (by rw [hslots]; exact hmodule)
        (fun q hq => by
          rw [Arena.isLive_congr hslots]
          exact hlive q (List.mem_cons_of_mem _ hq))
        (by rw [hslots, hback]; exact hbefore)
      exact ⟨hrest, hhost'.trans hhost⟩

/-- What moving the entries from body `i` on leaves: all of them moved, or, after a failure,
the engine as it was. -/
theorem moveEntries_view (hlaw : host.Lawful view exportsOf) {token : Fin cap} {new : Nat}
    {v0 : Entries} (hnew : v0.live new = true) (blocks : List (CompactBlock cap)) :
    ∀ (a : Arena cap σ M) (i : Nat) (moved : List (CompactBlock cap × BodyName)),
      Binds host a → a.isLive token = true → (a.slots token).module = new →
      (∀ p ∈ moved, a.isLive p.1.token = true ∧ p.1.entry ≠ 0) →
      (∀ b ∈ blocks, a.isLive b.token = true ∧ b.entry ≠ 0) →
      Entries.Moved new v0 (moved.map (moveOf a.slots)) (view a.user) →
      blocks.Pairwise (fun b b' => (a.slots b.token).module ≠ (a.slots b'.token).module ∧
        b.entry ≠ b'.entry) →
      (∀ j b field, blocks[j]? = some b → bodyName (i + j) = some field →
        (view a.user).Ready new (moveOf a.slots (b, field))) →
      (moveEntries a token i moved blocks).2.host = a.host ∧
      match moveEntries a token i moved blocks with
      | (.error _, a') => view a'.user = v0
      | (.ok _, a') => a'.released = a.released ∧ ∃ all : List (CompactBlock cap × BodyName),
          Entries.Moved new v0 (all.map (moveOf a.slots)) (view a'.user) ∧
          (∀ p ∈ all, p ∈ moved ∨ p.1 ∈ blocks) ∧ (∀ p ∈ moved, p ∈ all) ∧
          ∀ j b, blocks[j]? = some b → ∃ field, bodyName (i + j) = some field ∧ (b, field) ∈ all := by
  induction blocks with
  | nil =>
    intro a i moved _ _ _ _ _ hmoved _ _
    refine ⟨rfl, rfl, moved, hmoved, fun p hp => Or.inl hp, fun p hp => hp, ?_⟩
    intro j b hb
    cases hb
  | cons b blocks ih =>
    intro a i moved hbinds htoken hmodule hlive hblocks hmoved hapart hready
    have hback := moveBack_view hlaw token hnew moved
    unfold moveEntries
    cases hfield : bodyName i with
    | none =>
      obtain ⟨hview, hhost⟩ := hback a hbinds htoken hmodule hlive hmoved
      exact ⟨hhost, hview⟩
    | some field =>
      have hb := hready 0 b field rfl hfield
      obtain ⟨hbLive, hbEntry⟩ := hblocks b List.mem_cons_self
      obtain ⟨hslots, hhost, hreleased, hout⟩ := Arena.adopt_view hlaw hbinds.host_eq
        hbinds.canAdopt htoken hbLive field firstBody hbEntry
      dsimp only
      generalize a.adopt token field b.token firstBody b.entry = out at hslots hhost hreleased hout
      obtain ⟨result, after⟩ := out
      have hafterLive : after.isLive = a.isLive := Arena.isLive_congr hslots
      by_cases hcan : (view a.user).CanAdopt (a.slots token).module field
          (a.slots b.token).module
      · rw [if_pos hcan, hmodule] at hout
        obtain ⟨rfl, hview⟩ := hout
        dsimp only at hview hslots hhost hreleased ⊢
        obtain ⟨hhead, htail⟩ := List.pairwise_cons.mp hapart
        have hstep := ih after (i + 1) ((b, field) :: moved) (hbinds.congr hhost)
          (by rw [hafterLive]; exact htoken) (by rw [hslots]; exact hmodule)
          (by
            intro p hp
            rw [hafterLive]
            rcases List.mem_cons.mp hp with rfl | hp
            · exact ⟨hbLive, hbEntry⟩
            · exact hlive p hp)
          (by
            intro c hc
            rw [hafterLive]
            exact hblocks c (List.mem_cons_of_mem _ hc))
          (by
            rw [hslots, hview, List.map_cons]
            exact Entries.Moved.step hmoved hb)
          (by rw [hslots]; exact htail)
          (by
            intro j c other hc hother
            rw [hslots, hview]
            have hmem := List.mem_of_getElem? hc
            refine Entries.Ready.of_apply hb (hready (j + 1) c other hc ?_)
              (hhead c hmem).1.symm (hhead c hmem).2.symm ?_
            · rw [← hother]
              congr 1
              omega
            · rintro rfl
              have := bodyName_inj hfield hother
              omega)
        rw [hslots] at hstep
        generalize moveEntries after token (i + 1) ((b, field) :: moved) blocks = final at hstep
        obtain ⟨outcome, finalArena⟩ := final
        refine ⟨hstep.1.trans hhost, ?_⟩
        cases outcome with
        | error why => exact hstep.2
        | ok _ =>
          obtain ⟨-, hrel, all, hall, hfrom, hkept, hnamed⟩ := hstep
          refine ⟨hrel.trans hreleased, all, hall, ?_, ?_, ?_⟩
          · intro p hp
            rcases hfrom p hp with h | h
            · rcases List.mem_cons.mp h with rfl | h
              · exact Or.inr List.mem_cons_self
              · exact Or.inl h
            · exact Or.inr (List.mem_cons_of_mem _ h)
          · exact fun p hp => hkept p (List.mem_cons_of_mem _ hp)
          · intro j c hc
            cases j with
            | zero =>
              cases hc
              exact ⟨field, hfield, hkept _ List.mem_cons_self⟩
            | succ j =>
              obtain ⟨other, hother, hin⟩ := hnamed j c hc
              refine ⟨other, ?_, hin⟩
              rw [← hother]
              congr 1
              omega
      · rw [if_neg hcan] at hout
        obtain ⟨rfl, hview⟩ := hout
        obtain ⟨hback', hhost'⟩ := hback after (hbinds.congr hhost)
          (by rw [hafterLive]; exact htoken) (by rw [hslots]; exact hmodule)
          (fun p hp => by rw [hafterLive]; exact hlive p hp)
          (by rw [hslots, hview]; exact hmoved)
        exact ⟨hhost'.trans hhost, hback'⟩

/-- Releasing emptied modules takes no entry along. -/
theorem releaseOld_view (hlaw : host.Lawful view exportsOf) (blocks : List (CompactBlock cap)) :
    ∀ a : Arena cap σ M, a.host = some host →
      (∀ b ∈ blocks, a.isLive b.token = true ∧
        (view a.user).live (a.slots b.token).module = true ∧
        ∀ field, (view a.user).owned (a.slots b.token).module field = none) →
      blocks.Pairwise (fun b b' => b.token ≠ b'.token ∧
        (a.slots b.token).module ≠ (a.slots b'.token).module) →
      (view (releaseOld a blocks).user).entry = (view a.user).entry ∧
      (releaseOld a blocks).released = a.released + blocks.length ∧
      (∀ id, (∀ b ∈ blocks, (a.slots b.token).module ≠ id) →
        (view (releaseOld a blocks).user).owned id = (view a.user).owned id ∧
        (view (releaseOld a blocks).user).live id = (view a.user).live id) ∧
      (∀ b ∈ blocks, (view (releaseOld a blocks).user).live (a.slots b.token).module = false) ∧
      ∀ t, (∀ b ∈ blocks, b.token ≠ t) → (releaseOld a blocks).slots t = a.slots t := by
  induction blocks with
  | nil =>
    intro a _ _ _
    exact ⟨rfl, rfl, fun _ _ => ⟨rfl, rfl⟩, fun _ h => (by cases h), fun _ _ => rfl⟩
  | cons b blocks ih =>
    intro a hhost hblocks hapart
    obtain ⟨hhead, htail⟩ := List.pairwise_cons.mp hapart
    obtain ⟨hlive, hheld, hempty⟩ := hblocks b List.mem_cons_self
    obtain ⟨hview, hhost1, hreleased1⟩ := Arena.release_view hlaw hhost hlive hheld
    have hslots1 : ∀ t, t ≠ b.token → (a.release b.token).slots t = a.slots t := by
      intro t ht
      rw [Arena.release_slots, if_pos hlive, Function.update_of_ne ht]
    have hrest : ∀ c ∈ blocks, (a.release b.token).slots c.token = a.slots c.token :=
      fun c hc => hslots1 c.token (hhead c hc).1.symm
    have hout := ih (a.release b.token) hhost1
      (by
        intro c hc
        obtain ⟨h1, h2, h3⟩ := hblocks c (List.mem_cons_of_mem _ hc)
        have hne : (a.slots c.token).module ≠ (a.slots b.token).module := (hhead c hc).2.symm
        rw [hrest c hc, hview, Arena.release_isLive, Function.update_of_ne (hhead c hc).1.symm]
        refine ⟨h1, (Function.update_of_ne hne ..).trans h2, fun field => ?_⟩
        dsimp only [Entries.release]
        rw [Function.update_of_ne hne]
        exact h3 field)
      (htail.imp_of_mem fun {c d} hc hd h => by
        rw [hrest c hc, hrest d hd]
        exact h)
    obtain ⟨hentry, hreleased, hothers, hgone, hslots⟩ := hout
    refine ⟨?_, ?_, ?_, ?_, ?_⟩
    · exact hentry.trans ((congrArg Entries.entry hview).trans (Entries.release_entry hempty))
    · rw [List.length_cons]
      exact hreleased.trans (by omega)
    · intro id hid
      have hne : id ≠ (a.slots b.token).module := (hid b List.mem_cons_self).symm
      obtain ⟨h1, h2⟩ := hothers id fun c hc => by
        rw [hrest c hc]
        exact hid c (List.mem_cons_of_mem _ hc)
      rw [hview] at h1 h2
      exact ⟨h1.trans (Function.update_of_ne hne ..), h2.trans (Function.update_of_ne hne ..)⟩
    · intro c hc
      rcases List.mem_cons.mp hc with rfl | hc
      · obtain ⟨-, h2⟩ := hothers (a.slots c.token).module fun d hd => by
          rw [hrest d hd]
          exact (hhead d hd).2.symm
        rw [hview] at h2
        exact h2.trans (Function.update_self ..)
      · rw [← hrest c hc]
        exact hgone c hc
    · intro t ht
      exact (hslots t fun c hc => ht c (List.mem_cons_of_mem _ hc)).trans
        (hslots1 t (ht b List.mem_cons_self).symm)

/-! ## The whole operation -/

/-- A block published in a module of its own: its module is live and owns its entry, which runs
the module's one body, and nothing else. -/
structure SinglyPublished (a : Arena cap σ M) (v : Entries) (b : CompactBlock cap) : Prop where
  live : a.isLive b.token = true
  entry_ne : b.entry ≠ 0
  held : v.live (a.slots b.token).module = true
  exported : v.exports (a.slots b.token).module firstBody = true
  enters : v.entry b.entry = some ((a.slots b.token).module, firstBody)
  owned : v.owned (a.slots b.token).module firstBody = some b.entry
  only : ∀ field, field ≠ firstBody → v.owned (a.slots b.token).module field = none

/-- The blocks after a compaction that was taken. -/
structure Shared (a a' : Arena cap σ M) (v v' : Entries) (blocks : List (CompactBlock cap))
    (token : Fin cap) : Prop where
  live : a'.isLive token = true ∧ v'.live (a'.slots token).module = true
  entered : ∀ i b, blocks[i]? = some b → ∃ field, bodyName i = some field ∧
    v'.entry b.entry = some ((a'.slots token).module, field) ∧
    v'.owned (a'.slots token).module field = some b.entry
  released : ∀ b ∈ blocks, a'.isLive b.token = false ∧
    v'.live (a.slots b.token).module = false
  once : a'.released = a.released + blocks.length
  others : ∀ index, (∀ b ∈ blocks, b.entry ≠ index) → v'.entry index = v.entry index

/-- The blocks after one that was refused. -/
structure Unchanged (a a' : Arena cap σ M) (v v' : Entries) (blocks : List (CompactBlock cap)) :
    Prop where
  published : ∀ b ∈ blocks, SinglyPublished a' v' b ∧ a'.slots b.token = a.slots b.token
  entry : v'.entry = v.entry
  live : v'.live = v.live
  slots : a'.isLive = a.isLive

theorem SinglyPublished.module_ne {a : Arena cap σ M} {v : Entries} {b c : CompactBlock cap}
    (hb : SinglyPublished a v b) (hc : SinglyPublished a v c) (hne : b.entry ≠ c.entry) :
    (a.slots b.token).module ≠ (a.slots c.token).module := by
  intro h
  have howned := hb.owned
  rw [h, hc.owned] at howned
  exact hne (Option.some.inj howned).symm

/-- Publication is kept by what leaves the block's slot, its module and its entry alone. -/
theorem SinglyPublished.congr {a a' : Arena cap σ M} {v v' : Entries} {b : CompactBlock cap}
    (h : SinglyPublished a v b) (hslots : a'.slots b.token = a.slots b.token)
    (hlive : v'.live (a.slots b.token).module = v.live (a.slots b.token).module)
    (hexports : v'.exports (a.slots b.token).module = v.exports (a.slots b.token).module)
    (hentry : v'.entry b.entry = v.entry b.entry)
    (howned : v'.owned (a.slots b.token).module = v.owned (a.slots b.token).module) :
    SinglyPublished a' v' b where
  live := by
    have := h.live
    unfold Arena.isLive at this ⊢
    rwa [hslots]
  entry_ne := h.entry_ne
  held := by rw [hslots, hlive, h.held]
  exported := by rw [hslots, hexports, h.exported]
  enters := by rw [hslots, hentry, h.enters]
  owned := by rw [hslots, howned, h.owned]
  only := fun field hf => by rw [hslots, howned, h.only field hf]

theorem unchanged_of_eq {a a' : Arena cap σ M} {v v' : Entries} {blocks : List (CompactBlock cap)}
    (hblocks : ∀ b ∈ blocks, SinglyPublished a v b) (hslots : a'.slots = a.slots) (hv : v' = v) :
    Unchanged a a' v v' blocks where
  published := by
    intro b hb
    subst hv
    exact ⟨(hblocks b hb).congr (congrFun hslots _) rfl rfl rfl rfl, congrFun hslots _⟩
  entry := by rw [hv]
  live := by rw [hv]
  slots := Arena.isLive_congr hslots

/-- What is ready to move once the new module is instantiated. -/
theorem SinglyPublished.ready {a a' : Arena cap σ M} {v : Entries} {b : CompactBlock cap}
    (h : SinglyPublished a v b) {new : Nat} (hnew : v.live new = false)
    (exports : BodyName → Bool) (hslots : a'.slots b.token = a.slots b.token) (field : BodyName) :
    (v.instantiate new exports).Ready new (moveOf a'.slots (b, field)) := by
  have hne : (a.slots b.token).module ≠ new := by
    rintro rfl
    exact absurd (h.held.symm.trans hnew) (by decide)
  unfold moveOf
  dsimp only
  rw [hslots]
  exact {
    source_ne := hne
    live := (Function.update_of_ne hne ..).trans h.held
    exported := by
      dsimp only [Entries.instantiate]
      rw [Function.update_of_ne hne]
      exact h.exported
    enters := h.enters
    owned := by
      dsimp only [Entries.instantiate]
      rw [Function.update_of_ne hne]
      exact h.owned
    only := by
      intro field hf
      dsimp only [Entries.instantiate]
      rw [Function.update_of_ne hne]
      exact h.only field hf
    free := by
      dsimp only [Entries.instantiate]
      rw [Function.update_self] }

/-- The new module released again after every entry was put back. -/
theorem unchanged_of_rollback (hlaw : host.Lawful view exportsOf) {a moved : Arena cap σ M}
    {blocks : List (CompactBlock cap)} {token : Fin cap} {new : Nat} {exports : BodyName → Bool}
    (hblocks : ∀ b ∈ blocks, SinglyPublished a (view a.user) b)
    (hfree : a.isLive token = false) (hnew : (view a.user).live new = false)
    (hslots : moved.slots = Function.update a.slots token ⟨true, new, 0⟩)
    (hhost : moved.host = some host)
    (hview : view moved.user = (view a.user).instantiate new exports) :
    Unchanged a (moved.release token) (view a.user) (view (moved.release token).user) blocks := by
  have hmodule : (moved.slots token).module = new := by rw [hslots, Function.update_self]
  have hlive : moved.isLive token = true := by
    unfold Arena.isLive
    rw [hslots, Function.update_self]
  have hheld : (view moved.user).live (moved.slots token).module = true := by
    rw [hmodule, hview]
    exact Function.update_self ..
  obtain ⟨hrelease, -, -⟩ := Arena.release_view hlaw hhost hlive hheld
  rw [hmodule, hview] at hrelease
  have hempty : ∀ field, ((view a.user).instantiate new exports).owned new field = none := by
    intro field
    dsimp only [Entries.instantiate]
    rw [Function.update_self]
  have hentry : (view (moved.release token).user).entry = (view a.user).entry := by
    rw [hrelease, Entries.release_entry hempty]
    rfl
  have hheldBack : (view (moved.release token).user).live = (view a.user).live := by
    rw [hrelease]
    dsimp only [Entries.release, Entries.instantiate]
    rw [Function.update_idem, ← hnew, Function.update_eq_self]
  exact {
    published := by
      intro b hb
      have hp := hblocks b hb
      have hne : b.token ≠ token := by
        intro h
        have := hp.live
        rw [h, hfree] at this
        cases this
      have hmod : (a.slots b.token).module ≠ new := (hp.ready hnew exports rfl firstBody).source_ne
      have hsame : (moved.release token).slots b.token = a.slots b.token := by
        rw [Arena.release_slots, if_pos hlive, Function.update_of_ne hne, hslots,
          Function.update_of_ne hne]
      refine ⟨hp.congr hsame (congrFun hheldBack _) ?_ (congrFun hentry _) ?_, hsame⟩
      · rw [hrelease]
        dsimp only [Entries.release, Entries.instantiate]
        rw [Function.update_of_ne hmod, Function.update_of_ne hmod]
      · rw [hrelease]
        dsimp only [Entries.release, Entries.instantiate]
        rw [Function.update_of_ne hmod, Function.update_of_ne hmod]
    entry := hentry
    live := hheldBack
    slots := by
      funext t
      rw [Arena.release_isLive]
      by_cases ht : t = token
      · rw [ht, Function.update_self, hfree]
      · rw [Function.update_of_ne ht]
        unfold Arena.isLive
        rw [hslots, Function.update_of_ne ht] }

/-- The old modules released after every entry was moved. -/
theorem shared_of_moved (hlaw : host.Lawful view exportsOf) {a moved : Arena cap σ M}
    {blocks : List (CompactBlock cap)} {token : Fin cap} {new : Nat} {exports : BodyName → Bool}
    (hblocks : ∀ b ∈ blocks, SinglyPublished a (view a.user) b)
    (htokens : blocks.Pairwise fun b c => b.token ≠ c.token)
    (hentries : blocks.Pairwise fun b c => b.entry ≠ c.entry)
    (hfree : a.isLive token = false)
    (hslots : moved.slots = Function.update a.slots token ⟨true, new, 0⟩)
    (hhost : moved.host = some host) (hreleased : moved.released = a.released)
    {all : List (CompactBlock cap × BodyName)}
    (hmoved : Entries.Moved new ((view a.user).instantiate new exports)
      (all.map (moveOf moved.slots)) (view moved.user))
    (hfrom : ∀ p ∈ all, p.1 ∈ blocks)
    (hnamed : ∀ i b, blocks[i]? = some b → ∃ field, bodyName i = some field ∧ (b, field) ∈ all) :
    Shared a (releaseOld moved blocks) (view a.user) (view (releaseOld moved blocks).user) blocks
      token := by
  have hne : ∀ b ∈ blocks, b.token ≠ token := by
    intro b hb h
    have := (hblocks b hb).live
    rw [h, hfree] at this
    cases this
  have hsame : ∀ b ∈ blocks, moved.slots b.token = a.slots b.token := fun b hb => by
    rw [hslots, Function.update_of_ne (hne b hb)]
  have hlanded : ∀ i b, blocks[i]? = some b → ∃ field, bodyName i = some field ∧
      (view moved.user).Landed new ⟨field, (a.slots b.token).module, b.entry⟩ := by
    intro i b hb
    obtain ⟨field, hfield, hin⟩ := hnamed i b hb
    have h := hmoved.landed _ (List.mem_map_of_mem hin)
    unfold moveOf at h
    rw [hsame b (List.mem_of_getElem? hb)] at h
    exact ⟨field, hfield, h⟩
  have hany : ∀ b ∈ blocks, ∃ field,
      (view moved.user).Landed new ⟨field, (a.slots b.token).module, b.entry⟩ := by
    intro b hb
    obtain ⟨i, hi⟩ := List.getElem?_of_mem hb
    obtain ⟨field, -, h⟩ := hlanded i b hi
    exact ⟨field, h⟩
  have hrelease := releaseOld_view hlaw blocks moved hhost
    (by
      intro b hb
      obtain ⟨field, h⟩ := hany b hb
      rw [hsame b hb]
      refine ⟨?_, h.live, h.emptied⟩
      unfold Arena.isLive
      rw [hsame b hb]
      exact (hblocks b hb).live)
    ((htokens.and hentries).imp_of_mem fun {b c} hb hc h => by
      rw [hsame b hb, hsame c hc]
      exact ⟨h.1, (hblocks b hb).module_ne (hblocks c hc) h.2⟩)
  obtain ⟨hentry, hcount, hothers, hgone, hkept⟩ := hrelease
  have htoken : (releaseOld moved blocks).slots token = ⟨true, new, 0⟩ := by
    rw [hkept token hne, hslots, Function.update_self]
  have hnew := hothers new fun b hb => by
    obtain ⟨field, h⟩ := hany b hb
    rw [hsame b hb]
    exact h.source_ne
  exact {
    live := by
      unfold Arena.isLive
      rw [htoken, hnew.2, hmoved.frame.1]
      exact ⟨rfl, Function.update_self ..⟩
    entered := by
      intro i b hb
      obtain ⟨field, hfield, h⟩ := hlanded i b hb
      rw [htoken, hentry, hnew.1]
      exact ⟨field, hfield, h.enters, h.owned⟩
    released := by
      intro b hb
      have hgone' := hgone b hb
      rw [hsame b hb] at hgone'
      refine ⟨?_, hgone'⟩
      rw [releaseOld_isLive, if_pos (List.mem_map_of_mem hb)]
    once := hcount.trans (by rw [hreleased])
    others := by
      intro index hindex
      rw [hentry]
      refine (hmoved.frame.2.2 index fun m hm => ?_)
      obtain ⟨p, hp, rfl⟩ := List.mem_map.mp hm
      exact hindex p.1 (hfrom p hp) }

section Whole

variable {I E S : Type}

/-- On a lawful host, compaction of blocks published one to a module moves every one of them or
changes none, whichever step fails. -/
theorem compact_all_or_nothing (hlaw : host.Lawful view exportsOf) (F : Families I E S M)
    (a : Arena cap σ M) (hhost : a.host = some host) (fetch : Fetch) (bufferBytes : Nat)
    (env : TranslateEnv) (blocks : List (CompactBlock cap))
    (htokens : blocks.Pairwise fun b c => b.token ≠ c.token)
    (hentries : blocks.Pairwise fun b c => b.entry ≠ c.entry)
    (hblocks : ∀ b ∈ blocks, SinglyPublished a (view a.user) b) :
    match compact F a fetch bufferBytes env blocks with
    | (.ok r, a') => r.moved = blocks.length ∧
        Shared a a' (view a.user) (view a'.user) blocks r.token
    | (.error _, a') => Unchanged a a' (view a.user) (view a'.user) blocks := by
  have hsame := unchanged_of_eq hblocks rfl rfl
  unfold compact
  split_ifs with h1 h2 h3
  · exact hsame
  · exact hsame
  · exact hsame
  · cases translateBatch F fetch env.boundary bufferBytes (batchItems env blocks) with
    | error why => exact hsame
    | ok result =>
      obtain ⟨bytes, lowered⟩ := result
      dsimp only
      cases (blocks.zip lowered).find? fun p => !loweredTheSame p.1 p.2 with
      | some p => exact hsame
      | none =>
        dsimp only
        cases hpublish : a.publish bytes (F.size bytes) with
        | mk result published =>
          obtain ⟨hhost1, hcase⟩ := Arena.publish_view hlaw hhost hpublish
          cases result with
          | error why => exact unchanged_of_eq hblocks hcase.1 hcase.2
          | ok token =>
            obtain ⟨new, hfree, hslots, hnew, hview, hreleased⟩ := hcase
            have hne : ∀ b ∈ blocks, b.token ≠ token := by
              intro b hb h
              have := (hblocks b hb).live
              rw [h, hfree] at this
              cases this
            have hkept : ∀ b ∈ blocks, published.slots b.token = a.slots b.token :=
              fun b hb => by rw [hslots, Function.update_of_ne (hne b hb)]
            have hbinds : Binds host published := by
              have hcan : Binds host a := ⟨hhost, by simpa using h3⟩
              exact hcan.congr (hhost1.trans hhost.symm)
            have hheld : ((view a.user).instantiate new (exportsOf bytes)).live new = true :=
              Function.update_self ..
            have htoken : published.isLive token = true := by
              unfold Arena.isLive
              rw [hslots, Function.update_self]
            have hmoves := moveEntries_view hlaw hheld blocks published 0 [] hbinds htoken
              (by rw [hslots, Function.update_self]) (fun p hp => by cases hp)
              (by
                intro b hb
                unfold Arena.isLive
                rw [hkept b hb]
                exact ⟨(hblocks b hb).live, (hblocks b hb).entry_ne⟩)
              (by rw [hview]; exact Entries.Moved.start)
              (hentries.imp_of_mem fun {b c} hb hc h => by
                rw [hkept b hb, hkept c hc]
                exact ⟨(hblocks b hb).module_ne (hblocks c hc) h, h⟩)
              (by
                intro j b field hb _
                rw [hview]
                have hmem := List.mem_of_getElem? hb
                exact (hblocks b hmem).ready hnew _ (hkept b hmem) field)
            have hmoveSlots := moveEntries_slots token blocks published 0 []
            dsimp only
            generalize moveEntries published token 0 [] blocks = out at hmoves hmoveSlots
            obtain ⟨outcome, moved⟩ := out
            dsimp only at hmoveSlots
            cases outcome with
            | error why =>
              exact unchanged_of_rollback hlaw hblocks hfree hnew (hmoveSlots.trans hslots)
                (hmoves.1.trans hhost1) hmoves.2
            | ok _ =>
              obtain ⟨hhost2, hreleased2, all, hall, hfrom, -, hnamed⟩ := hmoves
              rw [← hmoveSlots] at hall
              refine ⟨rfl, shared_of_moved hlaw hblocks htokens hentries hfree
                (hmoveSlots.trans hslots) (hhost2.trans hhost1) (hreleased2.trans hreleased)
                hall ?_ ?_⟩
              · intro p hp
                exact (hfrom p hp).resolve_left (fun h => by cases h)
              · intro i b hb
                obtain ⟨field, hfield, hin⟩ := hnamed i b hb
                rw [Nat.zero_add] at hfield
                exact ⟨field, hfield, hin⟩

end Whole

end Engine

/-- Two modules of one body each, at the table entries 10 and 11. -/
def twoModules : JsHost where
  modules := fun id =>
    if id = 1 ∨ id = 2 then
      some ⟨fun field => decide (field = firstBody),
        fun field => if field = firstBody then some (9 + id) else none⟩
    else none
  next := 3
  table := fun index => if index = 10 ∨ index = 11 then some (index - 9, firstBody) else none
  grown := 11
  fresh := fun id hid => if_neg (by omega)

instance neZero_three : NeZero 3 := ⟨by decide⟩

def twoPublished : Arena 3 JsHost (List (List ShortOp)) :=
  { Arena.init 3 (some (jsHost compileShort)) twoModules with
    slots := fun i => if i.val < 2 then ⟨true, i.val + 1, 0⟩ else ⟨false, 0, 0⟩
    freeHead := 3
    live := 2 }

/-- `mov eax, 1; ret` at 1000 and `ret` at 2000. -/
def twoFetch : Fetch := fun pc =>
  if pc = 0x1000 then some 0xB8
  else if pc = 0x1001 then some 1
  else if pc = 0x1005 ∨ pc = 0x2000 then some 0xC3
  else some 0

def twoBlocks : List (CompactBlock 3) :=
  [⟨0x1000, 6, 0, 1, 10, some 0, none⟩, ⟨0x2000, 1, 1, 1, 11, some 1, none⟩]

def slotEnv : TranslateEnv := ⟨fun _ => false, some ⟨2, 8⟩, false⟩

theorem twoBlocks_shared :
    ∃ r a', compact shortFamilies twoPublished twoFetch maxModuleBytes slotEnv twoBlocks =
      (.ok r, a') ∧ r.moved = 2 ∧
      Shared twoPublished a' twoModules.view a'.user.view twoBlocks r.token := by
  have hpublished : ∀ b ∈ twoBlocks, SinglyPublished twoPublished twoModules.view b := by
    intro b hb
    simp only [twoBlocks, List.mem_cons, List.not_mem_nil, or_false] at hb
    rcases hb with rfl | rfl
    · exact ⟨rfl, by decide, rfl, rfl, rfl, rfl, fun field hf => if_neg hf⟩
    · exact ⟨rfl, by decide, rfl, rfl, rfl, rfl, fun field hf => if_neg hf⟩
  have hall := compact_all_or_nothing (jsHost_lawful compileShort) shortFamilies twoPublished rfl
    twoFetch maxModuleBytes slotEnv twoBlocks (by decide) (by decide) hpublished
  have hok : (compact shortFamilies twoPublished twoFetch maxModuleBytes slotEnv twoBlocks).1 =
      .ok ⟨2, moduleOverheadBytes + 3, 2, 0⟩ := by decide +kernel
  generalize compact shortFamilies twoPublished twoFetch maxModuleBytes slotEnv twoBlocks = out
    at hall hok
  obtain ⟨result, a'⟩ := out
  subst hok
  exact ⟨_, a', rfl, hall⟩

end X86Port.Wasm
