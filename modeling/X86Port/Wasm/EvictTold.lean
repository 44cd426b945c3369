import X86Port.Wasm.EngineStorage
import X86Port.Wasm.Relower

/-!
# What an eviction tells

The callback of `x86p_jit_storage_evict`, record by record, and the block cache it keeps in step
with the storage.

* `evict_told_iff`: a record that goes is told of first, unless its block ends at `2 ^ 32` or
  behind.
* `CacheBacked`: the entries of the cache that a record stands behind, in every engine reached.
-/

namespace X86Port.Wasm

open Jit

namespace Storage

variable {cap : Nat} {σ I E S M : Type}

/-! ## The records under each operation -/

theorem dropBlock_blocks (s : Storage cap σ M) (slot : Fin cap) :
    (s.dropBlock slot).blocks = Function.update s.blocks slot none := by
  unfold dropBlock
  cases hb : s.blocks slot with
  | none =>
    dsimp only
    rw [← hb, Function.update_eq_self]
  | some b =>
    have hforget : (s.forgetPending slot).blocks = s.blocks := by
      unfold forgetPending
      cases s.pending.idxOf? slot <;> rfl
    have hmodule : ∀ s : Storage cap σ M, (s.dropModule b.token).blocks = s.blocks := by
      intro s
      unfold dropModule
      dsimp only
      split_ifs <;> rfl
    dsimp only [setBlock]
    rw [hmodule, hforget]

theorem moduleToEmpty_blocks (s : Storage cap σ M) : (s.moduleToEmpty cap).2.blocks = s.blocks := by
  obtain ⟨next, hnext, -⟩ := moduleToEmpty_eq cap s
  rw [hnext]

/-- A loop touches the records of the slots it walks and no others. -/
theorem evictLoop_blocks (drop : Bool) (token : Fin cap) (slots : List (Fin cap)) :
    ∀ (s : Storage cap σ M) (slot : Fin cap),
      ((evictLoop drop token slots s).2.blocks slot = s.blocks slot ∨
        (evictLoop drop token slots s).2.blocks slot = none) ∧
      (slot ∉ slots → (evictLoop drop token slots s).2.blocks slot = s.blocks slot) := by
  induction slots with
  | nil => exact fun s slot => ⟨Or.inl rfl, fun _ => rfl⟩
  | cons head slots ih =>
    intro s slot
    have hrest : ∀ (s : Storage cap σ M),
        ((evictLoop drop token slots s).2.blocks slot = s.blocks slot ∨
          (evictLoop drop token slots s).2.blocks slot = none) ∧
        (slot ∉ head :: slots → (evictLoop drop token slots s).2.blocks slot = s.blocks slot) :=
      fun s => ⟨(ih s slot).1, fun h => (ih s slot).2 (List.not_mem_of_not_mem_cons h)⟩
    unfold evictLoop
    split_ifs
    · exact ⟨Or.inl rfl, fun _ => rfl⟩
    · cases hb : s.blocks head with
      | none => exact hrest s
      | some b =>
        dsimp only
        split_ifs
        · exact hrest s
        · obtain ⟨hkept, hnot⟩ := hrest (s.dropBlock head)
          rw [dropBlock_blocks] at hkept hnot
          by_cases hslot : slot = head
          · rw [hslot, Function.update_self] at hkept
            refine ⟨Or.inr ?_, fun h => absurd (List.mem_cons.mpr (Or.inl hslot)) h⟩
            rw [hslot]
            exact hkept.elim id id
          · rw [Function.update_of_ne hslot] at hkept hnot
            exact ⟨hkept, hnot⟩

theorem evict_blocks (s : Storage cap σ M) (drop : Bool) (slot : Fin cap) :
    (s.evict drop).2.2.blocks slot = s.blocks slot ∨ (s.evict drop).2.2.blocks slot = none := by
  have hblocks := moduleToEmpty_blocks s
  unfold evict
  generalize s.moduleToEmpty cap = out at hblocks
  obtain ⟨victim, s'⟩ := out
  cases victim with
  | none => exact Or.inl (congrFun hblocks slot)
  | some token =>
    have hloop := (evictLoop_blocks drop token (List.finRange cap) s' slot).1
    rw [show s'.blocks = s.blocks from hblocks] at hloop
    exact hloop

/-! ## Told before dropped -/

/-- The callback was told of the record at `slot`, with a range that has the block's first byte. -/
def ToldOf (events : List (EvictEvent cap)) (slot : Fin cap) (b : StoredBlock cap) : Prop :=
  ∃ lo hi, EvictEvent.told slot lo hi ∈ events ∧ lo ≤ b.guest ∧ b.guest < hi

/-- The events that end with the record at `slot` dropped: its module has not gone yet, and the
callback was told of it exactly if its block ends below `2 ^ 32`. -/
def DroppedIn (events : List (EvictEvent cap)) (slot : Fin cap) (b : StoredBlock cap) : Prop :=
  ∃ before after, events = before ++ .dropped slot b :: after ∧
    EvictEvent.released b.token ∉ before ∧
    (ToldOf before slot b ↔ b.guest.toNat + b.guestLen.toNat < 2 ^ 32)

theorem evictBlock_events (s : Storage cap σ M) (slot : Fin cap) (b : StoredBlock cap) :
    ∃ told released, (s.evictBlock true slot b).1 = told ++ .dropped slot b :: released ∧
      told = (if b.guest.toNat + b.guestLen.toNat < 2 ^ 32 then
        [.told slot b.guest (BitVec.ofNat 32 (b.guest.toNat + b.guestLen.toNat))] else []) ∧
      (released = [] ∨ released = [.released b.token] ∧
        ((s.dropBlock slot).modules b.token).blocks = 0) := by
  refine ⟨_, _, rfl, ?_, ?_⟩
  · have hmax : (b.guest.toNat + b.guestLen.toNat ≤ uint32Max.toNat) ↔
        b.guest.toNat + b.guestLen.toNat < 2 ^ 32 := by
      unfold uint32Max
      bv_omega
    simp only [true_and, hmax]
  · split_ifs with hempty
    · exact Or.inr ⟨rfl, hempty⟩
    · exact Or.inl rfl

/-- By induction on the slots: what happens to the other slots neither tells of this one nor
releases its module. -/
theorem evictLoop_dropped (token : Fin cap) (slots : List (Fin cap)) :
    ∀ (s : Storage cap σ M), slots.Nodup → ∀ {slot : Fin cap} {b : StoredBlock cap},
      s.blocks slot = some b → 0 < b.guestLen.toNat →
      (evictLoop true token slots s).2.blocks slot = none →
      DroppedIn (evictLoop true token slots s).1 slot b := by
  induction slots with
  | nil =>
    intro s _ slot b hb _ hgone
    have hkept : s.blocks slot = none := hgone
    rw [hkept] at hb
    cases hb
  | cons head slots ih =>
    intro s hnodup slot b hb hlen hgone
    obtain ⟨hhead, hnodup'⟩ := List.nodup_cons.mp hnodup
    -- a slot that is passed over is not the one that goes
    have hpass : (evictLoop true token slots s).2.blocks slot = none →
        DroppedIn (evictLoop true token slots s).1 slot b := ih s hnodup' hb hlen
    unfold evictLoop at hgone ⊢
    split_ifs at hgone ⊢ with hempty
    · rw [show s.blocks slot = none from hgone] at hb
      cases hb
    · cases hhb : s.blocks head with
      | none =>
        rw [hhb] at hgone
        exact hpass hgone
      | some c =>
        rw [hhb] at hgone
        dsimp only at hgone ⊢
        split_ifs at hgone ⊢ with hother
        · exact hpass hgone
        · obtain ⟨told, released, hevents, htold, hreleased⟩ := evictBlock_events s head c
          have hafter : (s.evictBlock true head c).2 = s.dropBlock head := rfl
          rw [hevents]
          rw [hafter] at hgone ⊢
          have htoken : c.token = token := not_not.mp hother
          by_cases hslot : slot = head
          · subst hslot
            rw [hhb] at hb
            cases hb
            refine ⟨told, released ++ (evictLoop true token slots (s.dropBlock slot)).1, ?_, ?_, ?_⟩
            · rw [List.append_assoc, List.cons_append]
            · rw [htold]
              split_ifs <;> simp
            · rw [htold]
              unfold ToldOf
              constructor
              · rintro ⟨lo, hi, hmem, -⟩
                by_contra hpast
                rw [if_neg hpast] at hmem
                cases hmem
              · intro hend
                rw [if_pos hend]
                exact ⟨_, _, List.mem_singleton.mpr rfl, by bv_omega, by bv_omega⟩
          · have hb' : (s.dropBlock head).blocks slot = some b := by
              rw [dropBlock_blocks, Function.update_of_ne hslot]
              exact hb
            obtain ⟨before, after, hmore, hnot, hiff⟩ := ih _ hnodup' hb' hlen hgone
            -- a released module ends the loop, with the record still there
            have hnone : released = [] := by
              refine hreleased.resolve_right ?_
              rintro ⟨-, hzero⟩
              rw [htoken] at hzero
              have hstop : evictLoop true token slots (s.dropBlock head) =
                  ([], s.dropBlock head) := by
                cases slots with
                | nil => rfl
                | cons next slots =>
                  unfold evictLoop
                  rw [if_pos hzero]
              rw [hstop] at hgone
              rw [show (s.dropBlock head).blocks slot = none from hgone] at hb'
              cases hb'
            refine ⟨told ++ .dropped head c :: before, after, ?_, ?_, ?_⟩
            · rw [hmore, hnone, List.append_assoc, List.append_assoc]
              rfl
            · rw [htold, List.mem_append, List.mem_cons, not_or, not_or]
              refine ⟨?_, by simp, hnot⟩
              split_ifs <;> simp
            · rw [← hiff]
              unfold ToldOf
              refine exists_congr fun lo => exists_congr fun hi => and_congr_left fun _ => ?_
              rw [List.mem_append, List.mem_cons, htold]
              constructor
              · rintro (h | h | h)
                · split_ifs at h
                  · rw [List.mem_singleton] at h
                    cases h
                    exact absurd rfl hslot
                  · cases h
                · cases h
                · exact h
              · exact fun h => Or.inr (Or.inr h)

theorem evict_dropped (s : Storage cap σ M) {slot : Fin cap} {b : StoredBlock cap}
    (hb : s.blocks slot = some b) (hlen : 0 < b.guestLen.toNat)
    (hgone : (s.evict true).2.2.blocks slot = none) : DroppedIn (s.evict true).2.1 slot b := by
  have hblocks := moduleToEmpty_blocks s
  unfold evict at hgone ⊢
  generalize s.moduleToEmpty cap = out at hblocks hgone ⊢
  obtain ⟨victim, s'⟩ := out
  have hb' : s'.blocks slot = some b := (congrFun hblocks slot).trans hb
  cases victim with
  | none =>
    rw [show s'.blocks slot = none from hgone] at hb'
    cases hb'
  | some token => exact evictLoop_dropped token _ s' (List.nodup_finRange cap) hb' hlen hgone

/-! ## What a record covers -/

/-- The address, the length and the entry of a record, which a move to another module keeps. -/
def cover (s : Storage cap σ M) (slot : Fin cap) : Option (U32 × U32 × Nat) :=
  (s.blocks slot).map fun b => (b.guest, b.guestLen, b.entry)

theorem rebook_cover (token : Fin cap) (s : Storage cap σ M) (slot : Fin cap) :
    (rebook token s slot).cover = s.cover := by
  funext i
  by_cases hi : i = slot
  · subst hi
    unfold cover rebook
    cases hb : s.blocks i with
    | none =>
      dsimp only
      rw [hb]
    | some b =>
      dsimp only [setBlock]
      rw [Function.update_self]
      rfl
  · unfold cover
    rw [rebook_blocks_of_ne hi]

theorem shareAModule_cover (F : Families I E S M) (s : Storage cap σ M) (fetch : Fetch)
    (env : TranslateEnv) (alloc : Bool) : (s.shareAModule F fetch env alloc).cover = s.cover := by
  unfold shareAModule
  split_ifs
  · rfl
  · rfl
  · dsimp only
    generalize compact F s.arena fetch (compactBatch * maxModuleBytes) env
      (s.pending.filterMap fun i => (s.blocks i).map StoredBlock.compacting) = out
    obtain ⟨result, a⟩ := out
    cases result with
    | error why => rfl
    | ok r =>
      have hfold : ∀ (slots : List (Fin cap)) (s : Storage cap σ M),
          (slots.foldl (rebook r.token) s).cover = s.cover := by
        intro slots
        induction slots with
        | nil => exact fun _ => rfl
        | cons slot slots ih => exact fun s => (ih _).trans (rebook_cover r.token s slot)
      exact hfold (s.pending.take r.moved) { s with batch := true, arena := a }

theorem record_cover (s : Storage cap σ M) (slot : Fin cap) (block : JitBlock) (token : Fin cap)
    (entry : Nat) : (s.record slot block token entry).cover =
      Function.update s.cover slot (some (block.guestEip, block.guestLen, entry)) := by
  have hblocks : (s.record slot block token entry).blocks = Function.update s.blocks slot (some
      ⟨block.guestEip, block.guestLen, token, entry, block.chainFirstSlot, block.chainExits,
        block.leafSite⟩) := by
    unfold record holdModule
    dsimp only
    split_ifs <;> rfl
  funext i
  unfold cover
  rw [hblocks]
  by_cases hi : i = slot
  · rw [hi, Function.update_self, Function.update_self]
    rfl
  · rw [Function.update_of_ne hi, Function.update_of_ne hi]

/-- A translation adds the block it answers with in a free slot, or nothing. -/
theorem translate_cover {F : Families I E S M} (hF : F.Measured) (s : Storage cap σ M)
    (fetch : Fetch) (eip : U32) (env : TranslateEnv) (alloc : Bool) :
    match (s.translate F fetch eip env alloc).1 with
    | .error _ => (s.translate F fetch eip env alloc).2.cover = s.cover
    | .ok block => 0 < block.guestLen.toNat ∧ ∃ slot, s.cover slot = none ∧
        (s.translate F fetch eip env alloc).2.cover =
          Function.update s.cover slot (some (eip, block.guestLen, block.entry.getD 0)) := by
  unfold translate
  dsimp only
  cases hslot : s.takeBlockSlot with
  | none => rfl
  | some slot =>
    dsimp only
    cases htranslate : translateBounded F fetch eip (min (sizeSub s.byteBudget s.used)
        maxModuleBytes) env.boundary env.chain ⟨env.leaf, false, none⟩ with
    | error status => rfl
    | ok lowered =>
      obtain ⟨block, bytes⟩ := lowered
      obtain ⟨hguest, hlen⟩ := translateBounded_guest hF htranslate
      dsimp only
      have hpublish := publishBlock_isLive s.arena block bytes block.hostBytes
      generalize publishBlock s.arena block bytes block.hostBytes = out at hpublish
      obtain ⟨published, a⟩ := out
      cases published with
      | none => rfl
      | some published =>
        obtain ⟨block', token, entry⟩ := published
        obtain ⟨-, -, hblock⟩ := hpublish
        have hfree : s.cover slot = none := by
          unfold cover
          rw [takeBlockSlot_free hslot]
          rfl
        have hrecord : ({ s with arena := a }.record slot block' token entry).cover =
            Function.update s.cover slot (some (eip, block'.guestLen, block'.entry.getD 0)) := by
          rw [record_cover, hblock, hguest]
          rfl
        refine ⟨by rw [hblock]; exact hlen, slot, hfree, ?_⟩
        dsimp only
        split_ifs
        · rw [shareAModule_cover, hrecord]
        · exact hrecord

/-- A round of an invalidation. -/
def dropMeeting (lo hi : U32) (s : Storage cap σ M) (i : Fin cap) : Storage cap σ M :=
  match s.blocks i with
  | none => s
  | some b => if b.meets lo hi then s.dropBlock i else s

theorem invalidate_cover (s : Storage cap σ M) (lo hi : U32) (slot : Fin cap) :
    ((s.invalidate lo hi).cover slot = s.cover slot ∨ (s.invalidate lo hi).cover slot = none) ∧
      ∀ b, s.blocks slot = some b → b.meets lo hi = false →
        (s.invalidate lo hi).cover slot = s.cover slot := by
  have hloop : ∀ (slots : List (Fin cap)) (s : Storage cap σ M),
      let out := slots.foldl (dropMeeting lo hi) s
      (out.blocks slot = s.blocks slot ∨ out.blocks slot = none) ∧
        ∀ b, s.blocks slot = some b → b.meets lo hi = false → out.blocks slot = s.blocks slot := by
    intro slots
    induction slots with
    | nil => exact fun s => ⟨Or.inl rfl, fun _ _ _ => rfl⟩
    | cons i slots ih =>
      intro s
      dsimp only
      rw [List.foldl_cons, dropMeeting]
      cases hb : s.blocks i with
      | none => exact ih s
      | some b =>
        dsimp only
        split_ifs with hmeets
        · obtain ⟨hkept, hstays⟩ := ih (s.dropBlock i)
          rw [dropBlock_blocks] at hkept hstays
          by_cases hi : slot = i
          · subst hi
            rw [Function.update_self] at hkept
            refine ⟨Or.inr (hkept.elim id id), fun c hc hnot => ?_⟩
            rw [hb] at hc
            cases hc
            rw [hmeets] at hnot
            cases hnot
          · rw [Function.update_of_ne hi] at hkept hstays
            exact ⟨hkept, hstays⟩
        · exact ih s
  unfold invalidate
  split_ifs
  · exact ⟨Or.inl rfl, fun _ _ _ => rfl⟩
  · obtain ⟨hkept, hstays⟩ := hloop (List.finRange cap) s
    unfold cover
    refine ⟨hkept.imp (congrArg _) (congrArg _), fun b hb hnot => congrArg _ (hstays b hb hnot)⟩

end Storage

/-! ## The cache of an engine -/

section Engine

variable {cap : Nat} {σ I E S M κ ω : Type} {view : κ → U32 → Option CachedBlock}
  {m : Machine κ (Storage cap σ M) ω WasmReads} {F : Families I E S M}

/-- Every entry of the cache that ends below `2 ^ 32` has a record that covers the same bytes with
the same entry. -/
structure CacheBacked (view : κ → U32 → Option CachedBlock) (e : Engine κ (Storage cap σ M)) :
    Prop where
  accounted : Storage.Accounted e.storage
  lengths : ∀ slot guest len entry, e.storage.cover slot = some (guest, len, entry) → 0 < len.toNat
  backed : ∀ guest b, view e.cache guest = some b → guest.toNat + b.guestLen.toNat < 2 ^ 32 →
    ∃ slot, e.storage.cover slot = some (guest, b.guestLen, b.exec)

/-- Fewer entries over the same records. -/
theorem CacheBacked.shrink {e e' : Engine κ (Storage cap σ M)} (h : CacheBacked view e)
    (hstorage : e'.storage = e.storage)
    (hcache : ∀ guest b, view e'.cache guest = some b → view e.cache guest = some b) :
    CacheBacked view e' where
  accounted := hstorage ▸ h.accounted
  lengths := hstorage ▸ h.lengths
  backed := fun guest b hb hend => by
    rw [hstorage]
    exact h.backed guest b (hcache guest b hb) hend

theorem invalidate_parts (e : Engine κ (Storage cap σ M)) (lo hi : U32) :
    (e.invalidate m lo hi).storage = m.storage.invalidate e.storage lo hi ∧
      (e.invalidate m lo hi).cache = (m.cache.invalidateRange e.cache lo hi).2 := by
  unfold Engine.invalidate Engine.dropRange
  dsimp only
  split_ifs <;> exact ⟨rfl, rfl⟩

theorem forgetAll_view (hlaw : m.cache.Lawful view) (told : List (U32 × U32)) :
    ∀ (e : Engine κ (Storage cap σ M)) (guest : U32) (b : CachedBlock),
      view (told.foldl (Engine.forgetEvicted m) e).cache guest = some b →
      view e.cache guest = some b ∧ ∀ range ∈ told, ¬ b.Meets guest range.1 range.2 := by
  induction told with
  | nil => exact fun e guest b h => ⟨h, fun range hr => by cases hr⟩
  | cons first told ih =>
    intro e guest b h
    obtain ⟨hcache, hrest⟩ := ih (e.forgetEvicted m first) guest b h
    obtain ⟨hkept, hfirst⟩ := (hlaw.range e.cache first.1 first.2).1 guest b hcache
    refine ⟨hkept, fun range hr => ?_⟩
    rcases List.mem_cons.mp hr with rfl | hr
    · exact hfirst
    · exact hrest range hr

section Lawful

variable (hlaw : m.cache.Lawful view) (hm : m.storage = engineStorage F cap σ)

include hlaw hm

theorem invalidate_backed {e : Engine κ (Storage cap σ M)} (h : CacheBacked view e) (lo hi : U32) :
    CacheBacked view (e.invalidate m lo hi) := by
  obtain ⟨hstorage, hcache⟩ := invalidate_parts (m := m) e lo hi
  rw [hm] at hstorage
  have hstorage : (e.invalidate m lo hi).storage = e.storage.invalidate lo hi := hstorage
  refine ⟨?_, ?_, ?_⟩
  · rw [hstorage]
    exact Storage.invalidate_accounted h.accounted lo hi
  · intro slot guest len entry hcover
    rw [hstorage] at hcover
    rcases (e.storage.invalidate_cover lo hi slot).1 with hsame | hnone
    · exact h.lengths slot guest len entry (hsame ▸ hcover)
    · rw [hnone] at hcover
      cases hcover
  · intro guest b hb hend
    rw [hcache] at hb
    obtain ⟨hkept, hmeets⟩ := (hlaw.range e.cache lo hi).1 guest b hb
    obtain ⟨slot, hcover⟩ := h.backed guest b hkept hend
    refine ⟨slot, ?_⟩
    rw [hstorage]
    obtain ⟨r, hr, hparts⟩ := Option.map_eq_some_iff.mp hcover
    obtain ⟨hguest, hlen, -⟩ : r.guest = guest ∧ r.guestLen = b.guestLen ∧ r.entry = b.exec := by
      simpa using hparts
    rw [(e.storage.invalidate_cover lo hi slot).2 r hr, hcover]
    unfold StoredBlock.meets
    rw [hguest, hlen, ← Bool.not_eq_true, Bool.and_eq_true, decide_eq_true_eq, decide_eq_true_eq]
    exact hmeets

theorem invalidateAll_backed {e : Engine κ (Storage cap σ M)} (h : CacheBacked view e) :
    CacheBacked view (e.invalidateAll m).2 := by
  unfold Engine.invalidateAll
  dsimp only
  split_ifs with hcount
  · exact h.shrink rfl fun guest b hb => hlaw.flush e.cache guest b hb
  · have hreset : m.storage.reset e.storage = e.storage.reset := by
      rw [hm]
      rfl
    refine ⟨?_, ?_, ?_⟩
    · dsimp only
      rw [hreset]
      exact Storage.reset_accounted h.accounted
    · intro slot guest len entry hcover
      dsimp only at hcover
      rw [hreset] at hcover
      cases hcover
    · intro guest b hb
      have hnone := hlaw.count _ (not_not.mp hcount)
      dsimp only at hb
      rw [hnone] at hb
      cases hb

/-- The entries of the records told of are forgotten; a record that goes untold ends at `2 ^ 32` or
behind. -/
theorem evictOnce_backed {e : Engine κ (Storage cap σ M)} (h : CacheBacked view e)
    (limit : StorageRoom) : CacheBacked view (e.evictOnce m limit).2 := by
  have hstorage := Engine.evictOnce_storage (m := m) e limit
  rw [hm] at hstorage
  have hstorage : (e.evictOnce m limit).2.storage = (e.storage.evict true).2.2 := hstorage
  have hcache : (e.evictOnce m limit).2.cache =
      (((e.storage.evict true).2.1.filterMap Storage.EvictEvent.range?).foldl
        (Engine.forgetEvicted m) { e with storage := (e.storage.evict true).2.2 }).cache := by
    unfold Engine.evictOnce
    rw [hm]
    dsimp only [engineStorage]
    split_ifs <;> rfl
  refine ⟨?_, ?_, ?_⟩
  · rw [hstorage]
    exact Storage.evict_accounted h.accounted true
  · intro slot guest len entry hcover
    rw [hstorage] at hcover
    unfold Storage.cover at hcover
    rcases e.storage.evict_blocks true slot with hsame | hnone
    · rw [hsame] at hcover
      exact h.lengths slot guest len entry hcover
    · rw [hnone] at hcover
      cases hcover
  · intro guest b hb hend
    rw [hcache] at hb
    obtain ⟨hkept, htold⟩ := forgetAll_view hlaw _ _ guest b hb
    obtain ⟨slot, hcover⟩ := h.backed guest b hkept hend
    refine ⟨slot, ?_⟩
    rw [hstorage]
    obtain ⟨r, hr, hparts⟩ := Option.map_eq_some_iff.mp hcover
    obtain ⟨hguest, hlen, -⟩ : r.guest = guest ∧ r.guestLen = b.guestLen ∧ r.entry = b.exec := by
      simpa using hparts
    rcases e.storage.evict_blocks true slot with hsame | hnone
    · unfold Storage.cover
      rw [hsame]
      exact hcover
    · exfalso
      have hpos := h.lengths slot guest b.guestLen b.exec hcover
      obtain ⟨before, after, hevents, -, hiff⟩ :=
        e.storage.evict_dropped hr (by rw [hlen]; exact hpos) hnone
      rw [hguest, hlen] at hiff
      obtain ⟨lo, hi, hmem, hlo, hhi⟩ := hiff.mpr hend
      rw [hguest] at hlo hhi
      refine htold (lo, hi) ?_ ⟨hhi, ?_⟩
      · refine List.mem_filterMap.mpr ⟨.told slot lo hi, ?_, rfl⟩
        rw [hevents]
        exact List.mem_append_left _ hmem
      · dsimp only
        bv_omega

omit hm in
/-- A published block put in the cache over its record. -/
theorem cacheBlock_backed (slot : Fin cap) {e : Engine κ (Storage cap σ M)} (h : CacheBacked view e)
    {eip : U32} {block : JitBlock} {exec : Nat}
    (hcover : e.storage.cover slot = some (eip, block.guestLen, exec))
    (hall : ∀ e : Engine κ (Storage cap σ M), CacheBacked view e →
      CacheBacked view (e.invalidateAll m).2)
    (w : ω) : CacheBacked view (e.cacheBlock m w eip block exec).2 := by
  have hinsert := hlaw.insert e.cache eip exec block.guestLen
  unfold Engine.cacheBlock
  generalize m.cache.insert e.cache eip exec block.guestLen = inserted at hinsert
  obtain ⟨ok, cache⟩ := inserted
  cases ok with
  | false =>
    have hsame : CacheBacked view { e with cache := cache } := by
      refine h.shrink rfl fun guest b hb => ?_
      rw [if_neg Bool.false_ne_true] at hinsert
      rw [← hinsert]
      exact hb
    have hflush := hall _ hsame
    dsimp only
    generalize Engine.invalidateAll m { e with cache := cache } = flushed at hflush
    obtain ⟨done, e'⟩ := flushed
    cases done <;> exact hflush
  | true =>
    obtain ⟨guarded, hview⟩ := hinsert
    -- whether the new entry is guarded does not matter
    have hentry : ∀ cache', (∀ guest b, view cache' guest = some b →
        ∃ b', view cache guest = some b' ∧ b'.guestLen = b.guestLen ∧ b'.exec = b.exec) →
        ∀ guest b, view cache' guest = some b →
        guest.toNat + b.guestLen.toNat < 2 ^ 32 →
        ∃ slot, e.storage.cover slot = some (guest, b.guestLen, b.exec) := by
      intro cache' hsame guest b hb hend
      obtain ⟨b', hb', hlen, hexec⟩ := hsame guest b hb
      rw [← hlen, ← hexec]
      rw [← hlen] at hend
      dsimp only at hview
      rw [hview] at hb'
      by_cases hguest : guest = eip
      · rw [hguest, Function.update_self] at hb'
        rw [← Option.some.inj hb', hguest]
        exact ⟨slot, hcover⟩
      · rw [Function.update_of_ne hguest] at hb'
        exact h.backed guest b' hb' hend
    dsimp only
    split_ifs
    · refine ⟨h.accounted, h.lengths, hentry _ fun guest b hb => ?_⟩
      dsimp only at hb
      rw [hlaw.guard] at hb
      by_cases hguest : guest = eip
      · rw [hguest, Function.update_self] at hb
        obtain ⟨b', hb', rfl⟩ := Option.map_eq_some_iff.mp hb
        exact ⟨b', by rw [hguest]; exact hb', rfl, rfl⟩
      · rw [Function.update_of_ne hguest] at hb
        exact ⟨b, hb, rfl, rfl⟩
    · exact ⟨h.accounted, h.lengths, hentry _ fun guest b hb => ⟨b, hb, rfl, rfl⟩⟩

theorem finishTranslate_backed (hF : F.Measured) {e : Engine κ (Storage cap σ M)}
    (h : CacheBacked view e) (w : ω) (eip : U32) (reads : WasmReads) (pool : Option (Nat × Nat)) :
    CacheBacked view (e.finishTranslate m w eip (m.storage.translate e.storage reads eip pool).1
      (m.storage.translate e.storage reads eip pool).2).2 := by
  have hcover := e.storage.translate_cover hF reads.fetch eip
    ⟨reads.boundary, pool.map fun p => ⟨p.1, p.2⟩, reads.leaf⟩ reads.alloc
  have haccounted := Storage.translate_accounted F h.accounted reads.fetch eip
    ⟨reads.boundary, pool.map fun p => ⟨p.1, p.2⟩, reads.leaf⟩ reads.alloc
  rw [hm]
  dsimp only [engineStorage]
  generalize e.storage.translate F reads.fetch eip
    ⟨reads.boundary, pool.map fun p => ⟨p.1, p.2⟩, reads.leaf⟩ reads.alloc = out
    at hcover haccounted
  obtain ⟨result, s⟩ := out
  unfold Engine.finishTranslate
  cases result with
  | error status =>
    refine ⟨haccounted, ?_, ?_⟩
    · intro slot guest len entry hs
      dsimp only at hs hcover
      rw [hcover] at hs
      exact h.lengths slot guest len entry hs
    · intro guest b hb hend
      obtain ⟨slot, hslot⟩ := h.backed guest b hb hend
      refine ⟨slot, ?_⟩
      dsimp only at hcover ⊢
      rw [hcover]
      exact hslot
  | ok block =>
    obtain ⟨hlen, slot, hfree, hs⟩ := hcover
    dsimp only at hs ⊢
    refine cacheBlock_backed hlaw slot ?_ ?_ (fun e he => invalidateAll_backed hlaw hm he) w
    · refine ⟨haccounted, ?_, ?_⟩
      · intro i guest len entry hi
        dsimp only at hi
        rw [hs] at hi
        by_cases hslot : i = slot
        · rw [hslot, Function.update_self] at hi
          cases hi
          exact hlen
        · rw [Function.update_of_ne hslot] at hi
          exact h.lengths i guest len entry hi
      · intro guest b hb hend
        obtain ⟨i, hi⟩ := h.backed guest b hb hend
        refine ⟨i, ?_⟩
        dsimp only
        rw [hs, Function.update_of_ne, hi]
        rintro rfl
        rw [hfree] at hi
        cases hi
    · dsimp only
      rw [hs, Function.update_self]

theorem keeps_backed (hF : F.Measured) : Keeps m view (CacheBacked view) where
  perform := fun e op h => by
    cases op with
    | invalidate lo hi => exact invalidate_backed hlaw hm h lo hi
    | invalidateAll => exact invalidateAll_backed hlaw hm h
  evict := fun e limit h => evictOnce_backed hlaw hm h limit
  translate := fun e w eip h => finishTranslate_backed hlaw hm hF h w eip _ _
  book := fun e e' hsame h => h.shrink hsame.storage fun guest b hb => by
    rw [← hsame.cache]
    exact hb

end Lawful

/-- The states in which an engine makes room: those it reaches, and those between the evictions and
flushes that follow. -/
inductive MakingRoom (m : Machine κ (Storage cap σ M) ω WasmReads)
    (start : Engine κ (Storage cap σ M)) : Engine κ (Storage cap σ M) → Prop
  | reached {e : Engine κ (Storage cap σ M)} (h : Reachable m start e) : MakingRoom m start e
  | evict {e : Engine κ (Storage cap σ M)} (limit : StorageRoom) (h : MakingRoom m start e) :
    MakingRoom m start (e.evictOnce m limit).2
  | flush {e : Engine κ (Storage cap σ M)} (h : MakingRoom m start e) :
    MakingRoom m start (e.invalidateAll m).2

/-- Blocks of at least a byte, in every run of a storage. -/
theorem run_lengths (hF : F.Measured) (ops : List Storage.Op) : ∀ {s : Storage cap σ M},
    (∀ slot guest len entry, s.cover slot = some (guest, len, entry) → 0 < len.toNat) →
    ∀ slot guest len entry, (Storage.run F s ops).cover slot = some (guest, len, entry) →
      0 < len.toNat := by
  induction ops with
  | nil => exact fun h => h
  | cons op ops ih =>
    intro s h
    refine ih (s := Storage.step F s op) ?_
    intro slot guest len entry hcover
    cases op with
    | translate fetch eip env alloc =>
      have hout := s.translate_cover hF fetch eip env alloc
      unfold Storage.step at hcover
      dsimp only at hcover
      generalize s.translate F fetch eip env alloc = out at hout hcover
      obtain ⟨result, s'⟩ := out
      cases result with
      | error status =>
        dsimp only at hout hcover
        rw [hout] at hcover
        exact h slot guest len entry hcover
      | ok block =>
        obtain ⟨hlen, new, -, hs⟩ := hout
        dsimp only at hs hcover
        rw [hs] at hcover
        by_cases hslot : slot = new
        · rw [hslot, Function.update_self] at hcover
          cases hcover
          exact hlen
        · rw [Function.update_of_ne hslot] at hcover
          exact h slot guest len entry hcover
    | evict drop =>
      unfold Storage.step Storage.cover at hcover
      dsimp only at hcover
      rcases s.evict_blocks drop slot with hsame | hnone
      · rw [hsame] at hcover
        exact h slot guest len entry hcover
      · rw [hnone] at hcover
        cases hcover
    | invalidate lo hi =>
      rcases (s.invalidate_cover lo hi slot).1 with hsame | hnone
      · exact h slot guest len entry (hsame ▸ hcover)
      · rw [show (Storage.step F s (.invalidate lo hi)).cover slot = none from hnone] at hcover
        cases hcover
    | reset => cases hcover

/-- Every record an eviction drops is told of before it and its module go exactly when its block
ends below `2 ^ 32`, and every entry of the cache that ends there has a record of a live module. -/
theorem evict_told_iff (hF : F.Measured) (hlaw : m.cache.Lawful view)
    (hm : m.storage = engineStorage F cap σ) {capacity : Nat} {host : Option (WasmHost σ M)}
    {user : σ} {storage : Storage cap σ M}
    (hstorage : Storage.create cap capacity host user = some storage) {cache : κ}
    (hcache : view cache = fun _ => none) (hostState : U32) :
    (∀ (ops : List Storage.Op) (slot : Fin cap) (b : StoredBlock cap),
      (Storage.run F storage ops).blocks slot = some b →
      ((Storage.run F storage ops).evict true).2.2.blocks slot = none →
      Storage.DroppedIn ((Storage.run F storage ops).evict true).2.1 slot b) ∧
    ∀ e, MakingRoom m (Engine.create m cache storage cap hostState) e →
      ∀ guest b, view e.cache guest = some b → guest.toNat + b.guestLen.toNat < 2 ^ 32 →
        ∃ slot r, e.storage.blocks slot = some r ∧ r.guest = guest ∧ r.guestLen = b.guestLen ∧
          r.entry = b.exec ∧ e.storage.arena.isLive r.token = true := by
  have hnone : ∀ slot, storage.cover slot = none := by
    intro slot
    unfold Storage.create at hstorage
    split_ifs at hstorage
    cases hstorage
    rfl
  have hlengths : ∀ slot guest len entry, storage.cover slot = some (guest, len, entry) →
      0 < len.toNat := by
    intro slot guest len entry h
    rw [hnone] at h
    cases h
  constructor
  · intro ops slot b hb hgone
    refine (Storage.run F storage ops).evict_dropped hb ?_ hgone
    refine run_lengths hF ops hlengths slot b.guest b.guestLen b.entry ?_
    unfold Storage.cover
    rw [hb]
    rfl
  · have hstart : CacheBacked view (Engine.create m cache storage cap hostState) := by
      refine ⟨Storage.create_accounted hstorage, hlengths, fun guest b hb => ?_⟩
      rw [show view (Engine.create m cache storage cap hostState).cache guest = none from
        congrFun hcache guest] at hb
      cases hb
    have hbacked : ∀ e, MakingRoom m (Engine.create m cache storage cap hostState) e →
        CacheBacked view e := by
      intro e he
      induction he with
      | reached h => exact (keeps_backed hlaw hm hF).reachable hlaw.lookupKeeps hstart h
      | evict limit _ ih => exact evictOnce_backed hlaw hm ih limit
      | flush _ ih => exact invalidateAll_backed hlaw hm ih
    intro e he guest b hb hend
    have h := hbacked e he
    obtain ⟨slot, hcover⟩ := h.backed guest b hb hend
    obtain ⟨r, hr, hparts⟩ := Option.map_eq_some_iff.mp hcover
    obtain ⟨hguest, hlen, hentry⟩ :
        r.guest = guest ∧ r.guestLen = b.guestLen ∧ r.entry = b.exec := by simpa using hparts
    exact ⟨slot, r, hr, hguest, hlen, hentry, h.accounted.kept.named slot r hr⟩

end Engine

/-! ## A block at the end of the address space -/

def retStorage : Storage 1 JsHost (List (List ShortOp)) :=
  (Storage.create 1 minModuleBytes (some (jsHost compileShort)) emptyHost).get rfl

def retMachine (at_ : U32) :
    Machine CacheList (Storage 1 JsHost (List (List ShortOp))) Unit WasmReads where
  cache := listCache 2
  storage := engineStorage shortFamilies 1 JsHost
  world := {
    hostState := fun _ => 0
    reads := fun _ => retReads at_
    runStop := none
    boundary := none
    intercept := none
    dispatch := none
    watch := fun w _ _ _ => w
    call := fun w _ _ eip => (⟨some .blockEnd, eip, ⟨0, 0, 0, 0⟩, 0, []⟩, w) }
  config := ⟨false, false, false, 0, 0, 0, 0xFFFFFFFFFFFFFFFF⟩

def retStart (at_ : U32) : Engine CacheList (Storage 1 JsHost (List (List ShortOp))) :=
  Engine.create (retMachine at_) [] retStorage 1 0

/-- The engine with the `ret` translated, about to enter it. -/
def retPrepared (at_ : U32) :
    Option (Prepared CacheList (Storage 1 JsHost (List (List ShortOp))) Unit) :=
  (retMachine at_).prepare ⟨0, false, 1⟩ (retStart at_) ⟨(), at_, 0, 0, ⟨0, 0⟩⟩

theorem retPrepared_reached {at_ : U32}
    {p : Prepared CacheList (Storage 1 JsHost (List (List ShortOp))) Unit}
    (h : retPrepared at_ = some p) : MakingRoom (retMachine at_) (retStart at_) p.engine :=
  .reached (.prepare (fun h => (by cases h)) .start h)

/-- The storage once the `ret` is translated. -/
def retRun (at_ : U32) : Storage 1 JsHost (List (List ShortOp)) :=
  Storage.run shortFamilies retStorage
    [.translate (retReads at_).fetch at_ ⟨(retReads at_).boundary, none, false⟩ true]

def retRecord (at_ : U32) : StoredBlock 1 := ⟨at_, 1, 0, 1, none, 0, none⟩

/-- What the cache and the storage hold of the `ret` once it is evicted. -/
def retEvicted (at_ : U32) : Option (Option CachedBlock × Option (StoredBlock 1) × Bool) :=
  (retPrepared at_).map fun p =>
    let e := (p.engine.evictOnce (retMachine at_) .outOfSlots).2
    (CacheList.find e.cache at_, e.storage.blocks 0, e.storage.arena.isLive 0)

/-- The record of a `ret` in the last byte goes untold, and the cache keeps its entry. -/
theorem last_byte_untold :
    (retRun 0xFFFFFFFF).blocks 0 = some (retRecord 0xFFFFFFFF) ∧
      ((retRun 0xFFFFFFFF).evict true).2.1 =
        [.dropped 0 (retRecord 0xFFFFFFFF), .released 0] ∧
      ∃ e, MakingRoom (retMachine 0xFFFFFFFF) (retStart 0xFFFFFFFF) e ∧
        CacheList.find e.cache 0xFFFFFFFF = some ⟨1, 1, false⟩ ∧
        e.storage.blocks 0 = none ∧ e.storage.arena.isLive 0 = false := by
  refine ⟨by decide +kernel, by decide +kernel, ?_⟩
  have hevicted : retEvicted 0xFFFFFFFF = some (some ⟨1, 1, false⟩, none, false) := by
    decide +kernel
  obtain ⟨p, hp, hparts⟩ := Option.map_eq_some_iff.mp hevicted
  obtain ⟨hcache, hrest⟩ := Prod.mk.inj hparts
  obtain ⟨hblocks, hlive⟩ := Prod.mk.inj hrest
  exact ⟨_, .evict .outOfSlots (retPrepared_reached hp), hcache, hblocks, hlive⟩

/-- A `ret` at an ordinary address is told of, and has a record until it goes. -/
theorem ret_told :
    Storage.DroppedIn ((retRun 0x1000).evict true).2.1 0 (retRecord 0x1000) ∧
      ∃ e, MakingRoom (retMachine 0x1000) (retStart 0x1000) e ∧
        CacheList.find e.cache 0x1000 = some ⟨1, 1, false⟩ ∧
        ∃ slot r, e.storage.blocks slot = some r ∧ r.guest = 0x1000 ∧ r.guestLen = 1 ∧
          r.entry = 1 ∧ e.storage.arena.isLive r.token = true := by
  obtain ⟨htold, hbacked⟩ := evict_told_iff (m := retMachine 0x1000) shortFamilies_measured
    (listCache_lawful 2) rfl (show Storage.create 1 minModuleBytes (some (jsHost compileShort))
      emptyHost = some retStorage from rfl) (show CacheList.find [] = fun _ => none from rfl) 0
  refine ⟨htold [.translate (retReads 0x1000).fetch 0x1000
    ⟨(retReads 0x1000).boundary, none, false⟩ true] 0 (retRecord 0x1000)
    (by decide +kernel) (by decide +kernel), ?_⟩
  have hcached : (retPrepared 0x1000).map (fun p => CacheList.find p.engine.cache 0x1000) =
      some (some ⟨1, 1, false⟩) := by decide +kernel
  obtain ⟨p, hp, hcache⟩ := Option.map_eq_some_iff.mp hcached
  exact ⟨p.engine, retPrepared_reached hp, hcache,
    hbacked p.engine (retPrepared_reached hp) 0x1000 ⟨1, 1, false⟩ hcache (by decide)⟩

end X86Port.Wasm
