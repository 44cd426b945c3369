import X86Port.Jit.Reach

/-!
# Making room

`evict_for_room`: evictions free bytes until they do not, and a flush clears what they cannot.

* `BlockStorage.Bounded`: what the loop relies on in a storage.
* `evictForRoom_isSome`: the loop ends.
* `evictForRoom_ends`, `evictForRoom_slots`: what it ends with.
-/

namespace X86Port.Jit

/-- The operations keep an invariant of the storage, under which a reset makes room. -/
structure BlockStorage.Bounded {τ μ : Type} (storage : BlockStorage τ μ) (Inv : τ → Prop) :
    Prop where
  evict : ∀ s, Inv s → Inv (storage.evict s).2.2
  reset : ∀ s, Inv s → Inv (storage.reset s)
  invalidate : ∀ s lo hi, Inv s → Inv (storage.invalidate s lo hi)
  translate : ∀ s reads eip pool, Inv s → Inv (storage.translate s reads eip pool).2
  room : ∀ s, Inv s → storage.room (storage.reset s) = .room

namespace Engine

variable {κ τ ω μ : Type} {m : Machine κ τ ω μ}

/-! ## The storage of an engine -/

theorem forgetAll_storage (told : List (U32 × U32)) :
    ∀ e : Engine κ τ, (told.foldl (forgetEvicted m) e).storage = e.storage := by
  induction told with
  | nil => exact fun _ => rfl
  | cons range told ih => exact fun e => ih _

theorem evictOnce_storage (e : Engine κ τ) (limit : StorageRoom) :
    (e.evictOnce m limit).2.storage = (m.storage.evict e.storage).2.2 := by
  unfold evictOnce
  dsimp only
  split_ifs
  · exact forgetAll_storage _ _
  · exact forgetAll_storage _ _

theorem invalidateAll_storage (e : Engine κ τ) : (e.invalidateAll m).2.storage =
    if (e.invalidateAll m).1 then m.storage.reset e.storage else e.storage := by
  unfold invalidateAll
  by_cases h : m.cache.count (m.cache.flush e.cache) ≠ 0
  · rw [if_pos h]
    rfl
  · rw [if_neg h]
    rfl

/-- The cache has been flushed and still counts a block. -/
structure StillCached (m : Machine κ τ ω μ) (e : Engine κ τ) : Prop where
  flushed : ∃ cache, e.cache = m.cache.flush cache
  counted : m.cache.count e.cache ≠ 0

theorem invalidateAll_false {e e' : Engine κ τ} (h : e.invalidateAll m = (false, e')) :
    StillCached m e' := by
  unfold invalidateAll at h
  dsimp only at h
  split_ifs at h with hcount
  · cases h
    exact ⟨⟨e.cache, rfl⟩, hcount⟩
  · cases h

section Bounded

variable {Inv : τ → Prop} (hst : m.storage.Bounded Inv)

include hst

theorem invalidateAll_inv {e : Engine κ τ} (he : Inv e.storage) :
    Inv (e.invalidateAll m).2.storage := by
  rw [invalidateAll_storage]
  split_ifs
  · exact hst.reset _ he
  · exact he

theorem evictOnce_inv {e : Engine κ τ} (he : Inv e.storage) (limit : StorageRoom) :
    Inv (e.evictOnce m limit).2.storage := by
  rw [evictOnce_storage]
  exact hst.evict _ he

theorem perform_inv {e : Engine κ τ} (he : Inv e.storage) (op : EngineOp) :
    Inv (e.perform m op).storage := by
  cases op with
  | invalidate lo hi =>
    unfold perform invalidate dropRange
    dsimp only
    split_ifs
    · exact hst.invalidate _ _ _ he
    · exact hst.invalidate _ _ _ he
  | invalidateAll => exact invalidateAll_inv hst he

/-! ## The loop ends -/

/-- Room is found at once behind a flush. -/
theorem evictLoop_flushed {e e' : Engine κ τ} (he : Inv e.storage)
    (h : e.invalidateAll m = (true, e')) (tests : Nat) :
    e'.evictLoop m tests = some (true, e') := by
  have hstorage := invalidateAll_storage (m := m) e
  rw [h, if_pos rfl] at hstorage
  unfold evictLoop
  rw [hstorage, hst.room _ he]

/-- By induction on the tests left: an eviction that is tried again has freed a byte, and there
are no more of them than bytes used. -/
theorem evictLoop_isSome (tests : Nat) : ∀ {e : Engine κ τ}, Inv e.storage →
    m.storage.used e.storage < tests → (e.evictLoop m tests).isSome := by
  induction tests with
  | zero => exact fun _ h => absurd h (Nat.not_lt_zero _)
  | succ tests ih =>
    intro e he hused
    have honce := evictOnce_inv hst he (m.storage.room e.storage)
    unfold evictLoop
    generalize m.storage.room e.storage = limit at honce
    split
    · rfl
    · dsimp only
      split_ifs with hagain
      · have hless := of_decide_eq_true (Bool.and_eq_true _ _ ▸ hagain).2
        exact ih honce (by omega)
      · split
        · rfl
        · rename_i flushed hflushed
          rw [evictLoop_flushed hst honce hflushed]
          rfl

theorem evictForRoom_isSome {e : Engine κ τ} (he : Inv e.storage) :
    (e.evictForRoom m).isSome := by
  unfold evictForRoom
  split_ifs
  · split
    · rfl
    · rename_i flushed hflushed
      rw [evictLoop_flushed hst he hflushed]
      rfl
  · exact evictLoop_isSome hst _ he (by omega)

/-! ## Every part keeps the invariant -/

theorem finishTranslate_inv {e : Engine κ τ} (w : ω) (eip : U32)
    (out : Translated) {storage : τ} (hs : Inv storage) :
    Inv (e.finishTranslate m w eip out storage).2.storage := by
  unfold finishTranslate
  split
  · exact hs
  · rename_i block exec _
    unfold cacheBlock
    dsimp only
    generalize m.cache.insert e.cache eip exec block.guestLen = inserted
    obtain ⟨ok, cache⟩ := inserted
    cases ok with
    | false =>
      have hall := invalidateAll_inv hst (e := { e with
        cache := cache
        storage := storage
        links := e.links.map (claimSlots out.claims)
        leafSites := e.leafSites + out.leafClaims }) hs
      dsimp only
      generalize invalidateAll m _ = flushed at hall ⊢
      obtain ⟨ok, e'⟩ := flushed
      cases ok <;> exact hall
    | true =>
      dsimp only
      split_ifs <;> exact hs

/-- An engine keeps the invariant of its storage, whatever its cache holds. -/
theorem keeps_inv : Keeps m (fun _ _ => none) fun e => Inv e.storage where
  perform := fun e op he => perform_inv hst he op
  evict := fun e limit he => evictOnce_inv hst he limit
  translate := fun e w eip he => finishTranslate_inv hst w eip _ (hst.translate _ _ _ _ he)
  book := fun e e' h he => by rwa [h.storage]

end Bounded

/-! ## What it ends with -/

/-- The slot table has slots for one block. -/
def Slotted (m : Machine κ τ ω μ) (e : Engine κ τ) : Prop :=
  ∀ c, e.links = some c → m.config.slotsPerBlock ≤ c.capacity

/-- Whatever is dropped, no slot is claimed. -/
def NoneClaimed (m : Machine κ τ ω μ) (e e' : Engine κ τ) : Prop :=
  Slotted m e → Slotted m e' ∧ (slotsSpent m e = false → slotsSpent m e' = false)

theorem NoneClaimed.refl (e : Engine κ τ) : NoneClaimed m e e := fun he => ⟨he, id⟩

theorem NoneClaimed.trans {e e' e'' : Engine κ τ} (h : NoneClaimed m e e')
    (h' : NoneClaimed m e' e'') : NoneClaimed m e e'' :=
  fun he => ⟨(h' (h he).1).1, fun hs => (h' (h he).1).2 ((h he).2 hs)⟩

theorem noneClaimed_of_links {e e' : Engine κ τ}
    (h : e'.links.map (fun c => (c.claimed, c.capacity)) =
      e.links.map fun c => (c.claimed, c.capacity)) : NoneClaimed m e e' := by
  unfold NoneClaimed Slotted slotsSpent
  cases hlinks : e.links with
  | none =>
    rw [hlinks, Option.map_none, Option.map_eq_none_iff] at h
    rw [h]
    exact fun he => ⟨he, id⟩
  | some c =>
    rw [hlinks, Option.map_some, Option.map_eq_some_iff] at h
    obtain ⟨c', hc', hsame⟩ := h
    have hclaimed : c'.claimed = c.claimed := congrArg Prod.fst hsame
    have hcapacity : c'.capacity = c.capacity := congrArg Prod.snd hsame
    rw [hc']
    intro he
    refine ⟨fun d hd => ?_, fun hs => ?_⟩
    · cases hd
      rw [hcapacity]
      exact he c rfl
    · dsimp only
      rw [hclaimed, hcapacity]
      exact hs

theorem links_unlinkAll (links : Option (Chain Nat)) :
    (links.map Chain.unlinkAll).map (fun c => (c.claimed, c.capacity)) =
      links.map fun c => (c.claimed, c.capacity) := by
  rw [Option.map_map]
  rfl

theorem evictOnce_slots (e : Engine κ τ) (limit : StorageRoom) :
    NoneClaimed m e (e.evictOnce m limit).2 := by
  have hforget : ∀ (e : Engine κ τ) range, NoneClaimed m e (e.forgetEvicted m range) :=
    fun e _ => noneClaimed_of_links (links_unlinkAll e.links)
  have htold := forgetAll_rel NoneClaimed.refl NoneClaimed.trans hforget
    (m.storage.evict e.storage).2.1 { e with storage := (m.storage.evict e.storage).2.2 }
  unfold evictOnce
  dsimp only
  split_ifs
  · exact htold.trans (noneClaimed_of_links rfl)
  · exact htold

/-- A flush returns every slot. -/
theorem invalidateAll_slots (e : Engine κ τ) (he : Slotted m e) :
    Slotted m (e.invalidateAll m).2 ∧ slotsSpent m (e.invalidateAll m).2 = false := by
  have hlinks : (e.invalidateAll m).2.links = e.links.map Chain.reset := by
    unfold invalidateAll
    dsimp only
    split_ifs <;> rfl
  unfold Slotted slotsSpent
  rw [hlinks]
  cases hc : e.links with
  | none => exact ⟨fun c h => (by cases h), rfl⟩
  | some c =>
    have hfits := he c hc
    refine ⟨fun d hd => ?_, decide_eq_false ?_⟩
    · cases hd
      exact hfits
    · have hzero : c.reset.claimed = 0 := rfl
      have hsame : c.reset.capacity = c.capacity := rfl
      rw [hzero, hsame]
      omega

theorem evictForRoom_slots {e e' : Engine κ τ} (he : Slotted m e)
    (h : e.evictForRoom m = some (true, e')) : slotsSpent m e' = false := by
  have hloop : ∀ {tests : Nat} {e : Engine κ τ}, Slotted m e → slotsSpent m e = false →
      e.evictLoop m tests = some (true, e') → slotsSpent m e' = false := by
    intro tests e he hs hl
    exact (evictLoop_rel (R := NoneClaimed m) NoneClaimed.refl NoneClaimed.trans
      (fun e he => ⟨(invalidateAll_slots e he).1, fun _ => (invalidateAll_slots e he).2⟩)
      evictOnce_slots tests hl he).2 hs
  unfold evictForRoom at h
  split_ifs at h with hspent
  · obtain ⟨hslotted, hnone⟩ := invalidateAll_slots e he
    split at h
    · cases h
    · rename_i flushed hflushed
      rw [hflushed] at hslotted hnone
      exact hloop hslotted hnone h
  · exact hloop he (Bool.eq_false_of_not_eq_true hspent) h

theorem evictLoop_ends (tests : Nat) : ∀ {e e' : Engine κ τ} {ok : Bool},
    e.evictLoop m tests = some (ok, e') →
      (ok = true → m.storage.room e'.storage = .room) ∧
      (ok = false → StillCached m e') := by
  induction tests with
  | zero =>
    intro e e' ok h
    unfold evictLoop at h
    split at h
    · rename_i hroom
      cases h
      exact ⟨fun _ => hroom, fun h => (by cases h)⟩
    · cases h
  | succ tests ih =>
    intro e e' ok h
    unfold evictLoop at h
    split at h
    · rename_i hroom
      cases h
      exact ⟨fun _ => hroom, fun h => (by cases h)⟩
    · dsimp only at h
      split_ifs at h
      · exact ih h
      · split at h
        · rename_i flushed hflushed
          cases h
          exact ⟨fun h => (by cases h), fun _ => invalidateAll_false hflushed⟩
        · exact ih h

theorem evictForRoom_ends {e e' : Engine κ τ} {ok : Bool}
    (h : e.evictForRoom m = some (ok, e')) :
    (ok = true → m.storage.room e'.storage = .room) ∧
      (ok = false → StillCached m e') := by
  unfold evictForRoom at h
  split_ifs at h
  · split at h
    · rename_i flushed hflushed
      cases h
      exact ⟨fun h => (by cases h), fun _ => invalidateAll_false hflushed⟩
    · exact evictLoop_ends _ h
  · exact evictLoop_ends _ h

/-! ## Slots of every reachable engine -/

theorem slotted_of_capacity {e e' : Engine κ τ}
    (h : e'.links.map Chain.capacity = e.links.map Chain.capacity) (he : Slotted m e) :
    Slotted m e' := by
  intro c' hc'
  rw [hc', Option.map_some] at h
  obtain ⟨c, hc, hcapacity⟩ := Option.map_eq_some_iff.mp h.symm
  rw [← hcapacity]
  exact he c hc

theorem claimSlots_capacity (n : Nat) : ∀ c : Chain Nat, (claimSlots n c).capacity = c.capacity := by
  induction n with
  | zero => exact fun _ => rfl
  | succ n ih =>
    intro c
    rw [claimSlots, ih]
    unfold Chain.claim
    split_ifs <;> rfl

theorem rewind_capacity (c : Chain Nat) (claimed : Nat) : (c.rewind claimed).capacity = c.capacity := by
  unfold Chain.rewind
  split_ifs <;> rfl

theorem map_capacity {f : Chain Nat → Chain Nat} (hf : ∀ c, (f c).capacity = c.capacity)
    (links : Option (Chain Nat)) :
    (links.map f).map Chain.capacity = links.map Chain.capacity := by
  rw [Option.map_map]
  exact congrArg (fun g => links.map g) (funext hf)

theorem finishTranslate_slotted {e : Engine κ τ} (he : Slotted m e) (w : ω) (eip : U32)
    (out : Translated) (storage : τ) :
    Slotted m (e.finishTranslate m w eip out storage).2 := by
  have hclaim := map_capacity (claimSlots_capacity out.claims) e.links
  unfold finishTranslate
  split
  · refine slotted_of_capacity (map_capacity (fun c => ?_) e.links) he
    rw [rewind_capacity, claimSlots_capacity]
  · rename_i block exec _
    unfold cacheBlock
    dsimp only
    generalize m.cache.insert e.cache eip exec block.guestLen = inserted
    obtain ⟨ok, cache⟩ := inserted
    cases ok with
    | false =>
      have hall := (invalidateAll_slots (m := m) { e with
        cache := cache
        storage := storage
        links := e.links.map (claimSlots out.claims)
        leafSites := e.leafSites + out.leafClaims } (slotted_of_capacity hclaim he)).1
      dsimp only
      generalize invalidateAll m _ = flushed at hall ⊢
      obtain ⟨ok, e'⟩ := flushed
      cases ok <;> exact hall
    | true =>
      dsimp only
      split_ifs <;> exact slotted_of_capacity hclaim he

theorem keeps_slotted : Keeps m (fun _ _ => none) (Slotted m) where
  perform := by
    intro e op he
    cases op with
    | invalidate lo hi =>
      unfold perform invalidate dropRange
      dsimp only
      split_ifs
      · exact he
      · have hunlinked : (e.links.map Chain.unlinkAll).map Chain.capacity =
            e.links.map Chain.capacity := by
          rw [Option.map_map]
          rfl
        exact slotted_of_capacity hunlinked he
    | invalidateAll => exact (invalidateAll_slots e he).1
  evict := fun e limit he => (evictOnce_slots e limit he).1
  translate := fun e w eip he => finishTranslate_slotted he w eip _ _
  book := by
    intro e e' h he
    have hlinks := congrArg (Option.map Prod.snd) h.links
    rw [Option.map_map, Option.map_map] at hlinks
    exact slotted_of_capacity hlinks he

end Engine

end X86Port.Jit
