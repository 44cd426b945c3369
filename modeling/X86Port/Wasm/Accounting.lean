import Mathlib.Algebra.Order.BigOperators.Group.Finset
import X86Port.Wasm.Storage

/-!
# The storage keeps its accounts

The block records, the module records and the arena slots are edited separately by every
operation of the storage; this is what they agree on between the edits.

* `Accounted`: the agreement.
* `dropBlock_accounted`, `record_accounted`, `rebookAll_accounted`: what each edit keeps.
* `storage_accounted`: the accounts hold after any run from a created storage.
-/

namespace X86Port.Wasm

open Jit

namespace Storage

variable {cap : Nat} {σ I E S M : Type}

/-- The records in use. -/
def liveRecords (s : Storage cap σ M) : Finset (Fin cap) :=
  Finset.univ.filter fun i => (s.blocks i).isSome = true

/-- The records that name a module. -/
def claimants (s : Storage cap σ M) (token : Fin cap) : Finset (Fin cap) :=
  Finset.univ.filter fun i => (s.blocks i).map StoredBlock.token = some token

/-- The bytes a module record counts for. -/
def StoredModule.held (m : StoredModule) : Nat := if 0 < m.blocks then m.bytes else 0

/-- The records, the modules, the arena and the counters agree. -/
structure Accounted (s : Storage cap σ M) : Prop where
  records : s.liveBlocks = s.liveRecords.card
  claims : ∀ t, (s.modules t).blocks = (s.claimants t).card
  held : ∀ t, 0 < (s.modules t).blocks ↔ s.arena.isLive t = true
  used : s.used = ∑ t, StoredModule.held (s.modules t)
  nodup : s.pending.Nodup
  pending : ∀ i ∈ s.pending, ∃ b, s.blocks i = some b ∧ (s.modules b.token).blocks = 1
  sound : s.underflowed = false

/-! ## One record written, one module written -/

theorem liveRecords_card (blocks : Fin cap → Option (StoredBlock cap)) (i : Fin cap)
    (b : Option (StoredBlock cap)) :
    (Finset.univ.filter fun x => (Function.update blocks i b x).isSome = true).card +
        (if (blocks i).isSome = true then 1 else 0) =
      (Finset.univ.filter fun x => (blocks x).isSome = true).card +
        (if b.isSome = true then 1 else 0) :=
  Lib.card_write (fun b => b.isSome = true) blocks i b

theorem claimants_card (blocks : Fin cap → Option (StoredBlock cap)) (i : Fin cap)
    (b : Option (StoredBlock cap)) (token : Fin cap) :
    (Finset.univ.filter fun x =>
          (Function.update blocks i b x).map StoredBlock.token = some token).card +
        (if (blocks i).map StoredBlock.token = some token then 1 else 0) =
      (Finset.univ.filter fun x => (blocks x).map StoredBlock.token = some token).card +
        (if b.map StoredBlock.token = some token then 1 else 0) :=
  Lib.card_write (fun b => b.map StoredBlock.token = some token) blocks i b

theorem held_sum (modules : Fin cap → StoredModule) (t : Fin cap) (m : StoredModule) :
    (∑ x, StoredModule.held (Function.update modules t m x)) + StoredModule.held (modules t) =
      (∑ x, StoredModule.held (modules x)) + StoredModule.held m :=
  Lib.sum_write StoredModule.held modules t m

theorem mem_claimants {s : Storage cap σ M} {t i : Fin cap} :
    i ∈ s.claimants t ↔ ∃ b, s.blocks i = some b ∧ b.token = t := by
  unfold claimants
  rw [Finset.mem_filter, Option.map_eq_some_iff]
  exact ⟨fun h => h.2, fun h => ⟨Finset.mem_univ i, h⟩⟩

/-- A record whose module has one claimant is the only one that names it. -/
theorem Accounted.sole {s : Storage cap σ M} (h : Accounted s) {i j : Fin cap}
    {b c : StoredBlock cap} (hi : s.blocks i = some b) (hone : (s.modules b.token).blocks = 1)
    (hj : s.blocks j = some c) (htoken : c.token = b.token) : j = i := by
  rw [h.claims] at hone
  obtain ⟨x, hx⟩ := Finset.card_eq_one.mp hone
  have hix : i ∈ s.claimants b.token := mem_claimants.mpr ⟨b, hi, rfl⟩
  have hjx : j ∈ s.claimants b.token := mem_claimants.mpr ⟨c, hj, htoken⟩
  rw [hx, Finset.mem_singleton] at hix hjx
  rw [hix, hjx]

/-- A live record's module is held. -/
theorem Accounted.claims_pos {s : Storage cap σ M} (h : Accounted s) {i : Fin cap}
    {b : StoredBlock cap} (hi : s.blocks i = some b) : 0 < (s.modules b.token).blocks := by
  rw [h.claims]
  exact Finset.card_pos.mpr ⟨i, mem_claimants.mpr ⟨b, hi, rfl⟩⟩

theorem Accounted.records_pos {s : Storage cap σ M} (h : Accounted s) {i : Fin cap}
    {b : StoredBlock cap} (hi : s.blocks i = some b) : 0 < s.liveBlocks := by
  rw [h.records]
  refine Finset.card_pos.mpr ⟨i, ?_⟩
  unfold liveRecords
  rw [Finset.mem_filter, hi]
  exact ⟨Finset.mem_univ i, rfl⟩

/-- What a module counts for is in use. -/
theorem Accounted.held_le {s : Storage cap σ M} (h : Accounted s) (t : Fin cap) :
    StoredModule.held (s.modules t) ≤ s.used := by
  rw [h.used]
  exact Finset.single_le_sum (fun x _ => Nat.zero_le (StoredModule.held (s.modules x)))
    (Finset.mem_univ t)

/-! ## Dropping a record -/

theorem forgetPending_eq (s : Storage cap σ M) (slot : Fin cap) :
    ∃ pending, s.forgetPending slot = { s with pending := pending } ∧
      (s.pending.Nodup → pending.Nodup) ∧
      (s.pending.Nodup → ∀ i ∈ pending, i ∈ s.pending ∧ i ≠ slot) := by
  unfold forgetPending
  cases hfind : s.pending.idxOf? slot with
  | none =>
    refine ⟨s.pending, rfl, id, fun _ i hi => ⟨hi, ?_⟩⟩
    rintro rfl
    rw [List.idxOf?_eq_none_iff] at hfind
    exact hfind hi
  | some k =>
    obtain ⟨hk, hget, -⟩ := List.idxOf?_eq_some_iff.mp hfind
    have hsplit : s.pending = s.pending.take k ++ slot :: s.pending.drop (k + 1) := by
      rw [← hget, ← List.drop_eq_getElem_cons hk, List.take_append_drop]
    have hperm := Lib.swapOut_perm (s.pending.take k) (s.pending.drop (k + 1)) slot slot
    rw [← hsplit, List.length_take_of_le (Nat.le_of_lt hk)] at hperm
    refine ⟨Lib.swapOut s.pending k slot, rfl, fun hnodup => ?_, fun hnodup i hi => ?_⟩
    · rw [hsplit, List.nodup_middle] at hnodup
      exact hperm.nodup_iff.mpr (List.nodup_cons.mp hnodup).2
    · rw [hsplit, List.nodup_middle] at hnodup
      have hi' := hperm.mem_iff.mp hi
      refine ⟨?_, ?_⟩
      · rw [hsplit, List.mem_append, List.mem_cons]
        rcases List.mem_append.mp hi' with h | h
        · exact Or.inl h
        · exact Or.inr (Or.inr h)
      · rintro rfl
        exact (List.nodup_cons.mp hnodup).1 hi'

/-- A record's claim on its module dropped: the record goes, and with the last claim the module
goes too. -/
theorem dropBlock_eq {s : Storage cap σ M} {slot : Fin cap} {b : StoredBlock cap}
    (hb : s.blocks slot = some b) (hpos : 0 < (s.modules b.token).blocks) :
    ∃ pending, (s.pending.Nodup → pending.Nodup) ∧
      (s.pending.Nodup → ∀ i ∈ pending, i ∈ s.pending ∧ i ≠ slot) ∧
      s.dropBlock slot =
        if (s.modules b.token).blocks = 1 then
          { s with
            pending := pending
            arena := s.arena.release b.token
            used := s.used - (s.modules b.token).bytes
            modules := Function.update s.modules b.token ⟨0, 0⟩
            blocks := Function.update s.blocks slot none
            liveBlocks := s.liveBlocks - 1
            underflowed := s.underflowed || decide (s.used < (s.modules b.token).bytes) ||
              decide (s.liveBlocks = 0) }
        else
          { s with
            pending := pending
            modules := Function.update s.modules b.token
              ⟨(s.modules b.token).bytes, (s.modules b.token).blocks - 1⟩
            blocks := Function.update s.blocks slot none
            liveBlocks := s.liveBlocks - 1
            underflowed := s.underflowed || decide (s.liveBlocks = 0) } := by
  obtain ⟨pending, hforget, hnodup, hmem⟩ := forgetPending_eq s slot
  refine ⟨pending, hnodup, hmem, ?_⟩
  unfold dropBlock
  rw [hb]
  dsimp only
  rw [hforget]
  unfold dropModule
  dsimp only
  rw [if_neg (by omega)]
  by_cases hone : (s.modules b.token).blocks = 1
  · rw [if_neg (by omega), if_pos hone]
    rfl
  · rw [if_pos (by omega), if_neg hone]
    rfl

/-- One record fewer. -/
theorem Accounted.records_erase {s : Storage cap σ M} (h : Accounted s) {slot : Fin cap}
    {b : StoredBlock cap} (hb : s.blocks slot = some b) :
    s.liveBlocks - 1 =
      (Finset.univ.filter fun x => (Function.update s.blocks slot none x).isSome = true).card := by
  have hcard := liveRecords_card s.blocks slot none
  have hrec := h.records
  unfold liveRecords at hrec
  rw [hb] at hcard
  simp only [Option.isSome_some, Option.isSome_none, if_true, if_false, Bool.false_eq_true]
    at hcard
  omega

/-- One claim fewer, on the module of the record. -/
theorem Accounted.claims_erase {s : Storage cap σ M} (h : Accounted s) {slot : Fin cap}
    {b : StoredBlock cap} (hb : s.blocks slot = some b) {m : StoredModule}
    (hm : m.blocks = (s.modules b.token).blocks - 1) (t : Fin cap) :
    (Function.update s.modules b.token m t).blocks =
      (Finset.univ.filter fun x =>
        (Function.update s.blocks slot none x).map StoredBlock.token = some t).card := by
  have hcard := claimants_card s.blocks slot none t
  have hcl := h.claims t
  unfold claimants at hcl
  rw [hb] at hcard
  simp only [Option.map_some, Option.some.injEq, Option.map_none, reduceCtorEq, if_false] at hcard
  by_cases ht : t = b.token
  · rw [if_pos ht.symm] at hcard
    rw [ht, Function.update_self, hm, ← ht]
    omega
  · rw [if_neg (fun h => ht h.symm)] at hcard
    rw [Function.update_of_ne ht]
    omega

/-- A pending record keeps its module to itself, so no other record's module is its module. -/
theorem Accounted.pending_erase {s : Storage cap σ M} (h : Accounted s) {slot : Fin cap}
    {b : StoredBlock cap} (hb : s.blocks slot = some b) (m : StoredModule) {i : Fin cap}
    (hi : i ∈ s.pending) (hne : i ≠ slot) :
    ∃ c, Function.update s.blocks slot none i = some c ∧
      (Function.update s.modules b.token m c.token).blocks = 1 := by
  obtain ⟨c, hc, hone⟩ := h.pending i hi
  have htoken : c.token ≠ b.token := fun htoken => hne (h.sole hc hone hb htoken.symm).symm
  refine ⟨c, ?_, ?_⟩
  · rw [Function.update_of_ne hne, hc]
  · rw [Function.update_of_ne htoken, hone]

theorem dropBlock_accounted {s : Storage cap σ M} (h : Accounted s) (slot : Fin cap) :
    Accounted (s.dropBlock slot) := by
  cases hb : s.blocks slot with
  | none =>
    have hsame : s.dropBlock slot = s := by
      unfold dropBlock
      rw [hb]
    rw [hsame]
    exact h
  | some b =>
    have hpos := h.claims_pos hb
    have hlive := h.records_pos hb
    obtain ⟨pending, hnodup, hmem, heq⟩ := dropBlock_eq hb hpos
    have hheld : StoredModule.held (s.modules b.token) = (s.modules b.token).bytes := if_pos hpos
    have hle := h.held_le b.token
    have hused := h.used
    have hpending : ∀ m : StoredModule, ∀ i ∈ pending, ∃ c,
        Function.update s.blocks slot none i = some c ∧
          (Function.update s.modules b.token m c.token).blocks = 1 := by
      intro m i hi
      obtain ⟨hi', hne⟩ := hmem h.nodup i hi
      exact h.pending_erase hb m hi' hne
    by_cases hone : (s.modules b.token).blocks = 1
    · rw [heq, if_pos hone]
      exact {
        records := h.records_erase hb
        claims := h.claims_erase hb (by rw [hone])
        held := by
          intro t
          dsimp only
          rw [Arena.release_isLive]
          by_cases ht : t = b.token
          · rw [ht, Function.update_self, Function.update_self]
            simp
          · rw [Function.update_of_ne ht, Function.update_of_ne ht]
            exact h.held t
        used := by
          have hsum := held_sum s.modules b.token ⟨0, 0⟩
          have hzero : StoredModule.held ⟨0, 0⟩ = 0 := rfl
          dsimp only
          omega
        nodup := hnodup h.nodup
        pending := hpending _
        sound := by
          dsimp only
          rw [h.sound, decide_eq_false (by omega), decide_eq_false (by omega)]
          rfl }
    · rw [heq, if_neg hone]
      exact {
        records := h.records_erase hb
        claims := h.claims_erase hb rfl
        held := by
          intro t
          dsimp only
          by_cases ht : t = b.token
          · have hheldAt := h.held b.token
            rw [ht, Function.update_self, ← hheldAt]
            dsimp only
            omega
          · rw [Function.update_of_ne ht]
            exact h.held t
        used := by
          have hsum := held_sum s.modules b.token
            ⟨(s.modules b.token).bytes, (s.modules b.token).blocks - 1⟩
          have hheld' : StoredModule.held
              ⟨(s.modules b.token).bytes, (s.modules b.token).blocks - 1⟩ =
                (s.modules b.token).bytes := if_pos (by dsimp only; omega)
          dsimp only
          omega
        nodup := hnodup h.nodup
        pending := hpending _
        sound := by
          dsimp only
          rw [h.sound, decide_eq_false (by omega)]
          rfl }

/-! ## Recording a published block -/

/-- The record of a block, its module held by it alone, and the slot pending while there is room
for it. -/
theorem record_eq {s : Storage cap σ M} (slot : Fin cap) (block : JitBlock) {token : Fin cap}
    (entry : Nat) (hzero : (s.modules token).blocks = 0) :
    ∃ pending, (pending = s.pending ∨ pending = s.pending ++ [slot]) ∧
      s.record slot block token entry = { s with
        blocks := Function.update s.blocks slot (some ⟨block.guestEip, block.guestLen, token, entry,
          block.chainFirstSlot, block.chainExits, block.leafSite⟩)
        liveBlocks := s.liveBlocks + 1
        used := s.used + block.hostBytes
        modules := Function.update s.modules token ⟨block.hostBytes, 1⟩
        pending := pending } := by
  have hhold : ∀ s' : Storage cap σ M, (s'.modules token).blocks = 0 →
      s'.holdModule token block.hostBytes =
        (s'.addUsed block.hostBytes).setModule token ⟨block.hostBytes, 1⟩ :=
    fun s' h => if_pos h
  unfold record
  dsimp only
  rw [hhold]
  · by_cases hroom : s.pending.length < compactBatch
    · exact ⟨_, Or.inr rfl, if_pos hroom⟩
    · exact ⟨_, Or.inl rfl, if_neg hroom⟩
  · exact hzero

theorem record_accounted {s : Storage cap σ M} (h : Accounted s) {a : Arena cap σ M}
    {slot token : Fin cap} (hslot : s.blocks slot = none) (hfree : s.arena.isLive token = false)
    (harena : a.isLive = Function.update s.arena.isLive token true) (block : JitBlock)
    (entry : Nat) : Accounted ({ s with arena := a }.record slot block token entry) := by
  have hzero : (s.modules token).blocks = 0 := by
    have hheld := h.held token
    rw [hfree] at hheld
    simpa using hheld
  have hnot : ∀ i ∈ s.pending, i ≠ slot := by
    rintro i hi rfl
    obtain ⟨b, hb, -⟩ := h.pending i hi
    rw [hslot] at hb
    cases hb
  obtain ⟨pending, hpending, heq⟩ :=
    record_eq (s := { s with arena := a }) slot block entry hzero
  rw [heq]
  dsimp only at hpending ⊢
  generalize hb : (⟨block.guestEip, block.guestLen, token, entry, block.chainFirstSlot,
    block.chainExits, block.leafSite⟩ : StoredBlock cap) = b
  have htoken : b.token = token := by rw [← hb]
  have hheldNew : StoredModule.held ⟨block.hostBytes, 1⟩ = block.hostBytes := rfl
  have hheldOld : StoredModule.held (s.modules token) = 0 := if_neg (by omega)
  exact {
    records := by
      have hcard := liveRecords_card s.blocks slot (some b)
      have hrec := h.records
      unfold liveRecords at hrec ⊢
      rw [hslot] at hcard
      simp only [Option.isSome_some, Option.isSome_none, if_true, if_false, Bool.false_eq_true]
        at hcard
      dsimp only
      omega
    claims := by
      intro t
      have hcard := claimants_card s.blocks slot (some b) t
      have hcl := h.claims t
      unfold claimants at hcl ⊢
      rw [hslot] at hcard
      simp only [Option.map_some, Option.some.injEq, Option.map_none, reduceCtorEq, if_false,
        htoken] at hcard
      dsimp only
      by_cases ht : t = token
      · rw [if_pos ht.symm] at hcard
        rw [ht] at hcl hcard
        rw [ht, Function.update_self]
        dsimp only
        omega
      · rw [if_neg (fun h => ht h.symm)] at hcard
        rw [Function.update_of_ne ht]
        omega
    held := by
      intro t
      dsimp only
      rw [harena]
      by_cases ht : t = token
      · rw [ht, Function.update_self, Function.update_self]
        simp
      · rw [Function.update_of_ne ht, Function.update_of_ne ht]
        exact h.held t
    used := by
      have hsum := held_sum s.modules token ⟨block.hostBytes, 1⟩
      have hused := h.used
      dsimp only
      omega
    nodup := by
      rcases hpending with rfl | rfl
      · exact h.nodup
      · exact List.nodup_append.mpr ⟨h.nodup, List.nodup_singleton slot, fun i hi j hj =>
          (List.mem_singleton.mp hj) ▸ hnot i hi⟩
    pending := by
      intro i hi
      dsimp only at hi ⊢
      by_cases his : i = slot
      · refine ⟨b, by rw [his, Function.update_self], ?_⟩
        rw [htoken, Function.update_self]
      · have hi' : i ∈ s.pending := by
          rcases hpending with rfl | rfl
          · exact hi
          · exact (List.mem_append.mp hi).resolve_right fun h => his (List.mem_singleton.mp h)
        obtain ⟨c, hc, hone⟩ := h.pending i hi'
        refine ⟨c, by rw [Function.update_of_ne his, hc], ?_⟩
        rw [Function.update_of_ne, hone]
        intro ht
        rw [ht, hzero] at hone
        cases hone
    sound := h.sound }

/-! ## Booking a batch onto one module -/

/-- Halfway through a batch: `moved` records name the new module `r`, which has no module record
yet, and the modules of those still to be moved are live in the books. -/
structure Rebooking (r : Fin cap) (live : Fin cap → Bool) (moved : Nat) (todo : List (Fin cap))
    (s : Storage cap σ M) : Prop where
  records : s.liveBlocks = s.liveRecords.card
  claims : ∀ t, t ≠ r → (s.modules t).blocks = (s.claimants t).card
  new : (s.modules r).blocks = 0 ∧ (s.claimants r).card = moved
  held : ∀ t, 0 < (s.modules t).blocks ↔ live t = true
  used : s.used = ∑ t, StoredModule.held (s.modules t)
  nodup : todo.Nodup
  pending : ∀ i ∈ todo, ∃ b, s.blocks i = some b ∧ b.token ≠ r ∧ (s.modules b.token).blocks = 1
  sound : s.underflowed = false

/-- One block of the batch is moved. -/
theorem Rebooking.step {r : Fin cap} {live : Fin cap → Bool} {moved : Nat} {i : Fin cap}
    {todo : List (Fin cap)} {s : Storage cap σ M} (h : Rebooking r live moved (i :: todo) s)
    {b : StoredBlock cap} (hb : s.blocks i = some b) :
    Rebooking r (Function.update live b.token false) (moved + 1) todo (rebook r s i) := by
  obtain ⟨b', hb', hne, hone⟩ := h.pending i List.mem_cons_self
  rw [hb] at hb'
  cases hb'
  obtain ⟨hnot, hnodup⟩ := List.nodup_cons.mp h.nodup
  have hsame : rebook r s i = { s with
      blocks := Function.update s.blocks i (some { b with token := r })
      modules := Function.update s.modules b.token ⟨0, 0⟩
      used := s.used - (s.modules b.token).bytes
      underflowed := s.underflowed || decide (s.used < (s.modules b.token).bytes) } := by
    unfold rebook
    rw [hb]
    dsimp only
    rw [if_pos hone]
    rfl
  have hheld : StoredModule.held (s.modules b.token) = (s.modules b.token).bytes :=
    if_pos (by omega)
  have hle : StoredModule.held (s.modules b.token) ≤ s.used := by
    rw [h.used]
    exact Finset.single_le_sum (fun x _ => Nat.zero_le (StoredModule.held (s.modules x)))
      (Finset.mem_univ b.token)
  have hclaim : ∀ t, (Finset.univ.filter fun x => (Function.update s.blocks i
      (some { b with token := r }) x).map StoredBlock.token = some t).card +
        (if b.token = t then 1 else 0) = (s.claimants t).card + if r = t then 1 else 0 := by
    intro t
    have hcard := claimants_card s.blocks i (some { b with token := r }) t
    rw [hb] at hcard
    unfold claimants
    simpa only [Option.map_some, Option.some.injEq] using hcard
  -- a block still to be moved keeps its module to itself
  have hother : ∀ j ∈ todo, ∃ c, s.blocks j = some c ∧ c.token ≠ r ∧ c.token ≠ b.token ∧ j ≠ i ∧
      (s.modules c.token).blocks = 1 := by
    intro j hj
    have hji : j ≠ i := fun h => hnot (h ▸ hj)
    obtain ⟨c, hc, hcr, hcone⟩ := h.pending j (List.mem_cons_of_mem _ hj)
    refine ⟨c, hc, hcr, fun htoken => hji ?_, hji, hcone⟩
    rw [h.claims _ hne] at hone
    obtain ⟨x, hx⟩ := Finset.card_eq_one.mp hone
    have hix : i ∈ s.claimants b.token := mem_claimants.mpr ⟨b, hb, rfl⟩
    have hjx : j ∈ s.claimants b.token := mem_claimants.mpr ⟨c, hc, htoken⟩
    rw [hx, Finset.mem_singleton] at hix hjx
    rw [hix, hjx]
  rw [hsame]
  exact {
    records := by
      have hcard := liveRecords_card s.blocks i (some { b with token := r })
      have hrec := h.records
      unfold liveRecords at hrec ⊢
      rw [hb] at hcard
      simp only [Option.isSome_some, if_true] at hcard
      dsimp only
      omega
    claims := by
      intro t ht
      have hcl := hclaim t
      have hold := h.claims t ht
      rw [if_neg (fun h : r = t => ht h.symm)] at hcl
      unfold claimants at hcl hold ⊢
      dsimp only
      by_cases htb : t = b.token
      · rw [if_pos htb.symm] at hcl
        rw [htb] at hcl hold ⊢
        rw [Function.update_self]
        dsimp only
        omega
      · rw [if_neg (fun h : b.token = t => htb h.symm)] at hcl
        rw [Function.update_of_ne htb]
        omega
    new := by
      have hcl := hclaim r
      rw [if_neg hne, if_pos rfl] at hcl
      refine ⟨?_, ?_⟩
      · dsimp only
        rw [Function.update_of_ne hne.symm]
        exact h.new.1
      · have hnew := h.new.2
        unfold claimants at hcl hnew ⊢
        dsimp only
        omega
    held := by
      intro t
      dsimp only
      by_cases ht : t = b.token
      · rw [ht, Function.update_self, Function.update_self]
        simp
      · rw [Function.update_of_ne ht, Function.update_of_ne ht]
        exact h.held t
    used := by
      have hsum := held_sum s.modules b.token ⟨0, 0⟩
      have hzero : StoredModule.held ⟨0, 0⟩ = 0 := rfl
      have hused := h.used
      dsimp only
      omega
    nodup := hnodup
    pending := by
      intro j hj
      obtain ⟨c, hc, hcr, hcb, hji, hcone⟩ := hother j hj
      refine ⟨c, ?_, hcr, ?_⟩
      · dsimp only
        rw [Function.update_of_ne hji, hc]
      · dsimp only
        rw [Function.update_of_ne hcb, hcone]
    sound := by
      dsimp only
      rw [h.sound, decide_eq_false (by omega)]
      rfl }

theorem rebook_blocks_of_ne {r : Fin cap} {s : Storage cap σ M} {i j : Fin cap} (hji : j ≠ i) :
    (rebook r s i).blocks j = s.blocks j := by
  unfold rebook
  cases s.blocks i with
  | none => rfl
  | some b =>
    dsimp only [setBlock]
    rw [Function.update_of_ne hji]
    split_ifs <;> rfl

/-- Every block of the batch is moved. -/
theorem Rebooking.run {r : Fin cap} (todo : List (Fin cap)) :
    ∀ {live : Fin cap → Bool} {moved : Nat} {s : Storage cap σ M},
      Rebooking r live moved todo s →
        Rebooking r (fun t => if t ∈ todo.filterMap fun i => (s.blocks i).map StoredBlock.token
          then false else live t) (moved + todo.length) [] (todo.foldl (rebook r) s) := by
  induction todo with
  | nil => exact fun h => h
  | cons i todo ih =>
    intro live moved s h
    obtain ⟨b, hb, -, -⟩ := h.pending i List.mem_cons_self
    have hrest := ih (h.step hb)
    have htokens : (todo.filterMap fun j => ((rebook r s i).blocks j).map StoredBlock.token) =
        todo.filterMap fun j => (s.blocks j).map StoredBlock.token := by
      refine List.filterMap_congr fun j hj => ?_
      rw [rebook_blocks_of_ne]
      rintro rfl
      exact (List.nodup_cons.mp h.nodup).1 hj
    rw [htokens] at hrest
    have hlive : (fun t => if t ∈ (i :: todo).filterMap fun j =>
        (s.blocks j).map StoredBlock.token then false else live t) = fun t =>
          if t ∈ todo.filterMap fun j => (s.blocks j).map StoredBlock.token then false
          else Function.update live b.token false t := by
      ext t
      rw [List.filterMap_cons_some (by rw [hb]; rfl)]
      by_cases ht : t = b.token
      · rw [if_pos (List.mem_cons.mpr (Or.inl ht)), ht, Function.update_self, ite_self]
      · rw [Function.update_of_ne ht]
        by_cases hmem : t ∈ todo.filterMap fun j => (s.blocks j).map StoredBlock.token
        · rw [if_pos (List.mem_cons_of_mem _ hmem), if_pos hmem]
        · rw [if_neg (fun h => (List.mem_cons.mp h).elim ht hmem), if_neg hmem]
    rw [hlive, List.length_cons, Nat.add_comm todo.length 1, ← Nat.add_assoc]
    exact hrest

theorem rebookAll_accounted {s : Storage cap σ M} (h : Accounted s) {a : Arena cap σ M}
    {r : CompactResult cap} (hfree : s.arena.isLive r.token = false)
    (hmoved : r.moved = s.pending.length) (hsome : s.pending ≠ [])
    (harena : ∀ t, a.isLive t =
      if t ∈ s.pending.filterMap fun i => (s.blocks i).map StoredBlock.token then false
      else if t = r.token then true else s.arena.isLive t) :
    Accounted ({ s with arena := a }.rebookAll r) := by
  have hzero : (s.modules r.token).blocks = 0 := by
    have hheld := h.held r.token
    rw [hfree] at hheld
    simpa using hheld
  have hnew : (s.claimants r.token).card = 0 := by rw [← h.claims, hzero]
  have hne : ∀ i b, s.blocks i = some b → b.token ≠ r.token := by
    intro i b hb htoken
    have hpos := h.claims_pos hb
    rw [htoken, hzero] at hpos
    exact Nat.lt_irrefl 0 hpos
  have hstart : Rebooking r.token s.arena.isLive 0 s.pending { s with arena := a } := {
    records := h.records
    claims := fun t _ => h.claims t
    new := ⟨hzero, hnew⟩
    held := h.held
    used := h.used
    nodup := h.nodup
    pending := by
      intro i hi
      obtain ⟨b, hb, hone⟩ := h.pending i hi
      exact ⟨b, hb, hne i b hb, hone⟩
    sound := h.sound }
  have hrun := Rebooking.run s.pending hstart
  have htake : s.pending.take r.moved = s.pending := by rw [hmoved, List.take_length]
  have hfold : ∀ (todo : List (Fin cap)) (s' : Storage cap σ M),
      (todo.foldl (rebook r.token) s').arena = s'.arena := by
    intro todo
    induction todo with
    | nil => exact fun _ => rfl
    | cons i todo ih =>
      intro s'
      refine (ih _).trans ?_
      unfold rebook
      cases s'.blocks i with
      | none => rfl
      | some b =>
        dsimp only [setBlock]
        split_ifs <;> rfl
  have hsame := hfold s.pending { s with arena := a }
  unfold rebookAll
  dsimp only
  rw [htake]
  generalize s.pending.foldl (rebook r.token) { s with arena := a } = s' at hrun hsame
  dsimp only at hsame hrun
  have hlen : 0 < s.pending.length := List.length_pos_of_ne_nil hsome
  have hheldNew : StoredModule.held ⟨r.bytes, r.moved⟩ = r.bytes :=
    if_pos (by dsimp only; omega)
  have hheldOld : StoredModule.held (s'.modules r.token) = 0 :=
    if_neg (by have := hrun.new.1; omega)
  exact {
    records := hrun.records
    claims := by
      intro t
      dsimp only [addUsed, setModule]
      by_cases ht : t = r.token
      · rw [ht, Function.update_self]
        dsimp only
        have hclaims := hrun.new.2
        rw [hmoved]
        unfold claimants at hclaims ⊢
        dsimp only
        omega
      · rw [Function.update_of_ne ht]
        exact hrun.claims t ht
    held := by
      intro t
      dsimp only [addUsed, setModule]
      rw [hsame, harena]
      by_cases ht : t = r.token
      · rw [ht, Function.update_self, if_neg, if_pos rfl]
        · dsimp only
          simp only [iff_true]
          omega
        · rw [List.mem_filterMap]
          rintro ⟨i, -, hi⟩
          obtain ⟨b, hb, htoken⟩ := Option.map_eq_some_iff.mp hi
          exact hne i b hb htoken
      · rw [Function.update_of_ne ht, if_neg ht]
        exact hrun.held t
    used := by
      have hsum := held_sum s'.modules r.token ⟨r.bytes, r.moved⟩
      have hused := hrun.used
      dsimp only [addUsed, setModule]
      omega
    nodup := List.nodup_nil
    pending := fun i hi => by cases hi
    sound := hrun.sound }

theorem shareAModule_accounted (F : Families I E S M) {s : Storage cap σ M} (h : Accounted s)
    (fetch : Fetch) (env : TranslateEnv) (alloc : Bool) :
    Accounted (s.shareAModule F fetch env alloc) := by
  unfold shareAModule
  split_ifs with hstop halloc
  · exact h
  · exact ⟨h.records, h.claims, h.held, h.used, h.nodup, h.pending, h.sound⟩
  · have hlive := compact_isLive F s.arena fetch (compactBatch * maxModuleBytes) env
      (s.pending.filterMap fun i => (s.blocks i).map StoredBlock.compacting)
    have hlength : (s.pending.filterMap fun i => (s.blocks i).map StoredBlock.compacting).length =
        s.pending.length := by
      refine List.filterMap_length_eq_length.mpr fun i hi => ?_
      obtain ⟨b, hb, -⟩ := h.pending i hi
      rw [hb]
      rfl
    have htokens : (s.pending.filterMap fun i =>
        (s.blocks i).map StoredBlock.compacting).map CompactBlock.token =
          s.pending.filterMap fun i => (s.blocks i).map StoredBlock.token := by
      rw [List.map_filterMap]
      refine List.filterMap_congr fun i _ => ?_
      rw [Option.map_map]
      rfl
    dsimp only
    generalize compact F s.arena fetch (compactBatch * maxModuleBytes) env
      (s.pending.filterMap fun i => (s.blocks i).map StoredBlock.compacting) = out at hlive
    obtain ⟨result, a⟩ := out
    cases result with
    | error why =>
      dsimp only at hlive ⊢
      refine ⟨h.records, h.claims, fun t => ?_, h.used, List.nodup_nil,
        fun i hi => absurd hi List.not_mem_nil, h.sound⟩
      dsimp only
      rw [hlive]
      exact h.held t
    | ok r =>
      obtain ⟨hfree, hmoved, harena⟩ := hlive
      rw [htokens] at harena
      rw [hlength] at hmoved
      have hsome : s.pending ≠ [] := by
        intro hnil
        rw [hnil] at hstop
        simp at hstop
      have hbatch : Accounted { s with batch := true } :=
        ⟨h.records, h.claims, h.held, h.used, h.nodup, h.pending, h.sound⟩
      exact rebookAll_accounted hbatch hfree hmoved hsome harena

/-! ## The operations -/

theorem moduleToEmpty_eq (scans : Nat) : ∀ s : Storage cap σ M, ∃ next,
    (s.moduleToEmpty scans).2 = { s with nextVictim := next } ∧
      ∀ token, (s.moduleToEmpty scans).1 = some token → 0 < (s.modules token).blocks := by
  induction scans with
  | zero => exact fun s => ⟨s.nextVictim, rfl, fun _ h => by cases h⟩
  | succ scans ih =>
    intro s
    unfold moduleToEmpty
    dsimp only
    by_cases hheld : (s.modules s.nextVictim).blocks > 0
    · rw [if_pos hheld]
      refine ⟨_, rfl, fun token h => ?_⟩
      cases h
      exact hheld
    · rw [if_neg hheld]
      obtain ⟨next, hnext, hpos⟩ := ih { s with
        nextVictim := ⟨(s.nextVictim.val + 1) % cap, Nat.mod_lt _ s.nextVictim.pos⟩ }
      exact ⟨next, hnext, hpos⟩

theorem evictLoop_accounted (drop : Bool) (token : Fin cap) (slots : List (Fin cap)) :
    ∀ {s : Storage cap σ M}, Accounted s → Accounted (evictLoop drop token slots s).2 := by
  induction slots with
  | nil => exact fun h => h
  | cons slot slots ih =>
    intro s h
    unfold evictLoop
    split_ifs with hempty
    · exact h
    · cases hb : s.blocks slot with
      | none => exact ih h
      | some b =>
        dsimp only
        split_ifs with hother
        · exact ih h
        · exact ih (dropBlock_accounted h slot)

theorem evict_accounted {s : Storage cap σ M} (h : Accounted s) (drop : Bool) :
    Accounted (s.evict drop).2.2 := by
  obtain ⟨next, hnext, -⟩ := moduleToEmpty_eq cap s
  have hs : Accounted (s.moduleToEmpty cap).2 := by
    rw [hnext]
    exact ⟨h.records, h.claims, h.held, h.used, h.nodup, h.pending, h.sound⟩
  unfold evict
  generalize s.moduleToEmpty cap = out at hs
  obtain ⟨victim, s'⟩ := out
  cases victim with
  | none => exact hs
  | some token => exact evictLoop_accounted drop token _ hs

theorem invalidate_accounted {s : Storage cap σ M} (h : Accounted s) (lo hi : U32) :
    Accounted (s.invalidate lo hi) := by
  unfold invalidate
  split_ifs with hempty
  · exact h
  · generalize List.finRange cap = slots
    induction slots generalizing s with
    | nil => exact h
    | cons slot slots ih =>
      refine ih ?_
      dsimp only
      cases s.blocks slot with
      | none => exact h
      | some b =>
        dsimp only
        split_ifs with hmeets
        · exact dropBlock_accounted h slot
        · exact h

theorem held_zero : (∑ _t : Fin cap, StoredModule.held ⟨0, 0⟩) = 0 := Finset.sum_const_zero

theorem reset_accounted {s : Storage cap σ M} (h : Accounted s) : Accounted s.reset where
  records := by
    unfold liveRecords reset
    simp
  claims := by
    intro t
    unfold claimants reset
    simp
  held := by
    intro t
    unfold reset
    dsimp only
    rw [Arena.releaseAll_isLive]
    simp
  used := held_zero.symm
  nodup := List.nodup_nil
  pending := fun _ hi => absurd hi List.not_mem_nil
  sound := h.sound

theorem create_accounted {capacity : Nat} {host : Option (WasmHost σ M)} {user : σ}
    {s : Storage cap σ M} (h : create cap capacity host user = some s) : Accounted s := by
  unfold create at h
  split_ifs at h with hcap
  cases h
  exact {
    records := by
      unfold liveRecords
      simp
    claims := by
      intro t
      unfold claimants
      simp
    held := by
      intro t
      unfold Arena.isLive Arena.init
      simp
    used := held_zero.symm
    nodup := List.nodup_nil
    pending := fun _ hi => absurd hi List.not_mem_nil
    sound := rfl }

theorem takeBlockSlot_free {s : Storage cap σ M} {slot : Fin cap}
    (h : s.takeBlockSlot = some slot) : s.blocks slot = none := by
  have hfound := List.find?_some h
  simpa using hfound

theorem translate_accounted (F : Families I E S M) {s : Storage cap σ M} (h : Accounted s)
    (fetch : Fetch) (eip : U32) (env : TranslateEnv) (alloc : Bool) :
    Accounted (s.translate F fetch eip env alloc).2 := by
  unfold translate
  dsimp only
  cases hslot : s.takeBlockSlot with
  | none => exact h
  | some slot =>
    dsimp only
    generalize translateBounded F fetch eip (min (sizeSub s.byteBudget s.used) maxModuleBytes)
      env.boundary env.chain ⟨env.leaf, false, none⟩ = result
    cases result with
    | error status => exact h
    | ok lowered =>
      obtain ⟨block, bytes⟩ := lowered
      dsimp only
      have hpublish := publishBlock_isLive s.arena block bytes block.hostBytes
      generalize publishBlock s.arena block bytes block.hostBytes = out at hpublish
      obtain ⟨published, a⟩ := out
      cases published with
      | none =>
        refine ⟨h.records, h.claims, fun t => ?_, h.used, h.nodup, h.pending, h.sound⟩
        dsimp only at hpublish ⊢
        rw [hpublish]
        exact h.held t
      | some published =>
        obtain ⟨block', token, entry⟩ := published
        obtain ⟨hfree, hlive, -⟩ := hpublish
        have hrecord := record_accounted h (takeBlockSlot_free hslot) hfree hlive block' entry
        dsimp only
        split_ifs with hfull
        · exact shareAModule_accounted F hrecord fetch env alloc
        · exact hrecord

/-! ## Runs -/

/-- What is asked of a storage. -/
inductive Op where
  | translate (fetch : Fetch) (eip : U32) (env : TranslateEnv) (alloc : Bool)
  | evict (drop : Bool)
  | invalidate (lo hi : U32)
  | reset

def step (F : Families I E S M) (s : Storage cap σ M) : Op → Storage cap σ M
  | .translate fetch eip env alloc => (s.translate F fetch eip env alloc).2
  | .evict drop => (s.evict drop).2.2
  | .invalidate lo hi => s.invalidate lo hi
  | .reset => s.reset

def run (F : Families I E S M) (s : Storage cap σ M) (ops : List Op) : Storage cap σ M :=
  ops.foldl (step F) s

theorem step_accounted (F : Families I E S M) {s : Storage cap σ M} (h : Accounted s) (op : Op) :
    Accounted (step F s op) := by
  cases op with
  | translate fetch eip env alloc => exact translate_accounted F h fetch eip env alloc
  | evict drop => exact evict_accounted h drop
  | invalidate lo hi => exact invalidate_accounted h lo hi
  | reset => exact reset_accounted h

theorem run_accounted (F : Families I E S M) (ops : List Op) :
    ∀ {s : Storage cap σ M}, Accounted s → Accounted (run F s ops) := by
  induction ops with
  | nil => exact fun h => h
  | cons op ops ih => exact fun h => ih (step_accounted F h op)

/-- What the accounts mean for the modules: no module goes while a record names it, none stays
without one, and a pending record is the only one of its module. -/
structure Kept (s : Storage cap σ M) : Prop where
  named : ∀ i b, s.blocks i = some b → s.arena.isLive b.token = true
  needed : ∀ t, s.arena.isLive t = true → ∃ i b, s.blocks i = some b ∧ b.token = t
  alone : ∀ i ∈ s.pending, ∃ b, s.blocks i = some b ∧
    ∀ j c, s.blocks j = some c → c.token = b.token → j = i

theorem Accounted.kept {s : Storage cap σ M} (h : Accounted s) : Kept s where
  named := fun _ b hb => (h.held b.token).mp (h.claims_pos hb)
  needed := by
    intro t ht
    have hpos := (h.held t).mpr ht
    rw [h.claims] at hpos
    obtain ⟨i, hi⟩ := Finset.card_pos.mp hpos
    obtain ⟨b, hb, htoken⟩ := mem_claimants.mp hi
    exact ⟨i, b, hb, htoken⟩
  alone := by
    intro i hi
    obtain ⟨b, hb, hone⟩ := h.pending i hi
    exact ⟨b, hb, fun j c hc htoken => h.sole hb hone hc htoken⟩

/-- In every state a created storage reaches, its accounts agree, no counter was ever lowered by
more than it held, and the modules live exactly as long as records name them. -/
theorem storage_accounted (F : Families I E S M) (cap capacity : Nat)
    (host : Option (WasmHost σ M)) (user : σ) (ops : List Op) :
    match create cap capacity host user with
    | none => cap = 0
    | some s => Accounted (run F s ops) ∧ Kept (run F s ops) := by
  cases hcreate : create cap capacity host user with
  | none =>
    unfold create at hcreate
    split_ifs at hcreate with hcap
    omega
  | some s =>
    have haccounted := run_accounted F ops (create_accounted hcreate)
    exact ⟨haccounted, haccounted.kept⟩

end Storage

end X86Port.Wasm
