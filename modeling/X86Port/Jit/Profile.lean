import Mathlib.Data.List.Sort
import X86Port.Jit.SlotTable

/-!
# The block profile

`jit_profile.c`: how often the engine entered each guest address.

* `hit_profiled`: one hit.
* `profile_counts`: what a profile says after any run of hits.
-/

namespace X86Port.Jit

structure JitProfile where
  keys : Nat → U32
  counts : Nat → U64
  mask : Nat
  capacity : Nat
  distinct : Nat
  total : U64
  dropped : U64

namespace JitProfile

/-- `x86p_jit_profile_create`, with its allocations granted. -/
def create (slotHint : U32) : JitProfile where
  keys := fun _ => emptySlot
  counts := fun _ => 0
  mask := slotsFor slotHint - 1
  capacity := slotsFor slotHint / 2
  distinct := 0
  total := 0
  dropped := 0

/-- `x86p_jit_profile_hit`; nothing for a search that does not end. -/
def hit (p : JitProfile) (guestEip : U32) : Option JitProfile :=
  let p := { p with total := p.total + 1 }
  if guestEip = emptySlot then some { p with dropped := p.dropped + 1 }
  else
    (searchSlot p.keys p.mask guestEip).map fun i =>
      if p.keys i = guestEip then
        if p.counts i ≠ uint64Max then
          { p with counts := Function.update p.counts i (p.counts i + 1) }
        else p
      else if p.distinct ≥ p.capacity then { p with dropped := p.dropped + 1 }
      else
        { p with
          keys := Function.update p.keys i guestEip
          counts := Function.update p.counts i 1
          distinct := p.distinct + 1 }

/-- The filled slots, in the order of the table. -/
def entries (p : JitProfile) : List (U32 × U64) :=
  (List.range (p.mask + 1)).filterMap fun i => (slotKey p.keys i).map fun k => (k, p.counts i)

end JitProfile

/-- `entry_desc`: more entries first, and the lower address first among equals. -/
def entryDesc (x y : U32 × U64) : Bool :=
  if x.2 < y.2 then false else if x.2 > y.2 then true else decide (x.1 ≤ y.1)

/-- `x86p_jit_profile_top`, with its allocation granted. -/
def JitProfile.top (p : JitProfile) (n : Nat) : List (U32 × U64) :=
  if n = 0 ∨ p.distinct = 0 then [] else (p.entries.mergeSort entryDesc).take n

/-- A count that stays at the largest value. -/
def saturated (n : Nat) : U64 := BitVec.ofNat 64 (min n (2 ^ 64 - 1))

theorem saturated_succ (n : Nat) :
    (if saturated n ≠ uint64Max then saturated n + 1 else saturated n) = saturated (n + 1) := by
  unfold saturated
  rcases Nat.lt_or_ge n (2 ^ 64 - 1) with h | h
  · rw [Nat.min_eq_left h.le, Nat.min_eq_left h, if_pos]
    · exact (BitVec.ofNat_add n 1).symm
    · intro heq
      have hn := congrArg BitVec.toNat heq
      rw [BitVec.toNat_ofNat, Nat.mod_eq_of_lt (by omega), toNat_uint64Max] at hn
      omega
  · rw [Nat.min_eq_right h, Nat.min_eq_right (by omega)]
    exact if_neg fun hne => hne rfl

/-! ## One hit -/

/-- What the table says after the hits. -/
structure Profiled (hits : List U32) (p : JitProfile) : Prop where
  kept : Slotted p.keys p.mask (admitted p.capacity hits)
  room : p.capacity < p.mask + 1
  counts : ∀ i < p.mask + 1, ∀ k, slotKey p.keys i = some k →
    p.counts i = saturated (hits.count k)
  distinct : p.distinct = (admitted p.capacity hits).length
  total : p.total = BitVec.ofNat 64 hits.length
  dropped : p.dropped = BitVec.ofNat 64 (hits.countP (· ∉ admitted p.capacity hits))

section

variable {p : JitProfile} {hits : List U32} {e k : U32} {i : Nat}

theorem ofNat_length_snoc (hits : List U32) (e : U32) :
    BitVec.ofNat 64 hits.length + 1 = BitVec.ofNat 64 (hits ++ [e]).length := by
  rw [List.length_append]
  exact (BitVec.ofNat_add _ _).symm

theorem ofNat_countP_snoc (held hits : List U32) (e : U32) :
    BitVec.ofNat 64 ((hits ++ [e]).countP (· ∉ held)) =
      BitVec.ofNat 64 (hits.countP (· ∉ held)) + if e ∈ held then 0 else 1 := by
  rw [List.countP_append, BitVec.ofNat_add, List.countP_singleton]
  by_cases he : e ∈ held
  · rw [if_pos he, if_neg (by simpa using he)]
    rfl
  · rw [if_neg he, if_pos (by simpa using he)]
    rfl

theorem count_snoc_of_ne (hits : List U32) (h : k ≠ e) : (hits ++ [e]).count k = hits.count k := by
  rw [List.count_append, List.count_singleton, if_neg (by simpa using h.symm), Nat.add_zero]

theorem count_snoc_self (hits : List U32) (e : U32) :
    (hits ++ [e]).count e = hits.count e + 1 := by
  rw [List.count_append, List.count_singleton_self]

theorem Profiled.held (h : Profiled hits p) (hi : i < p.mask + 1)
    (hk : slotKey p.keys i = some k) : k ∈ admitted p.capacity hits :=
  (h.kept.holds.mem k).mp ⟨i, hi, hk⟩

/-- A hit that lets no address in. -/
theorem Profiled.same (h : Profiled hits p)
    (hadmitted : e = emptySlot ∨ e ∈ admitted p.capacity hits ∨
      p.capacity ≤ (admitted p.capacity hits).length)
    {counts : Nat → U64} {dropped : U64}
    (hcounts : ∀ i < p.mask + 1, ∀ k, slotKey p.keys i = some k →
      counts i = saturated ((hits ++ [e]).count k))
    (hdropped : dropped = p.dropped + if e ∈ admitted p.capacity hits then 0 else 1) :
    Profiled (hits ++ [e])
      { p with counts := counts, total := p.total + 1, dropped := dropped } := by
  have hsame := admit_of_held hadmitted
  refine ⟨?_, h.room, hcounts, ?_, ?_, ?_⟩
  · exact hsame ▸ h.kept
  · exact hsame ▸ h.distinct
  · exact (congrArg (· + 1) h.total).trans (ofNat_length_snoc hits e)
  · change dropped = BitVec.ofNat 64 ((hits ++ [e]).countP (· ∉ admitted p.capacity (hits ++ [e])))
    rw [hsame, ofNat_countP_snoc, hdropped, h.dropped]

/-- A dropped hit. -/
theorem Profiled.drop (h : Profiled hits p) (hnot : e ∉ admitted p.capacity hits)
    (hadmitted : e = emptySlot ∨ p.capacity ≤ (admitted p.capacity hits).length) :
    Profiled (hits ++ [e]) { p with total := p.total + 1, dropped := p.dropped + 1 } := by
  refine h.same (hadmitted.imp_right .inr) (fun i hi k hk => ?_) (by rw [if_neg hnot])
  have hne : k ≠ e := by
    rintro rfl
    exact hnot (h.held hi hk)
  rw [count_snoc_of_ne hits hne]
  exact h.counts i hi k hk

/-- A hit on an address that the table holds. -/
theorem Profiled.again (h : Profiled hits p) (he : e ≠ emptySlot)
    (hheld : e ∈ admitted p.capacity hits) (hi : i < p.mask + 1) (hkey : p.keys i = e) :
    Profiled (hits ++ [e]) { p with
      counts := if p.counts i ≠ uint64Max then Function.update p.counts i (p.counts i + 1)
        else p.counts
      total := p.total + 1 } := by
  have hslot : slotKey p.keys i = some e := slotKey_eq_some.mpr ⟨hkey, he⟩
  have hcount : (if p.counts i ≠ uint64Max then Function.update p.counts i (p.counts i + 1)
      else p.counts) = Function.update p.counts i (saturated (hits.count e + 1)) := by
    rw [← saturated_succ, ← h.counts i hi e hslot]
    split_ifs
    · rfl
    · exact (Function.update_eq_self i p.counts).symm
  refine h.same (.inr (.inl hheld)) (fun j hj k hk => ?_) (by rw [if_pos hheld]; simp)
  rw [hcount]
  by_cases hji : j = i
  · subst hji
    obtain rfl := Option.some.inj (hslot.symm.trans hk)
    rw [Function.update_self, count_snoc_self]
  · have hne : k ≠ e := by
      rintro rfl
      exact hji (h.kept.unique hj hi hk hslot)
    rw [Function.update_of_ne hji, count_snoc_of_ne hits hne]
    exact h.counts j hj k hk

/-- A hit on a new address, with room for it. -/
theorem Profiled.admitSlot (h : Profiled hits p) (he : e ≠ emptySlot)
    (hnot : e ∉ admitted p.capacity hits) (hi : i < p.mask + 1)
    (hsearch : searchSlot p.keys p.mask e = some i) (hfree : p.keys i = emptySlot)
    (hroom : (admitted p.capacity hits).length < p.capacity) :
    Profiled (hits ++ [e]) { p with
      keys := Function.update p.keys i e
      counts := Function.update p.counts i 1
      distinct := p.distinct + 1
      total := p.total + 1 } := by
  have hnew : e ∉ hits := new_of_room he hnot hroom
  have hadmitted := admit_of_new he hnot hroom
  refine ⟨?_, h.room, fun j hj k hk => ?_, ?_, ?_, ?_⟩
  · exact hadmitted ▸ h.kept.insert hi hsearch hfree he
  · change slotKey (Function.update p.keys i e) j = some k at hk
    change Function.update p.counts i 1 j = _
    rw [slotKey_update he] at hk
    by_cases hji : j = i
    · subst hji
      rw [Function.update_self] at hk
      obtain rfl := Option.some.inj hk
      rw [Function.update_self, count_snoc_self, List.count_eq_zero_of_not_mem hnew]
      rfl
    · rw [Function.update_of_ne hji] at hk
      have hne : k ≠ e := by
        rintro rfl
        exact hnot (h.held hj hk)
      rw [Function.update_of_ne hji, count_snoc_of_ne hits hne]
      exact h.counts j hj k hk
  · change p.distinct + 1 = (admitted p.capacity (hits ++ [e])).length
    rw [hadmitted, List.length_append, h.distinct]
    rfl
  · exact (congrArg (· + 1) h.total).trans (ofNat_length_snoc hits e)
  · change p.dropped =
      BitVec.ofNat 64 ((hits ++ [e]).countP (· ∉ admitted p.capacity (hits ++ [e])))
    rw [hadmitted, ofNat_countP_snoc, if_pos (List.mem_append_right _ (List.mem_singleton_self e)),
      h.dropped]
    refine (congrArg (BitVec.ofNat 64) (List.countP_congr fun x hx => ?_)).trans
      (BitVec.add_zero _).symm
    have hne : x ≠ e := by
      rintro rfl
      exact hnew hx
    simp [hne]

/-- The search ends, and the record is of one hit more. -/
theorem hit_profiled (h : Profiled hits p) (e : U32) :
    ∃ p', p.hit e = some p' ∧ p'.capacity = p.capacity ∧ Profiled (hits ++ [e]) p' := by
  have hspec := admitted_spec p.capacity hits
  by_cases he : e = emptySlot
  · have hnot : e ∉ admitted p.capacity hits := fun hin => (hspec.2.1 e hin).1 he
    exact ⟨_, if_pos he, rfl, h.drop hnot (.inl he)⟩
  obtain ⟨i, hi, hsearch, hend⟩ := h.kept.search (hspec.2.2.1.trans_lt h.room) e
  have hhit : p.hit e = _ := (if_neg he).trans (congrArg (Option.map _) hsearch)
  rcases hend with ⟨hkey, hheld⟩ | ⟨hfree, hnot⟩
  · refine ⟨_, hhit.trans (congrArg some (if_pos hkey)), ?_, ?_⟩
    · split_ifs <;> rfl
    · have := h.again he hheld hi hkey
      split_ifs with hcount
      · rwa [if_pos hcount] at this
      · rwa [if_neg hcount] at this
  · have hne : ¬ p.keys i = e := fun heq => he (heq ▸ hfree)
    by_cases hfull : p.distinct ≥ p.capacity
    · refine ⟨_, hhit.trans (congrArg some ((if_neg hne).trans (if_pos hfull))), rfl, ?_⟩
      exact h.drop hnot (.inr (h.distinct ▸ hfull))
    · refine ⟨_, hhit.trans (congrArg some ((if_neg hne).trans (if_neg hfull))), rfl, ?_⟩
      rw [h.distinct] at hfull
      exact h.admitSlot he hnot hi hsearch hfree (by omega)

end

/-! ## Reading a profile -/

theorem entryDesc_iff (x y : U32 × U64) :
    entryDesc x y = true ↔ y.2 < x.2 ∨ x.2 = y.2 ∧ x.1 ≤ y.1 := by
  unfold entryDesc
  split_ifs with h h'
  · simp only [false_iff, not_or, not_and]
    exact ⟨by bv_omega, fun heq => by bv_omega⟩
  · exact iff_of_true rfl (.inl h')
  · rw [decide_eq_true_eq]
    have heq : x.2 = y.2 := by bv_omega
    exact ⟨fun hle => .inr ⟨heq, hle⟩, fun hor => hor.elim (fun hlt => absurd hlt h') And.right⟩

theorem entryDesc_trans (x y z : U32 × U64) (hxy : entryDesc x y = true)
    (hyz : entryDesc y z = true) : entryDesc x z = true := by
  rw [entryDesc_iff] at hxy hyz ⊢
  bv_omega

theorem entryDesc_total (x y : U32 × U64) : (entryDesc x y || entryDesc y x) = true := by
  rw [Bool.or_eq_true, entryDesc_iff, entryDesc_iff]
  bv_omega

theorem entryDesc_antisymm (x y : U32 × U64) (hxy : entryDesc x y = true)
    (hyx : entryDesc y x = true) : x = y := by
  rw [entryDesc_iff] at hxy hyx
  exact Prod.ext (by bv_omega) (by bv_omega)

/-- Lists of the same entries are sorted alike. -/
theorem mergeSort_congr {l m : List (U32 × U64)} (h : l.Perm m) :
    l.mergeSort entryDesc = m.mergeSort entryDesc :=
  (((List.mergeSort_perm l _).trans h).trans (List.mergeSort_perm m _).symm).eq_of_pairwise
    (fun x y _ _ => entryDesc_antisymm x y)
    (List.pairwise_mergeSort entryDesc_trans entryDesc_total l)
    (List.pairwise_mergeSort entryDesc_trans entryDesc_total m)

/-- Different entries are sorted by their counts, and by their addresses among equal counts. -/
theorem mergeSort_sorted {l : List (U32 × U64)} (h : l.Nodup) :
    (l.mergeSort entryDesc).Pairwise fun x y => y.2 < x.2 ∨ x.2 = y.2 ∧ x.1 < y.1 := by
  have hsorted := List.pairwise_mergeSort entryDesc_trans entryDesc_total l
  have hnodup := (List.mergeSort_perm l entryDesc).nodup_iff.mpr h
  refine (hsorted.and hnodup).imp fun {x y} hxy => ?_
  have hle := (entryDesc_iff x y).mp hxy.1
  refine hle.imp_right fun hcount => ⟨hcount.1, ?_⟩
  have hne : x.1 ≠ y.1 := fun heq => hxy.2 (Prod.ext heq hcount.1)
  bv_omega

section

variable {p : JitProfile} {hits : List U32}

theorem Profiled.entries_nodup (h : Profiled hits p) : p.entries.Nodup := by
  unfold JitProfile.entries
  rw [List.Nodup, List.pairwise_filterMap]
  refine List.Pairwise.imp_of_mem (fun {i j} hi hj hne x hx y hy => ?_) List.nodup_range
  obtain ⟨k, hk, rfl⟩ := Option.map_eq_some_iff.mp hx
  obtain ⟨k', hk', rfl⟩ := Option.map_eq_some_iff.mp hy
  intro heq
  obtain rfl := congrArg Prod.fst heq
  exact hne (h.kept.unique (List.mem_range.mp hi) (List.mem_range.mp hj) hk hk')

theorem Profiled.entries_perm (h : Profiled hits p) :
    p.entries.Perm
      ((admitted p.capacity hits).map fun k => (k, saturated (hits.count k))) := by
  refine (List.perm_ext_iff_of_nodup h.entries_nodup ?_).mpr fun x => ?_
  · exact (admitted_spec _ _).1.map fun a b hab => congrArg Prod.fst hab
  · unfold JitProfile.entries
    rw [List.mem_filterMap, List.mem_map]
    constructor
    · rintro ⟨i, hi, hx⟩
      obtain ⟨k, hk, rfl⟩ := Option.map_eq_some_iff.mp hx
      rw [List.mem_range] at hi
      exact ⟨k, h.held hi hk, by rw [h.counts i hi k hk]⟩
    · rintro ⟨k, hk, rfl⟩
      obtain ⟨i, hi, hkey⟩ := (h.kept.holds.mem k).mpr hk
      refine ⟨i, List.mem_range.mpr hi, ?_⟩
      rw [hkey, Option.map_some, h.counts i hi k hkey]

theorem Profiled.top_eq (h : Profiled hits p) (n : Nat) :
    p.top n = (((admitted p.capacity hits).map fun k =>
      (k, saturated (hits.count k))).mergeSort entryDesc).take n := by
  unfold JitProfile.top
  rw [mergeSort_congr h.entries_perm]
  split_ifs with hnone
  · rcases hnone with rfl | hnone
    · rw [List.take_zero]
    · rw [h.distinct, List.length_eq_zero_iff] at hnone
      rw [hnone, List.map_nil, List.mergeSort_nil, List.take_nil]
  · rfl

end

/-! ## A run of hits -/

theorem create_profiled (slotHint : U32) : Profiled [] (JitProfile.create slotHint) := by
  have hpos := slotsFor_pos slotHint
  refine ⟨slotted_empty slotHint, ?_, fun i _ k hk => ?_, rfl, rfl, rfl⟩
  · change slotsFor slotHint / 2 < slotsFor slotHint - 1 + 1
    omega
  · exact absurd (slotKey_eq_some.mp hk).1.symm (slotKey_eq_some.mp hk).2

/-- By an induction over the hits, with the last one behind the others. -/
theorem hits_profiled (slotHint : U32) (hits : List U32) :
    ∃ p, hits.foldlM JitProfile.hit (JitProfile.create slotHint) = some p ∧
      p.capacity = slotsFor slotHint / 2 ∧ Profiled hits p := by
  induction hits using List.reverseRecOn with
  | nil => exact ⟨_, rfl, rfl, create_profiled slotHint⟩
  | append_singleton hits e ih =>
    obtain ⟨p, hrun, hcapacity, hp⟩ := ih
    obtain ⟨p', hhit, hcapacity', hp'⟩ := hit_profiled hp e
    refine ⟨p', ?_, hcapacity'.trans hcapacity, hp'⟩
    rw [List.foldlM_append, hrun]
    exact (bind_pure _).trans hhit

/-- What a profile says after any run of hits. The addresses that it admitted stand sorted by their
counts, the larger ones first, and by the address among equal counts. -/
theorem profile_counts (slotHint : U32) (hits : List U32) :
    ∃ (p : JitProfile) (sorted : List (U32 × U64)),
      hits.foldlM JitProfile.hit (JitProfile.create slotHint) = some p ∧
      p.total = BitVec.ofNat 64 hits.length ∧
      p.distinct = (admitted (slotsFor slotHint / 2) hits).length ∧
      p.dropped =
        BitVec.ofNat 64 (hits.countP (· ∉ admitted (slotsFor slotHint / 2) hits)) ∧
      sorted.Perm ((admitted (slotsFor slotHint / 2) hits).map fun k =>
        (k, saturated (hits.count k))) ∧
      sorted.Pairwise (fun x y => y.2 < x.2 ∨ x.2 = y.2 ∧ x.1 < y.1) ∧
      ∀ n, p.top n = sorted.take n := by
  obtain ⟨p, hrun, hcapacity, hp⟩ := hits_profiled slotHint hits
  rw [← hcapacity]
  have hentries := (admitted_spec p.capacity hits).1.map
    (f := fun k => (k, saturated (hits.count k))) fun _ _ heq => congrArg Prod.fst heq
  exact ⟨p, _, hrun, hp.total, hp.distinct, hp.dropped, List.mergeSort_perm _ entryDesc,
    mergeSort_sorted hentries, hp.top_eq⟩

end X86Port.Jit
