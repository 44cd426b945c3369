import Mathlib.Data.List.GetD
import Mathlib.Tactic.SplitIfs
import X86Port.Memory.Sparse

/-!
# The sparse table as a map of addresses

The table of `memory_sparse.c` stands for a partial map from 32-bit guest addresses to a
host byte and a permission (`SparseMem.addressMap`). `WellFormed` is what every operation
keeps of the table; under it each operation does to the map exactly what its name says or
refuses and leaves the table alone.

* `upperBound_cut`: the binary search finds the cut of the table at an address.
* `wholeSpan_iff`: the walk of `whole_span` answers whether every byte is mapped.
* `mapAccess_spec`, `unmap_spec`, `changeRange_spec`: one operation on the table.
* `SparseOp.runAll_wellFormed` and `sparse_refines_addressMap`: every run of operations.
-/

namespace X86Port.Memory.SparseMem

open Lib Lib.RangeTable

/-- The table is sorted by guest address, its ranges are nonempty, pairwise disjoint and
end at or below `2 ^ 32`, and it fits its allocation. -/
structure WellFormed (s : SparseMem) : Prop where
  sorted : s.mappings.Pairwise fun m n => m.guest < n.guest
  nonempty : ∀ m ∈ s.mappings, m.size ≠ 0
  disjoint : s.mappings.Pairwise fun m n =>
    m.guest.toNat + m.size.toNat ≤ n.guest.toNat
  bounded : ∀ m ∈ s.mappings, m.guest.toNat + m.size.toNat ≤ 2 ^ 32
  fits : s.count ≤ s.capacity

theorem size_pos_iff {m : Mapping} : m.size ≠ 0 ↔ Ranged.start m < Ranged.stop m := by
  simp only [Ranged.start, Ranged.stop]
  bv_omega

theorem WellFormed.ordered {s : SparseMem} (h : s.WellFormed) : Ordered s.mappings :=
  ⟨fun m hm => size_pos_iff.mp (h.nonempty m hm), h.disjoint⟩

/-- Order and disjointness of the ranges give the rest of the table's shape. -/
theorem wellFormed_of_ordered {s : SparseMem} (h : Ordered s.mappings)
    (hb : ∀ m ∈ s.mappings, m.guest.toNat + m.size.toNat ≤ 2 ^ 32) (hf : s.count ≤ s.capacity) :
    s.WellFormed where
  sorted := h.start_lt_start.imp fun hlt => BitVec.lt_def.mpr hlt
  nonempty := fun m hm => size_pos_iff.mpr (h.nonempty m hm)
  disjoint := h.apart
  bounded := hb
  fits := hf

/-! ## The binary search -/

theorem upperBoundLoop_spec {ms : List Mapping} (hs : ms.Pairwise fun m n => m.guest < n.guest)
    (guest : U32) : ∀ (fuel lo hi : Nat), hi - lo ≤ fuel → lo ≤ hi → hi ≤ ms.length →
      (∀ i (hi : i < ms.length), i < lo → ms[i].guest ≤ guest) →
      (∀ i (h : i < ms.length), hi ≤ i → guest < ms[i].guest) →
      upperBoundLoop ms guest fuel lo hi ≤ ms.length ∧
      (∀ i (h : i < ms.length), i < upperBoundLoop ms guest fuel lo hi → ms[i].guest ≤ guest) ∧
      (∀ i (h : i < ms.length), upperBoundLoop ms guest fuel lo hi ≤ i → guest < ms[i].guest) := by
  intro fuel
  induction fuel with
  | zero =>
    intro lo hi hfuel hle hhi hbelow habove
    have he : lo = hi := by omega
    subst he
    exact ⟨hhi, hbelow, habove⟩
  | succ fuel ih =>
    intro lo hi hfuel hle hhi hbelow habove
    have hmono := List.pairwise_iff_getElem.mp hs
    unfold upperBoundLoop
    by_cases hlt : lo < hi
    · have hmid : lo + (hi - lo) / 2 < ms.length := by omega
      rw [if_pos hlt]
      simp only [List.getD_eq_getElem ms default hmid]
      split_ifs with hg
      · refine ih _ _ (by omega) (by omega) hhi ?_ habove
        intro i hi' hlo
        rcases Nat.lt_or_ge i (lo + (hi - lo) / 2) with h | h
        · have := hmono i _ hi' hmid h
          bv_omega
        · have he : i = lo + (hi - lo) / 2 := by omega
          subst he
          exact hg
      · refine ih _ _ (by omega) (by omega) (by omega) hbelow ?_
        intro i hi' hge
        rcases Nat.lt_or_ge (lo + (hi - lo) / 2) i with h | h
        · have := hmono _ i hmid hi' h
          bv_omega
        · have he : i = lo + (hi - lo) / 2 := by omega
          subst he
          bv_omega
    · rw [if_neg hlt]
      have he : lo = hi := by omega
      subst he
      exact ⟨hhi, hbelow, habove⟩

theorem upperBound_cut {s : SparseMem} (h : s.WellFormed) (guest : U32) :
    Cut s.mappings (s.upperBound guest) guest.toNat := by
  obtain ⟨hle, hbefore, hafter⟩ := upperBoundLoop_spec h.sorted guest s.count 0 s.count
    (Nat.sub_le _ _) (Nat.zero_le _) (Nat.le_refl _) (by intro i _ hi; omega)
    (by intro i hi hge; unfold count at hge; omega)
  refine ⟨hle, ?_, ?_⟩
  · intro m hm
    obtain ⟨i, hi, rfl⟩ := List.mem_iff_getElem.mp hm
    rw [List.getElem_take]
    rw [List.length_take] at hi
    exact BitVec.le_def.mp (hbefore i (by omega) (by unfold upperBound at hi; omega))
  · intro m hm
    obtain ⟨i, hi, rfl⟩ := List.mem_iff_getElem.mp hm
    rw [List.getElem_drop]
    rw [List.length_drop] at hi
    exact BitVec.lt_def.mp (hafter _ (by omega) (by unfold upperBound; omega))

/-- The predecessor of the cut is the only range that can cover the address. -/
theorem at?_upperBound {s : SparseMem} (h : s.WellFormed) {guest : U32}
    (hpos : s.upperBound guest ≠ 0) :
    at? s.mappings guest.toNat =
      if guest.toNat < Ranged.stop (s.mapping (s.upperBound guest - 1)) then
        some (s.mapping (s.upperBound guest - 1))
      else none := by
  have hcut := upperBound_cut h guest
  have hle := hcut.le_length
  rw [at?_of_cut h.ordered hcut]
  have hlast : (s.mappings.take (s.upperBound guest)).getLast? =
      some (s.mapping (s.upperBound guest - 1)) := by
    rw [List.getLast?_take, if_neg hpos]
    simp [mapping, List.getD, List.getElem?_eq_getElem (show s.upperBound guest - 1 <
      s.mappings.length by omega)]
  rw [hlast]
  by_cases hlt : guest.toNat < Ranged.stop (s.mapping (s.upperBound guest - 1)) <;>
    simp [Option.filter, hlt]

theorem at?_of_upperBound_zero {s : SparseMem} (h : s.WellFormed) {guest : U32}
    (hz : s.upperBound guest = 0) : at? s.mappings guest.toNat = none := by
  rw [at?_of_cut h.ordered (upperBound_cut h guest), hz]
  rfl

theorem mapping_guest_le {s : SparseMem} (h : s.WellFormed) {guest : U32}
    (hpos : s.upperBound guest ≠ 0) :
    s.mapping (s.upperBound guest - 1) ∈ s.mappings ∧
      (s.mapping (s.upperBound guest - 1)).guest ≤ guest := by
  have hcut := upperBound_cut h guest
  have hlt : s.upperBound guest - 1 < s.mappings.length := by
    have := hcut.le_length
    omega
  have hmem : s.mapping (s.upperBound guest - 1) ∈ s.mappings.take (s.upperBound guest) := by
    rw [mapping, List.getD_eq_getElem _ _ hlt]
    exact List.mem_take_iff_getElem.mpr ⟨s.upperBound guest - 1, by omega, rfl⟩
  exact ⟨List.mem_of_mem_take hmem, BitVec.le_def.mpr (hcut.before _ hmem)⟩

/-! ## Spans -/

theorem spanAccess_eq {s : SparseMem} (h : s.WellFormed) {guest max access : U32}
    (hmax : max ≠ 0) :
    s.spanAccess guest max access =
      match at? s.mappings guest.toNat with
      | none => Span.refused
      | some m =>
        if m.access &&& access = access then
          ⟨if m.size - (guest - m.guest) < max then m.size - (guest - m.guest) else max,
            m.host + (guest - m.guest).toNat⟩
        else Span.refused := by
  unfold spanAccess
  dsimp only
  by_cases hz : s.upperBound guest = 0
  · rw [at?_of_upperBound_zero h hz, if_pos (Or.inr hz)]
  · obtain ⟨-, hle⟩ := mapping_guest_le h hz
    rw [at?_upperBound h hz, if_neg (by simp only [not_or]; exact ⟨hmax, hz⟩)]
    generalize s.mapping (s.upperBound guest - 1) = m at hle
    by_cases hlt : guest.toNat < Ranged.stop m
    · have hoff : ¬ guest - m.guest ≥ m.size := by
        simp only [Ranged.stop] at hlt
        bv_omega
      rw [if_pos hlt]
      dsimp only
      by_cases ha : m.access &&& access = access
      · rw [if_neg (by simp only [not_or, not_not]; exact ⟨hoff, ha⟩), if_pos ha]
      · rw [if_pos (Or.inr ha), if_neg ha]
    · have hoff : guest - m.guest ≥ m.size := by
        simp only [Ranged.stop] at hlt
        bv_omega
      rw [if_neg hlt, if_pos (Or.inl hoff)]

/-- A covering range with the permission answers with at least one byte, and with no byte
beyond the range. -/
theorem spanAccess_of_covers {s : SparseMem} (h : s.WellFormed) {guest max access : U32}
    (hmax : max ≠ 0) {m : Mapping} (hm : at? s.mappings guest.toNat = some m)
    (ha : m.access &&& access = access) :
    0 < (s.spanAccess guest max access).length.toNat ∧
      (s.spanAccess guest max access).length ≤ max ∧
      guest.toNat + (s.spanAccess guest max access).length.toNat ≤ Ranged.stop m ∧
      (s.spanAccess guest max access).host = m.host + (guest.toNat - m.guest.toNat) := by
  obtain ⟨hmem, hle, hlt⟩ := at?_spec hm
  rw [spanAccess_eq h hmax, hm]
  simp only [Ranged.start, Ranged.stop, ha, if_true] at *
  split_ifs <;> refine ⟨?_, ?_, ?_, ?_⟩ <;> bv_omega

theorem spanAccess_length_eq_zero_iff {s : SparseMem} (h : s.WellFormed)
    {guest max access : U32} (hmax : max ≠ 0) :
    (s.spanAccess guest max access).length = 0 ↔
      ∀ m, at? s.mappings guest.toNat = some m → m.access &&& access ≠ access := by
  constructor
  · intro hz m hm ha
    have := (spanAccess_of_covers h hmax hm ha).1
    rw [hz] at this
    simp at this
  · intro hall
    rw [spanAccess_eq h hmax]
    cases hm : at? s.mappings guest.toNat with
    | none => rfl
    | some m => simp [hall m hm, Span.refused]

theorem wholeSpanLoop_iff {s : SparseMem} (h : s.WellFormed) {stop : Nat}
    (hstop : stop ≤ 2 ^ 32) : ∀ (fuel cursor : Nat), stop - cursor < fuel →
      stop - cursor < 2 ^ 32 →
      (s.wholeSpanLoop stop fuel cursor = true ↔
        ∀ x, cursor ≤ x → x < stop → at? s.mappings x ≠ none) := by
  intro fuel
  induction fuel with
  | zero =>
    intro cursor hfuel
    omega
  | succ fuel ih =>
    intro cursor hfuel hgap
    unfold wholeSpanLoop
    by_cases hlt : cursor < stop
    · have hcursor : (BitVec.ofNat 32 cursor).toNat = cursor := by
        rw [BitVec.toNat_ofNat]
        omega
      have hmax : BitVec.ofNat 32 (stop - cursor) ≠ 0 := by
        intro hz
        have := congrArg BitVec.toNat hz
        rw [BitVec.toNat_ofNat] at this
        simp only [BitVec.toNat_zero, BitVec.ofNat_eq_ofNat] at this
        omega
      have hzero := @spanAccess_length_eq_zero_iff s h (BitVec.ofNat 32 cursor) _ 0 hmax
      rw [hcursor] at hzero
      rw [if_pos hlt]
      cases hm : at? s.mappings cursor with
      | none =>
        have hz := hzero.mpr (by simp [hm])
        rw [if_pos hz]
        simp only [Bool.false_eq_true, false_iff]
        exact fun hall => hall cursor (Nat.le_refl _) hlt hm
      | some m =>
        have hspan := @spanAccess_of_covers s h (BitVec.ofNat 32 cursor) _ 0 hmax m
          (by rw [hcursor]; exact hm) (by simp)
        rw [hcursor] at hspan
        generalize (s.spanAccess (BitVec.ofNat 32 cursor) (BitVec.ofNat 32 (stop - cursor)) 0).length
          = n at hspan
        obtain ⟨hn0, hnmax, hnstop, -⟩ := hspan
        have hn : ¬ n = 0 := by
          rintro rfl
          simp at hn0
        have hnle : n.toNat ≤ stop - cursor := by
          have := BitVec.le_def.mp hnmax
          rw [BitVec.toNat_ofNat] at this
          omega
        rw [if_neg hn, ih _ (by omega) (by omega)]
        obtain ⟨hmem, hstart, -⟩ := at?_spec hm
        constructor
        · intro hall x hcx hxs
          rcases Nat.lt_or_ge x (cursor + n.toNat) with hx | hx
          · intro hnone
            exact at?_eq_none_iff.mp hnone m hmem ⟨by omega, by omega⟩
          · exact hall x hx hxs
        · intro hall x hcx hxs
          exact hall x (by omega) hxs
    · rw [if_neg hlt]
      simp only [true_iff]
      intro x hcx hxs
      omega

/-- The points of the range `[guest, guest + size)`. -/
def InRange (guest size : U32) (a : Nat) : Prop :=
  guest.toNat ≤ a ∧ a < guest.toNat + size.toNat

instance (guest size : U32) (a : Nat) : Decidable (InRange guest size a) :=
  inferInstanceAs (Decidable (_ ∧ _))

theorem wholeSpan_iff {s : SparseMem} (h : s.WellFormed) {guest size : U32} (hsize : size ≠ 0)
    (hend : guest.toNat + size.toNat ≤ 2 ^ 32) :
    s.wholeSpan guest size = true ↔ ∀ x, InRange guest size x → at? s.mappings x ≠ none := by
  unfold wholeSpan
  rw [if_neg (by simp only [not_or]; exact ⟨hsize, by omega⟩),
    wholeSpanLoop_iff h hend _ _ (by omega) (by have := size.isLt; omega)]
  exact ⟨fun hall x hx => hall x hx.1 hx.2, fun hall x h1 h2 => hall x ⟨h1, h2⟩⟩

/-! ## The map of addresses -/

/-- A partial map from guest addresses to a host byte and its permission. -/
abbrev AddressMap := U32 → Option (Nat × U32)

/-- The map the table stands for. -/
def addressMap (s : SparseMem) : AddressMap := fun a =>
  (at? s.mappings a.toNat).map fun m => m.backing a.toNat

/-- `map` adds a whole range, contiguous on the host. -/
def mapEffect (guest size : U32) (host : Nat) (access : U32) (f : AddressMap) : AddressMap :=
  fun a =>
    if InRange guest size a.toNat then some (host + (a.toNat - guest.toNat), access) else f a

/-- `unmap` removes exactly the range. -/
def unmapEffect (guest size : U32) (f : AddressMap) : AddressMap :=
  fun a => if InRange guest size a.toNat then none else f a

/-- `protect` changes the permission of exactly the range and keeps every host byte. -/
def protectEffect (guest size access : U32) (f : AddressMap) : AddressMap :=
  fun a => if InRange guest size a.toNat then (f a).map fun p => (p.1, access) else f a

theorem addressMap_eq_none_iff {s : SparseMem} {a : U32} :
    s.addressMap a = none ↔ at? s.mappings a.toNat = none := by
  simp [addressMap]

/-! ## `map` -/

theorem rangeAvailable_iff {s : SparseMem} (h : s.WellFormed) {guest size : U32}
    (hsize : size ≠ 0) (hend : guest.toNat + size.toNat ≤ 2 ^ 32) :
    s.rangeAvailable guest size = true ↔
      (∀ m ∈ s.mappings.take (s.upperBound guest), Ranged.stop m ≤ guest.toNat) ∧
      ∀ m ∈ s.mappings.drop (s.upperBound guest),
        guest.toNat + size.toNat ≤ Ranged.start m := by
  have hcut := upperBound_cut h guest
  have hgap := hcut.gap_iff h.ordered (n := size.toNat) (by bv_omega)
  have hguard : ¬ (size = 0 ∨ guest > uint32Max - (size - 1)) := by
    simp only [not_or]
    exact ⟨hsize, (not_wraps_iff hsize).mpr hend⟩
  unfold rangeAvailable
  rw [if_neg hguard]
  dsimp only
  simp only [Bool.and_eq_true, Bool.not_eq_true', Bool.and_eq_false_iff, decide_eq_false_iff_not,
    not_not]
  constructor
  · rintro ⟨hprev, hnext⟩
    constructor
    · intro m hm
      have hpos : s.upperBound guest ≠ 0 := by
        intro hz
        rw [hz] at hm
        simp at hm
      obtain ⟨hmem, hle⟩ := mapping_guest_le h hpos
      rcases hprev with hz | hprev
      · exact absurd hz hpos
      · have hstop : Ranged.stop (s.mapping (s.upperBound guest - 1)) ≤ guest.toNat := by
          simp only [Ranged.stop]
          bv_omega
        -- the predecessor ends last of all the ranges before the cut
        rcases Nat.lt_or_ge guest.toNat (Ranged.stop m) with hlt | hge
        · have hc : Covers m guest.toNat := ⟨hcut.before m hm, hlt⟩
          have hsome := (at?_eq_some_iff h.ordered).mpr ⟨List.mem_of_mem_take hm, hc⟩
          rw [at?_upperBound h hpos, if_neg (by omega)] at hsome
          cases hsome
        · exact hge
    · intro m hm
      obtain ⟨i, hi, rfl⟩ := List.mem_iff_getElem.mp hm
      rw [List.length_drop] at hi
      rw [List.getElem_drop]
      have hlt : s.upperBound guest < s.mappings.length := by omega
      rcases hnext with hz | hnext
      · exact absurd hlt hz
      · have hfirst := hcut.after (s.mappings[s.upperBound guest])
          (List.mem_drop_iff_getElem.mpr ⟨0, by omega, by simp⟩)
        rw [mapping, List.getD_eq_getElem _ _ hlt] at hnext
        have hmono : s.mappings[s.upperBound guest].guest ≤
            s.mappings[s.upperBound guest + i].guest := by
          rcases Nat.eq_zero_or_pos i with rfl | hpos
          · exact BitVec.le_refl _
          · have := List.pairwise_iff_getElem.mp h.sorted (s.upperBound guest)
              (s.upperBound guest + i) hlt (by omega) (by omega)
            bv_omega
        simp only [Ranged.start] at hfirst ⊢
        bv_omega
  · rintro ⟨hbefore, hafter⟩
    constructor
    · by_cases hz : s.upperBound guest = 0
      · exact Or.inl hz
      · right
        have hlt : s.upperBound guest - 1 < s.mappings.length := by
          have := hcut.le_length
          omega
        have hmem : s.mapping (s.upperBound guest - 1) ∈ s.mappings.take (s.upperBound guest) := by
          rw [mapping, List.getD_eq_getElem _ _ hlt]
          exact List.mem_take_iff_getElem.mpr ⟨_, by omega, rfl⟩
        have := hbefore _ hmem
        obtain ⟨-, hle⟩ := mapping_guest_le h hz
        simp only [Ranged.stop] at this
        bv_omega
    · by_cases hlt : s.upperBound guest < s.count
      · right
        have hlt' : s.upperBound guest < s.mappings.length := hlt
        have hmem : s.mapping (s.upperBound guest) ∈ s.mappings.drop (s.upperBound guest) := by
          rw [mapping, List.getD_eq_getElem _ _ hlt']
          exact List.mem_drop_iff_getElem.mpr ⟨0, by omega, by simp⟩
        have := hafter _ hmem
        simp only [Ranged.start] at this
        bv_omega
      · exact Or.inl hlt

/-! ## `change_range` -/

section Pieces

variable {m : Mapping} {guest size access : U32} {remove : Bool}

/-- The pieces of a range are ordered and stay inside it. -/
theorem changed_pieces (hm : m.size ≠ 0) (hb : m.guest.toNat + m.size.toNat ≤ 2 ^ 32)
    (hsize : size ≠ 0) (hend : guest.toNat + size.toNat ≤ 2 ^ 32) :
    Ordered (changed guest (guest.toNat + size.toNat) access remove m) ∧
      ∀ p ∈ changed guest (guest.toNat + size.toNat) access remove m,
        Ranged.start m ≤ Ranged.start p ∧ Ranged.stop p ≤ Ranged.stop m := by
  have hpos := size_pos_iff.mp hm
  unfold changed
  dsimp only
  split_ifs <;>
    simp only [List.nil_append, List.append_nil, List.cons_append, ordered_cons_iff, ordered_nil,
      List.mem_cons, List.not_mem_nil, or_false, forall_eq_or_imp, forall_eq, and_true,
      Ranged.start, Ranged.stop, IsEmpty.forall_iff, implies_true] at * <;>
    bv_omega

/-- No piece is left in a removed range. -/
theorem changed_apart (hb : m.guest.toNat + m.size.toNat ≤ 2 ^ 32) :
    ∀ p ∈ changed guest (guest.toNat + size.toNat) access true m,
      Ranged.stop p ≤ guest.toNat ∨ guest.toNat + size.toNat ≤ Ranged.start p := by
  unfold changed
  dsimp only
  rw [if_pos rfl]
  split_ifs <;>
    simp only [List.nil_append, List.append_nil, List.cons_append, List.mem_cons,
      List.not_mem_nil, or_false, forall_eq_or_imp, forall_eq, Ranged.start, Ranged.stop,
      IsEmpty.forall_iff, implies_true] at * <;>
    bv_omega

/-- The pieces keep every host byte of the range; the changed part has the new permission,
or is gone when it is removed. -/
theorem changed_backing (hm : m.size ≠ 0) (hb : m.guest.toNat + m.size.toNat ≤ 2 ^ 32)
    (hsize : size ≠ 0) (hend : guest.toNat + size.toNat ≤ 2 ^ 32) {a : Nat}
    (ha : Covers m a) :
    (at? (changed guest (guest.toNat + size.toNat) access remove m) a).map (·.backing a) =
      if InRange guest size a then
        if remove then none else some ((m.backing a).1, access)
      else some (m.backing a) := by
  obtain ⟨hord, -⟩ := @changed_pieces m guest size access remove hm hb hsize hend
  -- a piece that covers the point settles the lookup
  have hpiece : ∀ p ∈ changed guest (guest.toNat + size.toNat) access remove m, Covers p a →
      (at? (changed guest (guest.toNat + size.toNat) access remove m) a).map (·.backing a) =
        some (p.backing a) := by
    intro p hp hc
    rw [(at?_eq_some_iff hord).mpr ⟨hp, hc⟩, Option.map_some]
  simp only [Covers, Ranged.start, Ranged.stop] at ha
  by_cases hout : m.guest.toNat + m.size.toNat ≤ guest.toNat ∨
      m.guest.toNat ≥ guest.toNat + size.toNat
  · have hin : ¬ InRange guest size a := by
      unfold InRange
      omega
    rw [if_neg hin]
    exact hpiece m (by simp [changed, hout]) ha
  · rcases Nat.lt_or_ge a guest.toNat with hbelow | hge
    · have hin : ¬ InRange guest size a := by
        unfold InRange
        omega
      have hfirst : m.guest < guest := by bv_omega
      rw [if_neg hin, hpiece { m with size := guest - m.guest }
        (by simp [changed, hout, hfirst])
        (by simp only [Covers, Ranged.start, Ranged.stop]; bv_omega)]
      rfl
    · rcases Nat.lt_or_ge a (guest.toNat + size.toNat) with hlt | habove
      · rw [if_pos (show InRange guest size a from ⟨hge, hlt⟩)]
        cases remove with
        | true =>
          rw [if_pos rfl, Option.map_eq_none_iff, at?_eq_none_iff]
          intro p hp hc
          have := changed_apart hb p hp
          unfold Covers at hc
          omega
        | false =>
          let first := if m.guest < guest then guest else m.guest
          let stop := guest.toNat + size.toNat
          let mStop := m.guest.toNat + m.size.toNat
          have hfirst : m.guest.toNat ≤ first.toNat ∧ first.toNat ≤ a := by
            simp only [first]
            split_ifs <;> bv_omega
          have hlen : (BitVec.ofNat 32 ((if mStop < stop then mStop else stop) - first.toNat)).toNat =
              (if mStop < stop then mStop else stop) - first.toNat := by
            rw [BitVec.toNat_ofNat, Nat.mod_eq_of_lt]
            simp only [mStop, stop, first]
            split_ifs <;> bv_omega
          rw [if_neg (by decide), hpiece
            { m with
              guest := first
              host := m.host + (first - m.guest).toNat
              size := BitVec.ofNat 32 ((if mStop < stop then mStop else stop) - first.toNat)
              access := access }
            (by simp [changed, hout, first, stop, mStop])
            (by
              simp only [Covers, Ranged.start, Ranged.stop, hlen]
              refine ⟨hfirst.2, ?_⟩
              simp only [mStop, stop]
              split_ifs <;> omega)]
          simp only [Mapping.backing, Option.some.injEq, Prod.mk.injEq, and_true]
          bv_omega
      · have hin : ¬ InRange guest size a := by
          unfold InRange
          omega
        have hlast : m.guest.toNat + m.size.toNat > guest.toNat + size.toNat := by omega
        rw [if_neg hin, hpiece
          { m with
            guest := BitVec.ofNat 32 (guest.toNat + size.toNat)
            host := m.host + (guest.toNat + size.toNat - m.guest.toNat)
            size := BitVec.ofNat 32 (m.guest.toNat + m.size.toNat - (guest.toNat + size.toNat)) }
          (by simp [changed, hout, hlast])
          (by simp only [Covers, Ranged.start, Ranged.stop]; bv_omega)]
        simp only [Mapping.backing, Option.some.injEq, Prod.mk.injEq, and_true]
        bv_omega

end Pieces

theorem changed_length_le {m : Mapping} {guest access : U32} {stop : Nat} {remove : Bool} :
    (changed guest stop access remove m).length ≤
      1 + (if Covers m guest.toNat then 1 else 0) + (if Covers m stop then 1 else 0) := by
  by_cases h1 : Covers m guest.toNat <;> by_cases h2 : Covers m stop <;>
    simp only [h1, h2, if_true, if_false] <;> unfold changed <;> dsimp only <;> split_ifs <;>
    simp only [List.length_append, List.length_cons, List.length_nil, Covers, Ranged.start,
      Ranged.stop] at * <;>
    bv_omega

theorem flatMap_changed_cutsPieces {s : SparseMem} (h : s.WellFormed) {guest size access : U32}
    {remove : Bool} (hsize : size ≠ 0) (hend : guest.toNat + size.toNat ≤ 2 ^ 32) :
    CutsPieces s.mappings (changed guest (guest.toNat + size.toNat) access remove) where
  ordered m hm := (changed_pieces (h.nonempty m hm) (h.bounded m hm) hsize hend).1
  inside m hm := (changed_pieces (h.nonempty m hm) (h.bounded m hm) hsize hend).2

/-- The permission of a range changes, or the range goes away, and nothing else does. -/
def changeEffect (guest size access : U32) (remove : Bool) (f : AddressMap) : AddressMap :=
  if remove then unmapEffect guest size f else protectEffect guest size access f

theorem addressMap_flatMap_changed {s : SparseMem} (h : s.WellFormed) {guest size access : U32}
    {remove : Bool} (hsize : size ≠ 0) (hend : guest.toNat + size.toNat ≤ 2 ^ 32)
    {capacity : Nat} :
    ({ s with
        mappings := s.mappings.flatMap (changed guest (guest.toNat + size.toNat) access remove)
        capacity := capacity } : SparseMem).addressMap =
      changeEffect guest size access remove s.addressMap := by
  funext a
  have hcuts := @flatMap_changed_cutsPieces s h guest size access remove hsize hend
  unfold addressMap changeEffect unmapEffect protectEffect
  dsimp only
  rw [at?_flatMap h.ordered hcuts]
  cases hm : at? s.mappings a.toNat with
  | none => cases remove <;> simp [hm]
  | some m =>
    obtain ⟨hmem, hcov⟩ := at?_spec hm
    rw [Option.bind_some, changed_backing (h.nonempty m hmem) (h.bounded m hmem) hsize hend hcov]
    cases remove <;> simp [hm]

theorem wellFormed_flatMap_changed {s : SparseMem} (h : s.WellFormed) {guest size access : U32}
    {remove : Bool} (hsize : size ≠ 0) (hend : guest.toNat + size.toNat ≤ 2 ^ 32) :
    ({ s with
        mappings := s.mappings.flatMap (changed guest (guest.toNat + size.toNat) access remove)
        capacity := s.count + 2 } : SparseMem).WellFormed := by
  have hcuts := @flatMap_changed_cutsPieces s h guest size access remove hsize hend
  refine wellFormed_of_ordered (ordered_flatMap h.ordered hcuts) ?_ ?_
  · intro p hp
    obtain ⟨m, hm, hp⟩ := List.mem_flatMap.mp hp
    have h1 := (hcuts.inside m hm p hp).2
    have h2 := h.bounded m hm
    simp only [Ranged.stop] at h1
    omega
  · -- only the ranges over the two ends of the change split
    exact length_flatMap_le h.ordered fun m _ => changed_length_le

theorem changeRange_spec {s : SparseMem} (h : s.WellFormed) (abi : HostAbi)
    (guest size access : U32) (remove mallocOk : Bool) :
    (s.changeRange abi guest size access remove mallocOk = (false, s)) ∨
      (size ≠ 0 ∧ guest.toNat + size.toNat ≤ 2 ^ 32 ∧
        (remove = false → ∀ a : U32, InRange guest size a.toNat → s.addressMap a ≠ none) ∧
        (s.changeRange abi guest size access remove mallocOk).1 = true ∧
        (s.changeRange abi guest size access remove mallocOk).2.WellFormed ∧
        (s.changeRange abi guest size access remove mallocOk).2.addressMap =
          changeEffect guest size access remove s.addressMap) := by
  unfold changeRange
  dsimp only
  split_ifs with hrefused hmalloc
  · exact Or.inl rfl
  · exact Or.inl rfl
  · right
    simp only [not_or, Bool.and_eq_true, Bool.not_eq_true', not_and, Bool.not_eq_false] at hrefused
    obtain ⟨-, hsize, hend, hwhole, -⟩ := hrefused
    have hend' : guest.toNat + size.toNat ≤ 2 ^ 32 := by omega
    refine ⟨hsize, hend', ?_, rfl, wellFormed_flatMap_changed h hsize hend',
      addressMap_flatMap_changed h hsize hend'⟩
    intro hkeep a ha hnone
    exact (wholeSpan_iff h hsize hend').mp (hwhole hkeep) _ ha (addressMap_eq_none_iff.mp hnone)

/-! ## `map` and `unmap` -/

theorem grow_fits {abi : HostAbi} {s : SparseMem} (h : s.count ≤ s.capacity) {reallocOk : Bool}
    {capacity : Nat} (hg : s.grow abi reallocOk = some capacity) : s.count + 1 ≤ capacity := by
  unfold grow at hg
  dsimp only at hg
  by_cases hfull : s.count = s.capacity
  · rw [if_pos hfull] at hg
    split_ifs at hg with hz hsize hmalloc hsize hmalloc
    · -- a product that wraps falls below the capacity it doubles
      have hlt := Nat.mod_lt (s.capacity * 2) (show 0 < abi.sizeMax + 1 by omega)
      have hge : s.capacity ≤ s.capacity * 2 % (abi.sizeMax + 1) := by omega
      have hcap : s.capacity * 2 % (abi.sizeMax + 1) = capacity := Option.some.inj hg
      rw [← hcap]
      rcases Nat.lt_or_ge (s.capacity * 2) (abi.sizeMax + 1) with hw | hw
      · rw [Nat.mod_eq_of_lt hw]
        omega
      · have hwrap : s.capacity * 2 % (abi.sizeMax + 1) = s.capacity * 2 - (abi.sizeMax + 1) := by
          rw [Nat.mod_eq_sub_mod hw, Nat.mod_eq_of_lt (by omega)]
        omega
    · have hcap : 16 = capacity := Option.some.inj hg
      omega
  · rw [if_neg hfull] at hg
    have hcap : s.capacity = capacity := Option.some.inj hg
    omega

theorem mapAccess_spec {s : SparseMem} (h : s.WellFormed) (abi : HostAbi) (guest : U32)
    (host : Nat) (size access : U32) (reallocOk : Bool) :
    (s.mapAccess abi guest host size access reallocOk = (false, s)) ∨
      (size ≠ 0 ∧ guest.toNat + size.toNat ≤ 2 ^ 32 ∧
        (∀ a : U32, InRange guest size a.toNat → s.addressMap a = none) ∧
        (s.mapAccess abi guest host size access reallocOk).1 = true ∧
        (s.mapAccess abi guest host size access reallocOk).2.WellFormed ∧
        (s.mapAccess abi guest host size access reallocOk).2.addressMap =
          mapEffect guest size host access s.addressMap) := by
  unfold mapAccess
  split_ifs with hrefused havail
  · exact Or.inl rfl
  · exact Or.inl rfl
  · dsimp only
    cases hg : s.grow abi reallocOk with
    | none => exact Or.inl rfl
    | some capacity =>
      right
      simp only [not_or] at hrefused
      obtain ⟨-, hsize, -, -, hwrap, -⟩ := hrefused
      have hend : guest.toNat + size.toNat ≤ 2 ^ 32 := (not_wraps_iff hsize).mp hwrap
      have hcut := upperBound_cut h guest
      obtain ⟨hbefore, hafter⟩ := (rangeAvailable_iff h hsize hend).mp (by simpa using havail)
      have hgap := (hcut.gap_iff h.ordered (by bv_omega)).mpr ⟨hbefore, hafter⟩
      have hord : Ordered (insertAt s.mappings (s.upperBound guest)
          ⟨guest, size, host, access, s.nextAllocation + 1⟩) := by
        refine ordered_insert ?_ (size_pos_iff.mp hsize) hbefore hafter
        rw [List.take_append_drop]
        exact h.ordered
      refine ⟨hsize, hend, ?_, rfl, wellFormed_of_ordered hord ?_ ?_, ?_⟩
      · intro a ha
        exact addressMap_eq_none_iff.mpr (hgap _ ha.1 ha.2)
      · intro m hm
        rcases List.mem_append.mp hm with hm | hm
        · exact h.bounded m (List.mem_of_mem_take hm)
        · rcases List.mem_cons.mp hm with rfl | hm
          · exact hend
          · exact h.bounded m (List.mem_of_mem_drop hm)
      · have := grow_fits h.fits hg
        have := hcut.le_length
        unfold count at *
        simp only [insertAt, List.length_append, List.length_cons, List.length_take,
          List.length_drop]
        omega
      · funext a
        unfold addressMap mapEffect
        dsimp only
        rw [insertAt, at?_insert hord, List.take_append_drop]
        have hcov : Covers (⟨guest, size, host, access, s.nextAllocation + 1⟩ : Mapping) a.toNat ↔
            InRange guest size a.toNat := Iff.rfl
        by_cases ha : InRange guest size a.toNat
        · rw [if_pos ha, if_pos (hcov.mpr ha)]
          rfl
        · rw [if_neg ha, if_neg (fun hc => ha (hcov.mp hc))]

theorem unmap_spec {s : SparseMem} (h : s.WellFormed) (guest size : U32) :
    (s.unmap guest size = (false, s)) ∨
      (size ≠ 0 ∧ guest.toNat + size.toNat ≤ 2 ^ 32 ∧
        (∀ a : U32, InRange guest size a.toNat → s.addressMap a ≠ none) ∧
        (s.unmap guest size).1 = true ∧ (s.unmap guest size).2.WellFormed ∧
        (s.unmap guest size).2.addressMap = unmapEffect guest size s.addressMap) := by
  unfold unmap
  dsimp only
  split_ifs with hz hexact
  · exact Or.inl rfl
  · exact Or.inl rfl
  · right
    simp only [not_or, not_not] at hexact
    obtain ⟨hguest, hsize⟩ := hexact
    obtain ⟨hmem, -⟩ := mapping_guest_le h hz
    have hle := (upperBound_cut h guest).le_length
    have hlt : s.upperBound guest - 1 < s.mappings.length := by omega
    -- the table around the range that goes
    have hsplit : s.mappings = s.mappings.take (s.upperBound guest - 1) ++
        s.mapping (s.upperBound guest - 1) :: s.mappings.drop (s.upperBound guest) := by
      rw [mapping, List.getD_eq_getElem _ _ hlt]
      have hdrop := List.drop_eq_getElem_cons hlt
      rw [show s.upperBound guest - 1 + 1 = s.upperBound guest by omega] at hdrop
      rw [← hdrop, List.take_append_drop]
    generalize hm : s.mapping (s.upperBound guest - 1) = m at *
    have hcov : ∀ a, Covers m a ↔ InRange guest size a := by
      intro a
      rw [← hguest, ← hsize]
      exact Iff.rfl
    have hord := h.ordered
    rw [hsplit] at hord
    have hsub : (s.mappings.take (s.upperBound guest - 1) ++
        s.mappings.drop (s.upperBound guest)).Sublist s.mappings := by
      conv_rhs => rw [hsplit]
      exact (List.Sublist.refl _).append (List.sublist_cons_self _ _)
    refine ⟨?_, ?_, ?_, rfl, wellFormed_of_ordered (h.ordered.sublist hsub) ?_ ?_, ?_⟩
    · rw [← hsize]
      exact h.nonempty m hmem
    · rw [← hsize, ← hguest]
      exact h.bounded m hmem
    · intro a ha hnone
      exact at?_eq_none_iff.mp (addressMap_eq_none_iff.mp hnone) m hmem ((hcov _).mpr ha)
    · intro p hp
      exact h.bounded p (hsub.subset hp)
    · exact Nat.le_trans hsub.length_le h.fits
    · funext a
      unfold addressMap unmapEffect
      dsimp only
      rw [at?_remove hord, ← hsplit]
      by_cases ha : InRange guest size a.toNat
      · rw [if_pos ha, if_pos ((hcov _).mpr ha)]
        rfl
      · rw [if_neg ha, if_neg (fun hc => ha ((hcov _).mp hc))]

/-! ## Every run of operations -/

/-- The operations on a table, each with the answer its allocation gets. -/
inductive SparseOp where
  | mapAccess (guest : U32) (host : Nat) (size access : U32) (reallocOk : Bool)
  | unmap (guest size : U32)
  | unmapRange (guest size : U32) (mallocOk : Bool)
  | protect (guest size access : U32) (mallocOk : Bool)

namespace SparseOp

def run (abi : HostAbi) (s : SparseMem) : SparseOp → Bool × SparseMem
  | mapAccess guest host size access reallocOk => s.mapAccess abi guest host size access reallocOk
  | unmap guest size => s.unmap guest size
  | unmapRange guest size mallocOk => s.unmapRange abi guest size mallocOk
  | protect guest size access mallocOk => s.protect abi guest size access mallocOk

def guest : SparseOp → U32
  | mapAccess guest .. | unmap guest .. | unmapRange guest .. | protect guest .. => guest

def size : SparseOp → U32
  | mapAccess _ _ size .. | unmap _ size | unmapRange _ size _ | protect _ size .. => size

/-- What the operation's name says about the map. -/
def effect : SparseOp → AddressMap → AddressMap
  | mapAccess guest host size access _ => mapEffect guest size host access
  | unmap guest size | unmapRange guest size _ => unmapEffect guest size
  | protect guest size access _ => protectEffect guest size access

/-- What the map must look like on the range before the operation may succeed. -/
def Admits (f : AddressMap) : SparseOp → Prop
  | mapAccess guest _ size .. => ∀ a : U32, InRange guest size a.toNat → f a = none
  | unmap guest size | protect guest size .. => ∀ a : U32, InRange guest size a.toNat → f a ≠ none
  | unmapRange .. => True

/-- Either the operation is refused and changes nothing, or it does what it says. -/
theorem run_spec {s : SparseMem} (h : s.WellFormed) (abi : HostAbi) (op : SparseOp) :
    op.run abi s = (false, s) ∨
      (op.size ≠ 0 ∧ op.guest.toNat + op.size.toNat ≤ 2 ^ 32 ∧ op.Admits s.addressMap ∧
        (op.run abi s).1 = true ∧ (op.run abi s).2.WellFormed ∧
        (op.run abi s).2.addressMap = op.effect s.addressMap) := by
  cases op with
  | mapAccess guest host size access reallocOk =>
    exact mapAccess_spec h abi guest host size access reallocOk
  | unmap guest size => exact unmap_spec h guest size
  | unmapRange guest size mallocOk =>
    refine (changeRange_spec h abi guest size 0 true mallocOk).imp_right ?_
    rintro ⟨hsize, hend, -, hrest⟩
    exact ⟨hsize, hend, trivial, hrest⟩
  | protect guest size access mallocOk =>
    refine (changeRange_spec h abi guest size access false mallocOk).imp_right ?_
    rintro ⟨hsize, hend, hmapped, hrest⟩
    exact ⟨hsize, hend, hmapped rfl, hrest⟩

/-- The table after a run of operations. -/
def runAll (abi : HostAbi) (ops : List SparseOp) (s : SparseMem) : SparseMem :=
  ops.foldl (fun s op => (op.run abi s).2) s

theorem runAll_wellFormed (abi : HostAbi) (ops : List SparseOp) {s : SparseMem}
    (h : s.WellFormed) : (runAll abi ops s).WellFormed := by
  induction ops generalizing s with
  | nil => exact h
  | cons op ops ih =>
    refine ih ?_
    dsimp only
    rcases run_spec h abi op with hrefused | ⟨-, -, -, -, hwell, -⟩
    · rw [hrefused]
      exact h
    · exact hwell

end SparseOp

theorem create_wellFormed : create.WellFormed :=
  wellFormed_of_ordered ordered_nil (by simp [create]) (Nat.le_refl _)

/-- Every run from the empty table keeps its shape, and the operation made next does to the
map of addresses what it says when it succeeds and leaves the table alone when it fails. -/
theorem sparse_refines_addressMap (abi : HostAbi) (ops : List SparseOp) :
    (SparseOp.runAll abi ops create).WellFormed ∧
      ∀ op : SparseOp,
        ((op.run abi (SparseOp.runAll abi ops create)).1 = true →
          op.size ≠ 0 ∧ op.guest.toNat + op.size.toNat ≤ 2 ^ 32 ∧
          op.Admits (SparseOp.runAll abi ops create).addressMap ∧
          (op.run abi (SparseOp.runAll abi ops create)).2.addressMap =
            op.effect (SparseOp.runAll abi ops create).addressMap) ∧
        ((op.run abi (SparseOp.runAll abi ops create)).1 = false →
          (op.run abi (SparseOp.runAll abi ops create)).2 = SparseOp.runAll abi ops create) := by
  have hwell := SparseOp.runAll_wellFormed abi ops create_wellFormed
  refine ⟨hwell, fun op => ?_⟩
  rcases SparseOp.run_spec hwell abi op with hrefused | ⟨hsize, hend, hadmits, hdone, -, heffect⟩
  · rw [hrefused]
    exact ⟨fun h => absurd h (by simp), fun _ => rfl⟩
  · refine ⟨fun _ => ⟨hsize, hend, hadmits, heffect⟩, fun h => ?_⟩
    rw [hdone] at h
    cases h

end X86Port.Memory.SparseMem
