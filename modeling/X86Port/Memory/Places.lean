import X86Port.Lib.Places
import X86Port.Memory.Grants
import X86Port.Memory.SparseMap

/-!
# Where guest bytes lie

Both modes of guest memory are one partial map from addresses to host bytes, and the walks of
`memory.c` read and write through it.

* `backingSpan_placed`: a span is a run of addresses that lies in one piece.
* `accessible_placed`, `readBytes_placed`, `writeBytes_placed`: the queries and operations in
  terms of the map, for every length at which the walk of a contiguous window stays in its
  permission table.
-/

namespace X86Port.Memory

open Cpu (Width)
open Lib Lib.Places Lib.RangeTable

/-- The host byte of an address that grants an access. -/
def Mem.place (m : Mem) (access : U32) (a : Nat) : Option Nat :=
  match m.sparse with
  | some s => (at? s.mappings a).bind fun mapping =>
      if mapping.access &&& access = access then some (mapping.backing a).1 else none
  | none => if m.Grants access a then some (m.hostOf a) else none

/-- A sparse table in order, with no range at the null pointer. -/
structure Mem.WellFormed (m : Mem) : Prop where
  sparse : ∀ s ∈ m.sparse, s.WellFormed
  hosted : ∀ s ∈ m.sparse, ∀ mapping ∈ s.mappings, mapping.host ≠ 0

/-- The walk of a contiguous window leaves the permission table. -/
def Mem.Undefined (m : Mem) (access : U32) (a n : Nat) : Prop :=
  m.sparse = none ∧ m.Overruns access a n

theorem not_undefined_of_le {m : Mem} {access : U32} {k : Nat} (hk : k ≤ 2 ^ 31) (a : Nat) :
    ¬ m.Undefined access a k := fun h => not_overruns_of_le hk a h.2

section

variable {m : Mem} {access addr n : U32}

theorem place_lt (hm : m.WellFormed) {a x : Nat} (h : m.place access a = some x) : a < 2 ^ 32 := by
  unfold Mem.place at h
  cases hs : m.sparse with
  | some s =>
    rw [hs] at h
    obtain ⟨mapping, hat, -⟩ := Option.bind_eq_some_iff.mp h
    obtain ⟨hmem, -, hlt⟩ := at?_spec hat
    exact Nat.lt_of_lt_of_le hlt ((hm.sparse s hs).bounded mapping hmem)
  | none =>
    rw [hs] at h
    by_cases hg : m.Grants access a
    · exact hg.2.2.1
    · simp only [if_neg hg] at h
      cases h

theorem Placed.end_le (hm : m.WellFormed) {a n : Nat} (hp : Placed (m.place access) a n)
    (hn : n ≠ 0) : a + n ≤ 2 ^ 32 := by
  obtain ⟨x, hx⟩ := Option.ne_none_iff_exists'.mp (hp (n - 1) (by omega))
  have := place_lt hm hx
  omega

/-- Where a byte lies does not depend on the access. -/
theorem place_zero {a x : Nat} (h : m.place access a = some x) : m.place 0 a = some x := by
  unfold Mem.place at h ⊢
  cases hs : m.sparse with
  | some s =>
    rw [hs] at h
    obtain ⟨mapping, hat, hx⟩ := Option.bind_eq_some_iff.mp h
    dsimp only
    rw [hat, Option.bind_some, if_pos (by simp)]
    split_ifs at hx
    exact hx
  | none =>
    rw [hs] at h
    dsimp only at h ⊢
    split_ifs at h with hg
    · obtain ⟨hlo, hhi, hlt, hperms⟩ := hg
      have hzero : m.Grants 0 a := by
        refine ⟨hlo, hhi, hlt, fun t ht => ?_⟩
        have := hperms t ht
        unfold PermTable.grants pageRefuses at this ⊢
        simp only [Bool.not_or, Bool.and_eq_true] at this ⊢
        exact ⟨this.1, by simp⟩
      rw [if_pos hzero]
      exact h

theorem cell_zero {a : Nat} (h : m.place access a ≠ none) :
    cell (m.place access) a = cell (m.place 0) a := by
  obtain ⟨x, hx⟩ := Option.ne_none_iff_exists'.mp h
  unfold cell
  rw [hx, place_zero hx]

/-- Nothing is aliased in a contiguous window. -/
theorem unaliased_window (hs : m.sparse = none) : Unaliased (m.place access) := by
  intro a b x ha hb
  unfold Mem.place at ha hb
  rw [hs] at ha hb
  dsimp only at ha hb
  split_ifs at ha hb with hga hgb
  have hlo := hga.1
  have hlo' := hgb.1
  have heq := (Option.some.inj ha).trans (Option.some.inj hb).symm
  unfold Mem.hostOf at heq
  omega

theorem wellFormed_window (hs : m.sparse = none) : m.WellFormed := by
  constructor <;> simp [hs]

/-! ## Spans -/

/-- A span answers for a run of addresses, and is empty only where the first one is refused. -/
structure PlacedSpan (m : Mem) (access addr max : U32) (span : Span) : Prop where
  le_max : span.length.toNat ≤ max.toNat
  run : Run (m.place access) addr.toNat span.length.toNat span.host
  empty : span.length = 0 → m.place access addr.toNat = none

theorem spanAccess_placed (hm : m.WellFormed) {s : SparseMem} (hs : m.sparse = some s)
    {max : U32} (hmax : max ≠ 0) :
    PlacedSpan m access addr max (s.spanAccess addr max access) := by
  have hwf := hm.sparse s hs
  have hplace : ∀ a, m.place access a = (at? s.mappings a).bind fun mapping =>
      if mapping.access &&& access = access then some (mapping.backing a).1 else none := by
    intro a
    unfold Mem.place
    rw [hs]
  rw [SparseMem.spanAccess_eq hwf hmax]
  cases hat : at? s.mappings addr.toNat with
  | none =>
    refine ⟨Nat.zero_le _, fun i hi => absurd hi (Nat.not_lt_zero i), fun _ => ?_⟩
    rw [hplace, hat]
    rfl
  | some mapping =>
    obtain ⟨hmem, hlo, hhi⟩ := at?_spec hat
    have hbound := hwf.bounded mapping hmem
    simp only [Ranged.start, Ranged.stop] at hlo hhi
    dsimp only
    by_cases ha : mapping.access &&& access = access
    · rw [if_pos ha]
      refine ⟨?_, ?_, fun hzero => ?_⟩
      · dsimp only
        split_ifs <;> bv_omega
      · intro i hi
        have hin : addr.toNat + i < mapping.guest.toNat + mapping.size.toNat := by
          dsimp only at hi
          split_ifs at hi <;> bv_omega
        have hcover : at? s.mappings (addr.toNat + i) = some mapping :=
          (at?_eq_some_iff hwf.ordered).mpr ⟨hmem, by
            simp only [Ranged.start]
            omega, hin⟩
        rw [hplace, hcover, Option.bind_some, if_pos ha]
        simp only [Mapping.backing]
        congr 1
        bv_omega
      · dsimp only at hzero
        split_ifs at hzero <;> bv_omega
    · rw [if_neg ha]
      refine ⟨Nat.zero_le _, fun i hi => absurd hi (Nat.not_lt_zero i), fun _ => ?_⟩
      rw [hplace, hat, Option.bind_some, if_neg ha]

theorem backingSpan_placed (hm : m.WellFormed) (ha : AccessMask access) {max : U32}
    (hmax : max ≠ 0) (hsafe : ¬ m.Undefined access addr.toNat max.toNat) :
    ∃ span, backingSpan m addr max access = some span ∧ PlacedSpan m access addr max span := by
  cases hs : m.sparse with
  | some s =>
    refine ⟨_, ?_, spanAccess_placed hm hs hmax⟩
    unfold backingSpan
    rw [if_neg (by simp only [not_or, not_not]; exact ⟨hmax, ha⟩), hs]
  | none =>
    obtain ⟨span, hspan, hof⟩ := backingSpan_spec hs ha hmax fun h => hsafe ⟨hs, h⟩
    have hplace : ∀ a, m.place access a = if m.Grants access a then some (m.hostOf a) else none := by
      intro a
      unfold Mem.place
      rw [hs]
    refine ⟨span, hspan, hof.le_max, ?_, ?_⟩
    · intro i hi
      obtain ⟨hlo, -⟩ := hof.granted 0 (by omega)
      rw [hplace, if_pos (hof.granted i hi), hof.host (by bv_omega)]
      unfold Mem.hostOf
      congr 1
      omega
    · intro hzero
      have hrefused := hof.maximal (by bv_omega)
      rw [hzero] at hrefused
      rw [hplace]
      exact if_neg hrefused

/-- A span behind the first byte never walks out of its table. -/
theorem not_undefined_behind {a : Nat}
    (hplaced : m.place access a ≠ none) {k j : Nat} (hk : 0 < k) :
    ¬ m.Undefined access (a + k) j := by
  rintro ⟨hs, hstart, -⟩
  obtain ⟨x, hx⟩ := Option.ne_none_iff_exists'.mp hplaced
  unfold Mem.place at hx
  rw [hs] at hx
  by_cases hg : m.Grants access a
  · have := hg.1
    omega
  · simp only [if_neg hg] at hx
    cases hx

/-! ## The walk of a range -/

/-- The walk stops at the end of the range or at the first address that is refused. -/
theorem accessibleSpanLoop_placed (hm : m.WellFormed) (ha : AccessMask access) {max : U32}
    (hsafe : ¬ m.Undefined access addr.toNat max.toNat) :
    ∀ (fuel : Nat) (cursor total : U32), max.toNat - total.toNat < fuel →
      total.toNat ≤ max.toNat → cursor.toNat = addr.toNat + total.toNat →
      Placed (m.place access) addr.toNat total.toNat →
      ∃ t, accessibleSpanLoop m max access fuel cursor total = some t ∧
        t.toNat ≤ max.toNat ∧ Placed (m.place access) addr.toNat t.toNat ∧
        (t.toNat < max.toNat → m.place access (addr.toNat + t.toNat) = none) := by
  intro fuel
  induction fuel with
  | zero => intro _ _ hfuel; exact absurd hfuel (Nat.not_lt_zero _)
  | succ fuel ih =>
    intro cursor total hfuel hle hcursor hplaced
    unfold accessibleSpanLoop
    by_cases hlt : total < max
    · have hrest : (max - total).toNat = max.toNat - total.toNat := by bv_omega
      have hsafe' : ¬ m.Undefined access cursor.toNat (max - total).toNat := by
        rw [hcursor, hrest]
        by_cases hzero : total.toNat = 0
        · rw [hzero]
          exact hsafe
        · exact not_undefined_behind (hplaced 0 (by omega)) (by omega)
      obtain ⟨span, hspan, hrun⟩ := backingSpan_placed hm ha (by bv_omega) hsafe'
      have hlen := hrun.le_max
      rw [hrest] at hlen
      rw [if_pos hlt, hspan, Option.bind_some]
      have hmore : Placed (m.place access) addr.toNat (total.toNat + span.length.toNat) := by
        refine hplaced.append ?_
        rw [← hcursor]
        exact hrun.run.placed
      by_cases hzero : span.length = 0
      · rw [if_pos hzero]
        refine ⟨total, rfl, hle, hplaced, fun _ => ?_⟩
        rw [← hcursor]
        exact hrun.empty hzero
      · have hend := Placed.end_le hm hmore (by bv_omega)
        have htotal : (total + span.length).toNat = total.toNat + span.length.toNat := by bv_omega
        rw [if_neg hzero]
        by_cases hlast : span.length > uint32Max - cursor
        · rw [if_pos hlast]
          refine ⟨_, rfl, by bv_omega, by rwa [htotal], fun _ => ?_⟩
          -- the span ends at the end of the address space
          by_contra hnext
          obtain ⟨x, hx⟩ := Option.ne_none_iff_exists'.mp hnext
          have := place_lt hm hx
          unfold uint32Max at hlast
          bv_omega
        · rw [if_neg hlast]
          unfold uint32Max at hlast
          exact ih _ _ (by bv_omega) (by bv_omega) (by bv_omega) (by rwa [htotal])
    · rw [if_neg hlt]
      exact ⟨total, rfl, hle, hplaced, fun h => absurd h (by bv_omega)⟩

theorem accessibleSpan_placed (hm : m.WellFormed) (ha : AccessMask access) {max : U32}
    (hsafe : ¬ m.Undefined access addr.toNat max.toNat) :
    ∃ t, accessibleSpan m addr max access = some t ∧
      t.toNat ≤ max.toNat ∧ Placed (m.place access) addr.toNat t.toNat ∧
      (t.toNat < max.toNat → m.place access (addr.toNat + t.toNat) = none) :=
  accessibleSpanLoop_placed hm ha hsafe _ addr 0 (by bv_omega) (by bv_omega) (by bv_omega)
    (fun i hi => absurd hi (Nat.not_lt_zero i))

theorem accessible_placed (hm : m.WellFormed) (ha : AccessMask access)
    (hsafe : ¬ m.Undefined access addr.toNat n.toNat) :
    accessible m addr n access =
      some (decide (n ≠ 0 ∧ Placed (m.place access) addr.toNat n.toNat)) := by
  unfold accessible
  by_cases hn : n = 0
  · rw [if_neg fun h => h.1 hn, decide_eq_false fun h => h.1 hn]
  by_cases hwrap : addr > uint32Max - (n - 1)
  · rw [if_neg fun h => h.2 hwrap, decide_eq_false]
    rintro ⟨-, hp⟩
    have := Placed.end_le hm hp (by bv_omega)
    exact (not_wraps_iff hn).mpr this hwrap
  · obtain ⟨t, ht, hle, hplaced, hstop⟩ := accessibleSpan_placed hm ha hsafe
    rw [if_pos ⟨hn, hwrap⟩, ht, Option.map_some]
    congr 2
    refine propext ⟨?_, ?_⟩
    · rintro rfl
      exact ⟨hn, hplaced⟩
    · rintro ⟨-, hall⟩
      by_contra hne
      have hlt : t.toNat < n.toNat := by bv_omega
      exact hall _ hlt (hstop hlt)

/-! ## Ranges in one piece -/

/-- The rounds of `sparse_resolve` walk a run: `start` is the host byte of the first address
once a range has given it. -/
theorem resolveLoop_run (hm : m.WellFormed) {s : SparseMem} (hs : m.sparse = some s)
    {allocation : U64} {stop r : Nat} (hstop : stop ≤ 2 ^ 32) :
    ∀ (fuel cursor i start : Nat), 0 < i → addr.toNat ≤ cursor →
      (start = 0 → cursor = addr.toNat) →
      Run (m.place access) addr.toNat (cursor - addr.toNat) start →
      s.resolveLoop allocation addr access stop fuel cursor i start = some r →
      Run (m.place access) addr.toNat (stop - addr.toNat) r := by
  have hwf := hm.sparse s hs
  have hfinish : ∀ cursor start : Nat,
      Run (m.place access) addr.toNat (cursor - addr.toNat) start →
      (if cursor ≠ stop then none else some start) = some r →
      Run (m.place access) addr.toNat (stop - addr.toNat) r := by
    intro cursor start hrun h
    by_cases hne : cursor ≠ stop
    · rw [if_pos hne] at h
      cases h
    · rw [if_neg hne] at h
      rw [← Option.some.inj h, ← not_not.mp hne]
      exact hrun
  intro fuel
  induction fuel with
  | zero =>
    intro cursor i start _ _ _ hrun h
    exact hfinish cursor start hrun h
  | succ fuel ih =>
    intro cursor i start hi hlo hfirst hrun h
    unfold SparseMem.resolveLoop at h
    by_cases hgo : cursor < stop ∧ i ≤ s.count
    · rw [if_pos hgo] at h
      dsimp only at h
      obtain ⟨hlt, hcount⟩ := hgo
      have hmem : s.mapping (i - 1) ∈ s.mappings := by
        unfold SparseMem.mapping SparseMem.count at *
        rw [List.getD_eq_getElem _ _ (by omega)]
        exact List.getElem_mem _
      have hbound := hwf.bounded _ hmem
      have hhost := hm.hosted s hs _ hmem
      generalize s.mapping (i - 1) = mapping at h hmem hbound hhost
      split at h
      · cases h
      · rename_i hcovers
        simp only [not_or, not_not] at hcovers
        obtain ⟨hge, hoff, -, haccess⟩ := hcovers
        have hoffset : (BitVec.ofNat 32 cursor - mapping.guest).toNat =
            cursor - mapping.guest.toNat := by bv_omega
        split at h
        · cases h
        · rename_i hcontiguous
          -- the addresses this range answers for
          have hpiece : ∀ j, j < (mapping.size - (BitVec.ofNat 32 cursor - mapping.guest)).toNat →
              m.place access (cursor + j) =
                some (mapping.host + (cursor - mapping.guest.toNat) + j) := by
            intro j hj
            have hcover : at? s.mappings (cursor + j) = some mapping :=
              (at?_eq_some_iff hwf.ordered).mpr ⟨hmem, by
                simp only [Ranged.start]
                omega, by
                simp only [Ranged.stop]
                bv_omega⟩
            unfold Mem.place
            rw [hs]
            dsimp only
            rw [hcover, Option.bind_some, if_pos haccess]
            simp only [Mapping.backing]
            congr 1
            omega
          refine ih _ (i + 1) _ (Nat.succ_pos i) (by split_ifs <;> omega) ?_ ?_ h
          · intro hzero
            split_ifs at hzero <;> omega
          · intro k hk
            by_cases hold : k < cursor - addr.toNat
            · have hne : start ≠ 0 := fun hz => by
                have := hfirst hz
                omega
              rw [if_neg hne]
              exact hrun k hold
            · have hk' : addr.toNat + k = cursor + (addr.toNat + k - cursor) := by omega
              rw [hk', hpiece _ (by split_ifs at hk <;> omega)]
              congr 1
              by_cases hz : start = 0
              · rw [if_pos hz, hoffset]
                have := hfirst hz
                omega
              · rw [if_neg hz]
                simp only [not_and, not_not] at hcontiguous
                have := hcontiguous hz
                omega
    · rw [if_neg hgo] at h
      exact hfinish cursor start hrun h

theorem oneSpan_placed (hm : m.WellFormed) (ha : AccessMask access)
    (hsafe : ¬ m.Undefined access addr.toNat n.toNat) :
    ∃ r, oneSpan m addr n access = some r ∧
      ∀ host, r = some host → n ≠ 0 ∧ Run (m.place access) addr.toNat n.toNat host := by
  unfold oneSpan
  by_cases hout : n = 0 ∨ addr > uint32Max - (n - 1)
  · rw [if_pos hout]
    exact ⟨none, rfl, fun host h => by cases h⟩
  · rw [if_neg hout]
    simp only [not_or] at hout
    obtain ⟨hn, hwrap⟩ := hout
    cases hs : m.sparse with
    | some s =>
      refine ⟨_, rfl, fun host h => ⟨hn, ?_⟩⟩
      unfold SparseMem.resolve at h
      dsimp only at h
      split at h
      · cases h
      · rename_i hin
        simp only [not_or] at hin
        have := resolveLoop_run hm hs (by omega) _ _ _ 0 (by omega) (Nat.le_refl _) (fun _ => rfl)
          (fun i hi => absurd hi (by omega)) h
        rwa [Nat.add_sub_cancel_left] at this
    | none =>
      obtain ⟨span, hspan, hplaced⟩ := backingSpan_placed hm ha hn hsafe
      dsimp only
      rw [hspan, Option.map_some]
      refine ⟨_, rfl, fun host h => ⟨hn, ?_⟩⟩
      split_ifs at h with hlen
      rw [← Option.some.inj h, ← hlen]
      exact hplaced.run

/-! ## Reads and writes -/

/-- One round of a loop over spans: a part of the range in one piece, and the rest of it. -/
theorem backingSpan_round (hm : m.WellFormed) (ha : AccessMask access) (hn : n ≠ 0)
    (hsafe : ¬ m.Undefined access addr.toNat n.toNat)
    (hplaced : Placed (m.place access) addr.toNat n.toNat) :
    ∃ span, backingSpan m addr n access = some span ∧ 0 < span.length.toNat ∧
      span.length.toNat ≤ n.toNat ∧
      Run (m.place access) addr.toNat span.length.toNat span.host ∧
      (n - span.length).toNat = n.toNat - span.length.toNat ∧
      (n - span.length ≠ 0 → (addr + span.length).toNat = addr.toNat + span.length.toNat) ∧
      Placed (m.place access) (addr + span.length).toNat (n - span.length).toNat ∧
      ¬ m.Undefined access (addr + span.length).toNat (n - span.length).toNat := by
  obtain ⟨span, hspan, hof⟩ := backingSpan_placed hm ha hn hsafe
  have hfirst := hplaced 0 (by bv_omega)
  have hpos : 0 < span.length.toNat := by
    by_contra hzero
    exact hfirst (hof.empty (by bv_omega))
  have hle := hof.le_max
  have hend := Placed.end_le hm hplaced (by bv_omega)
  have hrest : (n - span.length).toNat = n.toNat - span.length.toNat := by bv_omega
  have hnext : n - span.length ≠ 0 →
      (addr + span.length).toNat = addr.toNat + span.length.toNat := by
    intro hne
    bv_omega
  refine ⟨span, hspan, hpos, hle, hof.run, hrest, hnext, ?_, ?_⟩
  · by_cases hdone : n - span.length = 0
    · rw [hdone]
      exact fun i hi => absurd hi (Nat.not_lt_zero i)
    · rw [hnext hdone, hrest]
      exact hplaced.drop _
  · by_cases hdone : n - span.length = 0
    · rw [hdone]
      exact not_undefined_of_le (by decide) _
    · rw [hnext hdone]
      exact not_undefined_behind hfirst hpos

theorem readLoop_placed (hm : m.WellFormed) (h : Host) :
    ∀ (fuel : Nat) (addr n : U32), n.toNat ≤ fuel →
      ¬ m.Undefined memRead addr.toNat n.toNat →
      Placed (m.place memRead) addr.toNat n.toNat →
      readLoop m h fuel addr n = some (gather h.bytes (m.place memRead) addr.toNat n.toNat) := by
  intro fuel
  induction fuel with
  | zero =>
    intro addr n hfuel _ _
    rw [Nat.le_zero.mp hfuel]
    rfl
  | succ fuel ih =>
    intro addr n hfuel hsafe hplaced
    unfold readLoop
    by_cases hn : n = 0
    · rw [if_neg (not_not.mpr hn), hn]
      rfl
    · obtain ⟨span, hspan, hpos, hle, hrun, hrest, hnext, hplaced', hsafe'⟩ :=
        backingSpan_round hm (by decide) hn hsafe hplaced
      rw [if_pos hn, hspan, Option.bind_some, ih _ _ (by omega) hsafe' hplaced', Option.map_some,
        ← gather_run hrun, hrest]
      by_cases hdone : n - span.length = 0
      · have hall : n.toNat - span.length.toNat = 0 := by bv_omega
        rw [hall, show n.toNat = span.length.toNat by omega]
        simp [gather]
      · rw [hnext hdone, gather_append, Nat.add_sub_of_le hle]

theorem readBytes_placed (hm : m.WellFormed) (h : Host)
    (hsafe : ¬ m.Undefined memRead addr.toNat n.toNat) :
    readBytes m h addr n = some (if n ≠ 0 ∧ Placed (m.place memRead) addr.toNat n.toNat then
      some (gather h.bytes (m.place memRead) addr.toNat n.toNat) else none) := by
  obtain ⟨r, hone, hrun⟩ := oneSpan_placed hm (by decide) hsafe
  unfold readBytes
  rw [hone, Option.bind_some]
  cases r with
  | some host =>
    obtain ⟨hn, hrun⟩ := hrun host rfl
    dsimp only
    rw [if_pos ⟨hn, hrun.placed⟩, gather_run hrun]
  | none =>
    dsimp only
    rw [accessible_placed hm (by decide) hsafe, Option.bind_some]
    by_cases hall : n ≠ 0 ∧ Placed (m.place memRead) addr.toNat n.toNat
    · rw [if_pos (decide_eq_true hall), if_pos hall,
        readLoop_placed hm h _ _ _ (Nat.le_refl _) hsafe hall.2]
      rfl
    · rw [if_neg (by simpa using hall), if_neg hall]

theorem writeLoop_placed (hm : m.WellFormed) :
    ∀ (fuel : Nat) (h : Host) (addr : U32) (input : List U8) (n : U32), n.toNat ≤ fuel →
      input.length = n.toNat → ¬ m.Undefined memWrite addr.toNat n.toNat →
      Placed (m.place memWrite) addr.toNat n.toNat →
      writeLoop m fuel h addr input n =
        some { h with bytes := scatter (m.place memWrite) h.bytes addr.toNat input } := by
  intro fuel
  induction fuel with
  | zero =>
    intro h addr input n hfuel hlen _ _
    have hnil : input = [] := List.eq_nil_of_length_eq_zero (by omega)
    rw [hnil]
    rfl
  | succ fuel ih =>
    intro h addr input n hfuel hlen hsafe hplaced
    unfold writeLoop
    by_cases hn : n = 0
    · have hnil : input = [] := List.eq_nil_of_length_eq_zero (by rw [hlen, hn]; rfl)
      rw [if_neg (not_not.mpr hn), hnil]
      rfl
    · obtain ⟨span, hspan, hpos, hle, hrun, hrest, hnext, hplaced', hsafe'⟩ :=
        backingSpan_round hm (by decide) hn hsafe hplaced
      have htake : (input.take span.length.toNat).length = span.length.toNat := by
        rw [List.length_take]
        omega
      have hstore : (h.store span.host (input.take span.length.toNat)).bytes =
          scatter (m.place memWrite) h.bytes addr.toNat (input.take span.length.toNat) := by
        rw [← htake] at hrun
        rw [scatter_run hrun]
        rfl
      rw [if_pos hn, hspan, Option.bind_some, ih _ _ _ _ (by omega)
        (by rw [List.length_drop]; omega) hsafe' hplaced', hstore]
      have hjoin : scatter (m.place memWrite) h.bytes addr.toNat input = _ :=
        (congrArg _ (List.take_append_drop span.length.toNat input).symm).trans
          (scatter_append _ _)
      rw [htake] at hjoin
      by_cases hdone : n - span.length = 0
      · have hall : input.drop span.length.toNat = [] :=
          List.drop_eq_nil_of_le (by bv_omega)
        rw [hjoin, hall]
        rfl
      · rw [hjoin, hnext hdone]
        rfl

/-- The host after a write that is granted: the observer is told, and the bytes lie at their
places. -/
def Host.put (m : Mem) (h : Host) (addr : U32) (input : List U8) : Host :=
  { h.notify addr (BitVec.ofNat 32 input.length) with
    bytes := scatter (m.place memWrite) h.bytes addr.toNat input }

theorem bytes_notify (h : Host) (addr n : U32) : (h.notify addr n).bytes = h.bytes := by
  unfold Host.notify
  split_ifs <;> rfl

theorem writeBytes_placed (hm : m.WellFormed) (h : Host) {input : List U8}
    (hlen : input.length < 2 ^ 32) (hsafe : ¬ m.Undefined memWrite addr.toNat input.length) :
    writeBytes m h addr input =
      some (if input ≠ [] ∧ Placed (m.place memWrite) addr.toNat input.length then
        some (Host.put m h addr input) else none) := by
  have htoNat : (BitVec.ofNat 32 input.length).toNat = input.length := by
    rw [BitVec.toNat_ofNat, Nat.mod_eq_of_lt hlen]
  have hne : BitVec.ofNat 32 input.length ≠ 0 ↔ input ≠ [] := by
    rw [← List.length_pos_iff]
    bv_omega
  rw [← htoNat] at hsafe
  obtain ⟨r, hone, hrun⟩ := oneSpan_placed hm (by decide) hsafe
  unfold writeBytes
  dsimp only
  rw [hone, Option.bind_some]
  cases r with
  | some host =>
    obtain ⟨hn, hrun⟩ := hrun host rfl
    rw [htoNat] at hrun
    dsimp only
    rw [if_pos ⟨hne.mp hn, hrun.placed⟩]
    unfold Host.put Host.store
    rw [scatter_run hrun, bytes_notify]
  | none =>
    dsimp only
    rw [accessible_placed hm (by decide) hsafe, Option.bind_some]
    by_cases hall : input ≠ [] ∧ Placed (m.place memWrite) addr.toNat input.length
    · rw [if_pos (decide_eq_true ⟨hne.mpr hall.1, by rw [htoNat]; exact hall.2⟩), if_pos hall,
        writeLoop_placed hm _ _ _ _ _ (Nat.le_refl _) htoNat.symm hsafe
          (by rw [htoNat]; exact hall.2), bytes_notify]
      rfl
    · have hnot : ¬ (BitVec.ofNat 32 input.length ≠ 0 ∧
          Placed (m.place memWrite) addr.toNat (BitVec.ofNat 32 input.length).toNat) := by
        rintro ⟨hn, hp⟩
        rw [htoNat] at hp
        exact hall ⟨hne.mp hn, hp⟩
      rw [if_neg (by rw [decide_eq_true_eq]; exact hnot), if_neg hall]

/-- A write that has a meaning and is granted. -/
theorem writeBytes_some (hm : m.WellFormed) {h h' : Host} {input : List U8}
    (hend : addr.toNat + input.length ≤ 2 ^ 32) (hlen : input.length < 2 ^ 32)
    (hwrite : writeBytes m h addr input = some (some h')) :
    Placed (m.place memWrite) addr.toNat input.length ∧ h' = Host.put m h addr input := by
  by_cases hsafe : m.Undefined memWrite addr.toNat input.length
  · exfalso
    obtain ⟨hs, hover⟩ := hsafe
    have hne : input.length ≠ 0 := by
      rintro hzero
      obtain ⟨-, t, -, hlong, -⟩ := hover
      unfold Mem.roomAtStart at hlong
      omega
    have htoNat : (BitVec.ofNat 32 input.length).toNat = input.length := by
      rw [BitVec.toNat_ofNat, Nat.mod_eq_of_lt hlen]
    have hn : BitVec.ofNat 32 input.length ≠ 0 := by bv_omega
    have hone : oneSpan m addr (BitVec.ofNat 32 input.length) memWrite = none := by
      unfold oneSpan
      rw [if_neg, hs]
      · dsimp only
        rw [backingSpan_of_overruns hs (by decide) hn (by rwa [htoNat])]
        rfl
      · rintro (hz | hwrap)
        · exact hn hz
        · exact (not_wraps_iff hn).mpr (by rwa [htoNat]) hwrap
    unfold writeBytes at hwrite
    dsimp only at hwrite
    rw [hone] at hwrite
    cases hwrite
  · rw [writeBytes_placed hm h hlen hsafe] at hwrite
    have hwrite := Option.some.inj hwrite
    split_ifs at hwrite with hall
    exact ⟨hall.2, (Option.some.inj hwrite).symm⟩

/-! ## Integers -/

theorem getLsbD_valueOf_bytesOf (n : Nat) (value : U32) {i : Nat} (hi : i < 32) :
    (valueOf (bytesOf n value)).getLsbD i = (decide (i < 8 * n) && value.getLsbD i) := by
  induction n generalizing value i with
  | zero => simp [bytesOf, valueOf]
  | succ n ih =>
    rw [bytesOf, valueOf, BitVec.getLsbD_or, BitVec.getLsbD_shiftLeft, BitVec.getLsbD_setWidth,
      BitVec.getLsbD_setWidth]
    by_cases hlow : i < 8
    · have hn : i < 8 * (n + 1) := by omega
      simp [hlow, hi, hn]
    · rw [ih _ (by omega), BitVec.getLsbD_ushiftRight, Nat.add_sub_of_le (by omega)]
      have hn : i - 8 < 8 * n ↔ i < 8 * (n + 1) := by omega
      simp [hlow, hi, hn]

theorem valueOf_bytesOf (value : U32) : valueOf (bytesOf 4 value) = value := by
  refine BitVec.eq_of_getLsbD_eq fun i hi => ?_
  rw [getLsbD_valueOf_bytesOf 4 value hi, decide_eq_true (by omega), Bool.true_and]

theorem read_placed (hm : m.WellFormed) (h : Host) (w : Width) :
    read m h addr w = some (if Placed (m.place memRead) addr.toNat w.bytes then
      some (valueOf (gather h.bytes (m.place memRead) addr.toNat w.bytes)) else none) := by
  obtain ⟨hpos, hle⟩ := bytes_ne_zero w
  have hlen : (BitVec.ofNat 32 w.bytes).toNat = w.bytes := by
    rw [BitVec.toNat_ofNat, Nat.mod_eq_of_lt (by omega)]
  unfold read
  rw [readBytes_placed hm h (not_undefined_of_le (by omega) _), hlen, Option.map_some]
  by_cases hall : Placed (m.place memRead) addr.toNat w.bytes
  · rw [if_pos ⟨by bv_omega, hall⟩, if_pos hall]
    rfl
  · rw [if_neg fun h => hall h.2, if_neg hall]
    rfl

theorem write_placed (hm : m.WellFormed) (h : Host) (w : Width) (value : U32) :
    write m h addr w value = some (if Placed (m.place memWrite) addr.toNat w.bytes then
      some (Host.put m h addr (bytesOf w.bytes value)) else none) := by
  obtain ⟨hpos, hle⟩ := bytes_ne_zero w
  have hlen := length_bytesOf w.bytes value
  have hne : bytesOf w.bytes value ≠ [] := by
    rw [← List.length_pos_iff]
    omega
  unfold write
  rw [writeBytes_placed hm h (by omega) (not_undefined_of_le (by omega) _), hlen]
  by_cases hall : Placed (m.place memWrite) addr.toNat w.bytes
  · rw [if_pos ⟨hne, hall⟩, if_pos hall]
  · rw [if_neg fun h => hall h.2, if_neg hall]

end

end X86Port.Memory
