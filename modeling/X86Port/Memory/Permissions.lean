import Mathlib.Data.Nat.Find
import X86Port.Memory.Places

/-!
# Permission spans

What `x86p_mem_accessible` and `x86p_mem_readable_span` answer over a contiguous window with a
permission table, byte by byte of the table, and for which inputs they answer it.

* `accessibleSpanLoop_ends`: the walk ends within as many rounds as bytes are asked for.
* `permission_spans_exact_iff`: the answers are exact unless the walk leaves the table.
-/

namespace X86Port.Memory

open Lib.Places

/-- The byte at `a` lies in the window, and the entry of its page is nonzero and contains the
mask. -/
def Permits (m : Mem) (t : PermTable m.size) (access : U32) (a : Nat) : Prop :=
  m.lo.toNat ≤ a ∧ a < m.lo.toNat + m.size.toNat ∧
    t.entries.getD ((a - m.lo.toNat) / 2 ^ t.pageShift) 0 ≠ 0 ∧
    (t.entries.getD ((a - m.lo.toNat) / 2 ^ t.pageShift) 0).setWidth 32 &&& access = access

instance (m : Mem) (t : PermTable m.size) (access : U32) (a : Nat) :
    Decidable (Permits m t access a) := inferInstanceAs (Decidable (_ ∧ _ ∧ _ ∧ _))

/-- Every byte of a range is permitted. -/
def PermitsRange (m : Mem) (t : PermTable m.size) (access : U32) (a n : Nat) : Prop :=
  ∀ i < n, Permits m t access (a + i)

instance (m : Mem) (t : PermTable m.size) (access : U32) (a n : Nat) :
    Decidable (PermitsRange m t access a n) := inferInstanceAs (Decidable (∀ i < n, _))

/-- The length of the longest readable prefix of a range. -/
def readablePrefix (m : Mem) (t : PermTable m.size) (a n : Nat) : Nat :=
  Nat.findGreatest (fun k => PermitsRange m t memRead a k) n

section

variable {m : Mem} {t : PermTable m.size} {access addr n : U32}

theorem grants_iff_permits (hperms : m.perms = some t)
    (hend : m.lo.toNat + m.size.toNat ≤ 2 ^ 32) (a : Nat) :
    m.Grants access a ↔ Permits m t access a := by
  have htable : (∀ u ∈ m.perms, u.grants access (a - m.lo.toNat) = true) ↔
      t.grants access (a - m.lo.toNat) = true := by
    rw [hperms]
    simp
  have hpage (entry : U8) : (!pageRefuses entry access) = true ↔
      entry ≠ 0 ∧ entry.setWidth 32 &&& access = access := by
    unfold pageRefuses
    simp
  unfold Mem.Grants Permits
  rw [htable, PermTable.grants, hpage]
  constructor
  · rintro ⟨hlo, hhi, -, h⟩
    exact ⟨hlo, hhi, h⟩
  · rintro ⟨hlo, hhi, h⟩
    exact ⟨hlo, hhi, by omega, h⟩

theorem placed_iff_permits (hs : m.sparse = none) (hperms : m.perms = some t)
    (hend : m.lo.toNat + m.size.toNat ≤ 2 ^ 32) (a n : Nat) :
    Placed (m.place access) a n ↔ PermitsRange m t access a n := by
  have hplace (b : Nat) : m.place access b ≠ none ↔ Permits m t access b := by
    rw [← grants_iff_permits hperms hend]
    unfold Mem.place
    rw [hs]
    dsimp only
    split_ifs with h <;> simp [h]
  exact forall₂_congr fun i _ => hplace (a + i)

/-! ## The walk ends -/

theorem backingSpan_le (hs : m.sparse = none) {max : U32} {span : Span}
    (h : backingSpan m addr max access = some span) : span.length.toNat ≤ max.toNat := by
  have hrefused : some Span.refused = some span → span.length.toNat ≤ max.toNat := by
    intro heq
    rw [← Option.some.inj heq]
    exact Nat.zero_le _
  by_cases hout : max = 0 ∨ access &&& ~~~(memRead ||| memWrite) ≠ 0
  · unfold backingSpan at h
    rw [if_pos hout] at h
    exact hrefused h
  · rw [not_or, not_not] at hout
    by_cases hover : m.Overruns access addr.toNat max.toNat
    · rw [backingSpan_of_overruns hs hout.2 hout.1 hover] at h
      cases h
    · obtain ⟨span', hspan, hof⟩ := backingSpan_spec hs hout.2 hout.1 hover
      rw [hspan] at h
      rw [← Option.some.inj h]
      exact hof.le_max

/-- Every round adds a byte or is the last, so rounds to spare change nothing. -/
theorem accessibleSpanLoop_ends (hs : m.sparse = none) (max access : U32) :
    ∀ (fuel : Nat) (cursor total : U32), max.toNat - total.toNat < fuel → ∀ k,
      accessibleSpanLoop m max access (fuel + k) cursor total =
        accessibleSpanLoop m max access fuel cursor total := by
  intro fuel
  induction fuel with
  | zero => intro _ _ hfuel; exact absurd hfuel (Nat.not_lt_zero _)
  | succ fuel ih =>
    intro cursor total hfuel k
    have hround : ∀ f, accessibleSpanLoop m max access (f + 1) cursor total =
        if total < max then
          (backingSpan m cursor (max - total) access).bind fun span =>
            if span.length = 0 then some total
            else if span.length > uint32Max - cursor then some (total + span.length)
            else accessibleSpanLoop m max access f (cursor + span.length) (total + span.length)
        else some total := fun f => rfl
    rw [show fuel + 1 + k = fuel + k + 1 by omega, hround, hround]
    by_cases hlt : total < max
    · rw [if_pos hlt, if_pos hlt]
      cases hspan : backingSpan m cursor (max - total) access with
      | none => rw [Option.bind_none, Option.bind_none]
      | some span =>
        have hle := backingSpan_le hs hspan
        rw [Option.bind_some, Option.bind_some]
        split_ifs with hzero hlast
        · rfl
        · rfl
        · exact ih _ _ (by bv_omega) k
    · rw [if_neg hlt, if_neg hlt]

/-! ## The two queries -/

/-- The first span decides a walk that it refuses or that leaves the table. -/
theorem accessibleSpan_first (hn : n ≠ 0) :
    (backingSpan m addr n access = none → accessibleSpan m addr n access = none) ∧
      (backingSpan m addr n access = some Span.refused →
        accessibleSpan m addr n access = some 0) := by
  have hround : accessibleSpan m addr n access =
      if (0 : U32) < n then
        (backingSpan m addr (n - 0) access).bind fun span =>
          if span.length = 0 then some 0
          else if span.length > uint32Max - addr then some (0 + span.length)
          else accessibleSpanLoop m n access n.toNat (addr + span.length) (0 + span.length)
      else some 0 := rfl
  rw [hround, if_pos (show (0 : U32) < n by bv_omega), show n - 0 = n from BitVec.sub_zero n]
  constructor
  · intro h
    rw [h, Option.bind_none]
  · intro h
    rw [h, Option.bind_some]
    exact if_pos rfl

/-- A mask with a bit that is no permission is refused. -/
theorem accessible_of_foreign (hforeign : ¬ AccessMask access) :
    accessible m addr n access = some false := by
  by_cases hwrap : n = 0 ∨ addr > uint32Max - (n - 1)
  · exact accessible_of_wraps hwrap
  · rw [not_or] at hwrap
    have hspan : backingSpan m addr n access = some Span.refused := by
      unfold backingSpan
      exact if_pos (Or.inr hforeign)
    unfold accessible
    rw [if_pos ⟨hwrap.1, hwrap.2⟩, (accessibleSpan_first hwrap.1).2 hspan, Option.map_some,
      decide_eq_false (Ne.symm hwrap.1)]

theorem accessible_of_overruns (hs : m.sparse = none) (ha : AccessMask access)
    (hend : addr.toNat + n.toNat ≤ 2 ^ 32) (hover : m.Overruns access addr.toNat n.toNat) :
    accessible m addr n access = none := by
  have hn : n ≠ 0 := by
    rintro rfl
    exact not_overruns_of_le (show (0 : U32).toNat ≤ 2 ^ 31 by decide) _ hover
  unfold accessible
  rw [if_pos ⟨hn, (not_wraps_iff hn).mpr hend⟩,
    (accessibleSpan_first hn).1 (backingSpan_of_overruns hs ha hn hover)]
  rfl

theorem readableSpan_of_overruns (hs : m.sparse = none)
    (hover : m.Overruns memRead addr.toNat n.toNat) : readableSpan m addr n = none := by
  have hn : n ≠ 0 := by
    rintro rfl
    exact not_overruns_of_le (show (0 : U32).toNat ≤ 2 ^ 31 by decide) _ hover
  exact (accessibleSpan_first hn).1 (backingSpan_of_overruns hs (by decide) hn hover)

theorem accessible_permits (hs : m.sparse = none) (hperms : m.perms = some t)
    (hend : m.lo.toNat + m.size.toNat ≤ 2 ^ 32) (ha : AccessMask access)
    (hsafe : ¬ m.Overruns access addr.toNat n.toNat) :
    accessible m addr n access =
      some (decide (n ≠ 0 ∧ PermitsRange m t access addr.toNat n.toNat)) := by
  rw [accessible_placed (wellFormed_window hs) ha fun h => hsafe h.2]
  congr 2
  exact propext (and_congr_right fun _ => placed_iff_permits hs hperms hend _ _)

/-- A readable run that the next byte ends, or the cap, is the longest readable prefix. -/
theorem readableSpan_permits (hs : m.sparse = none) (hperms : m.perms = some t)
    (hend : m.lo.toNat + m.size.toNat ≤ 2 ^ 32)
    (hsafe : ¬ m.Overruns memRead addr.toNat n.toNat) :
    (readableSpan m addr n).map BitVec.toNat =
      some (readablePrefix m t addr.toNat n.toNat) := by
  obtain ⟨k, hk, hle, hplaced, hstop⟩ :=
    accessibleSpan_placed (wellFormed_window hs) (show AccessMask memRead by decide)
      fun h => hsafe h.2
  rw [readableSpan, hk, Option.map_some]
  congr 1
  rw [eq_comm, readablePrefix, Nat.findGreatest_eq_iff]
  refine ⟨hle, fun _ => (placed_iff_permits hs hperms hend _ _).mp hplaced, ?_⟩
  intro j hj hjn hall
  rw [← placed_iff_permits hs hperms hend] at hall
  exact hall k.toNat hj (hstop (by omega))

/-- The inputs for which the answers are exact: neither walk leaves the table, and a mask with a
bit that is no permission is asked for bytes that do not all have it. -/
def SpansDefined (m : Mem) (t : PermTable m.size) (addr n access : U32) : Prop :=
  (AccessMask access → addr.toNat + n.toNat ≤ 2 ^ 32 →
    ¬ m.Overruns access addr.toNat n.toNat) ∧
  ¬ m.Overruns memRead addr.toNat n.toNat ∧
  (¬ AccessMask access → n ≠ 0 → ∃ i < n.toNat, ¬ Permits m t access (addr.toNat + i))

/-- The walks always end, and both queries answer what the table says just for the inputs above;
for the others the walk reads past the table or refuses a mask. -/
theorem permission_spans_exact_iff (hs : m.sparse = none) (hperms : m.perms = some t)
    (hend : m.lo.toNat + m.size.toNat ≤ 2 ^ 32) (addr n access : U32) :
    (∀ k, accessibleSpanLoop m n access (n.toNat + 1 + k) addr 0 = accessibleSpan m addr n access) ∧
    ((accessible m addr n access = some (decide (0 < n.toNat ∧ addr.toNat + n.toNat ≤ 2 ^ 32 ∧
        ∀ i < n.toNat, Permits m t access (addr.toNat + i))) ∧
      (readableSpan m addr n).map BitVec.toNat =
        some (readablePrefix m t addr.toNat n.toNat)) ↔
      SpansDefined m t addr n access) := by
  refine ⟨accessibleSpanLoop_ends hs n access (n.toNat + 1) addr 0 (by bv_omega), ?_⟩
  have hrange : PermitsRange m t access addr.toNat n.toNat → n ≠ 0 →
      addr.toNat + n.toNat ≤ 2 ^ 32 := by
    intro h hn
    obtain ⟨_, hlt, _⟩ := h (n.toNat - 1) (by bv_omega)
    bv_omega
  constructor
  · rintro ⟨hacc, hread⟩
    refine ⟨fun ha hle hover => ?_, fun hover => ?_, fun hforeign hn => ?_⟩
    · rw [accessible_of_overruns hs ha hle hover] at hacc
      cases hacc
    · rw [readableSpan_of_overruns hs hover] at hread
      cases hread
    · rw [accessible_of_foreign hforeign] at hacc
      by_contra hnone
      have hall : PermitsRange m t access addr.toNat n.toNat := fun i hi =>
        by_contra fun hnot => hnone ⟨i, hi, hnot⟩
      have hpos : 0 < n.toNat := by bv_omega
      rw [decide_eq_true ⟨hpos, hrange hall hn, hall⟩] at hacc
      cases hacc
  · rintro ⟨hsafe, hsafeRead, hforeign⟩
    refine ⟨?_, readableSpan_permits hs hperms hend hsafeRead⟩
    by_cases ha : AccessMask access
    · by_cases hle : addr.toNat + n.toNat ≤ 2 ^ 32
      · rw [accessible_permits hs hperms hend ha (hsafe ha hle)]
        congr 2
        refine propext ⟨fun h => ⟨by bv_omega, hle, h.2⟩, fun h => ⟨by bv_omega, h.2.2⟩⟩
      · have hn : n ≠ 0 := by bv_omega
        rw [accessible_of_wraps (Or.inr (not_not.mp ((not_wraps_iff hn).not.mpr hle))),
          decide_eq_false fun h => hle h.2.1]
    · rw [accessible_of_foreign ha, decide_eq_false]
      rintro ⟨hpos, -, hall⟩
      obtain ⟨i, hi, hnot⟩ := hforeign ha (by bv_omega)
      exact hnot (hall i hi)

end

/-! ## Two windows -/

/-- Every address but the last, in two pages that grant everything. -/
def wholeWindow : Mem where
  host := 0
  lo := 0
  size := 0xFFFFFFFF
  sparse := none
  perms := some ⟨[3, 3], 31, by decide, by decide, by decide⟩

def wholePages : PermTable wholeWindow.size := ⟨[3, 3], 31, by decide, by decide, by decide⟩

theorem wholePages_permits {access : U32} (haccess : (3#8).setWidth 32 &&& access = access)
    {i : Nat} (hi : i < 0xFFFFFFFF) : Permits wholeWindow wholePages access i := by
  have hpage : i / 2 ^ 31 = 0 ∨ i / 2 ^ 31 = 1 := by omega
  have hoffset : i - wholeWindow.lo.toNat = i := Nat.sub_zero i
  refine ⟨Nat.zero_le _, by simpa [wholeWindow] using hi, ?_⟩
  rw [hoffset]
  change ([3, 3] : List U8).getD (i / 2 ^ 31) 0 ≠ 0 ∧
    (([3, 3] : List U8).getD (i / 2 ^ 31) 0).setWidth 32 &&& access = access
  rcases hpage with h | h <;> rw [h] <;> exact ⟨by decide, haccess⟩

/-- The count of granted bytes wraps at the second page, and the walk goes on past the table, with
every byte asked for permitted. -/
theorem wholeWindow_overruns :
    accessible wholeWindow 0 0xFFFFFFFF#32 memRead = none ∧
      readableSpan wholeWindow 0 0xFFFFFFFF#32 = none ∧
      0 < (0xFFFFFFFF#32).toNat ∧ (0 : U32).toNat + (0xFFFFFFFF#32).toNat ≤ 2 ^ 32 ∧
      ∀ i < (0xFFFFFFFF#32).toNat, Permits wholeWindow wholePages memRead ((0 : U32).toNat + i) := by
  have hover : wholeWindow.Overruns memRead (0 : U32).toNat (0xFFFFFFFF#32).toNat :=
    ⟨rfl, wholePages, rfl, by decide, by decide⟩
  refine ⟨accessible_of_overruns rfl (by decide) (by decide) hover,
    readableSpan_of_overruns rfl hover, by decide, by decide, fun i hi => ?_⟩
  rw [show (0 : U32).toNat + i = i from Nat.zero_add i]
  exact wholePages_permits (by decide) hi

/-- Two readable pages of two bytes, the second one read only. -/
def smallWindow : Mem where
  host := 64
  lo := 0x1000
  size := 4
  sparse := none
  perms := some ⟨[3, 1], 1, by decide, by decide, by decide⟩

def smallPages : PermTable smallWindow.size := ⟨[3, 1], 1, by decide, by decide, by decide⟩

theorem smallWindow_exact :
    accessible smallWindow 0x1000 4 memWrite =
        some (decide (0 < (4 : U32).toNat ∧ (0x1000 : U32).toNat + (4 : U32).toNat ≤ 2 ^ 32 ∧
          ∀ i < (4 : U32).toNat, Permits smallWindow smallPages memWrite
            ((0x1000 : U32).toNat + i))) ∧
      (readableSpan smallWindow 0x1000 4).map BitVec.toNat =
        some (readablePrefix smallWindow smallPages (0x1000 : U32).toNat (4 : U32).toNat) :=
  (permission_spans_exact_iff rfl rfl (by decide) 0x1000 4 memWrite).2.mpr
    ⟨fun _ _ => not_overruns_of_le (by decide) _, not_overruns_of_le (by decide) _,
      fun h => absurd (by decide) h⟩

end X86Port.Memory
