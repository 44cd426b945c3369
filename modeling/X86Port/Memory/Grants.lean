import Mathlib.Data.List.GetD
import X86Port.Memory.Mem

/-!
# What a contiguous window grants

An address of a contiguous window is granted for an access when it lies in the window and
its page has the permission (`Mem.Grants`). A backing span is the longest granted run of
bytes from its address, as long as the walk over the permission table stays inside the
table; it leaves the table only for a span from the very start of a window that needs a
page ending at `2 ^ 32` (`Mem.Overruns`).

* `permWalk_spec`: the walk, page by page.
* `backingSpan_spec`, `backingSpan_of_overruns`: one span.
* `resolve_eq`, `read_eq`, `write_eq`: the operations on a whole range.
-/

namespace X86Port.Memory

open Cpu (Width)
open Lib

/-! ## Granted bytes -/

namespace PermTable

variable {size : U32}

/-- The page of an offset has the permission. -/
def grants (t : PermTable size) (access : U32) (offset : Nat) : Bool :=
  !pageRefuses (t.entries.getD (offset / 2 ^ t.pageShift) 0) access

theorem lt_two_pow (t : PermTable size) : 2 ^ t.pageShift ≤ 2 ^ 31 :=
  Nat.pow_le_pow_right (by decide) t.shift_le

/-- Every page that starts inside the window has an entry. -/
theorem lt_length_iff (t : PermTable size) {p : Nat} :
    p < t.entries.length ↔ p * 2 ^ t.pageShift < size.toNat := by
  have hpos : 0 < 2 ^ t.pageShift := Nat.two_pow_pos _
  rw [t.covers, Nat.lt_iff_add_one_le, Nat.le_div_iff_mul_le hpos, Nat.add_mul]
  omega

end PermTable

namespace Mem

/-- The byte at `a` lies in the window and its page has the permission. -/
def Grants (m : Mem) (access : U32) (a : Nat) : Prop :=
  m.lo.toNat ≤ a ∧ a < m.lo.toNat + m.size.toNat ∧ a < 2 ^ 32 ∧
    ∀ t ∈ m.perms, t.grants access (a - m.lo.toNat) = true

instance (m : Mem) (access : U32) (a : Nat) : Decidable (m.Grants access a) :=
  inferInstanceAs (Decidable (_ ∧ _ ∧ _ ∧ _))

/-- Every byte of a range is granted. -/
def GrantsRange (m : Mem) (access : U32) (a n : Nat) : Prop := ∀ i < n, m.Grants access (a + i)

instance (m : Mem) (access : U32) (a n : Nat) : Decidable (m.GrantsRange access a n) :=
  inferInstanceAs (Decidable (∀ i < n, _))

/-- The room `backing_span` leaves for a span of at most `n` bytes at the start of the
window. -/
def roomAtStart (m : Mem) (n : Nat) : Nat := min (min n m.size.toNat) (2 ^ 32 - m.lo.toNat)

/-- The walk counts granted bytes in 32 bits: from the start of the window, a run of
granted pages up to `2 ^ 32` wraps the count and the walk leaves the table. -/
def Overruns (m : Mem) (access : U32) (a n : Nat) : Prop :=
  a = m.lo.toNat ∧ ∃ t ∈ m.perms, 2 ^ 32 - 2 ^ t.pageShift < m.roomAtStart n ∧
    ∀ e ∈ t.entries, pageRefuses e access = false

end Mem

/-! ## The walk over the table -/

section Walk

variable {size : U32} (t : PermTable size) {access room : U32} {offset : Nat}

theorem toNat_pageSize : (1#32 <<< t.pageShift).toNat = 2 ^ t.pageShift := by
  have := t.lt_two_pow
  rw [BitVec.toNat_shiftLeft, BitVec.toNat_ofNat, Nat.shiftLeft_eq, Nat.one_mod_two_pow (by decide),
    Nat.one_mul, Nat.mod_eq_of_lt (by omega)]

theorem grants_of_page {p x : Nat} (hx : x / 2 ^ t.pageShift = p) :
    t.grants access x = !pageRefuses (t.entries.getD p 0) access := by
  unfold PermTable.grants
  rw [hx]

/-- The pages divide the address space. -/
theorem page_end_le {p : Nat} (hp : p * 2 ^ t.pageShift < 2 ^ 32) :
    p * 2 ^ t.pageShift + 2 ^ t.pageShift ≤ 2 ^ 32 := by
  have hsplit : 2 ^ 32 = 2 ^ (32 - t.pageShift) * 2 ^ t.pageShift := by
    rw [← Nat.pow_add]
    congr 1
    have := t.shift_le
    omega
  rw [hsplit] at hp ⊢
  rw [← Nat.succ_mul]
  exact Nat.mul_le_mul_right _ (Nat.lt_of_mul_lt_mul_right hp)

theorem getD_of_drop {p : Nat} {entry : U8} {entries : List U8}
    (h : t.entries.drop p = entry :: entries) :
    p < t.entries.length ∧ t.entries.getD p 0 = entry ∧ t.entries.drop (p + 1) = entries := by
  have hlt : p < t.entries.length := by
    by_contra hge
    rw [List.drop_eq_nil_of_le (by omega)] at h
    cases h
  rw [List.drop_eq_getElem_cons hlt] at h
  obtain ⟨hentry, hrest⟩ := List.cons.inj h
  exact ⟨hlt, by rw [List.getD_eq_getElem _ _ hlt, hentry], hrest⟩

/-- A page whose byte allows the access grants all its bytes. -/
theorem grants_page {p : Nat} {entry : U8} (hentry : t.entries.getD p 0 = entry)
    (hgrant : pageRefuses entry access = false) {x : Nat} (hlo : p * 2 ^ t.pageShift ≤ x)
    (hhi : x < p * 2 ^ t.pageShift + 2 ^ t.pageShift) : t.grants access x = true := by
  have hpage : x / 2 ^ t.pageShift = p :=
    Nat.div_eq_of_lt_le hlo (by rw [Nat.succ_mul]; exact hhi)
  rw [grants_of_page t hpage, hentry, hgrant]
  rfl

/-- From the page `p` on, with every byte up to it granted: the walk ends with the longest
granted run, up to the room asked for. -/
theorem permWalk_spec (hroom : offset + room.toNat ≤ size.toNat)
    (hsafe : 0 < offset ∨ room.toNat ≤ 2 ^ 32 - 2 ^ t.pageShift ∨
      ∃ e ∈ t.entries, pageRefuses e access = true) :
    ∀ (entries : List U8) (p : Nat) (granted : U32), t.entries.drop p = entries →
      offset + granted.toNat = p * 2 ^ t.pageShift →
      (∀ x, offset ≤ x → x < p * 2 ^ t.pageShift → t.grants access x = true) →
      ∃ g, permWalk (1#32 <<< t.pageShift) access room entries granted = some g ∧
        (∀ i < min room.toNat g.toNat, t.grants access (offset + i) = true) ∧
        (g.toNat < room.toNat → t.grants access (offset + g.toNat) = false) := by
  have hsize := size.isLt
  intro entries
  induction entries with
  | nil =>
    intro p granted hdrop hpos hall
    have hlast : ¬ p < t.entries.length := by
      have := List.drop_eq_nil_iff.mp hdrop
      omega
    rw [t.lt_length_iff] at hlast
    refine ⟨granted, ?_, ?_, ?_⟩
    · unfold permWalk
      rw [if_neg]
      rw [BitVec.lt_def]
      omega
    · intro i hi
      exact hall _ (by omega) (by omega)
    · omega
  | cons entry entries ih =>
    intro p granted hdrop hpos hall
    obtain ⟨hlt, hentry, hrest⟩ := getD_of_drop t hdrop
    have hstart := t.lt_length_iff.mp hlt
    have hend := page_end_le t (p := p) (by omega)
    unfold permWalk
    by_cases hmore : granted < room
    · rw [if_pos hmore]
      rw [BitVec.lt_def] at hmore
      cases hpage : pageRefuses entry access with
      | true =>
        refine ⟨granted, rfl, ?_, ?_⟩
        · intro i hi
          exact hall _ (by omega) (by omega)
        · intro _
          have hp : (offset + granted.toNat) / 2 ^ t.pageShift = p := by
            rw [hpos, Nat.mul_div_cancel _ (Nat.two_pow_pos _)]
          rw [grants_of_page t hp, hentry, hpage]
          rfl
      | false =>
        -- the count wraps only for a run from offset 0 that reaches the end of the space
        have hwrap : granted.toNat + 2 ^ t.pageShift < 2 ^ 32 := by
          rcases hsafe with hoff | hroom' | ⟨e, he, hrefuse⟩
          · omega
          · omega
          · by_contra hge
            obtain ⟨q, hq, rfl⟩ := List.mem_iff_getElem.mp he
            have hqsize := t.lt_length_iff.mp hq
            have hqp : q ≤ p := by
              by_contra hgt
              have hmul := Nat.mul_le_mul_right (2 ^ t.pageShift) (show p + 1 ≤ q by omega)
              rw [Nat.add_mul, Nat.one_mul] at hmul
              omega
            have hgetD : t.entries.getD q 0 = t.entries[q] := List.getD_eq_getElem _ _ hq
            rcases Nat.lt_or_ge q p with hqlt | hqge
            · have hmul := Nat.mul_lt_mul_of_pos_right hqlt (Nat.two_pow_pos t.pageShift)
              have hgrant := hall (q * 2 ^ t.pageShift) (by omega) hmul
              have hdiv : q * 2 ^ t.pageShift / 2 ^ t.pageShift = q :=
                Nat.mul_div_cancel _ (Nat.two_pow_pos _)
              rw [grants_of_page t hdiv, hgetD, hrefuse] at hgrant
              cases hgrant
            · have heq : q = p := by omega
              subst heq
              rw [hgetD] at hentry
              rw [hentry, hpage] at hrefuse
              cases hrefuse
        have hsum : (granted + 1#32 <<< t.pageShift).toNat = granted.toNat + 2 ^ t.pageShift := by
          rw [BitVec.toNat_add, toNat_pageSize, Nat.mod_eq_of_lt hwrap]
        refine ih (p + 1) _ hrest ?_ ?_
        · rw [hsum, Nat.add_mul, Nat.one_mul]
          omega
        · intro x hx hxp
          rw [Nat.add_mul, Nat.one_mul] at hxp
          rcases Nat.lt_or_ge x (p * 2 ^ t.pageShift) with h | h
          · exact hall x hx h
          · exact grants_page t hentry hpage h hxp
    · rw [if_neg hmore]
      rw [BitVec.lt_def] at hmore
      refine ⟨granted, rfl, ?_, ?_⟩
      · intro i hi
        exact hall _ (by omega) (by omega)
      · omega

/-- A run of granted pages up to the end of the address space takes the walk out of the
table. -/
theorem permWalk_eq_none (hroom : room.toNat ≤ size.toNat)
    (hlong : 2 ^ 32 - 2 ^ t.pageShift < room.toNat)
    (hall : ∀ e ∈ t.entries, pageRefuses e access = false) :
    ∀ (entries : List U8) (p : Nat) (granted : U32), t.entries.drop p = entries →
      p * 2 ^ t.pageShift ≤ 2 ^ 32 → granted.toNat = p * 2 ^ t.pageShift % 2 ^ 32 →
      permWalk (1#32 <<< t.pageShift) access room entries granted = none := by
  have hsize := size.isLt
  have hshift := t.lt_two_pow
  intro entries
  induction entries with
  | nil =>
    intro p granted hdrop hle hgranted
    have hlast : ¬ p < t.entries.length := by
      have := List.drop_eq_nil_iff.mp hdrop
      omega
    rw [t.lt_length_iff] at hlast
    have hzero : granted.toNat = 0 := by
      rcases Nat.lt_or_ge (p * 2 ^ t.pageShift) (2 ^ 32) with h | h
      · have := page_end_le t h
        omega
      · rw [hgranted, show p * 2 ^ t.pageShift = 2 ^ 32 by omega, Nat.mod_self]
    unfold permWalk
    rw [if_pos]
    rw [BitVec.lt_def]
    omega
  | cons entry entries ih =>
    intro p granted hdrop hle hgranted
    obtain ⟨hlt, hentry, hrest⟩ := getD_of_drop t hdrop
    have hstart := t.lt_length_iff.mp hlt
    have hend := page_end_le t (p := p) (by omega)
    rw [Nat.mod_eq_of_lt (by omega)] at hgranted
    have hgrant : pageRefuses entry access = false := by
      rw [← hentry, List.getD_eq_getElem _ _ hlt]
      exact hall _ (List.getElem_mem hlt)
    unfold permWalk
    rw [if_pos (by rw [BitVec.lt_def]; omega), hgrant]
    refine ih (p + 1) _ hrest ?_ ?_
    · rw [Nat.add_mul, Nat.one_mul]
      exact hend
    · rw [BitVec.toNat_add, toNat_pageSize, hgranted, Nat.add_mul, Nat.one_mul]

end Walk

/-! ## One backing span -/

/-- The access masks `backing_span` takes. -/
def AccessMask (access : U32) : Prop := access &&& ~~~(memRead ||| memWrite) = 0

instance (access : U32) : Decidable (AccessMask access) := inferInstanceAs (Decidable (_ = _))

/-- What a span answers: a granted run that is as long as it can be. -/
structure SpanOf (m : Mem) (access addr max : U32) (span : Span) : Prop where
  le_max : span.length.toNat ≤ max.toNat
  granted : m.GrantsRange access addr.toNat span.length.toNat
  maximal : span.length.toNat < max.toNat → ¬ m.Grants access (addr.toNat + span.length.toNat)
  host : span.length ≠ 0 → span.host = m.host + (addr.toNat - m.lo.toNat)

theorem spanOf_refused {m : Mem} {access addr max : U32}
    (h : ¬ m.Grants access addr.toNat) : SpanOf m access addr max Span.refused where
  le_max := Nat.zero_le _
  granted := fun i hi => absurd hi (Nat.not_lt_zero i)
  maximal := fun _ => h
  host := fun hne => absurd rfl hne

/-- The room before the permissions are looked at. -/
def room (m : Mem) (addr max : U32) : U32 :=
  let room := m.size - (addr - m.lo)
  let room := if room > max then max else room
  if addr > uint32Max - (room - 1) then uint32Max - addr + 1 else room

theorem toNat_min (a b : U32) : (if a > b then b else a).toNat = min a.toNat b.toNat := by
  split_ifs <;> bv_omega

/-- A length cut to the addresses below `2 ^ 32`. -/
theorem toNat_below (addr : U32) {n : U32} (hn : n ≠ 0) :
    (if addr > uint32Max - (n - 1) then uint32Max - addr + 1 else n).toNat =
      min n.toNat (2 ^ 32 - addr.toNat) := by
  by_cases hwraps : addr > uint32Max - (n - 1)
  · have hover : 2 ^ 32 < addr.toNat + n.toNat := by
      by_contra hnot
      exact (not_wraps_iff hn).mpr (Nat.le_of_not_lt hnot) hwraps
    have hlt := n.isLt
    have hrest : (uint32Max - addr + 1).toNat = 2 ^ 32 - addr.toNat := by
      unfold uint32Max
      bv_omega
    rw [if_pos hwraps, hrest]
    omega
  · have hfits := (not_wraps_iff hn).mp hwraps
    rw [if_neg hwraps]
    omega

theorem toNat_room {m : Mem} {addr max : U32} (hmax : max ≠ 0) (hlo : ¬ addr < m.lo)
    (hoff : ¬ addr - m.lo ≥ m.size) :
    (room m addr max).toNat = min (min max.toNat (m.size.toNat - (addr.toNat - m.lo.toNat)))
      (2 ^ 32 - addr.toNat) ∧ 0 < (room m addr max).toNat := by
  have hpos : 0 < max.toNat := BitVec.toNat_pos_of_ne_zero hmax
  have hinside : (m.size - (addr - m.lo)).toNat = m.size.toNat - (addr.toNat - m.lo.toNat) ∧
      0 < m.size.toNat - (addr.toNat - m.lo.toNat) := by
    bv_omega
  have hcut := toNat_min (m.size - (addr - m.lo)) max
  have hne : (if m.size - (addr - m.lo) > max then max else m.size - (addr - m.lo)) ≠ 0 := by
    intro hzero
    have hz : (0 : U32).toNat = 0 := rfl
    rw [hzero, hinside.1] at hcut
    omega
  have hroom := toNat_below addr hne
  rw [hcut, hinside.1, Nat.min_comm _ max.toNat] at hroom
  have haddr := addr.isLt
  unfold room
  dsimp only
  rw [hroom]
  exact ⟨rfl, by omega⟩

section Backing

variable {m : Mem} {access addr max : U32}

theorem backingSpan_refused (hs : m.sparse = none) (ha : AccessMask access) (hmax : max ≠ 0)
    (hout : m.size = 0 ∨ addr < m.lo ∨ addr - m.lo ≥ m.size) :
    backingSpan m addr max access = some Span.refused ∧ ¬ m.Grants access addr.toNat := by
  constructor
  · unfold backingSpan
    rw [if_neg (by simp only [not_or, not_not]; exact ⟨hmax, ha⟩), hs]
    dsimp only
    by_cases h : m.size = 0 ∨ addr < m.lo
    · rw [if_pos h]
    · rw [if_neg h, if_pos (by tauto)]
  · rintro ⟨h1, h2, -, -⟩
    rcases hout with h | h | h <;> bv_omega

theorem backingSpan_inside (hs : m.sparse = none) (ha : AccessMask access) (hmax : max ≠ 0)
    (hlo : ¬ addr < m.lo) (hoff : ¬ addr - m.lo ≥ m.size) :
    backingSpan m addr max access =
      match m.perms with
      | none => some ⟨room m addr max, m.host + (addr - m.lo).toNat⟩
      | some table =>
        match table.entries[((addr - m.lo) >>> table.pageShift).toNat]? with
        | none => none
        | some first =>
          if pageRefuses first access then some Span.refused
          else
            (permWalk (1#32 <<< table.pageShift) access (room m addr max)
              (table.entries.drop (((addr - m.lo) >>> table.pageShift).toNat + 1))
              (1#32 <<< table.pageShift -
                ((addr - m.lo) &&& (1#32 <<< table.pageShift - 1)))).map
              fun granted => ⟨if room m addr max > granted then granted else room m addr max,
                m.host + (addr - m.lo).toNat⟩ := by
  unfold backingSpan
  rw [if_neg (by simp only [not_or, not_not]; exact ⟨hmax, ha⟩), hs]
  dsimp only
  rw [if_neg (show ¬ (m.size = 0 ∨ addr < m.lo) by bv_omega), if_neg hoff]
  rfl

/-- Where an offset lies: its page, its entry, and the bytes to the end of the page. -/
theorem page_of_offset (t : PermTable m.size) (hlo : ¬ addr < m.lo)
    (hoff : ¬ addr - m.lo ≥ m.size) :
    let p := (addr.toNat - m.lo.toNat) / 2 ^ t.pageShift
    ((addr - m.lo) >>> t.pageShift).toNat = p ∧ p < t.entries.length ∧
      addr.toNat - m.lo.toNat +
        (1#32 <<< t.pageShift - ((addr - m.lo) &&& (1#32 <<< t.pageShift - 1))).toNat =
          (p + 1) * 2 ^ t.pageShift := by
  have hsub : (addr - m.lo).toNat = addr.toNat - m.lo.toNat := by bv_omega
  have hpos : 0 < 2 ^ t.pageShift := Nat.two_pow_pos _
  have hshift := t.lt_two_pow
  have hmod := Nat.mod_lt (addr.toNat - m.lo.toNat) hpos
  have hdiv := Nat.div_add_mod (addr.toNat - m.lo.toNat) (2 ^ t.pageShift)
  have hsize : addr.toNat - m.lo.toNat < m.size.toNat := by bv_omega
  have hmask : ((addr - m.lo) &&& (1#32 <<< t.pageShift - 1)).toNat =
      (addr.toNat - m.lo.toNat) % 2 ^ t.pageShift := by
    have hone : (1#32 <<< t.pageShift - 1).toNat = 2 ^ t.pageShift - 1 := by
      rw [BitVec.toNat_sub, toNat_pageSize]
      simp only [BitVec.ofNat_eq_ofNat, BitVec.toNat_ofNat]
      omega
    rw [BitVec.toNat_and, hone, hsub, Nat.and_two_pow_sub_one_eq_mod]
  refine ⟨?_, ?_, ?_⟩
  · rw [BitVec.toNat_ushiftRight, Nat.shiftRight_eq_div_pow, hsub]
  · rw [t.lt_length_iff]
    rw [Nat.mul_comm] at hdiv
    omega
  · rw [BitVec.toNat_sub, toNat_pageSize, hmask, Nat.add_mul, Nat.one_mul,
      Nat.mul_comm _ (2 ^ t.pageShift)]
    omega

/-- Inside the window, only the permissions decide. -/
theorem grants_iff (hlo : ¬ addr < m.lo) (hoff : ¬ addr - m.lo ≥ m.size) (hmax : max ≠ 0)
    {i : Nat} (hi : i < (room m addr max).toNat) :
    m.Grants access (addr.toNat + i) ↔
      ∀ t ∈ m.perms, t.grants access (addr.toNat - m.lo.toNat + i) = true := by
  obtain ⟨hroom, -⟩ := toNat_room hmax hlo hoff
  have hle : m.lo.toNat ≤ addr.toNat := by bv_omega
  rw [hroom] at hi
  unfold Mem.Grants
  rw [show addr.toNat + i - m.lo.toNat = addr.toNat - m.lo.toNat + i by omega]
  constructor
  · rintro ⟨-, -, -, h⟩
    exact h
  · intro h
    exact ⟨by omega, by omega, by omega, h⟩

theorem not_grants_room (hlo : ¬ addr < m.lo) (hoff : ¬ addr - m.lo ≥ m.size) (hmax : max ≠ 0)
    (h : (room m addr max).toNat < max.toNat) :
    ¬ m.Grants access (addr.toNat + (room m addr max).toNat) := by
  obtain ⟨hroom, -⟩ := toNat_room hmax hlo hoff
  rintro ⟨-, h2, h3, -⟩
  have hle : m.lo.toNat ≤ addr.toNat := by bv_omega
  omega

theorem backingSpan_spec (hs : m.sparse = none) (ha : AccessMask access) (hmax : max ≠ 0)
    (hsafe : ¬ m.Overruns access addr.toNat max.toNat) :
    ∃ span, backingSpan m addr max access = some span ∧ SpanOf m access addr max span := by
  by_cases hout : m.size = 0 ∨ addr < m.lo ∨ addr - m.lo ≥ m.size
  · obtain ⟨hspan, hgrants⟩ := backingSpan_refused hs ha hmax hout
    exact ⟨_, hspan, spanOf_refused hgrants⟩
  · simp only [not_or] at hout
    obtain ⟨-, hlo, hoff⟩ := hout
    obtain ⟨hroom, hpos⟩ := toNat_room hmax hlo hoff
    have hsub : (addr - m.lo).toNat = addr.toNat - m.lo.toNat := by bv_omega
    have hmax' : (room m addr max).toNat ≤ max.toNat := by omega
    have hinside : addr.toNat - m.lo.toNat + (room m addr max).toNat ≤ m.size.toNat := by
      bv_omega
    rw [backingSpan_inside hs ha hmax hlo hoff]
    cases hperms : m.perms with
    | none =>
      refine ⟨_, rfl, ⟨hmax', ?_, ?_, ?_⟩⟩
      · intro i hi
        rw [grants_iff hlo hoff hmax hi, hperms]
        simp
      · exact fun h => not_grants_room hlo hoff hmax h
      · intro _
        dsimp only
        rw [hsub]
    | some t =>
      obtain ⟨hpage, hlt, hend⟩ := page_of_offset t hlo hoff
      simp only [hpage]
      generalize hp : (addr.toNat - m.lo.toNat) / 2 ^ t.pageShift = p at hpage hlt hend
      generalize hg : 1#32 <<< t.pageShift - ((addr - m.lo) &&& (1#32 <<< t.pageShift - 1)) =
        granted at hend
      have hgetD : t.entries.getD p 0 = t.entries[p] := List.getD_eq_getElem _ _ hlt
      rw [List.getElem?_eq_getElem hlt]
      dsimp only
      cases hfirst : pageRefuses t.entries[p] access with
      | true =>
        refine ⟨_, rfl, spanOf_refused ?_⟩
        intro hgrants
        have := (grants_iff hlo hoff hmax hpos (i := 0)).mp hgrants t hperms
        rw [Nat.add_zero, grants_of_page t hp, hgetD, hfirst] at this
        cases this
      | false =>
        have hsafe' : 0 < addr.toNat - m.lo.toNat ∨
            (room m addr max).toNat ≤ 2 ^ 32 - 2 ^ t.pageShift ∨
            ∃ e ∈ t.entries, pageRefuses e access = true := by
          by_contra hno
          simp only [not_or, not_exists, not_and, Bool.not_eq_true] at hno
          obtain ⟨hzero, hlong, hall⟩ := hno
          have hstart : addr.toNat = m.lo.toNat := by bv_omega
          refine hsafe ⟨hstart, t, hperms, ?_, hall⟩
          unfold Mem.roomAtStart
          omega
        have hbefore : ∀ x, addr.toNat - m.lo.toNat ≤ x → x < (p + 1) * 2 ^ t.pageShift →
            t.grants access x = true := by
          intro x hx hxp
          rw [Nat.add_mul, Nat.one_mul] at hxp
          have hple := Nat.div_mul_le_self (addr.toNat - m.lo.toNat) (2 ^ t.pageShift)
          rw [hp] at hple
          exact grants_page t hgetD hfirst (by omega) hxp
        obtain ⟨g, hwalk, hbelow, habove⟩ := permWalk_spec t hinside hsafe' _ (p + 1) granted rfl
          hend hbefore
        rw [hwalk]
        refine ⟨_, rfl, ?_⟩
        have hlen : (if room m addr max > g then g else room m addr max).toNat =
            min (room m addr max).toNat g.toNat := toNat_min _ _
        have hmin := Nat.le_trans (Nat.min_le_left (room m addr max).toNat g.toNat) hmax'
        refine ⟨by dsimp only; rw [hlen]; exact hmin, ?_, ?_, ?_⟩
        · intro i hi
          dsimp only at hi
          rw [hlen] at hi
          have hi' : i < (room m addr max).toNat := Nat.lt_of_lt_of_le hi (Nat.min_le_left _ _)
          rw [grants_iff hlo hoff hmax hi']
          intro t' ht'
          cases Option.some.inj (hperms.symm.trans ht')
          exact hbelow i hi
        · intro hshort
          dsimp only at hshort ⊢
          rw [hlen] at hshort ⊢
          rcases Nat.lt_or_ge g.toNat (room m addr max).toNat with h | h
          · rw [Nat.min_eq_right (by omega), grants_iff hlo hoff hmax h]
            intro hall
            have := hall t hperms
            rw [habove h] at this
            cases this
          · rw [Nat.min_eq_left h] at hshort ⊢
            exact not_grants_room hlo hoff hmax hshort
        · intro _
          dsimp only
          rw [hsub]

theorem backingSpan_of_overruns (hs : m.sparse = none) (ha : AccessMask access) (hmax : max ≠ 0)
    (hover : m.Overruns access addr.toNat max.toNat) : backingSpan m addr max access = none := by
  obtain ⟨hstart, t, hperms, hlong, hall⟩ := hover
  have hshift := t.lt_two_pow
  unfold Mem.roomAtStart at hlong
  have hlo : ¬ addr < m.lo := by bv_omega
  have hoff : ¬ addr - m.lo ≥ m.size := by bv_omega
  obtain ⟨hroom, hpos⟩ := toNat_room hmax hlo hoff
  obtain ⟨hpage, hlt, hend⟩ := page_of_offset t hlo hoff
  rw [hstart, Nat.sub_self, Nat.zero_div] at hpage hlt hend
  rw [backingSpan_inside hs ha hmax hlo hoff, hperms]
  dsimp only
  rw [hpage, List.getElem?_eq_getElem hlt]
  dsimp only
  rw [if_neg (by rw [hall _ (List.getElem_mem hlt)]; decide),
    permWalk_eq_none t (by omega) (by omega) hall _ 1 _ rfl (by omega) (by omega)]
  rfl

end Backing

/-! ## Whole ranges -/

/-- The host address of a guest address in a contiguous window. -/
def Mem.hostOf (m : Mem) (a : Nat) : Nat := m.host + (a - m.lo.toNat)

section Range

variable {m : Mem} {access addr n : U32} {span : Span}

theorem not_overruns_of_le {k : Nat} (hk : k ≤ 2 ^ 31) (a : Nat) : ¬ m.Overruns access a k := by
  rintro ⟨-, t, -, hlong, -⟩
  have := t.lt_two_pow
  unfold Mem.roomAtStart at hlong
  omega

/-- A range that wraps is not granted. -/
theorem not_grantsRange_of_wraps (hn : n ≠ 0) (hwrap : addr > uint32Max - (n - 1)) :
    ¬ m.GrantsRange access addr.toNat n.toNat := by
  intro h
  unfold uint32Max at hwrap
  obtain ⟨-, -, hlt, -⟩ := h (n.toNat - 1) (by bv_omega)
  bv_omega

/-- The span of a range is the whole range exactly when all of it is granted. -/
theorem SpanOf.length_eq_iff (h : SpanOf m access addr n span) :
    span.length = n ↔ m.GrantsRange access addr.toNat n.toNat := by
  constructor
  · intro heq
    have := h.granted
    rwa [heq] at this
  · intro hall
    by_contra hne
    have hlt : span.length.toNat < n.toNat := by
      have := h.le_max
      bv_omega
    exact h.maximal hlt (hall _ hlt)

theorem resolve_eq (hs : m.sparse = none) (hn : n ≠ 0)
    (hsafe : ¬ m.Overruns memRead addr.toNat n.toNat) :
    resolve m addr n = some (if m.GrantsRange memRead addr.toNat n.toNat then
      some (m.hostOf addr.toNat) else none) := by
  obtain ⟨span, hspan, hof⟩ := backingSpan_spec hs (by decide) hn hsafe
  unfold resolve
  rw [hs]
  dsimp only
  rw [if_neg hn, hspan, Option.map_some]
  by_cases hlen : span.length = n
  · rw [if_neg (not_not.mpr hlen), if_pos (hof.length_eq_iff.mp hlen),
      hof.host (by rw [hlen]; exact hn)]
    rfl
  · rw [if_pos hlen, if_neg (fun h => hlen (hof.length_eq_iff.mpr h))]

theorem resolve_zero (hs : m.sparse = none) : resolve m addr 0 = some none := by
  unfold resolve
  rw [hs]
  rfl

theorem resolve_of_overruns (hs : m.sparse = none) (hn : n ≠ 0)
    (hover : m.Overruns memRead addr.toNat n.toNat) : resolve m addr n = none := by
  unfold resolve
  rw [hs]
  dsimp only
  rw [if_neg hn, backingSpan_of_overruns hs (by decide) hn hover]
  rfl

/-- A span cut short leaves the range inaccessible: the next span is empty. -/
theorem accessible_of_short (hs : m.sparse = none) (ha : AccessMask access)
    (hn : n ≠ 0) (hsmall : n.toNat ≤ 2 ^ 31) (hwrap : ¬ addr > uint32Max - (n - 1))
    (hspan : backingSpan m addr n access = some span) (hof : SpanOf m access addr n span)
    (hshort : span.length ≠ n) : accessible m addr n access = some false := by
  have hle := hof.le_max
  have hlt : span.length.toNat < n.toNat := by bv_omega
  have htotal : accessibleSpan m addr n access = some span.length := by
    unfold accessibleSpan accessibleSpanLoop
    rw [if_pos (show (0 : U32) < n by bv_omega), show n - 0 = n by bv_omega, hspan,
      Option.bind_some]
    by_cases hzero : span.length = 0
    · rw [if_pos hzero, hzero]
    · rw [if_neg hzero, show (0 : U32) + span.length = span.length by bv_omega]
      split_ifs with hlast
      · rfl
      · obtain ⟨k, hk⟩ : ∃ k, n.toNat = k + 1 := ⟨n.toNat - 1, by bv_omega⟩
        rw [hk]
        unfold accessibleSpanLoop
        unfold uint32Max at hlast hwrap
        have hsum : (addr + span.length).toNat = addr.toNat + span.length.toNat := by bv_omega
        obtain ⟨next, hnext, hofNext⟩ := backingSpan_spec hs ha
          (show n - span.length ≠ 0 by bv_omega)
          (not_overruns_of_le (show (n - span.length).toNat ≤ 2 ^ 31 by bv_omega)
            (addr + span.length).toNat)
        have hempty : next.length = 0 := by
          by_contra hne
          have hgrant := hofNext.granted 0 (by bv_omega)
          rw [Nat.add_zero, hsum] at hgrant
          exact hof.maximal hlt hgrant
        rw [if_pos (show span.length < n by bv_omega), hnext, Option.bind_some, if_pos hempty]
  unfold accessible
  rw [if_pos ⟨hn, hwrap⟩, htotal, Option.map_some, decide_eq_false hshort]

theorem accessible_of_wraps (hwrap : n = 0 ∨ addr > uint32Max - (n - 1)) :
    accessible m addr n access = some false := by
  unfold accessible
  rw [if_neg]
  rintro ⟨hn, hnot⟩
  rcases hwrap with h | h
  · exact hn h
  · exact hnot h

/-- One walk answers for a small range: the whole of it, or not accessible. -/
theorem oneSpan_cases (hs : m.sparse = none) (ha : AccessMask access) (hn : n ≠ 0)
    (hsmall : n.toNat ≤ 2 ^ 31) :
    (m.GrantsRange access addr.toNat n.toNat ∧
      oneSpan m addr n access = some (some (m.hostOf addr.toNat))) ∨
    (¬ m.GrantsRange access addr.toNat n.toNat ∧ oneSpan m addr n access = some none ∧
      accessible m addr n access = some false) := by
  unfold oneSpan
  by_cases hwrap : addr > uint32Max - (n - 1)
  · right
    exact ⟨not_grantsRange_of_wraps hn hwrap, if_pos (Or.inr hwrap),
      accessible_of_wraps (Or.inr hwrap)⟩
  · rw [if_neg (by simp only [not_or]; exact ⟨hn, hwrap⟩), hs]
    obtain ⟨span, hspan, hof⟩ := backingSpan_spec hs ha hn
      (not_overruns_of_le hsmall addr.toNat)
    dsimp only
    rw [hspan, Option.map_some]
    by_cases hlen : span.length = n
    · left
      refine ⟨hof.length_eq_iff.mp hlen, ?_⟩
      rw [if_pos hlen, hof.host (by rw [hlen]; exact hn)]
      rfl
    · right
      exact ⟨fun h => hlen (hof.length_eq_iff.mpr h), by rw [if_neg hlen],
        accessible_of_short hs ha hn hsmall hwrap hspan hof hlen⟩

theorem readBytes_eq (hs : m.sparse = none) (h : Host) (hn : n ≠ 0) (hsmall : n.toNat ≤ 2 ^ 31) :
    readBytes m h addr n = some (if m.GrantsRange memRead addr.toNat n.toNat then
      some (Bytes.load h.bytes (m.hostOf addr.toNat) n.toNat) else none) := by
  unfold readBytes
  rcases @oneSpan_cases m memRead addr n hs (by decide) hn hsmall with
    ⟨hall, hone⟩ | ⟨hnot, hone, hacc⟩
  · rw [hone, if_pos hall]
    rfl
  · rw [hone, if_neg hnot, Option.bind_some, hacc]
    rfl

theorem writeBytes_eq (hs : m.sparse = none) (h : Host) {input : List U8}
    (hn : input.length ≠ 0) (hsmall : input.length ≤ 2 ^ 31) :
    writeBytes m h addr input =
      some (if m.GrantsRange memWrite addr.toNat input.length then
        some ((h.notify addr (BitVec.ofNat 32 input.length)).store (m.hostOf addr.toNat) input)
        else none) := by
  have hlen : (BitVec.ofNat 32 input.length).toNat = input.length := by
    rw [BitVec.toNat_ofNat, Nat.mod_eq_of_lt (by omega)]
  have hne : BitVec.ofNat 32 input.length ≠ 0 := by
    intro hz
    rw [hz] at hlen
    exact hn hlen.symm
  unfold writeBytes
  dsimp only
  rcases @oneSpan_cases m memWrite addr _ hs (by decide) hne (by rw [hlen]; exact hsmall) with
    ⟨hall, hone⟩ | ⟨hnot, hone, hacc⟩
  · rw [hlen] at hall
    rw [hone, if_pos hall]
    rfl
  · rw [hlen] at hnot
    rw [hone, if_neg hnot, Option.bind_some, hacc]
    rfl

end Range

/-! ## Integers -/

theorem length_bytesOf (n : Nat) (value : U32) : (bytesOf n value).length = n := by
  induction n generalizing value with
  | zero => rfl
  | succ n ih => rw [bytesOf, List.length_cons, ih]

/-- The value of `k` bytes has no bit past them. -/
theorem getLsbD_valueOf {bs : List U8} {i : Nat} (hi : 8 * bs.length ≤ i) :
    (valueOf bs).getLsbD i = false := by
  induction bs generalizing i with
  | nil => simp [valueOf]
  | cons b bs ih =>
    rw [List.length_cons] at hi
    rw [valueOf, BitVec.getLsbD_or, BitVec.getLsbD_shiftLeft, ih (by omega),
      BitVec.getLsbD_setWidth, BitVec.getLsbD_of_ge b i (by omega)]
    simp

theorem bytesOf_valueOf {bs : List U8} (hlen : bs.length ≤ 4) :
    bytesOf bs.length (valueOf bs) = bs := by
  induction bs with
  | nil => rfl
  | cons b bs ih =>
    rw [List.length_cons] at hlen
    have hhead : (valueOf bs <<< 8 ||| b.setWidth 32).setWidth 8 = b := by
      apply BitVec.eq_of_getLsbD_eq
      intro i hi
      rw [BitVec.getLsbD_setWidth, BitVec.getLsbD_or, BitVec.getLsbD_shiftLeft,
        BitVec.getLsbD_setWidth]
      simp [hi, show i < 32 by omega]
    have htail : (valueOf bs <<< 8 ||| b.setWidth 32) >>> 8 = valueOf bs := by
      apply BitVec.eq_of_getLsbD_eq
      intro i hi
      rw [BitVec.getLsbD_ushiftRight, BitVec.getLsbD_or, BitVec.getLsbD_shiftLeft,
        BitVec.getLsbD_setWidth, BitVec.getLsbD_of_ge b (8 + i) (by omega)]
      rcases Nat.lt_or_ge i 24 with hlt | hge
      · simp [show 8 + i < 32 by omega]
      · rw [getLsbD_valueOf (show 8 * bs.length ≤ i by omega)]
        simp [show ¬ 8 + i < 32 by omega]
    rw [List.length_cons, bytesOf, valueOf, hhead, htail, ih (by omega)]

theorem bytes_ne_zero (w : Width) : w.bytes ≠ 0 ∧ w.bytes ≤ 4 := by
  cases w <;> decide

section Integers

variable {m : Mem} {addr : U32}

theorem read_eq (hs : m.sparse = none) (h : Host) (w : Width) :
    read m h addr w = some (if m.GrantsRange memRead addr.toNat w.bytes then
      some (valueOf (Bytes.load h.bytes (m.hostOf addr.toNat) w.bytes)) else none) := by
  obtain ⟨hpos, hle⟩ := bytes_ne_zero w
  have hlen : (BitVec.ofNat 32 w.bytes).toNat = w.bytes := by
    rw [BitVec.toNat_ofNat, Nat.mod_eq_of_lt (by omega)]
  have hne : BitVec.ofNat 32 w.bytes ≠ 0 := by
    intro hz
    rw [hz] at hlen
    exact hpos hlen.symm
  unfold read
  rw [readBytes_eq hs h hne (by omega), hlen]
  by_cases hall : m.GrantsRange memRead addr.toNat w.bytes
  · rw [if_pos hall, if_pos hall]
    rfl
  · rw [if_neg hall, if_neg hall]
    rfl

theorem write_eq (hs : m.sparse = none) (h : Host) (w : Width) (value : U32) :
    write m h addr w value = some (if m.GrantsRange memWrite addr.toNat w.bytes then
      some ((h.notify addr (BitVec.ofNat 32 w.bytes)).store (m.hostOf addr.toNat)
        (bytesOf w.bytes value)) else none) := by
  obtain ⟨hpos, hle⟩ := bytes_ne_zero w
  have hlen := length_bytesOf w.bytes value
  unfold write
  rw [writeBytes_eq hs h (by omega) (by omega), hlen]

/-- Storing the value that was read moves the bytes as they lie. -/
theorem store_valueOf_load (h : Host) (dst src : Nat) (w : Width) :
    h.store dst (bytesOf w.bytes (valueOf (Bytes.load h.bytes src w.bytes))) =
      h.copy dst src w.bytes := by
  have hlen := Bytes.length_load h.bytes src w.bytes
  have hround := @bytesOf_valueOf (Bytes.load h.bytes src w.bytes)
    (by rw [hlen]; exact (bytes_ne_zero w).2)
  rw [hlen] at hround
  rw [Host.store, hround, Bytes.store_load, Host.copy]

end Integers

end X86Port.Memory
