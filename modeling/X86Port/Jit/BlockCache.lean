import Mathlib.Logic.Function.Basic
import X86Port.Word

/-!
# The block cache

jit-common's block cache as the engine uses it: a map from guest addresses to the host code of
their translations, whose operations are a parameter.

* `BlockCache.Lawful`: what the engine relies on, over the map a cache holds.
* `listCache_lawful`: a list of translations is such a cache.
-/

namespace X86Port.Jit

/-- A translation the cache holds. -/
structure CachedBlock where
  exec : Nat
  guestLen : U32
  guarded : Bool
deriving DecidableEq

/-- Whether the translation of `guest` meets the addresses from `lo` to `hi`. -/
def CachedBlock.Meets (b : CachedBlock) (guest lo hi : U32) : Prop :=
  guest < hi ∧ guest.toNat + b.guestLen.toNat > lo.toNat

/-- The operations; a lookup also counts itself. -/
structure BlockCache (κ : Type) where
  lookup : κ → U32 → Option Nat × κ
  lookupRefusing : κ → U32 → Option Nat × κ
  insert : κ → U32 → Nat → U32 → Bool × κ
  guard : κ → U32 → κ
  invalidateRange : κ → U32 → U32 → Nat × κ
  flush : κ → κ
  count : κ → Nat

/-- A cache is a map from guest addresses. A refusing lookup answers only with an unguarded
translation, a range invalidation drops every translation that meets the range, and a cache that
counts no block holds none. -/
structure BlockCache.Lawful {κ : Type} (cache : BlockCache κ)
    (view : κ → U32 → Option CachedBlock) : Prop where
  lookup : ∀ c guest, (cache.lookup c guest).1 = (view c guest).map CachedBlock.exec ∧
    view (cache.lookup c guest).2 = view c
  refusing : ∀ c guest, (∀ exec, (cache.lookupRefusing c guest).1 = some exec →
    ∃ b, view c guest = some b ∧ b.exec = exec ∧ b.guarded = false) ∧
    view (cache.lookupRefusing c guest).2 = view c
  insert : ∀ c guest exec len, if (cache.insert c guest exec len).1 then
      ∃ guarded, view (cache.insert c guest exec len).2 =
        Function.update (view c) guest (some ⟨exec, len, guarded⟩)
    else view (cache.insert c guest exec len).2 = view c
  guard : ∀ c guest, view (cache.guard c guest) =
    Function.update (view c) guest ((view c guest).map fun b => { b with guarded := true })
  range : ∀ c lo hi, (∀ guest b, view (cache.invalidateRange c lo hi).2 guest = some b →
      view c guest = some b ∧ ¬ b.Meets guest lo hi) ∧
    ((cache.invalidateRange c lo hi).1 = 0 → view (cache.invalidateRange c lo hi).2 = view c)
  flush : ∀ c guest b, view (cache.flush c) guest = some b → view c guest = some b
  count : ∀ c, cache.count c = 0 → view c = fun _ => none

/-! ## A cache that is a list -/

abbrev CacheList := List (U32 × CachedBlock)

namespace CacheList

def find (c : CacheList) (guest : U32) : Option CachedBlock :=
  (List.find? (fun p => decide (p.1 = guest)) c).map Prod.snd

/-- The translations of the addresses that stay. -/
def keep (c : CacheList) (stays : U32 → Bool) : CacheList := List.filter (fun p => stays p.1) c

theorem find_keep (c : CacheList) (stays : U32 → Bool) (guest : U32) :
    find (keep c stays) guest = if stays guest then find c guest else none := by
  unfold find keep
  rw [List.find?_filter]
  cases hstays : stays guest with
  | true =>
    rw [if_pos rfl]
    congr 2
    ext p
    by_cases hp : p.1 = guest
    · rw [hp, hstays]
      simp
    · simp [hp]
  | false =>
    rw [if_neg Bool.false_ne_true, Option.map_eq_none_iff, List.find?_eq_none]
    intro p _
    by_cases hp : p.1 = guest
    · rw [hp, hstays]
      simp
    · simp [hp]

def meets (c : CacheList) (lo hi guest : U32) : Bool :=
  match find c guest with
  | none => false
  | some b => decide (guest < hi ∧ guest.toNat + b.guestLen.toNat > lo.toNat)

end CacheList

/-- A cache of at most `capacity` translations. -/
def listCache (capacity : Nat) : BlockCache CacheList where
  lookup := fun c guest => ((c.find guest).map CachedBlock.exec, c)
  lookupRefusing := fun c guest =>
    (((c.find guest).filter fun b => !b.guarded).map CachedBlock.exec, c)
  insert := fun c guest exec len =>
    let kept := c.keep fun g => decide (g ≠ guest)
    if kept.length < capacity then (true, (guest, ⟨exec, len, false⟩) :: kept) else (false, c)
  guard := fun c guest =>
    match c.find guest with
    | none => c
    | some b => (guest, { b with guarded := true }) :: c.keep fun g => decide (g ≠ guest)
  invalidateRange := fun c lo hi =>
    let kept := c.keep fun g => !c.meets lo hi g
    (c.length - kept.length, kept)
  flush := fun _ => []
  count := fun c => c.length

theorem CacheList.find_cons_keep (c : CacheList) (guest : U32) (b : CachedBlock) :
    find ((guest, b) :: keep c fun g => decide (g ≠ guest)) =
      Function.update (find c) guest (some b) := by
  funext g
  by_cases hg : g = guest
  · rw [hg, Function.update_self]
    unfold find
    rw [List.find?_cons_of_pos (by simp)]
    rfl
  · rw [Function.update_of_ne hg]
    have hkeep := find_keep c (fun x => decide (x ≠ guest)) g
    rw [if_pos (by simp [hg])] at hkeep
    rw [← hkeep]
    unfold find
    rw [List.find?_cons_of_neg (by simp only [decide_eq_true_eq]; exact fun h => hg h.symm)]

theorem listCache_lawful (capacity : Nat) : (listCache capacity).Lawful CacheList.find where
  lookup := fun _ _ => ⟨rfl, rfl⟩
  refusing := by
    refine fun c guest => ⟨fun exec h => ?_, rfl⟩
    obtain ⟨b, hb, hexec⟩ := Option.map_eq_some_iff.mp h
    obtain ⟨hfind, hguard⟩ := Option.filter_eq_some_iff.mp hb
    exact ⟨b, hfind, hexec, by simpa using hguard⟩
  insert := by
    intro c guest exec len
    by_cases hroom : (c.keep fun g => decide (g ≠ guest)).length < capacity
    · have hout : (listCache capacity).insert c guest exec len = (true,
          (guest, ⟨exec, len, false⟩) :: c.keep fun g => decide (g ≠ guest)) := if_pos hroom
      rw [hout, if_pos rfl]
      exact ⟨false, CacheList.find_cons_keep c guest _⟩
    · have hout : (listCache capacity).insert c guest exec len = (false, c) := if_neg hroom
      rw [hout, if_neg Bool.false_ne_true]
  guard := by
    intro c guest
    unfold listCache
    dsimp only
    cases hfind : c.find guest with
    | none =>
      rw [Option.map_none, ← hfind, Function.update_eq_self, hfind]
    | some b => exact CacheList.find_cons_keep c guest _
  range := by
    refine fun c lo hi => ⟨fun guest b h => ?_, fun hzero => ?_⟩
    · have hkeep := CacheList.find_keep c (fun g => !c.meets lo hi g) guest
      have h' : CacheList.find (c.keep fun g => !c.meets lo hi g) guest = some b := h
      rw [hkeep] at h'
      split_ifs at h' with hstays
      refine ⟨h', fun hmeets => ?_⟩
      unfold CacheList.meets at hstays
      rw [h'] at hstays
      simp only [Bool.not_eq_true', decide_eq_false_iff_not] at hstays
      exact hstays hmeets
    · have hzero' : c.length - (c.keep fun g => !c.meets lo hi g).length = 0 := hzero
      have hsub : (c.keep fun g => !c.meets lo hi g).length ≤ c.length :=
        List.length_filter_le _ _
      have hlen : (c.keep fun g => !c.meets lo hi g).length = c.length := by omega
      have hsame : (c.keep fun g => !c.meets lo hi g) = c :=
        List.filter_eq_self.mpr (List.length_filter_eq_length_iff.mp hlen)
      exact congrArg CacheList.find hsame
  flush := fun _ _ _ h => by cases h
  count := fun c h => by
    rw [List.eq_nil_of_length_eq_zero h]
    rfl

end X86Port.Jit
