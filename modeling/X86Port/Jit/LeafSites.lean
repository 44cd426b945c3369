import Mathlib.Logic.Function.Basic
import Mathlib.Logic.Relation
import X86Port.Word

/-!
# Leaf sites

`jit_leaf_sites.c` and what the engine does with a pool: a translation claims from it, one that
fails rewinds it to its mark, a flush resets it, and a translated CALL looks its target up.

* `reachable_sound`: after any such steps the sites of live blocks are apart, each was filled at
  most `leafSiteRefills` times, and its leaf is the resolver's for its target.
* `Sound.siteLeaf_answer`: what a CALL finds is no leaf, or the one of its target.
-/

namespace X86Port.Jit

/-- `X86P_JIT_LEAF_SITE_REFILLS`. -/
def leafSiteRefills : U32 := 4

/-- `X86pJitLeafSite`. A leaf is a pointer, and zero is `NULL`. -/
structure LeafSite (p : Nat) where
  target : U32
  refills : U32
  leaf : BitVec p
deriving DecidableEq

structure LeafSitesStats where
  claimed : U64
  refused : U64
  fills : U64
  leafFills : U64
  exhausted : U64
deriving DecidableEq

/-- `X86pJitLeafSites`; the resolver is an argument of what asks it. -/
structure LeafSites (p capacity : Nat) where
  site : Fin capacity → LeafSite p
  used : Nat
  used_le : used ≤ capacity
  stats : LeafSitesStats

namespace LeafSites

variable {p capacity : Nat} (resolve : U32 → BitVec p) (s : LeafSites p capacity)

def create (p capacity : Nat) : LeafSites p capacity :=
  ⟨fun _ => ⟨0, 0, 0⟩, 0, Nat.zero_le capacity, ⟨0, 0, 0, 0, 0⟩⟩

/-- A fresh site, or nothing when the pool is spent. -/
def claim : Option (Fin capacity) × LeafSites p capacity :=
  if h : s.used = capacity then
    (none, { s with stats := { s.stats with refused := s.stats.refused + 1 } })
  else
    let i : Fin capacity := ⟨s.used, lt_of_le_of_ne s.used_le h⟩
    (some i, {
      site := Function.update s.site i ⟨0, 0, 0⟩
      used := s.used + 1
      used_le := i.isLt
      stats := { s.stats with claimed := s.stats.claimed + 1 } })

def mark : Nat := s.used

/-- Back to a mark, which a pool that was reset in between may no longer reach. -/
def rewind (mark : Nat) : LeafSites p capacity :=
  if h : mark ≤ s.used then
    { s with
      used := mark
      used_le := h.trans s.used_le
      stats := { s.stats with claimed := s.stats.claimed - BitVec.ofNat 64 (s.used - mark) } }
  else s

def reset : LeafSites p capacity :=
  { s with used := 0, used_le := Nat.zero_le capacity, stats := { s.stats with claimed := 0 } }

/-- The resolver's answer for the target, recorded in the site. -/
def siteFill (i : Fin capacity) (target : U32) : BitVec p × LeafSites p capacity :=
  let leaf := resolve target
  let refills := (s.site i).refills + 1
  (leaf, { s with
    site := Function.update s.site i ⟨target, refills, leaf⟩
    stats := { s.stats with
      exhausted := s.stats.exhausted + if refills = leafSiteRefills then 1 else 0
      fills := s.stats.fills + 1
      leafFills := s.stats.leafFills + if leaf ≠ 0 then 1 else 0 } })

/-- The site has not seen the target and can still refill. -/
def Asks (i : Fin capacity) (target : U32) : Prop :=
  (s.site i).target ≠ target ∧ (s.site i).refills < leafSiteRefills

instance (i : Fin capacity) (target : U32) : Decidable (s.Asks i target) :=
  inferInstanceAs (Decidable ((s.site i).target ≠ target ∧ (s.site i).refills < leafSiteRefills))

/-- What a translated CALL finds for its target, zero for none. -/
def siteLeaf (i : Fin capacity) (target : U32) : BitVec p × LeafSites p capacity :=
  if (s.site i).target = target then ((s.site i).leaf, s)
  else if (s.site i).refills < leafSiteRefills then s.siteFill resolve i target
  else (0, s)

end LeafSites

/-! ## The engine's steps -/

/-- A translation under way: the mark it would rewind to, and its last claim's answer. -/
structure Translation (capacity : Nat) where
  mark : Nat
  site : Option (Fin capacity)

/-- A pool, the live blocks by their records with the site each one's CALL took, and the answers
that each site took since it was claimed. -/
structure SiteWorld (β : Type) (p capacity : Nat) where
  pool : LeafSites p capacity
  block : β → Option (Option (Fin capacity))
  translation : Option (Translation capacity)
  filled : Fin capacity → Nat

namespace SiteWorld

variable {β : Type} {p capacity : Nat} (resolve : U32 → BitVec p) (w : SiteWorld β p capacity)

def create (β : Type) (p capacity : Nat) : SiteWorld β p capacity :=
  ⟨LeafSites.create p capacity, fun _ => none, none, fun _ => 0⟩

/-- A translation claims a site. -/
def claim (t : Translation capacity) : SiteWorld β p capacity :=
  { w with
    pool := w.pool.claim.2
    translation := some { t with site := w.pool.claim.1 }
    filled := match w.pool.claim.1 with
      | some i => Function.update w.filled i 0
      | none => w.filled }

/-- A CALL of a live block looks its target up. -/
def call (i : Fin capacity) (target : U32) : SiteWorld β p capacity :=
  { w with
    pool := (w.pool.siteLeaf resolve i target).2
    filled := if w.pool.Asks i target then Function.update w.filled i (w.filled i + 1)
      else w.filled }

variable [DecidableEq β]

/-- A published translation becomes a block; the record of an evicted block is dropped, and its
site stays claimed until a flush. -/
inductive EngineStep : SiteWorld β p capacity → SiteWorld β p capacity → Prop
  | marked {w : SiteWorld β p capacity} : w.translation = none →
      EngineStep w { w with translation := some ⟨w.pool.mark, none⟩ }
  | claimed {w : SiteWorld β p capacity} {t : Translation capacity} : w.translation = some t →
      EngineStep w (w.claim t)
  | published {w : SiteWorld β p capacity} {t : Translation capacity} {b : β} :
      w.translation = some t → w.block b = none →
      EngineStep w { w with block := Function.update w.block b (some t.site), translation := none }
  | rewound {w : SiteWorld β p capacity} {t : Translation capacity} : w.translation = some t →
      EngineStep w { w with pool := w.pool.rewind t.mark, translation := none }
  | evicted {w : SiteWorld β p capacity} (b : β) :
      EngineStep w { w with block := Function.update w.block b none }
  | flushed {w : SiteWorld β p capacity} :
      EngineStep w { w with pool := w.pool.reset, block := fun _ => none, translation := none }

/-- A step of the engine, or a CALL of a live block. -/
inductive Step : SiteWorld β p capacity → SiteWorld β p capacity → Prop
  | engine {w w' : SiteWorld β p capacity} : EngineStep w w' → Step w w'
  | called {w : SiteWorld β p capacity} {b : β} {i : Fin capacity} (target : U32) :
      w.block b = some (some i) → Step w (w.call resolve i target)

def Reachable : SiteWorld β p capacity → Prop :=
  Relation.ReflTransGen (Step resolve) (create β p capacity)

end SiteWorld

/-- What every reachable state satisfies. The sites of live blocks lie below the mark of a
translation, and its own claim at or above it. -/
structure SiteWorld.Sound {β : Type} {p capacity : Nat} (resolve : U32 → BitVec p)
    (w : SiteWorld β p capacity) : Prop where
  held : ∀ b i, w.block b = some (some i) → i.val < w.pool.used
  apart : ∀ b c i, w.block b = some (some i) → w.block c = some (some i) → b = c
  marked : ∀ t, w.translation = some t →
    t.mark ≤ w.pool.used ∧ ∀ b i, w.block b = some (some i) → i.val < t.mark
  fresh : ∀ t i, w.translation = some t → t.site = some i →
    t.mark ≤ i.val ∧ i.val < w.pool.used
  bounded : ∀ i, w.filled i ≤ leafSiteRefills.toNat
  counted : ∀ i : Fin capacity, i.val < w.pool.used → (w.pool.site i).refills.toNat = w.filled i
  answers : ∀ i : Fin capacity, i.val < w.pool.used →
    (w.pool.site i).leaf = if w.filled i = 0 then 0 else resolve (w.pool.site i).target

/-! ## Claims -/

section Claims

variable {p capacity : Nat}

/-- A claim is refused, or takes the site behind those in use and clears it. -/
theorem claim_cases (s : LeafSites p capacity) :
    (s.claim.1 = none ∧ s.claim.2.used = s.used ∧ s.claim.2.site = s.site) ∨
      ∃ i : Fin capacity, i.val = s.used ∧ s.claim.1 = some i ∧ s.claim.2.used = s.used + 1 ∧
        s.claim.2.site = Function.update s.site i ⟨0, 0, 0⟩ := by
  unfold LeafSites.claim
  split_ifs with h
  · exact .inl ⟨rfl, rfl, rfl⟩
  · exact .inr ⟨⟨s.used, lt_of_le_of_ne s.used_le h⟩, rfl, rfl, rfl, rfl⟩

theorem claim_fresh {s : LeafSites p capacity} {i : Fin capacity} (h : s.claim.1 = some i) :
    s.used ≤ i.val ∧ i.val < s.claim.2.used := by
  obtain ⟨hnone, -⟩ | ⟨j, hj, hsome, hused, -⟩ := claim_cases s
  · rw [hnone] at h
    cases h
  · rw [hsome] at h
    cases h
    omega

theorem claim_used (s : LeafSites p capacity) : s.used ≤ s.claim.2.used := by
  obtain ⟨-, hused, -⟩ | ⟨i, -, -, hused, -⟩ := claim_cases s <;> omega

namespace SiteWorld

variable {β : Type} {resolve : U32 → BitVec p} {w : SiteWorld β p capacity}
  {t : Translation capacity}

theorem claim_filled_none (h : w.pool.claim.1 = none) : (w.claim t).filled = w.filled := by
  unfold SiteWorld.claim
  rw [h]

theorem claim_filled_some {i : Fin capacity} (h : w.pool.claim.1 = some i) :
    (w.claim t).filled = Function.update w.filled i 0 := by
  unfold SiteWorld.claim
  rw [h]

/-- A claim leaves the sites in use alone. -/
theorem claim_old {i : Fin capacity} (hi : i.val < w.pool.used) :
    w.pool.claim.2.site i = w.pool.site i ∧ (w.claim t).filled i = w.filled i := by
  obtain ⟨hnone, -, hsite⟩ | ⟨j, hj, hsome, -, hsite⟩ := claim_cases w.pool
  · rw [hsite, claim_filled_none hnone]
    exact ⟨rfl, rfl⟩
  · have hne : i ≠ j := by
      rintro rfl
      omega
    rw [hsite, claim_filled_some hsome, Function.update_of_ne hne, Function.update_of_ne hne]
    exact ⟨rfl, rfl⟩

/-- The site it takes starts empty. -/
theorem claim_new {i : Fin capacity} (hold : w.pool.used ≤ i.val)
    (hi : i.val < w.pool.claim.2.used) :
    w.pool.claim.2.site i = ⟨0, 0, 0⟩ ∧ (w.claim t).filled i = 0 := by
  obtain ⟨-, hused, -⟩ | ⟨j, hj, hsome, hused, hsite⟩ := claim_cases w.pool
  · omega
  · have hij : i = j := Fin.ext (by omega)
    rw [hsite, claim_filled_some hsome, hij, Function.update_self, Function.update_self]
    exact ⟨rfl, rfl⟩

theorem claim_filled_le (i : Fin capacity) : (w.claim t).filled i ≤ w.filled i := by
  obtain ⟨hnone, -⟩ | ⟨j, -, hsome, -⟩ := claim_cases w.pool
  · rw [claim_filled_none hnone]
  · rw [claim_filled_some hsome, Function.update_apply]
    split_ifs
    · exact Nat.zero_le _
    · exact Nat.le_refl _

theorem Sound.claim (h : w.Sound resolve) (ht : w.translation = some t) :
    (w.claim t).Sound resolve := by
  have hgrows := claim_used w.pool
  obtain ⟨hmark, hbelow⟩ := h.marked t ht
  refine ⟨fun b i hb => (h.held b i hb).trans_le hgrows, h.apart, fun t' ht' => ?_,
    fun t' i ht' hi => ?_, fun i => (claim_filled_le i).trans (h.bounded i), fun i hi => ?_,
    fun i hi => ?_⟩
  · cases ht'
    exact ⟨hmark.trans hgrows, hbelow⟩
  · cases ht'
    obtain ⟨hle, hlt⟩ := claim_fresh hi
    exact ⟨hmark.trans hle, hlt⟩
  · by_cases hold : i.val < w.pool.used
    · obtain ⟨hsite, hfilled⟩ := claim_old (t := t) hold
      rw [hfilled, ← h.counted i hold]
      exact congrArg (fun s => s.refills.toNat) hsite
    · obtain ⟨hsite, hfilled⟩ := claim_new (t := t) (Nat.le_of_not_lt hold) hi
      rw [hfilled]
      exact congrArg (fun s => s.refills.toNat) hsite
  · by_cases hold : i.val < w.pool.used
    · obtain ⟨hsite, hfilled⟩ := claim_old (t := t) hold
      have hanswer := h.answers i hold
      rw [← hsite, ← hfilled] at hanswer
      exact hanswer
    · obtain ⟨hsite, hfilled⟩ := claim_new (t := t) (Nat.le_of_not_lt hold) hi
      rw [if_pos hfilled]
      exact congrArg LeafSite.leaf hsite

end SiteWorld

end Claims

/-! ## Lookups -/

section Lookups

variable {p capacity : Nat} (resolve : U32 → BitVec p) (s : LeafSites p capacity)
  (i : Fin capacity) (target : U32)

/-- A lookup reads the site, or fills it, or finds it spent. -/
theorem siteLeaf_cases :
    ((s.site i).target = target ∧ s.siteLeaf resolve i target = ((s.site i).leaf, s)) ∨
      (s.Asks i target ∧ s.siteLeaf resolve i target = s.siteFill resolve i target) ∨
      ((s.site i).target ≠ target ∧ ¬ (s.site i).refills < leafSiteRefills ∧
        s.siteLeaf resolve i target = (0, s)) := by
  unfold LeafSites.siteLeaf
  split_ifs with htarget hrefills
  · exact .inl ⟨htarget, rfl⟩
  · exact .inr (.inl ⟨⟨htarget, hrefills⟩, rfl⟩)
  · exact .inr (.inr ⟨htarget, hrefills, rfl⟩)

end Lookups

namespace SiteWorld

variable {β : Type} {p capacity : Nat} {resolve : U32 → BitVec p}
  {w : SiteWorld β p capacity}

/-- What a CALL finds is no leaf, or the one of its target. -/
theorem Sound.siteLeaf_answer (h : w.Sound resolve) {i : Fin capacity} (hi : i.val < w.pool.used)
    (target : U32) : (w.pool.siteLeaf resolve i target).1 = 0 ∨
      (w.pool.siteLeaf resolve i target).1 = resolve target := by
  obtain ⟨htarget, hleaf⟩ | ⟨-, hleaf⟩ | ⟨-, -, hleaf⟩ :=
    siteLeaf_cases resolve w.pool i target
  · rw [hleaf, ← htarget, h.answers i hi]
    split_ifs
    · exact .inl rfl
    · exact .inr rfl
  · rw [hleaf]
    exact .inr rfl
  · rw [hleaf]
    exact .inl rfl

theorem Sound.call (h : w.Sound resolve) {i : Fin capacity} (hi : i.val < w.pool.used)
    (target : U32) : (w.call resolve i target).Sound resolve := by
  by_cases hasks : w.pool.Asks i target
  · have hcall : w.call resolve i target =
        { w with
          pool := (w.pool.siteFill resolve i target).2
          filled := Function.update w.filled i (w.filled i + 1) } := by
      unfold SiteWorld.call LeafSites.siteLeaf
      rw [if_pos hasks, if_neg hasks.1, if_pos hasks.2]
    have hcount := h.counted i hi
    have hlt : (w.pool.site i).refills.toNat < leafSiteRefills.toNat := hasks.2
    have hfour : leafSiteRefills.toNat = 4 := rfl
    rw [hcall]
    refine ⟨h.held, h.apart, h.marked, h.fresh, fun j => ?_, fun j hj => ?_, fun j hj => ?_⟩
    · dsimp only
      rw [Function.update_apply]
      split_ifs
      · omega
      · exact h.bounded j
    · by_cases hji : j = i
      · subst hji
        simp only [LeafSites.siteFill, Function.update_self]
        rw [BitVec.toNat_add, Nat.mod_eq_of_lt, hcount]
        · rfl
        · have : (1 : U32).toNat = 1 := rfl
          omega
      · simp only [LeafSites.siteFill, Function.update_of_ne hji]
        exact h.counted j hj
    · by_cases hji : j = i
      · subst hji
        simp only [LeafSites.siteFill, Function.update_self, if_neg (Nat.succ_ne_zero _)]
      · simp only [LeafSites.siteFill, Function.update_of_ne hji]
        exact h.answers j hj
  · have hcall : w.call resolve i target = w := by
      unfold SiteWorld.call
      rw [if_neg hasks]
      obtain ⟨-, hleaf⟩ | ⟨hasks', -⟩ | ⟨-, -, hleaf⟩ :=
        siteLeaf_cases resolve w.pool i target
      · rw [hleaf]
      · exact absurd hasks' hasks
      · rw [hleaf]
    rw [hcall]
    exact h

/-! ## Every reachable state -/

theorem Sound.create : (SiteWorld.create β p capacity).Sound resolve where
  held := nofun
  apart := nofun
  marked := nofun
  fresh := nofun
  bounded _ := Nat.zero_le _
  counted _ hi := absurd hi (Nat.not_lt_zero _)
  answers _ hi := absurd hi (Nat.not_lt_zero _)

theorem Sound.mark (h : w.Sound resolve) :
    Sound resolve { w with translation := some ⟨w.pool.mark, none⟩ } where
  held := h.held
  apart := h.apart
  marked t ht := by
    cases ht
    exact ⟨Nat.le_refl _, h.held⟩
  fresh t i ht hi := by
    cases ht
    cases hi
  bounded := h.bounded
  counted := h.counted
  answers := h.answers

theorem Sound.rewind (h : w.Sound resolve) {t : Translation capacity}
    (ht : w.translation = some t) :
    Sound resolve { w with pool := w.pool.rewind t.mark, translation := none } := by
  obtain ⟨hmark, hbelow⟩ := h.marked t ht
  have hrewind : w.pool.rewind t.mark =
      { w.pool with
        used := t.mark
        used_le := hmark.trans w.pool.used_le
        stats := { w.pool.stats with
          claimed := w.pool.stats.claimed - BitVec.ofNat 64 (w.pool.used - t.mark) } } :=
    dif_pos hmark
  rw [hrewind]
  exact ⟨hbelow, h.apart, nofun, nofun, h.bounded, fun i hi => h.counted i (hi.trans_le hmark),
    fun i hi => h.answers i (hi.trans_le hmark)⟩

theorem Sound.flushed (h : w.Sound resolve) :
    Sound resolve ({ w with
      pool := w.pool.reset, block := fun _ => none, translation := none } :
        SiteWorld β p capacity) where
  held := nofun
  apart := nofun
  marked := nofun
  fresh := nofun
  bounded := h.bounded
  counted _ hi := absurd hi (Nat.not_lt_zero _)
  answers _ hi := absurd hi (Nat.not_lt_zero _)

variable [DecidableEq β]

/-- A block takes the site that its translation claimed last, which no block holds. -/
theorem Sound.publish (h : w.Sound resolve) {t : Translation capacity} {b : β}
    (ht : w.translation = some t) :
    Sound resolve { w with
      block := Function.update w.block b (some t.site), translation := none } := by
  obtain ⟨-, hbelow⟩ := h.marked t ht
  have hold : ∀ c i, c ≠ b → Function.update w.block b (some t.site) c = some (some i) →
      w.block c = some (some i) := by
    intro c i hc hblock
    rwa [Function.update_of_ne hc] at hblock
  have hnew : ∀ i, Function.update w.block b (some t.site) b = some (some i) →
      t.mark ≤ i.val ∧ i.val < w.pool.used := by
    intro i hblock
    rw [Function.update_self] at hblock
    exact h.fresh t i ht (Option.some.inj hblock)
  refine ⟨fun c i hc => ?_, fun c d i hc hd => ?_, nofun, nofun, h.bounded, h.counted, h.answers⟩
  · by_cases hcb : c = b
    · subst hcb
      exact (hnew i hc).2
    · exact h.held c i (hold c i hcb hc)
  · by_cases hcb : c = b
    · subst hcb
      by_contra hne
      have hlow := hbelow d i (hold d i (Ne.symm hne) hd)
      have hhigh := (hnew i hc).1
      omega
    · by_cases hdb : d = b
      · subst hdb
        have hlow := hbelow c i (hold c i hcb hc)
        have hhigh := (hnew i hd).1
        omega
      · exact h.apart c d i (hold c i hcb hc) (hold d i hdb hd)

theorem Sound.evicted (h : w.Sound resolve) (b : β) :
    Sound resolve { w with block := Function.update w.block b none } := by
  have hlive : ∀ c i, Function.update w.block b none c = some (some i) →
      w.block c = some (some i) := by
    intro c i hc
    by_cases hcb : c = b
    · subst hcb
      rw [Function.update_self] at hc
      cases hc
    · rwa [Function.update_of_ne hcb] at hc
  exact ⟨fun c i hc => h.held c i (hlive c i hc),
    fun c d i hc hd => h.apart c d i (hlive c i hc) (hlive d i hd),
    fun t ht => ⟨(h.marked t ht).1, fun c i hc => (h.marked t ht).2 c i (hlive c i hc)⟩, h.fresh,
    h.bounded, h.counted, h.answers⟩

theorem Sound.engine {w' : SiteWorld β p capacity} (h : w.Sound resolve) (hstep : EngineStep w w') :
    w'.Sound resolve := by
  cases hstep with
  | marked hidle => exact h.mark
  | claimed ht => exact h.claim ht
  | published ht hfree => exact h.publish ht
  | rewound ht => exact h.rewind ht
  | evicted b => exact h.evicted b
  | flushed => exact h.flushed

theorem step_sound {w' : SiteWorld β p capacity} (h : w.Sound resolve) (hstep : Step resolve w w') :
    w'.Sound resolve := by
  cases hstep with
  | engine hengine => exact h.engine hengine
  | called target hblock => exact h.call (h.held _ _ hblock) target

theorem reachable_sound (h : w.Reachable resolve) : w.Sound resolve := by
  induction h with
  | refl => exact Sound.create
  | tail _ hstep ih => exact step_sound ih hstep

end SiteWorld

end X86Port.Jit
