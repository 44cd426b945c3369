import Mathlib.Data.List.Basic
import Mathlib.Data.List.Pairwise
import Mathlib.Order.Basic

/-!
# Ordered tables of disjoint ranges

A table is a list of half-open ranges of natural numbers, each with whatever else its
owner stores beside it. `Ordered` says that the ranges are nonempty and lie strictly one
after another, which is what lets a search by the start alone find the range that covers
a point.

* `at?_eq_some_iff` reads a table as a partial function on points.
* `Cut` is the position a search by the start finds; `at?_of_cut` answers a lookup from it
  and `Cut.insert`, `Cut.gap_iff` are what an insertion needs.
* `ordered_flatMap` and `at?_flatMap` rebuild a table by replacing every range with pieces
  of itself, which is how a change of part of a range is made.
-/

namespace X86Port.Lib

/-- A type whose values name a half-open range `[start, stop)`. -/
class Ranged (ρ : Type*) where
  start : ρ → Nat
  stop : ρ → Nat

namespace RangeTable

open Ranged

variable {ρ : Type*} [Ranged ρ]

/-- The point `a` lies in the range `r`. -/
def Covers (r : ρ) (a : Nat) : Prop := start r ≤ a ∧ a < stop r

instance (r : ρ) (a : Nat) : Decidable (Covers r a) := inferInstanceAs (Decidable (_ ∧ _))

/-- Nonempty ranges, each ending before the next one starts. -/
structure Ordered (t : List ρ) : Prop where
  nonempty : ∀ r ∈ t, start r < stop r
  apart : t.Pairwise fun r s => stop r ≤ start s

/-- The first range of the table that covers `a`. -/
def at? (t : List ρ) (a : Nat) : Option ρ := t.find? fun r => decide (Covers r a)

@[simp] theorem at?_nil (a : Nat) : at? ([] : List ρ) a = none := rfl

theorem at?_cons (r : ρ) (t : List ρ) (a : Nat) :
    at? (r :: t) a = if Covers r a then some r else at? t a := by
  unfold at?
  rw [List.find?_cons]
  by_cases h : Covers r a <;> simp [h]

theorem at?_append (l r : List ρ) (a : Nat) : at? (l ++ r) a = (at? l a).or (at? r a) := by
  simp [at?, List.find?_append]

theorem at?_eq_none_iff {t : List ρ} {a : Nat} : at? t a = none ↔ ∀ r ∈ t, ¬ Covers r a := by
  simp [at?, List.find?_eq_none]

theorem at?_spec {t : List ρ} {a : Nat} {r : ρ} (h : at? t a = some r) : r ∈ t ∧ Covers r a :=
  ⟨List.mem_of_find?_eq_some h, by simpa using List.find?_some h⟩

/-! ## Ordered tables -/

theorem ordered_nil : Ordered ([] : List ρ) := ⟨by simp, List.Pairwise.nil⟩

theorem ordered_append_iff {l r : List ρ} :
    Ordered (l ++ r) ↔ Ordered l ∧ Ordered r ∧ ∀ x ∈ l, ∀ y ∈ r, stop x ≤ start y := by
  constructor
  · intro h
    obtain ⟨hl, hr, hlr⟩ := List.pairwise_append.mp h.apart
    exact ⟨⟨fun x hx => h.nonempty x (by simp [hx]), hl⟩,
      ⟨fun x hx => h.nonempty x (by simp [hx]), hr⟩, hlr⟩
  · rintro ⟨hl, hr, hlr⟩
    refine ⟨fun x hx => ?_, List.pairwise_append.mpr ⟨hl.apart, hr.apart, hlr⟩⟩
    rcases List.mem_append.mp hx with hx | hx
    · exact hl.nonempty x hx
    · exact hr.nonempty x hx

theorem ordered_cons_iff {r : ρ} {t : List ρ} :
    Ordered (r :: t) ↔ start r < stop r ∧ Ordered t ∧ ∀ y ∈ t, stop r ≤ start y := by
  constructor
  · intro h
    obtain ⟨hr, ht⟩ := List.pairwise_cons.mp h.apart
    exact ⟨h.nonempty r (by simp), ⟨fun x hx => h.nonempty x (by simp [hx]), ht⟩, hr⟩
  · rintro ⟨hr, ht, hrt⟩
    refine ⟨fun x hx => ?_, List.pairwise_cons.mpr ⟨hrt, ht.apart⟩⟩
    rcases List.mem_cons.mp hx with rfl | hx
    · exact hr
    · exact ht.nonempty x hx

theorem Ordered.sublist {l t : List ρ} (h : Ordered t) (hl : l.Sublist t) : Ordered l :=
  ⟨fun r hr => h.nonempty r (hl.subset hr), h.apart.sublist hl⟩

/-- In an ordered table a point is covered by one range at most, so the lookup finds any
range that covers it. -/
theorem at?_eq_some_iff {t : List ρ} (h : Ordered t) {a : Nat} {r : ρ} :
    at? t a = some r ↔ r ∈ t ∧ Covers r a := by
  refine ⟨at?_spec, ?_⟩
  rintro ⟨hr, hc⟩
  induction t with
  | nil => simp at hr
  | cons s t ih =>
    obtain ⟨-, ht, hst⟩ := ordered_cons_iff.mp h
    rw [at?_cons]
    rcases List.mem_cons.mp hr with rfl | hr
    · rw [if_pos hc]
    · have hs : ¬ Covers s a := by
        have := hst r hr
        unfold Covers at *
        omega
      rw [if_neg hs]
      exact ih ht hr

theorem Ordered.covering_length_le_one {t : List ρ} (h : Ordered t) (a : Nat) :
    (t.filter fun r => decide (Covers r a)).length ≤ 1 := by
  induction t with
  | nil => simp
  | cons r t ih =>
    obtain ⟨-, ht, hrt⟩ := ordered_cons_iff.mp h
    by_cases hr : Covers r a
    · have hnone : t.filter (fun s => decide (Covers s a)) = [] := by
        rw [List.filter_eq_nil_iff]
        intro s hs hc
        have hsa : Covers s a := of_decide_eq_true hc
        have := hrt s hs
        unfold Covers at hr hsa
        omega
      simp [hr, hnone]
    · simpa [hr] using ih ht

/-! ## The position a search by the start finds -/

/-- The first `k` ranges start at or below `a` and the rest start above it. -/
structure Cut (t : List ρ) (k : Nat) (a : Nat) : Prop where
  le_length : k ≤ t.length
  before : ∀ r ∈ t.take k, start r ≤ a
  after : ∀ r ∈ t.drop k, a < start r

/-- Only the range just before the cut can cover the point. -/
theorem at?_of_cut {t : List ρ} (h : Ordered t) {k a : Nat} (hk : Cut t k a) :
    at? t a = (t.take k).getLast?.filter fun r => decide (a < stop r) := by
  have hafter : at? (t.drop k) a = none := by
    rw [at?_eq_none_iff]
    intro r hr hc
    have := hk.after r hr
    unfold Covers at hc
    omega
  have hsplit : at? t a = at? (t.take k) a := by
    conv_lhs => rw [← List.take_append_drop k t]
    rw [at?_append, hafter, Option.or_none]
  rw [hsplit]
  have htake : Ordered (t.take k) := h.sublist (List.take_sublist k t)
  have hbefore := hk.before
  generalize t.take k = l at htake hbefore
  rcases List.eq_nil_or_concat l with rfl | ⟨front, last, rfl⟩
  · rfl
  · rw [List.concat_eq_append] at *
    obtain ⟨-, -, hfl⟩ := ordered_append_iff.mp htake
    have hlast : start last ≤ a := hbefore last (by simp)
    have hfront : at? front a = none := by
      rw [at?_eq_none_iff]
      intro r hr hc
      have := hfl r hr last (by simp)
      unfold Covers at hc
      omega
    rw [at?_append, hfront, at?_cons]
    by_cases hs : a < stop last <;> simp [Covers, hlast, hs, Option.filter]

theorem Ordered.start_lt_start {t : List ρ} (h : Ordered t) :
    t.Pairwise fun r s => start r < start s := by
  refine h.apart.imp_of_mem ?_
  intro r s hr _ hrs
  have := h.nonempty r hr
  omega

/-- A range `[a, a + n)` meets no range of the table exactly when the range before the cut
ends at or below `a` and the one after it starts at or above `a + n`. -/
theorem Cut.gap_iff {t : List ρ} (h : Ordered t) {k a n : Nat} (hk : Cut t k a) (hn : 0 < n) :
    (∀ x, a ≤ x → x < a + n → at? t x = none) ↔
      (∀ r ∈ t.take k, stop r ≤ a) ∧ ∀ r ∈ t.drop k, a + n ≤ start r := by
  constructor
  · intro hgap
    constructor
    · intro r hr
      have hnone := at?_eq_none_iff.mp (hgap a (Nat.le_refl a) (by omega)) r (List.mem_of_mem_take hr)
      have := hk.before r hr
      unfold Covers at hnone
      omega
    · intro r hr
      have hstart := hk.after r hr
      have hne := h.nonempty r (List.mem_of_mem_drop hr)
      by_contra hlt
      have hnone := at?_eq_none_iff.mp (hgap (start r) (by omega) (by omega)) r
        (List.mem_of_mem_drop hr)
      exact hnone ⟨Nat.le_refl _, hne⟩
  · rintro ⟨hbefore, hafter⟩ x hax hxn
    rw [at?_eq_none_iff]
    intro r hr hc
    rw [← List.take_append_drop k t] at hr
    unfold Covers at hc
    rcases List.mem_append.mp hr with hr | hr
    · have := hbefore r hr
      omega
    · have := hafter r hr
      omega

/-- Inserting a range between two parts that leave room for it. -/
theorem ordered_insert {l r : List ρ} {n : ρ} (h : Ordered (l ++ r)) (hn : start n < stop n)
    (hl : ∀ x ∈ l, stop x ≤ start n) (hr : ∀ y ∈ r, stop n ≤ start y) : Ordered (l ++ n :: r) := by
  obtain ⟨hol, hor, hlr⟩ := ordered_append_iff.mp h
  refine ordered_append_iff.mpr ⟨hol, ordered_cons_iff.mpr ⟨hn, hor, hr⟩, ?_⟩
  intro x hx y hy
  rcases List.mem_cons.mp hy with rfl | hy
  · exact hl x hx
  · exact hlr x hx y hy

theorem at?_insert {l r : List ρ} {n : ρ} (h : Ordered (l ++ n :: r)) (a : Nat) :
    at? (l ++ n :: r) a = if Covers n a then some n else at? (l ++ r) a := by
  by_cases hc : Covers n a
  · rw [if_pos hc]
    exact (at?_eq_some_iff h).mpr ⟨by simp, hc⟩
  · rw [if_neg hc, at?_append, at?_append, at?_cons, if_neg hc]

theorem at?_remove {l r : List ρ} {n : ρ} (h : Ordered (l ++ n :: r)) (a : Nat) :
    at? (l ++ r) a = if Covers n a then none else at? (l ++ n :: r) a := by
  by_cases hc : Covers n a
  · rw [if_pos hc, at?_eq_none_iff]
    intro x hx hxa
    obtain ⟨-, hnr, hlr⟩ := ordered_append_iff.mp h
    obtain ⟨-, -, hr⟩ := ordered_cons_iff.mp hnr
    unfold Covers at *
    rcases List.mem_append.mp hx with hx | hx
    · have := hlr x hx n (by simp)
      omega
    · have := hr x hx
      omega
  · rw [at?_insert h, if_neg hc, if_neg hc]

/-! ## Replacing every range by pieces of itself -/

/-- `f` cuts each range of the table into ordered pieces that stay inside it. -/
structure CutsPieces (t : List ρ) (f : ρ → List ρ) : Prop where
  ordered : ∀ r ∈ t, Ordered (f r)
  inside : ∀ r ∈ t, ∀ p ∈ f r, start r ≤ start p ∧ stop p ≤ stop r

theorem CutsPieces.tail {r : ρ} {t : List ρ} {f : ρ → List ρ} (h : CutsPieces (r :: t) f) :
    CutsPieces t f :=
  ⟨fun s hs => h.ordered s (by simp [hs]), fun s hs => h.inside s (by simp [hs])⟩

theorem ordered_flatMap {t : List ρ} {f : ρ → List ρ} (h : Ordered t) (hf : CutsPieces t f) :
    Ordered (t.flatMap f) := by
  induction t with
  | nil => simpa using ordered_nil
  | cons r t ih =>
    obtain ⟨-, ht, hrt⟩ := ordered_cons_iff.mp h
    rw [List.flatMap_cons]
    refine ordered_append_iff.mpr ⟨hf.ordered r (by simp), ih ht hf.tail, ?_⟩
    intro x hx y hy
    obtain ⟨s, hs, hy⟩ := List.mem_flatMap.mp hy
    have h1 := hf.inside r (by simp) x hx
    have h2 := hf.inside s (by simp [hs]) y hy
    have h3 := hrt s hs
    omega

/-- A lookup in the pieces is a lookup of the range and then of its pieces. -/
theorem at?_flatMap {t : List ρ} {f : ρ → List ρ} (h : Ordered t) (hf : CutsPieces t f) (a : Nat) :
    at? (t.flatMap f) a = (at? t a).bind fun r => at? (f r) a := by
  induction t with
  | nil => rfl
  | cons r t ih =>
    obtain ⟨-, ht, hrt⟩ := ordered_cons_iff.mp h
    rw [List.flatMap_cons, at?_append, ih ht hf.tail, at?_cons]
    by_cases hc : Covers r a
    · have hrest : at? t a = none := by
        rw [at?_eq_none_iff]
        intro s hs hsa
        have := hrt s hs
        unfold Covers at *
        omega
      simp [hc, hrest]
    · have hpieces : at? (f r) a = none := by
        rw [at?_eq_none_iff]
        intro p hp hpa
        have := hf.inside r (by simp) p hp
        unfold Covers at *
        omega
      simp [hc, hpieces]

/-- When a range is cut into more than one piece only at `lo` and at `hi`, once at each,
the table grows by two pieces at most. -/
theorem length_flatMap_le {t : List ρ} {f : ρ → List ρ} (h : Ordered t) {lo hi : Nat}
    (hf : ∀ r ∈ t, (f r).length ≤
      1 + (if Covers r lo then 1 else 0) + (if Covers r hi then 1 else 0)) :
    (t.flatMap f).length ≤ t.length + 2 := by
  have hsum : ∀ l : List ρ, (∀ r ∈ l, (f r).length ≤
      1 + (if Covers r lo then 1 else 0) + (if Covers r hi then 1 else 0)) →
      (l.flatMap f).length ≤ l.length + (l.filter fun r => decide (Covers r lo)).length +
        (l.filter fun r => decide (Covers r hi)).length := by
    intro l
    induction l with
    | nil => simp
    | cons r l ih =>
      intro hl
      have hr := hl r (by simp)
      have hrest := ih fun s hs => hl s (by simp [hs])
      rw [List.flatMap_cons, List.length_append, List.length_cons, List.filter_cons,
        List.filter_cons]
      by_cases h1 : Covers r lo <;> by_cases h2 : Covers r hi <;>
        simp only [h1, h2, if_true, if_false, decide_true, decide_false, Bool.false_eq_true,
          List.length_cons] at hr ⊢ <;> omega
  have hlo := h.covering_length_le_one lo
  have hhi := h.covering_length_le_one hi
  have := hsum t hf
  omega

end RangeTable

end X86Port.Lib
