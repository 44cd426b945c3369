import Mathlib.Data.List.FinRange
import Mathlib.Data.List.Perm.Subperm
import Mathlib.Data.Nat.Find
import Mathlib.Logic.Function.Basic

/-!
# Open addressing

Tables of `n` slots in which a key is looked for from its home slot on, slot by slot and around the
end, up to the key or to a free slot. No key is ever taken out.

* `probe_held`: a key that is in the table is found.
* `probe_ends`: in a table with a free slot every search ends.
* `Holds.search`: in a table that is not full a search ends at the key or, for a key that the
  table does not hold, at a free slot.
* `Holds.insert`: a key goes into the free slot that its search ended at.
-/

namespace X86Port.Lib.Probing

variable {κ : Type*} [DecidableEq κ]

/-- The first slot from `i` on that holds the key or is free, among `fuel` slots. -/
def probe (key : Nat → Option κ) (next : Nat → Nat) (k : κ) : Nat → Nat → Option Nat
  | 0, _ => none
  | fuel + 1, i =>
    if key i = some k ∨ key i = none then some i else probe key next k fuel (next i)

section

variable {key : Nat → Option κ} {next : Nat → Nat} {n : Nat} {home : κ → Nat} {k : κ} {i j : Nat}

/-- A search for the key does not go on behind the slot. -/
def Stops (key : Nat → Option κ) (k : κ) (i : Nat) : Prop := key i = some k ∨ key i = none

/-- Every key is found from its home slot on, with no free slot before it. -/
def Placed (key : Nat → Option κ) (n : Nat) (home : κ → Nat) : Prop :=
  ∀ j < n, ∀ k, key j = some k → ∃ d < n, (home k + d) % n = j ∧
    ∀ e < d, ¬ Stops key k ((home k + e) % n)

variable (hnext : ∀ i < n, next i = (i + 1) % n)

include hnext

theorem probe_eq {a d fuel : Nat} (hd : d < fuel) (hn : 0 < n)
    (hbefore : ∀ e < d, ¬ Stops key k ((a + e) % n)) (hat : Stops key k ((a + d) % n)) :
    probe key next k fuel (a % n) = some ((a + d) % n) := by
  induction d generalizing a fuel with
  | zero =>
    obtain ⟨fuel, rfl⟩ : ∃ f, fuel = f + 1 := ⟨fuel - 1, by omega⟩
    exact if_pos hat
  | succ d ih =>
    obtain ⟨fuel, rfl⟩ : ∃ f, fuel = f + 1 := ⟨fuel - 1, by omega⟩
    have hstep : probe key next k (fuel + 1) (a % n) = probe key next k fuel ((a + 1) % n) := by
      rw [probe, if_neg (by exact hbefore 0 (by omega)), hnext _ (Nat.mod_lt _ hn),
        Nat.mod_add_mod]
    have hshift : ∀ e, a + 1 + e = a + (e + 1) := fun e => by omega
    rw [hstep, ih (by omega) (fun e he => hshift e ▸ hbefore (e + 1) (by omega)) (hshift d ▸ hat),
      hshift]

theorem probe_inv {a fuel : Nat} (hn : 0 < n) (h : probe key next k fuel (a % n) = some i) :
    ∃ d < fuel, (a + d) % n = i ∧ Stops key k i ∧ ∀ e < d, ¬ Stops key k ((a + e) % n) := by
  induction fuel generalizing a with
  | zero => cases h
  | succ fuel ih =>
    rw [probe] at h
    split at h
    · rename_i hstops
      obtain rfl := Option.some.inj h
      exact ⟨0, Nat.succ_pos _, rfl, hstops, nofun⟩
    · rename_i hnot
      rw [hnext _ (Nat.mod_lt _ hn), Nat.mod_add_mod] at h
      obtain ⟨d, hd, hat, hstops, hbefore⟩ := ih h
      refine ⟨d + 1, by omega, ?_, hstops, fun e he => ?_⟩
      · rw [← hat, Nat.add_assoc, Nat.add_comm 1]
      · cases e with
        | zero => exact hnot
        | succ e =>
          have := hbefore e (by omega)
          rwa [Nat.add_assoc, Nat.add_comm 1] at this

variable (hhome : ∀ k, home k < n)

include hhome

theorem probe_held (h : Placed key n home) (hj : j < n) (hk : key j = some k) :
    probe key next k n (home k) = some j := by
  obtain ⟨d, hd, rfl, hbefore⟩ := h j hj k hk
  have hprobe := probe_eq hnext hd (by omega) hbefore (.inl hk)
  rwa [Nat.mod_eq_of_lt (hhome k)] at hprobe

theorem Placed.unique (h : Placed key n home) (hi : i < n) (hj : j < n) (hki : key i = some k)
    (hkj : key j = some k) : i = j :=
  Option.some.inj ((probe_held hnext hhome h hi hki).symm.trans (probe_held hnext hhome h hj hkj))

theorem probe_ends (hfree : ∃ z < n, key z = none) (k : κ) :
    ∃ i < n, probe key next k n (home k) = some i ∧ Stops key k i := by
  obtain ⟨z, hz, hzfree⟩ := hfree
  have hn : 0 < n := by omega
  let P := fun d => Stops key k ((home k + d) % n)
  have hreach : P ((z + n - home k) % n) := by
    have hlt := hhome k
    have hmod : (home k + (z + n - home k) % n) % n = z := by
      rw [Nat.add_mod_mod, show home k + (z + n - home k) = z + n by omega, Nat.add_mod_right,
        Nat.mod_eq_of_lt hz]
    exact .inr (by rw [hmod, hzfree])
  classical
  have hex : ∃ d, P d := ⟨_, hreach⟩
  have hfind : Nat.find hex < n := (Nat.find_min' hex hreach).trans_lt (Nat.mod_lt _ hn)
  have hprobe := probe_eq hnext hfind hn (fun e he => Nat.find_min hex he) (Nat.find_spec hex)
  rw [Nat.mod_eq_of_lt (hhome k)] at hprobe
  exact ⟨_, Nat.mod_lt _ hn, hprobe, Nat.find_spec hex⟩

/-- A search that ends at a free slot was for a key that is not there. -/
theorem absent_of_free (h : Placed key n home) (hprobe : probe key next k n (home k) = some i)
    (hfree : key i = none) : ∀ j < n, key j ≠ some k := by
  intro j hj hkj
  have := (probe_held hnext hhome h hj hkj).symm.trans hprobe
  rw [← Option.some.inj this, hkj] at hfree
  cases hfree

theorem Placed.insert (h : Placed key n home) (hprobe : probe key next k n (home k) = some i)
    (hfree : key i = none) : Placed (Function.update key i (some k)) n home := by
  have hn : 0 < n := (Nat.zero_le _).trans_lt (hhome k)
  rw [← Nat.mod_eq_of_lt (hhome k)] at hprobe
  obtain ⟨d, hd, hat, -, hbefore⟩ := probe_inv hnext hn hprobe
  -- a slot that stops no search is not the one that was free
  have hkeep : ∀ {k' : κ} {s : Nat}, ¬ Stops key k' s →
      ¬ Stops (Function.update key i (some k)) k' s := by
    intro k' s hnot
    have hs : s ≠ i := by
      rintro rfl
      exact hnot (.inr hfree)
    unfold Stops
    rwa [Function.update_of_ne hs]
  intro j hj k' hk'
  by_cases hji : j = i
  · subst hji
    rw [Function.update_self] at hk'
    cases hk'
    exact ⟨d, hd, hat, fun e he => hkeep (hbefore e he)⟩
  · rw [Function.update_of_ne hji] at hk'
    obtain ⟨d', hd', hat', hbefore'⟩ := h j hj k' hk'
    exact ⟨d', hd', hat', fun e he => hkeep (hbefore' e he)⟩

/-- The keys of the table, each of them where a search finds it. -/
structure Holds (key : Nat → Option κ) (n : Nat) (home : κ → Nat) (held : List κ) : Prop where
  placed : Placed key n home
  mem : ∀ k, (∃ j < n, key j = some k) ↔ k ∈ held

omit [DecidableEq κ] hnext hhome in
theorem Holds.empty (n : Nat) (home : κ → Nat) : Holds (fun _ => none) n home [] :=
  ⟨nofun, fun _ => ⟨by rintro ⟨_, _, ⟨⟩⟩, nofun⟩⟩

variable {held : List κ}

/-- A table that holds fewer keys than it has slots has a free slot. -/
theorem Holds.exists_free (h : Holds key n home held) (hroom : held.length < n) :
    ∃ z < n, key z = none := by
  by_contra hnone
  have hsome : ∀ j : Fin n, ∃ k, key j = some k := fun j =>
    Option.ne_none_iff_exists'.mp fun hj => hnone ⟨j, j.isLt, hj⟩
  choose f hf using hsome
  have hinj : Function.Injective f := fun a b hab =>
    Fin.ext (h.placed.unique hnext hhome a.isLt b.isLt (hf a) (by rw [hf b, hab]))
  have hnodup : ((List.finRange n).map f).Nodup := (List.nodup_finRange n).map hinj
  have hsubset : (List.finRange n).map f ⊆ held := by
    intro k hk
    obtain ⟨j, -, rfl⟩ := List.mem_map.mp hk
    exact (h.mem _).mp ⟨j, j.isLt, hf j⟩
  have hle := (hnodup.subperm hsubset).length_le
  rw [List.length_map, List.length_finRange] at hle
  omega

theorem Holds.search (h : Holds key n home held) (hroom : held.length < n) (k : κ) :
    ∃ i < n, probe key next k n (home k) = some i ∧
      (key i = some k ∧ k ∈ held ∨ key i = none ∧ k ∉ held) := by
  obtain ⟨i, hi, hprobe, hstops⟩ := probe_ends hnext hhome (h.exists_free hnext hhome hroom) k
  refine ⟨i, hi, hprobe, ?_⟩
  rcases hstops with hkey | hfree
  · exact .inl ⟨hkey, (h.mem k).mp ⟨i, hi, hkey⟩⟩
  · refine .inr ⟨hfree, fun hk => ?_⟩
    obtain ⟨j, hj, hkj⟩ := (h.mem k).mpr hk
    exact absent_of_free hnext hhome h.placed hprobe hfree j hj hkj

theorem Holds.insert (h : Holds key n home held) (hi : i < n)
    (hprobe : probe key next k n (home k) = some i) (hfree : key i = none) :
    Holds (Function.update key i (some k)) n home (held ++ [k]) := by
  refine ⟨h.placed.insert hnext hhome hprobe hfree, fun k' => ?_⟩
  rw [List.mem_append, List.mem_singleton, ← h.mem k']
  constructor
  · rintro ⟨j, hj, hkj⟩
    by_cases hji : j = i
    · rw [hji, Function.update_self] at hkj
      exact .inr (Option.some.inj hkj).symm
    · rw [Function.update_of_ne hji] at hkj
      exact .inl ⟨j, hj, hkj⟩
  · rintro (⟨j, hj, hkj⟩ | rfl)
    · refine ⟨j, hj, ?_⟩
      rwa [Function.update_of_ne]
      rintro rfl
      rw [hfree] at hkj
      cases hkj
    · exact ⟨i, hi, Function.update_self ..⟩

end

end X86Port.Lib.Probing
