import Mathlib.Data.Nat.Find
import Mathlib.Logic.Function.Basic
import X86Port.Lib.Bytes

/-!
# Cells at places

An address space laid over a flat memory by a partial map from addresses to cells. A range of
addresses need not lie in one piece, nor need two addresses lie at different cells.

* `gather`, `scatter`: the cells of a range read, and written in the order of the addresses.
* `gather_run`, `scatter_run`: over a piece they are `Bytes.load` and `Bytes.store`.
* `scatter_apply`, `scatter_frame`: what a write leaves at each cell.
-/

namespace X86Port.Lib.Places

variable {α : Type*} {place : Nat → Option Nat} {h : Nat → α} {a n host : Nat}

/-- Every address of the range has a cell. -/
def Placed (place : Nat → Option Nat) (a n : Nat) : Prop := ∀ i < n, place (a + i) ≠ none

instance (place : Nat → Option Nat) (a n : Nat) : Decidable (Placed place a n) :=
  inferInstanceAs (Decidable (∀ i < n, _))

/-- The range lies in one piece from the cell `host` on. -/
def Run (place : Nat → Option Nat) (a n host : Nat) : Prop := ∀ i < n, place (a + i) = some (host + i)

/-- No two addresses share a cell. -/
def Unaliased (place : Nat → Option Nat) : Prop :=
  ∀ ⦃a b x⦄, place a = some x → place b = some x → a = b

def cell (place : Nat → Option Nat) (a : Nat) : Nat := (place a).getD 0

/-- No two addresses of the range share a cell. -/
def Distinct (place : Nat → Option Nat) (a n : Nat) : Prop :=
  ∀ i < n, ∀ j < n, cell place (a + i) = cell place (a + j) → i = j

def gather (h : Nat → α) (place : Nat → Option Nat) (a n : Nat) : List α :=
  (List.range n).map fun i => h (cell place (a + i))

def scatter (place : Nat → Option Nat) : (Nat → α) → Nat → List α → Nat → α
  | h, _, [] => h
  | h, a, x :: xs => scatter place (Function.update h (cell place a) x) (a + 1) xs

theorem Run.placed (hrun : Run place a n host) : Placed place a n := by
  intro i hi hnone
  rw [hrun i hi] at hnone
  cases hnone

theorem Run.cell (hrun : Run place a n host) {i : Nat} (hi : i < n) :
    cell place (a + i) = host + i := by
  unfold Places.cell
  rw [hrun i hi]
  rfl

theorem cell_eq_iff {x : Nat} (hplaced : place a ≠ none) : cell place a = x ↔ place a = some x := by
  obtain ⟨y, hy⟩ := Option.ne_none_iff_exists'.mp hplaced
  unfold Places.cell
  rw [hy, Option.getD_some, Option.some.injEq]

theorem Unaliased.distinct (hu : Unaliased place) (hp : Placed place a n) :
    Distinct place a n := by
  intro i hi j hj heq
  obtain ⟨y, hy⟩ := Option.ne_none_iff_exists'.mp (hp j hj)
  rw [cell_eq_iff (hp i hi)] at heq
  unfold Places.cell at heq
  rw [hy] at heq
  have := hu heq hy
  omega

theorem Run.mono (hrun : Run place a n host) {k : Nat} (hk : k ≤ n) : Run place a k host :=
  fun i hi => hrun i (Nat.lt_of_lt_of_le hi hk)

theorem Placed.mono (hp : Placed place a n) {k : Nat} (hk : k ≤ n) : Placed place a k :=
  fun i hi => hp i (Nat.lt_of_lt_of_le hi hk)

/-- The rest of a range. -/
theorem Placed.drop (hp : Placed place a n) (k : Nat) : Placed place (a + k) (n - k) := by
  intro i hi
  rw [Nat.add_assoc]
  exact hp (k + i) (by omega)

theorem Placed.append {k : Nat} (hp : Placed place a k) (hq : Placed place (a + k) n) :
    Placed place a (k + n) := by
  intro i hi
  by_cases hik : i < k
  · exact hp i hik
  · have := hq (i - k) (by omega)
    rwa [Nat.add_assoc, Nat.add_sub_of_le (Nat.le_of_not_lt hik)] at this

/-! ## Reading -/

@[simp] theorem length_gather : (gather h place a n).length = n := by simp [gather]

theorem getElem_gather {i : Nat} (hi : i < (gather h place a n).length) :
    (gather h place a n)[i] = h (cell place (a + i)) := by simp [gather]

theorem gather_run (hrun : Run place a n host) : gather h place a n = Bytes.load h host n := by
  unfold gather Bytes.load
  refine List.map_congr_left fun i hi => ?_
  rw [hrun.cell (List.mem_range.mp hi)]

theorem gather_append (k : Nat) :
    gather h place a k ++ gather h place (a + k) n = gather h place a (k + n) := by
  unfold gather
  rw [List.range_add, List.map_append, List.map_map]
  congr 1
  refine List.map_congr_left fun i _ => ?_
  rw [Function.comp_apply, Nat.add_assoc]

/-! ## Writing -/

theorem scatter_append (xs ys : List α) :
    scatter place h a (xs ++ ys) = scatter place (scatter place h a xs) (a + xs.length) ys := by
  induction xs generalizing h a with
  | nil => rfl
  | cons x xs ih =>
    rw [List.cons_append, scatter, ih, scatter, List.length_cons]
    congr 1
    omega

/-- A cell that no address of the range has keeps what it held. -/
theorem scatter_frame {xs : List α} {x : Nat} (hx : ∀ i < xs.length, cell place (a + i) ≠ x) :
    scatter place h a xs x = h x := by
  induction xs generalizing h a with
  | nil => rfl
  | cons y xs ih =>
    rw [scatter, ih]
    · have hne := hx 0 (Nat.zero_lt_succ _)
      exact Function.update_of_ne (Ne.symm hne) _ _
    · intro i hi
      have := hx (i + 1) (Nat.succ_lt_succ hi)
      rwa [Nat.add_comm i 1, ← Nat.add_assoc] at this

/-- The last address of the range with this cell decides what it holds. -/
theorem scatter_last {xs : List α} {i : Nat} (hi : i < xs.length)
    (hlast : ∀ j < xs.length, i < j → cell place (a + j) ≠ cell place (a + i)) :
    scatter place h a xs (cell place (a + i)) = xs[i] := by
  have hsplit : xs = xs.take i ++ xs[i] :: xs.drop (i + 1) := by
    rw [← List.drop_eq_getElem_cons hi, List.take_append_drop]
  have hlen : (xs.take i).length = i := by
    rw [List.length_take]
    omega
  refine (congrArg (fun l => scatter place h a l (cell place (a + i))) hsplit).trans ?_
  rw [scatter_append, hlen, scatter, scatter_frame, Function.update_self]
  intro j hj
  rw [List.length_drop] at hj
  have := hlast (i + 1 + j) (by omega) (by omega)
  rwa [← Nat.add_assoc, ← Nat.add_assoc] at this

/-- Of the addresses with one cell there is a last. -/
theorem exists_last (place : Nat → Option Nat) (a : Nat) {i : Nat} (hi : i < n) :
    ∃ k < n, cell place (a + k) = cell place (a + i) ∧
      ∀ j < n, k < j → cell place (a + j) ≠ cell place (a + i) := by
  have hspec := Nat.findGreatest_spec (P := fun k => cell place (a + k) = cell place (a + i))
    (Nat.le_sub_one_of_lt hi) rfl
  have hle := Nat.findGreatest_le (P := fun k => cell place (a + k) = cell place (a + i)) (n - 1)
  refine ⟨_, by omega, hspec, fun j hj hlt heq => ?_⟩
  exact Nat.findGreatest_is_greatest hlt (Nat.le_sub_one_of_lt hj) heq

/-- A write changes nothing just where every cell already holds what is last put there. -/
theorem scatter_eq_self_iff {xs : List α} :
    scatter place h a xs = h ↔ ∀ (i : Nat) (hi : i < xs.length),
      (∀ j < xs.length, i < j → cell place (a + j) ≠ cell place (a + i)) →
        h (cell place (a + i)) = xs[i] := by
  constructor
  · intro heq i hi hlast
    rw [← scatter_last hi hlast, heq]
  · intro hheld
    funext x
    by_cases hx : ∃ i < xs.length, cell place (a + i) = x
    · obtain ⟨i, hi, rfl⟩ := hx
      obtain ⟨k, hk, hcell, hlast⟩ := exists_last place a hi
      rw [← hcell] at hlast ⊢
      rw [scatter_last hk hlast, hheld k hk hlast]
    · exact scatter_frame fun i hi heq => hx ⟨i, hi, heq⟩

/-- What was written is read back just where no cell was given two values. -/
theorem gather_scatter_iff {xs : List α} :
    gather (scatter place h a xs) place a xs.length = xs ↔
      ∀ (i : Nat) (hi : i < xs.length) (j : Nat) (hj : j < xs.length),
        cell place (a + i) = cell place (a + j) → xs[i] = xs[j] := by
  have hget (i : Nat) (hi : i < (gather (scatter place h a xs) place a xs.length).length) :
      (gather (scatter place h a xs) place a xs.length)[i] =
        scatter place h a xs (cell place (a + i)) := getElem_gather _
  have hlen : (gather (scatter place h a xs) place a xs.length).length = xs.length :=
    length_gather
  constructor
  · intro heq i hi j hj hcell
    have hcells := hget i (by omega)
    rw [hcell, ← hget j (by omega)] at hcells
    simpa only [heq] using hcells
  · intro hagree
    refine List.ext_getElem length_gather fun i hi hi' => ?_
    obtain ⟨k, hk, hcell, hlast⟩ := exists_last place a hi'
    rw [hget i hi, ← hcell]
    rw [← hcell] at hlast
    rw [scatter_last hk hlast]
    exact hagree k hk i hi' hcell

/-- Only the cells of the range matter. -/
theorem scatter_congr {place' : Nat → Option Nat} {b : Nat} {xs : List α}
    (hcell : ∀ i < xs.length, cell place (a + i) = cell place' (b + i)) :
    scatter place h a xs = scatter place' h b xs := by
  induction xs generalizing h a b with
  | nil => rfl
  | cons x xs ih =>
    have hfirst : cell place a = cell place' b := hcell 0 (Nat.zero_lt_succ _)
    rw [scatter, scatter, hfirst]
    apply ih
    intro i hi
    have := hcell (i + 1) (Nat.succ_lt_succ hi)
    rwa [Nat.add_comm i 1, ← Nat.add_assoc, ← Nat.add_assoc] at this

theorem gather_congr {place' : Nat → Option Nat} {b : Nat}
    (hcell : ∀ i < n, cell place (a + i) = cell place' (b + i)) :
    gather h place a n = gather h place' b n := by
  unfold gather
  refine List.map_congr_left fun i hi => ?_
  rw [hcell i (List.mem_range.mp hi)]

theorem scatter_apply {xs : List α} (hd : Distinct place a xs.length) {i : Nat}
    (hi : i < xs.length) : scatter place h a xs (cell place (a + i)) = xs[i] := by
  refine scatter_last hi fun j hj hij heq => ?_
  have := hd j hj i hi heq
  omega

theorem scatter_run {xs : List α} (hrun : Run place a xs.length host) :
    scatter place h a xs = Bytes.store h host xs := by
  funext x
  rw [Bytes.store_apply]
  split_ifs with hx
  · obtain ⟨i, rfl⟩ : ∃ i, x = host + i := ⟨x - host, by omega⟩
    have hi : i < xs.length := by omega
    rw [← hrun.cell hi, scatter_last hi, hrun.cell hi, Nat.add_sub_cancel_left,
      List.getD_eq_getElem _ _ hi]
    intro j hj hij
    rw [hrun.cell hi, hrun.cell hj]
    omega
  · refine scatter_frame fun i hi => ?_
    rw [hrun.cell hi]
    omega

end X86Port.Lib.Places
