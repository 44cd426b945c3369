import Mathlib.Data.List.GetD
import Mathlib.Data.List.Basic
import Mathlib.Tactic.SplitIfs

/-!
# Copies and fills of a flat memory

A memory is a function from addresses to cells. Copies, stores and fills change a range and
are known by what they leave at each address.

* `store_load`: writing what was read is a copy.
* `copy_copy`: two copies of neighbouring ranges are one, when the first does not reach the
  source of the second.
* `store_tile`, `copy_tile`: a fill with a repeated unit, grown by one unit or by a copy of
  its own beginning.
-/

namespace X86Port.Lib.Bytes

variable {α : Type*}

/-- The `n` cells from `src` on. -/
def load (h : Nat → α) (src n : Nat) : List α := (List.range n).map fun i => h (src + i)

/-- The cells of a list, put down from `dst` on. -/
def store (h : Nat → α) (dst : Nat) (cells : List α) : Nat → α := fun x =>
  if dst ≤ x then cells.getD (x - dst) (h x) else h x

/-- `memcpy`. -/
def copy (h : Nat → α) (dst src n : Nat) : Nat → α := fun x =>
  if dst ≤ x ∧ x < dst + n then h (src + (x - dst)) else h x

/-- `n` cells from `dst` on repeat the unit of `w` cells. -/
def tile (h : Nat → α) (dst n : Nat) (unit : Nat → α) (w : Nat) : Nat → α := fun x =>
  if dst ≤ x ∧ x < dst + n then unit ((x - dst) % w) else h x

@[simp] theorem length_load (h : Nat → α) (src n : Nat) : (load h src n).length = n := by
  simp [load]

theorem getD_load (h : Nat → α) (src n : Nat) {i : Nat} (d : α) (hi : i < n) :
    (load h src n).getD i d = h (src + i) := by
  simp [load, List.getD, hi]

theorem store_apply {h : Nat → α} {dst : Nat} {cells : List α} {x : Nat} :
    store h dst cells x =
      if dst ≤ x ∧ x < dst + cells.length then cells.getD (x - dst) (h x) else h x := by
  unfold store
  by_cases h1 : dst ≤ x
  · by_cases h2 : x < dst + cells.length
    · rw [if_pos h1, if_pos ⟨h1, h2⟩]
    · rw [if_pos h1, if_neg (by omega), List.getD_eq_default _ _ (by omega)]
  · rw [if_neg h1, if_neg (by omega)]

theorem load_congr {h g : Nat → α} {src n : Nat}
    (hg : ∀ x, src ≤ x → x < src + n → h x = g x) : load h src n = load g src n :=
  List.map_congr_left fun i hi => hg (src + i) (Nat.le_add_right src i)
    (Nat.add_lt_add_left (List.mem_range.1 hi) src)

theorem load_add (h : Nat → α) (src m n : Nat) :
    load h src (m + n) = load h src m ++ load h (src + m) n := by
  unfold load
  rw [List.range_add, List.map_append, List.map_map]
  simp only [Function.comp_def, Nat.add_assoc]

theorem load_store (h : Nat → α) (dst : Nat) (cells : List α) :
    load (store h dst cells) dst cells.length = cells := by
  refine List.ext_getElem (length_load _ _ _) fun i hi hi' => ?_
  simp only [load, List.getElem_map, List.getElem_range]
  rw [store_apply, if_pos (by omega), Nat.add_sub_cancel_left, List.getD_eq_getElem _ _ hi']

theorem store_nil (h : Nat → α) (dst : Nat) : store h dst [] = h := by
  funext x
  rw [store_apply, if_neg (by simp)]

theorem store_cons (h : Nat → α) (dst : Nat) (c : α) (cells : List α) :
    store h dst (c :: cells) = store (Function.update h dst c) (dst + 1) cells := by
  funext x
  rw [store_apply, store_apply, List.length_cons]
  rcases Nat.lt_trichotomy x dst with hx | rfl | hx
  · rw [if_neg (by omega), if_neg (by omega), Function.update_of_ne (by omega)]
  · rw [if_pos (by omega), if_neg (by omega), Function.update_self, Nat.sub_self]
    rfl
  · have hsub : x - dst = x - (dst + 1) + 1 := by omega
    rw [Function.update_of_ne (by omega), hsub, List.getD_cons_succ]
    split_ifs <;> first | rfl | omega

theorem store_load (h : Nat → α) (dst src n : Nat) :
    store h dst (load h src n) = copy h dst src n := by
  funext x
  rw [store_apply, copy, length_load]
  split_ifs with hx
  · exact getD_load h src n _ (by omega)
  · rfl

theorem copy_zero (h : Nat → α) (dst src : Nat) : copy h dst src 0 = h := by
  funext x
  exact if_neg (by omega)

theorem copy_copy {h : Nat → α} {dst src m n : Nat}
    (hd : ∀ x, src + m ≤ x → x < src + m + n → ¬ (dst ≤ x ∧ x < dst + m)) :
    copy (copy h dst src m) (dst + m) (src + m) n = copy h dst src (m + n) := by
  funext x
  unfold copy
  by_cases h1 : dst + m ≤ x ∧ x < dst + m + n
  · rw [if_pos h1, if_neg (hd _ (by omega) (by omega)), if_pos (by omega)]
    congr 1
    omega
  · rw [if_neg h1]
    by_cases h2 : dst ≤ x ∧ x < dst + m
    · rw [if_pos h2, if_pos (by omega)]
    · rw [if_neg h2, if_neg (by omega)]

theorem tile_zero (h : Nat → α) (dst : Nat) (unit : Nat → α) (w : Nat) :
    tile h dst 0 unit w = h := by
  funext x
  exact if_neg (by omega)

/-- A first unit put down and the rest filled behind it. -/
theorem store_tile {h : Nat → α} {dst n : Nat} {unit : Nat → α} {cells : List α}
    (hw : 0 < cells.length) (hcells : ∀ i, (hi : i < cells.length) → cells[i] = unit i) :
    tile (store h dst cells) (dst + cells.length) n unit cells.length =
      tile h dst (cells.length + n) unit cells.length := by
  funext x
  unfold tile
  by_cases h1 : dst + cells.length ≤ x ∧ x < dst + cells.length + n
  · rw [if_pos h1, if_pos (by omega), Nat.sub_add_eq,
      ← Nat.mod_eq_sub_mod (show cells.length ≤ x - dst by omega)]
  · rw [if_neg h1, store_apply]
    by_cases h2 : dst ≤ x ∧ x < dst + cells.length
    · have hlt : x - dst < cells.length := by omega
      rw [if_pos h2, if_pos (by omega), List.getD_eq_getElem _ _ hlt, hcells _ hlt,
        Nat.mod_eq_of_lt hlt]
    · rw [if_neg h2, if_neg (by omega)]

/-- A fill of whole units grown by a copy of its beginning. -/
theorem copy_tile {h : Nat → α} {dst m k : Nat} {unit : Nat → α} {w : Nat} (hm : w ∣ m)
    (hk : k ≤ m) : copy (tile h dst m unit w) (dst + m) dst k = tile h dst (m + k) unit w := by
  funext x
  obtain ⟨q, rfl⟩ := hm
  unfold copy tile
  by_cases h1 : dst + w * q ≤ x ∧ x < dst + w * q + k
  · rw [if_pos h1, if_pos (by omega), if_pos (by omega)]
    congr 1
    have hx : x - dst = dst + (x - (dst + w * q)) - dst + w * q := by omega
    rw [hx, Nat.add_mul_mod_self_left]
  · rw [if_neg h1]
    by_cases h2 : dst ≤ x ∧ x < dst + w * q
    · rw [if_pos h2, if_pos (by omega)]
    · rw [if_neg h2, if_neg (by omega)]

end X86Port.Lib.Bytes
