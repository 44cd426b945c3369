import Mathlib.Data.List.Basic
import X86Port.Lib.Bytes

/-!
# A buffer of fixed capacity

Cells are put down behind those that are there, until one does not fit: from then on the buffer
has overflowed, and what follows is dropped. What was put down can be written over in place.

* `putAll_ok`, `putAll_fits`: when everything fitted, and what the buffer holds then.
* `putAll_beyond`: nothing is written past the capacity.
* `contents_patch`: cells written over.
-/

namespace X86Port.Lib

/-- One item of a list, and the list with another in its place. -/
theorem set_split {β : Type*} {xs : List β} {i : Nat} {x : β} (h : xs[i]? = some x) :
    ∃ pre post, pre.length = i ∧ xs = pre ++ x :: post ∧ ∀ y, xs.set i y = pre ++ y :: post := by
  obtain ⟨hi, rfl⟩ := List.getElem?_eq_some_iff.mp h
  refine ⟨xs.take i, xs.drop (i + 1), List.length_take_of_le (Nat.le_of_lt hi), ?_, fun y => ?_⟩
  · rw [List.getElem_cons_drop, List.take_append_drop]
  · rw [List.set_eq_take_append_cons_drop, if_pos hi]

structure CodeBuffer (β : Type*) where
  buf : Nat → β
  cap : Nat
  len : Nat
  overflow : Bool
  len_le : len ≤ cap

namespace CodeBuffer

variable {β : Type*} (c : CodeBuffer β)

def refuse : CodeBuffer β := { c with overflow := true }

/-- A group of cells, all of them or none. -/
def putWhole (cells : List β) : CodeBuffer β :=
  if c.overflow then c
  else if h : c.len + cells.length ≤ c.cap then
    { c with buf := Bytes.store c.buf c.len cells, len := c.len + cells.length, len_le := h }
  else c.refuse

def put (b : β) : CodeBuffer β := c.putWhole [b]

def putAll (cells : List β) : CodeBuffer β := cells.foldl put c

/-- Cells written over, which lie inside what was put down. -/
def patch (start : Nat) (cells : List β) : CodeBuffer β :=
  { c with buf := Bytes.store c.buf start cells }

/-- What was put down. -/
def contents : List β := Bytes.load c.buf 0 c.len

variable {c}

@[simp] theorem length_contents (c : CodeBuffer β) : c.contents.length = c.len :=
  Bytes.length_load _ _ _

theorem getElem?_contents {i : Nat} (h : i < c.len) :
    c.contents[i]? = some (c.buf i) := by
  unfold contents Bytes.load
  rw [List.getElem?_map, List.getElem?_range h, Option.map_some, Nat.zero_add]

@[simp] theorem putAll_nil (c : CodeBuffer β) : c.putAll [] = c := rfl

theorem putAll_cons (c : CodeBuffer β) (b : β) (cells : List β) :
    c.putAll (b :: cells) = (c.put b).putAll cells := rfl

@[simp] theorem putAll_putAll (c : CodeBuffer β) (xs ys : List β) :
    (c.putAll xs).putAll ys = c.putAll (xs ++ ys) := (List.foldl_append ..).symm

@[simp] theorem putWhole_cap (c : CodeBuffer β) (cells : List β) :
    (c.putWhole cells).cap = c.cap := by
  unfold putWhole
  split_ifs <;> rfl

@[simp] theorem putAll_cap (c : CodeBuffer β) (cells : List β) : (c.putAll cells).cap = c.cap := by
  induction cells generalizing c with
  | nil => rfl
  | cons b cells ih => rw [putAll_cons, ih, put, putWhole_cap]

/-- Nothing is written past the capacity. -/
theorem putWhole_beyond (c : CodeBuffer β) (cells : List β) {i : Nat} (hi : c.cap ≤ i) :
    (c.putWhole cells).buf i = c.buf i := by
  unfold putWhole
  split_ifs with hover hfits
  · rfl
  · change Bytes.store c.buf c.len cells i = c.buf i
    rw [Bytes.store_apply, if_neg (by omega)]
  · rfl

theorem putAll_beyond (c : CodeBuffer β) (cells : List β) {i : Nat} (hi : c.cap ≤ i) :
    (c.putAll cells).buf i = c.buf i := by
  induction cells generalizing c with
  | nil => rfl
  | cons b cells ih =>
    rw [putAll_cons, ih _ (by rwa [put, putWhole_cap]), put, putWhole_beyond c _ hi]

/-- A group that fits. -/
theorem putWhole_ok {cells : List β} (hover : c.overflow = false)
    (hfits : c.len + cells.length ≤ c.cap) :
    (c.putWhole cells).overflow = false ∧ (c.putWhole cells).len = c.len + cells.length ∧
      (c.putWhole cells).contents = c.contents ++ cells := by
  unfold putWhole
  rw [if_neg (by rw [hover]; exact Bool.false_ne_true), dif_pos hfits]
  refine ⟨hover, rfl, ?_⟩
  change Bytes.load (Bytes.store c.buf c.len cells) 0 (c.len + cells.length) = _
  rw [Bytes.load_add, Nat.zero_add, Bytes.load_store]
  congr 1
  refine Bytes.load_congr fun x _ hx => ?_
  rw [Bytes.store_apply, if_neg (by omega)]

/-- A buffer that has not overflowed took the group. -/
theorem putWhole_fits {cells : List β} (h : (c.putWhole cells).overflow = false) :
    c.overflow = false ∧ c.len + cells.length ≤ c.cap := by
  unfold putWhole at h
  split_ifs at h with hover hfits
  · exact absurd hover (by rw [h]; exact Bool.false_ne_true)
  · exact ⟨by simpa using hover, hfits⟩
  · exact absurd h (by simp [refuse])

theorem putAll_ok {cells : List β} (hover : c.overflow = false)
    (hfits : c.len + cells.length ≤ c.cap) :
    (c.putAll cells).overflow = false ∧ (c.putAll cells).len = c.len + cells.length ∧
      (c.putAll cells).contents = c.contents ++ cells := by
  induction cells generalizing c with
  | nil => exact ⟨hover, rfl, (List.append_nil _).symm⟩
  | cons b cells ih =>
    rw [List.length_cons] at hfits
    have hone : c.len + [b].length ≤ c.cap := by
      rw [List.length_singleton]
      omega
    obtain ⟨hover', hlen, hcontents⟩ := @putWhole_ok _ _ [b] hover hone
    rw [List.length_singleton] at hlen
    obtain ⟨hall, hlen', hcontents'⟩ := ih (c := c.put b) hover' (by
      rw [put, hlen, putWhole_cap]
      omega)
    rw [putAll_cons]
    refine ⟨hall, ?_, ?_⟩
    · rw [hlen', put, hlen, List.length_cons]
      omega
    · rw [hcontents', put, hcontents, List.append_assoc, List.singleton_append]

theorem putAll_fits {cells : List β} (h : (c.putAll cells).overflow = false) :
    c.overflow = false ∧ c.len + cells.length ≤ c.cap := by
  induction cells generalizing c with
  | nil => exact ⟨h, c.len_le⟩
  | cons b cells ih =>
    obtain ⟨hone, hrest⟩ := ih (c := c.put b) h
    obtain ⟨hover, hroom⟩ := putWhole_fits hone
    obtain ⟨-, hlen, -⟩ := putWhole_ok hover hroom
    rw [put, putWhole_cap, hlen, List.length_singleton] at hrest
    rw [List.length_cons]
    exact ⟨hover, by omega⟩

/-- A buffer that has overflowed drops what follows. -/
theorem putAll_of_overflow (hover : c.overflow = true) (cells : List β) : c.putAll cells = c := by
  induction cells with
  | nil => rfl
  | cons b cells ih =>
    rw [putAll_cons, put, putWhole, if_pos hover, ih]

/-- Cells written over. -/
theorem contents_patch {xs ys zs cells : List β} (hcontents : c.contents = xs ++ ys ++ zs)
    (hlength : cells.length = ys.length) :
    (c.patch xs.length cells).contents = xs ++ cells ++ zs := by
  have hlen : c.len = xs.length + (cells.length + zs.length) := by
    rw [← length_contents, hcontents, hlength]
    simp only [List.length_append, Nat.add_assoc]
  have hold : Bytes.load c.buf 0 xs.length ++ (Bytes.load c.buf xs.length cells.length ++
      Bytes.load c.buf (xs.length + cells.length) zs.length) = xs ++ (ys ++ zs) := by
    rw [← List.append_assoc xs, ← hcontents, contents, hlen, Bytes.load_add, Bytes.load_add,
      Nat.zero_add]
  obtain ⟨hxs, htail⟩ := List.append_inj hold (Bytes.length_load _ _ _)
  obtain ⟨-, hzs⟩ := List.append_inj htail ((Bytes.length_load _ _ _).trans hlength)
  change Bytes.load (Bytes.store c.buf xs.length cells) 0 c.len = _
  rw [hlen, Bytes.load_add, Bytes.load_add, Nat.zero_add, Bytes.load_store, ← List.append_assoc]
  congr 1
  · congr 1
    refine Eq.trans (Bytes.load_congr fun x _ hx => ?_) hxs
    rw [Bytes.store_apply, if_neg (by omega)]
  · refine Eq.trans (Bytes.load_congr fun x hx _ => ?_) hzs
    rw [Bytes.store_apply, if_neg (by omega)]

end CodeBuffer

end X86Port.Lib
