import X86Port.Memory.Places

/-!
# Records in guest memory

A record is written and read piece by piece, each with its own access, and the walk stops at the
first access that is refused. The addresses of a record wrap at the end of the address space; an
access that would itself wrap is refused.

* `writePieces_layOut`: what a walk of writes leaves, also where it is refused on the way.
* `readPieces_layOut`: a record whose bytes are in memory is read back.
-/

namespace X86Port.Memory

open Cpu (Width)
open Lib Lib.Places

structure Piece where
  addr : U32
  width : Width
  value : U32

/-- The writes of a record in order, up to the first that is refused. -/
def writePieces (m : Mem) : List Piece → Host → Option (Bool × Host)
  | [], h => some (true, h)
  | p :: pieces, h => (write m h p.addr p.width p.value).bind fun
    | none => some (false, h)
    | some h' => writePieces m pieces h'

def readPieces (m : Mem) (h : Host) : List (U32 × Width) → Option (Option (List U32))
  | [] => some (some [])
  | (addr, w) :: pieces => (read m h addr w).bind fun
    | none => some none
    | some value => (readPieces m h pieces).map fun rest => rest.map (value :: ·)

/-! ## Records -/

/-- A field of a record: its width and its value. -/
abbrev Field := Width × U32

/-- The fields from an offset on, one after the other. -/
def layOut (addr : U32) : Nat → List Field → List Piece
  | _, [] => []
  | o, (w, value) :: fields =>
    ⟨addr + BitVec.ofNat 32 o, w, value⟩ :: layOut addr (o + w.bytes) fields

/-- The reads of fields of some widths, in the same way. -/
def readsAt (addr : U32) : Nat → List Width → List (U32 × Width)
  | _, [] => []
  | o, w :: widths => (addr + BitVec.ofNat 32 o, w) :: readsAt addr (o + w.bytes) widths

def fieldBytes (fields : List Field) : List U8 := fields.flatMap fun f => bytesOf f.1.bytes f.2

/-- Where the bytes of a record lie, by their offsets. -/
def Mem.offsets (m : Mem) (access addr : U32) (i : Nat) : Option Nat :=
  m.place access (addr + BitVec.ofNat 32 i).toNat

/-- A whole access is granted. -/
def Mem.Granted (m : Mem) (access addr : U32) (w : Width) : Prop :=
  Placed (m.place access) addr.toNat w.bytes

instance (m : Mem) (access addr : U32) (w : Width) : Decidable (m.Granted access addr w) :=
  inferInstanceAs (Decidable (Placed _ _ _))

/-- The bytes of the accesses before the first one that is refused. -/
def grantedBytes (m : Mem) (access addr : U32) : Nat → List Width → Nat
  | _, [] => 0
  | o, w :: widths =>
    if m.Granted access (addr + BitVec.ofNat 32 o) w then
      w.bytes + grantedBytes m access addr (o + w.bytes) widths
    else 0

def size (widths : List Width) : Nat := (widths.map Width.bytes).sum

section

variable {m : Mem} {h : Host} {access addr : U32} {o : Nat} {w : Width}

@[simp] theorem size_nil : size [] = 0 := rfl

@[simp] theorem size_cons (w : Width) (widths : List Width) :
    size (w :: widths) = w.bytes + size widths := rfl

@[simp] theorem fieldBytes_cons (w : Width) (value : U32) (fields : List Field) :
    fieldBytes ((w, value) :: fields) = bytesOf w.bytes value ++ fieldBytes fields := rfl

theorem length_fieldBytes (fields : List Field) :
    (fieldBytes fields).length = size (fields.map Prod.fst) := by
  induction fields with
  | nil => rfl
  | cons f fields ih =>
    obtain ⟨w, value⟩ := f
    rw [fieldBytes_cons, List.length_append, length_bytesOf, ih]
    rfl

theorem grantedBytes_le (widths : List Width) :
    ∀ o, grantedBytes m access addr o widths ≤ size widths := by
  induction widths with
  | nil => exact fun _ => le_rfl
  | cons w widths ih =>
    intro o
    have := ih (o + w.bytes)
    rw [grantedBytes, size_cons]
    split_ifs <;> omega

/-- A record granted in full is granted in full on both sides of each of its fields. -/
theorem grantedBytes_append (widths widths' : List Width) : ∀ o,
    grantedBytes m access addr o (widths ++ widths') = size widths + size widths' →
      grantedBytes m access addr o widths = size widths ∧
        grantedBytes m access addr (o + size widths) widths' = size widths' := by
  induction widths with
  | nil =>
    intro o hall
    rw [List.nil_append, size_nil, Nat.zero_add] at hall
    exact ⟨rfl, hall⟩
  | cons w widths ih =>
    intro o hall
    have hpos : 0 < w.bytes := by cases w <;> decide
    rw [List.cons_append, grantedBytes, size_cons] at hall
    rw [grantedBytes, size_cons, ← add_assoc]
    split_ifs at hall ⊢
    · obtain ⟨hfirst, hrest⟩ := ih (o + w.bytes) (by omega)
      exact ⟨by rw [hfirst], hrest⟩
    · omega

theorem layOut_append (fields fields' : List Field) : ∀ o, layOut addr o (fields ++ fields') =
    layOut addr o fields ++ layOut addr (o + size (fields.map Prod.fst)) fields' := by
  induction fields with
  | nil => exact fun _ => rfl
  | cons f fields ih =>
    intro o
    rw [List.cons_append, layOut, layOut, ih, List.cons_append, List.map_cons, size_cons, add_assoc]

/-- A granted access does not wrap, so its bytes lie where the record's offsets have them. -/
theorem Mem.Granted.offset (hm : m.WellFormed)
    (hg : m.Granted access (addr + BitVec.ofNat 32 o) w) {i : Nat} (hi : i < w.bytes) :
    m.offsets access addr (o + i) =
      m.place access ((addr + BitVec.ofNat 32 o).toNat + i) := by
  have hw : w.bytes ≤ 4 := by cases w <;> decide
  have hend := Placed.end_le hm hg (by omega)
  rw [Mem.offsets]
  congr 1
  simp only [BitVec.toNat_add, BitVec.toNat_ofNat] at hend ⊢
  omega

theorem cell_offsets (hm : m.WellFormed) (hg : m.Granted access (addr + BitVec.ofNat 32 o) w)
    {i : Nat} (hi : i < w.bytes) :
    cell (m.offsets access addr) (o + i) =
      cell (m.place access) ((addr + BitVec.ofNat 32 o).toNat + i) := by
  unfold cell
  rw [hg.offset hm hi]

theorem granted_of_offsets (hnowrap : (addr + BitVec.ofNat 32 o).toNat + w.bytes ≤ 2 ^ 32)
    (hplaced : Placed (m.offsets access addr) o w.bytes) :
    m.Granted access (addr + BitVec.ofNat 32 o) w := by
  have hw : w.bytes ≤ 4 := by cases w <;> decide
  intro i hi hnone
  apply hplaced i hi
  rw [Mem.offsets, ← hnone]
  congr 1
  simp only [BitVec.toNat_add, BitVec.toNat_ofNat] at hnowrap ⊢
  omega

/-- The bytes of granted accesses have places. -/
theorem offsets_of_granted (hm : m.WellFormed) (widths : List Width) : ∀ o,
    ∀ i < grantedBytes m access addr o widths, m.offsets access addr (o + i) ≠ none := by
  induction widths with
  | nil => exact fun _ i hi => absurd hi (Nat.not_lt_zero i)
  | cons w widths ih =>
    intro o i hi
    rw [grantedBytes] at hi
    by_cases hg : m.Granted access (addr + BitVec.ofNat 32 o) w
    · rw [if_pos hg] at hi
      by_cases hfirst : i < w.bytes
      · rw [hg.offset hm hfirst]
        exact hg i hfirst
      · have := ih (o + w.bytes) (i - w.bytes) (by omega)
        rwa [show o + w.bytes + (i - w.bytes) = o + i by omega] at this
    · rw [if_neg hg] at hi
      exact absurd hi (Nat.not_lt_zero i)

/-! ## Writing -/

/-- The bytes of the granted writes come to their places, in the order of the offsets. -/
theorem writePieces_layOut (hm : m.WellFormed) (fields : List Field) : ∀ (h : Host) (o : Nat),
    ∃ h', writePieces m (layOut addr o fields) h = some (decide (
        grantedBytes m memWrite addr o (fields.map Prod.fst) = size (fields.map Prod.fst)), h') ∧
      h'.bytes = scatter (m.offsets memWrite addr) h.bytes o
        ((fieldBytes fields).take (grantedBytes m memWrite addr o (fields.map Prod.fst))) := by
  induction fields with
  | nil => exact fun h o => ⟨h, rfl, rfl⟩
  | cons f fields ih =>
    obtain ⟨w, value⟩ := f
    intro h o
    have hlen := length_bytesOf w.bytes value
    have hpos : 0 < w.bytes := by cases w <;> decide
    rw [layOut, writePieces, write_placed hm, Option.bind_some, List.map_cons, size_cons,
      grantedBytes]
    dsimp only
    by_cases hg : m.Granted memWrite (addr + BitVec.ofNat 32 o) w
    · obtain ⟨h', hrun, hbytes⟩ := ih (Host.put m h (addr + BitVec.ofNat 32 o)
        (bytesOf w.bytes value)) (o + w.bytes)
      have hput : (Host.put m h (addr + BitVec.ofNat 32 o) (bytesOf w.bytes value)).bytes =
          scatter (m.offsets memWrite addr) h.bytes o (bytesOf w.bytes value) := by
        refine (scatter_congr fun i hi => ?_).symm
        rw [hlen] at hi
        exact cell_offsets hm hg hi
      have hplaced : Placed (m.place memWrite) (addr + BitVec.ofNat 32 o).toNat w.bytes := hg
      rw [if_pos hg, if_pos hplaced]
      refine ⟨h', ?_, ?_⟩
      · simp only [hrun, Nat.add_left_cancel_iff]
      · have hwhole (k : Nat) : (bytesOf w.bytes value).take (w.bytes + k) = bytesOf w.bytes value :=
          List.take_of_length_le (by omega)
        rw [hbytes, hput, fieldBytes_cons, List.take_append, hlen, Nat.add_sub_cancel_left, hwhole,
          scatter_append, hlen]
    · have hrefused : ¬ Placed (m.place memWrite) (addr + BitVec.ofNat 32 o).toNat w.bytes := hg
      rw [if_neg hg, if_neg hrefused]
      refine ⟨h, ?_, rfl⟩
      simp only [Option.some.injEq, Prod.mk.injEq, and_true]
      exact (decide_eq_false (by omega)).symm

theorem writePieces_append (m : Mem) (pieces pieces' : List Piece) (h : Host) :
    writePieces m (pieces ++ pieces') h = (writePieces m pieces h).bind fun (ok, h') =>
      if ok then writePieces m pieces' h' else some (false, h') := by
  induction pieces generalizing h with
  | nil => rfl
  | cons p pieces ih =>
    rw [List.cons_append, writePieces, writePieces]
    cases write m h p.addr p.width p.value with
    | none => rfl
    | some result =>
      cases result with
      | none => rfl
      | some h' => exact ih h'

/-! ## Reading -/

/-- Accesses that were granted for writing do not wrap, so they are granted wherever their bytes
are. -/
theorem grantedBytes_of_offsets (hm : m.WellFormed) (widths : List Width) : ∀ o,
    grantedBytes m memWrite addr o widths = size widths →
    (∀ i < size widths, m.offsets access addr (o + i) ≠ none) →
    grantedBytes m access addr o widths = size widths := by
  induction widths with
  | nil => exact fun _ _ _ => rfl
  | cons w widths ih =>
    intro o hwrite hplaced
    have hpos : 0 < w.bytes := by cases w <;> decide
    rw [grantedBytes, size_cons] at hwrite ⊢
    rw [size_cons] at hplaced
    by_cases hg : m.Granted memWrite (addr + BitVec.ofNat 32 o) w
    · rw [if_pos hg] at hwrite
      have hgranted : m.Granted access (addr + BitVec.ofNat 32 o) w :=
        granted_of_offsets (Placed.end_le hm hg (by omega)) fun i hi => hplaced i (by omega)
      rw [if_pos hgranted, ih (o + w.bytes) (by omega)]
      intro i hi
      rw [add_assoc]
      exact hplaced (w.bytes + i) (by omega)
    · rw [if_neg hg] at hwrite
      omega

/-- A record that is in memory is read back, each value at its field's width. -/
theorem readPieces_layOut (hm : m.WellFormed) (fields : List Field) : ∀ o,
    grantedBytes m memRead addr o (fields.map Prod.fst) = size (fields.map Prod.fst) →
    gather h.bytes (m.offsets memRead addr) o (size (fields.map Prod.fst)) = fieldBytes fields →
    readPieces m h (readsAt addr o (fields.map Prod.fst)) =
      some (some (fields.map fun f => valueOf (bytesOf f.1.bytes f.2))) := by
  induction fields with
  | nil => exact fun _ _ _ => rfl
  | cons f fields ih =>
    obtain ⟨w, value⟩ := f
    intro o hgranted hbytes
    have hpos : 0 < w.bytes := by cases w <;> decide
    rw [List.map_cons, size_cons, grantedBytes] at hgranted
    by_cases hg : m.Granted memRead (addr + BitVec.ofNat 32 o) w
    · rw [if_pos hg] at hgranted
      have hplaced : Placed (m.place memRead) (addr + BitVec.ofNat 32 o).toNat w.bytes := hg
      rw [List.map_cons, size_cons, ← gather_append, fieldBytes_cons] at hbytes
      obtain ⟨hfirst, hrest⟩ := List.append_inj hbytes (by
        rw [length_gather]
        exact (length_bytesOf w.bytes value).symm)
      have hcells : gather h.bytes (m.place memRead) (addr + BitVec.ofNat 32 o).toNat w.bytes =
          bytesOf w.bytes value := by
        rw [← gather_congr fun i hi => cell_offsets hm hg hi]
        exact hfirst
      rw [List.map_cons, readsAt, readPieces, read_placed hm, if_pos hplaced, Option.bind_some,
        hcells]
      dsimp only
      rw [ih (o + w.bytes) (by dsimp only at hgranted; omega) hrest]
      rfl
    · rw [if_neg hg] at hgranted
      dsimp only at hgranted
      omega

end

end X86Port.Memory
