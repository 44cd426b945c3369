import X86Port.Memory.Places
import X86Port.Pe.Relocation

/-!
# What a mapped image holds

The image a file describes, as a function from RVAs to bytes, and the guest memory `map` leaves.

* `layout`: the headers and then the sections in table order, over zeros.
* `Table`: the targets a well-formed relocation table names.
* `relocated`: every target has the displacement added once.
* `map_places_file`: what a mapping that succeeds leaves in the image, that no other byte changes
  whatever the status, and how images at two bases differ.
-/

namespace X86Port.Pe

open Cpu (Width)
open Memory (Mem Host valueOf bytesOf writeBytes)
open Lib Lib.Places

/-! ## The image a file describes -/

/-- The bytes of the file that a section puts into the image. -/
def PeSection.bytes (file : List U8) (s : PeSection) : List U8 :=
  (file.drop s.rawOffset.toNat).take s.copied.toNat

def layoutSections (file : List U8) (sections : List PeSection) (image : Nat → U8) : Nat → U8 :=
  sections.foldl (fun image s => Bytes.store image s.rva.toNat (s.bytes file)) image

/-- The headers and then each section, in table order. -/
def layout (file : List U8) (headers : PeHeaders) : Nat → U8 :=
  layoutSections file headers.sections
    (Bytes.store (fun _ => 0) 0 (file.take headers.sizeOfHeaders.toNat))

def value32 (image : Nat → U8) (rva : Nat) : U32 := valueOf (Bytes.load image rva 4)

def value16 (image : Nat → U8) (rva : Nat) : U16 := (valueOf (Bytes.load image rva 2)).setWidth 16

/-- The targets of the HIGHLOW entries among `n` entries from `entry` on. -/
def entryTargets (image : Nat → U8) (page : U32) : Nat → Nat → List Nat
  | 0, _ => []
  | n + 1, entry =>
    let word := value16 image entry
    (if word >>> 12 = 3 then [(relocTarget page word).toNat] else []) ++
      entryTargets image page n (entry + 2)

/-- The blocks from `block` up to `stop` lie in the table one behind the other, and name these
targets. -/
inductive Table (image : Nat → U8) (stop : Nat) : Nat → List Nat → Prop
  | done {block : Nat} : stop < block + 8 → Table image stop block []
  | block {block : Nat} {targets : List Nat} : block + 8 ≤ stop →
      8 ≤ (value32 image (block + 4)).toNat →
      block + (value32 image (block + 4)).toNat ≤ stop →
      Table image stop (block + (value32 image (block + 4)).toNat) targets →
      Table image stop block
        (entryTargets image (value32 image block) (((value32 image (block + 4)).toNat - 8) / 2)
          (block + 8) ++ targets)

/-- A table inside its directory, whose targets are disjoint double words outside it. -/
structure WellFormedTable (image : Nat → U8) (relocs : PeDataDirectory) (targets : List Nat) :
    Prop where
  fits : relocs.rva.toNat + relocs.size.toNat < 2 ^ 32
  table : Table image (relocs.rva.toNat + relocs.size.toNat) relocs.rva.toNat targets
  disjoint : targets.Pairwise fun s t => s + 4 ≤ t ∨ t + 4 ≤ s
  outside : ∀ t ∈ targets, t + 4 ≤ relocs.rva.toNat ∨ relocs.rva.toNat + relocs.size.toNat ≤ t

/-- The displacement added to the double word at each target. -/
def relocated (image : Nat → U8) (targets : List Nat) (delta : U32) : Nat → U8 := fun r =>
  match targets.find? fun t => decide (t ≤ r ∧ r < t + 4) with
  | some t => (bytesOf 4 (value32 image t + delta)).getD (r - t) 0
  | none => image r

/-- The image at a base. -/
def imageAt (file : List U8) (headers : PeHeaders) (targets : List Nat) (base : U32) : Nat → U8 :=
  if base = headers.imageBase then layout file headers
  else relocated (layout file headers) targets (base - headers.imageBase)

/-! ## Relocating one target after the other -/

variable {f g : Nat → U8} {targets : List Nat} {delta : U32} {t r : Nat}

theorem value32_congr (h : ∀ i < 4, f (r + i) = g (r + i)) : value32 f r = value32 g r := by
  unfold value32 Bytes.load
  congr 1
  exact List.map_congr_left fun i hi => h i (List.mem_range.mp hi)

theorem value16_congr (h : ∀ i < 2, f (r + i) = g (r + i)) : value16 f r = value16 g r := by
  unfold value16 Bytes.load
  congr 2
  exact List.map_congr_left fun i hi => h i (List.mem_range.mp hi)

theorem entryTargets_absolute {page : U32} {n entry : Nat} (h : value16 f entry >>> 12 = 0) :
    entryTargets f page (n + 1) entry = entryTargets f page n (entry + 2) := by
  rw [entryTargets, h, if_neg (by decide), List.nil_append]

theorem entryTargets_highLow {page : U32} {n entry : Nat} (h : value16 f entry >>> 12 = 3) :
    entryTargets f page (n + 1) entry =
      (relocTarget page (value16 f entry)).toNat :: entryTargets f page n (entry + 2) := by
  rw [entryTargets, h, if_pos rfl, List.singleton_append]

theorem find_outside (h : ∀ t ∈ targets, r < t ∨ t + 4 ≤ r) :
    (targets.find? fun t => decide (t ≤ r ∧ r < t + 4)) = none := by
  rw [List.find?_eq_none]
  intro t ht
  have := h t ht
  simp only [decide_eq_true_eq]
  omega

/-- Away from every target nothing changes. -/
theorem relocated_of_outside (h : ∀ t ∈ targets, r < t ∨ t + 4 ≤ r) :
    relocated f targets delta r = f r := by
  unfold relocated
  rw [find_outside h]

/-- Between the targets an image reads as the file has it. -/
theorem value32_between {lo hi : Nat} (houtside : ∀ t ∈ targets, t + 4 ≤ lo ∨ hi ≤ t)
    (hlo : lo ≤ r) (hhi : r + 4 ≤ hi) :
    value32 (relocated f targets delta) r = value32 f r := by
  refine value32_congr fun i hi => relocated_of_outside fun t ht => ?_
  have := houtside t ht
  omega

theorem value16_between {lo hi : Nat} (houtside : ∀ t ∈ targets, t + 4 ≤ lo ∨ hi ≤ t)
    (hlo : lo ≤ r) (hhi : r + 2 ≤ hi) :
    value16 (relocated f targets delta) r = value16 f r := by
  refine value16_congr fun i hi => relocated_of_outside fun t ht => ?_
  have := houtside t ht
  omega

/-- A target behind the others. -/
theorem relocated_append (hdisjoint : ∀ s ∈ targets, s + 4 ≤ t ∨ t + 4 ≤ s) :
    relocated f (targets ++ [t]) delta =
      Bytes.store (relocated f targets delta) t
        (bytesOf 4 (value32 (relocated f targets delta) t + delta)) := by
  have hvalue : value32 (relocated f targets delta) t = value32 f t :=
    value32_between hdisjoint (Nat.le_refl t) (Nat.le_refl (t + 4))
  funext r
  rw [Bytes.store_apply, hvalue, Memory.length_bytesOf]
  by_cases hin : t ≤ r ∧ r < t + 4
  · rw [if_pos hin]
    have hfind : (targets.find? fun s => decide (s ≤ r ∧ r < s + 4)) = none :=
      find_outside fun s hs => by have := hdisjoint s hs; omega
    unfold relocated
    rw [List.find?_append, hfind, Option.none_or, List.find?_cons_of_pos (by simpa using hin)]
    have hlt : r - t < (bytesOf 4 (value32 f t + delta)).length := by
      rw [Memory.length_bytesOf]
      omega
    simp only [List.getD_eq_getElem _ _ hlt]
  · rw [if_neg hin]
    unfold relocated
    rw [List.find?_append, List.find?_cons_of_neg (by simpa using hin), List.find?_nil,
      Option.or_none]

/-! ## The image in guest memory -/

section Guest

variable {m : Mem} {base size : U32} {h h' : Host}

/-- The byte at each RVA. -/
def imageBytes (m : Mem) (h : Host) (base : U32) : Nat → U8 := fun r =>
  h.bytes (cell (m.place 0) (base.toNat + r))

def Holds (m : Mem) (base size : U32) (f : Nat → U8) (h : Host) : Prop :=
  ∀ r < size.toNat, imageBytes m h base r = f r

/-- Bytes that are no byte of the image are the same. -/
def Untouched (m : Mem) (base size : U32) (h h' : Host) : Prop :=
  ∀ x, (∀ r < size.toNat, m.place 0 (base.toNat + r) ≠ some x) → h'.bytes x = h.bytes x

theorem Untouched.trans {h'' : Host} (h1 : Untouched m base size h h')
    (h2 : Untouched m base size h' h'') : Untouched m base size h h'' :=
  fun x hx => (h2 x hx).trans (h1 x hx)

/-- A write into the image, from the RVA `r` on. -/
theorem put_untouched {addr : U32} {xs : List U8} (haddr : addr.toNat = base.toNat + r)
    (hin : r + xs.length ≤ size.toNat)
    (hplaced : Placed (m.place Memory.memWrite) addr.toNat xs.length) :
    Untouched m base size h (Host.put m h addr xs) := by
  intro x hx
  refine scatter_frame fun i hi heq => ?_
  obtain ⟨y, hy⟩ := Option.ne_none_iff_exists'.mp (hplaced i hi)
  refine hx (r + i) (by omega) ?_
  rw [← Nat.add_assoc, ← haddr, Memory.place_zero hy, ← heq]
  unfold cell
  rw [hy]
  rfl

theorem put_holds (hd : Distinct (m.place 0) base.toNat size.toNat) {addr : U32} {xs : List U8}
    (haddr : addr.toNat = base.toNat + r) (hin : r + xs.length ≤ size.toNat)
    (hplaced : Placed (m.place Memory.memWrite) addr.toNat xs.length)
    (hholds : Holds m base size f h) :
    Holds m base size (Bytes.store f r xs) (Host.put m h addr xs) := by
  have hwrite : Distinct (m.place Memory.memWrite) addr.toNat xs.length := by
    intro i hi j hj heq
    rw [Memory.cell_zero (hplaced i hi), Memory.cell_zero (hplaced j hj), haddr, Nat.add_assoc,
      Nat.add_assoc] at heq
    have := hd (r + i) (by omega) (r + j) (by omega) heq
    omega
  intro q hq
  unfold imageBytes
  rw [Bytes.store_apply]
  by_cases hcovered : r ≤ q ∧ q < r + xs.length
  · obtain ⟨i, rfl⟩ : ∃ i, q = r + i := ⟨q - r, by omega⟩
    have hi : i < xs.length := by omega
    rw [if_pos hcovered, Nat.add_sub_cancel_left, List.getD_eq_getElem _ _ hi, ← Nat.add_assoc,
      ← haddr, ← Memory.cell_zero (hplaced i hi)]
    exact scatter_apply hwrite hi
  · rw [if_neg hcovered, ← hholds q hq]
    refine scatter_frame fun i hi heq => ?_
    rw [Memory.cell_zero (hplaced i hi), haddr, Nat.add_assoc] at heq
    have := hd (r + i) (by omega) q hq heq
    omega

/-! ## The headers and the sections -/

theorem length_bytes {file : List U8} {s : PeSection}
    (hfits : fits file.length s.rawOffset.toNat s.copied.toNat = true) :
    (s.bytes file).length = s.copied.toNat := by
  unfold fits at hfits
  have := of_decide_eq_true hfits
  unfold PeSection.bytes
  rw [List.length_take, List.length_drop]
  omega

theorem bytes_of_copied_zero {file : List U8} {s : PeSection} (hzero : s.copied = 0) :
    s.bytes file = [] := by
  unfold PeSection.bytes
  rw [hzero]
  rfl

theorem store_nil (f : Nat → U8) (r : Nat) : Bytes.store f r [] = f := by
  funext x
  rw [Bytes.store_apply]
  split_ifs <;> rfl

/-- What the first section does: nothing to copy, a refusal, or a write inside the image. -/
theorem copySections_cons (hm : m.WellFormed) (hend : base.toNat + size.toNat ≤ 2 ^ 32)
    {file : List U8} {s : PeSection} {rest : List PeSection} {status : PeStatus}
    (hcopy : copySections m file size base (s :: rest) h = some (status, h')) :
    (s.copied = 0 ∧ copySections m file size base rest h = some (status, h')) ∨
      (status ≠ .ok ∧ h' = h) ∨
      ((base + s.rva).toNat = base.toNat + s.rva.toNat ∧
        s.rva.toNat + (s.bytes file).length ≤ size.toNat ∧
        Placed (m.place Memory.memWrite) (base + s.rva).toNat (s.bytes file).length ∧
        copySections m file size base rest (Host.put m h (base + s.rva) (s.bytes file)) =
          some (status, h')) := by
  unfold copySections at hcopy
  split_ifs at hcopy with hzero hout
  · exact Or.inl ⟨hzero, hcopy⟩
  · obtain ⟨rfl, rfl⟩ := Prod.mk.inj (Option.some.inj hcopy)
    exact Or.inr (Or.inl ⟨by decide, rfl⟩)
  · right
    simp only [Bool.or_eq_true, Bool.not_eq_true', decide_eq_true_eq, not_or,
      Bool.not_eq_false] at hout
    obtain ⟨⟨hfits, hrva⟩, hroom⟩ := hout
    have hlen := length_bytes hfits
    have hin : s.rva.toNat + (s.bytes file).length ≤ size.toNat := by
      rw [hlen]
      bv_omega
    have haddr : (base + s.rva).toNat = base.toNat + s.rva.toNat := by bv_omega
    obtain ⟨written, hwrite, hrest⟩ := Option.bind_eq_some_iff.mp hcopy
    cases written with
    | none =>
      obtain ⟨rfl, rfl⟩ := Prod.mk.inj (Option.some.inj hrest)
      exact Or.inl ⟨by decide, rfl⟩
    | some h1 =>
      right
      have hwrite : writeBytes m h (base + s.rva) (s.bytes file) = some (some h1) := hwrite
      obtain ⟨hplaced, rfl⟩ := Memory.writeBytes_some hm (by rw [haddr]; omega)
        (by rw [hlen]; exact s.copied.isLt) hwrite
      exact ⟨haddr, hin, hplaced, hrest⟩

theorem copySections_untouched (hm : m.WellFormed) (hend : base.toNat + size.toNat ≤ 2 ^ 32)
    {file : List U8} {sections : List PeSection} {status : PeStatus}
    (hcopy : copySections m file size base sections h = some (status, h')) :
    Untouched m base size h h' := by
  induction sections generalizing h with
  | nil =>
    obtain ⟨-, rfl⟩ := Prod.mk.inj (Option.some.inj hcopy)
    exact fun _ _ => rfl
  | cons s rest ih =>
    obtain ⟨-, hrest⟩ | ⟨-, rfl⟩ | ⟨haddr, hin, hplaced, hrest⟩ :=
      copySections_cons hm hend hcopy
    · exact ih hrest
    · exact fun _ _ => rfl
    · exact (put_untouched haddr hin hplaced).trans (ih hrest)

theorem copySections_holds (hm : m.WellFormed)
    (hd : Distinct (m.place 0) base.toNat size.toNat)
    (hend : base.toNat + size.toNat ≤ 2 ^ 32) {file : List U8} {sections : List PeSection}
    (hcopy : copySections m file size base sections h = some (.ok, h'))
    (hholds : Holds m base size f h) :
    Holds m base size (layoutSections file sections f) h' := by
  induction sections generalizing h f with
  | nil =>
    obtain ⟨-, rfl⟩ := Prod.mk.inj (Option.some.inj hcopy)
    exact hholds
  | cons s rest ih =>
    obtain ⟨hzero, hrest⟩ | ⟨hne, -⟩ | ⟨haddr, hin, hplaced, hrest⟩ :=
      copySections_cons hm hend hcopy
    · have := ih hrest hholds
      unfold layoutSections
      rwa [List.foldl_cons, bytes_of_copied_zero hzero, store_nil]
    · exact absurd rfl hne
    · exact ih hrest (put_holds hd haddr hin hplaced hholds)

/-! ## The relocation walk -/

theorem imageRead_holds (hm : m.WellFormed) (hend : base.toNat + size.toNat ≤ 2 ^ 32)
    (hholds : Holds m base size f h) {rva : U32} {w : Width} {value : U32}
    (hread : imageRead ⟨m, base, size⟩ h rva w = some value) :
    value = valueOf (Bytes.load f rva.toNat w.bytes) := by
  have hbound := imageRead_bound hread
  dsimp only at hbound
  have hpos : 0 < w.bytes := by cases w <;> decide
  unfold imageRead at hread
  split_ifs at hread
  dsimp only at hread
  have haddr : (base + rva).toNat = base.toNat + rva.toNat := by bv_omega
  rw [Memory.read_placed hm, Option.join_some] at hread
  split_ifs at hread with hplaced
  rw [← Option.some.inj hread]
  congr 1
  unfold gather Bytes.load
  refine List.map_congr_left fun i hi => ?_
  have hi := List.mem_range.mp hi
  rw [Memory.cell_zero (hplaced i hi), haddr, Nat.add_assoc]
  exact hholds (rva.toNat + i) (by omega)

theorem rva32_holds (hm : m.WellFormed) (hend : base.toNat + size.toNat ≤ 2 ^ 32)
    (hholds : Holds m base size f h) {rva value : U32}
    (hread : rva32 ⟨m, base, size⟩ h rva = some value) : value = value32 f rva.toNat :=
  imageRead_holds hm hend hholds hread

theorem rva16_holds (hm : m.WellFormed) (hend : base.toNat + size.toNat ≤ 2 ^ 32)
    (hholds : Holds m base size f h) {rva : U32} {word : U16}
    (hread : rva16 ⟨m, base, size⟩ h rva = some word) : word = value16 f rva.toNat := by
  obtain ⟨value, hvalue, rfl⟩ := Option.map_eq_some_iff.mp hread
  rw [imageRead_holds hm hend hholds hvalue]
  rfl

/-- A double word relocated in place. -/
theorem write32_some (hm : m.WellFormed) (hend : base.toNat + size.toNat ≤ 2 ^ 32)
    {target value : U32} {host : Host} (hbound : target.toNat + 4 ≤ size.toNat)
    (hwrite : (Memory.write m h (base + target) .dword value).join = some host) :
    (base + target).toNat = base.toNat + target.toNat ∧
      Placed (m.place Memory.memWrite) (base + target).toNat (bytesOf 4 value).length ∧
      host = Host.put m h (base + target) (bytesOf 4 value) := by
  rw [Memory.write_placed hm, Option.join_some] at hwrite
  split_ifs at hwrite with hplaced
  refine ⟨by bv_omega, ?_, (Option.some.inj hwrite).symm⟩
  rwa [Memory.length_bytesOf]

/-- One more target relocated in place. -/
theorem write32_holds (hm : m.WellFormed) (hd : Distinct (m.place 0) base.toNat size.toNat)
    (hend : base.toNat + size.toNat ≤ 2 ^ 32) {done : List Nat} {target value : U32} {host : Host}
    (hholds : Holds m base size (relocated f done delta) h)
    (hapart : ∀ t ∈ done, t + 4 ≤ target.toNat ∨ target.toNat + 4 ≤ t)
    (hread : rva32 ⟨m, base, size⟩ h target = some value)
    (hwrite : (Memory.write m h (base + target) .dword (value + delta)).join = some host) :
    Holds m base size (relocated f (done ++ [target.toNat]) delta) host := by
  have hin := rva32_bound hread
  obtain ⟨haddr, hplaced, rfl⟩ := write32_some hm hend hin hwrite
  have hroom : target.toNat + (bytesOf 4 (value + delta)).length ≤ size.toNat := by
    rwa [Memory.length_bytesOf]
  have hstored := put_holds hd haddr hroom hplaced hholds
  obtain rfl := rva32_holds hm hend hholds hread
  rwa [← relocated_append hapart] at hstored

theorem relocateEntries_untouched (hm : m.WellFormed) (hend : base.toNat + size.toNat ≤ 2 ^ 32)
    (delta page stop : U32) (fuel : Nat) (entry : U32) (s : Walk) :
    Untouched m base size s.host
      (relocateEntries ⟨m, base, size⟩ delta page stop fuel entry s).2.host := by
  induction fuel generalizing entry s with
  | zero => exact fun _ _ => rfl
  | succ fuel ih =>
    obtain ⟨-, heq⟩ | ⟨status, -, heq⟩ | ⟨word, -, -, hround⟩ :=
      relocateEntries_succ ⟨m, base, size⟩ delta page stop fuel entry s
    · rw [heq]
      exact fun _ _ => rfl
    · rw [heq]
      exact fun _ _ => rfl
    · obtain ⟨-, heq⟩ | ⟨value, host, -, hread, hwrite, heq⟩ := hround
      · rw [heq]
        exact ih _ _
      · have hbound := rva32_bound hread
        obtain ⟨haddr, hplaced, rfl⟩ := write32_some hm hend hbound hwrite
        rw [heq]
        refine (put_untouched haddr ?_ hplaced).trans (ih _ _)
        rwa [Memory.length_bytesOf]

theorem relocateRound_untouched (hm : m.WellFormed) (hend : base.toNat + size.toNat ≤ 2 ^ 32)
    (delta : U32) (relocs : PeDataDirectory) (s : Walk) :
    Untouched m base size s.host (relocateRound ⟨m, base, size⟩ delta relocs s).2.host := by
  unfold relocateRound
  split_ifs
  · unfold relocateBlock
    split
    · rename_i page blockSize _ _
      split_ifs
      · exact fun _ _ => rfl
      · have hentries := relocateEntries_untouched hm hend delta page
          (s.block + blockSize) (size.toNat + 1) (s.block + 8) s
        dsimp only
        split <;> exact hentries
    · exact fun _ _ => rfl
  · exact fun _ _ => rfl

theorem relocate_untouched (hm : m.WellFormed) (hend : base.toNat + size.toNat ≤ 2 ^ 32)
    (rounds : Nat) (headers : PeHeaders) (h : Host) :
    Untouched m base size h (relocate rounds ⟨m, base, size⟩ headers h).2.host := by
  have hloop : ∀ (rounds : Nat) (delta : U32) (relocs : PeDataDirectory) (s : Walk),
      Untouched m base size s.host
        (relocateLoop ⟨m, base, size⟩ delta relocs rounds s).2.host := by
    intro rounds delta relocs
    induction rounds with
    | zero => exact fun _ _ _ => rfl
    | succ rounds ih =>
      intro s
      have hround := relocateRound_untouched hm hend delta relocs s
      unfold relocateLoop
      split
      · rename_i heq
        rwa [heq] at hround
      · rename_i heq
        rw [heq] at hround
        exact hround.trans (ih _)
  unfold relocate
  dsimp only
  split_ifs
  · exact fun _ _ => rfl
  · exact hloop _ _ _ _

section Table

variable (hm : m.WellFormed) (hd : Distinct (m.place 0) base.toNat size.toNat)
  (hend : base.toNat + size.toNat ≤ 2 ^ 32)
  {lo hi : Nat} {targets : List Nat}
  (hdisjoint : targets.Pairwise fun s t => s + 4 ≤ t ∨ t + 4 ≤ s)
  (houtside : ∀ t ∈ targets, t + 4 ≤ lo ∨ hi ≤ t)

include hm hd hend hdisjoint houtside

/-- The loop over the entries relocates the targets they name, one behind the other. -/
theorem relocateEntries_holds {page stop : U32} (hstop : stop.toNat ≤ hi) :
    ∀ (fuel n : Nat) (entry : U32) (s s' : Walk) (done rest : List Nat),
      targets = done ++ entryTargets f page n entry.toNat ++ rest →
      Holds m base size (relocated f done delta) s.host → lo ≤ entry.toNat →
      entry.toNat + 2 * n ≤ stop.toNat → stop.toNat < entry.toNat + 2 * n + 2 →
      entry.toNat ≤ size.toNat → size.toNat + 2 ≤ entry.toNat + 2 * fuel →
      relocateEntries ⟨m, base, size⟩ delta page stop fuel entry s = (none, s') →
      Holds m base size (relocated f (done ++ entryTargets f page n entry.toNat) delta) s'.host ∧
        s'.block = s.block ∧ ∀ t ∈ entryTargets f page n entry.toNat, t + 4 ≤ size.toNat := by
  intro fuel
  induction fuel with
  | zero =>
    intro n entry s s' done rest _ _ _ _ _ hle hfuel
    omega
  | succ fuel ih =>
    intro n entry s s' done rest htargets hholds hlo hn hn' hle hfuel hwalk
    obtain ⟨hlast, heq⟩ | ⟨status, -, heq⟩ | ⟨word, hgo, hword, hround⟩ :=
      relocateEntries_succ ⟨m, base, size⟩ delta page stop fuel entry s
    · rw [heq] at hwalk
      obtain ⟨-, rfl⟩ := Prod.mk.inj hwalk
      have hzero : n = 0 := by
        by_contra hne
        exact hlast (by bv_omega)
      subst hzero
      refine ⟨?_, rfl, fun t ht => by cases ht⟩
      rw [entryTargets, List.append_nil]
      exact hholds
    · rw [heq] at hwalk
      cases (Prod.mk.inj hwalk).1
    · have hbound := rva16_bound hword
      dsimp only at hbound
      have hnext : (entry + 2).toNat = entry.toNat + 2 := by bv_omega
      obtain ⟨k, rfl⟩ : ∃ k, n = k + 1 := ⟨n - 1, by bv_omega⟩
      -- the entry is outside every target, so it still reads as the file has it
      obtain rfl : word = value16 f entry.toNat := by
        rw [rva16_holds hm hend hholds hword]
        exact value16_between (fun t ht => houtside t (by simp [htargets, ht])) hlo (by omega)
      obtain ⟨habsolute, heq⟩ | ⟨value, host, htype, hread, hwrite, heq⟩ := hround
      · rw [heq] at hwalk
        rw [entryTargets_absolute habsolute, ← hnext] at htargets ⊢
        exact ih k _ s s' done rest htargets hholds (by omega) (by omega) (by omega) (by omega)
          (by omega) hwalk
      · rw [heq] at hwalk
        rw [entryTargets_highLow htype, ← hnext] at htargets ⊢
        have hapart : ∀ t ∈ done, t + 4 ≤ (relocTarget page (value16 f entry.toNat)).toNat ∨
            (relocTarget page (value16 f entry.toNat)).toNat + 4 ≤ t := by
          rw [htargets, List.append_assoc, List.pairwise_append] at hdisjoint
          exact fun t ht => hdisjoint.2.2 t ht _ (by simp)
        have hstored := write32_holds hm hd hend hholds hapart hread hwrite
        rw [← List.singleton_append, ← List.append_assoc] at htargets
        obtain ⟨hfinal, hblock, hinside⟩ := ih k _ _ s' _ rest htargets hstored (by omega)
          (by omega) (by omega) (by omega) (by omega) hwalk
        refine ⟨?_, hblock, ?_⟩
        · rwa [List.append_assoc] at hfinal
        · intro t ht
          rcases List.mem_cons.mp ht with rfl | ht
          · exact rva32_bound hread
          · exact hinside t ht

/-- A round over a block of a table. -/
theorem relocateRound_holds {relocs : PeDataDirectory} (hlo : lo = relocs.rva.toNat)
    (hhi : hi = relocs.rva.toNat + relocs.size.toNat)
    (hfits : relocs.rva.toNat + relocs.size.toNat < 2 ^ 32) {s : Walk} {done rest : List Nat}
    (hholds : Holds m base size (relocated f done delta) s.host) (hge : lo ≤ s.block.toNat)
    (hblock : s.block.toNat + 8 ≤ hi) (hsize : 8 ≤ (value32 f (s.block.toNat + 4)).toNat)
    (hin : s.block.toNat + (value32 f (s.block.toNat + 4)).toNat ≤ hi)
    (htargets : targets = done ++ entryTargets f (value32 f s.block.toNat)
      (((value32 f (s.block.toNat + 4)).toNat - 8) / 2) (s.block.toNat + 8) ++ rest)
    (hround : (relocateRound ⟨m, base, size⟩ delta relocs s).1 = none ∨
      (relocateRound ⟨m, base, size⟩ delta relocs s).1 = some .ok) :
    ∃ s', relocateRound ⟨m, base, size⟩ delta relocs s = (none, s') ∧
      s'.block.toNat = s.block.toNat + (value32 f (s.block.toNat + 4)).toNat ∧
      Holds m base size (relocated f (done ++ entryTargets f (value32 f s.block.toNat)
        (((value32 f (s.block.toNat + 4)).toNat - 8) / 2) (s.block.toNat + 8)) delta) s'.host ∧
      ∀ t ∈ entryTargets f (value32 f s.block.toNat)
        (((value32 f (s.block.toNat + 4)).toNat - 8) / 2) (s.block.toNat + 8),
        t + 4 ≤ size.toNat := by
  have hgo : s.block + 8 ≤ relocs.rva + relocs.size := by bv_omega
  have hsame : ∀ r, s.block.toNat ≤ r → r + 4 ≤ s.block.toNat + 8 →
      value32 (relocated f done delta) r = value32 f r := fun r hr hr' =>
    value32_between (fun t ht => houtside t (by simp [htargets, ht])) (Nat.le_trans hge hr)
      (Nat.le_trans hr' hblock)
  unfold relocateRound at hround ⊢
  rw [if_pos hgo] at hround ⊢
  unfold relocateBlock at hround ⊢
  cases hpage : rva32 ⟨m, base, size⟩ s.host s.block with
  | none =>
    rw [hpage] at hround
    rcases hround with h | h <;> cases h
  | some page =>
    cases hbytes : rva32 ⟨m, base, size⟩ s.host (s.block + 4) with
    | none =>
      rw [hpage, hbytes] at hround
      rcases hround with h | h <;> cases h
    | some blockSize =>
      rw [hpage, hbytes] at hround
      have hbound := rva32_bound hbytes
      dsimp only at hbound
      have hnext : (s.block + 4).toNat = s.block.toNat + 4 := by bv_omega
      have hpage' : page = value32 f s.block.toNat := by
        rw [rva32_holds hm hend hholds hpage]
        exact hsame _ (Nat.le_refl _) (by omega)
      have hsize' : blockSize = value32 f (s.block.toNat + 4) := by
        rw [rva32_holds hm hend hholds hbytes, hnext]
        exact hsame _ (by omega) (by omega)
      rw [← hsize'] at hsize hin htargets ⊢
      rw [← hpage'] at htargets ⊢
      have hentry : (s.block + 8).toNat = s.block.toNat + 8 := by bv_omega
      have hsum : (s.block + blockSize).toNat = s.block.toNat + blockSize.toNat := by bv_omega
      dsimp only at hround ⊢
      rw [if_neg (by bv_omega)] at hround ⊢
      cases hwalk : relocateEntries ⟨m, base, size⟩ delta page (s.block + blockSize)
        (size.toNat + 1) (s.block + 8) s with
      | mk status s' =>
        rw [hwalk] at hround
        cases status with
        | some status =>
          have hne := relocateEntries_ne_ok ⟨m, base, size⟩ delta page (s.block + blockSize)
            (size.toNat + 1) (s.block + 8) s
          rw [hwalk] at hne
          rcases hround with h | h
          · cases h
          · exact absurd h hne
        | none =>
          rw [← hentry] at htargets ⊢
          obtain ⟨hfinal, -, hinside⟩ := relocateEntries_holds hm hd hend hdisjoint
            houtside (by omega) _ _ _ s s' done rest htargets hholds (by omega) (by omega)
            (by omega) (by omega) (by omega) hwalk
          exact ⟨_, rfl, hsum, hfinal, hinside⟩

/-- The walk over a well-formed table relocates all of its targets, once each. -/
theorem relocateLoop_holds {relocs : PeDataDirectory} (hlo : lo = relocs.rva.toNat)
    (hhi : hi = relocs.rva.toNat + relocs.size.toNat)
    (hfits : relocs.rva.toNat + relocs.size.toNat < 2 ^ 32) :
    ∀ (rounds : Nat) (s s' : Walk) (done rest : List Nat), targets = done ++ rest →
      Table f hi s.block.toNat rest → lo ≤ s.block.toNat →
      Holds m base size (relocated f done delta) s.host →
      relocateLoop ⟨m, base, size⟩ delta relocs rounds s = (some .ok, s') →
      Holds m base size (relocated f targets delta) s'.host ∧
        ∀ t ∈ rest, t + 4 ≤ size.toNat := by
  intro rounds
  induction rounds with
  | zero =>
    intro s s' done rest _ _ _ _ hwalk
    cases (Prod.mk.inj hwalk).1
  | succ rounds ih =>
    intro s s' done rest htargets htable hge hholds hwalk
    unfold relocateLoop at hwalk
    cases hround : relocateRound ⟨m, base, size⟩ delta relocs s with
    | mk status s1 =>
      rw [hround] at hwalk
      have hspec := relocateBlock_spec ⟨m, base, size⟩ delta s
      cases htable with
      | done hlast =>
        rw [List.append_nil] at htargets
        by_cases hgo : s.block + 8 ≤ relocs.rva + relocs.size
        · -- the cursor would have to wrap past the end of the directory
          exfalso
          unfold relocateRound at hround
          rw [if_pos hgo] at hround
          rw [hround] at hspec
          cases status with
          | some status =>
            exact hspec.1 (Prod.mk.inj hwalk).1
          | none =>
            have := hspec.2 rfl
            dsimp only at this
            bv_omega
        · unfold relocateRound at hround
          rw [if_neg hgo] at hround
          obtain ⟨rfl, rfl⟩ := Prod.mk.inj hround
          obtain ⟨-, rfl⟩ := Prod.mk.inj hwalk
          rw [htargets]
          exact ⟨hholds, fun t ht => by cases ht⟩
      | block hblock hsize hin hmore =>
        rename_i more
        rw [← List.append_assoc] at htargets
        obtain ⟨s2, heq, hnext, hholds2, hinside⟩ := relocateRound_holds hm hd hend
          hdisjoint houtside hlo hhi hfits hholds hge hblock hsize hin htargets (by
            rw [hround]
            cases status with
            | none => exact Or.inl rfl
            | some status =>
              obtain ⟨hok, -⟩ := Prod.mk.inj hwalk
              exact Or.inr hok)
        rw [hround] at heq
        obtain ⟨rfl, rfl⟩ := Prod.mk.inj heq
        rw [← hnext] at hmore
        obtain ⟨hfinal, hrest⟩ := ih s1 s' _ more htargets hmore (by omega) hholds2 hwalk
        refine ⟨hfinal, fun t ht => ?_⟩
        rcases List.mem_append.mp ht with ht | ht
        · exact hinside t ht
        · exact hrest t ht

end Table

/-! ## Mapping -/

/-- A place for the image: its addresses are writable, hold zeros and share no byte of the host. -/
structure Ready (m : Mem) (h : Host) (base size : U32) : Prop where
  wellFormed : m.WellFormed
  distinct : Distinct (m.place 0) base.toNat size.toNat
  inside : base.toNat + size.toNat ≤ 2 ^ 32
  writable : Placed (m.place Memory.memWrite) base.toNat size.toNat
  zero : ∀ r < size.toNat, imageBytes m h base r = 0

/-- A contiguous window of zeros without permissions. -/
theorem ready_window (hs : m.sparse = none) (hperms : m.perms = none)
    (hlo : m.lo.toNat ≤ base.toNat)
    (hhi : base.toNat + size.toNat ≤ m.lo.toNat + m.size.toNat)
    (hend : base.toNat + size.toNat ≤ 2 ^ 32) (hzero : ∀ x, h.bytes x = 0) :
    Ready m h base size := by
  have hplaced (access : U32) : Placed (m.place access) base.toNat size.toNat := by
    intro i hi
    have hgrants : m.Grants access (base.toNat + i) :=
      ⟨by omega, by omega, by omega, by simp [hperms]⟩
    unfold Mem.place
    rw [hs]
    dsimp only
    rw [if_pos hgrants]
    exact Option.some_ne_none _
  exact ⟨Memory.wellFormed_window hs, (Memory.unaliased_window hs).distinct (hplaced 0), hend,
    hplaced _, fun _ _ => hzero _⟩

/-- What the last check of `parse` promises. -/
theorem parse_sizes {file : List U8} {headers : PeHeaders}
    (hparse : (parse file).run = some (.ok headers)) :
    headers.sizeOfHeaders.toNat ≤ file.length ∧
      headers.sizeOfHeaders.toNat ≤ headers.sizeOfImage.toNat := by
  unfold parse at hparse
  rw [ExceptT.run_bind] at hparse
  obtain ⟨result, -, hparse⟩ := Option.bind_eq_some_iff.mp hparse
  cases result with
  | error status => cases hparse
  | ok parsed =>
    dsimp only at hparse
    rw [ExceptT.run_bind] at hparse
    unfold require at hparse
    split_ifs at hparse with hcheck
    · obtain rfl : parsed = headers := by
        simpa using hparse
      simp only [Bool.and_eq_true, decide_eq_true_eq] at hcheck
      exact ⟨hcheck.1, BitVec.le_def.mp hcheck.2⟩
    · cases hparse

/-- The ways a mapping goes: refused at the headers or a section, or placed and relocated. -/
theorem map_cases {file : List U8} {headers : PeHeaders}
    (hparse : (parse file).run = some (.ok headers)) (hm : m.WellFormed)
    (hend : base.toNat + headers.sizeOfImage.toNat ≤ 2 ^ 32) {rounds : Nat}
    {status : Option PeStatus} (hmap : map rounds m file headers base h = some (status, h')) :
    (status ≠ some .ok ∧ h' = h) ∨
      ∃ placed h1, Placed (m.place Memory.memWrite) base.toNat
          (file.take headers.sizeOfHeaders.toNat).length ∧
        copySections m file headers.sizeOfImage base headers.sections
          (Host.put m h base (file.take headers.sizeOfHeaders.toNat)) = some (placed, h1) ∧
        ((placed ≠ .ok ∧ status = some placed ∧ h' = h1) ∨
          (placed = .ok ∧ base = headers.imageBase ∧ h' = h1) ∨
          (placed = .ok ∧ base ≠ headers.imageBase ∧
            (status, h') = ((relocate rounds ⟨m, base, headers.sizeOfImage⟩ headers h1).1,
              (relocate rounds ⟨m, base, headers.sizeOfImage⟩ headers h1).2.host))) := by
  obtain ⟨hfile, himage⟩ := parse_sizes hparse
  have hlen : (file.take headers.sizeOfHeaders.toNat).length = headers.sizeOfHeaders.toNat := by
    rw [List.length_take]
    omega
  unfold map at hmap
  obtain ⟨written, hwrite, hrest⟩ := Option.bind_eq_some_iff.mp hmap
  cases written with
  | none =>
    obtain ⟨rfl, rfl⟩ := Prod.mk.inj (Option.some.inj hrest)
    exact Or.inl ⟨by decide, rfl⟩
  | some h0 =>
    right
    obtain ⟨hplaced, rfl⟩ := Memory.writeBytes_some hm (by rw [hlen]; omega)
      (by rw [hlen]; exact headers.sizeOfHeaders.isLt) hwrite
    obtain ⟨⟨placed, h1⟩, hcopy, hdone⟩ := Option.map_eq_some_iff.mp hrest
    refine ⟨placed, h1, hplaced, hcopy, ?_⟩
    by_cases hok : placed = .ok
    · right
      subst hok
      dsimp only at hdone
      split_ifs at hdone with hbase
      · obtain ⟨-, rfl⟩ := Prod.mk.inj hdone
        exact Or.inl ⟨rfl, hbase, rfl⟩
      · exact Or.inr ⟨rfl, hbase, hdone.symm⟩
    · left
      cases placed <;> first
        | exact absurd rfl hok
        | exact ⟨hok, (Prod.mk.inj hdone).1.symm, (Prod.mk.inj hdone).2.symm⟩

theorem map_untouched {file : List U8} {headers : PeHeaders}
    (hparse : (parse file).run = some (.ok headers))
    (hr : Ready m h base headers.sizeOfImage) {rounds : Nat} {status : Option PeStatus}
    (hmap : map rounds m file headers base h = some (status, h')) :
    Untouched m base headers.sizeOfImage h h' := by
  obtain ⟨-, rfl⟩ | ⟨placed, h1, hplaced, hcopy, hend⟩ :=
    map_cases hparse hr.wellFormed hr.inside hmap
  · exact fun _ _ => rfl
  · have hheaders : Untouched m base headers.sizeOfImage h
        (Host.put m h base (file.take headers.sizeOfHeaders.toNat)) := by
      refine put_untouched (r := 0) rfl ?_ hplaced
      have := (parse_sizes hparse).2
      rw [List.length_take]
      omega
    have hsections := hheaders.trans (copySections_untouched hr.wellFormed hr.inside hcopy)
    obtain ⟨-, -, rfl⟩ | ⟨-, -, rfl⟩ | ⟨-, -, heq⟩ := hend
    · exact hsections
    · exact hsections
    · rw [(Prod.mk.inj heq).2]
      exact hsections.trans (relocate_untouched hr.wellFormed hr.inside _ _ _)

theorem map_holds {file : List U8} {headers : PeHeaders}
    (hparse : (parse file).run = some (.ok headers))
    (hr : Ready m h base headers.sizeOfImage) {targets : List Nat}
    (hwf : base ≠ headers.imageBase →
      WellFormedTable (layout file headers) (headers.directory dirBaseRelocation) targets)
    {rounds : Nat} (hmap : map rounds m file headers base h = some (some .ok, h')) :
    Holds m base headers.sizeOfImage (imageAt file headers targets base) h' ∧
      (base ≠ headers.imageBase → ∀ t ∈ targets, t + 4 ≤ headers.sizeOfImage.toNat) := by
  obtain ⟨hne, -⟩ | ⟨placed, h1, hplaced, hcopy, hend⟩ :=
    map_cases hparse hr.wellFormed hr.inside hmap
  · exact absurd rfl hne
  have hheaders : Holds m base headers.sizeOfImage
      (Bytes.store (fun _ => 0) 0 (file.take headers.sizeOfHeaders.toNat))
      (Host.put m h base (file.take headers.sizeOfHeaders.toNat)) :=
    put_holds hr.distinct rfl (by
      rw [List.length_take]
      have := (parse_sizes hparse).2
      omega) hplaced hr.zero
  have hsections : placed = .ok →
      Holds m base headers.sizeOfImage (layout file headers) h1 := by
    rintro rfl
    exact copySections_holds hr.wellFormed hr.distinct hr.inside hcopy hheaders
  obtain ⟨hbad, hstatus, -⟩ | ⟨hok, hbase, rfl⟩ | ⟨hok, hbase, heq⟩ := hend
  · exact absurd (Option.some.inj hstatus).symm hbad
  · unfold imageAt
    rw [if_pos hbase]
    exact ⟨hsections hok, fun hne => absurd hbase hne⟩
  · have hrelocate : relocate rounds ⟨m, base, headers.sizeOfImage⟩ headers h1 =
        (some .ok, (relocate rounds ⟨m, base, headers.sizeOfImage⟩ headers h1).2) :=
      Prod.ext (Prod.mk.inj heq).1.symm rfl
    have hwf := hwf hbase
    have hhost := (Prod.mk.inj heq).2
    unfold imageAt
    rw [if_neg hbase]
    by_cases hsize : (headers.directory dirBaseRelocation).size = 0
    · have hnone : relocate rounds ⟨m, base, headers.sizeOfImage⟩ headers h1 =
          (some .noRelocations, ⟨h1, (headers.directory dirBaseRelocation).rva, []⟩) :=
        if_pos hsize
      rw [hnone] at hrelocate
      cases (Prod.mk.inj hrelocate).1
    · have hloop : relocate rounds ⟨m, base, headers.sizeOfImage⟩ headers h1 =
          relocateLoop ⟨m, base, headers.sizeOfImage⟩ (base - headers.imageBase)
            (headers.directory dirBaseRelocation) rounds
            ⟨h1, (headers.directory dirBaseRelocation).rva, []⟩ := if_neg hsize
      have hwalk := hloop.symm.trans hrelocate
      have hstart : Holds m base headers.sizeOfImage
          (relocated (layout file headers) [] (base - headers.imageBase)) h1 := hsections hok
      obtain ⟨hfinal, hinside⟩ := relocateLoop_holds hr.wellFormed hr.distinct
        hr.inside hwf.disjoint hwf.outside rfl rfl hwf.fits rounds _ _ [] targets rfl hwf.table
        (Nat.le_refl _) hstart hwalk
      rw [hhost]
      exact ⟨hfinal, fun _ => hinside⟩

/-! ## Images at two bases -/

theorem value32_relocated (hdisjoint : targets.Pairwise fun s t => s + 4 ≤ t ∨ t + 4 ≤ s)
    (ht : t ∈ targets) : value32 (relocated f targets delta) t = value32 f t + delta := by
  obtain ⟨before, after, rfl⟩ := List.append_of_mem ht
  rw [List.pairwise_append] at hdisjoint
  have hfind : ∀ i < 4, relocated f (before ++ t :: after) delta (t + i) =
      (bytesOf 4 (value32 f t + delta)).getD i 0 := by
    intro i hi
    have hnone : (before.find? fun s => decide (s ≤ t + i ∧ t + i < s + 4)) = none := by
      rw [List.find?_eq_none]
      intro s hs
      have := hdisjoint.2.2 s hs t (by simp)
      simp only [decide_eq_true_eq]
      omega
    unfold relocated
    rw [List.find?_append, hnone, Option.none_or, List.find?_cons_of_pos (by simpa using hi)]
    simp only [Nat.add_sub_cancel_left]
  have hload : Bytes.load (relocated f (before ++ t :: after) delta) t 4 =
      bytesOf 4 (value32 f t + delta) := by
    refine List.ext_getElem ?_ fun i hi hi' => ?_
    · rw [Bytes.length_load, Memory.length_bytesOf]
    · rw [Bytes.length_load] at hi
      have := hfind i hi
      rw [List.getD_eq_getElem _ _ hi'] at this
      rw [← this]
      simp [Bytes.load]
  rw [value32, hload, Memory.valueOf_bytesOf]

/-- The value at a target, at a base. -/
theorem value32_imageAt {file : List U8} {headers : PeHeaders} {base : U32}
    (hdisjoint : targets.Pairwise fun s t => s + 4 ≤ t ∨ t + 4 ≤ s) (ht : t ∈ targets) :
    value32 (imageAt file headers targets base) t =
      value32 (layout file headers) t + (base - headers.imageBase) := by
  unfold imageAt
  split_ifs with hbase
  · rw [hbase]
    bv_omega
  · exact value32_relocated hdisjoint ht

theorem imageAt_outside {file : List U8} {headers : PeHeaders} {base : U32}
    (hr : ∀ t ∈ targets, r < t ∨ t + 4 ≤ r) :
    imageAt file headers targets base r = layout file headers r := by
  unfold imageAt
  split_ifs
  · rfl
  · exact relocated_of_outside hr

end Guest

/-- Mapping a file that parses. A mapping that succeeds leaves the file's bytes with every target
of the table relocated once; no byte outside the image changes, whatever the status; images of
one file at two bases differ in the targets only, by the difference of the bases. -/
theorem map_places_file {file : List U8} {headers : PeHeaders}
    (hparse : (parse file).run = some (.ok headers)) (targets : List Nat) :
    (∀ m h base, Ready m h base headers.sizeOfImage → ∀ rounds status h',
      map rounds m file headers base h = some (status, h') →
        Untouched m base headers.sizeOfImage h h') ∧
    (∀ m h base, Ready m h base headers.sizeOfImage →
      (base ≠ headers.imageBase →
        WellFormedTable (layout file headers) (headers.directory dirBaseRelocation) targets) →
      ∀ rounds h', map rounds m file headers base h = some (some .ok, h') →
        Holds m base headers.sizeOfImage (imageAt file headers targets base) h') ∧
    (WellFormedTable (layout file headers) (headers.directory dirBaseRelocation) targets →
      ∀ m₁ h₁ base₁ m₂ h₂ base₂, Ready m₁ h₁ base₁ headers.sizeOfImage →
      Ready m₂ h₂ base₂ headers.sizeOfImage → ∀ rounds₁ h₁' rounds₂ h₂',
      map rounds₁ m₁ file headers base₁ h₁ = some (some .ok, h₁') →
      map rounds₂ m₂ file headers base₂ h₂ = some (some .ok, h₂') →
        (∀ r < headers.sizeOfImage.toNat, (∀ t ∈ targets, r < t ∨ t + 4 ≤ r) →
          imageBytes m₂ h₂' base₂ r = imageBytes m₁ h₁' base₁ r) ∧
        ∀ t ∈ targets, t + 4 ≤ headers.sizeOfImage.toNat →
          value32 (imageBytes m₂ h₂' base₂) t =
            value32 (imageBytes m₁ h₁' base₁) t + (base₂ - base₁)) := by
  refine ⟨fun m h base hr rounds status h' hmap => map_untouched hparse hr hmap,
    fun m h base hr hwf rounds h' hmap => (map_holds hparse hr hwf hmap).1, ?_⟩
  intro hwf m₁ h₁ base₁ m₂ h₂ base₂ hr₁ hr₂ rounds₁ h₁' rounds₂ h₂' hmap₁ hmap₂
  have hholds₁ := (map_holds hparse hr₁ (fun _ => hwf) hmap₁).1
  have hholds₂ := (map_holds hparse hr₂ (fun _ => hwf) hmap₂).1
  refine ⟨fun r hr houtside => ?_, fun t ht hin => ?_⟩
  · rw [hholds₁ r hr, hholds₂ r hr, imageAt_outside houtside, imageAt_outside houtside]
  · have hvalue₁ : value32 (imageBytes m₁ h₁' base₁) t =
        value32 (imageAt file headers targets base₁) t :=
      value32_congr fun i hi => hholds₁ (t + i) (by omega)
    have hvalue₂ : value32 (imageBytes m₂ h₂' base₂) t =
        value32 (imageAt file headers targets base₂) t :=
      value32_congr fun i hi => hholds₂ (t + i) (by omega)
    rw [hvalue₁, hvalue₂, value32_imageAt hwf.disjoint ht, value32_imageAt hwf.disjoint ht,
      add_assoc, sub_add_sub_cancel']

/-! ## A small file -/

def zeros (n : Nat) : List U8 := List.replicate n 0

/-- One section at RVA `0x110`, a pointer to itself and behind it a table that names it. -/
def smallFile : List U8 :=
  [0x4D, 0x5A] ++ zeros 0x3A ++ bytesOf 4 0x40 ++
  bytesOf 4 0x4550 ++ bytesOf 2 0x14C ++ bytesOf 2 1 ++ zeros 12 ++ bytesOf 2 0x90 ++ zeros 2 ++
  bytesOf 2 0x10B ++ zeros 14 ++ bytesOf 4 0x110 ++ zeros 8 ++ bytesOf 4 0x400000 ++ zeros 24 ++
  bytesOf 4 0x140 ++ bytesOf 4 0x110 ++ zeros 28 ++ bytesOf 4 6 ++ zeros 40 ++
  bytesOf 4 0x120 ++ bytesOf 4 12 ++
  zeros 8 ++ bytesOf 4 0x20 ++ bytesOf 4 0x110 ++ bytesOf 4 0x20 ++ bytesOf 4 0x110 ++ zeros 16 ++
  bytesOf 4 0x400110 ++ zeros 12 ++
  bytesOf 4 0 ++ bytesOf 4 12 ++ bytesOf 2 0x3110 ++ bytesOf 2 0 ++ zeros 4

/-- Nested to the right, where reading a byte does not pass through every piece behind it. -/
theorem smallFile_eq : smallFile =
    [0x4D, 0x5A] ++ (zeros 0x3A ++ (bytesOf 4 0x40 ++
    (bytesOf 4 0x4550 ++ (bytesOf 2 0x14C ++ (bytesOf 2 1 ++ (zeros 12 ++ (bytesOf 2 0x90 ++
    (zeros 2 ++ (bytesOf 2 0x10B ++ (zeros 14 ++ (bytesOf 4 0x110 ++ (zeros 8 ++
    (bytesOf 4 0x400000 ++ (zeros 24 ++ (bytesOf 4 0x140 ++ (bytesOf 4 0x110 ++ (zeros 28 ++
    (bytesOf 4 6 ++ (zeros 40 ++ (bytesOf 4 0x120 ++ (bytesOf 4 12 ++ (zeros 8 ++
    (bytesOf 4 0x20 ++ (bytesOf 4 0x110 ++ (bytesOf 4 0x20 ++ (bytesOf 4 0x110 ++ (zeros 16 ++
    (bytesOf 4 0x400110 ++ (zeros 12 ++ (bytesOf 4 0 ++ (bytesOf 4 12 ++ (bytesOf 2 0x3110 ++
    (bytesOf 2 0 ++ zeros 4))))))))))))))))))))))))))))))))) := by
  unfold smallFile
  simp only [List.append_assoc]

def smallHeaders : PeHeaders where
  imageBase := 0x400000
  sizeOfImage := 0x140
  sizeOfHeaders := 0x110
  entryRva := 0x110
  directories := List.replicate 5 ⟨0, 0⟩ ++ [⟨0x120, 12⟩]
  sections := [⟨zeros 8, 0x110, 0x20, 0x110, 0x20⟩]

def smallMem (base : U32) : Mem := ⟨0, base, 0x140, none, none⟩

def zeroHost : Host := ⟨fun _ => 0, false, []⟩

theorem smallFile_table : WellFormedTable (layout smallFile smallHeaders) ⟨0x120, 12⟩ [0x110] where
  fits := by decide
  table := by
    have hsize : value32 (layout smallFile smallHeaders) 0x124 = 12 := by
      rw [smallFile_eq]
      decide +kernel
    have htargets : entryTargets (layout smallFile smallHeaders)
        (value32 (layout smallFile smallHeaders) 0x120) 2 0x128 ++ [] = [0x110] := by
      rw [smallFile_eq]
      decide +kernel
    rw [← htargets]
    have hblock := @Table.block (layout smallFile smallHeaders) 0x12C 0x120 [] (by decide)
      (by rw [hsize]; decide) (by rw [hsize]; decide) (Table.done (by rw [hsize]; decide))
    rwa [hsize] at hblock
  disjoint := by decide
  outside := by decide

theorem smallFile_maps (base : U32) (hbase : base = 0x10000000 ∨ base = 0x400000) :
    ∃ h', map 2 (smallMem base) smallFile smallHeaders base zeroHost = some (some .ok, h') := by
  have hstatus : (map 2 (smallMem base) smallFile smallHeaders base zeroHost).map Prod.fst =
      some (some .ok) := by
    rw [smallFile_eq]
    rcases hbase with rfl | rfl <;> decide +kernel
  obtain ⟨⟨status, h'⟩, hmap, rfl⟩ := Option.map_eq_some_iff.mp hstatus
  exact ⟨h', hmap⟩

theorem smallFile_parses : (parse smallFile).run = some (.ok smallHeaders) := by
  rw [smallFile_eq]
  decide +kernel

theorem smallFile_places :
    ∃ h₁ h₂, map 2 (smallMem 0x400000) smallFile smallHeaders 0x400000 zeroHost =
        some (some .ok, h₁) ∧
      map 2 (smallMem 0x10000000) smallFile smallHeaders 0x10000000 zeroHost =
        some (some .ok, h₂) ∧
      Untouched (smallMem 0x10000000) 0x10000000 0x140 zeroHost h₂ ∧
      Holds (smallMem 0x10000000) 0x10000000 0x140
        (imageAt smallFile smallHeaders [0x110] 0x10000000) h₂ ∧
      value32 (imageBytes (smallMem 0x10000000) h₂ 0x10000000) 0x110 =
        value32 (imageBytes (smallMem 0x400000) h₁ 0x400000) 0x110 + 0x0FC00000 := by
  have hready : ∀ base : U32, base = 0x10000000 ∨ base = 0x400000 →
      Ready (smallMem base) zeroHost base smallHeaders.sizeOfImage := by
    rintro base (rfl | rfl) <;>
      exact ready_window rfl rfl (Nat.le_refl _) (Nat.le_refl _) (by decide) fun _ => rfl
  have hready₁ := hready 0x400000 (Or.inr rfl)
  have hready₂ := hready 0x10000000 (Or.inl rfl)
  obtain ⟨h₁, hmap₁⟩ := smallFile_maps 0x400000 (Or.inr rfl)
  obtain ⟨h₂, hmap₂⟩ := smallFile_maps 0x10000000 (Or.inl rfl)
  obtain ⟨huntouched, hholds, htwo⟩ := map_places_file smallFile_parses [0x110]
  refine ⟨h₁, h₂, hmap₁, hmap₂, huntouched _ _ _ hready₂ _ _ _ hmap₂,
    hholds _ _ _ hready₂ (fun _ => smallFile_table) _ _ hmap₂, ?_⟩
  exact (htwo smallFile_table _ _ _ _ _ _ hready₁ hready₂ _ _ _ _ hmap₁ hmap₂).2 0x110
    (by decide) (by decide)

/-- Two halves of the image at the same bytes of the host. -/
def aliasedMem : Mem :=
  ⟨0, 0, 0, some ⟨[⟨0x400000, 0xA0, 0x1000, 3, 1⟩, ⟨0x4000A0, 0xA0, 0x1000, 3, 2⟩], 2, 2⟩, none⟩

theorem aliasedMem_wellFormed : aliasedMem.WellFormed where
  sparse := by
    rintro s ⟨⟩
    exact ⟨by decide, by decide, by decide, by decide, by decide⟩
  hosted := by
    rintro s ⟨⟩
    decide

/-- Where two bytes of the image are one byte of the host, the mapping succeeds and the first is
lost: the place of the file's first byte holds the one at RVA `0xA0`. -/
theorem aliasedMem_overlays :
    (parse smallFile).run = some (.ok smallHeaders) ∧ aliasedMem.WellFormed ∧
    (0x400000#32).toNat + smallHeaders.sizeOfImage.toNat ≤ 2 ^ 32 ∧
    Placed (aliasedMem.place Memory.memWrite) 0x400000 smallHeaders.sizeOfImage.toNat ∧
    (∀ r < smallHeaders.sizeOfImage.toNat, imageBytes aliasedMem zeroHost 0x400000 r = 0) ∧
    ∃ h', map 1 aliasedMem smallFile smallHeaders 0x400000 zeroHost = some (some .ok, h') ∧
      ¬ Holds aliasedMem 0x400000 smallHeaders.sizeOfImage
        (imageAt smallFile smallHeaders [] 0x400000) h' := by
  refine ⟨smallFile_parses, aliasedMem_wellFormed, by decide, by decide +kernel, fun _ _ => rfl, ?_⟩
  have hmapped : (map 1 aliasedMem smallFile smallHeaders 0x400000 zeroHost).map
      (fun result => (result.1, result.2.bytes 0x1000)) = some (some .ok, 0) := by
    rw [smallFile_eq]
    decide +kernel
  have hfirst : layout smallFile smallHeaders 0 = 0x4D := by
    rw [smallFile_eq]
    decide +kernel
  obtain ⟨⟨status, h'⟩, hmap, heq⟩ := Option.map_eq_some_iff.mp hmapped
  obtain ⟨rfl, hbyte⟩ := Prod.mk.inj heq
  refine ⟨h', hmap, fun hholds => ?_⟩
  have hzero : h'.bytes 0x1000 = layout smallFile smallHeaders 0 := hholds 0 (by decide)
  have hbyte : h'.bytes 0x1000 = 0 := hbyte
  rw [hbyte, hfirst] at hzero
  exact absurd hzero (by decide)

end X86Port.Pe
