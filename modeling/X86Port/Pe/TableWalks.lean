import X86Port.Pe.Lookup

/-!
# The table walks of a parsed image

* `TableWalks`: every walk ends, reads the image only, and finds what the tables say.
* `tableFile`: a file with a delay-import table and no other one.
* `tableWalks_iff`: the images and delay tables for which all of it holds.
-/

namespace X86Port.Pe

open Lib.Runs
open Memory (Mem Host)

/-! ## The property -/

/-- Over any contents, and with any visitor. -/
structure TableWalks (base : U32) (headers : PeHeaders) : Prop where
  imports : ∀ (W : Type) (host : W → Host) (m : Mem) (visit : Visitor W),
    (∃ rounds, Avoids .going (walkImports host rounds m base headers visit)) ∧
    ∀ rounds, Stays (Visited visit) (Event.InImage (mappedImage m base headers))
      (walkImports host rounds m base headers visit)
  exportByName : ∀ (W : Type) (host : W → Host) (m : Mem) (symbol : List U8),
    Avoids .going (exportByName host m base headers symbol) ∧
    Stays Eq (Event.InImage (mappedImage m base headers))
      (exportByName host m base headers symbol) ∧
    ∀ h, Yields (Holding host h) (exportByName host m base headers symbol)
      (NamedExport (mappedImage m base headers) h (headers.directory dirExport) symbol)
  exportByOrdinal : ∀ (W : Type) (host : W → Host) (m : Mem) (ordinal : U16),
    Avoids .going (exportByOrdinal host m base headers ordinal) ∧
    Stays Eq (Event.InImage (mappedImage m base headers))
      (exportByOrdinal host m base headers ordinal)
  tls : ∀ (W : Type) (host : W → Host) (m : Mem),
    Avoids .going (tlsDirectory host m base headers) ∧
    Stays Eq (Event.InImage (mappedImage m base headers)) (tlsDirectory host m base headers)
  resource : ∀ (W : Type) (host : W → Host) (m : Mem) (type name : PeResourceKey),
    Avoids .going (resource host m base headers type name) ∧
    Stays Eq (Event.InResources (mappedImage m base headers) (resourceTree headers))
      (resource host m base headers type name) ∧
    ∀ h, Yields (Holding host h) (resource host m base headers type name)
      (IsResource (mappedImage m base headers) h (resourceTree headers) type name)
  resourceAt : ∀ (W : Type) (host : W → Host) (m : Mem) (entry : U32),
    Avoids .going (resourceAt host m base headers entry) ∧
    Stays Eq (Event.InResources (mappedImage m base headers) (resourceTree headers))
      (resourceAt host m base headers entry) ∧
    ∀ h, Yields (Holding host h) (resourceAt host m base headers entry)
      (DataOf (mappedImage m base headers) h (resourceTree headers) (entry - base))

theorem tableWalks_of_ends {base : U32} {headers : PeHeaders}
    (hfit : base.toNat + headers.sizeOfImage.toNat ≤ 2 ^ 32)
    (h : (headers.directory dirDelayImport).size ≠ 0 →
      ¬ Unending headers.sizeOfImage (headers.directory dirDelayImport).rva) :
    TableWalks base headers where
  imports _ host m visit :=
    ⟨walkImports_ends host m base headers visit h, stays_walkImports hfit visit⟩
  exportByName _ host m symbol := ⟨avoids_exportByName host m base headers symbol,
    stays_exportByName hfit symbol, fun _ => yields_exportByName m base headers symbol⟩
  exportByOrdinal _ host m ordinal := ⟨avoids_exportByOrdinal host m base headers ordinal,
    stays_exportByOrdinal hfit ordinal⟩
  tls _ host m := ⟨avoids_tlsDirectory host m base headers, stays_tlsDirectory hfit⟩
  resource _ host m type name := ⟨avoids_resource host m base headers type name,
    stays_resource hfit type name, fun _ => yields_resource m base headers type name⟩
  resourceAt _ host m entry := ⟨avoids_resourceAt host m base headers entry,
    stays_resourceAt hfit entry, fun _ => yields_resourceAt m base headers entry⟩

/-! ## A file with a delay table -/

/-- The bytes of the headers that are not zero: signatures, machine, sizes and counts. -/
def tableHeader : List (Nat × U8) :=
  [(0, 0x4D), (1, 0x5A), (60, 0x40), (64, 0x50), (65, 0x45), (68, 0x4C), (69, 0x01), (84, 0xD0),
    (88, 0x0B), (89, 0x01), (180, 14)]

section File

variable (size : U32) (delayed : PeDataDirectory)

def tableByte (k : Nat) : U8 :=
  if 144 ≤ k ∧ k < 148 then (size >>> (8 * (k - 144))).setWidth 8
  else if 288 ≤ k ∧ k < 292 then (delayed.rva >>> (8 * (k - 288))).setWidth 8
  else if 292 ≤ k ∧ k < 296 then (delayed.size >>> (8 * (k - 292))).setWidth 8
  else (tableHeader.lookup k).getD 0

def tableFile : List U8 := (List.range 296).map (tableByte size delayed)

theorem length_tableFile : (tableFile size delayed).length = 296 := by simp [tableFile]

theorem getElem?_tableFile {k : Nat} (hk : k < 296) :
    (tableFile size delayed)[k]? = some (tableByte size delayed k) := by
  simp [tableFile, hk]

theorem file32_tableFile {k : Nat} (hk : k + 4 ≤ 296) : file32 (tableFile size delayed) k =
    some ((tableByte size delayed k).setWidth 32 |||
      (tableByte size delayed (k + 1)).setWidth 32 <<< 8 |||
      (tableByte size delayed (k + 2)).setWidth 32 <<< 16 |||
      (tableByte size delayed (k + 3)).setWidth 32 <<< 24) := by
  unfold file32
  rw [getElem?_tableFile _ _ (by omega), getElem?_tableFile _ _ (by omega),
    getElem?_tableFile _ _ (by omega), getElem?_tableFile _ _ (by omega)]
  rfl

theorem tableByte_header {k : Nat} (h : k < 144 ∨ 148 ≤ k ∧ k < 288) :
    tableByte size delayed k = (tableHeader.lookup k).getD 0 := by
  unfold tableByte
  rw [if_neg (by omega), if_neg (by omega), if_neg (by omega)]

def headerWord (k : Nat) : U32 :=
  ((tableHeader.lookup k).getD 0).setWidth 32 |||
    ((tableHeader.lookup (k + 1)).getD 0).setWidth 32 <<< 8 |||
    ((tableHeader.lookup (k + 2)).getD 0).setWidth 32 <<< 16 |||
    ((tableHeader.lookup (k + 3)).getD 0).setWidth 32 <<< 24

theorem file32_header {k : Nat} (h : k + 4 ≤ 144 ∨ 148 ≤ k ∧ k + 4 ≤ 288) :
    file32 (tableFile size delayed) k = some (headerWord k) := by
  rw [file32_tableFile _ _ (by omega), tableByte_header _ _ (by omega),
    tableByte_header _ _ (by omega), tableByte_header _ _ (by omega),
    tableByte_header _ _ (by omega)]
  rfl

theorem file16_header {k : Nat} (h : k + 2 ≤ 144 ∨ 148 ≤ k ∧ k + 2 ≤ 288) {v : U16}
    (hv : ((tableHeader.lookup k).getD 0).setWidth 16 |||
      ((tableHeader.lookup (k + 1)).getD 0).setWidth 16 <<< 8 = v) :
    file16 (tableFile size delayed) k = some v := by
  unfold file16
  rw [getElem?_tableFile _ _ (by omega), getElem?_tableFile _ _ (by omega),
    tableByte_header _ _ (by omega), tableByte_header _ _ (by omega)]
  exact congrArg some hv

/-- A double word is put together from its bytes. -/
theorem shifted_bytes (v : U32) :
    (v.setWidth 8).setWidth 32 ||| ((v >>> 8).setWidth 8).setWidth 32 <<< 8 |||
      ((v >>> 16).setWidth 8).setWidth 32 <<< 16 |||
      ((v >>> 24).setWidth 8).setWidth 32 <<< 24 = v := by
  refine BitVec.eq_of_getLsbD_eq fun i hi => ?_
  simp only [BitVec.getLsbD_or, BitVec.getLsbD_shiftLeft, BitVec.getLsbD_setWidth,
    BitVec.getLsbD_ushiftRight]
  obtain h | h | h | h : i < 8 ∨ 8 ≤ i ∧ i < 16 ∨ 16 ≤ i ∧ i < 24 ∨ 24 ≤ i ∧ i < 32 := by omega
  · simp [h, hi, show i < 16 by omega, show i < 24 by omega]
  · simp [h, hi, show ¬ i < 8 by omega, show i < 24 by omega, show i - 8 < 8 by omega,
      Nat.add_sub_of_le h.1, show i - 8 < 32 by omega]
  · simp [h, hi, show ¬ i < 8 by omega, show ¬ i < 16 by omega, show ¬ i - 8 < 8 by omega,
      show i - 16 < 8 by omega, Nat.add_sub_of_le h.1, show i - 16 < 32 by omega]
  · simp [h, show ¬ i < 8 by omega, show ¬ i < 16 by omega, show ¬ i - 8 < 8 by omega,
      show ¬ i - 16 < 8 by omega, show i - 24 < 8 by omega, Nat.add_sub_of_le h.1,
      show i - 24 < 32 by omega, show ¬ i < 24 by omega]

theorem lift_bind {α β : Type} (v : α) (f : α → ExceptT PeStatus Option β) :
    ((liftM (some v) : ExceptT PeStatus Option α) >>= f) = f v :=
  pure_bind v f

theorem parseDirectory_of {i : Nat} (hi : i < 14) {rva dirSize : U32}
    (hrva : file32 (tableFile size delayed) (184 + 8 * i) = some rva)
    (hsize : file32 (tableFile size delayed) (188 + 8 * i) = some dirSize) :
    parseDirectory (tableFile size delayed) 88 208 i = pure ⟨rva, dirSize⟩ := by
  have hentry : ((88 : U32) + 96 + BitVec.ofNat 32 i * 8).toNat = 184 + 8 * i := by
    rw [BitVec.toNat_add, BitVec.toNat_mul, BitVec.toNat_ofNat,
      show ((88 : U32) + 96).toNat = 184 from rfl, show (8 : U32).toNat = 8 from rfl]
    omega
  have hnext : ((88 : U32) + 96 + BitVec.ofNat 32 i * 8 + 4).toNat = 188 + 8 * i := by
    rw [BitVec.toNat_add, hentry, show (4 : U32).toNat = 4 from rfl]
    omega
  have hend : (88 : U32) + 96 + BitVec.ofNat 32 i * 8 + 8 ≤ 88 + 208 := by
    rw [BitVec.le_def, BitVec.toNat_add, hentry, show (8 : U32).toNat = 8 from rfl,
      show ((88 : U32) + 208).toNat = 296 from rfl]
    omega
  unfold parseDirectory require
  simp only [hend, decide_true, if_true, hentry, hnext, hrva, hsize]
  rfl

theorem parseDirectories : (List.range 14).mapM (parseDirectory (tableFile size delayed) 88 208) =
    pure (List.replicate 13 ⟨0, 0⟩ ++ [delayed]) := by
  have hzero : ∀ i < 13, headerWord (184 + 8 * i) = 0 ∧ headerWord (188 + 8 * i) = 0 := by decide
  have hempty : ∀ i < 13, parseDirectory (tableFile size delayed) 88 208 i = pure ⟨0, 0⟩ := by
    intro i hi
    obtain ⟨hrva, hsize⟩ := hzero i hi
    exact parseDirectory_of size delayed (by omega)
      ((file32_header size delayed (by omega)).trans (congrArg some hrva))
      ((file32_header size delayed (by omega)).trans (congrArg some hsize))
  have hlast : parseDirectory (tableFile size delayed) 88 208 13 = pure delayed :=
    parseDirectory_of size delayed (by decide)
      ((file32_tableFile size delayed (k := 288) (by decide)).trans
        (congrArg some (shifted_bytes delayed.rva)))
      ((file32_tableFile size delayed (k := 292) (by decide)).trans
        (congrArg some (shifted_bytes delayed.size)))
  rw [show List.range 14 = [0, 1, 2, 3, 4, 5, 6, 7, 8, 9, 10, 11, 12, 13] from rfl]
  simp only [List.mapM_cons, List.mapM_nil, hlast, hempty, Nat.reduceLT]
  rfl

/-- The headers that the file gives. -/
def tableHeaders : PeHeaders where
  imageBase := 0
  sizeOfImage := size
  sizeOfHeaders := 0
  entryRva := 0
  directories := List.replicate 13 ⟨0, 0⟩ ++ [delayed]
  sections := []

theorem parse_tableFile :
    (parse (tableFile size delayed)).run = some (.ok (tableHeaders size delayed)) := by
  have head {k : Nat} (h : k + 4 ≤ 144 ∨ 148 ≤ k ∧ k + 4 ≤ 288) {v : U32}
      (hv : headerWord k = v) : file32 (tableFile size delayed) k = some v :=
    (file32_header size delayed h).trans (congrArg some hv)
  have h0 : file16 (tableFile size delayed) 0 = some 0x5A4D :=
    file16_header size delayed (by decide) (by decide)
  have h60 : file32 (tableFile size delayed) 60 = some 0x40 := head (by decide) (by decide)
  have h64 : file32 (tableFile size delayed) 64 = some 0x4550 := head (by decide) (by decide)
  have h68 : file16 (tableFile size delayed) 68 = some 0x14C :=
    file16_header size delayed (by decide) (by decide)
  have h70 : file16 (tableFile size delayed) 70 = some 0 :=
    file16_header size delayed (by decide) (by decide)
  have h84 : file16 (tableFile size delayed) 84 = some 208 :=
    file16_header size delayed (by decide) (by decide)
  have h88 : file16 (tableFile size delayed) 88 = some 0x10B :=
    file16_header size delayed (by decide) (by decide)
  have h104 : file32 (tableFile size delayed) 104 = some 0 := head (by decide) (by decide)
  have h116 : file32 (tableFile size delayed) 116 = some 0 := head (by decide) (by decide)
  have h144 : file32 (tableFile size delayed) 144 = some size :=
    (file32_tableFile size delayed (by decide)).trans (congrArg some (shifted_bytes size))
  have h148 : file32 (tableFile size delayed) 148 = some 0 := head (by decide) (by decide)
  have h180 : file32 (tableFile size delayed) 180 = some 14 := head (by decide) (by decide)
  have hdirs := parseDirectories size delayed
  have hle : (0#32 : U32) ≤ size := Nat.zero_le size.toNat
  change List.mapM (parseDirectory (tableFile size delayed) 88#32 208#32) (List.range 14) = _
    at hdirs
  unfold parse parseHeaders require fits tableHeaders
  simp [length_tableFile, lift_bind, h0, h60, h64, h68, h70, h84, h88, h104, h116, h144, h148,
    h180, dirCount, maxSections, hdirs, hle]

end File

/-! ## The images that it holds of -/

/-- The visitor that lets the walk go on. -/
def visitAll : Visitor Host := fun _ h => (true, h)

theorem not_tableWalks {base size : U32} {delayed : PeDataDirectory}
    (hfit : base.toNat + size.toNat ≤ 2 ^ 32) (hdelay : delayed.size ≠ 0)
    (h : Unending size delayed.rva) : ¬ TableWalks base (tableHeaders size delayed) := by
  intro hwalks
  obtain ⟨⟨rounds, hends⟩, -⟩ := hwalks.imports Host id (flatWindow base size) visitAll
  obtain ⟨t, hgoing⟩ := walkImports_going hfit h (tableHeaders size delayed) rfl rfl rfl
    hdelay visitAll rounds ⟨endlessHost delayed.rva, []⟩ rfl
  exact hends _ t hgoing

/-- All walks of the images with a size and a delay table end and stay, whatever else the headers
and the contents are, just when the descriptors cannot step over the end of the image. -/
theorem tableWalks_iff (base size : U32) (delayed : PeDataDirectory)
    (hfit : base.toNat + size.toNat ≤ 2 ^ 32) :
    (∀ file headers, (parse file).run = some (.ok headers) → headers.sizeOfImage = size →
      headers.directory dirDelayImport = delayed → TableWalks base headers) ↔
      (delayed.size ≠ 0 → ¬ Unending size delayed.rva) := by
  refine ⟨fun h hdelay hunending => ?_, fun h file headers _ hsize hdelayed => ?_⟩
  · exact not_tableWalks hfit hdelay hunending
      (h _ _ (parse_tableFile size delayed) rfl rfl)
  · refine tableWalks_of_ends (hsize ▸ hfit) fun hdelay => ?_
    rw [hsize, hdelayed]
    exact h (hdelayed ▸ hdelay)

theorem tableWalks_smallImage :
    (∀ file headers, (parse file).run = some (.ok headers) → headers.sizeOfImage = 0x1000 →
      headers.directory dirDelayImport = ⟨0x100, 0x40⟩ → TableWalks 0x400000 headers) ↔
      ((0x40 : U32) ≠ 0 → ¬ Unending 0x1000 0x100) :=
  tableWalks_iff 0x400000 0x1000 ⟨0x100, 0x40⟩ (by decide)

/-- An image of all 32-bit addresses but the last, with a delay table at its start. -/
theorem delayTable_endless :
    ∃ file headers, (parse file).run = some (.ok headers) ∧
      (0 : U32).toNat + headers.sizeOfImage.toNat ≤ 2 ^ 32 ∧ ¬ TableWalks 0 headers ∧
      ∀ rounds, ∃ t, walkImports id rounds (flatWindow 0 0xFFFFFFFF) 0 headers visitAll
        ⟨endlessHost 0, []⟩ = .error .going t := by
  have hunending : Unending 0xFFFFFFFF 0 := by decide
  refine ⟨_, _, parse_tableFile 0xFFFFFFFF ⟨0, 0x40⟩, by decide,
    not_tableWalks (by decide) (by decide) hunending, fun rounds => ?_⟩
  exact walkImports_going (by decide) hunending _ rfl rfl rfl (by decide) visitAll rounds _ rfl

end X86Port.Pe
