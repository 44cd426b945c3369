import X86Port.Memory.Mem

/-!
# PE32 images

`pe_image.c` up to `x86p_pe_map`: the headers of a file, and the image they describe laid out
and relocated in guest memory. `none` stands for a read past the end of the file, which the
language leaves undefined.

The walk of the relocation table need not end; it is run for a number of rounds, and its status
is `none` while it is still going.
-/

namespace X86Port.Pe

open Cpu (Width)
open Memory (Mem Host writeBytes)

inductive PeStatus
  | ok
  | malformed
  | notI386
  | notPe32
  | guestMemory
  | noRelocations
  | relocationType
  | notFound
deriving DecidableEq

structure PeDataDirectory where
  rva : U32
  size : U32
deriving DecidableEq

structure PeSection where
  name : List U8
  rva : U32
  virtualSize : U32
  rawOffset : U32
  rawSize : U32
deriving DecidableEq

/-- The directories and sections the file gives; an absent directory is zero. -/
structure PeHeaders where
  imageBase : U32
  sizeOfImage : U32
  sizeOfHeaders : U32
  entryRva : U32
  directories : List PeDataDirectory
  sections : List PeSection
deriving DecidableEq

def dirCount : Nat := 16

def dirBaseRelocation : Nat := 5

def maxSections : Nat := 96

def PeHeaders.directory (headers : PeHeaders) (i : Nat) : PeDataDirectory :=
  headers.directories.getD i ⟨0, 0⟩

/-! ## The headers of a file -/

def file16 (file : List U8) (at_ : Nat) : Option U16 := do
  let b0 ← file[at_]?
  let b1 ← file[at_ + 1]?
  pure (b0.setWidth 16 ||| b1.setWidth 16 <<< 8)

def file32 (file : List U8) (at_ : Nat) : Option U32 := do
  let b0 ← file[at_]?
  let b1 ← file[at_ + 1]?
  let b2 ← file[at_ + 2]?
  let b3 ← file[at_ + 3]?
  pure (b0.setWidth 32 ||| b1.setWidth 32 <<< 8 ||| b2.setWidth 32 <<< 16 |||
    b3.setWidth 32 <<< 24)

def fileBytes (file : List U8) (at_ n : Nat) : Option (List U8) :=
  (List.range n).mapM fun k => file[at_ + k]?

def fits (size offset length : Nat) : Bool := decide (offset ≤ size ∧ size - offset ≥ length)

/-- The value, unless the check refuses. -/
def require (check : Bool) (status : PeStatus) : ExceptT PeStatus Option Unit :=
  if check then pure () else throw status

def parseDirectory (file : List U8) (optional optionalSize : U32) (i : Nat) :
    ExceptT PeStatus Option PeDataDirectory := do
  let entry := optional + 96 + BitVec.ofNat 32 i * 8
  require (decide (entry + 8 ≤ optional + optionalSize)) .malformed
  let rva ← file32 file entry.toNat
  let size ← file32 file (entry + 4).toNat
  pure ⟨rva, size⟩

def parseSection (file : List U8) (table : U32) (i : Nat) :
    ExceptT PeStatus Option PeSection := do
  let header := table + BitVec.ofNat 32 i * 40
  let name ← fileBytes file header.toNat 8
  let virtualSize ← file32 file (header + 8).toNat
  let rva ← file32 file (header + 12).toNat
  let rawSize ← file32 file (header + 16).toNat
  let rawOffset ← file32 file (header + 20).toNat
  require (decide (rawSize = 0) || fits file.length rawOffset.toNat rawSize.toNat) .malformed
  pure ⟨name, rva, virtualSize, rawOffset, rawSize⟩

/-- The headers up to the last check. -/
def parseHeaders (file : List U8) : ExceptT PeStatus Option PeHeaders := do
  require (fits file.length 0 0x40) .malformed
  require (decide ((← file16 file 0) = 0x5a4d)) .malformed
  let pe ← file32 file 0x3c
  require (fits file.length pe.toNat 24) .malformed
  require (decide ((← file32 file pe.toNat) = 0x00004550)) .malformed
  require (decide ((← file16 file (pe + 4).toNat) = 0x014c)) .notI386
  let sectionCount := (← file16 file (pe + 6).toNat).setWidth 32
  let optionalSize := (← file16 file (pe + 20).toNat).setWidth 32
  let optional := pe + 24
  require (!decide (optionalSize < 96) && fits file.length optional.toNat optionalSize.toNat)
    .malformed
  require (decide ((← file16 file optional.toNat) = 0x010b)) .notPe32
  let entryRva ← file32 file (optional + 16).toNat
  let imageBase ← file32 file (optional + 28).toNat
  let sizeOfImage ← file32 file (optional + 56).toNat
  let sizeOfHeaders ← file32 file (optional + 60).toNat
  let directoryCount ← file32 file (optional + 92).toNat
  let directories ← (List.range (min directoryCount.toNat dirCount)).mapM
    (parseDirectory file optional optionalSize)
  let table := optional + optionalSize
  require (decide (sectionCount.toNat ≤ maxSections) &&
    fits file.length table.toNat (sectionCount.toNat * 40)) .malformed
  let sections ← (List.range sectionCount.toNat).mapM (parseSection file table)
  pure ⟨imageBase, sizeOfImage, sizeOfHeaders, entryRva, directories, sections⟩

def parse (file : List U8) : ExceptT PeStatus Option PeHeaders := do
  let headers ← parseHeaders file
  require (decide (headers.sizeOfHeaders.toNat ≤ file.length) &&
    decide (headers.sizeOfHeaders ≤ headers.sizeOfImage)) .malformed
  pure headers

/-! ## A mapped image -/

/-- Every read of a table walker is bounded by `size`. -/
structure Image where
  mem : Mem
  base : U32
  size : U32

/-- A read of at most four bytes is never undefined. -/
def imageRead (image : Image) (h : Host) (rva : U32) (w : Width) : Option U32 :=
  if rva ≤ image.size ∧ image.size - rva ≥ BitVec.ofNat 32 w.bytes then
    (Memory.read image.mem h (image.base + rva) w).join
  else
    none

def rva32 (image : Image) (h : Host) (rva : U32) : Option U32 := imageRead image h rva .dword

def rva16 (image : Image) (h : Host) (rva : U32) : Option U16 :=
  (imageRead image h rva .word).map (BitVec.setWidth 16)

/-! ## Relocation -/

/-- The walk of the table: the host, the next block, and the addresses of the double words
written so far. -/
structure Walk where
  host : Host
  block : U32
  writes : List U32

/-- The address a HIGHLOW entry names. -/
def relocTarget (page : U32) (word : U16) : U32 := page + (word &&& 0x0FFF#16).setWidth 32

/-- The loop over the entries of a block up to `stop`. Every round reads two bytes further into
the image, so `size` rounds are enough. -/
def relocateEntries (image : Image) (delta page stop : U32) :
    Nat → U32 → Walk → Option PeStatus × Walk
  | 0, _, s => (none, s)
  | fuel + 1, entry, s =>
    if entry + 2 ≤ stop then
      match rva16 image s.host entry with
      | none => (some .malformed, s)
      | some word =>
        let type := word >>> 12
        if type = 0 then
          relocateEntries image delta page stop fuel (entry + 2) s
        else if type ≠ 3 then
          (some .relocationType, s)
        else
          let target := relocTarget page word
          match rva32 image s.host target with
          | none => (some .malformed, s)
          | some value =>
            match (Memory.write image.mem s.host (image.base + target) .dword
                (value + delta)).join with
            | none => (some .guestMemory, s)
            | some host =>
              relocateEntries image delta page stop fuel (entry + 2)
                { s with host := host, writes := s.writes ++ [image.base + target] }
    else
      (none, s)

/-- One block of the table. -/
def relocateBlock (image : Image) (delta : U32) (s : Walk) : Option PeStatus × Walk :=
  match rva32 image s.host s.block, rva32 image s.host (s.block + 4) with
  | some page, some blockSize =>
    if blockSize < 8 then
      (some .malformed, s)
    else
      let (status, walked) := relocateEntries image delta page (s.block + blockSize)
        (image.size.toNat + 1) (s.block + 8) s
      match status with
      | some status => (some status, walked)
      | none => (none, { walked with block := s.block + blockSize })
  | _, _ => (some .malformed, s)

/-- One round of the outer loop. -/
def relocateRound (image : Image) (delta : U32) (relocs : PeDataDirectory) (s : Walk) :
    Option PeStatus × Walk :=
  if s.block + 8 ≤ relocs.rva + relocs.size then relocateBlock image delta s
  else (some .ok, s)

def relocateLoop (image : Image) (delta : U32) (relocs : PeDataDirectory) :
    Nat → Walk → Option PeStatus × Walk
  | 0, s => (none, s)
  | rounds + 1, s =>
    match relocateRound image delta relocs s with
    | (some status, s) => (some status, s)
    | (none, s) => relocateLoop image delta relocs rounds s

def relocate (rounds : Nat) (image : Image) (headers : PeHeaders) (h : Host) :
    Option PeStatus × Walk :=
  let relocs := headers.directory dirBaseRelocation
  if relocs.size = 0 then
    (some .noRelocations, ⟨h, relocs.rva, []⟩)
  else
    relocateLoop image (image.base - headers.imageBase) relocs rounds ⟨h, relocs.rva, []⟩

/-! ## Mapping -/

/-- The bytes of a section that the file holds. -/
def PeSection.copied (s : PeSection) : U32 :=
  let span := if s.virtualSize = 0 then s.rawSize else s.virtualSize
  if s.rawSize < span then s.rawSize else span

def copySections (m : Mem) (file : List U8) (sizeOfImage base : U32) :
    List PeSection → Host → Option (PeStatus × Host)
  | [], h => some (.ok, h)
  | s :: rest, h =>
    if s.copied = 0 then
      copySections m file sizeOfImage base rest h
    else if !fits file.length s.rawOffset.toNat s.copied.toNat || decide (s.rva > sizeOfImage) ||
        decide (sizeOfImage - s.rva < s.copied) then
      some (.malformed, h)
    else
      (writeBytes m h (base + s.rva)
        ((file.drop s.rawOffset.toNat).take s.copied.toNat)).bind fun
        | none => some (.guestMemory, h)
        | some h => copySections m file sizeOfImage base rest h

def map (rounds : Nat) (m : Mem) (file : List U8) (headers : PeHeaders) (base : U32) (h : Host) :
    Option (Option PeStatus × Host) :=
  (writeBytes m h base (file.take headers.sizeOfHeaders.toNat)).bind fun
    | none => some (some .guestMemory, h)
    | some h =>
      (copySections m file headers.sizeOfImage base headers.sections h).map fun
        | (.ok, h) =>
          if base = headers.imageBase then
            (some .ok, h)
          else
            let (status, walked) := relocate rounds ⟨m, base, headers.sizeOfImage⟩ headers h
            (status, walked.host)
        | (status, h) => (some status, h)

end X86Port.Pe
