import X86Port.Lib.Runs
import X86Port.Pe.Image

/-!
# The tables of a mapped image

The walks of `pe_image.c`: imports, exports, TLS and resources. Every read of guest memory and
every write to a name buffer is logged. A visitor of the imports is any function of its world,
which holds the guest memory.

* `walkThunks`, `walkImports`: loops that the contents end, run for a number of rounds.
* `exportByName`, `exportByOrdinal`, `tlsDirectory`.
* `resource`, `resourceAt`: the walk of the resource tree.
-/

namespace X86Port.Pe

open Cpu (Width)
open Lib.Runs
open Memory (Mem Host)

/-! ## Walks -/

/-- A read of guest memory, or a write to a name buffer. -/
inductive Event where
  | read (addr : U32) (w : Width)
  | put (i : Nat)

/-- A status other than success, or the end of the rounds. -/
inductive Halt where
  | status (status : PeStatus)
  | going
  deriving DecidableEq

structure WalkState (W : Type) where
  world : W
  log : List Event

abbrev TableWalk (W : Type) := EStateM Halt (WalkState W)

def dirExport : Nat := 0

def dirImport : Nat := 1

def dirResource : Nat := 2

def dirTls : Nat := 9

def dirDelayImport : Nat := 13

/-- `X86P_PE_MAX_NAME`. -/
def maxName : Nat := 256

def mappedImage (m : Mem) (base : U32) (headers : PeHeaders) : Image :=
  ⟨m, base, headers.sizeOfImage⟩

section Walks

variable {W : Type} (host : W → Host) (image : Image)

def malformed {α : Type} : TableWalk W α := throw (.status .malformed)

def notFound {α : Type} : TableWalk W α := throw (.status .notFound)

/-- `image_read`; every walk answers a refused read with the same status. -/
def readImage (rva : U32) (w : Width) : TableWalk W U32 := fun s =>
  if rva ≤ image.size ∧ image.size - rva ≥ BitVec.ofNat 32 w.bytes then
    let read := { s with log := s.log ++ [.read (image.base + rva) w] }
    match imageRead image (host s.world) rva w with
    | some v => .ok v read
    | none => .error (.status .malformed) read
  else .error (.status .malformed) s

def walk32 (rva : U32) : TableWalk W U32 := readImage host image rva .dword

def walk16 (rva : U32) : TableWalk W U16 := do
  let wide ← readImage host image rva .word
  return wide.setWidth 16

def putChar (i : Nat) : TableWalk W Unit := fun s => .ok () { s with log := s.log ++ [.put i] }

/-- `rva_string` from its `i`-th character on, with room for `n` more. -/
def stringFrom (rva : U32) : Nat → Nat → TableWalk W (List U8)
  | 0, _ => malformed
  | n + 1, i => do
    let byte ← readImage host image (rva + BitVec.ofNat 32 i) .byte
    putChar i
    if byte = 0 then return []
    else
      let rest ← stringFrom rva n (i + 1)
      return byte.setWidth 8 :: rest

def rvaString (rva : U32) : TableWalk W (List U8) := stringFrom host image rva maxName 0

/-! ## Imports -/

structure PeImport where
  dll : List U8
  symbol : Option (List U8)
  ordinal : U16
  slot : U32
  delayLoaded : Bool

/-- Whether the walk goes on, and the world after. -/
abbrev Visitor (W : Type) := PeImport → W → Bool × W

structure ThunkWalk where
  dll : List U8
  namesRva : U32
  slotsRva : U32
  delayLoaded : Bool

def visitImport (visit : Visitor W) (entry : PeImport) : TableWalk W Bool := fun s =>
  .ok (visit entry s.world).1 { s with world := (visit entry s.world).2 }

/-- The symbol of a thunk, and its ordinal or hint. -/
def thunkName (thunk : U32) : TableWalk W (Option (List U8) × U16) :=
  if thunk &&& 0x80000000 ≠ 0 then pure (none, thunk.setWidth 16)
  else do
    let hint ← walk16 host image thunk
    let symbol ← rvaString host image (thunk + 2)
    return (some symbol, hint)

def thunkRound (walk : ThunkWalk) (visit : Visitor W) (i : Nat) : TableWalk W (Option Bool) := do
  let thunk ← walk32 host image (walk.namesRva + BitVec.ofNat 32 i * 4)
  if thunk = 0 then return some false
  else
    let (symbol, ordinal) ← thunkName host image thunk
    let more ← visitImport visit
      ⟨walk.dll, symbol, ordinal, image.base + walk.slotsRva + BitVec.ofNat 32 i * 4,
        walk.delayLoaded⟩
    return if more then none else some true

/-- `walk_thunks`: whether the visitor has ended the walk. -/
def walkThunks (rounds : Nat) (walk : ThunkWalk) (visit : Visitor W) : TableWalk W Bool :=
  loop .going (thunkRound host image walk visit) rounds 0

/-- The thunks of one descriptor. -/
def descriptorThunks (rounds : Nat) (visit : Visitor W) (name names slots : U32)
    (delayLoaded : Bool) : TableWalk W (Option Bool) := do
  let dll ← rvaString host image name
  let stop ← walkThunks host image rounds ⟨dll, names, slots, delayLoaded⟩ visit
  return if stop then some true else none

def importRound (rounds : Nat) (imports : PeDataDirectory) (visit : Visitor W) (i : Nat) :
    TableWalk W (Option Bool) := do
  let descriptor := imports.rva + BitVec.ofNat 32 i * 20
  let names ← walk32 host image descriptor
  let name ← walk32 host image (descriptor + 12)
  let slots ← walk32 host image (descriptor + 16)
  if name = 0 ∧ slots = 0 then return some false
  else
    descriptorThunks host image rounds visit name (if names ≠ 0 then names else slots) slots false

/-- The fields of old descriptors are addresses against the preferred base. -/
def delayRound (rounds : Nat) (delayed : PeDataDirectory) (imageBase : U32) (visit : Visitor W)
    (i : Nat) : TableWalk W (Option Bool) := do
  let descriptor := delayed.rva + BitVec.ofNat 32 i * 32
  let attributes ← walk32 host image descriptor
  let name ← walk32 host image (descriptor + 4)
  let slots ← walk32 host image (descriptor + 12)
  let names ← walk32 host image (descriptor + 16)
  if name = 0 then return some false
  else
    let less := if attributes &&& 1 = 0 then imageBase else 0
    descriptorThunks host image rounds visit (name - less) (names - less) (slots - less) true

/-- The ordinary imports: whether the visitor has ended the walk. -/
def ordinaryImports (rounds : Nat) (imports : PeDataDirectory) (visit : Visitor W) :
    TableWalk W Bool :=
  if imports.size = 0 then pure false
  else loop .going (importRound host image rounds imports visit) rounds 0

def delayImports (rounds : Nat) (delayed : PeDataDirectory) (imageBase : U32) (visit : Visitor W) :
    TableWalk W Bool :=
  if delayed.size = 0 then pure false
  else loop .going (delayRound host image rounds delayed imageBase visit) rounds 0

end Walks

/-- `x86p_pe_imports`. -/
def walkImports {W : Type} (host : W → Host) (rounds : Nat) (m : Mem) (base : U32)
    (headers : PeHeaders) (visit : Visitor W) : TableWalk W Unit := do
  let image := mappedImage m base headers
  let stop ← ordinaryImports host image rounds (headers.directory dirImport) visit
  if stop then return ()
  else
    let delayed := headers.directory dirDelayImport
    let _ ← delayImports host image rounds delayed headers.imageBase visit
    return ()

/-! ## Exports -/

structure ExportTable where
  ordinalBase : U32
  functionCount : U32
  nameCount : U32
  functions : U32
  names : U32
  ordinals : U32

/-- `X86pPeExport`: an address, or the text of a forwarder with address zero. -/
structure PeExport where
  address : U32
  forwarder : List U8
  deriving DecidableEq

def PeDataDirectory.Holds (d : PeDataDirectory) (rva : U32) : Prop :=
  rva ≥ d.rva ∧ rva - d.rva < d.size

instance (d : PeDataDirectory) (rva : U32) : Decidable (d.Holds rva) :=
  inferInstanceAs (Decidable (_ ∧ _))

section Exports

variable {W : Type} (host : W → Host) (image : Image) (exports : PeDataDirectory)

def exportTable : TableWalk W ExportTable :=
  if exports.size = 0 then notFound
  else do
    let ordinalBase ← walk32 host image (exports.rva + 16)
    let functionCount ← walk32 host image (exports.rva + 20)
    let nameCount ← walk32 host image (exports.rva + 24)
    let functions ← walk32 host image (exports.rva + 28)
    let names ← walk32 host image (exports.rva + 32)
    let ordinals ← walk32 host image (exports.rva + 36)
    return ⟨ordinalBase, functionCount, nameCount, functions, names, ordinals⟩

def exportAt (table : ExportTable) (index : U32) : TableWalk W PeExport :=
  if index ≥ table.functionCount then notFound
  else do
    let rva ← walk32 host image (table.functions + index * 4)
    if rva = 0 then notFound
    else if exports.Holds rva then do
      let forwarder ← rvaString host image rva
      return ⟨0, forwarder⟩
    else return ⟨image.base + rva, []⟩

/-- The ordinal-table index of name `i`, when that is the symbol. -/
def nameRound (table : ExportTable) (symbol : List U8) (i : Nat) : TableWalk W (Option U16) := do
  let nameRva ← walk32 host image (table.names + BitVec.ofNat 32 i * 4)
  let index ← walk16 host image (table.ordinals + BitVec.ofNat 32 i * 2)
  let name ← rvaString host image nameRva
  return if name = symbol then some index else none

end Exports

section

variable {W : Type} (host : W → Host) (m : Mem) (base : U32) (headers : PeHeaders)

/-- `x86p_pe_export_by_name`. -/
def exportByName (symbol : List U8) : TableWalk W PeExport := do
  let image := mappedImage m base headers
  let exports := headers.directory dirExport
  let table ← exportTable host image exports
  let found ← scan (nameRound host image table symbol) table.nameCount.toNat 0
  match found with
  | none => notFound
  | some index => exportAt host image exports table (index.setWidth 32)

/-- `x86p_pe_export_by_ordinal`. -/
def exportByOrdinal (ordinal : U16) : TableWalk W PeExport := do
  let image := mappedImage m base headers
  let exports := headers.directory dirExport
  let table ← exportTable host image exports
  if ordinal.setWidth 32 < table.ordinalBase then notFound
  else exportAt host image exports table (ordinal.setWidth 32 - table.ordinalBase)

/-! ## TLS -/

structure PeTls where
  templateStart : U32
  templateEnd : U32
  zeroFill : U32
  indexSlot : U32
  callbacks : U32

def imageHolds (image : Image) (va size : U32) : Bool :=
  va ≥ image.base && va - image.base ≤ image.size && image.size - (va - image.base) ≥ size

/-- `x86p_pe_tls`. -/
def tlsDirectory : TableWalk W PeTls := do
  let image := mappedImage m base headers
  let tls := headers.directory dirTls
  if tls.rva = 0 ∨ tls.size = 0 then notFound
  else
    let templateStart ← walk32 host image tls.rva
    let templateEnd ← walk32 host image (tls.rva + 4)
    let indexSlot ← walk32 host image (tls.rva + 8)
    let callbacks ← walk32 host image (tls.rva + 12)
    let zeroFill ← walk32 host image (tls.rva + 16)
    let templateOk := templateStart = templateEnd ∨ templateEnd > templateStart ∧
      imageHolds image templateStart (templateEnd - templateStart)
    if ¬ templateOk ∨ ¬ imageHolds image indexSlot 4 ∨
        callbacks ≠ 0 ∧ ¬ imageHolds image callbacks 4 then
      malformed
    else return ⟨templateStart, templateEnd, zeroFill, indexSlot, callbacks⟩

end

/-! ## Resources -/

/-- A name of a resource: its units, which the source ends with a zero. -/
structure ResourceName where
  units : List U16
  nonzero : 0 ∉ units

structure PeResourceKey where
  id : U16
  name : Option ResourceName

structure PeResource where
  entry : U32
  data : U32
  size : U32
  deriving DecidableEq

structure ResourceTree where
  root : U32
  size : U32

def ResourceTree.holds (tree : ResourceTree) (rva size : U32) : Bool :=
  rva ≥ tree.root && rva - tree.root ≤ tree.size && tree.size - (rva - tree.root) ≥ size

def asciiUpper (unit : U16) : U16 := if unit ≥ 0x61 ∧ unit ≤ 0x7A then unit - 0x61 + 0x41 else unit

/-- An offset from the root of the tree, with the top bit for a subtree or a name. -/
def isSubtree (field : U32) : Bool := field &&& 0x80000000 ≠ 0

def ResourceTree.atOffset (tree : ResourceTree) (field : U32) : U32 :=
  tree.root + (field &&& 0x7FFFFFFF)

section Resources

variable {W : Type} (host : W → Host) (image : Image) (tree : ResourceTree)

/-- The first unit at which a name in the tree differs from the key. -/
def nameUnits (name : ResourceName) (at_ : U32) (length : Nat) : TableWalk W (Option Unit) :=
  scan (fun i => do
    let unit ← walk16 host image (at_ + 2 + 2 * BitVec.ofNat 32 i)
    let own := name.units.getD i 0
    return if own = 0 ∨ asciiUpper own ≠ asciiUpper unit then some () else none) length 0

/-- `resource_name_matches`; its -1 ends every walk with the same status. -/
def resourceNameMatches (field : U32) (key : PeResourceKey) : TableWalk W Bool :=
  if !isSubtree field then return key.name.isNone && field = key.id.setWidth 32
  else
    match key.name with
    | none => return false
    | some name =>
      let at_ := tree.atOffset field
      if !tree.holds at_ 2 then malformed
      else do
        let length ← walk16 host image at_
        if !tree.holds (at_ + 2) (2 * length.setWidth 32) then malformed
        else
          let differs ← nameUnits host image name at_ length.toNat
          return differs.isNone && name.units.getD length.toNat 0 = 0

def resourceEntries (dir : U32) : TableWalk W U32 :=
  if !tree.holds dir 16 then malformed
  else do
    let named ← walk16 host image (dir + 12)
    let ids ← walk16 host image (dir + 14)
    let count := named.setWidth 32 + ids.setWidth 32
    if !tree.holds (dir + 16) (count * 8) then malformed else return count

def resourceEntry (dir : U32) (i : Nat) : U32 := dir + 16 + BitVec.ofNat 32 i * 8

def subtreeRound (dir : U32) (key : PeResourceKey) (i : Nat) : TableWalk W (Option U32) := do
  let field ← walk32 host image (resourceEntry dir i)
  let offset ← walk32 host image (resourceEntry dir i + 4)
  let same ← resourceNameMatches host image tree field key
  if !same then return none
  else if !isSubtree offset then malformed
  else return some (tree.atOffset offset)

/-- The subdirectory under `dir` that the key names. -/
def resourceSubtree (dir : U32) (key : PeResourceKey) : TableWalk W U32 := do
  let count ← resourceEntries host image tree dir
  let found ← scan (subtreeRound host image tree dir key) count.toNat 0
  match found with
  | none => notFound
  | some subtree => return subtree

/-- Neutral before US English before the others. -/
def languageRank (language : U32) : Nat :=
  if language = 0 then 2 else if language = 0x0409 then 1 else 0

def languageRound (dir : U32) (i : Nat) (best : Option (Nat × U32)) :
    TableWalk W (Option (Nat × U32)) := do
  let language ← walk32 host image (resourceEntry dir i)
  let offset ← walk32 host image (resourceEntry dir i + 4)
  if isSubtree offset then malformed
  else
    let rank := languageRank language
    return if ∀ b ∈ best, rank > b.1 then some (rank, tree.root + offset) else best

/-- The data entry of the preferred language under `dir`. -/
def resourceLanguage (dir : U32) : TableWalk W U32 := do
  let count ← resourceEntries host image tree dir
  let best ← fold (languageRound host image tree dir) count.toNat 0 none
  match best with
  | none => notFound
  | some (_, entry) => return entry

def resourceData (entry : U32) : TableWalk W PeResource :=
  if !tree.holds entry 16 then malformed
  else do
    let data ← walk32 host image entry
    let size ← walk32 host image (entry + 4)
    if !imageHolds image (image.base + data) size then malformed
    else return ⟨image.base + entry, image.base + data, size⟩

end Resources

section

variable {W : Type} (host : W → Host) (m : Mem) (base : U32) (headers : PeHeaders)

def resourceTree : ResourceTree :=
  ⟨(headers.directory dirResource).rva, (headers.directory dirResource).size⟩

/-- `x86p_pe_resource`. -/
def resource (type name : PeResourceKey) : TableWalk W PeResource := do
  let image := mappedImage m base headers
  let tree := resourceTree headers
  if tree.root = 0 ∨ tree.size = 0 then notFound
  else
    let types ← resourceSubtree host image tree tree.root type
    let languages ← resourceSubtree host image tree types name
    let entry ← resourceLanguage host image tree languages
    resourceData host image tree entry

/-- `x86p_pe_resource_at`. -/
def resourceAt (entry : U32) : TableWalk W PeResource :=
  if (resourceTree headers).root = 0 ∨ entry < base then malformed
  else resourceData host (mappedImage m base headers) (resourceTree headers) (entry - base)

end

end X86Port.Pe
