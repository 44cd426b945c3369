import X86Port.Lib.Leb128
import X86Port.Lib.Reader
import X86Port.Word

/-!
# The WebAssembly binary format

A reader of the modules that consist of a type, an import, a function, an export and a code
section, as the format defines them. Names are ASCII, an import is a function or a memory, an
export is a function, and the instructions of a body are left as bytes.

* `BinaryFormat.parseModule`: the module that a whole buffer spells, if it spells one.
-/

namespace X86Port.Wasm

open Lib (Reader)

/-- `X86pWasmType`: the value types, and the type of an empty block. -/
inductive WasmType where
  | i32
  | i64
  | f32
  | f64
  | v128
  | void
deriving DecidableEq

def WasmType.code : WasmType → U8
  | .i32 => 0x7F
  | .i64 => 0x7E
  | .f32 => 0x7D
  | .f64 => 0x7C
  | .v128 => 0x7B
  | .void => 0x40

namespace BinaryFormat

structure FuncType where
  params : List WasmType
  results : List WasmType
deriving DecidableEq

/-- What an import has to be; a memory has its sharing, its minimum and its maximum. -/
inductive ImportKind where
  | func (type : Nat)
  | memory (shared : Bool) (minimum : Nat) (maximum : Option Nat)
deriving DecidableEq

structure ImportEntry where
  moduleName : List U8
  field : List U8
  kind : ImportKind
deriving DecidableEq

structure ExportEntry where
  field : List U8
  func : Nat
deriving DecidableEq

/-- A function body: its groups of locals, and its instructions without the last `end`. -/
structure Body where
  locals : List (Nat × WasmType)
  instrs : List U8
deriving DecidableEq

structure ParsedModule where
  types : List FuncType
  imports : List ImportEntry
  functions : List Nat
  exports : List ExportEntry
  code : List Body
deriving DecidableEq

/-! ## The readers -/

def u32 : Reader U8 Nat := Lib.Leb128.readU 32

def vec {α : Type} (p : Reader U8 α) : Reader U8 (List α) := do
  let n ← u32
  Reader.times p n

def valType : Reader U8 WasmType := do
  match (← Reader.item).toNat with
  | 0x7F => pure .i32
  | 0x7E => pure .i64
  | 0x7D => pure .f32
  | 0x7C => pure .f64
  | 0x7B => pure .v128
  | _ => failure

def name : Reader U8 (List U8) := do
  let n ← u32
  let bytes ← Reader.take n
  if bytes.all fun b => b.toNat < 128 then pure bytes else failure

def funcType : Reader U8 FuncType := do
  Reader.expect [0x60]
  let params ← vec valType
  let results ← vec valType
  pure ⟨params, results⟩

def limits : Reader U8 ImportKind := do
  match (← Reader.item).toNat with
  | 0 => return .memory false (← u32) none
  | 1 =>
    let minimum ← u32
    return .memory false minimum (some (← u32))
  | 3 =>
    let minimum ← u32
    return .memory true minimum (some (← u32))
  | _ => failure

def importKind : Reader U8 ImportKind := do
  match (← Reader.item).toNat with
  | 0 => return .func (← u32)
  | 2 => limits
  | _ => failure

def importEntry : Reader U8 ImportEntry := do
  let moduleName ← name
  let field ← name
  let kind ← importKind
  pure ⟨moduleName, field, kind⟩

def exportEntry : Reader U8 ExportEntry := do
  let field ← name
  Reader.expect [0x00]
  let func ← u32
  pure ⟨field, func⟩

def localGroup : Reader U8 (Nat × WasmType) := do
  let count ← u32
  let type ← valType
  pure (count, type)

/-- The instructions up to the end of a body, which closes with `end`. -/
def expr : Reader U8 (List U8) := fun bytes =>
  if bytes.getLast? = some 0x0B then some (bytes.dropLast, []) else none

def body : Reader U8 Body := do
  let size ← u32
  Reader.within size do
    let locals ← vec localGroup
    let instrs ← expr
    pure ⟨locals, instrs⟩

/-- A section: its id, its size, and contents that fill that size. -/
def sectionOf {α : Type} (id : U8) (contents : Reader U8 α) : Reader U8 α := do
  Reader.expect [id]
  let size ← u32
  Reader.within size contents

def header : List U8 := [0x00, 0x61, 0x73, 0x6D, 0x01, 0x00, 0x00, 0x00]

/-- The header and the sections in front of the code. -/
def headReader : Reader U8 ParsedModule := do
  Reader.expect header
  let types ← sectionOf 1 (vec funcType)
  let imports ← sectionOf 2 (vec importEntry)
  let functions ← sectionOf 3 (vec u32)
  let exports ← sectionOf 7 (vec exportEntry)
  pure ⟨types, imports, functions, exports, []⟩

/-- There are as many bodies as functions. -/
def moduleReader : Reader U8 ParsedModule := do
  let head ← headReader
  let code ← sectionOf 10 (vec body)
  if head.functions.length = code.length then pure { head with code := code } else failure

/-- The module that a buffer spells from its first byte to its last. -/
def parseModule (bytes : List U8) : Option ParsedModule := Lib.parse moduleReader bytes

end BinaryFormat

end X86Port.Wasm
