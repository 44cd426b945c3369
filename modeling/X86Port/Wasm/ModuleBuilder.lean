import X86Port.Wasm.Emit
import X86Port.Wasm.Host

/-!
# The module builder

`jit_wasm_module.c` and the table of `jit_wasm_imports.c`: a module whose sections in front of
the code are written when it is opened, and whose bodies are appended one after another.
-/

namespace X86Port.Wasm

/-! ## The tables -/

/-- The bytes of a C string, which ends before its zero. -/
def cString (s : String) : List U8 := s.toList.map fun c => BitVec.ofNat 8 c.toNat

/-- The name and the signature of an import. -/
structure ImportDesc where
  name : String
  parameters : Nat
  returnsValue : Bool

def kImports : List ImportDesc := [
  ⟨"alu", 5, true⟩,
  ⟨"cond", 2, true⟩,
  ⟨"flag_cf", 1, true⟩,
  ⟨"mem_ok", 4, true⟩,
  ⟨"mem_load", 3, true⟩,
  ⟨"mem_store", 4, false⟩,
  ⟨"multiply", 6, true⟩,
  ⟨"divide", 4, true⟩,
  ⟨"string", 5, true⟩,
  ⟨"loop", 3, true⟩,
  ⟨"get_flags", 1, true⟩,
  ⟨"set_flags", 2, true⟩,
  ⟨"wasm_double_shift", 6, true⟩,
  ⟨"wasm_bit", 4, true⟩,
  ⟨"wasm_bcd", 3, true⟩,
  ⟨"wasm_pushad", 3, true⟩,
  ⟨"wasm_popad", 3, true⟩,
  ⟨"wasm_enter", 5, true⟩,
  ⟨"wasm_trap", 3, true⟩,
  ⟨"cpu_sahf", 1, false⟩,
  ⟨"cpu_lahf", 1, false⟩,
  ⟨"cpu_cpuid", 1, false⟩,
  ⟨"cpu_rdtsc", 1, false⟩,
  ⟨"wasm_x87_load_bits", 6, true⟩,
  ⟨"wasm_x87_store", 6, true⟩,
  ⟨"wasm_x87_store_at", 6, true⟩,
  ⟨"wasm_x87_arith_mem_bits", 8, true⟩,
  ⟨"wasm_x87_arith_reg", 6, true⟩,
  ⟨"wasm_x87_compare_mem_bits", 6, true⟩,
  ⟨"wasm_x87_copy", 5, true⟩,
  ⟨"x87_push_constant", 2, true⟩,
  ⟨"x87_status", 1, true⟩,
  ⟨"x87_clear_exceptions", 1, false⟩,
  ⟨"x87_reset", 1, false⟩,
  ⟨"x87_apply_fn", 2, true⟩,
  ⟨"x87_pop", 2, true⟩,
  ⟨"x87_compare_register", 3, false⟩,
  ⟨"x87_exchange", 2, false⟩,
  ⟨"x87_sign", 2, false⟩,
  ⟨"x87_test", 1, false⟩,
  ⟨"x87_examine", 1, false⟩,
  ⟨"x87_compare_flags", 3, true⟩,
  ⟨"x87_free", 2, false⟩,
  ⟨"x87_emms", 1, false⟩,
  ⟨"wasm_simd_arithmetic", 8, true⟩,
  ⟨"wasm_chain_call", 2, true⟩,
  ⟨"wasm_leaf_call", 2, true⟩,
  ⟨"leaf_site_fill", 2, true⟩]

/-- `kX86pWasmImportCount`. -/
def importCount : Nat := 48

/-- `x86p_wasm_import_type`: signatures with a result precede those without. -/
def ImportDesc.type (d : ImportDesc) : U32 :=
  BitVec.ofNat 32 d.parameters - 1 + if d.returnsValue then 0 else 8

def kBodyNames : List String := [
  "b0", "b1", "b2", "b3", "b4", "b5", "b6", "b7", "b8", "b9", "b10", "b11", "b12", "b13", "b14",
  "b15", "b16", "b17", "b18", "b19", "b20", "b21", "b22", "b23", "b24", "b25", "b26", "b27", "b28",
  "b29", "b30", "b31", "b32", "b33", "b34", "b35", "b36", "b37", "b38", "b39", "b40", "b41", "b42",
  "b43", "b44", "b45", "b46", "b47", "b48", "b49", "b50", "b51", "b52", "b53", "b54", "b55", "b56",
  "b57", "b58", "b59", "b60", "b61", "b62", "b63"]

/-- The bytes of `x86p_wasm_body_name`. -/
def bodyNameBytes (index : Nat) : List U8 := cString (kBodyNames.getD index "")

/-- `x86p_wasm_body_function`: the bodies follow the imports. -/
def bodyFuncIndex (index : Nat) : U32 := BitVec.ofNat 32 (importCount + index)

/-- `X86P_WASM_BLOCK_TYPE`. -/
def blockType : U32 := 1

/-! ## The sections -/

namespace WasmEmit

def integers (n : Nat) : List WasmType := List.replicate n .i32

def writeTypes (e : WasmEmit) : WasmEmit :=
  let (slot, e) := e.sectionBegin 1
  let e := e.u32 12
  let e := (List.range 8).foldl (fun e i => e.functype (integers (i + 1)) (integers 1)) e
  let e := (List.range 4).foldl (fun e i => e.functype (integers (i + 1)) []) e
  e.sizeEnd slot

/-- The memory is shared in a build with threads. -/
def importHostMemory (pthreads : Bool) (e : WasmEmit) : WasmEmit :=
  if pthreads then e.importSharedMemory (cString "env") (cString "memory") 1 65536
  else e.importMemory (cString "env") (cString "memory") 1 none

def writeImports (pthreads : Bool) (e : WasmEmit) : WasmEmit :=
  let (slot, e) := e.sectionBegin 2
  let e := e.u32 (BitVec.ofNat 32 importCount + 1)
  let e := kImports.foldl (fun e d => e.importFunc (cString "env") (cString d.name) d.type) e
  let e := e.importHostMemory pthreads
  e.sizeEnd slot

def writeFunctions (promised : Nat) (e : WasmEmit) : WasmEmit :=
  let (slot, e) := e.sectionBegin 3
  let e := e.u32 (BitVec.ofNat 32 promised)
  let e := (List.range promised).foldl (fun e _ => e.u32 blockType) e
  e.sizeEnd slot

def writeExports (promised : Nat) (e : WasmEmit) : WasmEmit :=
  let (slot, e) := e.sectionBegin 7
  let e := e.u32 (BitVec.ofNat 32 promised)
  let e := (List.range promised).foldl (fun e i => e.exportFunc (bodyNameBytes i) (bodyFuncIndex i)) e
  e.sizeEnd slot

end WasmEmit

/-! ## The module -/

/-- `X86pWasmModule`. -/
structure WasmModule where
  e : WasmEmit
  codeSection : Nat
  body : Nat
  promised : Nat
  written : Nat
  isOpen : Bool
  finished : Bool

namespace WasmModule

/-- `x86p_wasm_module_init`: a count that no module may hold poisons the encoder. -/
def init (pthreads : Bool) (buf : Nat → U8) (cap functions : Nat) : WasmModule :=
  let e := WasmEmit.init buf cap
  if functions = 0 ∨ functions > maxBodies then ⟨e.refuse, 0, 0, 0, 0, false, false⟩
  else
    let e := e.moduleBegin
    let e := e.writeTypes
    let e := e.writeImports pthreads
    let e := e.writeFunctions functions
    let e := e.writeExports functions
    let (slot, e) := e.sectionBegin 10
    ⟨e.u32 (BitVec.ofNat 32 functions), slot, 0, functions, 0, false, false⟩

/-- The i32 locals of a block besides its two parameters, `kX86pWasmLocalCount - 2`. -/
def local32Group : U32 := 5

/-- `X86P_WASM_LOCAL64_GROUP`. -/
def local64Group : U32 := 3

/-- `kX86pWasmLocalAddr`. -/
def localAddr : U32 := 1

/-- The groups of locals, and the ignored parameter zeroed. -/
def frame (e : WasmEmit) : WasmEmit :=
  let e := e.locals 2
  let e := e.localGroup local32Group .i32
  let e := e.localGroup local64Group .i64
  let e := e.i32Const 0
  e.localSet localAddr

/-- The index of the body that is opened, none when it is refused. -/
def bodyBegin (m : WasmModule) : Option Nat × WasmModule :=
  if m.isOpen ∨ m.finished ∨ m.written ≥ m.promised ∨ ¬ m.e.intact then (none, m)
  else
    let (slot, e) := m.e.bodyBegin
    (some m.written, { m with e := frame e, body := slot, isOpen := true })

def bodyEnd (m : WasmModule) : WasmModule :=
  if ¬ m.isOpen then m
  else { m with e := m.e.bodyEnd m.body, isOpen := false, written := m.written + 1 }

/-- The length of the module, 0 when anything went wrong. -/
def finish (m : WasmModule) : Nat × WasmModule :=
  if m.isOpen ∨ m.finished then (0, m)
  else
    let m := { m with finished := true }
    if m.written ≠ m.promised then (0, m)
    else
      let m := { m with e := m.e.sizeEnd m.codeSection }
      if ¬ m.e.ok then (0, m) else (m.e.len, m)

/-- The calls between opening a module and finishing it. The lowering writes instructions
through the encoder, and it alone decides when. -/
inductive Call where
  | bodyBegin
  | emit (w : WasmEmit.Write)
  | bodyEnd

def call (m : WasmModule) : Call → WasmModule
  | .bodyBegin => m.bodyBegin.2
  | .emit w => { m with e := m.e.write w }
  | .bodyEnd => m.bodyEnd

def run (m : WasmModule) (calls : List Call) : WasmModule := calls.foldl call m

end WasmModule

end X86Port.Wasm
