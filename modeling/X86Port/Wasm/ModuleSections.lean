import X86Port.Wasm.ModuleBuilder

/-!
# The sections in front of the code

Each call of the encoder appends an encoding that the reader of the format takes for the value
the call was given.

* `Spells`, `Writes`: this relation, and its rules for sequences, counted vectors and sections.
* `writes_head`: the sections a module opens with.
-/

namespace X86Port.Wasm

open Lib (Reader Reads)
open BinaryFormat (FuncType ImportEntry ImportKind ExportEntry ParsedModule)
open WasmEmit

/-- The call appends bytes that are read as this value. -/
def Spells {α : Type} (f : WasmEmit → WasmEmit) (p : Reader U8 α) (a : α) : Prop :=
  ∃ bytes, Appends f bytes ∧ Reads p bytes a

section

variable {α β : Type} {f g : WasmEmit → WasmEmit} {p : Reader U8 α}

theorem spells_pure (a : α) : Spells id (pure a : Reader U8 α) a :=
  ⟨[], appends_id, Lib.reads_pure a⟩

theorem Spells.bind {k : α → Reader U8 β} {a : α} {b : β} (hf : Spells f p a)
    (hg : Spells g (k a) b) : Spells (fun e => g (f e)) (p >>= k) b := by
  obtain ⟨x, hx, hread⟩ := hf
  obtain ⟨y, hy, hread'⟩ := hg
  exact ⟨x ++ y, hx.comp hy, hread.bind hread'⟩

/-- A last reading, and the value built from it. -/
theorem Spells.pure {a : α} (h : α → β) (hf : Spells f p a) :
    Spells f (p >>= fun a => pure (h a)) (h a) :=
  hf.bind (g := id) (spells_pure _)

theorem spells_byte (b : U8) : Spells (fun e => e.byte b) (Reader.expect [b]) () :=
  ⟨[b], appends_byte b, Lib.reads_expect [b]⟩

theorem spells_item (b : U8) : Spells (fun e => e.byte b) Reader.item b :=
  ⟨[b], appends_byte b, Lib.reads_item b⟩

theorem spells_u32 (value : U32) : Spells (fun e => e.u32 value) BinaryFormat.u32 value.toNat :=
  ⟨_, appends_u32 value, fun _ => Lib.Leb128.readU_uleb value.isLt⟩

theorem spells_times {ι : Type} {f : WasmEmit → ι → WasmEmit} {value : ι → α} (l : List ι)
    (h : ∀ i ∈ l, Spells (f · i) p (value i)) :
    Spells (fun e => l.foldl f e) (Reader.times p l.length) (l.map value) := by
  induction l with
  | nil => exact spells_pure []
  | cons i l ih =>
    have hl := ih fun j hj => h j (List.mem_cons_of_mem i hj)
    exact (h i List.mem_cons_self).bind (g := fun e => l.foldl f e)
      (k := fun a => Reader.times p l.length >>= fun as => Pure.pure (a :: as))
      (hl.pure (value i :: ·))

/-- A vector: its count, and as many elements. -/
theorem spells_vec {ι : Type} {f : WasmEmit → ι → WasmEmit} {v : ι → α} {n : U32}
    (l : List ι) (hn : n.toNat = l.length) (h : ∀ i ∈ l, Spells (f · i) p (v i)) :
    Spells (fun e => l.foldl f (e.u32 n)) (BinaryFormat.vec p) (l.map v) := by
  have hu := spells_u32 n
  rw [hn] at hu
  exact hu.bind (spells_times l h)

/-- The same of one state of the encoder. -/
structure Writes (e e' : WasmEmit) (p : Reader U8 α) (a : α) : Prop where
  confined : Confined e e'
  spells : e'.overflow = false → e.overflow = false ∧
    ∃ bytes, e'.written = e.written ++ bytes ∧ Reads p bytes a

theorem Spells.writes {a : α} (hf : Spells f p a) (e : WasmEmit) : Writes e (f e) p a := by
  obtain ⟨bytes, happ, hread⟩ := hf
  refine ⟨happ.confined e, fun h => ?_⟩
  obtain ⟨hin, hw⟩ := happ.adds e h
  exact ⟨hin, bytes, hw, hread⟩

theorem Writes.bind {e e' e'' : WasmEmit} {k : α → Reader U8 β} {a : α} {b : β}
    (h : Writes e e' p a) (h' : Writes e' e'' (k a) b) : Writes e e'' (p >>= k) b := by
  refine ⟨h.confined.trans h'.confined, fun hover => ?_⟩
  obtain ⟨hmid, y, hy, hread'⟩ := h'.spells hover
  obtain ⟨hin, x, hx, hread⟩ := h.spells hmid
  exact ⟨hin, x ++ y, by rw [hy, hx, List.append_assoc], hread.bind hread'⟩

/-- A section, whose contents fill it. -/
theorem writes_section {a : α} (id : U8) (hf : Spells f p a) (e : WasmEmit) :
    Writes e (sized f (e.byte id)) (BinaryFormat.sectionOf id p) a := by
  obtain ⟨contents, happ, hread⟩ := hf
  refine ⟨((appends_byte id).comp happ.sized).confined e, fun h => ?_⟩
  obtain ⟨hid, hlong, hw⟩ := written_sized happ h
  obtain ⟨hin, hbyte⟩ := (appends_byte id).adds e hid
  refine ⟨hin, [id] ++ sizedBytes contents, by rw [hw, hbyte, List.append_assoc], ?_⟩
  have hsize : Reads BinaryFormat.u32 (Lib.Leb128.padded 4 contents.length) contents.length :=
    fun _ => Lib.Leb128.readU_padded hlong (Nat.lt_trans hlong (by decide)) (by decide)
  exact (Lib.reads_expect [id]).bind (hsize.bind (Lib.reads_within hread.parse))

end

/-! ## Entries -/

/-- A name the format takes: ASCII, and of a length that a `uint32_t` holds. -/
abbrev PlainName (s : List U8) : Prop := s.length < 2 ^ 32 ∧ s.all fun b => b.toNat < 128

theorem spells_name {s : List U8} (hs : PlainName s) :
    Spells (fun e => e.name s) BinaryFormat.name s := by
  have hlen : (BitVec.ofNat 32 s.length).toNat = s.length := by
    rw [BitVec.toNat_ofNat, Nat.mod_eq_of_lt hs.1]
  have hu := spells_u32 (BitVec.ofNat 32 s.length)
  rw [hlen] at hu
  refine hu.bind (g := fun e => e.bytes s) ⟨s, appends_bytes s, ?_⟩
  have hascii : Lib.Reads
      (if s.all fun b => b.toNat < 128 then (pure s : Reader U8 _) else failure) [] s := by
    rw [if_pos hs.2]
    exact Lib.reads_pure s
  have := (Lib.reads_take s).bind (f := fun bytes =>
    if bytes.all fun b => b.toNat < 128 then (pure bytes : Reader U8 _) else failure) hascii
  rwa [List.append_nil] at this

theorem spells_valType {t : WasmType} (ht : t ≠ .void) :
    Spells (fun e => e.byte t.code) BinaryFormat.valType t := by
  refine ⟨[t.code], appends_byte t.code, ?_⟩
  cases t with
  | void => exact absurd rfl ht
  | _ => exact fun _ => rfl

theorem spells_types {l : List WasmType} (hl : l.length < 2 ^ 32) (ht : ∀ t ∈ l, t ≠ .void) :
    Spells (fun e => (e.u32 (BitVec.ofNat 32 l.length)).types l)
      (BinaryFormat.vec BinaryFormat.valType) l := by
  have := spells_vec (v := id) l (n := BitVec.ofNat 32 l.length)
    (by rw [BitVec.toNat_ofNat, Nat.mod_eq_of_lt hl]) fun t h => spells_valType (ht t h)
  rwa [List.map_id] at this

theorem spells_functype {params results : List WasmType} (hp : params.length < 2 ^ 32)
    (hr : results.length < 2 ^ 32) (hparams : ∀ t ∈ params, t ≠ .void)
    (hresults : ∀ t ∈ results, t ≠ .void) :
    Spells (fun e => e.functype params results) BinaryFormat.funcType ⟨params, results⟩ := by
  unfold functype BinaryFormat.funcType
  refine Spells.bind (g := fun e => ((e.u32 (BitVec.ofNat 32 params.length)).types params).u32
    (BitVec.ofNat 32 results.length) |>.types results) (spells_byte 0x60) ?_
  refine Spells.bind (g := fun e => (e.u32 (BitVec.ofNat 32 results.length)).types results)
    (spells_types hp hparams) ?_
  exact (spells_types hr hresults).pure _

theorem spells_importFunc {moduleName field : List U8} (hm : PlainName moduleName)
    (hf : PlainName field) (type : U32) :
    Spells (fun e => e.importFunc moduleName field type) BinaryFormat.importEntry
      ⟨moduleName, field, .func type.toNat⟩ := by
  have hkind : Spells (fun e => (e.byte 0x00).u32 type) BinaryFormat.importKind
      (.func type.toNat) :=
    Spells.bind (g := fun e => e.u32 type) (spells_item 0x00)
      ((spells_u32 type).pure ImportKind.func)
  unfold importFunc BinaryFormat.importEntry
  refine Spells.bind (g := fun e => ((e.name field).byte 0x00).u32 type) (spells_name hm) ?_
  refine Spells.bind (g := fun e => (e.byte 0x00).u32 type) (spells_name hf) ?_
  exact hkind.pure _

theorem spells_exportFunc {field : List U8} (hf : PlainName field) (index : U32) :
    Spells (fun e => e.exportFunc field index) BinaryFormat.exportEntry
      ⟨field, index.toNat⟩ := by
  unfold exportFunc BinaryFormat.exportEntry
  refine Spells.bind (g := fun e => (e.byte 0x00).u32 index) (spells_name hf) ?_
  refine Spells.bind (g := fun e => e.u32 index) (spells_byte 0x00) ?_
  exact (spells_u32 index).pure _

theorem spells_hostMemory (pthreads : Bool) :
    Spells (importHostMemory pthreads) BinaryFormat.importEntry ⟨cString "env", cString "memory",
      if pthreads then .memory true 1 (some 65536) else .memory false 1 none⟩ := by
  have henv : PlainName (cString "env") := by decide
  have hmemory : PlainName (cString "memory") := by decide
  unfold importHostMemory BinaryFormat.importEntry
  cases pthreads with
  | false =>
    have hlimits : Spells (fun e => e.limits 1 none) BinaryFormat.limits (.memory false 1 none) :=
      Spells.bind (g := fun e => e.u32 1) (spells_item 0x00)
        ((spells_u32 1).pure fun n => ImportKind.memory false n none)
    have hkind : Spells (fun e => (e.byte 0x02).limits 1 none) BinaryFormat.importKind
        (.memory false 1 none) :=
      Spells.bind (g := fun e => e.limits 1 none) (spells_item 0x02) hlimits
    refine Spells.bind (g := fun e => ((e.name (cString "memory")).byte 0x02).limits 1 none)
      (spells_name henv) ?_
    refine Spells.bind (g := fun e => (e.byte 0x02).limits 1 none) (spells_name hmemory) ?_
    exact hkind.pure _
  | true =>
    have hlimits : Spells (fun e => ((e.byte 0x03).u32 1).u32 65536) BinaryFormat.limits
        (.memory true 1 (some 65536)) := by
      refine Spells.bind (g := fun e => (e.u32 1).u32 65536) (spells_item 0x03) ?_
      refine Spells.bind (g := fun e => e.u32 65536) (spells_u32 1) ?_
      exact (spells_u32 65536).pure fun n => ImportKind.memory true 1 (some n)
    have hkind : Spells (fun e => (((e.byte 0x02).byte 0x03).u32 1).u32 65536)
        BinaryFormat.importKind (.memory true 1 (some 65536)) :=
      Spells.bind (g := fun e => ((e.byte 0x03).u32 1).u32 65536) (spells_item 0x02) hlimits
    refine Spells.bind
      (g := fun e => ((((e.name (cString "memory")).byte 0x02).byte 0x03).u32 1).u32 65536)
      (spells_name henv) ?_
    refine Spells.bind (g := fun e => (((e.byte 0x02).byte 0x03).u32 1).u32 65536)
      (spells_name hmemory) ?_
    exact hkind.pure _

/-! ## The sections -/

/-- The signatures with a result, and those without. -/
def moduleTypes : List FuncType :=
  (List.range 8).map (fun i => ⟨integers (i + 1), integers 1⟩) ++
    (List.range 4).map fun i => ⟨integers (i + 1), []⟩

def moduleImports (pthreads : Bool) : List ImportEntry :=
  kImports.map (fun d => ⟨cString "env", cString d.name, .func d.type.toNat⟩) ++
    [⟨cString "env", cString "memory",
      if pthreads then .memory true 1 (some 65536) else .memory false 1 none⟩]

def moduleExports (promised : Nat) : List ExportEntry :=
  (List.range promised).map fun i => ⟨bodyNameBytes i, importCount + i⟩

theorem writes_typeSection (e : WasmEmit) :
    Writes e (writeTypes e) (BinaryFormat.sectionOf 1 (BinaryFormat.vec BinaryFormat.funcType))
      moduleTypes := by
  have hcontents := spells_vec (n := 12) (f := fun e (t : FuncType) => e.functype t.params t.results)
    (v := id) moduleTypes (by decide) (p := BinaryFormat.funcType) (by
      have hshort : ∀ t ∈ moduleTypes, t.params.length < 2 ^ 32 ∧ t.results.length < 2 ^ 32 ∧
        (∀ u ∈ t.params, u ≠ .void) ∧ ∀ u ∈ t.results, u ≠ .void := by decide
      intro t ht
      obtain ⟨hp, hr, hparams, hresults⟩ := hshort t ht
      exact spells_functype hp hr hparams hresults)
  rw [List.map_id] at hcontents
  exact writes_section 1 hcontents e

theorem plainName_imports : ∀ d ∈ kImports, PlainName (cString d.name) := by decide +kernel

theorem plainName_bodies : ∀ i < maxBodies, PlainName (bodyNameBytes i) := by decide +kernel

/-- A vector whose last element is written by a call of its own. -/
theorem spells_vec_concat {α ι : Type} {p : Reader U8 α} {f : WasmEmit → ι → WasmEmit}
    {g : WasmEmit → WasmEmit} {value : ι → α} {a : α} {n : U32} (l : List ι)
    (hn : n.toNat = l.length + 1) (h : ∀ i ∈ l, Spells (f · i) p (value i)) (hg : Spells g p a) :
    Spells (fun e => g (l.foldl f (e.u32 n))) (BinaryFormat.vec p) (l.map value ++ [a]) := by
  let f' (e : WasmEmit) (i : Option ι) := i.elim (g e) (f e)
  have hall := spells_vec (f := f') (p := p) (v := fun i : Option ι => i.elim a value) (n := n)
    (l.map some ++ [none]) (by simpa using hn) fun i hi => by
      rcases List.mem_append.1 hi with hi | hi
      · obtain ⟨j, hj, rfl⟩ := List.mem_map.1 hi
        exact h j hj
      · cases List.mem_singleton.1 hi
        exact hg
  simpa [f', List.foldl_append, List.foldl_map, Function.comp_def] using hall

theorem writes_importSection (pthreads : Bool) (e : WasmEmit) :
    Writes e (writeImports pthreads e) (BinaryFormat.sectionOf 2 (BinaryFormat.vec BinaryFormat.importEntry))
      (moduleImports pthreads) := by
  have henv : PlainName (cString "env") := by decide
  have hcontents := spells_vec_concat (n := BitVec.ofNat 32 importCount + 1)
    (f := fun e (d : ImportDesc) => e.importFunc (cString "env") (cString d.name) d.type)
    kImports rfl (fun d hd => spells_importFunc henv (plainName_imports d hd) d.type)
    (spells_hostMemory pthreads)
  exact writes_section 2 hcontents e

theorem writes_functionSection {promised : Nat} (hp : promised ≤ maxBodies)
    (e : WasmEmit) :
    Writes e (writeFunctions promised e) (BinaryFormat.sectionOf 3 (BinaryFormat.vec BinaryFormat.u32))
      (List.replicate promised 1) := by
  have hn : (BitVec.ofNat 32 promised).toNat = (List.range promised).length := by
    rw [List.length_range, BitVec.toNat_ofNat, Nat.mod_eq_of_lt]
    exact Nat.lt_of_le_of_lt hp (by decide)
  have hcontents := spells_vec (f := fun e (_ : Nat) => e.u32 blockType) (v := fun _ => 1)
    (List.range promised) hn fun _ _ => spells_u32 blockType
  rw [List.map_const', List.length_range] at hcontents
  exact writes_section 3 hcontents e

theorem writes_exportSection {promised : Nat} (hp : promised ≤ maxBodies)
    (e : WasmEmit) :
    Writes e (writeExports promised e) (BinaryFormat.sectionOf 7 (BinaryFormat.vec BinaryFormat.exportEntry))
      (moduleExports promised) := by
  have hn : (BitVec.ofNat 32 promised).toNat = (List.range promised).length := by
    rw [List.length_range, BitVec.toNat_ofNat, Nat.mod_eq_of_lt]
    exact Nat.lt_of_le_of_lt hp (by decide)
  have hcontents := spells_vec (p := BinaryFormat.exportEntry)
    (f := fun e i => e.exportFunc (bodyNameBytes i) (bodyFuncIndex i))
    (v := fun i => ⟨bodyNameBytes i, importCount + i⟩) (List.range promised) hn fun i hi => by
      have hi : i < maxBodies := Nat.lt_of_lt_of_le (List.mem_range.1 hi) hp
      have hindex : (bodyFuncIndex i).toNat = importCount + i := by
        unfold maxBodies at hi
        rw [bodyFuncIndex, importCount, BitVec.toNat_ofNat]
        omega
      have := spells_exportFunc (plainName_bodies i hi) (bodyFuncIndex i)
      rwa [hindex] at this
  exact writes_section 7 hcontents e

/-- The module as it is opened, with the header and the sections in front of the code. -/
def writeHead (pthreads : Bool) (promised : Nat) (e : WasmEmit) : WasmEmit :=
  (((e.moduleBegin.writeTypes).writeImports pthreads).writeFunctions promised).writeExports promised

def moduleHead (pthreads : Bool) (promised : Nat) : ParsedModule where
  types := moduleTypes
  imports := moduleImports pthreads
  functions := List.replicate promised 1
  exports := moduleExports promised
  code := []

theorem writes_head (pthreads : Bool) {promised : Nat} (hp : promised ≤ maxBodies)
    (e : WasmEmit) : Writes e (writeHead pthreads promised e) BinaryFormat.headReader
      (moduleHead pthreads promised) := by
  have hheader : Spells moduleBegin (Reader.expect BinaryFormat.header) () :=
    ⟨_, appends_bytes BinaryFormat.header, Lib.reads_expect _⟩
  refine (hheader.writes e).bind ((writes_typeSection _).bind
    ((writes_importSection pthreads _).bind ((writes_functionSection hp _).bind
      ((writes_exportSection hp _).bind ?_))))
  exact (spells_pure (moduleHead pthreads promised)).writes _

end X86Port.Wasm
