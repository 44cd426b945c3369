import X86Port.Wasm.EmitSlots
import X86Port.Wasm.ModuleSections

/-!
# Finished modules

What the calls between opening a module and finishing it put into its code section, and what the
finished bytes spell.

* `Holds`: while nothing has overflowed, the buffer is the opening, the bodies, and the open body.
* `finish_spells`: a module that is not refused has the promised bodies, and its bytes are read
  back as the module that was asked for.
-/

namespace X86Port.Wasm

open Lib (Reader Reads)
open Lib.Leb128 (uleb sleb padded readU readS uleb_last sleb_last)
open BinaryFormat (ParsedModule Body)
open WasmEmit

/-! ## What the calls ask for -/

/-- A part of the code section: the instructions between a begin and its end, or what was
written while no body was open. -/
inductive CodeItem where
  | body (instrs : List U8)
  | stray (bytes : List U8)

structure CodeLog where
  items : List CodeItem
  current : Option (List U8)

namespace CodeLog

def bodies (log : CodeLog) : List (List U8) :=
  log.items.filterMap fun
    | .body instrs => some instrs
    | .stray _ => none

def call (promised : Nat) (log : CodeLog) : WasmModule.Call → CodeLog
  | .bodyBegin =>
    if log.current.isSome ∨ promised ≤ log.bodies.length then log
    else { log with current := some [] }
  | .emit w =>
    match log.current with
    | some instrs => { log with current := some (instrs ++ w.encoded) }
    | none => { log with items := log.items ++ [.stray w.encoded] }
  | .bodyEnd =>
    match log.current with
    | some instrs => ⟨log.items ++ [.body instrs], none⟩
    | none => log

/-- What a sequence of calls asks for, in a buffer of any size. -/
def of (promised : Nat) (calls : List WasmModule.Call) : CodeLog :=
  calls.foldl (call promised) ⟨[], none⟩

/-- Nothing was written while no body was open. -/
def NoStray (log : CodeLog) : Prop := ∀ bytes, .stray bytes ∈ log.items → bytes = []

end CodeLog

/-! ## Bodies -/

def localsBytes : List U8 := [2, 5, 0x7F, 3, 0x7E]

def prologue : List U8 := [0x41, 0x00, 0x21, 0x01]

def bodyContents (instrs : List U8) : List U8 := localsBytes ++ (prologue ++ instrs) ++ [0x0B]

def CodeItem.bytes : CodeItem → List U8
  | .body instrs => sizedBytes (bodyContents instrs)
  | .stray bytes => bytes

/-- The body that the format reads there. -/
def parsedBody (instrs : List U8) : Body := ⟨[(5, .i32), (3, .i64)], prologue ++ instrs⟩

theorem appends_frame : Appends WasmModule.frame (localsBytes ++ prologue) := by
  have h := (appends_u32 2).comp ((appends_u32 5).comp ((appends_byte 0x7F).comp
    ((appends_u32 3).comp ((appends_byte 0x7E).comp ((appends_byte 0x41).comp
      ((appends_i32 0).comp ((appends_byte 0x21).comp (appends_u32 1))))))))
  have hbytes : localsBytes ++ prologue = uleb 2 ++ (uleb 5 ++ ([0x7F] ++ (uleb 3 ++ ([0x7E] ++
      ([0x41] ++ (sleb 0 ++ ([0x21] ++ uleb 1))))))) := by
    rw [uleb_last (by decide), uleb_last (by decide), uleb_last (by decide), uleb_last (by decide),
      sleb_last (by decide)]
    rfl
  rw [hbytes]
  exact h

theorem reads_size {n : Nat} (h : n < 2 ^ 32) : Reads BinaryFormat.u32 (padded 4 n) n :=
  fun _ => Lib.Leb128.readU_padded h (Nat.lt_trans h (by decide)) (by decide)

theorem reads_locals : Reads (BinaryFormat.vec BinaryFormat.localGroup) localsBytes
    [(5, .i32), (3, .i64)] := fun _ => rfl

theorem reads_body {instrs : List U8} (h : (bodyContents instrs).length < 2 ^ 32) :
    Reads BinaryFormat.body (sizedBytes (bodyContents instrs)) (parsedBody instrs) := by
  refine (reads_size h).bind (Lib.reads_within ?_)
  rw [bodyContents, List.append_assoc]
  refine (reads_locals.parse_bind _ _).trans ?_
  have hlast : (prologue ++ instrs ++ [0x0B]).getLast? = some 0x0B := by simp
  have hexpr : BinaryFormat.expr.run (prologue ++ instrs ++ [0x0B]) =
      some (prologue ++ instrs, []) := by
    change (if _ then _ else _) = _
    rw [if_pos hlast, List.dropLast_concat]
  rw [Lib.parse, StateT.run_bind, hexpr]
  rfl

/-! ## The buffer of an open module -/

def sizeZeros : List U8 := List.replicate sizeWidth 0x00

/-- The contents of the code section. -/
def codeBytes (promised : Nat) (log : CodeLog) : List U8 :=
  uleb promised ++ log.items.flatMap CodeItem.bytes

/-- The buffer up to the open body, the section's size not filled in. -/
def closedBytes (head : List U8) (promised : Nat) (log : CodeLog) : List U8 :=
  (head ++ [10]) ++ (sizeZeros ++ codeBytes promised log)

def openBytes (log : CodeLog) : List U8 :=
  log.current.elim [] fun instrs => sizeZeros ++ (localsBytes ++ (prologue ++ instrs))

structure CodeState (head : List U8) (promised : Nat) (log : CodeLog) (m : WasmModule) : Prop where
  promised_eq : m.promised = promised
  unfinished : m.finished = false
  isOpen : m.isOpen = log.current.isSome
  count : m.written = log.bodies.length
  short : ∀ instrs ∈ log.bodies, (bodyContents instrs).length < 2 ^ 32
  section_at : m.codeSection = (head ++ [10]).length
  body_at : log.current.isSome → m.body = (closedBytes head promised log).length
  bytes : m.e.written = closedBytes head promised log ++ openBytes log

theorem bodies_concat (log : CodeLog) (item : CodeItem) (current : Option (List U8)) :
    (⟨log.items ++ [item], current⟩ : CodeLog).bodies = log.bodies ++
      match item with
      | .body instrs => [instrs]
      | .stray _ => [] := by
  unfold CodeLog.bodies
  rw [List.filterMap_append]
  cases item <;> rfl

theorem closedBytes_concat (head : List U8) (promised : Nat) (log : CodeLog) (item : CodeItem)
    (current : Option (List U8)) :
    closedBytes head promised ⟨log.items ++ [item], current⟩ =
      closedBytes head promised log ++ item.bytes := by
  simp [closedBytes, codeBytes]

theorem state_init {pthreads : Bool} {buf : Nat → U8} {cap promised : Nat} (hp : 1 ≤ promised)
    (hmax : promised ≤ maxBodies)
    (h : (WasmModule.init pthreads buf cap promised).e.overflow = false) :
    ∃ head, Reads BinaryFormat.headReader head (moduleHead pthreads promised) ∧
      CodeState head promised ⟨[], none⟩ (WasmModule.init pthreads buf cap promised) := by
  have hn : (BitVec.ofNat 32 promised).toNat = promised := by
    rw [BitVec.toNat_ofNat, Nat.mod_eq_of_lt (Nat.lt_of_le_of_lt hmax (by decide))]
  let opening := writeHead pthreads promised (WasmEmit.init buf cap)
  have hinit : WasmModule.init pthreads buf cap promised =
      ⟨((opening.byte 10).openSize.2).u32 (BitVec.ofNat 32 promised), (opening.byte 10).len, 0,
        promised, 0, false, false⟩ := by
    unfold WasmModule.init
    rw [if_neg (by omega)]
    rfl
  rw [hinit] at h ⊢
  have hsize := (appends_u32 (BitVec.ofNat 32 promised)).adds _ h
  have hslot := appends_openSize.adds _ hsize.1
  have hten := (appends_byte 10).adds opening hslot.1
  obtain ⟨_, head, hhead, hread⟩ := (writes_head pthreads hmax _).spells hten.1
  have hhead : opening.written = head := hhead
  refine ⟨head, hread, ?_⟩
  constructor
  · rfl
  · rfl
  · rfl
  · rfl
  · simp [CodeLog.bodies]
  · rw [← hhead, ← hten.2, length_written]
  · simp
  · rw [hsize.2, hslot.2, hten.2, hhead, hn]
    simp [closedBytes, codeBytes, openBytes, sizeZeros]

/-! ## One call -/

section

variable {head : List U8} {promised : Nat} {log : CodeLog} {m : WasmModule}

/-- `overflow` is sticky. -/
theorem call_sticky {c : WasmModule.Call} (h : (m.call c).e.overflow = false) :
    m.e.overflow = false := by
  cases c with
  | bodyBegin =>
    simp only [WasmModule.call, WasmModule.bodyBegin] at h
    split_ifs at h with hrefused
    · exact h
    · exact ((appends_bodyBegin.comp appends_frame).adds m.e h).1
  | emit w => exact ((appends_write w).adds m.e h).1
  | bodyEnd =>
    simp only [WasmModule.call, WasmModule.bodyEnd] at h
    split_ifs at h with hopen
    · exact (appends_endByte.adds m.e (sizeEnd_intact h).1).1
    · exact h

theorem CodeState.begin (h : CodeState head promised log m)
    (hover : (m.call .bodyBegin).e.overflow = false) :
    CodeState head promised (log.call promised .bodyBegin) (m.call .bodyBegin) := by
  have hrefused : (m.isOpen ∨ m.finished ∨ m.written ≥ m.promised ∨ ¬ m.e.intact) ↔
      log.current.isSome ∨ promised ≤ log.bodies.length := by
    have hintact : m.e.intact := by simp [intact, call_sticky hover]
    simp [h.isOpen, h.unfinished, h.count, h.promised_eq, hintact]
  simp only [WasmModule.call, WasmModule.bodyBegin, CodeLog.call] at hover ⊢
  by_cases hc : log.current.isSome ∨ promised ≤ log.bodies.length
  · rw [if_pos hc, if_pos (hrefused.2 hc)]
    exact h
  · rw [if_neg hc, if_neg (mt hrefused.1 hc)]
    rw [if_neg (mt hrefused.1 hc)] at hover
    have happ := appends_bodyBegin.comp appends_frame
    obtain ⟨_, hw⟩ := happ.adds m.e hover
    have hnone : log.current = none := by simpa using mt Or.inl hc
    have hmid : m.e.written = closedBytes head promised log := by
      rw [h.bytes, openBytes, hnone]
      exact List.append_nil _
    constructor
    · exact h.promised_eq
    · exact h.unfinished
    · rfl
    · exact h.count
    · exact h.short
    · exact h.section_at
    · intro _
      change m.e.len = _
      rw [← length_written, hmid]
      rfl
    · rw [hw, hmid]
      simp [openBytes, sizeZeros, closedBytes, codeBytes]

theorem CodeState.emit (h : CodeState head promised log m) (w : Write)
    (hover : (m.e.write w).overflow = false) :
    CodeState head promised (log.call promised (.emit w)) (m.call (.emit w)) := by
  obtain ⟨_, hw⟩ := (appends_write w).adds m.e hover
  simp only [CodeLog.call]
  cases hc : log.current with
  | none =>
    constructor
    · exact h.promised_eq
    · exact h.unfinished
    · simpa [hc, WasmModule.call] using h.isOpen
    · rw [bodies_concat, List.append_nil]
      exact h.count
    · rw [bodies_concat, List.append_nil]
      exact h.short
    · exact h.section_at
    · simp
    · change (m.e.write w).written = _
      rw [hw, h.bytes, closedBytes_concat]
      simp [openBytes, hc, CodeItem.bytes]
  | some instrs =>
    constructor
    · exact h.promised_eq
    · exact h.unfinished
    · simpa [hc, WasmModule.call] using h.isOpen
    · exact h.count
    · exact h.short
    · exact h.section_at
    · exact fun _ => h.body_at (by simp [hc])
    · change (m.e.write w).written = _
      rw [hw, h.bytes]
      simp [openBytes, hc, closedBytes, codeBytes]

theorem CodeState.end (h : CodeState head promised log m)
    (hover : (m.call .bodyEnd).e.overflow = false) :
    CodeState head promised (log.call promised .bodyEnd) (m.call .bodyEnd) := by
  simp only [WasmModule.call, WasmModule.bodyEnd, CodeLog.call] at hover ⊢
  cases hc : log.current with
  | none =>
    rw [if_pos (by simp [h.isOpen, hc])]
    exact h
  | some instrs =>
    have hopen : ¬ ¬ m.isOpen := by simp [h.isOpen, hc]
    rw [if_neg hopen] at hover ⊢
    have hat := h.body_at (by simp [hc])
    have hover : ((m.e.byte 0x0B).countBodyEnd.sizeEnd m.body).overflow = false := hover
    have hmid := (appends_endByte.adds m.e (sizeEnd_intact hover).1).2
    rw [h.bytes, openBytes, hc, Option.elim_some] at hmid
    rw [hat] at hover
    obtain ⟨_, hlong, hw⟩ := @written_sizeEnd _ (closedBytes head promised log) sizeZeros (bodyContents instrs)
      (by rw [hmid]; simp [bodyContents]) (by simp [sizeZeros]) hover
    constructor
    · exact h.promised_eq
    · exact h.unfinished
    · rfl
    · rw [bodies_concat, List.length_append, List.length_singleton]
      exact congrArg (· + 1) h.count
    · intro instrs' hi
      rw [bodies_concat] at hi
      rcases List.mem_append.1 hi with hi | hi
      · exact h.short instrs' hi
      · rw [List.mem_singleton.1 hi]
        exact hlong
    · exact h.section_at
    · simp
    · change ((m.e.byte 0x0B).countBodyEnd.sizeEnd m.body).written = _
      rw [hat, hw, closedBytes_concat]
      simp [openBytes, CodeItem.bytes, sizedBytes]

theorem CodeState.call (h : CodeState head promised log m) (c : WasmModule.Call)
    (hover : (m.call c).e.overflow = false) :
    CodeState head promised (log.call promised c) (m.call c) := by
  cases c with
  | bodyBegin => exact h.begin hover
  | emit w => exact h.emit w hover
  | bodyEnd => exact h.end hover

theorem run_sticky {calls : List WasmModule.Call} (h : (m.run calls).e.overflow = false) :
    m.e.overflow = false := by
  induction calls generalizing m with
  | nil => exact h
  | cons c calls ih => exact call_sticky (ih h)

theorem CodeState.run (h : CodeState head promised log m) (calls : List WasmModule.Call)
    (hover : (m.run calls).e.overflow = false) :
    CodeState head promised (calls.foldl (CodeLog.call promised) log) (m.run calls) := by
  induction calls generalizing m log with
  | nil => exact h
  | cons c calls ih => exact ih (h.call c (run_sticky hover)) hover

end

/-! ## The finished module -/

/-- What `finish` needs to return a length. -/
theorem finish_intact {m : WasmModule} (h : m.finish.1 ≠ 0) :
    m.isOpen = false ∧ m.written = m.promised ∧
      (m.e.sizeEnd m.codeSection).overflow = false ∧
      m.finish.2.e = m.e.sizeEnd m.codeSection ∧ m.finish.1 = m.finish.2.e.len := by
  unfold WasmModule.finish at h ⊢
  simp only at h ⊢
  split_ifs at h ⊢ with hopen hcount hok
  · exact absurd rfl h
  · exact absurd rfl h
  · have hover : (m.e.sizeEnd m.codeSection).overflow = false := by
      simp only [ok, Bool.and_eq_true, Bool.not_eq_true'] at hok
      exact hok.1.1.1
    exact ⟨by simpa using mt Or.inl hopen, not_not.1 hcount, hover, rfl, rfl⟩
  · exact absurd rfl h

/-- The bytes of a finished module, whatever was written into its code section. -/
theorem finish_bytes {head : List U8} {promised : Nat} {log : CodeLog} {m : WasmModule}
    (h : CodeState head promised log m) (hf : m.finish.1 ≠ 0) :
    log.current = none ∧ log.bodies.length = promised ∧ (codeBytes promised log).length < 2 ^ 32 ∧
      m.finish.2.e.written = head ++ ([10] ++ sizedBytes (codeBytes promised log)) := by
  obtain ⟨hopen, hcount, hover, he, _⟩ := finish_intact hf
  have hnone : log.current = none := by
    have := h.isOpen
    rw [hopen] at this
    exact Option.isNone_iff_eq_none.1 (by simp [← Option.not_isSome, ← this])
  rw [h.section_at] at hover
  have hw : m.e.written = (head ++ [10]) ++ (sizeZeros ++ codeBytes promised log) := by
    rw [h.bytes, openBytes, hnone]
    exact List.append_nil _
  obtain ⟨_, hlong, hdone⟩ := written_sizeEnd hw (List.length_replicate ..) hover
  refine ⟨hnone, ?_, hlong, ?_⟩
  · rw [← h.count, hcount, h.promised_eq]
  · rw [he, h.section_at, hdone, List.append_assoc]
    rfl

theorem items_of_noStray {items : List CodeItem} (h : ∀ bytes, .stray bytes ∈ items → bytes = []) :
    items.flatMap CodeItem.bytes =
      (CodeLog.bodies ⟨items, none⟩).flatMap fun instrs => sizedBytes (bodyContents instrs) := by
  induction items with
  | nil => rfl
  | cons item items ih =>
    have hrest := ih fun bytes hb => h bytes (List.mem_cons_of_mem _ hb)
    rw [List.flatMap_cons, hrest]
    cases item with
    | body instrs => simp [CodeLog.bodies, CodeItem.bytes]
    | stray bytes =>
      rw [CodeItem.bytes, h bytes List.mem_cons_self]
      simp [CodeLog.bodies]

/-- Bodies alone are read as the code section. -/
theorem reads_code {promised : Nat} {log : CodeLog} (hstray : log.NoStray)
    (hcount : log.bodies.length = promised) (hmax : promised ≤ maxBodies)
    (hshort : ∀ instrs ∈ log.bodies, (bodyContents instrs).length < 2 ^ 32) :
    Reads (BinaryFormat.vec BinaryFormat.body) (codeBytes promised log)
      (log.bodies.map parsedBody) := by
  have hp : Reads BinaryFormat.u32 (uleb promised) log.bodies.length := by
    rw [hcount]
    exact fun _ => Lib.Leb128.readU_uleb (Nat.lt_of_le_of_lt hmax (by decide))
  have hitems : log.items.flatMap CodeItem.bytes =
      log.bodies.flatMap fun instrs => sizedBytes (bodyContents instrs) := items_of_noStray hstray
  rw [codeBytes, hitems]
  exact hp.bind (Lib.reads_times log.bodies fun instrs hi => reads_body (hshort instrs hi))

/-- The module that the calls ask for. -/
def askedModule (pthreads : Bool) (promised : Nat) (log : CodeLog) : ParsedModule :=
  { moduleHead pthreads promised with code := log.bodies.map parsedBody }

theorem finish_spells {pthreads : Bool} {head : List U8} {promised : Nat} {log : CodeLog}
    {m : WasmModule} (hread : Reads BinaryFormat.headReader head (moduleHead pthreads promised))
    (hmax : promised ≤ maxBodies) (h : CodeState head promised log m) (hf : m.finish.1 ≠ 0)
    (hstray : log.NoStray) :
    BinaryFormat.parseModule m.finish.2.e.written = some (askedModule pthreads promised log) := by
  obtain ⟨_, hcount, hlong, hw⟩ := finish_bytes h hf
  have hcode := reads_code hstray hcount hmax h.short
  have hsection : Reads (BinaryFormat.sectionOf 10 (BinaryFormat.vec BinaryFormat.body))
      ([10] ++ sizedBytes (codeBytes promised log)) (log.bodies.map parsedBody) :=
    (Lib.reads_expect [10]).bind ((reads_size hlong).bind (Lib.reads_within hcode.parse))
  have hcounts : (moduleHead pthreads promised).functions.length =
      (log.bodies.map parsedBody).length := by
    rw [List.length_map, hcount, moduleHead, List.length_replicate]
  rw [hw]
  refine (hread.parse_bind _ _).trans ?_
  rw [← List.append_nil ([10] ++ sizedBytes (codeBytes promised log))]
  refine (hsection.parse_bind _ _).trans ?_
  rw [if_pos hcounts]
  rfl

/-! ## The capacity -/

theorem confined_init (pthreads : Bool) (buf : Nat → U8) (cap : Nat) {promised : Nat}
    (hmax : promised ≤ maxBodies) :
    Confined (WasmEmit.init buf cap) (WasmModule.init pthreads buf cap promised).e := by
  unfold WasmModule.init
  split_ifs with h
  · exact ⟨rfl, fun _ _ => rfl⟩
  · have happ := ((appends_byte 10).comp appends_openSize).comp
      (appends_u32 (BitVec.ofNat 32 promised))
    exact (writes_head pthreads hmax _).confined.trans (happ.confined _)

theorem confined_call (m : WasmModule) (c : WasmModule.Call) : Confined m.e (m.call c).e := by
  cases c with
  | bodyBegin =>
    simp only [WasmModule.call, WasmModule.bodyBegin]
    split_ifs
    · exact Confined.refl m.e
    · exact (appends_bodyBegin.comp appends_frame).confined m.e
  | emit w => exact (appends_write w).confined m.e
  | bodyEnd =>
    simp only [WasmModule.call, WasmModule.bodyEnd]
    split_ifs
    · exact confined_bodyEnd m.e m.body
    · exact Confined.refl m.e

theorem confined_run (m : WasmModule) (calls : List WasmModule.Call) :
    Confined m.e (m.run calls).e := by
  induction calls generalizing m with
  | nil => exact Confined.refl m.e
  | cons c calls ih => exact (confined_call m c).trans (ih (m.call c))

theorem confined_finish (m : WasmModule) : Confined m.e m.finish.2.e := by
  unfold WasmModule.finish
  simp only
  split_ifs
  · exact Confined.refl m.e
  · exact Confined.refl m.e
  · exact confined_sizeEnd m.e m.codeSection
  · exact confined_sizeEnd m.e m.codeSection

/-! ## What the encoder writes is read back -/

/-- The bytes are read as the value, and no fewer bytes are. -/
def Shortest {α : Type} (read : List U8 → Option (α × List U8)) (value : α) (bytes : List U8) :
    Prop :=
  read bytes = some (value, []) ∧ ∀ other, read other = some (value, []) →
    bytes.length ≤ other.length

theorem shortest_uleb (value : U32) : Shortest (readU 32) value.toNat (uleb value.toNat) := by
  refine ⟨?_, fun other h => ?_⟩
  · rw [← List.append_nil (uleb value.toNat)]
    exact Lib.Leb128.readU_uleb value.isLt
  · have := Lib.Leb128.uleb_minimal h
    simpa using this

theorem shortest_sleb {w : Nat} (value : BitVec w) :
    Shortest (readS w) value.toInt (sleb value.toInt) := by
  refine ⟨?_, fun other h => ?_⟩
  · rw [← List.append_nil (sleb value.toInt)]
    exact Lib.Leb128.readS_sleb ⟨BitVec.le_toInt value, BitVec.toInt_lt⟩
  · have := Lib.Leb128.sleb_minimal h
    simpa using this

/-- Numbers, size slots and finished modules are read back as what was written, and nothing is
written outside the buffer. -/
theorem emitted_parses_back :
    (∀ (e : WasmEmit) (value : U32), (e.u32 value).overflow = false → ∃ bytes,
      (e.u32 value).written = e.written ++ bytes ∧ Shortest (readU 32) value.toNat bytes) ∧
    (∀ (e : WasmEmit) (value : U32), (e.i32 value).overflow = false → ∃ bytes,
      (e.i32 value).written = e.written ++ bytes ∧ Shortest (readS 32) value.toInt bytes) ∧
    (∀ (e : WasmEmit) (value : U64), (e.i64 value).overflow = false → ∃ bytes,
      (e.i64 value).written = e.written ++ bytes ∧ Shortest (readS 64) value.toInt bytes) ∧
    (∀ (buf : Nat → U8) (cap : Nat) (calls : List SlotCall),
      let n := (Nested.init buf cap).run calls
      Confined (WasmEmit.init buf cap) n.e ∧ ∀ c ∈ n.closed,
        c.slot + sizeWidth ≤ c.stop ∧ c.stop ≤ n.e.len ∧ Nested.Decodes n.e.buf c) ∧
    ∀ (pthreads : Bool) (buf : Nat → U8) (cap promised : Nat), 1 ≤ promised →
      promised ≤ maxBodies → ∀ calls : List WasmModule.Call,
      let done := ((WasmModule.init pthreads buf cap promised).run calls).finish
      let log := CodeLog.of promised calls
      Confined (WasmEmit.init buf cap) done.2.e ∧ (done.1 ≠ 0 →
        done.2.e.overflow = false ∧ done.1 = done.2.e.len ∧ log.bodies.length = promised ∧
          (log.NoStray → BinaryFormat.parseModule done.2.e.written =
            some (askedModule pthreads promised log))) := by
  refine ⟨fun e value h => ?_, fun e value h => ?_, fun e value h => ?_, fun buf cap calls => ?_,
    fun pthreads buf cap promised hp hmax calls => ⟨?_, fun hf => ?_⟩⟩
  · exact ⟨_, ((appends_u32 value).adds e h).2, shortest_uleb value⟩
  · exact ⟨_, ((appends_i32 value).adds e h).2, shortest_sleb value⟩
  · exact ⟨_, ((appends_i64 value).adds e h).2, shortest_sleb value⟩
  · have hsound := Nested.run_sound (Nested.sound_init buf cap) calls
    exact ⟨Nested.run_confined (Nested.init buf cap) calls, hsound.spelled⟩
  · exact (confined_init pthreads buf cap hmax).trans
      ((confined_run _ calls).trans (confined_finish _))
  · obtain ⟨_, _, hover, he, hlen⟩ := finish_intact hf
    have hrun := (sizeEnd_intact hover).1
    obtain ⟨head, hread, hinit⟩ := state_init hp hmax (run_sticky hrun)
    have hstate := hinit.run calls hrun
    obtain ⟨_, hcount, _⟩ := finish_bytes hstate hf
    exact ⟨he ▸ hover, hlen, hcount, finish_spells hread hmax hstate hf⟩

/-- A constant is returned; and one, if the local 1 holds one, and zero else. -/
def twoBodies : List WasmModule.Call := [
  .bodyBegin, .emit (.byte 0x41), .emit (.i32 300), .emit (.byte 0x0F), .bodyEnd,
  .bodyBegin, .emit (.byte 0x20), .emit (.u32 1), .emit (.block 0x04 .void),
  .emit (.byte 0x41), .emit (.i32 0xFFFFFFFF), .emit (.byte 0x0F), .emit .endBlock,
  .emit (.byte 0x41), .emit (.i32 0), .bodyEnd]

theorem twoBodies_parse_back :
    BinaryFormat.parseModule ((WasmModule.init false (fun _ => 0) 4096 2).run
        twoBodies).finish.2.e.written =
      some { moduleHead false 2 with code := [
        ⟨[(5, .i32), (3, .i64)], prologue ++ [0x41, 0xAC, 0x02, 0x0F]⟩,
        ⟨[(5, .i32), (3, .i64)],
          prologue ++ [0x20, 0x01, 0x04, 0x40, 0x41, 0x7F, 0x0F, 0x0B, 0x41, 0x00]⟩] } := by
  have h := emitted_parses_back.2.2.2.2 false (fun _ => 0) 4096 2 (by decide) (by decide) twoBodies
  have hbodies : (CodeLog.of 2 twoBodies).bodies = [[0x41, 0xAC, 0x02, 0x0F],
      [0x20, 0x01, 0x04, 0x40, 0x41, 0x7F, 0x0F, 0x0B, 0x41, 0x00]] := by decide +kernel
  have hinside : ((CodeLog.of 2 twoBodies).items.all fun
      | .body _ => true
      | .stray _ => false) = true := by decide +kernel
  have hstray : (CodeLog.of 2 twoBodies).NoStray := fun bytes hb =>
    absurd (List.all_eq_true.mp hinside _ hb) Bool.false_ne_true
  rw [(h.2 (by decide +kernel)).2.2.2 hstray, askedModule, hbodies]
  rfl

/-- A byte written before the first body is opened is not refused, and is no part of a body. -/
theorem strayByte_breaks_module :
    let done := ((WasmModule.init false (fun _ => 0) 4096 1).run
      [.emit (.byte 0), .bodyBegin, .bodyEnd]).finish
    done.1 ≠ 0 ∧ BinaryFormat.parseModule done.2.e.written = none := by
  have hf : ((WasmModule.init false (fun _ => 0) 4096 1).run
      [.emit (.byte 0), .bodyBegin, .bodyEnd]).finish.1 ≠ 0 := by decide +kernel
  obtain ⟨_, _, hover, _, _⟩ := finish_intact hf
  have hrun := (sizeEnd_intact hover).1
  obtain ⟨head, hread, hinit⟩ := state_init (by decide) (by decide) (run_sticky hrun)
  obtain ⟨_, _, _, hw⟩ := finish_bytes (hinit.run _ hrun) hf
  have hcode : codeBytes 1 (CodeLog.of 1 [.emit (.byte 0), .bodyBegin, .bodyEnd]) =
      [1, 0] ++ sizedBytes (bodyContents []) := by
    rw [codeBytes, uleb_last (by decide)]
    rfl
  refine ⟨hf, ?_⟩
  rw [hw]
  refine (hread.parse_bind _ _).trans ?_
  rw [← CodeLog.of, hcode]
  rfl

end X86Port.Wasm
