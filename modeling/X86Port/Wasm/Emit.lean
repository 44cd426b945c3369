import X86Port.Lib.Bytes
import X86Port.Lib.Leb128
import X86Port.Wasm.BinaryFormat

/-!
# The WebAssembly encoder

`emit_wasm.c`: bytes into a buffer of fixed capacity, numbers as LEB128, and sizes that are
patched in front of the contents they measure.

* `Appends`: what a call puts behind the bytes that are there, unless it overflows.
* `written_sizeEnd`: a size slot, and what closing it leaves.
-/

namespace X86Port.Wasm

open Lib (Bytes.load Bytes.store)
open Lib.Leb128 (uleb sleb padded uleb_last uleb_more sleb_last sleb_more)

/-- `X86pWasmEmit`. -/
structure WasmEmit where
  buf : Nat → U8
  cap : Nat
  len : Nat
  overflow : Bool
  sizesOpened : U32
  sizesClosed : U32
  blocksOpened : U32
  blocksClosed : U32
  bodiesOpened : U32
  bodiesClosed : U32
  len_le : len ≤ cap

namespace WasmEmit

def init (buf : Nat → U8) (cap : Nat) : WasmEmit where
  buf := buf
  cap := cap
  len := 0
  overflow := false
  sizesOpened := 0
  sizesClosed := 0
  blocksOpened := 0
  blocksClosed := 0
  bodiesOpened := 0
  bodiesClosed := 0
  len_le := Nat.zero_le cap

def ok (e : WasmEmit) : Bool :=
  !e.overflow && e.sizesOpened == e.sizesClosed && e.blocksOpened == e.blocksClosed &&
    e.bodiesOpened == e.bodiesClosed

def intact (e : WasmEmit) : Bool := !e.overflow

/-- The bytes that have been written. -/
def written (e : WasmEmit) : List U8 := Bytes.load e.buf 0 e.len

/-! ## Primitives -/

/-- A write that does not fit sets `overflow`, and one after that is dropped. -/
def refuse (e : WasmEmit) : WasmEmit := { e with overflow := true }

def byte (e : WasmEmit) (b : U8) : WasmEmit :=
  if e.overflow then e
  else if h : e.len + 1 ≤ e.cap then
    { e with buf := Function.update e.buf e.len b, len := e.len + 1, len_le := h }
  else e.refuse

def bytes (e : WasmEmit) (p : List U8) : WasmEmit :=
  if e.overflow then e
  else if h : e.len + p.length ≤ e.cap then
    { e with buf := Bytes.store e.buf e.len p, len := e.len + p.length, len_le := h }
  else e.refuse

def u32 (e : WasmEmit) (value : U32) : WasmEmit :=
  let b := (value &&& 0x7F).setWidth 8
  let value' := value >>> 7
  if value' ≠ 0 then u32 (e.byte (b ||| 0x80)) value' else e.byte b
termination_by value.toNat
decreasing_by
  rename_i h
  have : value ≠ 0 := by
    rintro rfl
    exact h rfl
  bv_omega

/-- What is left of a value repeats the sign of the byte that was taken from it. -/
abbrev SignDone (b : U8) (rest : U64) : Prop :=
  rest = 0 ∧ ¬ b &&& 0x40 ≠ 0 ∨ rest = -1 ∧ b &&& 0x40 ≠ 0

theorem toNat_septet {w : Nat} (value : BitVec w) (hw : 7 ≤ w) :
    ((value &&& BitVec.ofNat w 0x7F).setWidth 8).toNat = value.toNat % 128 := by
  have hmask : 127 < 2 ^ w := Nat.lt_of_lt_of_le (by decide)
    (Nat.pow_le_pow_right (by decide) hw : 2 ^ 7 ≤ 2 ^ w)
  rw [BitVec.toNat_setWidth, BitVec.toNat_and, BitVec.toNat_ofNat, Nat.mod_eq_of_lt hmask,
    show 127 = 2 ^ 7 - 1 from rfl, Nat.and_two_pow_sub_one_eq_mod]
  omega

theorem sign_bit_iff (b : U8) (h : b.toNat < 128) : b &&& 0x40 ≠ 0 ↔ 64 ≤ b.toNat := by
  revert b
  decide

theorem toInt_shift (value : U64) : (value.sshiftRight 7).toInt = value.toInt / 128 := by
  rw [BitVec.toInt_sshiftRight, Int.shiftRight_eq_div_pow]
  rfl

theorem toInt_mod (value : U64) : value.toInt % 128 = value.toNat % 128 := by
  rw [BitVec.toInt_eq_toNat_cond]
  split_ifs <;> omega

theorem signDone_iff (value : U64) :
    SignDone ((value &&& 0x7F).setWidth 8) (value.sshiftRight 7) ↔
      -64 ≤ value.toInt ∧ value.toInt < 64 := by
  have hb : ((value &&& 0x7F).setWidth 8).toNat = value.toNat % 128 :=
    toNat_septet value (by decide)
  have hmod := toInt_mod value
  have hshift := toInt_shift value
  have hzero : value.sshiftRight 7 = 0 ↔ (value.sshiftRight 7).toInt = 0 := by
    rw [← BitVec.toInt_inj]
    rfl
  have hone : value.sshiftRight 7 = -1 ↔ (value.sshiftRight 7).toInt = -1 := by
    rw [← BitVec.toInt_inj]
    rfl
  have hsign := sign_bit_iff ((value &&& 0x7F).setWidth 8) (by omega)
  rw [SignDone, hsign, hb, hzero, hone, hshift]
  omega

/-- The loop over an `int64_t`, whose shift keeps the sign. -/
def emitSleb (e : WasmEmit) (value : U64) : WasmEmit :=
  let b := (value &&& 0x7F).setWidth 8
  let value' := value.sshiftRight 7
  if SignDone b value' then e.byte b else emitSleb (e.byte (b ||| 0x80)) value'
termination_by value.toInt.natAbs
decreasing_by
  rename_i h
  rw [signDone_iff] at h
  rw [toInt_shift]
  omega

def i32 (e : WasmEmit) (value : U32) : WasmEmit := e.emitSleb (value.signExtend 64)

def i64 (e : WasmEmit) (value : U64) : WasmEmit := e.emitSleb value

/-! ## Sections and sizes -/

/-- `X86P_WASM_SIZE_WIDTH`. -/
def sizeWidth : Nat := 5

/-- `open_size`: the reserved slot, and where it is. -/
def openSize (e : WasmEmit) : Nat × WasmEmit :=
  (e.len, (List.replicate sizeWidth (0x00 : U8)).foldl byte
    { e with sizesOpened := e.sizesOpened + 1 })

/-- The bytes of a slot from `at` on, `left` of them to go. -/
def patchSize (buf : Nat → U8) (slot length : Nat) : Nat → Nat → U8
  | 0 => buf
  | left + 1 =>
    let b := BitVec.ofNat 8 (length &&& 0x7F)
    let b := if left ≠ 0 then b ||| 0x80 else b
    patchSize (Function.update buf slot b) (slot + 1) (length >>> 7) left

/-- `x86p_wasm_size_end`. -/
def sizeEnd (e : WasmEmit) (slot : Nat) : WasmEmit :=
  let e := { e with sizesClosed := e.sizesClosed + 1 }
  let contentsStart := slot + sizeWidth
  if e.overflow then e
  else if contentsStart > e.len ∨ contentsStart > e.cap then e.refuse
  else if e.len - contentsStart > 0xFFFFFFFF then e.refuse
  else { e with buf := patchSize e.buf slot (e.len - contentsStart) sizeWidth }

def sectionBegin (e : WasmEmit) (id : U8) : Nat × WasmEmit := (e.byte id).openSize

def bodyBegin (e : WasmEmit) : Nat × WasmEmit :=
  { e with bodiesOpened := e.bodiesOpened + 1 }.openSize

def countBodyEnd (e : WasmEmit) : WasmEmit := { e with bodiesClosed := e.bodiesClosed + 1 }

/-- Every body ends with an explicit `end`. -/
def bodyEnd (e : WasmEmit) (body : Nat) : WasmEmit := (e.byte 0x0B).countBodyEnd.sizeEnd body

/-! ## Entries -/

/-- The length of a name is passed on as a `uint32_t`. -/
def name (e : WasmEmit) (s : List U8) : WasmEmit :=
  (e.u32 (BitVec.ofNat 32 s.length)).bytes s

def moduleBegin (e : WasmEmit) : WasmEmit :=
  e.bytes [0x00, 0x61, 0x73, 0x6D, 0x01, 0x00, 0x00, 0x00]

def types (e : WasmEmit) (l : List WasmType) : WasmEmit := l.foldl (fun e t => e.byte t.code) e

def functype (e : WasmEmit) (params results : List WasmType) : WasmEmit :=
  let e := e.byte 0x60
  let e := (e.u32 (BitVec.ofNat 32 params.length)).types params
  (e.u32 (BitVec.ofNat 32 results.length)).types results

def importFunc (e : WasmEmit) (moduleName field : List U8) (typeIndex : U32) : WasmEmit :=
  (((e.name moduleName).name field).byte 0x00).u32 typeIndex

def limits (e : WasmEmit) (minimum : U32) (maximum : Option U32) : WasmEmit :=
  match maximum with
  | none => (e.byte 0x00).u32 minimum
  | some maximum => ((e.byte 0x01).u32 minimum).u32 maximum

def importMemory (e : WasmEmit) (moduleName field : List U8) (minimum : U32)
    (maximum : Option U32) : WasmEmit :=
  (((e.name moduleName).name field).byte 0x02).limits minimum maximum

def importSharedMemory (e : WasmEmit) (moduleName field : List U8) (minimum maximum : U32) :
    WasmEmit :=
  (((((e.name moduleName).name field).byte 0x02).byte 0x03).u32 minimum).u32 maximum

def exportFunc (e : WasmEmit) (field : List U8) (funcIndex : U32) : WasmEmit :=
  ((e.name field).byte 0x00).u32 funcIndex

def locals (e : WasmEmit) (groups : U32) : WasmEmit := e.u32 groups

def localGroup (e : WasmEmit) (count : U32) (type : WasmType) : WasmEmit :=
  (e.u32 count).byte type.code

def i32Const (e : WasmEmit) (value : U32) : WasmEmit := (e.byte 0x41).i32 value

def localSet (e : WasmEmit) (index : U32) : WasmEmit := (e.byte 0x21).u32 index

/-- `block`, `loop` and `if`, by their opcode. -/
def openBlock (e : WasmEmit) (opcode : U8) (type : WasmType) : WasmEmit :=
  ({ e with blocksOpened := e.blocksOpened + 1 }.byte opcode).byte type.code

/-- `x86p_wasm_end`. -/
def endBlock (e : WasmEmit) : WasmEmit :=
  { e with blocksClosed := e.blocksClosed + 1 }.byte 0x0B

/-! ## Plain writes -/

/-- The calls that write or count and hand out no size slot. -/
inductive Write where
  | byte (b : U8)
  | bytes (p : List U8)
  | u32 (value : U32)
  | i32 (value : U32)
  | i64 (value : U64)
  | block (opcode : U8) (type : WasmType)
  | endBlock

def write (e : WasmEmit) : Write → WasmEmit
  | .byte b => e.byte b
  | .bytes p => e.bytes p
  | .u32 value => e.u32 value
  | .i32 value => e.i32 value
  | .i64 value => e.i64 value
  | .block opcode type => e.openBlock opcode type
  | .endBlock => e.endBlock

/-- The bytes of a write, for any buffer that has room. -/
def Write.encoded : Write → List U8
  | .byte b => [b]
  | .bytes p => p
  | .u32 value => uleb value.toNat
  | .i32 value => sleb value.toInt
  | .i64 value => sleb value.toInt
  | .block opcode type => [opcode, type.code]
  | .endBlock => [0x0B]

/-! ## What a call appends -/

/-- A call that puts these bytes behind what has been written, or overflows: it leaves the bytes
before them alone, and everything past the capacity. -/
structure Appends (f : WasmEmit → WasmEmit) (p : List U8) : Prop where
  cap : ∀ e, (f e).cap = e.cap
  keeps : ∀ e i, i < e.len ∨ e.cap ≤ i → (f e).buf i = e.buf i
  grows : ∀ e, e.len ≤ (f e).len
  adds : ∀ e, (f e).overflow = false → e.overflow = false ∧ (f e).written = e.written ++ p

theorem Appends.comp {f g : WasmEmit → WasmEmit} {p q : List U8} (hf : Appends f p)
    (hg : Appends g q) : Appends (fun e => g (f e)) (p ++ q) where
  cap e := (hg.cap _).trans (hf.cap e)
  keeps e i hi := by
    refine (hg.keeps _ i (hi.imp (fun h => ?_) fun h => ?_)).trans (hf.keeps e i hi)
    · exact Nat.lt_of_lt_of_le h (hf.grows e)
    · rwa [hf.cap]
  grows e := (hf.grows e).trans (hg.grows _)
  adds e h := by
    obtain ⟨hmid, hq⟩ := hg.adds _ h
    obtain ⟨hstart, hp⟩ := hf.adds e hmid
    exact ⟨hstart, by rw [hq, hp, List.append_assoc]⟩

theorem length_written (e : WasmEmit) : e.written.length = e.len := Lib.Bytes.length_load e.buf 0 e.len

theorem Appends.len {f : WasmEmit → WasmEmit} {p : List U8} (hf : Appends f p) {e : WasmEmit}
    (h : (f e).overflow = false) : (f e).len = e.len + p.length := by
  rw [← length_written, (hf.adds e h).2, List.length_append, length_written]

theorem appends_id : Appends id [] where
  cap _ := rfl
  keeps _ _ _ := rfl
  grows _ := Nat.le_refl _
  adds _ h := ⟨h, (List.append_nil _).symm⟩

theorem appends_foldl {ι : Type} {f : WasmEmit → ι → WasmEmit} {p : ι → List U8} (l : List ι)
    (h : ∀ i ∈ l, Appends (f · i) (p i)) : Appends (fun e => l.foldl f e) (l.flatMap p) := by
  induction l with
  | nil => exact appends_id
  | cons i l ih =>
    exact (h i List.mem_cons_self).comp (ih fun j hj => h j (List.mem_cons_of_mem i hj))

theorem appends_bytes (p : List U8) : Appends (fun e => e.bytes p) p where
  cap e := by
    unfold bytes
    split_ifs <;> rfl
  keeps e i hi := by
    unfold bytes
    split_ifs with h hfit
    · rfl
    · change Bytes.store e.buf e.len p i = _
      rw [Lib.Bytes.store_apply, if_neg (by omega)]
    · rfl
  grows e := by
    unfold bytes
    split_ifs
    · exact Nat.le_refl _
    · exact Nat.le_add_right _ _
    · exact Nat.le_refl _
  adds e h := by
    unfold bytes at h ⊢
    split_ifs at h ⊢ with hover hfit
    · exact absurd hover (by simp [h])
    · refine ⟨by simpa using hover, ?_⟩
      change Bytes.load (Bytes.store e.buf e.len p) 0 (e.len + p.length) = _
      rw [Lib.Bytes.load_add, Nat.zero_add, Lib.Bytes.load_store]
      congr 1
      refine Lib.Bytes.load_congr fun x _ hx => ?_
      rw [Lib.Bytes.store_apply, if_neg (by omega)]
    · exact absurd h (by simp [refuse])

theorem byte_eq_bytes (e : WasmEmit) (b : U8) : e.byte b = e.bytes [b] := by
  unfold byte bytes
  simp only [Lib.Bytes.store_cons, Lib.Bytes.store_nil, List.length_singleton]

theorem appends_byte (b : U8) : Appends (fun e => e.byte b) [b] := by
  simp only [byte_eq_bytes]
  exact appends_bytes [b]

/-- Counting changes no byte. -/
theorem appends_counting {c : WasmEmit → WasmEmit}
    (hc : ∀ e, (c e).buf = e.buf ∧ (c e).cap = e.cap ∧ (c e).len = e.len ∧
      (c e).overflow = e.overflow) : Appends c [] where
  cap e := (hc e).2.1
  keeps e _ _ := congrFun (hc e).1 _
  grows e := (hc e).2.2.1.ge
  adds e h := by
    obtain ⟨hbuf, _, hlen, hover⟩ := hc e
    exact ⟨hover ▸ h, by rw [written, hbuf, hlen, List.append_nil, written]⟩

theorem Appends.counted {f c : WasmEmit → WasmEmit} {p : List U8} (hf : Appends f p)
    (hc : ∀ e, (c e).buf = e.buf ∧ (c e).cap = e.cap ∧ (c e).len = e.len ∧
      (c e).overflow = e.overflow) : Appends (fun e => f (c e)) p :=
  (appends_counting hc).comp hf

theorem toNat_continued (b : U8) (h : b.toNat < 128) : (b ||| 0x80).toNat = b.toNat + 128 := by
  revert b
  decide

theorem septet_continued {b : U8} {n : Nat} (h : b.toNat = n % 128) :
    b ||| 0x80 = BitVec.ofNat 8 (n % 128 + 128) := by
  apply BitVec.eq_of_toNat_eq
  rw [toNat_continued b (by omega), Lib.Leb128.toNat_more, h]

theorem u32_eq (e : WasmEmit) (value : U32) :
    e.u32 value = (uleb value.toNat).foldl byte e := by
  induction e, value using u32.induct with
  | case1 e value b rest h ih =>
    have hb : b.toNat = value.toNat % 128 := toNat_septet value (by decide)
    have hrest : rest.toNat = value.toNat / 128 := by
      rw [BitVec.toNat_ushiftRight, Nat.shiftRight_eq_div_pow]
    have hmore : ¬ value.toNat < 128 := by
      intro hlt
      exact h (BitVec.eq_of_toNat_eq (by rw [hrest]; exact Nat.div_eq_of_lt hlt))
    rw [u32, if_pos h, ih, hrest, uleb_more hmore, List.foldl_cons, septet_continued hb]
  | case2 e value rest h =>
    let b : U8 := (value &&& 0x7F).setWidth 8
    have hb : b.toNat = value.toNat % 128 := toNat_septet value (by decide)
    have hrest : rest.toNat = value.toNat / 128 := by
      rw [BitVec.toNat_ushiftRight, Nat.shiftRight_eq_div_pow]
    have hlast : value.toNat < 128 := by
      have : rest.toNat = 0 := by rw [not_not.1 h]; rfl
      omega
    have hbyte : b = BitVec.ofNat 8 value.toNat := by
      apply BitVec.eq_of_toNat_eq
      rw [hb, BitVec.toNat_ofNat]
      omega
    rw [u32, if_neg h, uleb_last hlast, List.foldl_cons, ← hbyte]
    rfl

theorem emitSleb_eq (e : WasmEmit) (value : U64) :
    e.emitSleb value = (sleb value.toInt).foldl byte e := by
  induction e, value using emitSleb.induct with
  | case1 e value b rest h =>
    have hb : b.toNat = value.toNat % 128 := toNat_septet value (by decide)
    have hmod := toInt_mod value
    have hbyte : b = BitVec.ofNat 8 (value.toInt % 128).toNat := by
      apply BitVec.eq_of_toNat_eq
      rw [hb, Lib.Leb128.toNat_signedLow]
      omega
    rw [emitSleb, if_pos h, sleb_last ((signDone_iff value).1 h), List.foldl_cons, ← hbyte]
    rfl
  | case2 e value b rest h ih =>
    have hb : b.toNat = value.toNat % 128 := toNat_septet value (by decide)
    have hmod := toInt_mod value
    have hbyte : b ||| 0x80 = BitVec.ofNat 8 ((value.toInt % 128).toNat + 128) := by
      apply BitVec.eq_of_toNat_eq
      rw [toNat_continued b (by omega), hb, Lib.Leb128.toNat_signedMore]
      omega
    rw [emitSleb, if_neg h, ih, toInt_shift, sleb_more (mt (signDone_iff value).2 h),
      List.foldl_cons, hbyte]

theorem appends_bytewise (p : List U8) : Appends (fun e => p.foldl byte e) p := by
  have := appends_foldl p fun b _ => appends_byte b
  rwa [List.flatMap_singleton'] at this

theorem appends_u32 (value : U32) : Appends (fun e => e.u32 value) (uleb value.toNat) := by
  simp only [u32_eq]
  exact appends_bytewise _

theorem appends_emitSleb (value : U64) :
    Appends (fun e => e.emitSleb value) (sleb value.toInt) := by
  simp only [emitSleb_eq]
  exact appends_bytewise _

theorem appends_i32 (value : U32) : Appends (fun e => e.i32 value) (sleb value.toInt) := by
  have h := appends_emitSleb (value.signExtend 64)
  rwa [BitVec.toInt_signExtend_of_le (by decide)] at h

theorem appends_i64 (value : U64) : Appends (fun e => e.i64 value) (sleb value.toInt) :=
  appends_emitSleb value

theorem appends_openBlock (opcode : U8) (type : WasmType) :
    Appends (fun e => e.openBlock opcode type) [opcode, type.code] := by
  exact ((appends_byte opcode).comp (appends_byte type.code)).counted fun _ => ⟨rfl, rfl, rfl, rfl⟩

theorem appends_endBlock : Appends endBlock [0x0B] := by
  exact (appends_byte 0x0B).counted fun _ => ⟨rfl, rfl, rfl, rfl⟩

theorem appends_write (w : Write) : Appends (fun e => e.write w) w.encoded := by
  cases w with
  | byte b => exact appends_byte b
  | bytes p => exact appends_bytes p
  | u32 value => exact appends_u32 value
  | i32 value => exact appends_i32 value
  | i64 value => exact appends_i64 value
  | block opcode type => exact appends_openBlock opcode type
  | endBlock => exact appends_endBlock

/-! ## Closing a size -/

theorem patchSize_eq (buf : Nat → U8) (slot length k : Nat) :
    patchSize buf slot length (k + 1) = Bytes.store buf slot (padded k length) := by
  have hlow (n : Nat) : (BitVec.ofNat 8 (n &&& 0x7F)).toNat = n % 128 := by
    rw [BitVec.toNat_ofNat, show 0x7F = 2 ^ 7 - 1 from rfl, Nat.and_two_pow_sub_one_eq_mod]
    omega
  induction k generalizing buf slot length with
  | zero =>
    have hbyte : BitVec.ofNat 8 (length &&& 0x7F) = BitVec.ofNat 8 (length % 128) := by
      apply BitVec.eq_of_toNat_eq
      rw [hlow, Lib.Leb128.toNat_low]
    rw [padded, Lib.Bytes.store_cons, Lib.Bytes.store_nil, ← hbyte]
    rfl
  | succ k ih =>
    rw [padded, Lib.Bytes.store_cons, patchSize, ih, if_pos (Nat.succ_ne_zero k),
      septet_continued (hlow length), Nat.shiftRight_eq_div_pow]

theorem appends_openSize : Appends (fun e => e.openSize.2) (List.replicate sizeWidth 0x00) :=
  (appends_bytewise (List.replicate sizeWidth 0x00)).counted fun _ => ⟨rfl, rfl, rfl, rfl⟩

/-- The `end` of a body, and its count. -/
theorem appends_endByte : Appends (fun e => (e.byte 0x0B).countBodyEnd) [0x0B] :=
  (appends_byte 0x0B).comp (appends_counting fun _ => ⟨rfl, rfl, rfl, rfl⟩)

theorem appends_bodyBegin :
    Appends (fun e => e.bodyBegin.2) (List.replicate sizeWidth 0x00) :=
  appends_openSize.counted fun _ => ⟨rfl, rfl, rfl, rfl⟩

/-- What closing a size does: the length of what lies behind the slot goes into it. -/
theorem sizeEnd_intact {e : WasmEmit} {slot : Nat} (h : (e.sizeEnd slot).overflow = false) :
    e.overflow = false ∧ slot + sizeWidth ≤ e.len ∧ e.len - (slot + sizeWidth) < 2 ^ 32 ∧
      (e.sizeEnd slot).buf =
        Bytes.store e.buf slot (padded 4 (e.len - (slot + sizeWidth))) := by
  unfold sizeEnd at h ⊢
  simp only at h ⊢
  split_ifs at h ⊢ with hover hroom hlong
  · exact absurd (hover.symm.trans h) (by decide)
  · exact absurd h (by simp [refuse])
  · exact absurd h (by simp [refuse])
  · refine ⟨by simpa using hover, by omega, by omega, ?_⟩
    exact patchSize_eq e.buf slot _ 4

theorem sizeEnd_cap (e : WasmEmit) (slot : Nat) : (e.sizeEnd slot).cap = e.cap := by
  unfold sizeEnd
  simp only
  split_ifs <;> rfl

theorem sizeEnd_len (e : WasmEmit) (slot : Nat) : (e.sizeEnd slot).len = e.len := by
  unfold sizeEnd
  simp only
  split_ifs <;> rfl

theorem sizeEnd_dropped {e : WasmEmit} {slot : Nat} (h : (e.sizeEnd slot).overflow ≠ false) :
    (e.sizeEnd slot).buf = e.buf := by
  unfold sizeEnd at h ⊢
  simp only at h ⊢
  split_ifs at h ⊢ with hover
  · rfl
  · rfl
  · rfl
  · exact absurd (Bool.not_eq_true _ ▸ hover) h

/-- Only the slot is written, and only when it has been reserved. -/
theorem sizeEnd_keeps (e : WasmEmit) {slot i : Nat}
    (hi : i < slot ∨ slot + sizeWidth ≤ i ∨ e.len ≤ i) :
    (e.sizeEnd slot).buf i = e.buf i := by
  by_cases h : (e.sizeEnd slot).overflow = false
  · obtain ⟨_, hroom, _, hbuf⟩ := sizeEnd_intact h
    unfold sizeWidth at hi hroom
    rw [hbuf, Lib.Bytes.store_apply, Lib.Leb128.length_padded, if_neg (by omega)]
  · rw [sizeEnd_dropped h]

/-! ## The capacity -/

/-- Nothing at or past the capacity has been written. -/
def Confined (e e' : WasmEmit) : Prop :=
  e'.cap = e.cap ∧ ∀ i, e.cap ≤ i → e'.buf i = e.buf i

theorem Confined.refl (e : WasmEmit) : Confined e e := ⟨rfl, fun _ _ => rfl⟩

theorem Confined.trans {e e' e'' : WasmEmit} (h : Confined e e') (h' : Confined e' e'') :
    Confined e e'' :=
  ⟨h'.1.trans h.1, fun i hi => (h'.2 i (h.1 ▸ hi)).trans (h.2 i hi)⟩

theorem Appends.confined {f : WasmEmit → WasmEmit} {p : List U8} (hf : Appends f p)
    (e : WasmEmit) : Confined e (f e) :=
  ⟨hf.cap e, fun i hi => hf.keeps e i (.inr hi)⟩

theorem confined_sizeEnd (e : WasmEmit) (slot : Nat) : Confined e (e.sizeEnd slot) :=
  ⟨sizeEnd_cap e slot, fun _ hi => sizeEnd_keeps e (.inr (.inr (e.len_le.trans hi)))⟩

theorem confined_bodyEnd (e : WasmEmit) (slot : Nat) : Confined e (e.bodyEnd slot) :=
  (appends_endByte.confined e).trans (confined_sizeEnd _ slot)

/-- The bytes around a slot, and the contents behind it. -/
theorem written_sizeEnd {e : WasmEmit} {before slot contents : List U8}
    (hw : e.written = before ++ (slot ++ contents)) (hslot : slot.length = sizeWidth)
    (h : (e.sizeEnd before.length).overflow = false) :
    e.overflow = false ∧ contents.length < 2 ^ 32 ∧
      (e.sizeEnd before.length).written =
        before ++ (padded 4 contents.length ++ contents) := by
  obtain ⟨hover, _, hlong, hbuf⟩ := sizeEnd_intact h
  have hlen : e.len = before.length + (sizeWidth + contents.length) := by
    have := congrArg List.length hw
    simpa [written, hslot, Nat.add_assoc] using this
  have hleft : e.len - (before.length + sizeWidth) = contents.length := by omega
  rw [hleft] at hlong hbuf
  refine ⟨hover, hlong, ?_⟩
  unfold written at hw ⊢
  rw [hlen, Lib.Bytes.load_add, Lib.Bytes.load_add, Nat.zero_add] at hw
  obtain ⟨hb, hrest⟩ := List.append_inj hw (by simp)
  obtain ⟨_, hc⟩ := List.append_inj hrest (by simp [hslot])
  rw [sizeEnd_len, hlen, hbuf, Lib.Bytes.load_add, Lib.Bytes.load_add, Nat.zero_add]
  have hwidth : sizeWidth = (padded 4 contents.length).length := by simp [sizeWidth]
  congr 1
  · refine Eq.trans (Lib.Bytes.load_congr fun x _ hx => ?_) hb
    rw [Lib.Bytes.store_apply, if_neg (by omega)]
  congr 1
  · rw [hwidth, Lib.Bytes.load_store]
  · refine Eq.trans (Lib.Bytes.load_congr fun x hx _ => ?_) hc
    rw [Lib.Bytes.store_apply, if_neg (by omega)]

/-- Contents with their size in front of them. -/
def sizedBytes (contents : List U8) : List U8 := padded 4 contents.length ++ contents

/-- A size that is opened, its contents, and its end. -/
def sized (f : WasmEmit → WasmEmit) (e : WasmEmit) : WasmEmit :=
  (f e.openSize.2).sizeEnd e.openSize.1

theorem written_sized {f : WasmEmit → WasmEmit} {p : List U8} (hf : Appends f p) {e : WasmEmit}
    (h : (sized f e).overflow = false) : e.overflow = false ∧ p.length < 2 ^ 32 ∧
      (sized f e).written = e.written ++ sizedBytes p := by
  have hin := hf.adds e.openSize.2 (sizeEnd_intact h).1
  have hopen := appends_openSize.adds e hin.1
  have hw : (f e.openSize.2).written =
      e.written ++ (List.replicate sizeWidth 0x00 ++ p) := by
    rw [hin.2, hopen.2, List.append_assoc]
  have hat : e.openSize.1 = e.written.length := (length_written e).symm
  unfold sized at h ⊢
  rw [hat] at h ⊢
  exact ⟨hopen.1, (written_sizeEnd hw (List.length_replicate ..) h).2⟩

theorem Appends.sized {f : WasmEmit → WasmEmit} {p : List U8} (hf : Appends f p) :
    Appends (sized f) (sizedBytes p) where
  cap e := (sizeEnd_cap _ _).trans ((appends_openSize.comp hf).cap e)
  keeps e i hi := by
    have hin := appends_openSize.comp hf
    refine (sizeEnd_keeps _ ?_).trans (hin.keeps e i hi)
    rcases hi with hi | hi
    · exact .inl hi
    · exact .inr (.inr (((f e.openSize.2).len_le.trans (hin.cap e).le).trans hi))
  grows e := ((appends_openSize.comp hf).grows e).trans (sizeEnd_len _ _).ge
  adds _ h := ⟨(written_sized hf h).1, (written_sized hf h).2.2⟩

end WasmEmit

end X86Port.Wasm
