import X86Port.Cpu.Flags
import X86Port.Lib.Bytes
import X86Port.Memory.Sparse

/-!
# Guest memory

`memory.c`: one query for a backing span, in the contiguous or the sparse mode, and the
reads, writes and bulk operations built on it. The outer `none` of a result is a read past
the end of the permission table, which the language leaves undefined; below it, a refused
access is `none` or `false`.
-/

namespace X86Port.Memory

open Cpu (Width)
open Lib

/-! ## The mapping and the host -/

/-- One byte of permissions a page of a window of `size` bytes; zero is an unmapped page. -/
structure PermTable (size : U32) where
  entries : List U8
  pageShift : Nat
  shift_pos : 1 ≤ pageShift
  shift_le : pageShift ≤ 31
  covers : entries.length = (size.toNat + 2 ^ pageShift - 1) / 2 ^ pageShift

/-- A contiguous window at `lo` over host bytes from `host` on, unless a sparse table is
installed. -/
structure Mem where
  host : Nat
  lo : U32
  size : U32
  sparse : Option SparseMem
  perms : Option (PermTable size)

/-- The host's bytes, whether a write observer is installed, and what it was told. -/
structure Host where
  bytes : Nat → U8
  observer : Bool
  notified : List (U32 × U32)

/-! ## Backing spans -/

/-- Whether a page's byte refuses an access. -/
def pageRefuses (entry : U8) (access : U32) : Bool :=
  decide (entry = 0) || decide (entry.setWidth 32 &&& access ≠ access)

/-- The loop over the pages behind the first one, with the bytes granted so far. -/
def permWalk (pageSize access room : U32) : List U8 → U32 → Option U32
  | [], granted => if granted < room then none else some granted
  | entry :: entries, granted =>
    if granted < room then
      if pageRefuses entry access then some granted
      else permWalk pageSize access room entries (granted + pageSize)
    else
      some granted

def backingSpan (m : Mem) (addr max access : U32) : Option Span :=
  if max = 0 ∨ access &&& ~~~(memRead ||| memWrite) ≠ 0 then
    some Span.refused
  else
    match m.sparse with
    | some sparse => some (sparse.spanAccess addr max access)
    | none =>
      if m.size = 0 ∨ addr < m.lo then
        some Span.refused
      else
        let offset := addr - m.lo
        if offset ≥ m.size then
          some Span.refused
        else
          let room := m.size - offset
          let room := if room > max then max else room
          let room := if addr > uint32Max - (room - 1) then uint32Max - addr + 1 else room
          match m.perms with
          | none => some ⟨room, m.host + offset.toNat⟩
          | some table =>
            let pageSize : U32 := 1#32 <<< table.pageShift
            let page := (offset >>> table.pageShift).toNat
            let granted := pageSize - (offset &&& (pageSize - 1))
            match table.entries[page]? with
            | none => none
            | some first =>
              if pageRefuses first access then
                some Span.refused
              else
                (permWalk pageSize access room (table.entries.drop (page + 1)) granted).map
                  fun granted => ⟨if room > granted then granted else room, m.host + offset.toNat⟩

/-- The loop of `accessible_span`; each round adds at least one byte. -/
def accessibleSpanLoop (m : Mem) (max access : U32) : Nat → U32 → U32 → Option U32
  | 0, _, total => some total
  | fuel + 1, addr, total =>
    if total < max then
      (backingSpan m addr (max - total) access).bind fun span =>
        if span.length = 0 then some total
        else if span.length > uint32Max - addr then some (total + span.length)
        else accessibleSpanLoop m max access fuel (addr + span.length) (total + span.length)
    else
      some total

def accessibleSpan (m : Mem) (addr max access : U32) : Option U32 :=
  accessibleSpanLoop m max access (max.toNat + 1) addr 0

def readableSpan (m : Mem) (addr max : U32) : Option U32 :=
  accessibleSpan m addr max memRead

def accessible (m : Mem) (addr n access : U32) : Option Bool :=
  if n ≠ 0 ∧ ¬ addr > uint32Max - (n - 1) then
    (accessibleSpan m addr n access).map fun total => decide (total = n)
  else
    some false

/-- `x86p_mem_resolve` asks for read permission, whatever its caller goes on to do. -/
def resolve (m : Mem) (addr n : U32) : Option (Option Nat) :=
  match m.sparse with
  | some sparse => some (sparse.resolve addr n memRead)
  | none =>
    if n = 0 then
      some none
    else
      (backingSpan m addr n memRead).map fun span =>
        if span.length ≠ n then none else some span.host

def memOk (m : Mem) (addr : U32) (w : Width) : Option Bool :=
  accessible m addr (BitVec.ofNat 32 w.bytes) memRead

/-- The whole range in one walk, when it is one span. -/
def oneSpan (m : Mem) (addr n access : U32) : Option (Option Nat) :=
  if n = 0 ∨ addr > uint32Max - (n - 1) then
    some none
  else
    match m.sparse with
    | some sparse => some (sparse.resolve addr n access)
    | none =>
      (backingSpan m addr n access).map fun span =>
        if span.length = n then some span.host else none

/-! ## Reads and writes of whole spans -/

/-- The loop of `x86p_mem_read_bytes`, span by span. -/
def readLoop (m : Mem) (h : Host) : Nat → U32 → U32 → Option (List U8)
  | 0, _, _ => some []
  | fuel + 1, addr, n =>
    if n ≠ 0 then
      (backingSpan m addr n memRead).bind fun span =>
        (readLoop m h fuel (addr + span.length) (n - span.length)).map fun rest =>
          Bytes.load h.bytes span.host span.length.toNat ++ rest
    else
      some []

def readBytes (m : Mem) (h : Host) (addr n : U32) : Option (Option (List U8)) :=
  (oneSpan m addr n memRead).bind fun
    | some host => some (some (Bytes.load h.bytes host n.toNat))
    | none =>
      (accessible m addr n memRead).bind fun mapped =>
        if mapped then (readLoop m h n.toNat addr n).map some else some none

/-- The observer is told before the first byte moves. -/
def Host.notify (h : Host) (addr n : U32) : Host :=
  if h.observer then { h with notified := h.notified ++ [(addr, n)] } else h

def Host.store (h : Host) (at_ : Nat) (bytes : List U8) : Host :=
  { h with bytes := Bytes.store h.bytes at_ bytes }

def writeLoop (m : Mem) : Nat → Host → U32 → List U8 → U32 → Option Host
  | 0, h, _, _, _ => some h
  | fuel + 1, h, addr, input, n =>
    if n ≠ 0 then
      (backingSpan m addr n memWrite).bind fun span =>
        writeLoop m fuel (h.store span.host (input.take span.length.toNat))
          (addr + span.length) (input.drop span.length.toNat) (n - span.length)
    else
      some h

/-- `n` is the length of the input. -/
def writeBytes (m : Mem) (h : Host) (addr : U32) (input : List U8) : Option (Option Host) :=
  let n := BitVec.ofNat 32 input.length
  (oneSpan m addr n memWrite).bind fun
    | some host => some (some ((h.notify addr n).store host input))
    | none =>
      (accessible m addr n memWrite).bind fun mapped =>
        if mapped then (writeLoop m n.toNat (h.notify addr n) addr input n).map some
        else some none

/-! ## Bulk operations -/

/-- `memcpy` between host ranges. -/
def Host.copy (h : Host) (dst src n : Nat) : Host :=
  { h with bytes := Bytes.copy h.bytes dst src n }

def copyDisjoint (m : Mem) (h : Host) (dst src n : U32) : Option (Option Host) :=
  -- sparse aliases can make ranges that are apart in the guest overlap on the host
  if m.sparse.isSome ∨ h.observer then
    some none
  else
    (resolve m src n).bind fun
      | none => some none
      | some source =>
        (resolve m dst n).bind fun
          | none => some none
          | some destination =>
            if src.toNat < dst.toNat + n.toNat ∧ dst.toNat < src.toNat + n.toNat then
              some none
            else
              some (some (h.copy destination source n.toNat))

/-- Whether every byte of a fill unit is the same. -/
def unitRepeatsOneByte (unit : List U8) : Bool :=
  unit.all fun b => decide (b = unit.headD 0)

/-- The doubling of what is already written; each round writes at least one byte. -/
def fillLoop (destination bytes : Nat) : Nat → Host → Nat → Host
  | 0, h, _ => h
  | fuel + 1, h, filled =>
    if filled < bytes then
      let chunk := if filled < bytes - filled then filled else bytes - filled
      fillLoop destination bytes fuel (h.copy (destination + filled) destination chunk)
        (filled + chunk)
    else
      h

/-- `w` is the length of the unit. -/
def fill (m : Mem) (h : Host) (addr : U32) (unit : List U8) (count : U32) :
    Option (Option Host) :=
  let w := unit.length
  let bytes := w * count.toNat
  if count = 0 ∨ (w ≠ 1 ∧ w ≠ 2 ∧ w ≠ 4) ∨ bytes > 2 ^ 32 - 1 then
    some none
  else if m.sparse.isSome ∨ h.observer then
    some none
  else
    (resolve m addr (BitVec.ofNat 32 bytes)).bind fun
      | none => some none
      | some destination =>
        if unitRepeatsOneByte unit then
          some (some (h.store destination (List.replicate bytes (unit.headD 0))))
        else
          some (some (fillLoop destination bytes bytes (h.store destination unit) w))

/-! ## Integers -/

/-- The little-endian value of bytes. -/
def valueOf : List U8 → U32
  | [] => 0
  | b :: bs => valueOf bs <<< 8 ||| b.setWidth 32

/-- The low `n` bytes of a value, little-endian. -/
def bytesOf : Nat → U32 → List U8
  | 0, _ => []
  | n + 1, value => value.setWidth 8 :: bytesOf n (value >>> 8)

def read (m : Mem) (h : Host) (addr : U32) (w : Width) : Option (Option U32) :=
  (readBytes m h addr (BitVec.ofNat 32 w.bytes)).map fun bytes => bytes.map valueOf

def write (m : Mem) (h : Host) (addr : U32) (w : Width) (value : U32) : Option (Option Host) :=
  writeBytes m h addr (bytesOf w.bytes value)

end X86Port.Memory
