import Mathlib.Data.List.Basic
import X86Port.Lib.RangeTable
import X86Port.Word

/-!
# The sparse mapping table

`memory_sparse.c`: guest ranges backed by independently allocated host spans, kept in one
table sorted by guest address. Host pointers and `uintptr_t` are natural numbers under the
host's limits (`HostAbi`); an allocation is an answer handed to the operation, so that it
may fail at any point. An operation returns its C result (`true` for 1) with the table it
leaves.
-/

namespace X86Port.Memory

open Lib Lib.RangeTable

/-! ## The table -/

/-- The `kX86pMemRead` and `kX86pMemWrite` bits of an access mask. -/
def memRead : U32 := 1#32

def memWrite : U32 := 2#32

/-- The limits of the host's pointer and size types, and `sizeof(Mapping)`. -/
structure HostAbi where
  uintptrMax : Nat
  sizeMax : Nat
  mappingBytes : Nat

structure Mapping where
  guest : U32
  size : U32
  host : Nat
  access : U32
  allocation : U64
deriving DecidableEq, Inhabited

instance : Ranged Mapping where
  start m := m.guest.toNat
  stop m := m.guest.toNat + m.size.toNat

/-- Where the byte at `a` of a mapping lies, and its permission. -/
def Mapping.backing (m : Mapping) (a : Nat) : Nat × U32 :=
  (m.host + (a - m.guest.toNat), m.access)

/-- The `count` field is the length of the list. -/
structure SparseMem where
  mappings : List Mapping
  capacity : Nat
  nextAllocation : U64
deriving DecidableEq

/-- Bytes available in one backing span and where they lie on the host; a refused query
has length 0. -/
structure Span where
  length : U32
  host : Nat
deriving DecidableEq

def Span.refused : Span := ⟨0, 0⟩

namespace SparseMem

def create : SparseMem := ⟨[], 0, 0⟩

def count (s : SparseMem) : Nat := s.mappings.length

/-- The binary search of `upper_bound` between `lo` and `hi`; every round at least halves
the gap, so `count` rounds are enough. -/
def upperBoundLoop (mappings : List Mapping) (guest : U32) : Nat → Nat → Nat → Nat
  | 0, lo, _ => lo
  | fuel + 1, lo, hi =>
    if lo < hi then
      let mid := lo + (hi - lo) / 2
      if (mappings.getD mid default).guest ≤ guest then
        upperBoundLoop mappings guest fuel (mid + 1) hi
      else
        upperBoundLoop mappings guest fuel lo mid
    else
      lo

/-- First range starting strictly above `guest`. -/
def upperBound (s : SparseMem) (guest : U32) : Nat :=
  upperBoundLoop s.mappings guest s.count 0 s.count

def mapping (s : SparseMem) (i : Nat) : Mapping := s.mappings.getD i default

def rangeAvailable (s : SparseMem) (guest size : U32) : Bool :=
  if size = 0 ∨ guest > uint32Max - (size - 1) then
    false
  else
    let at_ := s.upperBound guest
    !(decide (at_ ≠ 0) &&
        decide (guest - (s.mapping (at_ - 1)).guest < (s.mapping (at_ - 1)).size)) &&
      !(decide (at_ < s.count) && decide ((s.mapping at_).guest - guest < size))

/-- `memmove` the tail up by one and store at `i`. -/
def insertAt (mappings : List Mapping) (i : Nat) (m : Mapping) : List Mapping :=
  mappings.take i ++ m :: mappings.drop i

/-- The capacity after making room for one more range, if there is room or `realloc` gives
it. Doubling wraps at `SIZE_MAX`, which the comparison catches. -/
def grow (abi : HostAbi) (s : SparseMem) (reallocOk : Bool) : Option Nat :=
  if s.count = s.capacity then
    let capacity := if s.capacity ≠ 0 then s.capacity * 2 % (abi.sizeMax + 1) else 16
    if capacity < s.capacity ∨ capacity > abi.sizeMax / abi.mappingBytes then none
    else if reallocOk then some capacity else none
  else
    some s.capacity

def mapAccess (abi : HostAbi) (s : SparseMem) (guest : U32) (host : Nat) (size access : U32)
    (reallocOk : Bool) : Bool × SparseMem :=
  if host = 0 ∨ size = 0 ∨ access &&& ~~~(memRead ||| memWrite) ≠ 0 ∨
      s.nextAllocation = uint64Max ∨ guest > uint32Max - (size - 1) ∨
      host > abi.uintptrMax - (size.toNat - 1) then
    (false, s)
  else if !s.rangeAvailable guest size then
    (false, s)
  else
    let at_ := s.upperBound guest
    match s.grow abi reallocOk with
    | none => (false, s)
    | some capacity =>
      let allocation := s.nextAllocation + 1
      let mappings := insertAt s.mappings at_ ⟨guest, size, host, access, allocation⟩
      (true, ⟨mappings, capacity, allocation⟩)

/-- Remove exactly one registered mapping. -/
def unmap (s : SparseMem) (guest size : U32) : Bool × SparseMem :=
  let at_ := s.upperBound guest
  if at_ = 0 then
    (false, s)
  else if (s.mapping (at_ - 1)).guest ≠ guest ∨ (s.mapping (at_ - 1)).size ≠ size then
    (false, s)
  else
    (true, { s with mappings := s.mappings.take (at_ - 1) ++ s.mappings.drop at_ })

def spanAccess (s : SparseMem) (guest max access : U32) : Span :=
  let at_ := s.upperBound guest
  if max = 0 ∨ at_ = 0 then
    Span.refused
  else
    let m := s.mapping (at_ - 1)
    let offset := guest - m.guest
    if offset ≥ m.size ∨ m.access &&& access ≠ access then
      Span.refused
    else
      let available := m.size - offset
      ⟨if available < max then available else max, m.host + offset.toNat⟩

/-- The loop of `whole_span` with a 64-bit cursor; each round moves at least one byte. -/
def wholeSpanLoop (s : SparseMem) (stop : Nat) : Nat → Nat → Bool
  | 0, _ => false
  | fuel + 1, cursor =>
    if cursor < stop then
      let n := (s.spanAccess (BitVec.ofNat 32 cursor) (BitVec.ofNat 32 (stop - cursor)) 0).length
      if n = 0 then false else wholeSpanLoop s stop fuel (cursor + n.toNat)
    else
      true

def wholeSpan (s : SparseMem) (guest size : U32) : Bool :=
  if size = 0 ∨ guest.toNat + size.toNat > 2 ^ 32 then
    false
  else
    wholeSpanLoop s (guest.toNat + size.toNat) (size.toNat + 1) guest.toNat

/-- What one round of the loop of `change_range` appends for `m`: the part below `guest`,
the changed part unless it is removed, and the part from `stop` on. -/
def changed (guest : U32) (stop : Nat) (access : U32) (remove : Bool) (m : Mapping) :
    List Mapping :=
  let mStop := m.guest.toNat + m.size.toNat
  if mStop ≤ guest.toNat ∨ m.guest.toNat ≥ stop then
    [m]
  else
    (if m.guest < guest then [{ m with size := guest - m.guest }] else []) ++
    (if remove then []
     else
      let first := if m.guest < guest then guest else m.guest
      [{ m with
          guest := first
          host := m.host + (first - m.guest).toNat
          size := BitVec.ofNat 32 ((if mStop < stop then mStop else stop) - first.toNat)
          access := access }]) ++
    (if mStop > stop then
      [{ m with
          guest := BitVec.ofNat 32 stop
          host := m.host + (stop - m.guest.toNat)
          size := BitVec.ofNat 32 (mStop - stop) }]
     else [])

/-- The table is rebuilt in a buffer of `count + 2` entries and published whole. -/
def changeRange (abi : HostAbi) (s : SparseMem) (guest size access : U32) (remove : Bool)
    (mallocOk : Bool) : Bool × SparseMem :=
  let stop := guest.toNat + size.toNat
  if access &&& ~~~(memRead ||| memWrite) ≠ 0 ∨ size = 0 ∨ stop > 2 ^ 32 ∨
      (!remove && !s.wholeSpan guest size) = true ∨
      s.count > abi.sizeMax / abi.mappingBytes - 2 then
    (false, s)
  else if !mallocOk then
    (false, s)
  else
    (true, { s with
      mappings := s.mappings.flatMap (changed guest stop access remove)
      capacity := s.count + 2 })

def protect (abi : HostAbi) (s : SparseMem) (guest size access : U32) (mallocOk : Bool) :
    Bool × SparseMem :=
  s.changeRange abi guest size access false mallocOk

def unmapRange (abi : HostAbi) (s : SparseMem) (guest size : U32) (mallocOk : Bool) :
    Bool × SparseMem :=
  s.changeRange abi guest size 0 true mallocOk

/-- The loop of `sparse_resolve`: `i` is `at`, and `start` is 0 until the first range gives
it. Every round moves to the next range, so `count` rounds are enough. -/
def resolveLoop (s : SparseMem) (allocation : U64) (guest access : U32) (stop : Nat) :
    Nat → Nat → Nat → Nat → Option Nat
  | 0, cursor, _, start => if cursor ≠ stop then none else some start
  | fuel + 1, cursor, i, start =>
    if cursor < stop ∧ i ≤ s.count then
      let m := s.mapping (i - 1)
      let offset := BitVec.ofNat 32 cursor - m.guest
      if cursor < m.guest.toNat ∨ offset ≥ m.size ∨ m.allocation ≠ allocation ∨
          m.access &&& access ≠ access then
        none
      else if start ≠ 0 ∧ m.host + offset.toNat ≠ start + (cursor - guest.toNat) then
        none
      else
        let available := (m.size - offset).toNat
        resolveLoop s allocation guest access stop fuel
          (cursor + if available < stop - cursor then available else stop - cursor) (i + 1)
          (if start = 0 then m.host + offset.toNat else start)
    else
      if cursor ≠ stop then none else some start

/-- A whole range as host bytes: ranges of one allocation that follow each other on the
host as they do in the guest. -/
def resolve (s : SparseMem) (guest size access : U32) : Option Nat :=
  let stop := guest.toNat + size.toNat
  let at_ := s.upperBound guest
  if size = 0 ∨ stop > 2 ^ 32 ∨ at_ = 0 then
    none
  else
    s.resolveLoop (s.mapping (at_ - 1)).allocation guest access stop (s.count + 1) guest.toNat at_ 0

end SparseMem

end X86Port.Memory
