import Mathlib.Data.List.Pairwise
import X86Port.Jit.Room

/-!
# Native code storage

`jit_storage_native.c`: machine code written at a bump pointer into chunks of code memory. Code
regions and the translator are answers to the operations. Sizes are natural numbers; the one sum
of `size_t` that can wrap is taken modulo `2 ^ 64`.

* `Reached.inv`: what every run of translations and resets keeps.
* `native_storage_iff`: live blocks never overlap, and the capacity is honoured exactly when the
  chunk size divides it.
* `nativeStorage_bounded`: an engine makes room in it.
-/

namespace X86Port.Jit

/-! ## Chunks and blocks -/

def minBlockBytes : Nat := 32 + 384 + 640

def chunkMaxBytes : Nat := 32 <<< 20

def chunksPerCapacity : Nat := 16

def chunkMaxSlack : Nat := 64 <<< 10

/-- A code region: where it is written, where it runs, and its size. -/
structure CodeRegion where
  write : Nat
  exec : Nat
  size : Nat
deriving DecidableEq, Inhabited

/-- The regions made so far are `chunks`. -/
structure NativeStorage where
  chunks : List CodeRegion
  chunkLimit : Nat
  chunkBytes : Nat
  chunkSlack : Nat
  current : Nat
  used : Nat
  retiredBytes : Nat
  capacity : Nat

/-- Where a block runs, and how many bytes it has. -/
structure NativeBlock where
  entry : Nat
  hostBytes : Nat
deriving DecidableEq

/-- What the surroundings answer during one translation: a region of the size asked for, the
write window, the bytes translated at an address with so much space, and the publication. -/
structure NativeAnswers where
  region : Nat → Option CodeRegion
  window : Bool
  translate : Nat → Nat → Except JitStatus Nat
  published : Bool

namespace NativeStorage

def chunkBytesOf (capacity : Nat) : Nat :=
  let bytes := capacity / chunksPerCapacity
  let bytes :=
    if bytes < minBlockBytes then
      if capacity < minBlockBytes then capacity else minBlockBytes
    else bytes
  if bytes > chunkMaxBytes then chunkMaxBytes else bytes

def chunkSlackOf (bytes : Nat) : Nat :=
  let slack := if bytes / 8 < chunkMaxSlack then bytes / 8 else chunkMaxSlack
  if slack < minBlockBytes then minBlockBytes else slack

def chunkLimitOf (capacity bytes : Nat) : Nat :=
  if bytes ≠ 0 then (capacity + bytes - 1) % 2 ^ 64 / bytes else 0

/-- `alloc` is whether both allocations succeed. -/
def create (capacity : Nat) (alloc : Bool) (region : Nat → Option CodeRegion) :
    Option NativeStorage :=
  let bytes := chunkBytesOf capacity
  if !alloc then
    none
  else
    (region bytes).map fun first =>
      { chunks := [first]
        chunkLimit := chunkLimitOf capacity bytes
        chunkBytes := bytes
        chunkSlack := chunkSlackOf bytes
        current := 0
        used := 0
        retiredBytes := 0
        capacity := capacity }

def chunk (s : NativeStorage) : CodeRegion := s.chunks.getD s.current default

def chunkLeft (s : NativeStorage) : Nat := s.chunk.size - s.used

def room (s : NativeStorage) : StorageRoom :=
  if s.chunkLeft ≥ minBlockBytes ∨ s.current + 1 < s.chunkLimit then .room else .outOfBytes

/-- `x86p_jit_storage_used`. -/
def usedBytes (s : NativeStorage) : Nat := s.retiredBytes + s.used

def reset (s : NativeStorage) : NativeStorage :=
  { s with current := 0, used := 0, retiredBytes := 0 }

def advance (s : NativeStorage) : NativeStorage :=
  { s with retiredBytes := s.retiredBytes + s.used, current := s.current + 1, used := 0 }

/-- `none` where a chunk is needed and cannot be made. -/
def ensureChunk (s : NativeStorage) (region : Nat → Option CodeRegion) : Option NativeStorage :=
  if s.chunkLeft ≥ s.chunkSlack ∨ s.current + 1 ≥ s.chunkLimit then
    some s
  else if s.current + 1 = s.chunks.length then
    (region s.chunkBytes).map fun made => { s with chunks := s.chunks ++ [made] }.advance
  else
    some s.advance

/-- The space the translator is given, if it is reached. -/
def given (s : NativeStorage) (w : NativeAnswers) : Option Nat :=
  (s.ensureChunk w.region).bind fun s => if w.window then some s.chunkLeft else none

def translate (s : NativeStorage) (w : NativeAnswers) :
    Except JitStatus NativeBlock × NativeStorage :=
  match s.ensureChunk w.region with
  | none => (.error .outOfSpace, s)
  | some s =>
    if !w.window then
      (.error .outOfSpace, s)
    else
      let status := w.translate (s.chunk.write + s.used) s.chunkLeft
      if !w.published then
        (.error .outOfSpace, s)
      else
        match status with
        | .error why => (.error why, s)
        | .ok bytes => (.ok ⟨s.chunk.exec + s.used, bytes⟩, { s with used := s.used + bytes })

end NativeStorage

/-! ## Runs -/

/-- Two regions run at addresses apart. -/
def CodeRegion.Apart (c d : CodeRegion) : Prop :=
  c.exec + c.size ≤ d.exec ∨ d.exec + d.size ≤ c.exec

def NativeBlock.Disjoint (a b : NativeBlock) : Prop :=
  a.entry + a.hostBytes ≤ b.entry ∨ b.entry + b.hostBytes ≤ a.entry

/-- A region has the size asked for and lies apart from those there are, and the translator
stays within the space it is given. -/
structure NativeAnswers.Sound (s : NativeStorage) (w : NativeAnswers) : Prop where
  sized : ∀ n r, w.region n = some r → r.size = n
  fresh : ∀ n r, w.region n = some r → ∀ c ∈ s.chunks, c.Apart r
  within : ∀ at_ space n, w.translate at_ space = .ok n → n ≤ space

/-- The blocks since the last reset, after one more translation. -/
def withResult (blocks : List NativeBlock) : Except JitStatus NativeBlock → List NativeBlock
  | .error _ => blocks
  | .ok b => b :: blocks

/-- The storages that translations and resets reach from a new one of a capacity, with the blocks
returned since the last reset. -/
inductive Reached (capacity : Nat) : NativeStorage → List NativeBlock → Prop
  | create {alloc : Bool} {region : Nat → Option CodeRegion} {s : NativeStorage}
      (sized : ∀ n r, region n = some r → r.size = n)
      (made : NativeStorage.create capacity alloc region = some s) : Reached capacity s []
  | translate {s : NativeStorage} {blocks : List NativeBlock} (w : NativeAnswers)
      (before : Reached capacity s blocks) (sound : w.Sound s) :
      Reached capacity (s.translate w).2 (withResult blocks (s.translate w).1)
  | reset {s : NativeStorage} {blocks : List NativeBlock} (before : Reached capacity s blocks) :
      Reached capacity s.reset []

/-- What every operation keeps. -/
structure NativeInv (capacity : Nat) (s : NativeStorage) (blocks : List NativeBlock) : Prop where
  capacity_eq : s.capacity = capacity
  bytes : s.chunkBytes = NativeStorage.chunkBytesOf capacity
  slack : s.chunkSlack = NativeStorage.chunkSlackOf s.chunkBytes
  limit : s.chunkLimit = NativeStorage.chunkLimitOf capacity s.chunkBytes
  sized : ∀ c ∈ s.chunks, c.size = s.chunkBytes
  apart : s.chunks.Pairwise CodeRegion.Apart
  current : s.current < s.chunks.length
  made : s.chunks.length ≤ max 1 s.chunkLimit
  used : s.used ≤ s.chunkBytes
  retired : s.retiredBytes ≤ s.current * s.chunkBytes
  placed : ∀ b ∈ blocks, ∃ i ≤ s.current, ∃ c, s.chunks[i]? = some c ∧ c.exec ≤ b.entry ∧
    b.entry + b.hostBytes ≤ c.exec + if i = s.current then s.used else c.size
  disjoint : blocks.Pairwise NativeBlock.Disjoint
  sum : (blocks.map NativeBlock.hostBytes).sum = s.usedBytes

namespace NativeStorage

section

variable {capacity : Nat} {s s' : NativeStorage} {blocks : List NativeBlock} {w : NativeAnswers}

theorem minBlockBytes_le_chunkBytesOf (h : minBlockBytes ≤ capacity) :
    minBlockBytes ≤ chunkBytesOf capacity := by
  unfold chunkBytesOf
  dsimp only
  have hmax : minBlockBytes ≤ chunkMaxBytes := by decide
  split_ifs <;> omega

theorem minBlockBytes_le_chunkSlackOf (bytes : Nat) : minBlockBytes ≤ chunkSlackOf bytes := by
  unfold chunkSlackOf
  dsimp only
  split_ifs <;> omega

theorem getElem?_chunk (h : NativeInv capacity s blocks) :
    s.chunks[s.current]? = some s.chunk := by
  unfold chunk
  rw [List.getD_eq_getElem?_getD, List.getElem?_eq_getElem h.current, Option.getD_some]

theorem chunk_size (h : NativeInv capacity s blocks) : s.chunk.size = s.chunkBytes :=
  h.sized _ (List.mem_of_getElem? (getElem?_chunk h))

/-! ## Each operation -/

theorem create_inv {alloc : Bool} {region : Nat → Option CodeRegion}
    (sized : ∀ n r, region n = some r → r.size = n) (h : create capacity alloc region = some s) :
    NativeInv capacity s [] := by
  unfold create at h
  dsimp only at h
  split_ifs at h
  obtain ⟨first, hfirst, rfl⟩ := Option.map_eq_some_iff.mp h
  exact
    { capacity_eq := rfl, bytes := rfl, slack := rfl, limit := rfl
      sized := fun c hc => by
        rw [List.mem_singleton.mp hc]
        exact sized _ _ hfirst
      apart := List.pairwise_singleton _ _
      current := Nat.zero_lt_one
      made := Nat.le_max_left _ _
      used := Nat.zero_le _
      retired := Nat.zero_le _
      placed := fun b hb => by cases hb
      disjoint := List.Pairwise.nil
      sum := rfl }

theorem reset_inv (h : NativeInv capacity s blocks) : NativeInv capacity s.reset [] :=
  { h with
    current := Nat.zero_lt_of_lt h.current
    used := Nat.zero_le _
    retired := Nat.zero_le _
    placed := fun b hb => by cases hb
    disjoint := List.Pairwise.nil
    sum := rfl }

theorem append_inv (h : NativeInv capacity s blocks) {made : CodeRegion}
    (hsize : made.size = s.chunkBytes) (hapart : ∀ c ∈ s.chunks, c.Apart made)
    (hlimit : s.chunks.length < s.chunkLimit) :
    NativeInv capacity { s with chunks := s.chunks ++ [made] } blocks :=
  { h with
    sized := fun c hc => by
      rcases List.mem_append.mp hc with hc | hc
      · exact h.sized c hc
      · rw [List.mem_singleton.mp hc]
        exact hsize
    apart := by
      refine List.pairwise_append.mpr ⟨h.apart, List.pairwise_singleton _ _, fun c hc d hd => ?_⟩
      rw [List.mem_singleton.mp hd]
      exact hapart c hc
    current := by
      have := h.current
      dsimp only
      rw [List.length_append]
      omega
    made := by
      dsimp only
      rw [List.length_append, List.length_singleton]
      omega
    placed := fun b hb => by
      obtain ⟨i, hi, c, hc, hrest⟩ := h.placed b hb
      have hlt := (List.getElem?_eq_some_iff.mp hc).1
      exact ⟨i, hi, c, (List.getElem?_append_left hlt).trans hc, hrest⟩ }

theorem advance_inv (h : NativeInv capacity s blocks) (hnext : s.current + 1 < s.chunks.length) :
    NativeInv capacity s.advance blocks :=
  { h with
    current := hnext
    used := Nat.zero_le _
    retired := by
      have := h.used
      have := h.retired
      change s.retiredBytes + s.used ≤ (s.current + 1) * s.chunkBytes
      rw [Nat.add_mul, Nat.one_mul]
      omega
    placed := fun b hb => by
      obtain ⟨i, hi, c, hc, hlo, hhi⟩ := h.placed b hb
      have hsize := h.sized c (List.mem_of_getElem? hc)
      have hused := h.used
      refine ⟨i, Nat.le_succ_of_le hi, c, hc, hlo, ?_⟩
      change _ ≤ c.exec + if i = s.current + 1 then 0 else c.size
      rw [if_neg (by omega)]
      split_ifs at hhi <;> omega
    sum := h.sum }

/-- Moving on leaves the count of used bytes as it is. -/
theorem ensureChunk_inv (h : NativeInv capacity s blocks) (hw : w.Sound s)
    (hs' : s.ensureChunk w.region = some s') :
    NativeInv capacity s' blocks ∧ s'.usedBytes = s.usedBytes := by
  unfold ensureChunk at hs'
  split_ifs at hs' with hstay hlast
  · rw [← Option.some.inj hs']
    exact ⟨h, rfl⟩
  · obtain ⟨made, hmade, rfl⟩ := Option.map_eq_some_iff.mp hs'
    rw [not_or] at hstay
    have hinv := append_inv h (hw.sized _ _ hmade) (hw.fresh _ _ hmade) (by omega)
    refine ⟨advance_inv hinv ?_, rfl⟩
    dsimp only
    rw [List.length_append, List.length_singleton]
    omega
  · rw [← Option.some.inj hs']
    have := h.current
    exact ⟨advance_inv h (by omega), rfl⟩

/-- A block at the bump pointer lies behind those of its chunk and apart from those of others. -/
theorem block_inv (h : NativeInv capacity s blocks) {bytes : Nat} (hbytes : bytes ≤ s.chunkLeft) :
    NativeInv capacity { s with used := s.used + bytes }
      (⟨s.chunk.exec + s.used, bytes⟩ :: blocks) := by
  have hchunk := getElem?_chunk h
  have hsize := chunk_size h
  have hused := h.used
  unfold chunkLeft at hbytes
  refine { h with used := ?_, placed := ?_, disjoint := ?_, sum := ?_ }
  · dsimp only
    omega
  · intro b hb
    rcases List.mem_cons.mp hb with rfl | hb
    · exact ⟨s.current, Nat.le_refl _, s.chunk, hchunk, Nat.le_add_right _ _, by
        dsimp only
        rw [if_pos rfl]
        omega⟩
    · obtain ⟨i, hi, c, hc, hlo, hhi⟩ := h.placed b hb
      refine ⟨i, hi, c, hc, hlo, hhi.trans ?_⟩
      dsimp only
      split_ifs <;> omega
  · refine List.pairwise_cons.mpr ⟨fun b hb => ?_, h.disjoint⟩
    obtain ⟨i, hi, c, hc, hlo, hhi⟩ := h.placed b hb
    unfold NativeBlock.Disjoint
    dsimp only
    by_cases hcur : i = s.current
    · subst hcur
      rw [hchunk] at hc
      rw [if_pos rfl] at hhi
      rw [Option.some.inj hc]
      omega
    · rw [if_neg hcur] at hhi
      obtain ⟨hilt, rfl⟩ := List.getElem?_eq_some_iff.mp hc
      have hapart : s.chunks[i].Apart s.chunk := by
        obtain ⟨hclt, hceq⟩ := List.getElem?_eq_some_iff.mp hchunk
        rw [← hceq]
        exact List.pairwise_iff_getElem.mp h.apart i s.current hilt hclt (by omega)
      unfold CodeRegion.Apart at hapart
      omega
  · rw [List.map_cons, List.sum_cons, h.sum]
    unfold usedBytes
    dsimp only
    omega

theorem translate_inv (h : NativeInv capacity s blocks) (hw : w.Sound s) :
    NativeInv capacity (s.translate w).2 (withResult blocks (s.translate w).1) := by
  unfold NativeStorage.translate
  cases hensure : s.ensureChunk w.region with
  | none => exact h
  | some s' =>
    have hs' := (ensureChunk_inv h hw hensure).1
    dsimp only
    split_ifs
    · exact hs'
    · exact hs'
    · cases hstatus : w.translate (s'.chunk.write + s'.used) s'.chunkLeft with
      | error why => exact hs'
      | ok bytes => exact block_inv hs' (hw.within _ _ _ hstatus)

theorem usedBytes_translate (h : NativeInv capacity s blocks) (hw : w.Sound s) {why : JitStatus}
    (hfailed : (s.translate w).1 = .error why) : (s.translate w).2.usedBytes = s.usedBytes := by
  unfold translate at hfailed ⊢
  cases hensure : s.ensureChunk w.region with
  | none => rfl
  | some s' =>
    have hs' := (ensureChunk_inv h hw hensure).2
    rw [hensure] at hfailed
    dsimp only at hfailed ⊢
    split_ifs with hwindow hpublished
    · exact hs'
    · exact hs'
    · rw [if_neg hwindow, if_neg hpublished] at hfailed
      cases hstatus : w.translate (s'.chunk.write + s'.used) s'.chunkLeft with
      | error why => exact hs'
      | ok bytes =>
        rw [hstatus] at hfailed
        cases hfailed

/-- Where there is room, only a chunk that cannot be made or a refused window keeps the translator
from its least space. -/
theorem given_of_room (hmin : minBlockBytes ≤ capacity) (h : NativeInv capacity s blocks)
    (hw : w.Sound s) (hroom : s.room = .room) :
    s.ensureChunk w.region = none ∨ w.window = false ∨
      ∃ space, s.given w = some space ∧ minBlockBytes ≤ space := by
  cases hensure : s.ensureChunk w.region with
  | none => exact Or.inl rfl
  | some s' =>
    have hinv := (ensureChunk_inv h hw hensure).1
    have hbytes : minBlockBytes ≤ s'.chunkBytes := by
      rw [hinv.bytes]
      exact minBlockBytes_le_chunkBytesOf hmin
    have hfresh : s'.used = 0 → minBlockBytes ≤ s'.chunkLeft := by
      intro hzero
      unfold chunkLeft
      rw [chunk_size hinv, hzero]
      exact hbytes
    have hleft : minBlockBytes ≤ s'.chunkLeft := by
      unfold ensureChunk at hensure
      split_ifs at hensure with hstay
      · rw [← Option.some.inj hensure]
        have hslack := minBlockBytes_le_chunkSlackOf s.chunkBytes
        rw [← h.slack] at hslack
        unfold room at hroom
        split_ifs at hroom with hhas
        omega
      · obtain ⟨made, -, rfl⟩ := Option.map_eq_some_iff.mp hensure
        exact hfresh rfl
      · exact hfresh (by rw [← Option.some.inj hensure]; rfl)
    cases hwindow : w.window with
    | false => exact Or.inr (Or.inl rfl)
    | true =>
      refine Or.inr (Or.inr ⟨_, ?_, hleft⟩)
      unfold given
      rw [hensure, Option.bind_some, hwindow, if_pos rfl]

/-! ## The ceiling -/

/-- What is used never passes the end of the current chunk. -/
theorem usedBytes_le (h : NativeInv capacity s blocks) :
    s.usedBytes ≤ (s.current + 1) * s.chunkBytes := by
  have := h.used
  have := h.retired
  unfold usedBytes
  rw [Nat.add_mul, Nat.one_mul]
  omega

theorem ensureChunk_eq_none {region : Nat → Option CodeRegion} (h : s.ensureChunk region = none) :
    region s.chunkBytes = none := by
  unfold ensureChunk at h
  split_ifs at h
  exact Option.map_eq_none_iff.mp h

theorem usedBytes_le_made (h : NativeInv capacity s blocks) :
    s.usedBytes ≤ max 1 s.chunkLimit * s.chunkBytes :=
  (usedBytes_le h).trans (Nat.mul_le_mul_right _ (h.current.trans_le h.made))

end

end NativeStorage

theorem Reached.inv {capacity : Nat} {s : NativeStorage} {blocks : List NativeBlock}
    (h : Reached capacity s blocks) : NativeInv capacity s blocks := by
  induction h with
  | create sized made => exact NativeStorage.create_inv sized made
  | translate w before sound ih => exact NativeStorage.translate_inv ih sound
  | reset before ih => exact NativeStorage.reset_inv ih

/-! ## The storage of an engine -/

/-- What a translation reads: the answers it gets, and what the translator records of a block and
of the leaf sites it took. -/
structure NativeReads where
  answers : U32 → Option (Nat × Nat) → NativeAnswers
  record : U32 → JitBlock
  leafSites : U32 → Nat

/-- Nothing is evicted, and an invalidation reclaims nothing. -/
def nativeStorage : BlockStorage NativeStorage NativeReads where
  room := NativeStorage.room
  used := NativeStorage.usedBytes
  evict := fun s => (0, [], s)
  reset := NativeStorage.reset
  invalidate := fun s _ _ => s
  translate := fun s reads eip pool =>
    let (result, s) := s.translate (reads.answers eip pool)
    (match result with
      | .error status => ⟨.error status, 0, 0⟩
      | .ok b =>
        ⟨.ok ({ reads.record eip with entry := some b.entry, hostBytes := b.hostBytes }, b.entry),
          (reads.record eip).chainExits, reads.leafSites eip⟩, s)

/-- The first chunk takes a least block. -/
def NativeStorage.FirstFits (s : NativeStorage) : Prop :=
  ∃ first ∈ s.chunks.head?, minBlockBytes ≤ first.size

theorem Reached.firstFits {capacity : Nat} (hmin : minBlockBytes ≤ capacity) {s : NativeStorage}
    {blocks : List NativeBlock} (h : Reached capacity s blocks) : s.FirstFits := by
  have hinv := h.inv
  cases hchunks : s.chunks with
  | nil =>
    have := hinv.current
    rw [hchunks] at this
    exact absurd this (Nat.not_lt_zero _)
  | cons first rest =>
    refine ⟨first, by rw [hchunks]; rfl, ?_⟩
    rw [hinv.sized first (by rw [hchunks]; exact List.mem_cons_self), hinv.bytes]
    exact NativeStorage.minBlockBytes_le_chunkBytesOf hmin

theorem NativeStorage.ensureChunk_firstFits {s s' : NativeStorage}
    {region : Nat → Option CodeRegion} (h : s.FirstFits) (hs' : s.ensureChunk region = some s') :
    s'.FirstFits := by
  obtain ⟨first, hfirst, hsize⟩ := h
  unfold ensureChunk at hs'
  split_ifs at hs'
  · exact Option.some.inj hs' ▸ ⟨first, hfirst, hsize⟩
  · obtain ⟨made, -, rfl⟩ := Option.map_eq_some_iff.mp hs'
    refine ⟨first, ?_, hsize⟩
    change first ∈ (s.chunks ++ [made]).head?
    rw [List.head?_append, hfirst]
    rfl
  · exact Option.some.inj hs' ▸ ⟨first, hfirst, hsize⟩

theorem NativeStorage.translate_firstFits {s : NativeStorage} (h : s.FirstFits)
    (w : NativeAnswers) : (s.translate w).2.FirstFits := by
  unfold NativeStorage.translate
  cases hensure : s.ensureChunk w.region with
  | none => exact h
  | some s' =>
    have hs' := ensureChunk_firstFits h hensure
    dsimp only
    split_ifs
    · exact hs'
    · exact hs'
    · split <;> exact hs'

theorem nativeStorage_bounded : nativeStorage.Bounded NativeStorage.FirstFits where
  evict := fun _ h => h
  reset := fun _ h => h
  invalidate := fun _ _ _ h => h
  translate := fun _ reads eip pool h => NativeStorage.translate_firstFits h (reads.answers eip pool)
  room := by
    rintro s ⟨first, hfirst, hsize⟩
    refine if_pos (.inl ?_)
    obtain ⟨rest, hchunks⟩ := List.head?_eq_some_iff.mp hfirst
    change minBlockBytes ≤ (s.chunks.getD 0 default).size - 0
    rw [hchunks]
    exact hsize

/-- An engine over native code ends making room. -/
theorem native_makes_room {κ ω : Type} {m : Machine κ NativeStorage ω NativeReads}
    (hm : m.storage = nativeStorage) {capacity : Nat} (hmin : minBlockBytes ≤ capacity)
    {e : Engine κ NativeStorage} {blocks : List NativeBlock}
    (h : Reached capacity e.storage blocks) : (e.evictForRoom m).isSome := by
  have hbounded : m.storage.Bounded NativeStorage.FirstFits := hm ▸ nativeStorage_bounded
  exact Engine.evictForRoom_isSome hbounded (h.firstFits hmin)

/-! ## Full chunks -/

section

variable {capacity : Nat}

open NativeStorage

theorem chunkBytesOf_le (hmin : minBlockBytes ≤ capacity) : chunkBytesOf capacity ≤ capacity := by
  have := Nat.div_le_self capacity chunksPerCapacity
  unfold chunkBytesOf
  dsimp only
  split_ifs <;> omega

/-- The chunks that a capacity allows fit in it: their size divides it, or rounding it up to a
whole number of chunks passes `2 ^ 64`. -/
def ChunksFit (capacity : Nat) : Prop :=
  chunkBytesOf capacity ∣ capacity ∨ 2 ^ 64 ≤ capacity + chunkBytesOf capacity - 1

instance (capacity : Nat) : Decidable (ChunksFit capacity) := inferInstanceAs (Decidable (_ ∨ _))

theorem limit_mul_le (hmin : minBlockBytes ≤ capacity) (hmax : capacity < 2 ^ 64)
    (hfit : ChunksFit capacity) :
    max 1 (chunkLimitOf capacity (chunkBytesOf capacity)) * chunkBytesOf capacity ≤ capacity := by
  have hle := chunkBytesOf_le hmin
  have hpos := minBlockBytes_le_chunkBytesOf hmin
  have hzero : 0 < minBlockBytes := by decide
  generalize hbytes : chunkBytesOf capacity = bytes at hle hpos hfit
  unfold ChunksFit at hfit
  rw [hbytes] at hfit
  unfold chunkLimitOf
  rw [if_pos (by omega)]
  rcases hfit with ⟨k, rfl⟩ | hwrap
  · have hk : (bytes * k + bytes - 1) % 2 ^ 64 / bytes ≤ k := by
      refine (Nat.div_le_div_right (Nat.mod_le _ _)).trans ?_
      rw [Nat.div_le_iff_le_mul_add_pred (by omega)]
      omega
    have hone : 1 ≤ k := by
      by_contra hk0
      rw [show k = 0 by omega] at hle
      omega
    rw [Nat.mul_comm]
    exact Nat.mul_le_mul_left bytes (Nat.max_le.mpr ⟨hone, hk⟩)
  · have hsmall : (capacity + bytes - 1) % 2 ^ 64 / bytes = 0 := by
      rw [Nat.div_eq_zero_iff]
      omega
    rw [hsmall, Nat.max_eq_left (Nat.zero_le 1), Nat.one_mul]
    exact hle

theorem lt_limit_mul (hmin : minBlockBytes ≤ capacity) (hfit : ¬ ChunksFit capacity) :
    capacity < chunkLimitOf capacity (chunkBytesOf capacity) * chunkBytesOf capacity := by
  have hpos := minBlockBytes_le_chunkBytesOf hmin
  have hzero : 0 < minBlockBytes := by decide
  unfold ChunksFit at hfit
  rw [not_or] at hfit
  generalize chunkBytesOf capacity = bytes at hpos hfit
  unfold chunkLimitOf
  rw [if_pos (by omega), Nat.mod_eq_of_lt (by omega)]
  have hdiv := Nat.div_add_mod (capacity + bytes - 1) bytes
  have hmod := Nat.mod_lt (capacity + bytes - 1) (show bytes > 0 by omega)
  refine Nat.lt_of_le_of_ne ?_ fun heq => hfit.1 ⟨_, heq.trans (Nat.mul_comm _ _)⟩
  rw [Nat.mul_comm]
  omega

/-- Every request is answered, and every block takes all of its space. -/
def greedy (start : Nat) : NativeAnswers where
  region := fun n => some ⟨start, start, n⟩
  window := true
  translate := fun _ space => .ok space
  published := true

/-- The chunks up to `k` are full, and lie below `(k + 1) * chunkBytes`. -/
structure Full (s : NativeStorage) (k : Nat) : Prop where
  current : s.current = k
  used : s.used = s.chunkBytes
  retired : s.retiredBytes = k * s.chunkBytes
  made : s.chunks.length = k + 1
  below : ∀ c ∈ s.chunks, c.exec + c.size ≤ (k + 1) * s.chunkBytes

theorem greedy_sound {s : NativeStorage} {start : Nat}
    (h : ∀ c ∈ s.chunks, c.exec + c.size ≤ start) : (greedy start).Sound s where
  sized := fun n r hr => by rw [← Option.some.inj hr]
  fresh := fun n r hr c hc => by
    rw [← Option.some.inj hr]
    exact Or.inl (h c hc)
  within := fun _ space n hn => by
    rw [Except.ok.inj hn]

theorem ensureChunk_stay {s : NativeStorage} {region : Nat → Option CodeRegion}
    (h : s.chunkSlack ≤ s.chunkLeft) : s.ensureChunk region = some s := if_pos (Or.inl h)

theorem greedy_translate {s s' : NativeStorage} {start : Nat}
    (h : s.ensureChunk (greedy start).region = some s') :
    (s.translate (greedy start)).2 = { s' with used := s'.used + s'.chunkLeft } := by
  unfold NativeStorage.translate
  rw [h]
  rfl

theorem reached_full_zero (hmin : minBlockBytes ≤ capacity) :
    ∃ s blocks, Reached capacity s blocks ∧ Full s 0 := by
  obtain ⟨s, hmade⟩ := Option.isSome_iff_exists.mp
    (show (create capacity true (greedy 0).region).isSome from rfl)
  have hreached : Reached capacity s [] :=
    Reached.create (fun n r hr => by rw [← Option.some.inj hr]) hmade
  obtain rfl := Option.some.inj hmade
  have hbelow : ∀ c ∈ [CodeRegion.mk 0 0 (chunkBytesOf capacity)],
      c.exec + c.size ≤ chunkBytesOf capacity := by
    intro c hc
    rw [List.mem_singleton.mp hc]
    exact (Nat.zero_add _).le
  refine ⟨_, _, Reached.translate (greedy _) hreached (greedy_sound hbelow), ?_⟩
  have hslack : chunkSlackOf (chunkBytesOf capacity) ≤ chunkBytesOf capacity := by
    have := minBlockBytes_le_chunkBytesOf hmin
    unfold chunkSlackOf
    dsimp only
    split_ifs <;> omega
  rw [greedy_translate (ensureChunk_stay hslack)]
  exact
    { current := rfl
      used := Nat.zero_add _
      retired := (Nat.zero_mul _).symm
      made := rfl
      below := fun c hc => by
        rw [Nat.zero_add, Nat.one_mul]
        exact hbelow c hc }

/-- A full chunk is left for the next one, and that one is filled. -/
theorem reached_full_succ {s : NativeStorage} {blocks : List NativeBlock} {k : Nat}
    (h : Reached capacity s blocks) (hs : Full s k) (hk : k + 1 < s.chunkLimit) :
    ∃ s' blocks', Reached capacity s' blocks' ∧ Full s' (k + 1) := by
  have hinv := h.inv
  have hslack := minBlockBytes_le_chunkSlackOf s.chunkBytes
  rw [← hinv.slack] at hslack
  have hmin : 0 < minBlockBytes := by decide
  have hfull : s.chunkLeft = 0 := by
    unfold chunkLeft
    rw [chunk_size hinv, hs.used, Nat.sub_self]
  have hcurrent := hs.current
  let start := (k + 1) * s.chunkBytes
  let made : CodeRegion := ⟨start, start, s.chunkBytes⟩
  have hensure : s.ensureChunk (greedy start).region =
      some { s with chunks := s.chunks ++ [made] }.advance := by
    unfold ensureChunk
    rw [if_neg (by omega), if_pos (by rw [hs.made, hcurrent])]
    rfl
  have hsound := greedy_sound (s := s) hs.below
  have hnext := (ensureChunk_inv hinv hsound hensure).1
  refine ⟨_, _, Reached.translate (greedy start) h hsound, ?_⟩
  rw [greedy_translate hensure]
  exact
    { current := by
        rw [← hcurrent]
        rfl
      used := by
        unfold chunkLeft
        rw [chunk_size hnext]
        exact Nat.zero_add _
      retired := by
        change s.retiredBytes + s.used = (k + 1) * s.chunkBytes
        rw [hs.retired, hs.used, Nat.add_mul, Nat.one_mul]
      made := by
        change (s.chunks ++ [made]).length = k + 1 + 1
        rw [List.length_append, hs.made, List.length_singleton]
      below := fun c hc => by
        change c.exec + c.size ≤ (k + 1 + 1) * s.chunkBytes
        rw [Nat.add_mul (k + 1), Nat.one_mul]
        rcases List.mem_append.mp hc with hc | hc
        · exact (hs.below c hc).trans (Nat.le_add_right _ _)
        · rw [List.mem_singleton.mp hc] }

theorem reached_full (capacity : Nat) (hmin : minBlockBytes ≤ capacity) {k : Nat}
    (hk : k < chunkLimitOf capacity (chunkBytesOf capacity)) :
    ∃ s blocks, Reached capacity s blocks ∧ Full s k := by
  induction k with
  | zero => exact reached_full_zero hmin
  | succ k ih =>
    obtain ⟨s, blocks, h, hs⟩ := ih (by omega)
    refine reached_full_succ h hs ?_
    rw [h.inv.limit, h.inv.bytes]
    exact hk

/-- For every capacity and in every run, the live blocks lie apart and inside their chunks, what is
used is the sum of their sizes, room is kept for a least block, and a translation that fails leaves
the count. The capacity is honoured in every run just where the chunks fit in it; in any run, up to
the first chunk that does not. -/
theorem native_storage_iff (hmin : minBlockBytes ≤ capacity) (hmax : capacity < 2 ^ 64) :
    (∀ s blocks, Reached capacity s blocks →
      blocks.Pairwise NativeBlock.Disjoint ∧
      (∀ b ∈ blocks, ∃ c ∈ s.chunks, c.exec ≤ b.entry ∧ b.entry + b.hostBytes ≤ c.exec + c.size) ∧
      s.usedBytes = (blocks.map NativeBlock.hostBytes).sum ∧
      ((s.current + 1) * chunkBytesOf capacity ≤ capacity → s.usedBytes ≤ capacity) ∧
      ∀ w : NativeAnswers, w.Sound s →
        (s.room = .room → w.region s.chunkBytes = none ∨ w.window = false ∨
          ∃ space, s.given w = some space ∧ minBlockBytes ≤ space) ∧
        ∀ why, (s.translate w).1 = .error why → (s.translate w).2.usedBytes = s.usedBytes) ∧
    ((∀ s blocks, Reached capacity s blocks → s.usedBytes ≤ capacity) ↔ ChunksFit capacity) := by
  refine ⟨fun s blocks h => ?_, ?_, ?_⟩
  · have hinv := h.inv
    refine ⟨hinv.disjoint, fun b hb => ?_, hinv.sum.symm, fun hend => ?_, fun w hw => ⟨?_, ?_⟩⟩
    · obtain ⟨i, -, c, hc, hlo, hhi⟩ := hinv.placed b hb
      have hmem := List.mem_of_getElem? hc
      have hsize := hinv.sized c hmem
      have hused := hinv.used
      refine ⟨c, hmem, hlo, hhi.trans ?_⟩
      split_ifs <;> omega
    · rw [← hinv.bytes] at hend
      exact (usedBytes_le hinv).trans hend
    · intro hroom
      exact (given_of_room hmin hinv hw hroom).imp_left ensureChunk_eq_none
    · exact fun why hfailed => usedBytes_translate hinv hw hfailed
  · intro hceiling
    by_contra hfit
    have hover := lt_limit_mul hmin hfit
    have hpos : 0 < chunkLimitOf capacity (chunkBytesOf capacity) := by
      by_contra hzero
      rw [show chunkLimitOf capacity (chunkBytesOf capacity) = 0 by omega] at hover
      omega
    obtain ⟨s, blocks, h, hs⟩ := reached_full capacity hmin
      (show chunkLimitOf capacity (chunkBytesOf capacity) - 1 <
        chunkLimitOf capacity (chunkBytesOf capacity) by omega)
    have hle := hceiling s blocks h
    unfold usedBytes at hle
    rw [hs.retired, hs.used, ← Nat.succ_mul, h.inv.bytes, Nat.succ_eq_add_one,
      Nat.sub_add_cancel hpos] at hle
    omega
  · intro hfit s blocks h
    have hinv := h.inv
    have hle := usedBytes_le_made hinv
    rw [hinv.limit, hinv.bytes] at hle
    exact hle.trans (limit_mul_le hmin hmax hfit)

/-- Sixteen chunks of 2 MiB are the capacity. -/
theorem thirtyTwoMegabytes_honoured :
    (∀ s blocks, Reached 0x2000000 s blocks → s.usedBytes ≤ 0x2000000) ∧
      ∃ s blocks, Reached 0x2000000 s blocks ∧ s.usedBytes = 0x2000000 ∧
        blocks.Pairwise NativeBlock.Disjoint := by
  have hkept := native_storage_iff (show minBlockBytes ≤ 0x2000000 by decide) (by decide)
  obtain ⟨s, blocks, h, hs⟩ := reached_full 0x2000000 (by decide)
    (show 15 < chunkLimitOf 0x2000000 (chunkBytesOf 0x2000000) by decide)
  refine ⟨hkept.2.mpr (by decide), s, blocks, h, ?_, (hkept.1 s blocks h).1⟩
  unfold usedBytes
  rw [hs.retired, hs.used, h.inv.bytes]
  decide

/-- One byte more allows a seventeenth chunk. -/
theorem odd_capacity_exceeded :
    ∃ s blocks, Reached 0x2000001 s blocks ∧ s.usedBytes = 0x2000001 + 0x1FFFFF := by
  obtain ⟨s, blocks, h, hs⟩ := reached_full 0x2000001 (by decide)
    (show 16 < chunkLimitOf 0x2000001 (chunkBytesOf 0x2000001) by decide)
  refine ⟨s, blocks, h, ?_⟩
  unfold usedBytes
  rw [hs.retired, hs.used, h.inv.bytes]
  decide

end

end X86Port.Jit
