import X86Port.Cpu.Exec
import X86Port.Memory.Mem

/-!
# The decode cache

`decode_cache.c`, and the fetch and decode half of `x86p_step_cached`. The decoder is a
parameter.

* `Decoder.Prefixed`: what an instruction is depends only on the bytes it is made of.
* `decode_cache_transparent`: every lookup of a run answers as the decoder would, every slot in
  use decodes to its instruction, and the four counts add up to the lookups.
* `stepCached_transparent`: stepping with a cache is stepping without one.
-/

namespace X86Port.Cpu

open Memory (Mem Host readableSpan readBytes)

def maxInsnLen : Nat := 15

/-- The decoder under `x86p_decode`, and the length of an instruction. -/
structure Decoder (ι : Type) where
  full : List U8 → Option ι
  length : ι → Nat

namespace Decoder

variable {ι : Type}

/-- `x86p_decode` on a window. -/
def decode (d : Decoder ι) (bytes : List U8) : Option ι :=
  if bytes.length = 0 then
    none
  else
    let len := if bytes.length > maxInsnLen then maxInsnLen else bytes.length
    match d.full (bytes.take len) with
    | none => none
    | some insn => if d.length insn = 0 then none else some insn

/-- An instruction is made of a prefix of its window, and every window with that prefix gives
the same instruction. -/
def Prefixed (d : Decoder ι) : Prop :=
  ∀ bytes insn, d.decode bytes = some insn → d.length insn ≤ bytes.length ∧
    ∀ window, window.take (d.length insn) = bytes.take (d.length insn) →
      d.decode window = some insn

theorem decode_eq_some_iff (d : Decoder ι) (bytes : List U8) (insn : ι) :
    d.decode bytes = some insn ↔ bytes.length ≠ 0 ∧
      d.full (bytes.take maxInsnLen) = some insn ∧ d.length insn ≠ 0 := by
  have hlen : bytes.take (if bytes.length > maxInsnLen then maxInsnLen else bytes.length) =
      bytes.take maxInsnLen := by
    split_ifs with hlong
    · rfl
    · rw [List.take_length, List.take_of_length_le (by omega)]
  unfold decode
  dsimp only
  rw [hlen]
  by_cases h : bytes.length = 0
  · simp [h]
  · rw [if_neg h]
    cases hfull : d.full (bytes.take maxInsnLen) with
    | none => simp
    | some found =>
      dsimp only
      by_cases hzero : d.length found = 0
      · rw [if_pos hzero]
        constructor
        · intro hnone
          cases hnone
        · rintro ⟨-, hsome, hne⟩
          exact absurd (Option.some.inj hsome ▸ hzero) hne
      · rw [if_neg hzero]
        exact ⟨fun hsome => ⟨h, hsome, Option.some.inj hsome ▸ hzero⟩, fun hall => hall.2.1⟩

theorem decode_take (d : Decoder ι) (bytes : List U8) :
    d.decode (bytes.take maxInsnLen) = d.decode bytes := by
  ext insn
  rw [decode_eq_some_iff, decode_eq_some_iff, List.take_take, Nat.min_self, List.length_take]
  refine and_congr_left fun _ => ?_
  unfold maxInsnLen
  omega

theorem Prefixed.length_le {d : Decoder ι} (hd : d.Prefixed) {bytes : List U8} {insn : ι}
    (h : d.decode bytes = some insn) : d.length insn ≤ maxInsnLen := by
  rw [← decode_take] at h
  have hle := (hd _ insn h).1
  rw [List.length_take] at hle
  omega

end Decoder

/-! ## The cache -/

def decodeCacheSlots : Nat := 16384

/-- A slot in use, with the bytes compared on a hit. -/
structure DecodeCacheEntry (ι : Type) where
  eip : U32
  bytes : List U8
  insn : ι

/-- A slot that is not valid is `none`. -/
structure DecodeCache (ι : Type) where
  slot : Fin decodeCacheSlots → Option (DecodeCacheEntry ι)
  hits : U64
  cold : U64
  collisions : U64
  rewritten : U64

/-- Fibonacci hashing of the address. -/
def slotOf (eip : U32) : Fin decodeCacheSlots :=
  ⟨((eip * 2654435761#32) >>> 15 &&& 0x3FFF#32).toNat, by
    rw [BitVec.toNat_and]
    exact Nat.lt_succ_of_le Nat.and_le_right⟩

namespace DecodeCache

variable {ι : Type}

def reset : DecodeCache ι := ⟨fun _ => none, 0, 0, 0, 0⟩

def setSlot (cache : DecodeCache ι) (eip : U32) (e : Option (DecodeCacheEntry ι)) :
    DecodeCache ι :=
  { cache with slot := Function.update cache.slot (slotOf eip) e }

/-- The bytes of the entry stop the hit when they are not what the window starts with. -/
def Rewritten (e : DecodeCacheEntry ι) (bytes : List U8) : Prop :=
  e.bytes.length > bytes.length ∨ bytes.take e.bytes.length ≠ e.bytes

instance (e : DecodeCacheEntry ι) (bytes : List U8) : Decidable (Rewritten e bytes) :=
  inferInstanceAs (Decidable (_ ∨ _))

/-- The slot after a miss. -/
def refill (d : Decoder ι) (cache : DecodeCache ι) (eip : U32) (bytes : List U8) :
    Option ι × DecodeCache ι :=
  match d.decode bytes with
  | none => (none, cache.setSlot eip none)
  | some insn =>
    let length := if d.length insn ≤ maxInsnLen then d.length insn else maxInsnLen
    (some insn, cache.setSlot eip (some ⟨eip, bytes.take length, insn⟩))

def decodeCached (d : Decoder ι) (cache : DecodeCache ι) (eip : U32) (bytes : List U8) :
    Option ι × DecodeCache ι :=
  match cache.slot (slotOf eip) with
  | none => refill d { cache with cold := cache.cold + 1 } eip bytes
  | some e =>
    if e.eip ≠ eip then
      refill d { cache with collisions := cache.collisions + 1 } eip bytes
    else if Rewritten e bytes then
      refill d { cache with rewritten := cache.rewritten + 1 } eip bytes
    else
      (some e.insn, { cache with hits := cache.hits + 1 })

def lookups (cache : DecodeCache ι) : U64 :=
  cache.hits + cache.cold + cache.collisions + cache.rewritten

/-! ## The invariant -/

/-- Every slot in use holds bytes that decode to its instruction, all of them consumed. -/
def Valid (d : Decoder ι) (cache : DecodeCache ι) : Prop :=
  ∀ i e, cache.slot i = some e →
    d.decode e.bytes = some e.insn ∧ e.bytes.length = d.length e.insn

@[simp] theorem lookups_setSlot (cache : DecodeCache ι) (eip : U32)
    (e : Option (DecodeCacheEntry ι)) : (cache.setSlot eip e).lookups = cache.lookups := rfl

theorem valid_reset (d : Decoder ι) : (reset : DecodeCache ι).Valid d := by
  intro i e he
  exact absurd he (by simp [reset])

theorem Valid.setSlot {d : Decoder ι} {cache : DecodeCache ι} (h : cache.Valid d) (eip : U32)
    {new : Option (DecodeCacheEntry ι)}
    (hnew : ∀ e, new = some e → d.decode e.bytes = some e.insn ∧
      e.bytes.length = d.length e.insn) : (cache.setSlot eip new).Valid d := by
  intro i e he
  by_cases hi : i = slotOf eip
  · subst hi
    exact hnew e (by simpa [DecodeCache.setSlot] using he)
  · exact h i e (by simpa [DecodeCache.setSlot, Function.update_of_ne hi] using he)

theorem refill_valid {d : Decoder ι} (hd : d.Prefixed) {cache : DecodeCache ι}
    (h : cache.Valid d) (eip : U32) (bytes : List U8) :
    (refill d cache eip bytes).1 = d.decode bytes ∧ (refill d cache eip bytes).2.Valid d ∧
      (refill d cache eip bytes).2.lookups = cache.lookups := by
  unfold refill
  cases hdec : d.decode bytes with
  | none => exact ⟨rfl, h.setSlot eip (by simp), rfl⟩
  | some insn =>
    have hlen := hd.length_le hdec
    obtain ⟨hle, hsame⟩ := hd bytes insn hdec
    refine ⟨rfl, h.setSlot eip ?_, rfl⟩
    rintro e he
    obtain rfl := Option.some.inj he
    dsimp only
    rw [if_pos hlen]
    refine ⟨hsame _ ?_, ?_⟩
    · rw [List.take_take, Nat.min_self]
    · rw [List.length_take]
      omega

/-- One lookup. -/
theorem decodeCached_spec {d : Decoder ι} (hd : d.Prefixed) {cache : DecodeCache ι}
    (h : cache.Valid d) (eip : U32) (bytes : List U8) :
    (decodeCached d cache eip bytes).1 = d.decode bytes ∧
      (decodeCached d cache eip bytes).2.Valid d ∧
      (decodeCached d cache eip bytes).2.lookups = cache.lookups + 1 := by
  unfold decodeCached
  cases hslot : cache.slot (slotOf eip) with
  | none =>
    have hcounted : { cache with cold := cache.cold + 1 }.Valid d := h
    obtain ⟨hres, hvalid, hcount⟩ := refill_valid hd hcounted eip bytes
    refine ⟨hres, hvalid, hcount.trans ?_⟩
    simp only [lookups]
    bv_omega
  | some e =>
    dsimp only
    split_ifs with hcollide hrewritten
    · have hcounted : { cache with collisions := cache.collisions + 1 }.Valid d := h
      obtain ⟨hres, hvalid, hcount⟩ := refill_valid hd hcounted eip bytes
      refine ⟨hres, hvalid, hcount.trans ?_⟩
      simp only [lookups]
      bv_omega
    · have hcounted : { cache with rewritten := cache.rewritten + 1 }.Valid d := h
      obtain ⟨hres, hvalid, hcount⟩ := refill_valid hd hcounted eip bytes
      refine ⟨hres, hvalid, hcount.trans ?_⟩
      simp only [lookups]
      bv_omega
    · obtain ⟨hdec, hlen⟩ := h _ e hslot
      unfold Rewritten at hrewritten
      push Not at hrewritten
      -- the window starts with the bytes that were decoded, so it decodes to the same
      have hsame : d.decode bytes = some e.insn := by
        refine (hd _ _ hdec).2 bytes ?_
        rw [← hlen, hrewritten.2, List.take_length]
      refine ⟨hsame.symm, h, ?_⟩
      simp only [lookups]
      bv_omega

/-! ## Runs of lookups -/

/-- The answers of a run of lookups, each at an address with the window offered there. -/
def runLookups (d : Decoder ι) : DecodeCache ι → List (U32 × List U8) →
    List (Option ι) × DecodeCache ι
  | cache, [] => ([], cache)
  | cache, (eip, bytes) :: calls =>
    let (answer, cache) := decodeCached d cache eip bytes
    let (answers, cache) := runLookups d cache calls
    (answer :: answers, cache)

theorem runLookups_spec {d : Decoder ι} (hd : d.Prefixed) (calls : List (U32 × List U8))
    {cache : DecodeCache ι} (h : cache.Valid d) :
    (runLookups d cache calls).1 = calls.map (fun call => d.decode call.2) ∧
      (runLookups d cache calls).2.Valid d ∧
      (runLookups d cache calls).2.lookups =
        cache.lookups + BitVec.ofNat 64 calls.length := by
  induction calls generalizing cache with
  | nil => exact ⟨rfl, h, by simp [runLookups]⟩
  | cons call calls ih =>
    obtain ⟨hres, hvalid, hcount⟩ := decodeCached_spec hd h call.1 call.2
    obtain ⟨hrest, hend, hall⟩ := ih hvalid
    refine ⟨?_, hend, hall.trans ?_⟩
    · simp only [runLookups, List.map_cons, hres, hrest]
    · rw [hcount, List.length_cons]
      bv_omega

/-- The lookups of a cache that starts out empty are the decoder's answers. -/
theorem decode_cache_transparent {d : Decoder ι} (hd : d.Prefixed)
    (calls : List (U32 × List U8)) :
    (runLookups d reset calls).1 = calls.map (fun call => d.decode call.2) ∧
      (∀ i e, (runLookups d reset calls).2.slot i = some e → d.decode e.bytes = some e.insn) ∧
      (runLookups d reset calls).2.lookups = BitVec.ofNat 64 calls.length := by
  obtain ⟨hanswers, hvalid, hcount⟩ := runLookups_spec hd calls (valid_reset d)
  refine ⟨hanswers, fun i e he => (hvalid i e he).1, hcount.trans ?_⟩
  simp [reset, lookups]

/-- `MOV EAX, imm32`, by its immediate. -/
def movDecoder : Decoder U32 where
  full
    | 0xB8 :: b0 :: b1 :: b2 :: b3 :: _ => some (Memory.valueOf [b0, b1, b2, b3])
    | _ => none
  length := fun _ => 5

theorem movDecoder_decode (bytes : List U8) (insn : U32) :
    movDecoder.decode bytes = some insn ↔ ∃ b0 b1 b2 b3,
      bytes.take 5 = [0xB8, b0, b1, b2, b3] ∧ Memory.valueOf [b0, b1, b2, b3] = insn := by
  have hfull : ∀ window : List U8, movDecoder.full window = some insn ↔ ∃ b0 b1 b2 b3,
      window.take 5 = [0xB8, b0, b1, b2, b3] ∧ Memory.valueOf [b0, b1, b2, b3] = insn := by
    intro window
    constructor
    · intro h
      simp only [movDecoder] at h
      split at h
      · exact ⟨_, _, _, _, rfl, Option.some.inj h⟩
      · cases h
    · rintro ⟨b0, b1, b2, b3, hwindow, hinsn⟩
      rw [← List.take_append_drop 5 window, hwindow]
      exact congrArg some hinsn
  rw [Decoder.decode_eq_some_iff, hfull, List.take_take]
  constructor
  · rintro ⟨-, hsome, -⟩
    exact hsome
  · rintro ⟨b0, b1, b2, b3, hbytes, hinsn⟩
    refine ⟨?_, ⟨b0, b1, b2, b3, hbytes, hinsn⟩, Nat.succ_ne_zero 4⟩
    rintro hnil
    rw [List.eq_nil_of_length_eq_zero hnil] at hbytes
    cases hbytes

theorem movDecoder_prefixed : movDecoder.Prefixed := by
  intro bytes insn h
  obtain ⟨b0, b1, b2, b3, hbytes, hinsn⟩ := (movDecoder_decode bytes insn).mp h
  have hlen := congrArg List.length hbytes
  rw [List.length_take] at hlen
  refine ⟨by change 5 ≤ _; simp only [List.length_cons, List.length_nil] at hlen; omega, ?_⟩
  intro window hwindow
  exact (movDecoder_decode window insn).mpr ⟨b0, b1, b2, b3, hwindow.trans hbytes, hinsn⟩

theorem movDecoder_transparent :
    let calls := [(0x1000#32, [0xB8#8, 1, 0, 0, 0]), (0x1000#32, [0xB8#8, 2, 0, 0, 0]),
      (0x1000#32, [0xB8#8, 2])]
    (runLookups movDecoder reset calls).1 = [some 1, some 2, none] ∧
      (runLookups movDecoder reset calls).2.lookups = 3 := by
  obtain ⟨hanswers, -, hcount⟩ := decode_cache_transparent movDecoder_prefixed
    [(0x1000#32, [0xB8#8, 1, 0, 0, 0]), (0x1000#32, [0xB8#8, 2, 0, 0, 0]),
      (0x1000#32, [0xB8#8, 2])]
  exact ⟨hanswers.trans (by decide), hcount⟩

end DecodeCache

/-! ## Stepping with a cache -/

/-- What a step tells; the instruction stands for its length, mnemonic and operation. -/
structure StepReport (ι : Type) where
  status : StepStatus
  eip : U32
  insn : Option ι
  faultAddr : U32

/-- A processor over guest memory. `execute` is `x86p_execute_decoded`, with the address of a
fault. -/
structure Interpreter (σ ι : Type) where
  decoder : Decoder ι
  eip : σ → U32
  mem : σ → Mem
  host : σ → Host
  unsupported : ι → Bool
  execute : ι → σ → StepStatus × U32 × σ

namespace Interpreter

variable {σ ι : Type}

/-- `x86p_decode_cached`, which decodes every time when there is no cache. -/
def lookup (p : Interpreter σ ι) (cache : Option (DecodeCache ι)) (eip : U32)
    (bytes : List U8) : Option ι × Option (DecodeCache ι) :=
  match cache with
  | none => (p.decoder.decode bytes, none)
  | some cache =>
    let (insn, cache) := cache.decodeCached p.decoder eip bytes
    (insn, some cache)

/-- The step once the lookup has answered. -/
def stepDecoded (p : Interpreter σ ι) (s : σ) : Option ι → StepReport ι × σ
  | none => (⟨.decodeFailed, p.eip s, none, p.eip s⟩, s)
  | some insn =>
    if p.unsupported insn then
      (⟨.unsupported, p.eip s, some insn, 0⟩, s)
    else
      let (status, faultAddr, s') := p.execute insn s
      (⟨status, p.eip s, some insn, if status ≠ .ok then faultAddr else 0⟩, s')

/-- The window at the instruction: as much as is mapped, up to the longest instruction. -/
def fetch (p : Interpreter σ ι) (s : σ) : Option (Option (List U8)) :=
  (readableSpan (p.mem s) (p.eip s) (BitVec.ofNat 32 maxInsnLen)).bind fun avail =>
    if avail = 0 then some none else readBytes (p.mem s) (p.host s) (p.eip s) avail

def stepCached (p : Interpreter σ ι) (cache : Option (DecodeCache ι)) (s : σ) :
    Option ((StepReport ι × σ) × Option (DecodeCache ι)) :=
  (p.fetch s).map fun
    | none => ((⟨.fetchFault, p.eip s, none, p.eip s⟩, s), cache)
    | some bytes =>
      let (insn, cache) := p.lookup cache (p.eip s) bytes
      (p.stepDecoded s insn, cache)

/-- The reports of `n` steps, each taken whatever the one before it reported, and the state
they end in. -/
def steps (p : Interpreter σ ι) : Nat → Option (DecodeCache ι) → σ →
    Option (List (StepReport ι) × σ)
  | 0, _, s => some ([], s)
  | n + 1, cache, s =>
    (p.stepCached cache s).bind fun r =>
      (p.steps n r.2 r.1.2).map fun rest => (r.1.1 :: rest.1, rest.2)

/-- A step with a cache reports and does what the uncached step does. -/
theorem stepCached_eq (p : Interpreter σ ι) (hd : p.decoder.Prefixed) {cache : DecodeCache ι}
    (h : cache.Valid p.decoder) (s : σ) :
    (p.stepCached (some cache) s = none ∧ p.stepCached none s = none) ∨
      ∃ r, ∃ cache' : DecodeCache ι, cache'.Valid p.decoder ∧
        p.stepCached (some cache) s = some (r, some cache') ∧
        p.stepCached none s = some (r, none) := by
  unfold stepCached
  cases hfetch : p.fetch s with
  | none => exact Or.inl ⟨rfl, rfl⟩
  | some window =>
    right
    cases window with
    | none => exact ⟨_, cache, h, rfl, rfl⟩
    | some bytes =>
      obtain ⟨hanswer, hvalid, -⟩ := DecodeCache.decodeCached_spec hd h (p.eip s) bytes
      refine ⟨p.stepDecoded s (p.decoder.decode bytes), _, hvalid, ?_, rfl⟩
      rw [← hanswer]
      rfl

/-- Any number of steps over a cache that starts out empty is that many uncached steps. -/
theorem stepCached_transparent (p : Interpreter σ ι) (hd : p.decoder.Prefixed) (n : Nat)
    (s : σ) : p.steps n (some DecodeCache.reset) s = p.steps n none s := by
  have hrun : ∀ (n : Nat) (cache : DecodeCache ι) (s : σ), cache.Valid p.decoder →
      p.steps n (some cache) s = p.steps n none s := by
    intro n
    induction n with
    | zero => intros; rfl
    | succ n ih =>
      intro cache s h
      obtain ⟨hcached, hplain⟩ | ⟨r, cache', hvalid, hcached, hplain⟩ := p.stepCached_eq hd h s
      · simp only [steps, hcached, hplain, Option.bind_none]
      · simp only [steps, hcached, hplain, Option.bind_some, ih cache' r.2 hvalid]
  exact hrun n _ s (DecodeCache.valid_reset _)

end Interpreter

end X86Port.Cpu
