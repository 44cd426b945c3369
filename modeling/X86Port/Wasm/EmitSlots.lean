import X86Port.Wasm.Emit

/-!
# Size slots over a run

Sections and bodies opened inside one another, with plain writes between, in any order that
closes the innermost first.

* `Nested.Sound`: the slots that are open lie apart from those that have been closed, and every
  closed one spells its size.
* `run_sound`: this holds after every run.
-/

namespace X86Port.Wasm

open Lib (Bytes.load Bytes.store)
open Lib.Leb128 (readU padded)

open WasmEmit

/-- A region that is open: its slot, and whether it is a function body. -/
structure OpenRegion where
  isBody : Bool
  slot : Nat

/-- A slot that was closed, and where the buffer had got to. -/
structure ClosedRegion where
  slot : Nat
  stop : Nat

/-- An encoder, the regions that are open, innermost first, and those that were closed. -/
structure Nested where
  e : WasmEmit
  opened : List OpenRegion
  closed : List ClosedRegion

inductive SlotCall where
  | beginSection (id : U8)
  | beginBody
  | write (w : Write)
  | close

namespace Nested

def init (buf : Nat → U8) (cap : Nat) : Nested := ⟨.init buf cap, [], []⟩

/-- `x86p_wasm_size_end`, or for a body `x86p_wasm_body_end`. -/
def endRegion (e : WasmEmit) (r : OpenRegion) : WasmEmit :=
  if r.isBody then e.bodyEnd r.slot else e.sizeEnd r.slot

def step (n : Nested) : SlotCall → Nested
  | .beginSection id =>
    let (slot, e) := n.e.sectionBegin id
    { n with e := e, opened := ⟨false, slot⟩ :: n.opened }
  | .beginBody =>
    let (slot, e) := n.e.bodyBegin
    { n with e := e, opened := ⟨true, slot⟩ :: n.opened }
  | .write w => { n with e := n.e.write w }
  | .close =>
    match n.opened with
    | [] => n
    | r :: opened =>
      let e := endRegion n.e r
      { e := e, opened := opened,
        closed := if e.intact then ⟨r.slot, e.len⟩ :: n.closed else n.closed }

def run (n : Nested) (calls : List SlotCall) : Nested := calls.foldl step n

/-! ## The invariant -/

/-- The five bytes of a slot, read as the format reads a size. -/
def Decodes (buf : Nat → U8) (c : ClosedRegion) : Prop :=
  readU 32 (Bytes.load buf c.slot sizeWidth) = some (c.stop - (c.slot + sizeWidth), [])

structure Sound (n : Nested) : Prop where
  spelled : ∀ c ∈ n.closed, c.slot + sizeWidth ≤ c.stop ∧ c.stop ≤ n.e.len ∧ Decodes n.e.buf c
  reserved : n.e.overflow = false → ∀ r ∈ n.opened, r.slot + sizeWidth ≤ n.e.len
  inside : n.e.overflow = false → n.opened.Pairwise fun r s => s.slot + sizeWidth ≤ r.slot
  apart : n.e.overflow = false → ∀ r ∈ n.opened, ∀ c ∈ n.closed,
    r.slot + sizeWidth ≤ c.slot ∨ c.slot + sizeWidth ≤ r.slot

theorem Decodes.congr {buf buf' : Nat → U8} {c : ClosedRegion} (h : Decodes buf c)
    (hb : ∀ i, c.slot ≤ i → i < c.slot + sizeWidth → buf' i = buf i) : Decodes buf' c := by
  unfold Decodes
  rw [Lib.Bytes.load_congr hb]
  exact h

theorem decodes_padded (buf : Nat → U8) {slot stop : Nat}
    (h : stop - (slot + sizeWidth) < 2 ^ 32) :
    Decodes (Bytes.store buf slot (padded 4 (stop - (slot + sizeWidth)))) ⟨slot, stop⟩ := by
  have hload := Lib.Bytes.load_store buf slot (padded 4 (stop - (slot + sizeWidth)))
  have hwidth : stop - (slot + sizeWidth) < 128 ^ (4 + 1) := Nat.lt_trans h (by decide)
  have hread : readU 32 (padded 4 (stop - (slot + sizeWidth)) ++ []) = some (_, []) :=
    Lib.Leb128.readU_padded h hwidth (by decide)
  rw [Lib.Leb128.length_padded] at hload
  rw [List.append_nil] at hread
  exact (congrArg (readU 32) hload).trans hread

theorem sound_init (buf : Nat → U8) (cap : Nat) : (init buf cap).Sound where
  spelled := by simp [init]
  reserved := by simp [init]
  inside := by simp [init]
  apart := by simp [init]

/-- What appends keeps the closed slots, and what is reserved. -/
theorem Sound.appends {n : Nested} (h : n.Sound) {f : WasmEmit → WasmEmit} {p : List U8}
    (hf : Appends f p) : ({ n with e := f n.e } : Nested).Sound where
  spelled c hc := by
    obtain ⟨hslot, hstop, hdec⟩ := h.spelled c hc
    refine ⟨hslot, hstop.trans (hf.grows n.e), hdec.congr fun i _ hi => ?_⟩
    exact hf.keeps n.e i (.inl (by omega))
  reserved hover r hr :=
    (h.reserved (hf.adds n.e hover).1 r hr).trans (hf.grows n.e)
  inside hover := h.inside (hf.adds n.e hover).1
  apart hover := h.apart (hf.adds n.e hover).1

/-- A slot reserved behind everything there was. -/
theorem Sound.opens {n : Nested} (h : n.Sound) {f : WasmEmit → WasmEmit} {p : List U8}
    (hf : Appends f p) (isBody : Bool) {slot : Nat} (hlen : n.e.len ≤ slot)
    (hslot : (f n.e).overflow = false → slot + sizeWidth ≤ (f n.e).len) :
    ({ n with e := f n.e, opened := ⟨isBody, slot⟩ :: n.opened } : Nested).Sound where
  spelled := (h.appends hf).spelled
  reserved hover r hr := by
    rcases List.mem_cons.1 hr with rfl | hr
    · exact hslot hover
    · exact (h.appends hf).reserved hover r hr
  inside hover := by
    refine List.pairwise_cons.2 ⟨fun s hs => ?_, (h.appends hf).inside hover⟩
    exact (h.reserved (hf.adds n.e hover).1 s hs).trans hlen
  apart hover r hr c hc := by
    rcases List.mem_cons.1 hr with rfl | hr
    · obtain ⟨hslot, hstop, _⟩ := h.spelled c hc
      exact .inr (hslot.trans (hstop.trans hlen))
    · exact (h.appends hf).apart hover r hr c hc

/-- Closing the innermost slot patches it, and no slot that was closed before. -/
theorem Sound.closes {n : Nested} (h : n.Sound) {r : OpenRegion} {opened : List OpenRegion}
    (hr : n.opened = r :: opened) :
    ({ e := n.e.sizeEnd r.slot, opened := opened,
       closed := if (n.e.sizeEnd r.slot).intact then ⟨r.slot, (n.e.sizeEnd r.slot).len⟩ :: n.closed
         else n.closed } : Nested).Sound := by
  by_cases hover : (n.e.sizeEnd r.slot).overflow = false
  · obtain ⟨hin, hroom, hlong, hbuf⟩ := sizeEnd_intact hover
    have hmem : r ∈ n.opened := by simp [hr]
    have hsub : ∀ s ∈ opened, s ∈ n.opened := fun s hs => by simp [hr, hs]
    have hinside := hr ▸ h.inside hin
    rw [if_pos (by simp [intact, hover]), sizeEnd_len]
    constructor
    · intro c hc
      rw [sizeEnd_len]
      rcases List.mem_cons.1 hc with rfl | hc
      · refine ⟨hroom, Nat.le_refl _, ?_⟩
        rw [hbuf]
        exact decodes_padded n.e.buf hlong
      · obtain ⟨hslot, hstop, hdec⟩ := h.spelled c hc
        refine ⟨hslot, hstop, hdec.congr fun i hlo hhi => sizeEnd_keeps n.e ?_⟩
        rcases h.apart hin r hmem c hc with hapart | hapart
        · exact .inr (.inl (by omega))
        · exact .inl (by omega)
    · intro _ s hs
      rw [sizeEnd_len]
      exact h.reserved hin s (hsub s hs)
    · exact fun _ => hinside.of_cons
    · intro _ s hs c hc
      rcases List.mem_cons.1 hc with rfl | hc
      · exact .inl (List.rel_of_pairwise_cons hinside hs)
      · exact h.apart hin s (hsub s hs) c hc
  · rw [if_neg (by simp [intact, Bool.not_eq_false _ ▸ hover])]
    constructor
    · intro c hc
      rw [sizeEnd_len, sizeEnd_dropped hover]
      exact h.spelled c hc
    · exact fun hintact => absurd hintact hover
    · exact fun hintact => absurd hintact hover
    · exact fun hintact => absurd hintact hover

/-! ## Steps and runs -/

theorem step_sound {n : Nested} (h : n.Sound) (call : SlotCall) : (n.step call).Sound := by
  cases call with
  | beginSection id =>
    have hopen := (appends_byte id).comp appends_openSize
    refine h.opens hopen false ((appends_byte id).grows n.e) fun hover => ?_
    rw [appends_openSize.len hover, List.length_replicate]
  | beginBody =>
    refine h.opens appends_bodyBegin true (Nat.le_refl _) fun hover => ?_
    rw [appends_bodyBegin.len hover, List.length_replicate]
  | write w => exact h.appends (appends_write w)
  | close =>
    rcases hr : n.opened with _ | ⟨r, opened⟩
    · simpa only [step, hr] using h
    · obtain ⟨isBody, slot⟩ := r
      simp only [step, hr]
      cases isBody with
      | false => exact h.closes hr
      | true => exact (h.appends appends_endByte).closes hr

theorem run_sound {n : Nested} (h : n.Sound) (calls : List SlotCall) : (n.run calls).Sound := by
  induction calls generalizing n with
  | nil => exact h
  | cons call calls ih => exact ih (step_sound h call)

theorem step_confined (n : Nested) (call : SlotCall) : Confined n.e (n.step call).e := by
  cases call with
  | beginSection id => exact ((appends_byte id).comp appends_openSize).confined n.e
  | beginBody => exact appends_bodyBegin.confined n.e
  | write w => exact (appends_write w).confined n.e
  | close =>
    rcases hr : n.opened with _ | ⟨⟨isBody, slot⟩, opened⟩
    · simpa only [step, hr] using Confined.refl n.e
    · simp only [step, hr]
      cases isBody with
      | false => exact confined_sizeEnd n.e slot
      | true => exact confined_bodyEnd n.e slot

theorem run_confined (n : Nested) (calls : List SlotCall) : Confined n.e (n.run calls).e := by
  induction calls generalizing n with
  | nil => exact Confined.refl n.e
  | cons call calls ih => exact (step_confined n call).trans (ih (n.step call))

end Nested

end X86Port.Wasm
