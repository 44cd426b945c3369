import X86Port.Memory.Permissions

/-!
# Whole writes

`x86p_mem_write_bytes` by its effects, in the order in which the code has them, and what reads
see after a write.

* `writeBytes_eq_after`: the host after a write is the host after its effects.
* `write_whole_iff`: a write takes place as a whole exactly when it is accessible, unless the
  query leaves the permission table; reads see what was written last.
-/

namespace X86Port.Memory

open Cpu (Width)
open Lib Lib.Places

/-! ## Effects -/

/-- The observer called, or bytes stored on the host. -/
inductive WriteEvent where
  | told (addr n : U32)
  | moved (host : Nat) (bytes : List U8)

/-- The stores of `writeLoop`. -/
def moveLoop (m : Mem) : Nat → U32 → List U8 → U32 → Option (List WriteEvent)
  | 0, _, _, _ => some []
  | fuel + 1, addr, input, n =>
    if n ≠ 0 then
      (backingSpan m addr n memWrite).bind fun span =>
        (moveLoop m fuel (addr + span.length) (input.drop span.length.toNat)
          (n - span.length)).map fun moves =>
            .moved span.host (input.take span.length.toNat) :: moves
    else
      some []

def tellObserver (observer : Bool) (addr n : U32) : List WriteEvent :=
  if observer then [.told addr n] else []

/-- The result of `x86p_mem_write_bytes` and what it does on the way. -/
def writeEvents (m : Mem) (observer : Bool) (addr : U32) (input : List U8) :
    Option (Bool × List WriteEvent) :=
  let n := BitVec.ofNat 32 input.length
  (oneSpan m addr n memWrite).bind fun
    | some host => some (true, tellObserver observer addr n ++ [.moved host input])
    | none =>
      (accessible m addr n memWrite).bind fun mapped =>
        if mapped then
          (moveLoop m n.toNat addr input n).map fun moves =>
            (true, tellObserver observer addr n ++ moves)
        else
          some (false, [])

def Host.does (h : Host) : WriteEvent → Host
  | .told addr n => { h with notified := h.notified ++ [(addr, n)] }
  | .moved host bytes => h.store host bytes

def Host.after (h : Host) (events : List WriteEvent) : Host := events.foldl Host.does h

@[simp] theorem after_nil (h : Host) : h.after [] = h := rfl

@[simp] theorem after_cons (h : Host) (event : WriteEvent) (events : List WriteEvent) :
    h.after (event :: events) = (h.does event).after events := rfl

@[simp] theorem after_append (h : Host) (events more : List WriteEvent) :
    h.after (events ++ more) = (h.after events).after more := List.foldl_append

theorem after_tellObserver (h : Host) (addr n : U32) :
    h.after (tellObserver h.observer addr n) = h.notify addr n := by
  unfold tellObserver Host.notify
  split_ifs <;> rfl

theorem after_moveLoop (m : Mem) : ∀ (fuel : Nat) (h : Host) (addr : U32) (input : List U8)
    (n : U32), (moveLoop m fuel addr input n).map h.after = writeLoop m fuel h addr input n := by
  intro fuel
  induction fuel with
  | zero => intro h addr input n; rfl
  | succ fuel ih =>
    intro h addr input n
    unfold moveLoop writeLoop
    by_cases hn : n = 0
    · rw [if_neg (not_not.mpr hn), if_neg (not_not.mpr hn)]
      rfl
    · rw [if_pos hn, if_pos hn]
      cases backingSpan m addr n memWrite with
      | none => rfl
      | some span =>
        rw [Option.bind_some, Option.bind_some, Option.map_map, ← ih]
        rfl

theorem writeBytes_eq_after (m : Mem) (h : Host) (addr : U32) (input : List U8) :
    writeBytes m h addr input = (writeEvents m h.observer addr input).map fun r =>
      if r.1 then some (h.after r.2) else none := by
  unfold writeBytes writeEvents
  dsimp only
  cases oneSpan m addr (BitVec.ofNat 32 input.length) memWrite with
  | none => rfl
  | some whole =>
    rw [Option.bind_some, Option.bind_some]
    cases whole with
    | some host =>
      dsimp only
      rw [Option.map_some, if_pos rfl, after_append, after_tellObserver]
      rfl
    | none =>
      dsimp only
      cases accessible m addr (BitVec.ofNat 32 input.length) memWrite with
      | none => rfl
      | some mapped =>
        rw [Option.bind_some, Option.bind_some]
        cases mapped with
        | false => rfl
        | true =>
          rw [if_pos rfl, if_pos rfl, ← after_moveLoop, Option.map_map, Option.map_map]
          congr 1
          funext moves
          simp only [Function.comp_apply, if_pos, after_append, after_tellObserver]

/-- The observer is called once, if there is one, and every store comes after the call. -/
def InOrder (observer : Bool) (addr n : U32) (events : List WriteEvent) : Prop :=
  ∃ moves, events = tellObserver observer addr n ++ moves ∧
    ∀ event ∈ moves, ∃ host bytes, event = .moved host bytes

theorem moveLoop_moves (m : Mem) : ∀ (fuel : Nat) (addr : U32) (input : List U8) (n : U32)
    {moves : List WriteEvent}, moveLoop m fuel addr input n = some moves →
    ∀ event ∈ moves, ∃ host bytes, event = .moved host bytes := by
  intro fuel
  induction fuel with
  | zero =>
    intro addr input n moves h event hmem
    rw [← Option.some.inj h] at hmem
    cases hmem
  | succ fuel ih =>
    intro addr input n moves h event hmem
    unfold moveLoop at h
    by_cases hn : n = 0
    · rw [if_neg (not_not.mpr hn)] at h
      rw [← Option.some.inj h] at hmem
      cases hmem
    · rw [if_pos hn] at h
      obtain ⟨span, -, h⟩ := Option.bind_eq_some_iff.mp h
      obtain ⟨rest, hrest, rfl⟩ := Option.map_eq_some_iff.mp h
      rcases List.mem_cons.mp hmem with rfl | hmem
      · exact ⟨_, _, rfl⟩
      · exact ih _ _ _ hrest event hmem

/-- A write that is refused does nothing, and one that is not tells before it stores. -/
theorem writeEvents_inOrder {m : Mem} {observer : Bool} {addr : U32} {input : List U8} {ok : Bool}
    {events : List WriteEvent} (h : writeEvents m observer addr input = some (ok, events)) :
    if ok then InOrder observer addr (BitVec.ofNat 32 input.length) events else events = [] := by
  unfold writeEvents at h
  dsimp only at h
  obtain ⟨whole, -, h⟩ := Option.bind_eq_some_iff.mp h
  cases whole with
  | some host =>
    obtain ⟨rfl, rfl⟩ := Prod.mk.inj (Option.some.inj h)
    refine ⟨_, rfl, fun event hmem => ?_⟩
    rw [List.mem_singleton.mp hmem]
    exact ⟨_, _, rfl⟩
  | none =>
    obtain ⟨mapped, -, h⟩ := Option.bind_eq_some_iff.mp h
    cases mapped with
    | false =>
      obtain ⟨rfl, rfl⟩ := Prod.mk.inj (Option.some.inj h)
      rfl
    | true =>
      rw [if_pos rfl] at h
      obtain ⟨moves, hmoves, heq⟩ := Option.map_eq_some_iff.mp h
      obtain ⟨rfl, rfl⟩ := Prod.mk.inj heq
      exact ⟨moves, rfl, moveLoop_moves m _ _ _ _ hmoves⟩

/-! ## Tables that operations build -/

/-- The parts of a range lie at or behind its start on the host. -/
theorem host_le_of_mem_changed {guest access : U32} {stop : Nat} {remove : Bool}
    {mapping piece : Mapping} (h : piece ∈ SparseMem.changed guest stop access remove mapping) :
    mapping.host ≤ piece.host := by
  unfold SparseMem.changed at h
  dsimp only at h
  split_ifs at h <;> simp at h <;> grind

theorem hosted_changeRange (abi : HostAbi) {s : SparseMem}
    (h : ∀ mapping ∈ s.mappings, mapping.host ≠ 0) (guest size access : U32)
    (remove mallocOk : Bool) :
    ∀ mapping ∈ (s.changeRange abi guest size access remove mallocOk).2.mappings,
      mapping.host ≠ 0 := by
  unfold SparseMem.changeRange
  dsimp only
  split_ifs
  · exact h
  · exact h
  · intro piece hmem
    obtain ⟨mapping, hmapping, hpiece⟩ := List.mem_flatMap.mp hmem
    have := host_le_of_mem_changed hpiece
    have := h mapping hmapping
    omega

theorem hosted_mapAccess (abi : HostAbi) {s : SparseMem}
    (h : ∀ mapping ∈ s.mappings, mapping.host ≠ 0) (guest : U32) (host : Nat) (size access : U32)
    (reallocOk : Bool) :
    ∀ mapping ∈ (s.mapAccess abi guest host size access reallocOk).2.mappings,
      mapping.host ≠ 0 := by
  unfold SparseMem.mapAccess
  dsimp only
  split_ifs with hguard
  · exact h
  · exact h
  · cases s.grow abi reallocOk with
    | none => exact h
    | some capacity =>
      intro mapping hmem
      rcases List.mem_append.mp hmem with hlow | hhigh
      · exact h mapping (List.mem_of_mem_take hlow)
      · rcases List.mem_cons.mp hhigh with rfl | hhigh
        · exact fun hzero => hguard (Or.inl hzero)
        · exact h mapping (List.mem_of_mem_drop hhigh)

theorem hosted_unmap {s : SparseMem} (h : ∀ mapping ∈ s.mappings, mapping.host ≠ 0)
    (guest size : U32) : ∀ mapping ∈ (s.unmap guest size).2.mappings, mapping.host ≠ 0 := by
  unfold SparseMem.unmap
  dsimp only
  split_ifs
  · exact h
  · exact h
  · intro mapping hmem
    rcases List.mem_append.mp hmem with hlow | hhigh
    · exact h mapping (List.mem_of_mem_take hlow)
    · exact h mapping (List.mem_of_mem_drop hhigh)

/-- No operation registers a range at the null pointer or moves one there. -/
theorem hosted_runAll (abi : HostAbi) (ops : List SparseMem.SparseOp) :
    ∀ {s : SparseMem}, (∀ mapping ∈ s.mappings, mapping.host ≠ 0) →
      ∀ mapping ∈ (SparseMem.SparseOp.runAll abi ops s).mappings, mapping.host ≠ 0 := by
  induction ops with
  | nil => exact fun h => h
  | cons op ops ih =>
    intro s h
    have hstep : ∀ mapping ∈ (op.run abi s).2.mappings, mapping.host ≠ 0 := by
      cases op with
      | mapAccess guest host size access reallocOk =>
        exact hosted_mapAccess abi h guest host size access reallocOk
      | unmap guest size => exact hosted_unmap h guest size
      | unmapRange guest size mallocOk =>
        exact hosted_changeRange abi h guest size 0 true mallocOk
      | protect guest size access mallocOk =>
        exact hosted_changeRange abi h guest size access false mallocOk
    exact ih hstep

/-- Every run of operations from the empty table leaves one in which writes are defined. -/
theorem wellFormed_of_runAll {m : Mem} (hmade : ∀ s ∈ m.sparse, ∃ abi ops,
    s = SparseMem.SparseOp.runAll abi ops SparseMem.create) : m.WellFormed := by
  constructor
  · intro s hs
    obtain ⟨abi, ops, rfl⟩ := hmade s hs
    exact SparseMem.SparseOp.runAll_wellFormed abi ops SparseMem.create_wellFormed
  · intro s hs
    obtain ⟨abi, ops, rfl⟩ := hmade s hs
    exact hosted_runAll abi ops (fun mapping h => by cases h)

/-! ## Writes -/

/-- What a write that takes place leaves: the observer told once, each cell of the range with
the byte of the last address that it backs, and every other cell as it was. -/
structure Wrote (m : Mem) (h : Host) (addr : U32) (input : List U8) (h' : Host) : Prop where
  observer : h'.observer = h.observer
  told : h'.notified =
    h.notified ++ if h.observer then [(addr, BitVec.ofNat 32 input.length)] else []
  mapped : ∀ i < input.length, m.place 0 (addr.toNat + i) ≠ none
  written : ∀ (i : Nat) (hi : i < input.length) (x : Nat), m.place 0 (addr.toNat + i) = some x →
    (∀ j < input.length, i < j → m.place 0 (addr.toNat + j) ≠ some x) → h'.bytes x = input[i]
  kept : ∀ x, (∀ i < input.length, m.place 0 (addr.toNat + i) ≠ some x) →
    h'.bytes x = h.bytes x

/-- A write returns what the query says, and has all of its effects or none. -/
def AllOrNothing (m : Mem) (h : Host) (addr : U32) (input : List U8) : Prop :=
  ∃ ok events, accessible m addr (BitVec.ofNat 32 input.length) memWrite = some ok ∧
    writeEvents m h.observer addr input = some (ok, events) ∧
    writeBytes m h addr input = some (if ok then some (h.after events) else none) ∧
    if ok then
      InOrder h.observer addr (BitVec.ofNat 32 input.length) events ∧
        Wrote m h addr input (h.after events)
    else events = []

section

variable {m : Mem} {h h' : Host} {addr : U32} {input : List U8}

theorem wrote_put (hplaced : Placed (m.place memWrite) addr.toNat input.length) :
    Wrote m h addr input (Host.put m h addr input) := by
  have hzero : ∀ i < input.length, m.place 0 (addr.toNat + i) ≠ none := by
    intro i hi
    obtain ⟨x, hx⟩ := Option.ne_none_iff_exists'.mp (hplaced i hi)
    rw [place_zero hx]
    exact Option.some_ne_none x
  have hcell : ∀ i < input.length, ∀ x, cell (m.place memWrite) (addr.toNat + i) = x ↔
      m.place 0 (addr.toNat + i) = some x := by
    intro i hi x
    rw [cell_zero (hplaced i hi), cell_eq_iff (hzero i hi)]
  refine ⟨?_, ?_, hzero, ?_, ?_⟩
  · unfold Host.put Host.notify
    split_ifs <;> rfl
  · unfold Host.put Host.notify
    split_ifs <;> simp
  · intro i hi x hx hlast
    rw [← (hcell i hi x).mpr hx] at hlast ⊢
    refine scatter_last hi fun j hj hij heq => ?_
    exact hlast j hj hij ((hcell j hj _).mp heq)
  · intro x hnot
    exact scatter_frame fun i hi heq => hnot i hi ((hcell i hi x).mp heq)

theorem accessible_toNat (hm : m.WellFormed) (hlen : input.length < 2 ^ 32)
    (hsafe : ¬ m.Undefined memWrite addr.toNat input.length) :
    accessible m addr (BitVec.ofNat 32 input.length) memWrite =
      some (decide (input ≠ [] ∧ Placed (m.place memWrite) addr.toNat input.length)) := by
  have htoNat : (BitVec.ofNat 32 input.length).toNat = input.length := by
    rw [BitVec.toNat_ofNat, Nat.mod_eq_of_lt hlen]
  have hne : BitVec.ofNat 32 input.length ≠ 0 ↔ input ≠ [] := by
    rw [← List.length_pos_iff]
    bv_omega
  rw [accessible_placed hm (by decide) (by rwa [htoNat])]
  congr 2
  rw [htoNat]
  exact propext (and_congr_left' hne)

/-- The effects of a write follow from its result. -/
theorem allOrNothing_of_result (out : Host) {ok : Bool}
    (hacc : accessible m addr (BitVec.ofNat 32 input.length) memWrite = some ok)
    (hwrite : writeBytes m h addr input = some (if ok then some out else none))
    (hwrote : ok = true → Wrote m h addr input out) : AllOrNothing m h addr input := by
  have hafter := writeBytes_eq_after m h addr input
  rw [hwrite] at hafter
  obtain ⟨⟨ok', events⟩, hevents, heq⟩ := Option.map_eq_some_iff.mp hafter.symm
  have horder := writeEvents_inOrder hevents
  cases ok with
  | false =>
    cases ok' with
    | true => cases heq
    | false => exact ⟨false, events, hacc, hevents, hwrite, horder⟩
  | true =>
    cases ok' with
    | false => cases heq
    | true =>
      have hhost : h.after events = out := Option.some.inj heq
      refine ⟨true, events, hacc, hevents, ?_, horder, ?_⟩
      · rw [hhost]
        exact hwrite
      · rw [hhost]
        exact hwrote rfl

theorem allOrNothing_of_defined (hm : m.WellFormed) (hlen : input.length < 2 ^ 32)
    (hsafe : ¬ m.Undefined memWrite addr.toNat input.length) : AllOrNothing m h addr input := by
  refine allOrNothing_of_result (Host.put m h addr input)
    (accessible_toNat hm hlen hsafe) ?_ fun hok => wrote_put (of_decide_eq_true hok).2
  rw [writeBytes_placed hm h hlen hsafe]
  simp only [decide_eq_true_eq]

/-- A range that passes the end of the address space is refused before it is looked at. -/
theorem allOrNothing_of_wraps (hlen : input.length < 2 ^ 32)
    (hwrap : 2 ^ 32 < addr.toNat + input.length) : AllOrNothing m h addr input := by
  have htoNat : (BitVec.ofNat 32 input.length).toNat = input.length := by
    rw [BitVec.toNat_ofNat, Nat.mod_eq_of_lt hlen]
  have hn : BitVec.ofNat 32 input.length ≠ 0 := by bv_omega
  have hout : BitVec.ofNat 32 input.length = 0 ∨
      addr > uint32Max - (BitVec.ofNat 32 input.length - 1) := by
    refine Or.inr (not_not.mp fun hnot => ?_)
    have := (not_wraps_iff hn).mp hnot
    omega
  have hacc : accessible m addr (BitVec.ofNat 32 input.length) memWrite = some false :=
    accessible_of_wraps hout
  refine allOrNothing_of_result h hacc ?_ fun hok => absurd hok Bool.false_ne_true
  unfold writeBytes oneSpan
  dsimp only
  rw [if_pos hout, Option.bind_some]
  dsimp only
  rw [hacc]
  rfl

theorem not_allOrNothing_of_overruns (hs : m.sparse = none) (hlen : input.length < 2 ^ 32)
    (hend : addr.toNat + input.length ≤ 2 ^ 32)
    (hover : m.Overruns memWrite addr.toNat input.length) : ¬ AllOrNothing m h addr input := by
  have htoNat : (BitVec.ofNat 32 input.length).toNat = input.length := by
    rw [BitVec.toNat_ofNat, Nat.mod_eq_of_lt hlen]
  rintro ⟨ok, events, hacc, -⟩
  rw [accessible_of_overruns hs (by decide) (by rwa [htoNat]) (by rwa [htoNat])] at hacc
  cases hacc

/-! ## Reads after a write -/

theorem valueOf_bytesOf_mod (n : Nat) (value : U32) :
    valueOf (bytesOf n value) = BitVec.ofNat 32 (value.toNat % 2 ^ (8 * n)) := by
  refine BitVec.eq_of_getLsbD_eq fun i hi => ?_
  rw [getLsbD_valueOf_bytesOf n value hi, BitVec.getLsbD_ofNat, Nat.testBit_mod_two_pow,
    BitVec.getLsbD]
  simp [hi]

/-- Bytes that differ outside the cells of a range do not change what is read there. -/
theorem read_congr (hm : m.WellFormed) (w : Width)
    (hsame : ∀ i < w.bytes, ∀ x, m.place 0 (addr.toNat + i) = some x → h'.bytes x = h.bytes x) :
    read m h' addr w = read m h addr w := by
  rw [read_placed hm, read_placed hm]
  by_cases hall : Placed (m.place memRead) addr.toNat w.bytes
  · rw [if_pos hall, if_pos hall]
    congr 3
    unfold gather
    refine List.map_congr_left fun i hi => ?_
    obtain ⟨x, hx⟩ := Option.ne_none_iff_exists'.mp (hall i (List.mem_range.mp hi))
    have hcell : cell (m.place memRead) (addr.toNat + i) = x := by
      unfold cell
      rw [hx]
      rfl
    rw [hcell]
    exact hsame i (List.mem_range.mp hi) x (place_zero hx)
  · rw [if_neg hall, if_neg hall]

/-- A write that is granted leaves its value where the range shares no cell with itself, and
every read that shares no cell with the range sees what it saw before. -/
theorem reads_after_write (hm : m.WellFormed) {w : Width} {value : U32}
    (hwrite : write m h addr w value = some (some h')) :
    (memOk m addr w = some true →
      (∀ i < w.bytes, ∀ j < w.bytes, i ≠ j →
        m.place 0 (addr.toNat + i) ≠ m.place 0 (addr.toNat + j)) →
      read m h' addr w = some (some (BitVec.ofNat 32 (value.toNat % 2 ^ (8 * w.bytes))))) ∧
    ∀ (b : U32) (u : Width),
      (∀ i < u.bytes, ∀ j < w.bytes, m.place 0 (b.toNat + i) ≠ none →
        m.place 0 (b.toNat + i) ≠ m.place 0 (addr.toNat + j)) →
      read m h' b u = read m h b u := by
  have hlen := length_bytesOf w.bytes value
  rw [write_placed hm, Option.some.injEq] at hwrite
  split_ifs at hwrite with hplaced
  rw [← Option.some.inj hwrite]
  have hwrote : Wrote m h addr (bytesOf w.bytes value)
      (Host.put m h addr (bytesOf w.bytes value)) := wrote_put (by rwa [hlen])
  constructor
  · intro hok hapart
    have hsize : (BitVec.ofNat 32 w.bytes).toNat = w.bytes := by cases w <;> rfl
    have hread : Placed (m.place memRead) addr.toNat w.bytes := by
      unfold memOk at hok
      rw [accessible_placed hm (by decide) (by
        rw [hsize]
        exact not_undefined_of_le (by cases w <;> decide) _), hsize] at hok
      exact (of_decide_eq_true (Option.some.inj hok)).2
    have hbytes : gather (Host.put m h addr (bytesOf w.bytes value)).bytes (m.place memRead)
        addr.toNat w.bytes = bytesOf w.bytes value := by
      refine List.ext_getElem (by simp [hlen]) fun i hi hi' => ?_
      rw [getElem_gather]
      have hiw : i < w.bytes := by simpa using hi
      rw [cell_zero (hread i hiw)]
      refine hwrote.written i hi' _ ?_ fun j hj hij heq => ?_
      · rw [← cell_eq_iff (hwrote.mapped i hi')]
      · rw [hlen] at hj
        refine hapart i hiw j hj (Nat.ne_of_lt hij) ?_
        rw [heq, ← cell_eq_iff (hwrote.mapped i hi')]
    rw [read_placed hm, if_pos hread, hbytes, valueOf_bytesOf_mod]
  · intro b u hapart
    refine read_congr hm u fun i hi x hx => hwrote.kept x fun j hj heq => ?_
    rw [hlen] at hj
    refine hapart i hi j hj ?_ (hx.trans heq.symm)
    rw [hx]
    exact Option.some_ne_none x

/-- A write is all or nothing just where its query stays in the permission table, and reads see
the last write wherever there was one. -/
theorem write_whole_iff (hm : m.WellFormed) (h : Host) (addr : U32) (input : List U8)
    (hlen : input.length < 2 ^ 32) :
    (AllOrNothing m h addr input ↔
      ¬ (addr.toNat + input.length ≤ 2 ^ 32 ∧ m.Undefined memWrite addr.toNat input.length)) ∧
    ∀ (w : Width) (value : U32) (h' : Host), write m h addr w value = some (some h') →
      (memOk m addr w = some true →
        (∀ i < w.bytes, ∀ j < w.bytes, i ≠ j →
          m.place 0 (addr.toNat + i) ≠ m.place 0 (addr.toNat + j)) →
        read m h' addr w = some (some (BitVec.ofNat 32 (value.toNat % 2 ^ (8 * w.bytes))))) ∧
      ∀ (b : U32) (u : Width),
        (∀ i < u.bytes, ∀ j < w.bytes, m.place 0 (b.toNat + i) ≠ none →
          m.place 0 (b.toNat + i) ≠ m.place 0 (addr.toNat + j)) →
        read m h' b u = read m h b u := by
  refine ⟨⟨?_, ?_⟩, fun w value h' hwrite => reads_after_write hm hwrite⟩
  · rintro hwhole ⟨hend, hs, hover⟩
    exact not_allOrNothing_of_overruns hs hlen hend hover hwhole
  · intro hdefined
    by_cases hend : addr.toNat + input.length ≤ 2 ^ 32
    · exact allOrNothing_of_defined hm hlen fun hundefined => hdefined ⟨hend, hundefined⟩
    · exact allOrNothing_of_wraps hlen (Nat.lt_of_not_le hend)

end

/-! ## Two writes -/

/-- A host whose bytes are zero, with an observer that has been told nothing. -/
def idleHost : Host := ⟨fun _ => 0, true, []⟩

/-- Every byte but the last of the address space is writable in `wholeWindow`, and the query of a
write of all of them never answers. -/
theorem wholeWindow_write_undefined :
    ¬ AllOrNothing wholeWindow idleHost 0 (List.replicate 0xFFFFFFFF 0) ∧
      ∀ i < 0xFFFFFFFF, Permits wholeWindow wholePages memWrite i := by
  have hlength : (List.replicate 0xFFFFFFFF (0 : U8)).length = 0xFFFFFFFF := List.length_replicate
  constructor
  · refine not_allOrNothing_of_overruns rfl (by rw [hlength]; decide) (by rw [hlength]; decide) ?_
    rw [hlength]
    exact ⟨rfl, wholePages, rfl, by decide, by decide⟩
  · exact fun i hi => wholePages_permits (by decide) hi

def hostAbi64 : HostAbi := ⟨2 ^ 64 - 1, 2 ^ 64 - 1, 32⟩

/-- Two mappings that meet at 0x2000, each with its own allocation, and a third one over the first
one's host bytes. -/
def straddledOps : List SparseMem.SparseOp :=
  [.mapAccess 0x1000 0x10000 0x1000 3 true, .mapAccess 0x2000 0x30000 0x1000 3 true,
    .mapAccess 0x5000 0x10000 0x1000 3 true]

def straddled : Mem where
  host := 0
  lo := 0
  size := 0
  sparse := some (SparseMem.SparseOp.runAll hostAbi64 straddledOps SparseMem.create)
  perms := none

theorem straddled_write_whole :
    AllOrNothing straddled idleHost 0x1FFE [1, 2, 3, 4] ∧
      ∃ h', write straddled idleHost 0x1FFE .dword 0xAABBCCDD = some (some h') ∧
        read straddled h' 0x1FFE .dword = some (some 0xAABBCCDD) ∧
        read straddled h' 0x5000 .byte = read straddled idleHost 0x5000 .byte := by
  have hm : straddled.WellFormed := wellFormed_of_runAll fun s hs =>
    ⟨hostAbi64, straddledOps, (Option.some.inj hs).symm⟩
  have hwhole := write_whole_iff hm idleHost 0x1FFE [1, 2, 3, 4] (by decide)
  refine ⟨hwhole.1.mpr fun h => ?_, ?_⟩
  · cases h.2.1
  · refine ⟨_, (write_placed hm _ _ _).trans (congrArg some (if_pos (by decide))), ?_⟩
    obtain ⟨hback, hothers⟩ := hwhole.2 .dword 0xAABBCCDD _
      ((write_placed hm _ _ _).trans (congrArg some (if_pos (by decide))))
    exact ⟨hback (by decide) (by decide), hothers 0x5000 .byte (by decide)⟩

end X86Port.Memory
