import X86Port.Jit.SlotTable

/-!
# The chain census

`jit_chain_census.c`: of the entries of a run, how many went to an address that the block just left
had named as a successor.

* `note_censused`: one note.
* `chain_census_counts`: what the census says after any run of notes.
-/

namespace X86Port.Jit.ChainCensus

/-- `X86P_JIT_CHAIN_TARGETS` -/
def chainTargets : Nat := 6

/-- `ChainSlot`, of which the table keeps the entry. -/
structure ChainSlot where
  targets : Nat → U32
  count : Nat

namespace ChainSlot

/-- The loop of `x86p_jit_chain_census_note_block` over the targets, at the slot's count. -/
def fill (s : ChainSlot) : List U32 → ChainSlot
  | [] => s
  | t :: targets =>
    if s.count < chainTargets then
      fill { targets := Function.update s.targets s.count t, count := s.count + 1 } targets
    else s

/-- The loop of `x86p_jit_chain_census_note_entry` over the slot's last `left` targets; nothing
when it reads behind them. -/
def names (s : ChainSlot) (entry : U32) : Nat → Option Bool
  | 0 => some false
  | left + 1 =>
    let i := s.count - (left + 1)
    if chainTargets ≤ i then none
    else if s.targets i = entry then some true
    else s.names entry left

/-- The targets of the slot. -/
def known (s : ChainSlot) : List U32 := (List.range s.count).map s.targets

end ChainSlot

structure JitChainCensus where
  keys : Nat → U32
  slots : Nat → ChainSlot
  mask : Nat
  capacity : Nat
  blocks : Nat
  entries : U64
  chainable : U64
  unrecorded : U64
  overflowed : U64
  dropped : U64

namespace JitChainCensus

/-- `x86p_jit_chain_census_create`, with its allocations granted. -/
def create (slotHint : U32) : JitChainCensus where
  keys := fun _ => emptySlot
  slots := fun _ => ⟨fun _ => 0xFFFFFFFF, 0xFFFFFFFF⟩
  mask := slotsFor slotHint - 1
  capacity := slotsFor slotHint / 2
  blocks := 0
  entries := 0
  chainable := 0
  unrecorded := 0
  overflowed := 0
  dropped := 0

/-- `find`, with nothing for a search that does not end and `some none` for `NULL`. -/
def find (c : JitChainCensus) (entry : U32) : Option (Option Nat) :=
  (searchSlot c.keys c.mask entry).map fun i => if c.keys i = entry then some i else none

/-- `x86p_jit_chain_census_note_block` -/
def noteBlock (c : JitChainCensus) (entry : U32) (targets : List U32) (overflowed : U32) :
    Option JitChainCensus :=
  if entry = emptySlot then some c
  else
    let c := { c with overflowed := c.overflowed + overflowed.setWidth 64 }
    let record := fun i => Function.update c.slots i
      (ChainSlot.fill { targets := (c.slots i).targets, count := 0 } targets)
    (searchSlot c.keys c.mask entry).map fun i =>
      if c.keys i = entry then { c with slots := record i }
      else if c.blocks ≥ c.capacity then { c with dropped := c.dropped + 1 }
      else
        { c with
          keys := Function.update c.keys i entry
          slots := record i
          blocks := c.blocks + 1 }

/-- What `x86p_jit_chain_census_note_entry` counts, from the slot of the block that was left. -/
def countEntry (c : JitChainCensus) (entry : U32) : Option Nat → Option JitChainCensus
  | none => some { c with unrecorded := c.unrecorded + 1 }
  | some i =>
    if (c.slots i).count = 0 then some { c with unrecorded := c.unrecorded + 1 }
    else ((c.slots i).names entry (c.slots i).count).map fun found =>
      if found then { c with chainable := c.chainable + 1 } else c

/-- `x86p_jit_chain_census_note_entry`; nothing for a read behind the targets. -/
def noteEntry (c : JitChainCensus) (previous : Option U32) (entry : U32) :
    Option JitChainCensus :=
  let c := { c with entries := c.entries + 1 }
  match previous with
  | none => some { c with unrecorded := c.unrecorded + 1 }
  | some previous => (c.find previous).bind (c.countEntry entry)

end JitChainCensus

/-- One call of the engine. -/
inductive ChainNote where
  | block (entry : U32) (targets : List U32) (overflowed : U32)
  | entry (previous : Option U32) (entry : U32)

def JitChainCensus.note (c : JitChainCensus) : ChainNote → Option JitChainCensus
  | .block entry targets overflowed => c.noteBlock entry targets overflowed
  | .entry previous entry => c.noteEntry previous entry

/-! ## What a census is of -/

namespace ChainNote

/-- The blocks that were noted. -/
def blockOf : ChainNote → Option U32
  | .block e _ _ => some e
  | .entry _ _ => none

def isEntry : ChainNote → Bool
  | .block _ _ _ => false
  | .entry _ _ => true

def overflow : ChainNote → U64
  | .block e _ overflowed => if e = emptySlot then 0 else overflowed.setWidth 64
  | .entry _ _ => 0

/-- The dispatch is not from the address that marks a free slot. -/
def Leaves : ChainNote → Prop
  | .block _ _ _ => True
  | .entry previous _ => previous ≠ some emptySlot

/-- The successors of each block, as its latest note has them. -/
def supersede (m : U32 → List U32) : ChainNote → U32 → List U32
  | .block e targets _ => Function.update m e (targets.take chainTargets)
  | .entry _ _ => m

end ChainNote

def blocksOf (notes : List ChainNote) : List U32 := notes.filterMap ChainNote.blockOf

def latest (notes : List ChainNote) : U32 → List U32 :=
  notes.foldl ChainNote.supersede fun _ => []

/-- The census knows the successors of the block. -/
def Known (capacity : Nat) (past : List ChainNote) (e : U32) : Prop :=
  e ∈ admitted capacity (blocksOf past) ∧ latest past e ≠ []

instance (capacity : Nat) (past : List ChainNote) (e : U32) : Decidable (Known capacity past e) :=
  inferInstanceAs (Decidable (_ ∧ _))

/-- An entry behind these notes comes from no block whose successors are known. -/
def unrecordedAfter (capacity : Nat) (past : List ChainNote) : ChainNote → Bool
  | .block _ _ _ => false
  | .entry none _ => true
  | .entry (some previous) _ => !decide (Known capacity past previous)

/-- An entry behind these notes was named by the block it comes from. -/
def chainableAfter (capacity : Nat) (past : List ChainNote) : ChainNote → Bool
  | .block _ _ _ => false
  | .entry none _ => false
  | .entry (some previous) e =>
    decide (Known capacity past previous) && (latest past previous).contains e

/-- A block behind these notes finds the table full. -/
def droppedAfter (capacity : Nat) (past : List ChainNote) : ChainNote → Bool
  | .block e _ _ =>
    decide (e ≠ emptySlot) && !(admitted capacity (blocksOf past ++ [e])).contains e
  | .entry _ _ => false

/-- How many notes have the property, each with those before it. -/
def tally (P : List ChainNote → ChainNote → Bool) (notes : List ChainNote) : Nat :=
  (List.range notes.length).countP fun i => notes[i]?.any (P (notes.take i))

theorem tally_snoc (P : List ChainNote → ChainNote → Bool) (notes : List ChainNote)
    (n : ChainNote) : tally P (notes ++ [n]) = tally P notes + if P notes n then 1 else 0 := by
  unfold tally
  rw [List.length_append, List.length_singleton, List.range_succ, List.countP_append,
    List.countP_singleton]
  congr 1
  · refine List.countP_congr fun i hi => ?_
    rw [List.mem_range] at hi
    rw [List.getElem?_append_left hi, List.take_append_of_le_length hi.le]
  · rw [List.getElem?_concat_length, List.take_left' rfl]
    rfl

/-- Whatever is counted apart is not counted together more than once. -/
theorem tally_add_le {P Q : List ChainNote → ChainNote → Bool} {isOne : ChainNote → Bool}
    (h : ∀ past n, (if P past n then 1 else 0) + (if Q past n then 1 else 0) ≤
      if isOne n then 1 else 0) (notes : List ChainNote) :
    tally P notes + tally Q notes ≤ notes.countP isOne := by
  induction notes using List.reverseRecOn with
  | nil => exact Nat.zero_le _
  | append_singleton notes n ih =>
    have := h notes n
    rw [tally_snoc, tally_snoc, List.countP_append, List.countP_singleton]
    omega

/-! ## The slots -/

namespace ChainSlot

theorem length_known (s : ChainSlot) : s.known.length = s.count := by
  unfold known
  rw [List.length_map, List.length_range]

theorem known_update (s : ChainSlot) (t : U32) :
    known ⟨Function.update s.targets s.count t, s.count + 1⟩ = s.known ++ [t] := by
  unfold known
  rw [List.range_succ, List.map_append, List.map_singleton]
  congr 1
  · exact List.map_congr_left fun i hi => Function.update_of_ne (List.mem_range.mp hi).ne _ _
  · exact congrArg (· :: []) (Function.update_self ..)

theorem known_fill (s : ChainSlot) (targets : List U32) (h : s.count ≤ chainTargets) :
    (s.fill targets).count ≤ chainTargets ∧
      (s.fill targets).known = s.known ++ targets.take (chainTargets - s.count) := by
  induction targets generalizing s with
  | nil => exact ⟨h, by rw [List.take_nil, List.append_nil]; rfl⟩
  | cons t targets ih =>
    rw [fill]
    split_ifs with hlt
    · obtain ⟨hcount, hknown⟩ := ih ⟨Function.update s.targets s.count t, s.count + 1⟩ hlt
      refine ⟨hcount, ?_⟩
      have hleft : chainTargets - s.count = chainTargets - (s.count + 1) + 1 := by omega
      rw [hknown, known_update, hleft, List.take_succ_cons, List.append_assoc,
        List.singleton_append]
    · refine ⟨h, ?_⟩
      rw [show chainTargets - s.count = 0 by omega, List.take_zero, List.append_nil]

/-- The loop reads the targets from the first of the `left` on. -/
theorem names_eq (s : ChainSlot) (e : U32) (h : s.count ≤ chainTargets) {left : Nat}
    (hleft : left ≤ s.count) :
    s.names e left = some (decide (e ∈ s.known.drop (s.count - left))) := by
  induction left with
  | zero =>
    rw [Nat.sub_zero, ← s.length_known, List.drop_length]
    rfl
  | succ left ih =>
    have hlt : s.count - (left + 1) < s.known.length := by
      rw [length_known]
      omega
    have hcons : s.known.drop (s.count - (left + 1)) =
        s.targets (s.count - (left + 1)) :: s.known.drop (s.count - left) := by
      rw [List.drop_eq_getElem_cons hlt, show s.count - (left + 1) + 1 = s.count - left by omega]
      congr 1
      simp only [known, List.getElem_map, List.getElem_range]
    rw [names, if_neg (by omega), hcons]
    by_cases heq : s.targets (s.count - (left + 1)) = e
    · rw [if_pos heq, decide_eq_true (heq ▸ List.mem_cons_self)]
    · rw [if_neg heq, ih (by omega)]
      congr 2
      rw [List.mem_cons, eq_comm (a := e), or_iff_right heq]

theorem names_known (s : ChainSlot) (e : U32) (h : s.count ≤ chainTargets) :
    s.names e s.count = some (decide (e ∈ s.known)) := by
  rw [s.names_eq e h le_rfl, Nat.sub_self, List.drop_zero]

end ChainSlot

/-! ## One note -/

section

variable {notes : List ChainNote} {c c' : JitChainCensus} {e k : U32} {i : Nat}

theorem blocksOf_snoc_block (notes : List ChainNote) (e : U32) (targets : List U32)
    (overflowed : U32) :
    blocksOf (notes ++ [.block e targets overflowed]) = blocksOf notes ++ [e] :=
  List.filterMap_append

theorem blocksOf_snoc_entry (notes : List ChainNote) (previous : Option U32) (e : U32) :
    blocksOf (notes ++ [.entry previous e]) = blocksOf notes :=
  List.filterMap_append.trans (List.append_nil _)

theorem latest_snoc (notes : List ChainNote) (n : ChainNote) :
    latest (notes ++ [n]) = n.supersede (latest notes) := List.foldl_append

theorem latest_block_self (notes : List ChainNote) (e : U32) (targets : List U32)
    (overflowed : U32) :
    latest (notes ++ [.block e targets overflowed]) e = targets.take chainTargets := by
  rw [latest_snoc]
  exact Function.update_self ..

theorem latest_block_of_ne (notes : List ChainNote) (targets : List U32) (overflowed : U32)
    (h : k ≠ e) : latest (notes ++ [.block e targets overflowed]) k = latest notes k := by
  rw [latest_snoc]
  exact Function.update_of_ne h _ _

/-- The table after the notes. -/
structure Tabled (notes : List ChainNote) (c : JitChainCensus) : Prop where
  kept : Slotted c.keys c.mask (admitted c.capacity (blocksOf notes))
  room : c.capacity < c.mask + 1
  slots : ∀ i < c.mask + 1, ∀ k, slotKey c.keys i = some k →
    (c.slots i).count ≤ chainTargets ∧ (c.slots i).known = latest notes k
  blocks : c.blocks = (admitted c.capacity (blocksOf notes)).length

/-- The counters after the notes. -/
structure Counted (notes : List ChainNote) (c : JitChainCensus) : Prop where
  entries : c.entries = BitVec.ofNat 64 (notes.countP ChainNote.isEntry)
  chainable : c.chainable = BitVec.ofNat 64 (tally (chainableAfter c.capacity) notes)
  unrecorded : c.unrecorded = BitVec.ofNat 64 (tally (unrecordedAfter c.capacity) notes)
  overflowed : c.overflowed = (notes.map ChainNote.overflow).sum
  dropped : c.dropped = BitVec.ofNat 64 (tally (droppedAfter c.capacity) notes)

theorem ofNat_add_one_of (n : Nat) (b : Bool) :
    BitVec.ofNat 64 (n + if b then 1 else 0) = BitVec.ofNat 64 n + if b then 1 else 0 := by
  rw [BitVec.ofNat_add]
  cases b <;> rfl

theorem Counted.step (h : Counted notes c) (n : ChainNote) (hcapacity : c'.capacity = c.capacity)
    (hentries : c'.entries = c.entries + if n.isEntry then 1 else 0)
    (hchainable : c'.chainable = c.chainable + if chainableAfter c.capacity notes n then 1 else 0)
    (hunrecorded : c'.unrecorded =
      c.unrecorded + if unrecordedAfter c.capacity notes n then 1 else 0)
    (hoverflowed : c'.overflowed = c.overflowed + n.overflow)
    (hdropped : c'.dropped = c.dropped + if droppedAfter c.capacity notes n then 1 else 0) :
    Counted (notes ++ [n]) c' := by
  refine ⟨?_, ?_, ?_, ?_, ?_⟩
  · rw [hentries, h.entries, List.countP_append, List.countP_singleton, ofNat_add_one_of]
  · rw [hchainable, h.chainable, hcapacity, tally_snoc, ofNat_add_one_of]
  · rw [hunrecorded, h.unrecorded, hcapacity, tally_snoc, ofNat_add_one_of]
  · rw [hoverflowed, h.overflowed, List.map_append, List.sum_append, List.map_singleton,
      List.sum_singleton]
  · rw [hdropped, h.dropped, hcapacity, tally_snoc, ofNat_add_one_of]

theorem Tabled.held (h : Tabled notes c) (hi : i < c.mask + 1) (hk : slotKey c.keys i = some k) :
    k ∈ admitted c.capacity (blocksOf notes) := (h.kept.holds.mem k).mp ⟨i, hi, hk⟩

/-- A block that is not let in. -/
theorem Tabled.pass (h : Tabled notes c) (hnot : e ∉ admitted c.capacity (blocksOf notes))
    (hadmitted : e = emptySlot ∨ c.capacity ≤ (admitted c.capacity (blocksOf notes)).length)
    (targets : List U32) (overflowed : U32) :
    Tabled (notes ++ [.block e targets overflowed]) c := by
  have hsame : admitted c.capacity (blocksOf notes ++ [e]) = admitted c.capacity (blocksOf notes) :=
    admit_of_held (hadmitted.imp_right .inr)
  refine ⟨?_, h.room, fun i hi k hk => ?_, ?_⟩
  · rw [blocksOf_snoc_block, hsame]
    exact h.kept
  · have hne : k ≠ e := by
      rintro rfl
      exact hnot (h.held hi hk)
    rw [latest_block_of_ne notes targets overflowed hne]
    exact h.slots i hi k hk
  · rw [blocksOf_snoc_block, hsame]
    exact h.blocks

/-- A block whose slot is written. -/
theorem Tabled.record (h : Tabled notes c) (hi : i < c.mask + 1) (targets : List U32)
    (overflowed : U32) {keys : Nat → U32} {blocks : Nat} {sum : U64}
    (hkept : Slotted keys c.mask (admitted c.capacity (blocksOf notes ++ [e])))
    (hkey : slotKey keys i = some e)
    (hkeys : ∀ j, j ≠ i → slotKey keys j = slotKey c.keys j)
    (hblocks : blocks = (admitted c.capacity (blocksOf notes ++ [e])).length) :
    Tabled (notes ++ [.block e targets overflowed]) { c with
      keys := keys
      slots := Function.update c.slots i (ChainSlot.fill ⟨(c.slots i).targets, 0⟩ targets)
      blocks := blocks
      overflowed := sum } := by
  refine ⟨?_, h.room, fun j hj k hk => ?_, ?_⟩
  · rw [blocksOf_snoc_block]
    exact hkept
  · change slotKey keys j = some k at hk
    dsimp only
    by_cases hji : j = i
    · subst hji
      obtain rfl := Option.some.inj (hkey.symm.trans hk)
      rw [Function.update_self, latest_block_self]
      exact ChainSlot.known_fill ⟨(c.slots j).targets, 0⟩ targets (Nat.zero_le _)
    · have hne : k ≠ e := by
        rintro rfl
        exact hji (hkept.unique hj hi hk hkey)
      rw [Function.update_of_ne hji, latest_block_of_ne notes targets overflowed hne]
      exact h.slots j hj k (hkeys j hji ▸ hk)
  · rw [blocksOf_snoc_block]
    exact hblocks

theorem noteBlock_censused (ht : Tabled notes c) (hc : Counted notes c) (e : U32)
    (targets : List U32) (overflowed : U32) :
    ∃ c', c.noteBlock e targets overflowed = some c' ∧ c'.capacity = c.capacity ∧
      Tabled (notes ++ [.block e targets overflowed]) c' ∧
      Counted (notes ++ [.block e targets overflowed]) c' := by
  have hspec := admitted_spec c.capacity (blocksOf notes)
  unfold JitChainCensus.noteBlock
  by_cases he : e = emptySlot
  · have hnot : e ∉ admitted c.capacity (blocksOf notes) := fun hin => (hspec.2.1 e hin).1 he
    refine ⟨c, if_pos he, rfl, ht.pass hnot (.inl he) _ _, hc.step _ rfl ?_ ?_ ?_ ?_ ?_⟩
    all_goals simp [ChainNote.isEntry, chainableAfter, unrecordedAfter, ChainNote.overflow,
      droppedAfter, he]
  rw [if_neg he]
  obtain ⟨i, hi, hsearch, hend⟩ := ht.kept.search (hspec.2.2.1.trans_lt ht.room) e
  dsimp only
  rw [hsearch, Option.map_some]
  have hoverflow : ChainNote.overflow (.block e targets overflowed) = overflowed.setWidth 64 :=
    if_neg he
  have hcount : ∀ {c' : JitChainCensus}, c'.capacity = c.capacity → c'.entries = c.entries →
      c'.chainable = c.chainable → c'.unrecorded = c.unrecorded →
      c'.overflowed = c.overflowed + overflowed.setWidth 64 →
      c'.dropped = c.dropped +
        (if e ∉ admitted c.capacity (blocksOf notes ++ [e]) then 1 else 0) →
      Counted (notes ++ [.block e targets overflowed]) c' := by
    intro c' h1 h2 h3 h4 h5 h6
    refine hc.step _ h1 ?_ ?_ ?_ (by rw [h5, hoverflow]) ?_
    · rw [h2]
      exact (BitVec.add_zero _).symm
    · rw [h3]
      exact (BitVec.add_zero _).symm
    · rw [h4]
      exact (BitVec.add_zero _).symm
    · rw [h6]
      simp [droppedAfter, he]
  rcases hend with ⟨hkey, hheld⟩ | ⟨hfree, hnot⟩
  · have hsame : admitted c.capacity (blocksOf notes ++ [e]) =
        admitted c.capacity (blocksOf notes) := admit_of_held (.inr (.inl hheld))
    rw [if_pos hkey]
    refine ⟨_, rfl, rfl, ?_, hcount rfl rfl rfl rfl rfl ?_⟩
    · exact ht.record hi targets overflowed (hsame ▸ ht.kept) (slotKey_eq_some.mpr ⟨hkey, he⟩)
        (fun _ _ => rfl) (hsame ▸ ht.blocks)
    · rw [hsame, if_neg (not_not.mpr hheld)]
      exact (BitVec.add_zero _).symm
  · have hne : ¬ c.keys i = e := fun heq => he (heq ▸ hfree)
    rw [if_neg hne]
    by_cases hfull : c.blocks ≥ c.capacity
    · rw [if_pos hfull]
      rw [ht.blocks] at hfull
      have hsame : admitted c.capacity (blocksOf notes ++ [e]) =
          admitted c.capacity (blocksOf notes) := admit_of_held (.inr (.inr hfull))
      obtain ⟨hkept, hroom, hslots, hblocks⟩ := ht.pass hnot (.inr hfull) targets overflowed
      refine ⟨_, rfl, rfl, ⟨hkept, hroom, hslots, hblocks⟩, hcount rfl rfl rfl rfl rfl ?_⟩
      rw [hsame, if_pos hnot]
    · rw [if_neg hfull]
      rw [ht.blocks, ge_iff_le, not_le] at hfull
      have hadmitted := admit_of_new he hnot hfull
      refine ⟨_, rfl, rfl, ?_, hcount rfl rfl rfl rfl rfl ?_⟩
      · refine ht.record hi targets overflowed ?_ ?_ (fun j hj => ?_) ?_
        · exact hadmitted ▸ ht.kept.insert hi hsearch hfree he
        · rw [slotKey_update he, Function.update_self]
        · rw [slotKey_update he, Function.update_of_ne hj]
        · rw [hadmitted, List.length_append, ht.blocks]
          rfl
      · rw [hadmitted, if_neg (not_not.mpr (List.mem_append_right _ (List.mem_singleton_self e)))]
        exact (BitVec.add_zero _).symm

/-- What `find` gives for a block, and what the slot says. -/
theorem Tabled.find_eq (h : Tabled notes c) (hk : k ≠ emptySlot) :
    (k ∉ admitted c.capacity (blocksOf notes) ∧ c.find k = some none) ∨
      k ∈ admitted c.capacity (blocksOf notes) ∧ ∃ i, c.find k = some (some i) ∧
        (c.slots i).count ≤ chainTargets ∧ (c.slots i).known = latest notes k := by
  have hspec := admitted_spec c.capacity (blocksOf notes)
  obtain ⟨i, hi, hsearch, hend⟩ := h.kept.search (hspec.2.2.1.trans_lt h.room) k
  unfold JitChainCensus.find
  rw [hsearch, Option.map_some]
  rcases hend with ⟨hkey, hheld⟩ | ⟨hfree, hnot⟩
  · refine .inr ⟨hheld, i, by rw [if_pos hkey], ?_⟩
    exact h.slots i hi k (slotKey_eq_some.mpr ⟨hkey, hk⟩)
  · have hne : ¬ c.keys i = k := fun heq => hk (heq ▸ hfree)
    exact .inl ⟨hnot, by rw [if_neg hne]⟩

theorem noteEntry_censused (ht : Tabled notes c) (hc : Counted notes c) {previous : Option U32}
    (hprevious : previous ≠ some emptySlot) (e : U32) :
    ∃ c', c.noteEntry previous e = some c' ∧ c'.capacity = c.capacity ∧
      Tabled (notes ++ [.entry previous e]) c' ∧ Counted (notes ++ [.entry previous e]) c' := by
  -- the table stays, and its successors
  have htable : ∀ {entries chainable unrecorded : U64}, Tabled (notes ++ [.entry previous e])
      { c with entries := entries, chainable := chainable, unrecorded := unrecorded } := by
    refine ⟨?_, ht.room, fun i hi k hk => ?_, ?_⟩
    · rw [blocksOf_snoc_entry]
      exact ht.kept
    · rw [latest_snoc]
      exact ht.slots i hi k hk
    · rw [blocksOf_snoc_entry]
      exact ht.blocks
  have hcount : ∀ {chainable unrecorded : U64},
      chainable = c.chainable +
        (if chainableAfter c.capacity notes (.entry previous e) then 1 else 0) →
      unrecorded = c.unrecorded +
        (if unrecordedAfter c.capacity notes (.entry previous e) then 1 else 0) →
      Counted (notes ++ [.entry previous e]) { c with
        entries := c.entries + 1, chainable := chainable, unrecorded := unrecorded } :=
    fun h1 h2 => hc.step _ rfl rfl h1 h2 (BitVec.add_zero _).symm (BitVec.add_zero _).symm
  cases previous with
  | none => exact ⟨_, rfl, rfl, htable, hcount (BitVec.add_zero _).symm rfl⟩
  | some k =>
    have hk : k ≠ emptySlot := fun heq => hprevious (congrArg some heq)
    have hnote : c.noteEntry (some k) e =
        (c.find k).bind (JitChainCensus.countEntry { c with entries := c.entries + 1 } e) := rfl
    have hunknown : ¬ Known c.capacity notes k →
        Counted (notes ++ [.entry (some k) e]) { c with
          entries := c.entries + 1, unrecorded := c.unrecorded + 1 } := fun h =>
      hcount (by simp [chainableAfter, h]) (by simp [unrecordedAfter, h])
    rcases ht.find_eq hk with ⟨hnot, hfind⟩ | ⟨hheld, i, hfind, hle, hknown⟩
    · rw [hnote, hfind]
      exact ⟨_, rfl, rfl, htable, hunknown fun h => hnot h.1⟩
    have hlength : (c.slots i).count = (latest notes k).length := by
      rw [← hknown, ChainSlot.length_known]
    rw [hnote, hfind, Option.bind_some]
    dsimp only [JitChainCensus.countEntry]
    by_cases hnone : (c.slots i).count = 0
    · rw [if_pos hnone]
      refine ⟨_, rfl, rfl, htable, hunknown fun h => h.2 ?_⟩
      rwa [hlength, List.length_eq_zero_iff] at hnone
    · rw [if_neg hnone, ChainSlot.names_known _ _ hle, hknown, Option.map_some]
      have h : Known c.capacity notes k := by
        refine ⟨hheld, fun heq => hnone ?_⟩
        rw [hlength, heq, List.length_nil]
      by_cases hin : e ∈ latest notes k
      · rw [if_pos (decide_eq_true hin)]
        exact ⟨_, rfl, rfl, htable, hcount (by simp [chainableAfter, h, hin])
          (by simp [unrecordedAfter, h])⟩
      · rw [if_neg (by simpa using hin)]
        exact ⟨_, rfl, rfl, htable, hcount (by simp [chainableAfter, hin])
          (by simp [unrecordedAfter, h])⟩

theorem note_censused (ht : Tabled notes c) (hc : Counted notes c) {n : ChainNote}
    (hn : n.Leaves) :
    ∃ c', c.note n = some c' ∧ c'.capacity = c.capacity ∧ Tabled (notes ++ [n]) c' ∧
      Counted (notes ++ [n]) c' := by
  cases n with
  | block e targets overflowed => exact noteBlock_censused ht hc e targets overflowed
  | entry previous e => exact noteEntry_censused ht hc hn e

end

/-! ## A run of notes -/

/-- By an induction over the notes, with the last one behind the others. -/
theorem notes_censused (slotHint : U32) (notes : List ChainNote) (h : ∀ n ∈ notes, n.Leaves) :
    ∃ c, notes.foldlM JitChainCensus.note (JitChainCensus.create slotHint) = some c ∧
      c.capacity = slotsFor slotHint / 2 ∧ Tabled notes c ∧ Counted notes c := by
  induction notes using List.reverseRecOn with
  | nil =>
    refine ⟨_, rfl, rfl, ⟨slotted_empty slotHint, ?_, fun i _ k hk => ?_, rfl⟩,
      ⟨rfl, rfl, rfl, rfl, rfl⟩⟩
    · have := slotsFor_pos slotHint
      change slotsFor slotHint / 2 < slotsFor slotHint - 1 + 1
      omega
    · exact absurd (slotKey_eq_some.mp hk).1.symm (slotKey_eq_some.mp hk).2
  | append_singleton notes n ih =>
    obtain ⟨c, hrun, hcapacity, ht, hc⟩ := ih fun m hm => h m (List.mem_append_left _ hm)
    obtain ⟨c', hnote, hcapacity', ht', hc'⟩ :=
      note_censused ht hc (h n (List.mem_append_right _ (List.mem_singleton_self n)))
    refine ⟨c', ?_, hcapacity'.trans hcapacity, ht', hc'⟩
    rw [List.foldlM_append, hrun]
    exact (bind_pure _).trans hnote

/-- No entry is counted both as one that was named and as one that nothing is known of. -/
theorem tally_entries (capacity : Nat) (notes : List ChainNote) :
    tally (chainableAfter capacity) notes + tally (unrecordedAfter capacity) notes ≤
      notes.countP ChainNote.isEntry := by
  refine tally_add_le (fun past n => ?_) notes
  cases n with
  | block e targets overflowed => exact Nat.zero_le _
  | entry previous e =>
    cases previous with
    | none => exact Nat.le_refl _
    | some k =>
      by_cases hk : Known capacity past k
      · by_cases he : e ∈ latest past k
        · simp [chainableAfter, unrecordedAfter, ChainNote.isEntry, hk, he]
        · simp [chainableAfter, unrecordedAfter, ChainNote.isEntry, hk, he]
      · simp [chainableAfter, unrecordedAfter, ChainNote.isEntry, hk]

/-- What the census says after any run of notes: the entries, those that a recorded successor
would have chained, those from a block without a record, and what the table dropped. -/
theorem chain_census_counts (slotHint : U32) (notes : List ChainNote)
    (h : ∀ n ∈ notes, n.Leaves) :
    ∃ c, notes.foldlM JitChainCensus.note (JitChainCensus.create slotHint) = some c ∧
      c.entries = BitVec.ofNat 64 (notes.countP ChainNote.isEntry) ∧
      c.chainable = BitVec.ofNat 64 (tally (chainableAfter (slotsFor slotHint / 2)) notes) ∧
      c.unrecorded = BitVec.ofNat 64 (tally (unrecordedAfter (slotsFor slotHint / 2)) notes) ∧
      c.overflowed = (notes.map ChainNote.overflow).sum ∧
      c.blocks = (admitted (slotsFor slotHint / 2) (blocksOf notes)).length ∧
      c.dropped = BitVec.ofNat 64 (tally (droppedAfter (slotsFor slotHint / 2)) notes) ∧
      tally (chainableAfter (slotsFor slotHint / 2)) notes +
        tally (unrecordedAfter (slotsFor slotHint / 2)) notes ≤
          notes.countP ChainNote.isEntry := by
  obtain ⟨c, hrun, hcapacity, ht, hc⟩ := notes_censused slotHint notes h
  rw [← hcapacity]
  exact ⟨c, hrun, hc.entries, hc.chainable, hc.unrecorded, hc.overflowed, ht.blocks, hc.dropped,
    tally_entries _ notes⟩

/-- A block that is translated again, and left for the successor that its first translation had. -/
def retranslation : List ChainNote :=
  [.entry none 0x1000, .block 0x1000 [0x2000, 0x3000] 0, .entry (some 0x1000) 0x3000,
    .block 0x1000 [0x2000] 0, .entry (some 0x1000) 0x3000]

theorem chain_census_counts_retranslation :
    (∀ n ∈ retranslation, n.Leaves) ∧
      ∃ c, retranslation.foldlM JitChainCensus.note (JitChainCensus.create 64) = some c ∧
        c.entries = 3 ∧ c.chainable = 1 ∧ c.unrecorded = 1 := by
  have h : ∀ n ∈ retranslation, n.Leaves := by
    intro n hn
    simp only [retranslation, List.mem_cons, List.not_mem_nil, or_false] at hn
    rcases hn with rfl | rfl | rfl | rfl | rfl <;> simp [ChainNote.Leaves, emptySlot]
  obtain ⟨c, hrun, hentries, hchainable, hunrecorded, -⟩ := chain_census_counts 64 retranslation h
  exact ⟨h, c, hrun, hentries.trans (by decide), hchainable.trans (by decide),
    hunrecorded.trans (by decide)⟩

end X86Port.Jit.ChainCensus
