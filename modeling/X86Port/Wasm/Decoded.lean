import X86Port.Wasm.Lower

/-!
# The instructions of a block

Which instructions a block is lowered from, by the bytes and the decoder alone, and the block as
what the families emit for them.

* `decodeFrom`: the instructions from an address up to the one that ends a block.
* `lowerBlock_ends`: a lowered block ends behind one of them.
* `Families.Roomy`, `Families.Exits`: what a batch relies on in the families.
* `lowerBlock_decoded`: where no room runs out, the block is the instructions' code, their length
  and their exits.
-/

namespace X86Port.Wasm

open Jit

variable {I E S M : Type}

/-! ## Decoding -/

/-- The instructions of a block, each at its address, and where and how they end. -/
structure DecodedBlock (I : Type) where
  insns : List (I × U32)
  pc : U32
  exit : JitExit
  terminated : Bool

/-- The instructions from `pc` on: to the first that ends a block, or up to one that cannot be
read, decoded or lowered, or to an address the embedder takes over. -/
def decodeFrom (F : Families I E S M) (fetch : Fetch) (boundary : U32 → Bool) (eip : U32) :
    Nat → U32 → DecodedBlock I
  | 0, pc => ⟨[], pc, .blockEnd, false⟩
  | remaining + 1, pc =>
    let bytes := fetchInsn fetch pc maxInsnLen
    if bytes = [] then ⟨[], pc, .blockEnd, false⟩
    else
      match F.decode bytes with
      | none => ⟨[], pc, .blockEnd, false⟩
      | some insn =>
        if pc ≠ eip ∧ boundary pc then ⟨[], pc, .blockEnd, false⟩
        else if !F.accepts insn then ⟨[], pc, .unsupported, false⟩
        else
          let next := pc + BitVec.ofNat 32 (F.length insn)
          if F.terminates insn && !F.continues insn then ⟨[(insn, pc)], next, .blockEnd, true⟩
          else
            let rest := decodeFrom F fetch boundary eip remaining next
            { rest with insns := (insn, pc) :: rest.insns }

/-- The block at an address. -/
def decodeBlock (F : Families I E S M) (fetch : Fetch) (boundary : U32 → Bool) (eip : U32) :
    DecodedBlock I :=
  decodeFrom F fetch boundary eip maxInsns eip

/-- One instruction, or none where the loop stops. -/
theorem decodeFrom_succ (F : Families I E S M) (fetch : Fetch) (boundary : U32 → Bool)
    (eip : U32) (remaining : Nat) (pc : U32) :
    decodeFrom F fetch boundary eip (remaining + 1) pc =
      match nextInsn F fetch boundary eip pc with
      | .inr (exit, _) => ⟨[], pc, exit, false⟩
      | .inl insn =>
        let next := pc + BitVec.ofNat 32 (F.length insn)
        if F.terminates insn && !F.continues insn then ⟨[(insn, pc)], next, .blockEnd, true⟩
        else
          let rest := decodeFrom F fetch boundary eip remaining next
          { rest with insns := (insn, pc) :: rest.insns } := by
  rw [decodeFrom]
  unfold nextInsn
  dsimp only
  by_cases hbytes : fetchInsn fetch pc maxInsnLen = []
  · rw [if_pos hbytes, if_pos hbytes]
  rw [if_neg hbytes, if_neg hbytes]
  cases F.decode (fetchInsn fetch pc maxInsnLen) with
  | none => rfl
  | some insn =>
    dsimp only
    by_cases hboundary : pc ≠ eip ∧ boundary pc = true
    · rw [if_pos hboundary, if_pos hboundary]
    rw [if_neg hboundary, if_neg hboundary]
    by_cases hrefused : (!F.accepts insn) = true
    · rw [if_pos hrefused, if_pos hrefused]
    · rw [if_neg hrefused, if_neg hrefused]

theorem length_decodeFrom (F : Families I E S M) (fetch : Fetch) (boundary : U32 → Bool)
    (eip : U32) (remaining : Nat) :
    ∀ pc, (decodeFrom F fetch boundary eip remaining pc).insns.length ≤ remaining := by
  induction remaining with
  | zero => exact fun _ => Nat.le_refl 0
  | succ remaining ih =>
    intro pc
    rw [decodeFrom_succ]
    cases nextInsn F fetch boundary eip pc with
    | inr stop => exact Nat.zero_le _
    | inl insn =>
      dsimp only
      split_ifs
      · exact Nat.succ_le_succ (Nat.zero_le _)
      · exact Nat.succ_le_succ (ih _)

/-! ## Emitting -/

def emitInsns (F : Families I E S M) (insns : List (I × U32)) (l : S) : S :=
  insns.foldl (emitInsn F) l

/-- The body of a block; one that no branch ended leaves for where the instructions end. -/
def emitBlock (F : Families I E S M) (d : DecodedBlock I) (l : S) : S :=
  if d.terminated then emitInsns F d.insns l else F.exitImm d.pc d.exit (emitInsns F d.insns l)

/-- There is room for another instruction, and for closing the module behind it. -/
def Room (F : Families I E S M) (l : S) : Prop :=
  F.here l + worstCaseInsnBytes + exitBytes + chainReserve (F.chain l) ≤ F.cap l

/-- Room for each of the instructions in turn, and for the one behind them unless a block has no
more, none of them past its reservation. -/
structure RoomFor (F : Families I E S M) (count : Nat) (insns : List (I × U32)) (l : S) : Prop where
  room : ∀ front, front <+: insns → count + front.length < maxInsns → Room F (emitInsns F front l)
  fits : ∀ front p, front ++ [p] <+: insns →
    insnBytes F (emitInsns F front l) (emitInsn F (emitInsns F front l) p) ≤ worstCaseInsnBytes

theorem RoomFor.tail {F : Families I E S M} {count : Nat} {p : I × U32} {insns : List (I × U32)}
    {l : S} (h : RoomFor F count (p :: insns) l) : RoomFor F (count + 1) insns (emitInsn F l p) where
  room := by
    intro front hfront hlen
    exact h.room (p :: front) (List.cons_prefix_cons.mpr ⟨rfl, hfront⟩)
      (by rw [List.length_cons]; omega)
  fits := fun front q hfront => h.fits (p :: front) q (List.cons_prefix_cons.mpr ⟨rfl, hfront⟩)

/-- With room for them the loop lowers the instructions one behind the other, and refuses a block
that has none. -/
theorem lowerLoop_decoded {F : Families I E S M} {fetch : Fetch} {boundary : U32 → Bool}
    {eip : U32} (remaining : Nat) : ∀ (l : S) (pc : U32) (count : Nat) (oversized : Bool),
      count + remaining = maxInsns →
      RoomFor F count (decodeFrom F fetch boundary eip remaining pc).insns l →
      let d := decodeFrom F fetch boundary eip remaining pc
      lowerLoop F fetch boundary eip remaining l pc count oversized =
          .ok ⟨emitInsns F d.insns l, d.pc, count + d.insns.length, d.exit, d.terminated,
            oversized⟩ ∨
        count + d.insns.length = 0 ∧
          ∃ status, lowerLoop F fetch boundary eip remaining l pc count oversized =
            .error status := by
  induction remaining with
  | zero => exact fun l pc count oversized _ _ => .inl rfl
  | succ remaining ih =>
    intro l pc count oversized hcount hroom
    have hfirst : ¬ F.here l + worstCaseInsnBytes + exitBytes + chainReserve (F.chain l) > F.cap l :=
      Nat.not_lt.mpr (hroom.room [] List.nil_prefix (by rw [List.length_nil]; omega))
    rw [decodeFrom_succ] at hroom ⊢
    rw [lowerLoop_round hfirst]
    cases hnext : nextInsn F fetch boundary eip pc with
    | inr stop =>
      obtain ⟨exit, status⟩ := stop
      dsimp only
      -- nothing is lowered behind the instructions there are, and a first one must be
      cases hstop : if count = 0 then status else none with
      | none => exact .inl rfl
      | some why =>
        have hzero : count = 0 := by
          by_contra hne
          rw [if_neg hne] at hstop
          cases hstop
        exact .inr ⟨hzero, why, rfl⟩
    | inl insn =>
      have hsize (rest : List (I × U32)) (hfits : RoomFor F count ((insn, pc) :: rest) l) :
          (oversized || decide (insnBytes F l (emitInsn F l (insn, pc)) > worstCaseInsnBytes)) =
            oversized := by
        have hle : ¬ insnBytes F l (emitInsn F l (insn, pc)) > worstCaseInsnBytes :=
          Nat.not_lt.mpr (hfits.fits [] (insn, pc) (List.prefix_append [(insn, pc)] rest))
        rw [decide_eq_false hle, Bool.or_false]
      rw [hnext] at hroom
      dsimp only at hroom ⊢
      by_cases hlast : (F.terminates insn && !F.continues insn) = true
      · rw [if_pos hlast] at hroom
        rw [if_pos hlast, if_pos hlast, hsize [] hroom]
        exact .inl rfl
      · rw [if_neg hlast] at hroom
        rw [if_neg hlast, if_neg hlast, hsize _ hroom]
        obtain hok | ⟨hnone, -⟩ := ih (emitInsn F l (insn, pc))
          (pc + BitVec.ofNat 32 (F.length insn)) (count + 1) oversized (by omega) hroom.tail
        · refine .inl (hok.trans ?_)
          dsimp only
          rw [List.length_cons, Nat.add_right_comm, Nat.add_assoc]
          rfl
        · omega

/-! ## Where a lowered block ends

Whatever the families emit, and wherever room runs out. -/

/-- The address behind instructions. -/
def addressBehind (F : Families I E S M) (insns : List (I × U32)) (pc : U32) : U32 :=
  insns.foldl (fun pc p => pc + BitVec.ofNat 32 (F.length p.1)) pc

theorem lowerLoop_ends {F : Families I E S M} {fetch : Fetch} {boundary : U32 → Bool} {eip : U32}
    {r : LoopEnd S} (remaining : Nat) : ∀ (l : S) (pc : U32) (count : Nat) (oversized : Bool),
      lowerLoop F fetch boundary eip remaining l pc count oversized = .ok r →
      ∃ front, front <+: (decodeFrom F fetch boundary eip remaining pc).insns ∧
        r.count = count + front.length ∧ r.pc = addressBehind F front pc := by
  induction remaining with
  | zero =>
    intro l pc count oversized h
    cases h
    exact ⟨[], List.nil_prefix, rfl, rfl⟩
  | succ remaining ih =>
    intro l pc count oversized h
    obtain ⟨exit, rfl, -⟩ | ⟨insn, oversized', hinsn, hrest⟩ := lowerLoop_ok h
    · exact ⟨[], List.nil_prefix, rfl, rfl⟩
    · rw [decodeFrom_succ, hinsn]
      dsimp only
      by_cases hlast : (F.terminates insn && !F.continues insn) = true
      · rw [if_pos hlast] at hrest ⊢
        rw [hrest]
        exact ⟨[(insn, pc)], List.cons_prefix_cons.mpr ⟨rfl, List.nil_prefix⟩, rfl, rfl⟩
      · rw [if_neg hlast] at hrest ⊢
        obtain ⟨front, hfront, hcount, hpc⟩ := ih _ _ _ _ hrest
        refine ⟨(insn, pc) :: front, List.cons_prefix_cons.mpr ⟨rfl, hfront⟩, ?_, hpc⟩
        rw [hcount, List.length_cons]
        omega

/-- A block ends behind one of the instructions at its address. -/
structure EndsBehind (F : Families I E S M) (fetch : Fetch) (boundary : U32 → Bool)
    (guest len : U32) : Prop where
  front : ∃ front, front <+: (decodeBlock F fetch boundary guest).insns ∧ front ≠ [] ∧
    addressBehind F front guest - guest = len

theorem lowerBlock_ends {F : Families I E S M} {m m' : E} {fetch : Fetch} {eip : U32}
    {boundary : U32 → Bool} {chain : ChainUse} {leaf : LeafUse} {block : JitBlock}
    (h : lowerBlock F m fetch eip boundary chain leaf = .ok (block, m')) :
    EndsBehind F fetch boundary eip block.guestLen := by
  unfold lowerBlock at h
  dsimp only at h
  split at h
  · cases h
  · split at h
    · cases h
    · rename_i r hloop
      split_ifs at h with _ _ _ hcount
      obtain ⟨front, hfront, hlen, hpc⟩ := lowerLoop_ends maxInsns _ _ _ _ hloop
      obtain ⟨rfl, -⟩ := Prod.mk.inj (Except.ok.inj h)
      refine ⟨front, hfront, fun hempty => hcount ?_, congrArg (· - eip) hpc.symm⟩
      rw [hlen, hempty]
      rfl

theorem lowerBodies_ends {F : Families I E S M} {fetch : Fetch} {boundary : U32 → Bool}
    (items : List BatchItem) : ∀ {k : Nat} {m m' : E} {lowered : List JitBlock},
      lowerBodies F fetch boundary k m items = .ok (lowered, m') →
      List.Forall₂ (fun item block => EndsBehind F fetch boundary item.eip block.guestLen)
        items lowered := by
  induction items with
  | nil =>
    intro k m m' lowered h
    cases h
    exact .nil
  | cons item items ih =>
    intro k m m' lowered h
    unfold lowerBodies at h
    split at h
    · cases h
    · rename_i block m1 hblock
      cases hrest : lowerBodies F fetch boundary (k + 1) m1 items with
      | error why =>
        rw [hrest] at h
        cases h
      | ok rest =>
        rw [hrest] at h
        cases h
        have hends := lowerBlock_ends hblock
        exact .cons hends (ih hrest)

theorem translateBatch_ends {F : Families I E S M} {fetch : Fetch} {boundary : U32 → Bool}
    {bufferBytes : Nat} {items : List BatchItem} {bytes : M} {lowered : List JitBlock}
    (h : translateBatch F fetch boundary bufferBytes items = .ok (bytes, lowered)) :
    List.Forall₂ (fun item block => EndsBehind F fetch boundary item.eip block.guestLen)
      items lowered := by
  unfold translateBatch at h
  split_ifs at h
  split at h
  · cases h
  · rename_i blocks m hbodies
    split at h
    · cases h
    · cases h
      exact lowerBodies_ends items hbodies

/-! ## What the families promise -/

/-- A module with room for `n` bodies and `k` of them written. -/
inductive Built (F : Families I E S M) (bufferBytes n : Nat) : Nat → E → Prop where
  | start : Built F bufferBytes n 0 (F.moduleInit bufferBytes n)
  | body {k : Nat} {m : E} {eip : U32} {use : ChainUse} {leaf : Option LeafUse} {body : S}
    {d : DecodedBlock I} (h : Built F bufferBytes n k m)
    (hbody : F.bodyBegin m eip use leaf = some body) (hlen : d.insns.length ≤ maxInsns) :
    Built F bufferBytes n (k + 1) (F.bodyEnd (emitBlock F d body))

/-- A buffer of so many bytes takes `n` bodies: none begins without room for the longest block, no
instruction and no chained exit comes out past its reservation, and the module closes. -/
structure Families.Roomy (F : Families I E S M) (bufferBytes n : Nat) : Prop where
  begins : ∀ {k m}, Built F bufferBytes n k m → k < n → ∀ eip use leaf,
    ∃ body, F.bodyBegin m eip use leaf = some body
  room : ∀ {k m}, Built F bufferBytes n k m → k < n → ∀ {eip use leaf body},
    F.bodyBegin m eip use leaf = some body → ∀ insns, insns.length < maxInsns →
      Room F (emitInsns F insns body)
  fits : ∀ {k m}, Built F bufferBytes n k m → k < n → ∀ {eip use leaf body},
    F.bodyBegin m eip use leaf = some body → ∀ insns p, insns.length < maxInsns →
      insnBytes F (emitInsns F insns body) (emitInsn F (emitInsns F insns body) p) ≤
        worstCaseInsnBytes
  closes : ∀ {k m}, Built F bufferBytes n k m → k < n → ∀ {eip use leaf body},
    F.bodyBegin m eip use leaf = some body → ∀ d, d.insns.length ≤ maxInsns →
      (F.chain (emitBlock F d body)).oversized = false ∧
        F.intact (F.bodyEnd (emitBlock F d body)) = true
  finishes : ∀ {m}, Built F bufferBytes n n m → ∃ bytes, F.finish m = some bytes

/-- How many exits of a body can have a slot. -/
def slotLimit (use : ChainUse) : Nat :=
  match use.chain with
  | none => 0
  | some pool =>
    match use.reuse with
    | some (_, count) => min chainSlots count
    | none => min chainSlots (pool.capacity - pool.claimed)

/-- The chained exits of a block, with the one it leaves through where no branch ended it. -/
def exitCount (exits : Option LeafUse → I → U32 → Nat) (leaf : Option LeafUse)
    (d : DecodedBlock I) : Nat :=
  (d.insns.map fun p => exits leaf p.1 p.2).sum +
    if !d.terminated && decide (d.exit = .blockEnd) then 1 else 0

/-- The leaf site of a block lowered again: the one it has, for a CALL that takes one. -/
def siteOf (sited : I → Bool) (leaf : Option LeafUse) (d : DecodedBlock I) : Option Nat :=
  if d.insns.any fun p => sited p.1 then leaf.bind LeafUse.site else none

/-- Each instruction has so many chained exits, which take slots while there are any, and a
relowered CALL that takes a leaf site takes the one it is given. -/
structure Families.Exits (F : Families I E S M) (exits : Option LeafUse → I → U32 → Nat)
    (sited : I → Bool) : Prop where
  slotted : ∀ {m eip use leaf body}, F.bodyBegin m eip use leaf = some body → ∀ d,
    (F.chain (emitBlock F d body)).slotted = min (slotLimit use) (exitCount exits leaf d)
  site : ∀ {m eip use leaf body}, F.bodyBegin m eip use leaf = some body →
    (∀ l, leaf = some l → l.relowering = true) → ∀ d,
      F.leafSite (emitBlock F d body) = siteOf sited leaf d

/-! ## Lowering what was decoded -/

/-- The leaves of a block that chains. -/
def leafOf (chain : ChainUse) (leaf : LeafUse) : Option LeafUse :=
  if chain.chain.isSome && leaf.resolve then some leaf else none

/-- A block that was lowered from the instructions at its address. -/
structure LoweredFrom (exits : Option LeafUse → I → U32 → Nat) (sited : I → Bool)
    (d : DecodedBlock I) (item : BatchItem) (block : JitBlock) : Prop where
  insns : d.insns ≠ []
  guestEip : block.guestEip = item.eip
  guestLen : block.guestLen = d.pc - item.eip
  chainExits : block.chainExits =
    min (slotLimit item.chain) (exitCount exits (leafOf item.chain item.leaf) d)
  leafSite : block.leafSite = siteOf sited (leafOf item.chain item.leaf) d

theorem lowerBlock_ok {F : Families I E S M} {m : E} {fetch : Fetch} {eip : U32}
    {boundary : U32 → Bool} {chain : ChainUse} {leaf : LeafUse} {body : S} {r : LoopEnd S}
    (hbody : F.bodyBegin m eip chain (leafOf chain leaf) = some body)
    (hloop : lowerLoop F fetch boundary eip maxInsns body eip 0 false = .ok r)
    (hfits : r.oversized = false) (hchain : (F.chain (closeBlock F r)).oversized = false)
    (hintact : F.intact (F.bodyEnd (closeBlock F r)) = true) :
    lowerBlock F m fetch eip boundary chain leaf =
      if r.count = 0 then .error .unsupportedAtEntry
      else
        .ok ({
          entry := none
          guestEip := eip
          guestLen := r.pc - eip
          insns := r.count
          hostBytes := F.here (closeBlock F r) - F.here body
          chainExits := (F.chain (closeBlock F r)).slotted
          chainExitsDirect := (F.chain (closeBlock F r)).direct
          chainFirstSlot := (F.chain (closeBlock F r)).first
          leafSite := F.leafSite (closeBlock F r) }, F.bodyEnd (closeBlock F r)) := by
  have hleaf : (if (chain.chain.isSome && leaf.resolve) = true then some leaf else none) =
      leafOf chain leaf := rfl
  unfold lowerBlock
  simp only [hleaf, hbody, hloop, hfits, hchain, hintact, Bool.false_eq_true, if_false,
    Bool.not_true]

theorem lowerBlock_error {F : Families I E S M} {m : E} {fetch : Fetch} {eip : U32}
    {boundary : U32 → Bool} {chain : ChainUse} {leaf : LeafUse} {body : S} {status : JitStatus}
    (hbody : F.bodyBegin m eip chain (leafOf chain leaf) = some body)
    (hloop : lowerLoop F fetch boundary eip maxInsns body eip 0 false = .error status) :
    lowerBlock F m fetch eip boundary chain leaf = .error status := by
  have hleaf : (if (chain.chain.isSome && leaf.resolve) = true then some leaf else none) =
      leafOf chain leaf := rfl
  unfold lowerBlock
  simp only [hleaf, hbody, hloop]

section Batch

variable {F : Families I E S M} {exits : Option LeafUse → I → U32 → Nat} {sited : I → Bool}
  {bufferBytes n : Nat} (hroomy : F.Roomy bufferBytes n) (hexits : F.Exits exits sited)
  {fetch : Fetch} {boundary : U32 → Bool}

include hroomy hexits

variable (fetch : Fetch) (boundary : U32 → Bool)

/-- Where the module has room the block is lowered from the instructions at its address, and
refused only where there are none. -/
theorem lowerBlock_decoded {k : Nat} {m : E} (hm : Built F bufferBytes n k m) (hk : k < n)
    {item : BatchItem} (hleaf : item.leaf.relowering = true) :
    ((decodeBlock F fetch boundary item.eip).insns = [] ∧
      ∃ status, lowerBlock F m fetch item.eip boundary item.chain item.leaf = .error status) ∨
    ∃ block m', lowerBlock F m fetch item.eip boundary item.chain item.leaf = .ok (block, m') ∧
      Built F bufferBytes n (k + 1) m' ∧
      LoweredFrom exits sited (decodeBlock F fetch boundary item.eip) item block := by
  set d := decodeBlock F fetch boundary item.eip with hd
  have hlen : d.insns.length ≤ maxInsns :=
    length_decodeFrom F fetch boundary item.eip maxInsns item.eip
  obtain ⟨body, hbody⟩ := hroomy.begins hm hk item.eip item.chain (leafOf item.chain item.leaf)
  have hrelowering : ∀ l, leafOf item.chain item.leaf = some l → l.relowering = true := by
    intro l hl
    unfold leafOf at hl
    split_ifs at hl
    rw [← Option.some.inj hl]
    exact hleaf
  have hfor : RoomFor F 0 d.insns body := by
    refine ⟨fun front _ hfront => hroomy.room hm hk hbody front (by omega),
      fun front p hfront => hroomy.fits hm hk hbody front p ?_⟩
    have hprefix := hfront.length_le
    rw [List.length_append, List.length_singleton] at hprefix
    omega
  obtain ⟨hsize, hintact⟩ := hroomy.closes hm hk hbody d hlen
  have hloop := @lowerLoop_decoded _ _ _ _ F fetch boundary item.eip maxInsns body item.eip 0 false
    (Nat.zero_add _) hfor
  have hblock : decodeFrom F fetch boundary item.eip maxInsns item.eip = d := rfl
  dsimp only at hloop
  rw [Nat.zero_add, hblock] at hloop
  obtain hok | ⟨hnone, status, herror⟩ := hloop
  · have hlowered := lowerBlock_ok hbody hok rfl hsize hintact
    dsimp only at hlowered
    by_cases hempty : d.insns = []
    · have hzero : d.insns.length = 0 := List.length_eq_zero_iff.mpr hempty
      rw [if_pos hzero] at hlowered
      exact .inl ⟨hempty, _, hlowered⟩
    · have hpos : d.insns.length ≠ 0 := fun h => hempty (List.length_eq_zero_iff.mp h)
      rw [if_neg hpos] at hlowered
      exact .inr ⟨_, _, hlowered, hm.body hbody hlen, hempty, rfl, rfl, hexits.slotted hbody d,
        hexits.site hbody hrelowering d⟩
  · exact .inl ⟨List.length_eq_zero_iff.mp hnone, status, lowerBlock_error hbody herror⟩

/-- The bodies of a batch: all of them are lowered unless one has no instruction. -/
theorem lowerBodies_decoded (items : List BatchItem) : ∀ {k : Nat} {m : E},
    Built F bufferBytes n k m → k + items.length = n →
    (∀ item ∈ items, item.leaf.relowering = true) →
    ((∃ item ∈ items, (decodeBlock F fetch boundary item.eip).insns = []) ∧
      ∃ why, lowerBodies F fetch boundary k m items = .error why) ∨
    ∃ lowered m', lowerBodies F fetch boundary k m items = .ok (lowered, m') ∧
      Built F bufferBytes n n m' ∧ List.Forall₂ (fun item block =>
        LoweredFrom exits sited (decodeBlock F fetch boundary item.eip) item block) items lowered := by
  induction items with
  | nil =>
    intro k m hm hk _
    obtain rfl : k = n := by simpa using hk
    exact .inr ⟨[], m, rfl, hm, .nil⟩
  | cons item items ih =>
    intro k m hm hk hleaf
    rw [List.length_cons] at hk
    unfold lowerBodies
    obtain ⟨hempty, status, herror⟩ | ⟨block, m1, hok, hm1, hfrom⟩ :=
      lowerBlock_decoded hroomy hexits fetch boundary hm (by omega)
        (hleaf item List.mem_cons_self)
    · rw [herror]
      exact .inl ⟨⟨item, List.mem_cons_self, hempty⟩, _, rfl⟩
    · rw [hok]
      dsimp only
      obtain ⟨⟨other, hmem, hempty⟩, why, herror⟩ | ⟨lowered, m', hrest, hm', hall⟩ :=
        ih hm1 (by omega) fun x hx => hleaf x (List.mem_cons_of_mem _ hx)
      · rw [herror]
        exact .inl ⟨⟨other, List.mem_cons_of_mem _ hmem, hempty⟩, why, rfl⟩
      · rw [hrest]
        exact .inr ⟨_, m', rfl, hm', .cons
          ⟨hfrom.insns, hfrom.guestEip, hfrom.guestLen, hfrom.chainExits, hfrom.leafSite⟩ hall⟩

theorem translateBatch_decoded {items : List BatchItem} (hn : items.length = n)
    (hpos : 1 ≤ items.length) (hmax : items.length ≤ maxBodies)
    (hleaf : ∀ item ∈ items, item.leaf.relowering = true) :
    ((∃ item ∈ items, (decodeBlock F fetch boundary item.eip).insns = []) ∧
      ∃ why, translateBatch F fetch boundary bufferBytes items = .error why) ∨
    ∃ bytes lowered, translateBatch F fetch boundary bufferBytes items = .ok (bytes, lowered) ∧
      List.Forall₂ (fun item block =>
        LoweredFrom exits sited (decodeBlock F fetch boundary item.eip) item block) items lowered := by
  unfold translateBatch
  rw [if_neg (by omega), if_neg (by omega), hn]
  obtain ⟨hempty, why, herror⟩ | ⟨lowered, m', hok, hm', hall⟩ :=
    lowerBodies_decoded hroomy hexits fetch boundary items .start
      (by omega) hleaf
  · rw [herror]
    exact .inl ⟨hempty, why, rfl⟩
  · obtain ⟨bytes, hbytes⟩ := hroomy.finishes hm'
    rw [hok]
    dsimp only
    rw [hbytes]
    exact .inr ⟨bytes, lowered, rfl, hall⟩

end Batch

/-! ## Families of two instructions -/

def shortExits (_ : Option LeafUse) (insn : ShortInsn) (_ : U32) : Nat :=
  if insn = .ret then 1 else 0

/-- A body with so many operations, behind so many exits. -/
structure ShortAt (m : ShortModule) (use : ChainUse) (ops exits : Nat) (l : ShortBody) : Prop where
  inModule : l.module = m
  used : l.use = use
  length : l.ops.length = ops
  slotted : l.chain.slotted = min (slotLimit use) exits
  bytes : l.chain.bytes = 0
  oversized : l.chain.oversized = false

theorem takeSlot_isSome (use : ChainUse) (slotted : Nat) :
    (takeSlot use slotted).isSome = true ↔ slotted < slotLimit use := by
  unfold takeSlot slotLimit
  cases use.chain with
  | none => simp
  | some pool =>
    dsimp only
    cases use.reuse with
    | none =>
      dsimp only
      split_ifs <;> simp <;> omega
    | some reuse =>
      dsimp only
      split_ifs <;> simp <;> omega

section Short

variable {m : ShortModule} {use : ChainUse} {ops exits : Nat} {l : ShortBody}

theorem ShortAt.leave (h : ShortAt m use ops exits l) (exit : JitExit) :
    ShortAt m use (ops + 1) (exits + if exit = .blockEnd then 1 else 0) (l.leave exit) := by
  have hslotted := h.slotted
  have hlength (op : ShortOp) : (l.ops ++ [op]).length = ops + 1 := by
    rw [List.length_append, h.length, List.length_singleton]
  unfold ShortBody.leave
  by_cases hend : exit = .blockEnd
  · rw [if_pos hend, if_pos hend]
    have htaken := takeSlot_isSome l.use l.chain.slotted
    rw [h.used] at htaken ⊢
    cases hslot : takeSlot use l.chain.slotted with
    | none =>
      rw [hslot] at htaken
      have hfull : ¬ l.chain.slotted < slotLimit use := fun hless => by cases htaken.mpr hless
      refine ⟨h.inModule, rfl, hlength _, ?_, h.bytes, h.oversized⟩
      dsimp only
      omega
    | some slot =>
      rw [hslot] at htaken
      have hless := htaken.mp rfl
      refine ⟨h.inModule, rfl, hlength _, ?_, h.bytes, h.oversized⟩
      dsimp only
      omega
  · rw [if_neg hend, if_neg hend]
    exact ⟨h.inModule, h.used, hlength _, h.slotted, h.bytes, h.oversized⟩

theorem ShortAt.insn (h : ShortAt m use ops exits l) (p : ShortInsn × U32) :
    ShortAt m use (ops + 1) (exits + shortExits none p.1 p.2) (emitInsn shortFamilies l p) := by
  obtain ⟨insn, pc⟩ := p
  cases insn with
  | movEax imm =>
    have hlength : (l.ops ++ [ShortOp.setEax imm]).length = ops + 1 := by
      rw [List.length_append, h.length, List.length_singleton]
    exact ⟨h.inModule, h.used, hlength, h.slotted, h.bytes, h.oversized⟩
  | ret => exact h.leave .blockEnd

theorem ShortAt.insns (insns : List (ShortInsn × U32)) : ∀ {ops exits : Nat} {l : ShortBody},
    ShortAt m use ops exits l →
      ShortAt m use (ops + insns.length) (exits + (insns.map fun p => shortExits none p.1 p.2).sum)
        (emitInsns shortFamilies insns l) := by
  induction insns with
  | nil => exact fun h => h
  | cons p insns ih =>
    intro ops exits l h
    have hrest := ih (h.insn p)
    rw [Nat.add_right_comm ops 1] at hrest
    rw [List.length_cons, List.map_cons, List.sum_cons, ← Nat.add_assoc exits]
    exact hrest

theorem ShortAt.block (h : ShortAt m use 0 0 l) (d : DecodedBlock ShortInsn) :
    ∃ ops ≤ d.insns.length + 1, ShortAt m use ops (exitCount shortExits none d)
      (emitBlock shortFamilies d l) := by
  have hinsns := h.insns d.insns
  rw [Nat.zero_add, Nat.zero_add] at hinsns
  unfold emitBlock exitCount
  by_cases hterminated : d.terminated = true
  · rw [if_pos hterminated, if_neg (by simp [hterminated])]
    exact ⟨d.insns.length, Nat.le_succ _, hinsns⟩
  · rw [if_neg hterminated]
    refine ⟨d.insns.length + 1, Nat.le_refl _, ?_⟩
    have hcount : (if (!d.terminated && decide (d.exit = .blockEnd)) = true then 1 else 0) =
        if d.exit = .blockEnd then 1 else 0 := by
      rw [Bool.eq_false_of_not_eq_true hterminated]
      simp
    rw [hcount]
    exact hinsns.leave d.exit

theorem shortAt_begin {m : ShortModule} {eip : U32} {use : ChainUse} {leaf : Option LeafUse}
    {body : ShortBody} (h : shortFamilies.bodyBegin m eip use leaf = some body) :
    ShortAt m use 0 0 body := by
  change (if m.bodies.length < m.promised then _ else none) = _ at h
  split_ifs at h
  cases h
  exact ⟨rfl, rfl, rfl, (Nat.min_zero _).symm, rfl, rfl⟩

end Short

theorem shortFamilies_exits : shortFamilies.Exits shortExits fun _ => false where
  slotted := by
    intro m eip use leaf body hbody d
    obtain ⟨ops, -, h⟩ := (shortAt_begin hbody).block d
    exact h.slotted
  site := by
    intro m eip use leaf body _ _ d
    change none = _
    unfold siteOf
    rw [if_neg (by simp)]

/-- A buffer of the size of the largest module takes one body. -/
theorem shortFamilies_roomy : shortFamilies.Roomy maxModuleBytes 1 := by
  have hinit {k : Nat} {m : ShortModule} (hm : Built shortFamilies maxModuleBytes 1 k m)
      (hk : k < 1) : m = ⟨[], 1, maxModuleBytes⟩ := by
    cases hm with
    | start => rfl
    | body h hbody hlen => omega
  have hhere {m : ShortModule} {use : ChainUse} {ops exits : Nat} {l : ShortBody}
      (hm : m = ⟨[], 1, maxModuleBytes⟩) (h : ShortAt m use ops exits l) :
      shortFamilies.here l = moduleOverheadBytes + ops := by
    change moduleOverheadBytes + l.module.bodies.flatten.length + l.ops.length = _
    rw [h.inModule, h.length, hm]
    rfl
  constructor
  case begins =>
    intro k m hm hk eip use leaf
    rw [hinit hm hk]
    exact ⟨_, rfl⟩
  case room =>
    intro k m hm hk eip use leaf body hbody insns hlen
    have h := (shortAt_begin hbody).insns insns
    have hreserve : chainReserve (emitInsns shortFamilies insns body).chain ≤
        chainSlots * chainExitBytes := by
      unfold chainReserve
      split_ifs
      · exact Nat.zero_le _
      · exact Nat.mul_le_mul_right _ (Nat.sub_le _ _)
    have hcap : shortFamilies.cap (emitInsns shortFamilies insns body) = maxModuleBytes := by
      change (emitInsns shortFamilies insns body).module.cap = _
      rw [h.inModule, hinit hm hk]
    unfold Room
    change _ + chainReserve (emitInsns shortFamilies insns body).chain ≤ _
    rw [hhere (hinit hm hk) h, hcap]
    unfold maxModuleBytes maxInsns worstCaseInsnBytes at *
    omega
  case fits =>
    intro k m hm hk eip use leaf body hbody insns p _
    have h := (shortAt_begin hbody).insns insns
    unfold insnBytes
    rw [hhere (hinit hm hk) h, hhere (hinit hm hk) (h.insn p)]
    unfold worstCaseInsnBytes
    omega
  case closes =>
    intro k m hm hk eip use leaf body hbody d hlen
    obtain ⟨ops, -, h⟩ := (shortAt_begin hbody).block d
    exact ⟨h.oversized, rfl⟩
  case finishes =>
    intro m hm
    cases hm with
    | @body _ m eip use leaf body d h hbody hlen =>
      obtain ⟨ops, -, hat⟩ := (shortAt_begin hbody).block d
      have hclosed : (emitBlock shortFamilies d body).module.bodies.length + 1 =
          (emitBlock shortFamilies d body).module.promised := by
        rw [hat.inModule, hinit h (Nat.lt_succ_self 0)]
        rfl
      refine ⟨_, if_pos ?_⟩
      change ((emitBlock shortFamilies d body).module.bodies ++ [_]).length = _
      rw [List.length_append, List.length_singleton]
      exact hclosed

end X86Port.Wasm
