import X86Port.Jit.Block
import X86Port.Wasm.Host

/-!
# Lowering blocks to WebAssembly

`jit_wasm_lower.c` and the batch of `jit_wasm_compact.c`: the block loop over the decoder and
the instruction families, which are a parameter. The loop decides where a block ends; the
families emit.

* `lowerBlock_guest`: a lowered block starts at its address and is not empty.
-/

namespace X86Port.Wasm

open Jit

def maxInsns : Nat := 64
def maxInsnLen : Nat := 15
def worstCaseInsnBytes : Nat := 512
def exitBytes : Nat := 24
def chainSlots : Nat := 4
def chainExitBytes : Nat := 320

/-- The slots a first lowering claims from. -/
structure ChainPool where
  claimed : Nat
  capacity : Nat
deriving DecidableEq

/-- A block of the same module: its address, its table entry, its function. -/
structure Sibling where
  guest : U32
  entry : Nat
  function : Nat
deriving DecidableEq

/-- Where a block's exits find their slots. With `reuse`, the first and the number of slots it
was published with. -/
structure ChainUse where
  chain : Option ChainPool
  reuse : Option (Nat × Nat)
  siblings : List Sibling
deriving DecidableEq

/-- How a block's CALLs find their leaves. -/
structure LeafUse where
  resolve : Bool
  relowering : Bool
  site : Option Nat
deriving DecidableEq

/-- What the chained exits of a block took. -/
structure ChainExits where
  chained : Bool
  first : Option Nat
  slotted : Nat
  bytes : Nat
  oversized : Bool
  direct : Nat
deriving DecidableEq

/-- The decoder, the instruction families and the module builder: instructions `I`, modules
being built `E`, open bodies `S` and finished modules `M`. -/
structure Families (I E S M : Type) where
  decode : List U8 → Option I
  length : I → Nat
  accepts : I → Bool
  terminates : I → Bool
  continues : I → Bool
  lower : I → U32 → S → S
  continueLower : I → U32 → S → S
  exitImm : U32 → JitExit → S → S
  moduleInit : Nat → Nat → E
  bodyBegin : E → U32 → ChainUse → Option LeafUse → Option S
  bodyEnd : S → E
  finish : E → Option M
  size : M → Nat
  here : S → Nat
  cap : S → Nat
  intact : E → Bool
  chain : S → ChainExits
  leafSite : S → Option Nat

/-- The bytes of guest memory that can be read. -/
abbrev Fetch := U32 → Option U8

/-- Up to `n` bytes from `pc` on, to the first that cannot be read. -/
def fetchInsn (fetch : Fetch) (pc : U32) : Nat → List U8
  | 0 => []
  | n + 1 =>
    match fetch pc with
    | none => []
    | some byte => byte :: fetchInsn fetch (pc + 1) n

/-- What the exits not yet slotted may still take. -/
def chainReserve (c : ChainExits) : Nat :=
  if !c.chained || decide (c.slotted ≥ chainSlots) then 0
  else (chainSlots - c.slotted) * chainExitBytes

section Lower

variable {I E S M : Type}

/-- Where the block loop stopped. -/
structure LoopEnd (S : Type) where
  state : S
  pc : U32
  count : Nat
  exit : JitExit
  terminated : Bool
  oversized : Bool

/-- The block loop, with the instructions it may still take. -/
def lowerLoop (F : Families I E S M) (fetch : Fetch) (boundary : U32 → Bool) (eip : U32) :
    Nat → S → U32 → Nat → Bool → Except JitStatus (LoopEnd S)
  | 0, l, pc, count, oversized => .ok ⟨l, pc, count, .blockEnd, false, oversized⟩
  | remaining + 1, l, pc, count, oversized =>
    let ended : Except JitStatus (LoopEnd S) := .ok ⟨l, pc, count, .blockEnd, false, oversized⟩
    if F.here l + worstCaseInsnBytes + exitBytes + chainReserve (F.chain l) > F.cap l then ended
    else
      let bytes := fetchInsn fetch pc maxInsnLen
      if bytes = [] then
        if count = 0 then .error .fetchFault else ended
      else
        match F.decode bytes with
        | none => if count = 0 then .error .decodeFailed else ended
        | some insn =>
          if pc ≠ eip ∧ boundary pc then ended
          else if !F.accepts insn then
            if count = 0 then .error .unsupportedAtEntry
            else .ok ⟨l, pc, count, .unsupported, false, oversized⟩
          else
            -- a conditional hands the block the rest of its fall-through
            let keepGoing := F.terminates insn && F.continues insn
            let after := if keepGoing then F.continueLower insn pc l else F.lower insn pc l
            let insnBytes := F.here after - F.here l - ((F.chain after).bytes - (F.chain l).bytes)
            let oversized := oversized || decide (insnBytes > worstCaseInsnBytes)
            let pc := pc + BitVec.ofNat 32 (F.length insn)
            if !keepGoing && F.terminates insn then
              .ok ⟨after, pc, count + 1, .blockEnd, true, oversized⟩
            else lowerLoop F fetch boundary eip remaining after pc (count + 1) oversized

/-- A body no branch ended leaves for where the loop stopped. -/
def closeBlock (F : Families I E S M) (r : LoopEnd S) : S :=
  if r.terminated then r.state else F.exitImm r.pc r.exit r.state

def lowerBlock (F : Families I E S M) (m : E) (fetch : Fetch) (eip : U32)
    (boundary : U32 → Bool) (chain : ChainUse) (leaf : LeafUse) :
    Except JitStatus (JitBlock × E) :=
  -- a leaf returns into the block through a chained exit
  let leaf := if chain.chain.isSome && leaf.resolve then some leaf else none
  match F.bodyBegin m eip chain leaf with
  | none => .error .outOfSpace
  | some body =>
    match lowerLoop F fetch boundary eip maxInsns body eip 0 false with
    | .error status => .error status
    | .ok r =>
      let l := closeBlock F r
      let m := F.bodyEnd l
      if r.oversized then .error .outOfSpace
      else if (F.chain l).oversized then .error .outOfSpace
      else if !F.intact m then .error .outOfSpace
      else if r.count = 0 then .error .unsupportedAtEntry
      else
        .ok ({
          entry := none
          guestEip := eip
          guestLen := r.pc - eip
          insns := r.count
          hostBytes := F.here l - F.here body
          chainExits := (F.chain l).slotted
          chainExitsDirect := (F.chain l).direct
          chainFirstSlot := (F.chain l).first
          leafSite := F.leafSite l }, m)

/-- The sections around the bodies, with their 48 imports. -/
def moduleOverheadBytes : Nat := 512 + 48 * 48

def minModuleBytes : Nat :=
  worstCaseInsnBytes + moduleOverheadBytes + exitBytes + chainSlots * chainExitBytes

def maxModuleBytes : Nat :=
  maxInsns * worstCaseInsnBytes + moduleOverheadBytes + exitBytes + chainSlots * chainExitBytes

/-- One block in a module of its own: `x86p_jit_translate_bounded`. -/
def translateBounded (F : Families I E S M) (fetch : Fetch) (eip : U32) (codeCap : Nat)
    (boundary : U32 → Bool) (chain : Option ChainPool) (leaf : LeafUse) :
    Except JitStatus (JitBlock × M) :=
  if codeCap < minModuleBytes then .error .outOfSpace
  else
    match lowerBlock F (F.moduleInit codeCap 1) fetch eip boundary ⟨chain, none, []⟩ leaf with
    | .error status => .error status
    | .ok (block, m) =>
      match F.finish m with
      | none => .error .outOfSpace
      | some bytes => .ok ({ block with hostBytes := F.size bytes }, bytes)

/-! ## A batch in one module -/

/-- One block of a batch: its address and how its exits and its CALL are lowered. -/
structure BatchItem where
  eip : U32
  chain : ChainUse
  leaf : LeafUse

/-- Why a batch gave no module: the cases of its message. -/
inductive BatchRefusal where
  | nullArgument
  | tooManyBlocks (count : Nat)
  | notLowered (index : Nat) (eip : U32) (status : JitStatus)
  | notClosed
deriving DecidableEq

/-- The bodies of a batch, in order, with `index` already written. -/
def lowerBodies (F : Families I E S M) (fetch : Fetch) (boundary : U32 → Bool) :
    Nat → E → List BatchItem → Except BatchRefusal (List JitBlock × E)
  | _, m, [] => .ok ([], m)
  | index, m, item :: items =>
    match lowerBlock F m fetch item.eip boundary item.chain item.leaf with
    | .error status => .error (.notLowered index item.eip status)
    | .ok (block, m) =>
      (lowerBodies F fetch boundary (index + 1) m items).map fun (blocks, m) =>
        ({ block with hostBytes := 0 } :: blocks, m)

def translateBatch (F : Families I E S M) (fetch : Fetch) (boundary : U32 → Bool)
    (codeCap : Nat) (items : List BatchItem) : Except BatchRefusal (M × List JitBlock) :=
  if items.length = 0 then .error .nullArgument
  else if items.length > maxBodies then .error (.tooManyBlocks items.length)
  else
    match lowerBodies F fetch boundary 0 (F.moduleInit codeCap items.length) items with
    | .error why => .error why
    | .ok (blocks, m) =>
      match F.finish m with
      | none => .error .notClosed
      | some bytes => .ok (bytes, blocks)

/-! ## What a lowered block covers -/

/-- The decoder names an instruction of at least one and at most the bytes it was given. -/
def Families.Measured (F : Families I E S M) : Prop :=
  ∀ bytes insn, F.decode bytes = some insn → 1 ≤ F.length insn ∧ F.length insn ≤ bytes.length

theorem length_fetchInsn (fetch : Fetch) (n : Nat) :
    ∀ pc, (fetchInsn fetch pc n).length ≤ n := by
  induction n with
  | zero => exact fun _ => Nat.le_refl 0
  | succ n ih =>
    intro pc
    unfold fetchInsn
    cases fetch pc with
    | none => exact Nat.zero_le _
    | some byte => exact Nat.succ_le_succ (ih (pc + 1))

/-- What a family emits for an instruction in the middle of a block. -/
def emitInsn (F : Families I E S M) (l : S) (p : I × U32) : S :=
  if F.terminates p.1 && F.continues p.1 then F.continueLower p.1 p.2 l else F.lower p.1 p.2 l

/-- The bytes of an instruction, its chained exits aside. -/
def insnBytes (F : Families I E S M) (l after : S) : Nat :=
  F.here after - F.here l - ((F.chain after).bytes - (F.chain l).bytes)

/-- The instruction that the loop lowers at an address, or the exit of a block there and the status
of one that has no instruction before it. -/
def nextInsn (F : Families I E S M) (fetch : Fetch) (boundary : U32 → Bool) (eip pc : U32) :
    I ⊕ JitExit × Option JitStatus :=
  let bytes := fetchInsn fetch pc maxInsnLen
  if bytes = [] then .inr (.blockEnd, some .fetchFault)
  else
    match F.decode bytes with
    | none => .inr (.blockEnd, some .decodeFailed)
    | some insn =>
      if pc ≠ eip ∧ boundary pc then .inr (.blockEnd, none)
      else if !F.accepts insn then .inr (.unsupported, some .unsupportedAtEntry)
      else .inl insn

section Round

variable {F : Families I E S M} {fetch : Fetch} {boundary : U32 → Bool} {eip pc : U32}

/-- What the loop knows of an instruction that it lowers. -/
theorem nextInsn_insn {insn : I} (h : nextInsn F fetch boundary eip pc = .inl insn) :
    fetchInsn fetch pc maxInsnLen ≠ [] ∧ F.decode (fetchInsn fetch pc maxInsnLen) = some insn ∧
      F.accepts insn = true := by
  unfold nextInsn at h
  dsimp only at h
  by_cases hbytes : fetchInsn fetch pc maxInsnLen = []
  · rw [if_pos hbytes] at h
    cases h
  rw [if_neg hbytes] at h
  cases hdecode : F.decode (fetchInsn fetch pc maxInsnLen) with
  | none =>
    rw [hdecode] at h
    cases h
  | some i =>
    rw [hdecode] at h
    dsimp only at h
    split_ifs at h with hboundary haccepts
    cases h
    exact ⟨hbytes, rfl, by simpa using haccepts⟩

/-- Where the loop stops: nothing can be read, or decoded, the embedder takes over, or no family
lowers what is there. -/
theorem nextInsn_exit {exit : JitExit} {status : Option JitStatus}
    (h : nextInsn F fetch boundary eip pc = .inr (exit, status)) :
    exit = .blockEnd ∧ fetchInsn fetch pc maxInsnLen = [] ∨
      fetchInsn fetch pc maxInsnLen ≠ [] ∧
        (exit = .blockEnd ∧ F.decode (fetchInsn fetch pc maxInsnLen) = none ∨
          exit = .blockEnd ∧ pc ≠ eip ∧ boundary pc = true ∨
          exit = .unsupported ∧ ∃ insn, F.decode (fetchInsn fetch pc maxInsnLen) = some insn ∧
            F.accepts insn = false) := by
  unfold nextInsn at h
  dsimp only at h
  by_cases hbytes : fetchInsn fetch pc maxInsnLen = []
  · rw [if_pos hbytes] at h
    cases h
    exact .inl ⟨rfl, hbytes⟩
  rw [if_neg hbytes] at h
  refine .inr ⟨hbytes, ?_⟩
  cases hdecode : F.decode (fetchInsn fetch pc maxInsnLen) with
  | none =>
    rw [hdecode] at h
    cases h
    exact .inl ⟨rfl, rfl⟩
  | some i =>
    rw [hdecode] at h
    dsimp only at h
    split_ifs at h with hboundary hrefused
    · cases h
      exact .inr (.inl ⟨rfl, hboundary⟩)
    · cases h
      exact .inr (.inr ⟨rfl, i, rfl, by simpa using hrefused⟩)

/-- Without room for another instruction the block ends. -/
theorem lowerLoop_full {l : S}
    (h : F.here l + worstCaseInsnBytes + exitBytes + chainReserve (F.chain l) > F.cap l)
    (remaining count : Nat) (oversized : Bool) :
    lowerLoop F fetch boundary eip (remaining + 1) l pc count oversized =
      .ok ⟨l, pc, count, .blockEnd, false, oversized⟩ := by
  rw [lowerLoop, if_pos h]

/-- One round of the loop that has room. -/
theorem lowerLoop_round {l : S}
    (h : ¬ F.here l + worstCaseInsnBytes + exitBytes + chainReserve (F.chain l) > F.cap l)
    (remaining count : Nat) (oversized : Bool) :
    lowerLoop F fetch boundary eip (remaining + 1) l pc count oversized =
      match nextInsn F fetch boundary eip pc with
      | .inr (exit, status) =>
        match if count = 0 then status else none with
        | some status => .error status
        | none => .ok ⟨l, pc, count, exit, false, oversized⟩
      | .inl insn =>
        let after := emitInsn F l (insn, pc)
        let oversized := oversized || decide (insnBytes F l after > worstCaseInsnBytes)
        let pc := pc + BitVec.ofNat 32 (F.length insn)
        if F.terminates insn && !F.continues insn then
          .ok ⟨after, pc, count + 1, .blockEnd, true, oversized⟩
        else lowerLoop F fetch boundary eip remaining after pc (count + 1) oversized := by
  rw [lowerLoop, if_neg h]
  unfold nextInsn
  dsimp only
  by_cases hbytes : fetchInsn fetch pc maxInsnLen = []
  · rw [if_pos hbytes, if_pos hbytes]
    by_cases hzero : count = 0 <;> simp [hzero]
  rw [if_neg hbytes, if_neg hbytes]
  cases F.decode (fetchInsn fetch pc maxInsnLen) with
  | none => by_cases hzero : count = 0 <;> simp [hzero]
  | some insn =>
    dsimp only
    by_cases hboundary : pc ≠ eip ∧ boundary pc = true
    · rw [if_pos hboundary, if_pos hboundary]
      by_cases hzero : count = 0 <;> simp [hzero]
    rw [if_neg hboundary, if_neg hboundary]
    by_cases hrefused : (!F.accepts insn) = true
    · rw [if_pos hrefused, if_pos hrefused]
      by_cases hzero : count = 0 <;> simp [hzero]
    rw [if_neg hrefused, if_neg hrefused]
    have hends : (!(F.terminates insn && F.continues insn) && F.terminates insn) =
        (F.terminates insn && !F.continues insn) := by
      cases F.terminates insn <;> cases F.continues insn <;> rfl
    rw [hends]
    rfl

/-- How a loop that had another instruction to take came to its end: where it stood, or behind the
instruction that it lowered. -/
theorem lowerLoop_ok {l : S} {remaining count : Nat} {oversized : Bool} {r : LoopEnd S}
    (h : lowerLoop F fetch boundary eip (remaining + 1) l pc count oversized = .ok r) :
    (∃ exit, r = ⟨l, pc, count, exit, false, oversized⟩ ∧
      (exit = .blockEnd ∧
          F.here l + worstCaseInsnBytes + exitBytes + chainReserve (F.chain l) > F.cap l ∨
        ∃ status, nextInsn F fetch boundary eip pc = .inr (exit, status))) ∨
      ∃ insn oversized', nextInsn F fetch boundary eip pc = .inl insn ∧
        if F.terminates insn && !F.continues insn then
          r = ⟨emitInsn F l (insn, pc), pc + BitVec.ofNat 32 (F.length insn), count + 1, .blockEnd,
            true, oversized'⟩
        else
          lowerLoop F fetch boundary eip remaining (emitInsn F l (insn, pc))
            (pc + BitVec.ofNat 32 (F.length insn)) (count + 1) oversized' = .ok r := by
  by_cases hroom : F.here l + worstCaseInsnBytes + exitBytes + chainReserve (F.chain l) > F.cap l
  · rw [lowerLoop_full hroom] at h
    exact .inl ⟨_, (Except.ok.inj h).symm, .inl ⟨rfl, hroom⟩⟩
  rw [lowerLoop_round hroom] at h
  cases hnext : nextInsn F fetch boundary eip pc with
  | inr stop =>
    obtain ⟨exit, status⟩ := stop
    rw [hnext] at h
    dsimp only at h
    split at h
    · cases h
    · exact .inl ⟨exit, (Except.ok.inj h).symm, .inr ⟨status, rfl⟩⟩
  | inl insn =>
    rw [hnext] at h
    dsimp only at h
    refine .inr ⟨insn, oversized || decide (insnBytes F l (emitInsn F l (insn, pc)) >
      worstCaseInsnBytes), rfl, ?_⟩
    split_ifs with hends
    · rw [if_pos hends] at h
      exact (Except.ok.inj h).symm
    · rw [if_neg hends] at h
      exact h

end Round

/-- The loop is at `k` bytes past its start after `count` instructions. -/
structure At (eip pc : U32) (count k : Nat) : Prop where
  pc_eq : pc = eip + BitVec.ofNat 32 k
  le : count ≤ k
  le_max : k ≤ maxInsnLen * count

theorem lowerLoop_at {F : Families I E S M} (hF : F.Measured) {fetch : Fetch}
    {boundary : U32 → Bool} {eip : U32} {r : LoopEnd S} (remaining : Nat) :
    ∀ (l : S) (pc : U32) (count : Nat) (oversized : Bool) (k : Nat), At eip pc count k →
      lowerLoop F fetch boundary eip remaining l pc count oversized = .ok r →
      r.count ≤ count + remaining ∧ ∃ k', At eip r.pc r.count k' := by
  induction remaining with
  | zero =>
    intro l pc count oversized k hat h
    cases h
    exact ⟨Nat.le_refl _, k, hat⟩
  | succ remaining ih =>
    intro l pc count oversized k hat h
    obtain ⟨exit, rfl, -⟩ | ⟨insn, oversized', hinsn, hrest⟩ := lowerLoop_ok h
    · exact ⟨Nat.le_add_right _ _, k, hat⟩
    · obtain ⟨hpos, hle⟩ := hF _ _ (nextInsn_insn hinsn).2.1
      have hmax := length_fetchInsn fetch maxInsnLen pc
      have hnext : At eip (pc + BitVec.ofNat 32 (F.length insn)) (count + 1)
          (k + F.length insn) := by
        obtain ⟨hpc, hk1, hk2⟩ := hat
        refine ⟨?_, by omega, ?_⟩
        · rw [hpc, BitVec.add_assoc, BitVec.ofNat_add_ofNat]
        · rw [Nat.mul_add]
          omega
      split_ifs at hrest
      · rw [hrest]
        exact ⟨by dsimp only; omega, _, hnext⟩
      · obtain ⟨hcount, hend⟩ := ih _ _ _ _ _ hnext hrest
        exact ⟨by omega, hend⟩

/-- A lowered block starts at the address asked for and covers at least one byte. -/
theorem lowerBlock_guest {F : Families I E S M} (hF : F.Measured) {m m' : E} {fetch : Fetch}
    {eip : U32} {boundary : U32 → Bool} {chain : ChainUse} {leaf : LeafUse} {block : JitBlock}
    (h : lowerBlock F m fetch eip boundary chain leaf = .ok (block, m')) :
    block.guestEip = eip ∧ 0 < block.guestLen.toNat := by
  unfold lowerBlock at h
  dsimp only at h
  split at h
  · cases h
  · split at h
    · cases h
    · rename_i r hloop
      split at h
      · cases h
      · split at h
        · cases h
        · split at h
          · cases h
          · split at h
            · cases h
            · rename_i hcount
              obtain ⟨hle, k, hpc, hk1, hk2⟩ := lowerLoop_at hF maxInsns _ eip 0 false 0
                ⟨by simp, Nat.le_refl 0, Nat.zero_le _⟩ hloop
              obtain ⟨hblock, -⟩ := Prod.mk.inj (Except.ok.inj h)
              rw [← hblock]
              unfold maxInsnLen at hk2
              unfold maxInsns at hle
              refine ⟨rfl, ?_⟩
              dsimp only
              rw [hpc]
              have hsmall : k < 2 ^ 32 := by omega
              bv_omega

theorem translateBounded_guest {F : Families I E S M} (hF : F.Measured) {fetch : Fetch}
    {eip : U32} {codeCap : Nat} {boundary : U32 → Bool} {chain : Option ChainPool}
    {leaf : LeafUse} {block : JitBlock} {bytes : M}
    (h : translateBounded F fetch eip codeCap boundary chain leaf = .ok (block, bytes)) :
    block.guestEip = eip ∧ 0 < block.guestLen.toNat := by
  unfold translateBounded at h
  split at h
  · cases h
  · split at h
    · cases h
    · rename_i lowered m hlower
      split at h
      · cases h
      · have hguest := lowerBlock_guest hF hlower
        cases h
        exact hguest

end Lower

/-! ## Families of two instructions -/

/-- `mov eax, imm32` and `ret`. -/
inductive ShortInsn where
  | movEax (imm : U32)
  | ret
deriving DecidableEq

/-- What their bodies do. -/
inductive ShortOp where
  | setEax (imm : U32)
  | leave (slot : Option Nat) (exit : JitExit)
deriving DecidableEq

/-- A module being built, and its open body. -/
structure ShortModule where
  bodies : List (List ShortOp)
  promised : Nat
  cap : Nat
deriving DecidableEq

structure ShortBody where
  module : ShortModule
  ops : List ShortOp
  use : ChainUse
  chain : ChainExits
deriving DecidableEq

/-- The slot of the next exit: the next of those the block was published with, or a fresh one. -/
def takeSlot (use : ChainUse) (slotted : Nat) : Option Nat :=
  match use.chain with
  | none => none
  | some pool =>
    if slotted ≥ chainSlots then none
    else
      match use.reuse with
      | some (first, count) => if slotted < count then some (first + slotted) else none
      | none =>
        if pool.claimed + slotted < pool.capacity then some (pool.claimed + slotted) else none

/-- An exit, which is chained where the block ends. -/
def ShortBody.leave (s : ShortBody) (exit : JitExit) : ShortBody :=
  let slot := if exit = .blockEnd then takeSlot s.use s.chain.slotted else none
  let chain := match slot with
    | none => s.chain
    | some index => { s.chain with
        first := some (s.chain.first.getD index)
        slotted := s.chain.slotted + 1 }
  { s with ops := s.ops ++ [.leave slot exit], chain := chain }

/-- The little-endian immediate behind the opcode `B8`, and the opcode `C3`. -/
def decodeShort : List U8 → Option ShortInsn
  | 0xB8 :: a :: b :: c :: d :: _ => some (.movEax (d ++ c ++ b ++ a))
  | 0xC3 :: _ => some .ret
  | _ => none

def shortFamilies : Families ShortInsn ShortModule ShortBody (List (List ShortOp)) where
  decode := decodeShort
  length := fun insn => match insn with
    | .movEax _ => 5
    | .ret => 1
  accepts := fun _ => true
  terminates := fun insn => decide (insn = .ret)
  continues := fun _ => false
  lower := fun insn _ s => match insn with
    | .movEax imm => { s with ops := s.ops ++ [.setEax imm] }
    | .ret => s.leave .blockEnd
  continueLower := fun _ _ s => s
  exitImm := fun _ exit s => s.leave exit
  moduleInit := fun cap promised => ⟨[], promised, cap⟩
  bodyBegin := fun m _ use _ =>
    if m.bodies.length < m.promised then
      some ⟨m, [], use, ⟨use.chain.isSome, none, 0, 0, false, 0⟩⟩
    else none
  bodyEnd := fun s => { s.module with bodies := s.module.bodies ++ [s.ops] }
  finish := fun m => if m.bodies.length = m.promised then some m.bodies else none
  size := fun bodies => moduleOverheadBytes + bodies.flatten.length
  here := fun s => moduleOverheadBytes + s.module.bodies.flatten.length + s.ops.length
  cap := fun s => s.module.cap
  intact := fun _ => true
  chain := fun s => s.chain
  leafSite := fun _ => none

/-- An engine that takes every module and finds a body behind each of its names. -/
def compileShort : Compiler (List (List ShortOp)) := fun bodies =>
  .ok fun field => decide (field.index.val < bodies.length)

theorem shortFamilies_measured : shortFamilies.Measured := by
  intro bytes insn h
  change decodeShort bytes = some insn at h
  unfold decodeShort at h
  split at h
  · cases h
    exact ⟨by simp [shortFamilies], by simp [shortFamilies]⟩
  · cases h
    exact ⟨by simp [shortFamilies], by simp [shortFamilies]⟩
  · cases h

end X86Port.Wasm
