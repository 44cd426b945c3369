import X86Port.Cpu.Compare
import X86Port.Cpu.RegParts
import X86Port.Cpu.StringBulk
import X86Port.Lib.CountedLoop
import X86Port.Memory.Pieces

/-!
# String elements

What one element of a string instruction does on any memory, and the repeat as a counted loop
of such elements.

* `stepOnce_eq`: an element names its first refused access, or has its effect.
* `element_congr`: a change of permissions does not change the effect.
* `Elements.regs`: the registers after so many elements.
* `repLoop_eq`: the repeat is a counted loop.
-/

namespace X86Port.Cpu

open Memory Lib Lib.Places Lib.CountedLoop

/-! ## One element -/

/-- The accesses of one element in their order, each with the permission it needs. -/
def elementAccesses (op : StringOp) (src dst : U32) : List (U32 × U32) :=
  match op with
  | .movs => [(memRead, src), (memWrite, dst)]
  | .stos => [(memWrite, dst)]
  | .lods => [(memRead, src)]
  | .scas => [(memRead, dst)]
  | .cmps => [(memRead, src), (memRead, dst)]

/-- The address of the first refused access of an element. -/
def refusedAccess (m : Mem) (op : StringOp) (w : Width) (src dst : U32) : Option U32 :=
  ((elementAccesses op src dst).find? fun a => !decide (m.Granted a.1 a.2 w)).map Prod.snd

/-- What a granted read gives. -/
def loaded (m : Mem) (h : Host) (addr : U32) (w : Width) : U32 :=
  valueOf (gather h.bytes (m.place memRead) addr.toNat w.bytes)

/-- The left operand of the comparison: the accumulator, or the source element. -/
def leftOperand (m : Mem) (op : StringOp) (w : Width) (s : Machine) : U32 :=
  if op = .cmps then loaded m s.host (s.cpu.reg esi) w else regRead s.cpu eax w

/-- The flags of a comparison. -/
def comparedFlags (a b : U32) (w : Width) (f : Flags) : Flags :=
  ⟨a &&& widthMask w, b &&& widthMask w,
    ((a &&& widthMask w) - (b &&& widthMask w)) &&& widthMask w, .sub, w,
    if flagCf f then 1 else 0⟩

/-- The registers with the flags of the comparison. -/
def withComparison (m : Mem) (op : StringOp) (w : Width) (s : Machine) : CpuState :=
  { s.cpu with
    flags := comparedFlags (leftOperand m op w s) (loaded m s.host (s.cpu.reg edi) w) w
      s.cpu.flags }

/-- The effect of an element whose accesses are granted. -/
def element (m : Mem) (op : StringOp) (w : Width) (delta : U32) (s : Machine) : Machine :=
  match op with
  | .movs => ⟨advance op delta s.cpu,
      Host.put m s.host (s.cpu.reg edi) (bytesOf w.bytes (loaded m s.host (s.cpu.reg esi) w))⟩
  | .stos => ⟨advance op delta s.cpu,
      Host.put m s.host (s.cpu.reg edi) (bytesOf w.bytes (regRead s.cpu eax w))⟩
  | .lods =>
    ⟨advance op delta (regWrite s.cpu eax w (loaded m s.host (s.cpu.reg esi) w)), s.host⟩
  | .scas | .cmps => ⟨advance op delta (withComparison m op w s), s.host⟩

section Step

variable {m m' : Mem} {op : StringOp} {w : Width} {delta : U32} {s : Machine}

theorem refusedAccess_eq (m : Mem) (op : StringOp) (w : Width) (src dst : U32) :
    refusedAccess m op w src dst = match op with
      | .movs => if m.Granted memRead src w then
          if m.Granted memWrite dst w then none else some dst
        else some src
      | .stos => if m.Granted memWrite dst w then none else some dst
      | .lods => if m.Granted memRead src w then none else some src
      | .scas => if m.Granted memRead dst w then none else some dst
      | .cmps => if m.Granted memRead src w then
          if m.Granted memRead dst w then none else some dst
        else some src := by
  unfold refusedAccess elementAccesses
  cases op <;> dsimp only [List.find?] <;> split_ifs <;> simp [*]

theorem alu_cmp_eq (a b : U32) (w : Width) (f : Flags) :
    ∃ r, alu .cmp a b w f = some (r, comparedFlags a b w f) := ⟨_, alu_of_shape rfl a b w f⟩

theorem stepOnce_eq (hm : m.WellFormed) (op : StringOp) (w : Width) (delta : U32) (s : Machine) :
    stepOnce m op w delta s =
      some (match refusedAccess m op w (s.cpu.reg esi) (s.cpu.reg edi) with
        | some fault => .error fault
        | none => .ok (element m op w delta s)) := by
  have hread (addr : U32) : read m s.host addr w =
      some (if m.Granted memRead addr w then some (loaded m s.host addr w) else none) :=
    read_placed hm s.host w
  have hwrite (addr value : U32) : write m s.host addr w value =
      some (if m.Granted memWrite addr w then some (Host.put m s.host addr (bytesOf w.bytes value))
        else none) := write_placed hm s.host w value
  rw [refusedAccess_eq]
  cases op with
  | movs =>
    unfold stepOnce
    dsimp only
    rw [hread]
    by_cases hsrc : m.Granted memRead (s.cpu.reg esi) w
    · rw [if_pos hsrc, if_pos hsrc, Option.bind_some]
      dsimp only
      rw [hwrite]
      by_cases hdst : m.Granted memWrite (s.cpu.reg edi) w
      · rw [if_pos hdst, if_pos hdst]
        rfl
      · rw [if_neg hdst, if_neg hdst]
        rfl
    · rw [if_neg hsrc, if_neg hsrc]
      rfl
  | stos =>
    unfold stepOnce
    dsimp only
    rw [hwrite]
    by_cases hdst : m.Granted memWrite (s.cpu.reg edi) w
    · rw [if_pos hdst, if_pos hdst]
      rfl
    · rw [if_neg hdst, if_neg hdst]
      rfl
  | lods =>
    unfold stepOnce
    dsimp only
    rw [hread]
    by_cases hsrc : m.Granted memRead (s.cpu.reg esi) w
    · rw [if_pos hsrc, if_pos hsrc]
      rfl
    · rw [if_neg hsrc, if_neg hsrc]
      rfl
  | scas =>
    unfold stepOnce
    dsimp only
    rw [hread]
    by_cases hdst : m.Granted memRead (s.cpu.reg edi) w
    · obtain ⟨r, halu⟩ := alu_cmp_eq (regRead s.cpu eax w) (loaded m s.host (s.cpu.reg edi) w) w
        s.cpu.flags
      rw [if_pos hdst, if_pos hdst, Option.bind_some]
      dsimp only
      rw [halu]
      rfl
    · rw [if_neg hdst, if_neg hdst]
      rfl
  | cmps =>
    unfold stepOnce
    dsimp only
    rw [hread, hread]
    by_cases hsrc : m.Granted memRead (s.cpu.reg esi) w
    · rw [if_pos hsrc, if_pos hsrc, Option.bind_some]
      dsimp only
      by_cases hdst : m.Granted memRead (s.cpu.reg edi) w
      · obtain ⟨r, halu⟩ := alu_cmp_eq (loaded m s.host (s.cpu.reg esi) w)
          (loaded m s.host (s.cpu.reg edi) w) w s.cpu.flags
        rw [if_pos hdst, if_pos hdst, Option.bind_some]
        dsimp only
        rw [halu]
        rfl
      · rw [if_neg hdst, if_neg hdst]
        rfl
    · rw [if_neg hsrc, if_neg hsrc]
      rfl

end Step

/-! ## Permissions -/

/-- The same bytes behind the same addresses, whatever may be done with them. -/
def SameLayout (m m' : Mem) : Prop :=
  ∀ a x y, m.place 0 a = some x → m'.place 0 a = some y → x = y

section Layout

variable {m m' : Mem} {op : StringOp} {w : Width} {delta : U32} {s : Machine}

theorem cell_sameLayout (hsame : SameLayout m m') {access : U32} {a : Nat}
    (h : m.place access a ≠ none) (h' : m'.place access a ≠ none) :
    cell (m.place access) a = cell (m'.place access) a := by
  obtain ⟨x, hx⟩ := Option.ne_none_iff_exists'.mp h
  obtain ⟨y, hy⟩ := Option.ne_none_iff_exists'.mp h'
  have hxy := hsame a x y (place_zero hx) (place_zero hy)
  unfold cell
  rw [hx, hy, hxy]

theorem loaded_sameLayout (hsame : SameLayout m m') {addr : U32}
    (h : m.Granted memRead addr w) (h' : m'.Granted memRead addr w) (host : Host) :
    loaded m host addr w = loaded m' host addr w := by
  unfold loaded
  rw [gather_congr fun i hi => cell_sameLayout hsame (h i hi) (h' i hi)]

theorem put_sameLayout (hsame : SameLayout m m') {addr : U32} {input : List U8}
    (h : Placed (m.place memWrite) addr.toNat input.length)
    (h' : Placed (m'.place memWrite) addr.toNat input.length) (host : Host) :
    Host.put m host addr input = Host.put m' host addr input := by
  unfold Host.put
  rw [scatter_congr fun i hi => cell_sameLayout hsame (h i hi) (h' i hi)]

/-- The accesses of an element that has its effect. -/
theorem granted_of_not_refused {src dst : U32} (h : refusedAccess m op w src dst = none) :
    ∀ a ∈ elementAccesses op src dst, m.Granted a.1 a.2 w := by
  intro a ha
  have hall := List.find?_eq_none.mp (Option.map_eq_none_iff.mp h) a ha
  simpa using hall

/-- A change of permissions does not change the effect of an element. -/
theorem element_sameLayout (hsame : SameLayout m m')
    (h : refusedAccess m op w (s.cpu.reg esi) (s.cpu.reg edi) = none)
    (h' : refusedAccess m' op w (s.cpu.reg esi) (s.cpu.reg edi) = none) :
    element m op w delta s = element m' op w delta s := by
  have hg := granted_of_not_refused h
  have hg' := granted_of_not_refused h'
  have hlen (v : U32) := length_bytesOf w.bytes v
  cases op with
  | movs =>
    simp only [elementAccesses, List.forall_mem_cons] at hg hg'
    unfold element
    dsimp only
    rw [loaded_sameLayout hsame hg.1 hg'.1, put_sameLayout hsame (by rw [hlen]; exact hg.2.1)
      (by rw [hlen]; exact hg'.2.1)]
  | stos =>
    simp only [elementAccesses, List.forall_mem_cons] at hg hg'
    unfold element
    dsimp only
    rw [put_sameLayout hsame (by rw [hlen]; exact hg.1) (by rw [hlen]; exact hg'.1)]
  | lods =>
    simp only [elementAccesses, List.forall_mem_cons] at hg hg'
    unfold element
    dsimp only
    rw [loaded_sameLayout hsame hg.1 hg'.1]
  | scas =>
    simp only [elementAccesses, List.forall_mem_cons] at hg hg'
    unfold element withComparison leftOperand
    dsimp only
    rw [loaded_sameLayout hsame hg.1 hg'.1]
    rfl
  | cmps =>
    simp only [elementAccesses, List.forall_mem_cons] at hg hg'
    unfold element withComparison leftOperand
    dsimp only
    rw [loaded_sameLayout hsame hg.1 hg'.1, loaded_sameLayout hsame hg.2.1 hg'.2.1]

end Layout

/-! ## The pointers -/

/-- How far an element moves the source pointer. -/
def sourceStep (op : StringOp) (delta : U32) : U32 :=
  if op = .movs ∨ op = .lods ∨ op = .cmps then delta else 0

/-- How far an element moves the destination pointer. -/
def destinationStep (op : StringOp) (delta : U32) : U32 := if op ≠ .lods then delta else 0

/-- The first refused access of element `k` behind a state. -/
def refusedElement (m : Mem) (op : StringOp) (w : Width) (delta : U32) (c : CpuState) (k : Nat) :
    Option U32 :=
  refusedAccess m op w (c.reg esi + BitVec.ofNat 32 k * delta)
    (c.reg edi + BitVec.ofNat 32 k * delta)

section Pointers

variable {m : Mem} {op : StringOp} {w : Width} {delta : U32} {s : Machine}

theorem advance_regs (op : StringOp) (delta : U32) (c : CpuState) :
    (advance op delta c).reg ecx = c.reg ecx ∧
      (advance op delta c).reg esi = c.reg esi + sourceStep op delta ∧
      (advance op delta c).reg edi = c.reg edi + destinationStep op delta := by
  cases op <;> simp [advance, sourceStep, destinationStep, esi_ne_ecx.symm, edi_ne_ecx.symm,
    edi_ne_esi, edi_ne_esi.symm]

theorem advance_other (op : StringOp) (delta : U32) (c : CpuState) {r : Reg} (hsi : r ≠ esi)
    (hdi : r ≠ edi) : (advance op delta c).reg r = c.reg r := by
  cases op <;> simp [advance, hsi, hdi]

/-- The registers that an element finds again: the count, the pointers, the direction flag. -/
theorem element_regs (m : Mem) (op : StringOp) (w : Width) (delta : U32) (s : Machine) :
    (element m op w delta s).cpu.reg ecx = s.cpu.reg ecx ∧
      (element m op w delta s).cpu.reg esi = s.cpu.reg esi + sourceStep op delta ∧
      (element m op w delta s).cpu.reg edi = s.cpu.reg edi + destinationStep op delta ∧
      (element m op w delta s).cpu.df = s.cpu.df ∧
      (element m op w delta s).host.observer = s.host.observer := by
  have hkept (v : U32) {r : Reg} (hr : r ≠ eax) : (regWrite s.cpu eax w v).reg r = s.cpu.reg r := by
    refine regWrite_other s.cpu v fun h => hr (h.trans ?_)
    cases w <;> rfl
  have hobs (addr : U32) (input : List U8) :
      (Host.put m s.host addr input).observer = s.host.observer := by
    unfold Host.put Host.notify
    split_ifs <;> rfl
  obtain ⟨hcount, hsource, hdestination⟩ := advance_regs op delta s.cpu
  have hdf : (advance op delta s.cpu).df = s.cpu.df := (advance_df s.cpu delta).1
  cases op with
  | movs | stos => exact ⟨hcount, hsource, hdestination, hdf, hobs _ _⟩
  | lods =>
    have hloaded := advance_regs .lods delta
      (regWrite s.cpu eax w (loaded m s.host (s.cpu.reg esi) w))
    rw [hkept _ (by decide), hkept _ (by decide), hkept _ (by decide)] at hloaded
    exact ⟨hloaded.1, hloaded.2.1, hloaded.2.2, regWrite_df s.cpu eax w _, rfl⟩
  | scas => exact ⟨hcount, hsource, hdestination, hdf, rfl⟩
  | cmps => exact ⟨hcount, hsource, hdestination, hdf, rfl⟩

/-- Pointers that an operation does not move it does not use. -/
theorem refusedElement_eq {c c' : CpuState} {k : Nat}
    (hsource : c'.reg esi = c.reg esi + BitVec.ofNat 32 k * sourceStep op delta)
    (hdestination : c'.reg edi = c.reg edi + BitVec.ofNat 32 k * destinationStep op delta) :
    refusedAccess m op w (c'.reg esi) (c'.reg edi) = refusedElement m op w delta c k := by
  unfold refusedElement refusedAccess
  rw [hsource, hdestination]
  cases op <;> rfl

end Pointers

/-! ## The repeat -/

/-- One round of the repeat: an element, then the count. -/
def elementRound (m : Mem) (op : StringOp) (w : Width) (delta : U32) (s : Machine) :
    Option (Except U32 Machine) :=
  (stepOnce m op w delta s).map fun out => out.map nextRound

/-- So many elements that go through, each counted. -/
def Elements (m : Mem) (op : StringOp) (w : Width) (delta : U32) (k : Nat) (s t : Machine) : Prop :=
  Rounds (elementRound m op w delta) (fun _ => false) k s t

/-- The comparison just made ends the repeat. -/
def endsRepeat (op : StringOp) (kind : RepKind) (s : Machine) : Bool :=
  repStops op kind s.cpu.flags

def remaining (s : Machine) : Nat := (s.cpu.reg ecx).toNat

def repeatResult (r : Option U32 × Machine) : StringResult :=
  match r.1 with
  | some fault => ⟨.fault, fault, r.2⟩
  | none => ⟨.ok, 0, r.2⟩

/-- What `k` elements leave of the registers that they find again. -/
structure Moved (op : StringOp) (delta : U32) (k : Nat) (s t : Machine) : Prop where
  count : t.cpu.reg ecx = s.cpu.reg ecx - BitVec.ofNat 32 k
  source : t.cpu.reg esi = s.cpu.reg esi + BitVec.ofNat 32 k * sourceStep op delta
  destination : t.cpu.reg edi = s.cpu.reg edi + BitVec.ofNat 32 k * destinationStep op delta
  df : t.cpu.df = s.cpu.df
  observer : t.host.observer = s.host.observer

section Repeat

variable {m : Mem} {op : StringOp} {kind : RepKind} {w : Width} {delta : U32} {s t : Machine}
  {stops : Machine → Bool} {k : Nat}

theorem elementRound_eq (hm : m.WellFormed) (op : StringOp) (w : Width) (delta : U32)
    (s : Machine) : elementRound m op w delta s =
      some (match refusedAccess m op w (s.cpu.reg esi) (s.cpu.reg edi) with
        | some fault => .error fault
        | none => .ok (nextRound (element m op w delta s))) := by
  unfold elementRound
  rw [stepOnce_eq hm, Option.map_some]
  cases refusedAccess m op w (s.cpu.reg esi) (s.cpu.reg edi) <;> rfl

theorem elementRound_ok (hm : m.WellFormed) :
    elementRound m op w delta s = some (.ok t) ↔
      refusedAccess m op w (s.cpu.reg esi) (s.cpu.reg edi) = none ∧
        nextRound (element m op w delta s) = t := by
  rw [elementRound_eq hm]
  cases refusedAccess m op w (s.cpu.reg esi) (s.cpu.reg edi) <;> simp

theorem elementRound_error (hm : m.WellFormed) {fault : U32} :
    elementRound m op w delta s = some (.error fault) ↔
      refusedAccess m op w (s.cpu.reg esi) (s.cpu.reg edi) = some fault := by
  rw [elementRound_eq hm]
  cases refusedAccess m op w (s.cpu.reg esi) (s.cpu.reg edi) <;> simp

theorem elementRound_total (hm : m.WellFormed) (s : Machine) :
    ∃ out, elementRound m op w delta s = some out := ⟨_, elementRound_eq hm op w delta s⟩

/-- The registers after one round. -/
theorem elementRound_regs (hm : m.WellFormed)
    (hround : elementRound m op w delta s = some (.ok t)) :
    t.cpu.reg ecx = s.cpu.reg ecx - 1 ∧ t.cpu.reg esi = s.cpu.reg esi + sourceStep op delta ∧
      t.cpu.reg edi = s.cpu.reg edi + destinationStep op delta ∧ t.cpu.df = s.cpu.df ∧
      t.host.observer = s.host.observer := by
  obtain ⟨-, rfl⟩ := (elementRound_ok hm).mp hround
  obtain ⟨hcount, hsource, hdestination, hdf, hobs⟩ := element_regs m op w delta s
  unfold nextRound
  simp only [setReg_reg, setReg_df, Function.update_self, Function.update_of_ne esi_ne_ecx,
    Function.update_of_ne edi_ne_ecx]
  exact ⟨by rw [hcount], hsource, hdestination, hdf, hobs⟩

theorem moved_of_rounds (hm : m.WellFormed)
    (h : Rounds (elementRound m op w delta) stops k s t) : Moved op delta k s t := by
  refine h.invariant (P := fun i u => Moved op delta i s u) ⟨?_, ?_, ?_, rfl, rfl⟩
    fun i u v hu hround => ?_
  · simp
  · simp
  · simp
  · obtain ⟨hcount, hsource, hdestination, hdf, hobs⟩ := elementRound_regs hm hround
    have hsucc (x : U32) : BitVec.ofNat 32 (i + 1) * x = BitVec.ofNat 32 i * x + x := by
      rw [BitVec.ofNat_add, BitVec.add_mul, BitVec.one_mul]
    refine ⟨?_, ?_, ?_, hdf.trans hu.df, hobs.trans hu.observer⟩
    · rw [hcount, hu.count, BitVec.ofNat_add, BitVec.sub_sub]
      rfl
    · rw [hsource, hu.source, hsucc, BitVec.add_assoc]
    · rw [hdestination, hu.destination, hsucc, BitVec.add_assoc]

theorem remaining_of_round (hm : m.WellFormed) (s t : Machine) (hs : remaining s ≠ 0)
    (hround : elementRound m op w delta s = some (.ok t)) : remaining t + 1 = remaining s := by
  have hcount := (elementRound_regs hm hround).1
  unfold remaining at hs ⊢
  rw [hcount]
  bv_omega

/-- The repeat is the counted loop. -/
theorem repLoop_eq (hm : m.WellFormed) (op : StringOp) (kind : RepKind) (w : Width) (delta : U32)
    (n : Nat) : ∀ s : Machine, remaining s = n → repLoop m op kind w delta n s =
      (loop (elementRound m op w delta) (endsRepeat op kind) n s).map repeatResult := by
  induction n with
  | zero => exact fun _ _ => rfl
  | succ n ih =>
    intro s hs
    have hne : s.cpu.reg ecx ≠ 0 := by
      unfold remaining at hs
      bv_omega
    have hstep := stepOnce_eq hm op w delta s
    have hround := elementRound_eq hm op w delta s
    rw [repLoop, if_pos hne, hstep, Option.bind_some]
    cases hrefused : refusedAccess m op w (s.cpu.reg esi) (s.cpu.reg edi) with
    | some fault =>
      rw [hrefused] at hround
      rw [loop_of_error hround]
      rfl
    | none =>
      rw [hrefused] at hround
      have hnext := remaining_of_round hm s _ (by omega) hround
      dsimp only
      by_cases hstops : endsRepeat op kind (nextRound (element m op w delta s)) = true
      · rw [loop_of_stops hround hstops]
        exact if_pos hstops
      · rw [loop_of_ok hround ((Bool.not_eq_true _).mp hstops), ← ih _ (by omega)]
        exact if_neg hstops

theorem elementLoop_eq_loop (hm : m.WellFormed) (op : StringOp) (kind : RepKind) (w : Width)
    (delta : U32) (s : Machine) : elementLoop m op kind w delta s =
      (loop (elementRound m op w delta) (endsRepeat op kind) (remaining s) s).map repeatResult :=
  repLoop_eq hm op kind w delta _ s rfl

end Repeat

end X86Port.Cpu
