import Mathlib.Tactic.Set
import X86Port.X64.EmitReads

/-!
# Runs of the x86-64 encoder

Calls of the encoder one after the other, with jumps that are bound later.

* `exec_kept`: the buffer holds the instructions asked for, one behind the other.
* `emits_as_asked_iff`: what a run comes to, and when every jump goes to its target.
-/

namespace X86Port.X64

open Lib (Reads CodeBuffer)

/-! ## Calls -/

inductive Jump where
  | jcc (cc : U32)
  | jmp
  | call

def Jump.emit : Jump → Emit → EmitSite × Emit
  | .jcc cc, e => e.jccRel32 cc
  | .jmp, e => e.jmpRel32
  | .call, e => e.callRel32

def Jump.opcode : Jump → List U8
  | .jcc cc => [0x0F, 0x80 + (cc &&& 0xF).setWidth 8]
  | .jmp => [0xE9]
  | .call => [0xE8]

def Jump.name : Jump → Mnemonic
  | .jcc cc => .jcc (cc.setWidth 4)
  | .jmp => .jmp
  | .call => .call

/-- The distance of a jump: none until it is bound, and then cut to 32 bits. -/
def EmitSite.rel (site : EmitSite) : Option Nat → U32
  | none => 0
  | some target => BitVec.ofInt 32 ((target : Int) - site.stop)

/-- What a run has put down. -/
inductive EmitItem where
  | form (f : Form)
  | leaRip (dst : HostReg) (target : Nat) (disp : U32)
  | jump (k : Jump) (site : EmitSite) (target : Option Nat)
  | data (bytes : List U8)

def EmitItem.bytes : EmitItem → List U8
  | .form f => f.bytes
  | .leaRip dst _ disp => rexBytes true dst.code 0 ++ ([0x8D, modRmByte 0 dst.code 5] ++ leBytes 4 disp)
  | .jump k site target => k.opcode ++ leBytes 4 (site.rel target)
  | .data bytes => bytes

/-- The instruction it is to be, unless it is data. -/
def EmitItem.asked : EmitItem → Option HostInstr
  | .form f => some f.asked
  | .leaRip dst _ disp =>
    some ⟨.lea, 64, [dst.operand, .mem ⟨.next, none, disp.signExtend 64⟩]⟩
  | .jump k site target => some ⟨k.name, 64, [.imm ((site.rel target).signExtend 64)]⟩
  | .data _ => none

def flat (items : List EmitItem) : List U8 := items.flatMap EmitItem.bytes

structure Session where
  e : Emit
  items : List EmitItem

/-- The calls of the encoder; a jump is bound by its place among what was put down. -/
inductive Call where
  | form (f : Form)
  | leaRip (dst : HostReg) (target : Nat)
  | jump (k : Jump)
  | bind (i : Nat)
  | bindTo (i : Nat) (target : Nat)
  | data (bytes : List U8)

def Session.bindTo (s : Session) (i target : Nat) : Session :=
  match s.items[i]? with
  | some (.jump k site _) => ⟨s.e.bindTo site target, s.items.set i (.jump k site (some target))⟩
  | _ => s

def Session.exec (s : Session) : Call → Session
  | .form f => ⟨f.emit s.e, s.items ++ [.form f]⟩
  | .leaRip dst target =>
    ⟨s.e.leaRip dst target, s.items ++
      [.leaRip dst target (BitVec.ofInt 32 ((target : Int) - (s.e.code.len + 7 : Nat)))]⟩
  | .jump k =>
    let made := k.emit s.e
    ⟨made.2, s.items ++ [.jump k made.1 none]⟩
  | .bind i => s.bindTo i s.e.code.len
  | .bindTo i target => s.bindTo i target
  | .data bytes => ⟨s.e.data bytes, s.items ++ [.data bytes]⟩

def Session.start (buf : Option (Nat → U8)) (cap : Nat) : Session := ⟨Emit.init buf cap, []⟩

def emitRun (buf : Option (Nat → U8)) (cap : Nat) (calls : List Call) : Session :=
  calls.foldl Session.exec (Session.start buf cap)

/-! ## What a run keeps -/

/-- What is known of an item that starts there. -/
def EmitItem.At (start : Nat) : EmitItem → Prop
  | .form f => ¬ f.Refused
  | .leaRip _ target disp => disp.toInt = (target : Int) - (start + 7 : Nat)
  | .jump k site _ => site.start = start + k.opcode.length ∧ site.stop = site.start + 4
  | .data _ => True

def Placed : Nat → List EmitItem → Prop
  | _, [] => True
  | start, it :: rest => it.At start ∧ Placed (start + it.bytes.length) rest

/-- From the buffer of `e₀`. -/
structure Kept (e₀ : Emit) (s : Session) : Prop where
  capacity : s.e.code.cap = e₀.code.cap
  within : ∀ i, e₀.code.cap ≤ i → s.e.code.buf i = e₀.code.buf i
  contents : s.e.code.overflow = false → s.e.code.contents = flat s.items
  placed : s.e.code.overflow = false → Placed 0 s.items

@[simp] theorem flat_append (xs ys : List EmitItem) : flat (xs ++ ys) = flat xs ++ flat ys :=
  List.flatMap_append

@[simp] theorem flat_cons (it : EmitItem) (items : List EmitItem) :
    flat (it :: items) = it.bytes ++ flat items := List.flatMap_cons

@[simp] theorem flat_nil : flat [] = [] := rfl

theorem placed_append {start : Nat} {xs ys : List EmitItem} :
    Placed start (xs ++ ys) ↔ Placed start xs ∧ Placed (start + (flat xs).length) ys := by
  induction xs generalizing start with
  | nil => exact ⟨fun h => ⟨trivial, h⟩, fun h => h.2⟩
  | cons it xs ih =>
    rw [List.cons_append, Placed, ih, Placed, flat_cons, List.length_append, Nat.add_assoc, and_assoc]

/-- Bytes that were put down as an item. -/
theorem Kept.append {e₀ : Emit} {s : Session} (h : Kept e₀ s) {e : Emit}
    {it : EmitItem} (hcode : e.code = s.e.code.putAll it.bytes)
    (hat : e.code.overflow = false → it.At (flat s.items).length) :
    Kept e₀ ⟨e, s.items ++ [it]⟩ where
  capacity := by
    change e.code.cap = e₀.code.cap
    rw [hcode, CodeBuffer.putAll_cap, h.capacity]
  within i hi := by
    change e.code.buf i = e₀.code.buf i
    rw [hcode, CodeBuffer.putAll_beyond _ _ (by rwa [h.capacity]), h.within i hi]
  contents hover := by
    change e.code.overflow = false at hover
    change e.code.contents = flat (s.items ++ [it])
    rw [hcode] at hover ⊢
    obtain ⟨hover', hroom⟩ := CodeBuffer.putAll_fits hover
    rw [(CodeBuffer.putAll_ok hover' hroom).2.2, h.contents hover', flat_append, flat_cons, flat_nil,
      List.append_nil]
  placed hover := by
    change e.code.overflow = false at hover
    have hat' := hat hover
    rw [hcode] at hover
    refine placed_append.mpr ⟨h.placed (CodeBuffer.putAll_fits hover).1, ?_, trivial⟩
    rwa [Nat.zero_add]

/-- A buffer that has overflowed. -/
theorem Kept.refuse {e₀ : Emit} {s : Session} (h : Kept e₀ s) {e : Emit}
    (cells : List U8) (hcode : e.code = (s.e.code.putAll cells).refuse) (it : EmitItem) :
    Kept e₀ ⟨e, s.items ++ [it]⟩ where
  capacity := by
    change e.code.cap = e₀.code.cap
    rw [hcode, CodeBuffer.refuse, CodeBuffer.putAll_cap, h.capacity]
  within i hi := by
    change e.code.buf i = e₀.code.buf i
    rw [hcode]
    exact (CodeBuffer.putAll_beyond _ _ (by rwa [h.capacity])).trans (h.within i hi)
  contents hover := by
    change e.code.overflow = false at hover
    rw [hcode] at hover
    cases hover
  placed hover := by
    change e.code.overflow = false at hover
    rw [hcode] at hover
    cases hover

/-! ## One call -/

theorem form_kept {e₀ : Emit} {s : Session} (h : Kept e₀ s) (f : Form) :
    Kept e₀ (s.exec (.form f)) := by
  by_cases hf : f.Refused
  · refine h.refuse [] ?_ (.form f)
    cases f with
    | setccR8 cc dst => exact congrArg Emit.code (if_pos hf)
    | store8Reg base disp src => exact congrArg Emit.code (if_pos hf)
    | _ => exact absurd hf id
  · exact h.append (f.emit_code hf s.e) fun _ => hf

theorem data_kept {e₀ : Emit} {s : Session} (h : Kept e₀ s) (bytes : List U8) :
    Kept e₀ (s.exec (.data bytes)) := by
  have hcode : ∀ (bytes : List U8) (e : Emit), (e.data bytes).code = e.code.putAll bytes := by
    intro bytes
    induction bytes with
    | nil => exact fun _ => rfl
    | cons b bytes ih => exact fun e => ih (e.put b)
  exact h.append (hcode bytes s.e) fun _ => trivial

/-- The bytes before the displacement. -/
theorem leaRip_head (e : Emit) (dst : HostReg) :
    (((e.rex true dst.code 0).put 0x8D).put (((dst.code.setWidth 8 &&& 7) <<< 3) ||| 5)).code =
      e.code.putAll (rexBytes true dst.code 0 ++ [0x8D, modRmByte 0 dst.code 5]) := by
  have hbyte : ∀ r : BitVec 4, ((r.setWidth 8 &&& 7) <<< 3) ||| 5 = modRmByte 0 r 5 := by decide
  rw [Emit.put_code, Emit.put_code, Emit.rex_code, hbyte, CodeBuffer.putAll_putAll,
    CodeBuffer.putAll_putAll]
  rfl

theorem length_rexBytes (r : BitVec 4) : (rexBytes true r 0).length = 1 := by
  revert r
  decide

theorem toInt_ofInt32 {d : Int} (h : ¬ (d < -2 ^ 31 ∨ 2 ^ 31 ≤ d)) :
    (BitVec.ofInt 32 d).toInt = d := by
  rw [BitVec.toInt_ofInt, Int.bmod]
  omega

theorem leaRip_kept {e₀ : Emit} {s : Session} (h : Kept e₀ s) (dst : HostReg) (target : Nat) :
    Kept e₀ (s.exec (.leaRip dst target)) := by
  set c := s.e.code.putAll (rexBytes true dst.code 0 ++ [0x8D, modRmByte 0 dst.code 5]) with hc
  have hhead := leaRip_head s.e dst
  have hcode : (s.e.leaRip dst target).code =
      if (target : Int) - (c.len + 4 : Nat) < -2 ^ 31 ∨ 2 ^ 31 ≤ (target : Int) - (c.len + 4 : Nat)
      then c.refuse
      else c.putAll (leBytes 4 (BitVec.ofInt 32 ((target : Int) - (c.len + 4 : Nat)))) := by
    rw [Emit.leaRip, hhead]
    split_ifs
    · rw [Emit.refuse, hhead]
    · rw [Emit.put32_code, hhead]
  have hlength : (rexBytes true dst.code 0 ++ [0x8D, modRmByte 0 dst.code 5]).length = 3 := by
    rw [List.length_append, length_rexBytes]
    rfl
  by_cases hrange : (target : Int) - (c.len + 4 : Nat) < -2 ^ 31 ∨
      2 ^ 31 ≤ (target : Int) - (c.len + 4 : Nat)
  · rw [if_pos hrange] at hcode
    exact h.refuse _ hcode _
  · rw [if_neg hrange] at hcode
    cases hover : c.overflow with
    | true =>
      refine h.append (hcode.trans ?_) fun hok => ?_
      · rw [EmitItem.bytes, ← List.append_assoc, ← CodeBuffer.putAll_putAll, ← hc,
          CodeBuffer.putAll_of_overflow hover, CodeBuffer.putAll_of_overflow hover]
      · rw [hcode, CodeBuffer.putAll_of_overflow hover, hover] at hok
        cases hok
    | false =>
      obtain ⟨hover', hroom⟩ := CodeBuffer.putAll_fits hover
      have hlen : c.len = s.e.code.len + 3 := by
        rw [hc, (CodeBuffer.putAll_ok hover' hroom).2.1, hlength]
      rw [show c.len + 4 = s.e.code.len + 7 by omega] at hcode hrange
      refine h.append (hcode.trans ?_) fun _ => ?_
      · rw [EmitItem.bytes, ← List.append_assoc, ← CodeBuffer.putAll_putAll]
      · rw [← h.contents hover', CodeBuffer.length_contents]
        exact toInt_ofInt32 hrange

theorem jump_code (k : Jump) (e : Emit) :
    (k.emit e).2.code = e.code.putAll (k.opcode ++ leBytes 4 0) ∧
      (k.emit e).1 = ⟨(e.code.putAll k.opcode).len, (k.emit e).2.code.len⟩ := by
  have hcode : ∀ e' : Emit, e'.code = e.code.putAll k.opcode →
      e'.makeSite.2.code = e.code.putAll (k.opcode ++ leBytes 4 0) ∧
        e'.makeSite.1 = ⟨(e.code.putAll k.opcode).len, e'.makeSite.2.code.len⟩ := by
    intro e' he'
    refine ⟨?_, ?_⟩
    · change (e'.put32 0).code = _
      rw [Emit.put32_code, he', CodeBuffer.putAll_putAll]
    · change (⟨e'.code.len, (e'.put32 0).code.len⟩ : EmitSite) = ⟨_, (e'.put32 0).code.len⟩
      rw [he']
  cases k with
  | jcc cc => exact hcode _ rfl
  | jmp => exact hcode _ rfl
  | call => exact hcode _ rfl

theorem jump_kept {e₀ : Emit} {s : Session} (h : Kept e₀ s) (k : Jump) :
    Kept e₀ (s.exec (.jump k)) := by
  obtain ⟨hcode, hsite⟩ := jump_code k s.e
  refine h.append hcode fun hok => ?_
  rw [hcode] at hok
  obtain ⟨hover, hroom⟩ := CodeBuffer.putAll_fits hok
  rw [List.length_append, length_leBytes] at hroom
  have hstart := @CodeBuffer.putAll_ok _ _ k.opcode hover (by omega)
  have hstop := @CodeBuffer.putAll_ok _ _ (k.opcode ++ leBytes 4 0) hover (by
    rw [List.length_append, length_leBytes]
    omega)
  rw [List.length_append, length_leBytes] at hstop
  rw [← h.contents hover, CodeBuffer.length_contents, hsite, EmitItem.At, hcode]
  exact ⟨hstart.2.1, by rw [hstart.2.1, hstop.2.1, Nat.add_assoc]⟩

theorem ofInt_low32 (d : Int) : (BitVec.ofInt 64 d).setWidth 32 = BitVec.ofInt 32 d := by
  apply BitVec.eq_of_toNat_eq
  rw [BitVec.toNat_setWidth, BitVec.toNat_ofInt, BitVec.toNat_ofInt]
  omega

/-- The four bytes of a distance. -/
theorem rel_bytes (site : EmitSite) (target : Nat) :
    let rel : U64 := BitVec.ofInt 64 ((target : Int) - site.stop)
    [(rel &&& 0xFF).setWidth 8, ((rel >>> 8) &&& 0xFF).setWidth 8,
      ((rel >>> 16) &&& 0xFF).setWidth 8, ((rel >>> 24) &&& 0xFF).setWidth 8] =
      leBytes 4 (site.rel (some target)) := by
  intro rel
  have hmask : ∀ u : U64, (u &&& 0xFF).setWidth 8 = u.setWidth 8 := fun u =>
    setWidth_masked u (by decide)
  rw [EmitSite.rel, ← ofInt_low32, leBytes_eq, hmask, hmask, hmask, hmask]
  refine congrArg₂ _ (byte_low32 rel (Nat.zero_le _)).symm (congrArg₂ _
    (byte_low32 rel (by decide)).symm (congrArg₂ _ (byte_low32 rel (by decide)).symm (congrArg₂ _
      (byte_low32 rel (by decide)).symm rfl)))

theorem bindTo_code (e : Emit) (site : EmitSite) (target : Nat) :
    (e.bindTo site target).code = if e.code.overflow ∨ site.start + 4 > e.code.len then e.code
      else e.code.patch site.start (leBytes 4 (site.rel (some target))) := by
  rw [← rel_bytes]
  unfold Emit.bindTo
  dsimp only
  split_ifs <;> rfl

theorem bindTo_kept {e₀ : Emit} {s : Session} (h : Kept e₀ s) (i target : Nat) :
    Kept e₀ (s.bindTo i target) := by
  unfold Session.bindTo
  cases hitem : s.items[i]? with
  | none => exact h
  | some it =>
    cases it with
    | jump k site old =>
      obtain ⟨pre, post, -, hitems, hset⟩ := Lib.set_split hitem
      have hcode := bindTo_code s.e site target
      cases hover : s.e.code.overflow with
      | true =>
        rw [if_pos (.inl hover)] at hcode
        refine ⟨?_, ?_, fun hok => ?_, fun hok => ?_⟩ <;> dsimp only at *
        · rw [hcode, h.capacity]
        · rw [hcode]
          exact h.within
        · rw [hcode, hover] at hok
          cases hok
        · rw [hcode, hover] at hok
          cases hok
      | false =>
        have hplaced := h.placed hover
        have hcontents := h.contents hover
        rw [hitems, placed_append, Nat.zero_add] at hplaced
        obtain ⟨hpre, ⟨hstart, hstop⟩, hpost⟩ := hplaced
        rw [hitems, flat_append, flat_cons, EmitItem.bytes, ← List.append_assoc,
          ← List.append_assoc] at hcontents
        have hlen : s.e.code.len = site.start + 4 + (flat post).length := by
          rw [← CodeBuffer.length_contents, hcontents, List.length_append, List.length_append,
            List.length_append, length_leBytes, hstart]
        rw [if_neg (by rw [hover, hlen]; simp)] at hcode
        refine ⟨?_, fun j hj => ?_, fun _ => ?_, fun _ => ?_⟩ <;> dsimp only at *
        · rw [hcode]
          exact h.capacity
        · rw [hcode]
          refine Eq.trans ?_ (h.within j hj)
          have hroom := s.e.code.len_le
          rw [h.capacity] at hroom
          change Lib.Bytes.store _ _ _ j = _
          rw [Lib.Bytes.store_apply, length_leBytes, if_neg (by omega)]
        · rw [hcode, hset, hstart, ← List.length_append, CodeBuffer.contents_patch hcontents
            ((length_leBytes 4 _).trans (length_leBytes 4 _).symm), flat_append, flat_cons,
            EmitItem.bytes, ← List.append_assoc, ← List.append_assoc]
        · rw [hset, placed_append, Nat.zero_add]
          refine ⟨hpre, ⟨hstart, hstop⟩, ?_⟩
          rw [EmitItem.bytes, List.length_append, length_leBytes] at hpost ⊢
          exact hpost
    | _ => exact h

theorem exec_kept {e₀ : Emit} {s : Session} (h : Kept e₀ s) (c : Call) : Kept e₀ (s.exec c) := by
  cases c with
  | form f => exact form_kept h f
  | leaRip dst target => exact leaRip_kept h dst target
  | jump k => exact jump_kept h k
  | bind i => exact bindTo_kept h i _
  | bindTo i target => exact bindTo_kept h i target
  | data bytes => exact data_kept h bytes

theorem emitRun_kept (buf : Option (Nat → U8)) (cap : Nat) (calls : List Call) :
    Kept (Emit.init buf cap) (emitRun buf cap calls) := by
  have hrun : ∀ (calls : List Call) (s : Session), Kept (Emit.init buf cap) s →
      Kept (Emit.init buf cap) (calls.foldl Session.exec s) := by
    intro calls
    induction calls with
    | nil => exact fun _ h => h
    | cons c calls ih => exact fun s h => ih _ (exec_kept h c)
  refine hrun calls _ ⟨rfl, fun _ _ => rfl, fun hover => ?_, fun _ => trivial⟩
  cases buf with
  | none => cases hover
  | some buf => rfl

/-! ## Reading it back -/

theorem jcc_layout (rex : Option Rex) (cc : BitVec 4) :
    twoByte none rex 32 (0x80 + cc.setWidth 8) =
      some (.bare .rel fun v => ⟨.jcc cc, 64, [.imm v]⟩) := by
  obtain rfl | rfl | rfl | rfl | rfl | rfl | rfl | rfl | rfl | rfl | rfl | rfl | rfl | rfl | rfl |
    rfl := bits4_cases cc <;> rfl

theorem reads_jump (k : Jump) (rel : U32) :
    Reads decode (k.opcode ++ leBytes 4 rel) ⟨k.name, 64, [.imm (rel.signExtend 64)]⟩ := by
  cases k with
  | jcc cc =>
    have hrel := reads_rel 32 rel
    have h := reads_twoByte (w := false) (r := 0) (b := 0) no_legacy rfl
      (jcc_layout _ (cc.setWidth 4)) (reads_bare _ _ hrel)
    rw [← cc_masked] at h
    exact h
  | jmp =>
    exact reads_oneByte (w := false) (r := 0) (b := 0) (.inl rfl) rfl (by decide) rfl
      (reads_bare 0xE9 (fun v => ⟨.jmp, 64, [.imm v]⟩) (reads_rel 32 rel))
  | call =>
    exact reads_oneByte (w := false) (r := 0) (b := 0) (.inl rfl) rfl (by decide) rfl
      (reads_bare 0xE8 (fun v => ⟨.call, 64, [.imm v]⟩) (reads_rel 32 rel))

/-- `[rip + disp]` behind its ModRM. -/
theorem reads_modRm_next (w high : Bool) (reg : BitVec 4) (disp : U32) :
    Reads (readModRm ⟨w, reg.getLsbD 3, false, high⟩) (modRmByte 0 reg 5 :: leBytes 4 disp)
      (reg, .mem ⟨.next, none, disp.signExtend 64⟩) := by
  obtain ⟨hmode, hreg, hrm⟩ := modRm_fields 0 reg 5
  have htop : topField (modRmByte 0 reg 5) = 0 := hmode
  have hmid : midField (modRmByte 0 reg 5) = reg.setWidth 3 := hreg
  have hlow : lowField (modRmByte 0 reg 5) = 5 := hrm
  refine (Lib.reads_item (modRmByte 0 reg 5)).bind ?_
  rw [htop, hmid, hlow, number_split]
  have hdisp : Reads (readMem ⟨w, reg.getLsbD 3, false, high⟩ 0 5) (leBytes 4 disp)
      ⟨.next, none, disp.signExtend 64⟩ :=
    ((reads_le 4 disp).map fun v : BitVec (8 * 4) => v.signExtend 64).map (MemOperand.mk .next none)
  exact hdisp.map fun m => (reg, RegOrMem.mem m)

theorem reads_leaRip (dst : HostReg) (disp : U32) :
    Reads decode (rexBytes true dst.code 0 ++ ([0x8D, modRmByte 0 dst.code 5] ++ leBytes 4 disp))
      ⟨.lea, 64, [dst.operand, .mem ⟨.next, none, disp.signExtend 64⟩]⟩ :=
  reads_oneByte (.inl rfl) rfl (by decide) rfl
    ((reads_modRm_next true false dst.code disp).last
      ((reads_none 64).last (Lib.reads_lift rfl)))

theorem EmitItem.reads {it : EmitItem} {start : Nat} (hat : it.At start) {i : HostInstr}
    (hi : it.asked = some i) : Reads decode it.bytes i := by
  cases it with
  | form f =>
    cases hi
    exact reads_form hat
  | leaRip dst target disp =>
    cases hi
    exact reads_leaRip dst disp
  | jump k site target =>
    cases hi
    exact reads_jump k (site.rel target)
  | data bytes => cases hi

/-! ## The whole run -/

/-- The item is what stands in the code from `start` to `stop`. -/
def EmitItem.Stands (code : List U8) (start stop : Nat) : EmitItem → Prop
  | .form f => decode.run (code.drop start) = some (f.asked, code.drop stop)
  | .leaRip dst target _ => ∃ disp : U64, (stop : Int) + disp.toInt = target ∧
      decode.run (code.drop start) =
        some (⟨.lea, 64, [dst.operand, .mem ⟨.next, none, disp⟩]⟩, code.drop stop)
  | .jump k _ target => ∃ rel : U64,
      (target.elim (rel = 0) fun t => (stop : Int) + rel.toInt = t) ∧
      decode.run (code.drop start) = some (⟨k.name, 64, [.imm rel]⟩, code.drop stop)
  | .data bytes => code.drop start = bytes ++ code.drop stop

/-- What was put down stands in the buffer, in that order and with nothing between, and nothing
past the capacity was touched. -/
structure EmitsAsAsked (e₀ : Emit) (s : Session) : Prop where
  within : ∀ i, e₀.code.cap ≤ i → s.e.code.buf i = e₀.code.buf i
  whole : s.e.ok → s.e.code.len = (flat s.items).length
  stands : s.e.ok → ∀ pre it post, s.items = pre ++ it :: post →
    it.Stands s.e.code.contents (flat pre).length (flat (pre ++ [it])).length

/-- The distances of the jumps that were bound. -/
def Session.JumpsNear (s : Session) : Prop :=
  ∀ pre k site (target : Nat) post, s.items = pre ++ .jump k site (some target) :: post →
    -2 ^ 31 ≤ (target : Int) - site.stop ∧ (target : Int) - site.stop < 2 ^ 31

theorem signExtend_rel {d : Int} (h : -2 ^ 31 ≤ d ∧ d < 2 ^ 31) :
    ((BitVec.ofInt 32 d).signExtend 64).toInt = d := by
  rw [BitVec.toInt_signExtend_of_le (by decide)]
  exact toInt_ofInt32 (by omega)

theorem toInt_signExtend_range (v : U32) :
    -2 ^ 31 ≤ (v.signExtend 64).toInt ∧ (v.signExtend 64).toInt < 2 ^ 31 := by
  rw [BitVec.toInt_signExtend_of_le (by decide)]
  exact ⟨BitVec.le_toInt v, BitVec.toInt_lt⟩

/-- What is read where an item was put down. -/
theorem Kept.run_decode {e₀ : Emit} {s : Session} (h : Kept e₀ s) (hok : s.e.code.overflow = false)
    {pre : List EmitItem} {it : EmitItem} {post : List EmitItem} (hitems : s.items = pre ++ it :: post) :
    s.e.code.contents.drop (flat pre).length = it.bytes ++ flat post ∧
      s.e.code.contents.drop (flat (pre ++ [it])).length = flat post ∧
      it.At (flat pre).length := by
  have hplaced := h.placed hok
  rw [hitems, placed_append, Nat.zero_add] at hplaced
  have hcontents := h.contents hok
  rw [hitems, flat_append, flat_cons] at hcontents
  refine ⟨?_, ?_, hplaced.2.1⟩
  · rw [hcontents, List.drop_left]
  · rw [hcontents, flat_append, flat_cons, flat_nil, List.append_nil, ← List.append_assoc,
      List.drop_left]

theorem stands_form {e₀ : Emit} {s : Session} (h : Kept e₀ s) (hok : s.e.code.overflow = false)
    {pre : List EmitItem} {it : EmitItem} {post : List EmitItem} (hitems : s.items = pre ++ it :: post)
    {i : HostInstr} (hi : it.asked = some i) :
    decode.run (s.e.code.contents.drop (flat pre).length) =
      some (i, s.e.code.contents.drop (flat (pre ++ [it])).length) := by
  obtain ⟨hstart, hstop, hat⟩ := h.run_decode hok hitems
  rw [hstart, hstop]
  exact it.reads hat hi _

theorem length_flat_snoc (pre : List EmitItem) (it : EmitItem) :
    (flat (pre ++ [it])).length = (flat pre).length + it.bytes.length := by
  rw [flat_append, flat_cons, flat_nil, List.append_nil, List.length_append]

/-- Every sequence of calls stands in the buffer as it was asked for, just where a run that did not
overflow keeps its bound jumps within 32 bits. -/
theorem emits_as_asked_iff (buf : Option (Nat → U8)) (cap : Nat) (calls : List Call) :
    EmitsAsAsked (Emit.init buf cap) (emitRun buf cap calls) ↔
      ((emitRun buf cap calls).e.ok → (emitRun buf cap calls).JumpsNear) := by
  have h := emitRun_kept buf cap calls
  generalize emitRun buf cap calls = s at h ⊢
  have hover : s.e.ok → s.e.code.overflow = false := fun hok => by simpa [Emit.ok] using hok
  -- a jump ends where its site says
  have hends : ∀ {pre k site target post}, s.e.ok → s.items = pre ++ .jump k site target :: post →
      (flat (pre ++ [.jump k site target])).length = site.stop := by
    intro pre k site target post hok hitems
    obtain ⟨-, -, hstart, hstop⟩ := h.run_decode (hover hok) hitems
    rw [length_flat_snoc, EmitItem.bytes, List.length_append, length_leBytes, hstop, hstart]
    omega
  constructor
  · intro hall hok pre k site target post hitems
    obtain ⟨rel, hrel, hrun⟩ := hall.stands hok pre _ post hitems
    rw [stands_form h (hover hok) hitems rfl] at hrun
    simp only [Option.some.injEq, Prod.mk.injEq, HostInstr.mk.injEq, List.cons.injEq,
      Operand.imm.injEq, and_true, true_and] at hrun
    have hrange := toInt_signExtend_range (site.rel (some target))
    rw [hrun] at hrange
    rw [hends hok hitems] at hrel
    change (site.stop : Int) + rel.toInt = target at hrel
    omega
  · intro hnear
    refine ⟨h.within, fun hok => ?_, fun hok pre it post hitems => ?_⟩
    · rw [← CodeBuffer.length_contents, h.contents (hover hok)]
    · obtain ⟨hstart, hstop, hat⟩ := h.run_decode (hover hok) hitems
      cases it with
      | form f => exact stands_form h (hover hok) hitems rfl
      | leaRip dst target disp =>
        refine ⟨_, ?_, stands_form h (hover hok) hitems rfl⟩
        have hlength : (EmitItem.leaRip dst target disp).bytes.length = 7 := by
          rw [EmitItem.bytes, List.length_append, length_rexBytes, List.length_append,
            length_leBytes]
          rfl
        rw [length_flat_snoc, hlength, BitVec.toInt_signExtend_of_le (by decide), hat]
        omega
      | jump k site target =>
        refine ⟨_, ?_, stands_form h (hover hok) hitems rfl⟩
        rw [hends hok hitems]
        cases target with
        | none => rfl
        | some target =>
          change (site.stop : Int) + ((BitVec.ofInt 32 _).signExtend 64).toInt = target
          rw [signExtend_rel (hnear hok pre k site target post hitems)]
          omega
      | data bytes =>
        change _ = _
        rw [hstart, hstop]
        rfl

end X86Port.X64
