import X86Port.Cpu.DoubleShift
import X86Port.Wasm.World

/-!
# The arithmetic helpers

`x86p_alu` and the helpers of `jit_wasm_bitops.c` as translated code calls them: the flag state
comes from linear memory, and a new one goes back there.

* `run_callAlu`: a call is the operation on the CPU's own flags.
* `run_condValue`, `run_carry`: what the lowering reads of the flags that it has left.
-/

namespace X86Port.Wasm

open Lib StackCode
open Cpu (Width FlagKind Flags X86Cpu AluOp BitOp SameFlags alu eflags flagsSetExplicit doubleShift
  bitApply flagCf)

/-! ## The codes -/

def aluCode : AluOp → U32
  | .add => 0
  | .or => 1
  | .adc => 2
  | .sbb => 3
  | .and => 4
  | .sub => 5
  | .xor => 6
  | .cmp => 7
  | .test => 8
  | .shl => 9
  | .shr => 10
  | .sar => 11
  | .rol => 12
  | .ror => 13
  | .rcl => 14
  | .rcr => 15

def aluOfCode (op : U32) : Option AluOp := [AluOp.add, .or, .adc, .sbb, .and, .sub, .xor, .cmp,
  .test, .shl, .shr, .sar, .rol, .ror, .rcl, .rcr][op.toNat]?

@[simp] theorem aluOfCode_aluCode (op : AluOp) : aluOfCode (aluCode op) = some op := by
  cases op <;> rfl

def bitCode : BitOp → U32
  | .test => 0
  | .set => 1
  | .reset => 2
  | .comp => 3

def bitOfCode (op : U32) : Option BitOp := [BitOp.test, .set, .reset, .comp][op.toNat]?

@[simp] theorem bitOfCode_bitCode (op : BitOp) : bitOfCode (bitCode op) = some op := by
  cases op <;> rfl

/-! ## The helpers -/

/-- A flag state stored field for field behind a pointer. -/
def storeFlagsAt (m : LinearMem) (p : Nat) (f : Flags) : Option LinearMem :=
  (m.store 4 p f.a).bind fun m =>
  (m.store 4 (p + 4) f.b).bind fun m =>
  (m.store 4 (p + 8) f.r).bind fun m =>
  (m.store 1 (p + 12) ((kindCode f.kind).setWidth 32)).bind fun m =>
  (m.store 1 (p + 13) ((widthCode f.w).setWidth 32)).bind fun m =>
  m.store 1 (p + 14) (f.carryIn.setWidth 32)

/-- An operation that writes no flags stores none. -/
def replaceFlags (m : LinearMem) (p : Nat) (f f' : Flags) : Option LinearMem :=
  if f' = f then some m else storeFlagsAt m p f'

def callAlu (op a b w p : U32) (m : LinearMem) : Option (Option U32 × LinearMem) :=
  (aluOfCode op).bind fun op =>
  (Width.ofBytes w.toNat).bind fun w =>
  (flagsAt m p.toNat).bind fun f =>
  (alu op a b w f).bind fun (r, f') =>
  (replaceFlags m p.toNat f f').map fun m => (some r, m)

def callDoubleShift (cpu dst src count width left : U32) (m : LinearMem) :
    Option (Option U32 × LinearMem) :=
  (Width.ofBytes width.toNat).bind fun w =>
  (flagsAt m (cpu.toNat + flagsOffset)).bind fun f =>
  match doubleShift (decide (left ≠ 0)) dst src count w (eflags f) with
  | (_, none) => some (some dst, m)
  | (_, some (r, word)) =>
    (storeFlagsAt m (cpu.toNat + flagsOffset) (flagsSetExplicit word)).map fun m => (some r, m)

def callBit (cpu value index operation : U32) (m : LinearMem) : Option (Option U32 × LinearMem) :=
  (bitOfCode operation).bind fun op =>
  (flagsAt m (cpu.toNat + flagsOffset)).bind fun f =>
  let (r, word) := bitApply op value index.toNat (eflags f)
  (storeFlagsAt m (cpu.toNat + flagsOffset) (flagsSetExplicit word)).map fun m => (some r, m)

def withAluHelpers (others : Imports) : Imports := fun f args m =>
  match f, args with
  | .alu, [op, a, b, w, p] => callAlu op a b w p m
  | .doubleShift, [cpu, dst, src, count, width, left] =>
    callDoubleShift cpu dst src count width left m
  | .bit, [cpu, value, index, operation] => callBit cpu value index operation m
  | f, args => others f args m

/-- The imports of the integer families over the other imports of a module. -/
def withHelpers (others : Imports) : Imports := withFlagHelpers (withAluHelpers others)

/-! ## What an operation leaves in the flags -/

/-- A flag state that an operation has recorded, with a carry of one bit. -/
structure Fresh (f : Flags) : Prop where
  kind : f.kind ≠ .none
  carry : f.carryIn = 0 ∨ f.carryIn = 1

theorem fresh_explicit (word : U32) : Fresh (flagsSetExplicit word) := by
  refine ⟨nofun, ?_⟩
  unfold flagsSetExplicit
  dsimp only
  split_ifs
  · exact .inr rfl
  · exact .inl rfl

theorem fresh_of_flagsSet {f f' : Flags} {kind : FlagKind} {a b r : U32} {w : Width}
    (hkind : kind ≠ .none) (h : Cpu.flagsSet f kind a b r w = some f') : Fresh f' := by
  unfold Cpu.flagsSet at h
  split_ifs at h with hcf <;> cases h <;> refine ⟨hkind, ?_⟩
  · exact .inr rfl
  · exact .inl rfl

/-- An operation keeps the flags or records them. -/
theorem alu_records {op : AluOp} {a b r : U32} {w : Width} {f f' : Flags}
    (h : alu op a b w f = some (r, f')) : f' = f ∨ Fresh f' := by
  have hset : ∀ {kind : FlagKind} {a b c v : U32}, kind ≠ .none →
      (Cpu.flagsSet f kind a b c w).map (fun g => (v, g)) = some (r, f') → Fresh f' := by
    intro kind a b c v hkind hmap
    obtain ⟨g, hg, hpair⟩ := Option.map_eq_some_iff.mp hmap
    cases hpair
    exact fresh_of_flagsSet hkind hg
  cases op <;> simp only [alu, Cpu.setCfOfOnly] at h
  case adc | sbb => cases h; exact .inr (fresh_explicit _)
  case rol | ror | rcl | rcr =>
    split_ifs at h <;> cases h <;> first | exact .inl rfl | exact .inr (fresh_explicit _)
  case shl | shr | sar =>
    split_ifs at h <;> first | (cases h; exact .inl rfl) | exact .inr (hset (by decide) h)
  all_goals exact .inr (hset (by decide) h)

theorem recorded_kind (f : Flags) : (recorded f).kind = f.kind := by
  unfold recorded
  split_ifs <;> rfl

theorem sameFlags_recorded (f : Flags) : SameFlags (recorded f) f :=
  ⟨eflags_recorded f, flagCf_recorded f⟩

/-- The flags behind a write that may have been none. -/
def behind (f f' : Flags) : Flags := if f' = recorded f then f else f'

theorem behind_spec {f f' : Flags} (h : f' = recorded f ∨ Fresh f') :
    SameFlags (behind f f') f' ∧ (behind f f').kind = f'.kind ∧
      (behind f f' = f ∨ Fresh (behind f f')) := by
  unfold behind
  by_cases heq : f' = recorded f
  · rw [if_pos heq, heq, recorded_kind]
    exact ⟨(sameFlags_recorded f).symm, rfl, .inl rfl⟩
  · rw [if_neg heq]
    exact ⟨.refl _, rfl, .inr (h.resolve_left heq)⟩

theorem alu_recorded {op : AluOp} {a b r : U32} {w : Width} {f f' : Flags}
    (h : alu op a b w f = some (r, f')) :
    ∃ g, alu op a b w (recorded f) = some (r, g) ∧ SameFlags g f' := by
  have hanswer := Cpu.alu_sameFlags (sameFlags_recorded f) op a b w
  rw [h] at hanswer
  revert hanswer
  cases alu op a b w (recorded f) with
  | none => intro hanswer; cases hanswer
  | some p =>
    rintro ⟨hval, hflags⟩
    obtain ⟨v, g⟩ := p
    dsimp only at hval hflags
    exact ⟨g, by rw [hval], hflags⟩

/-! ## Calls -/

theorem storeFlagsAt_home {lay : CpuLayout} (home : CpuHome lay) (c : X86Cpu) {f : Flags}
    (hkind : f.kind ≠ .none) :
    storeFlagsAt (home.mem c) (home.addr.toNat + flagsOffset) f =
      some (home.mem { c with flags := f }) := by
  have hflags : Wasm.storeFlags (image lay home.addr.toNat c home.around) _ _ _ _ _ _ = _ :=
    store_flags home.backed hkind f.a f.b f.r f.w
  have hbyte : (f.carryIn.setWidth 32).setWidth 8 = f.carryIn := by
    rw [BitVec.setWidth_setWidth_of_le _ (by decide), BitVec.setWidth_eq]
  have hcarry := @store_carry lay home.addr.toNat
    { c with flags := ⟨f.a, f.b, f.r, f.kind, f.w, c.flags.carryIn⟩ } home.around
    (f.carryIn.setWidth 32)
  rw [hbyte] at hcarry
  unfold Wasm.storeFlags at hflags
  unfold storeFlagsAt
  simp only [Nat.add_assoc]
  change ((image lay home.addr.toNat c home.around).store 4 (home.addr.toNat + aOffset) f.a).bind _ = _
  rw [store_a, Option.bind_some] at hflags ⊢
  change ((image _ _ _ _).store 4 (home.addr.toNat + bOffset) f.b).bind _ = _
  rw [store_b, Option.bind_some] at hflags ⊢
  change ((image _ _ _ _).store 4 (home.addr.toNat + rOffset) f.r).bind _ = _
  rw [store_r, Option.bind_some] at hflags ⊢
  obtain ⟨m, hk, hw⟩ := Option.bind_eq_some_iff.mp hflags
  change ((image _ _ _ _).store 1 (home.addr.toNat + kindOffset) _).bind _ = _
  rw [hk, Option.bind_some]
  change (m.store 1 (home.addr.toNat + wOffset) _).bind _ = _
  rw [hw, Option.bind_some]
  exact hcarry

namespace World

variable {s : WasmState} (W : World s) (others : Imports) {c : X86Cpu} {bytes : Nat → U8}
  {l : WasmLocal → U32} {st : List U32} {rest : Code}

theorem flagsAt_mem : flagsAt (W.mem c bytes) (W.home.addr.toNat + flagsOffset) =
    some (recorded c.flags) :=
  flagsAt_image (W.homeWith bytes) c

theorem storeFlagsAt_mem {f : Flags} (hkind : f.kind ≠ .none) :
    storeFlagsAt (W.mem c bytes) (W.home.addr.toNat + flagsOffset) f =
      some (W.mem { c with flags := f } bytes) :=
  storeFlagsAt_home (W.homeWith bytes) c hkind

theorem replaceFlags_mem {f' : Flags} (h : f' = recorded c.flags ∨ Fresh f') :
    replaceFlags (W.mem c bytes) (W.home.addr.toNat + flagsOffset) (recorded c.flags) f' =
      some (W.mem { c with flags := behind c.flags f' } bytes) := by
  unfold replaceFlags behind
  by_cases heq : f' = recorded c.flags
  · rw [if_pos heq, if_pos heq]
  · rw [if_neg heq, if_neg heq, W.storeFlagsAt_mem (h.resolve_left heq).kind]

/-- The call of `x86p_alu` is the operation on the recorded flags of the CPU. -/
theorem run_callAlu (hl : l .cpu = W.home.addr) {op : AluOp} {a b r : U32} {w : Width}
    {f' : Flags} (h : alu op a b w (recorded c.flags) = some (r, f')) :
    run (wasmEnv (withHelpers others)) (.call .alu :: rest) ⟨W.mem c bytes, l,
        [l .cpu + BitVec.ofNat 32 flagsOffset, BitVec.ofNat 32 w.bytes, b, a, aluCode op] ++ st⟩ =
      run (wasmEnv (withHelpers others)) rest
        ⟨W.mem { c with flags := behind c.flags f' } bytes, l, r :: st⟩ := by
  have hp : (l .cpu + BitVec.ofNat 32 flagsOffset).toNat = W.home.addr.toNat + flagsOffset := by
    rw [hl]
    exact W.home.flagsAddr
  have hw : Width.ofBytes (BitVec.ofNat 32 w.bytes).toNat = some w := by
    cases w <;> rfl
  refine @run_call _ _ _ _ (wasmEnv (withHelpers others)) _ l st rest .alu
    [l .cpu + BitVec.ofNat 32 flagsOffset, BitVec.ofNat 32 w.bytes, b, a, aluCode op] (some r) _
    rfl ?_
  change callAlu (aluCode op) a b (BitVec.ofNat 32 w.bytes) _ _ = _
  unfold callAlu
  rw [aluOfCode_aluCode, Option.bind_some, hw, Option.bind_some, hp, W.flagsAt_mem,
    Option.bind_some, h, Option.bind_some]
  dsimp only
  rw [W.replaceFlags_mem (alu_records h), Option.map_some]

end World

/-! ## What the lowering knows -/

/-- What the lowering of a block carries holds of the flags that its code has left. -/
structure Tracks (low : WasmLower) (f : Flags) : Prop where
  carry : f.carryIn = 0 ∨ f.carryIn = 1
  known : low.lastKind = none ∨ low.lastKind = some f.kind
  arith : low.lastKind ≠ none → f.kind.isArith = true →
    low.lastW = some f.w ∧ Cpu.Consistent f ∧ Masked f

theorem Tracks.start {low : WasmLower} {f : Flags} (hlow : low.lastKind = none)
    (hcarry : f.carryIn = 0 ∨ f.carryIn = 1) : Tracks low f :=
  ⟨hcarry, .inl hlow, fun h => absurd hlow h⟩

namespace World

variable {s : WasmState} (W : World s) (others : Imports) {c : X86Cpu} {bytes : Nat → U8}
  {l : WasmLocal → U32} {st : List U32} {rest : Code}

/-- The condition is the recorded one, inline or not. -/
theorem run_condValue {low : WasmLower} (hstate : low.state = s) (hl : l .cpu = W.home.addr)
    (htracks : Tracks low c.flags) (cc : Cpu.Cond) :
    run (wasmEnv (withHelpers others)) (low.condValue cc ++ rest) ⟨W.mem c bytes, l, st⟩ =
      run (wasmEnv (withHelpers others)) rest
        ⟨W.mem c bytes, l, truth (Cpu.cond cc c.flags) :: st⟩ := by
  subst hstate
  have hcall : Pushes (wasmEnv (withHelpers others)) (W.mem c bytes) l (WasmLower.callCond cc)
      (truth (Cpu.cond cc c.flags)) := by
    intro st
    have hp : (l .cpu + BitVec.ofNat 32 flagsOffset).toNat = W.home.addr.toNat + flagsOffset := by
      rw [hl]
      exact W.home.flagsAddr
    refine @run_call _ _ _ _ (wasmEnv (withHelpers others)) _ l st [] .cond
      [l .cpu + BitVec.ofNat 32 flagsOffset, condCode cc] (some (truth (Cpu.cond cc c.flags))) _
      rfl ?_
    change (condOfCode (condCode cc)).bind _ = _
    rw [condOfCode_condCode, Option.bind_some, hp, W.flagsAt_mem, Option.map_some,
      cond_recorded]
  rcases htracks.known with hnone | hsome
  · refine Pushes.run ?_ rest st
    unfold WasmLower.condValue
    rw [hnone]
    exact hcall
  · refine Pushes.run ?_ rest st
    cases harith : c.flags.kind.isArith with
    | true =>
      obtain ⟨hw, hconsistent, -⟩ := htracks.arith (by rw [hsome]; nofun) harith
      exact @pushes_condValue _ low (W.homeWith bytes) c l hl hw hsome harith hconsistent
        htracks.carry cc
    | false =>
      unfold WasmLower.condValue
      rw [hsome]
      cases hkind : c.flags.kind <;> rw [hkind] at harith <;> first | exact hcall | cases harith

/-- The carry of the recorded tuple ends in its local. -/
theorem run_carry {low : WasmLower} (hl : l .cpu = W.home.addr)
    (htracks : Tracks low c.flags) :
    run (wasmEnv (withHelpers others)) (low.carryIn ++ rest) ⟨W.mem c bytes, l, st⟩ =
      run (wasmEnv (withHelpers others)) rest
        ⟨W.mem c bytes, Function.update l .carry (truth (flagCf c.flags)), st⟩ := by
  have hmasked : low.lastKind = some .add ∨ low.lastKind = some .sub → Masked c.flags := by
    intro hk
    rcases htracks.known with hnone | hsome
    · rw [hnone] at hk
      rcases hk with h | h <;> cases h
    · refine (htracks.arith (by rw [hsome]; nofun) ?_).2.2
      rw [hsome] at hk
      rcases hk with h | h <;> rw [Option.some_inj.mp h] <;> rfl
  have hrun := @run_carryIn (withAluHelpers others) s.lay (W.homeWith bytes) c l hl low
    htracks.known hmasked htracks.carry st
  rw [run_append]
  change (run (wasmEnv (withFlagHelpers (withAluHelpers others))) low.carryIn
    ⟨(W.homeWith bytes).mem c, l, st⟩).andThen _ = _
  rw [hrun]
  rfl

end World

end X86Port.Wasm
