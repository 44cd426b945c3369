import X86Port.Wasm.Cond

/-!
# The carry at lowering time

`x86p_wasm_carry_in` of `jit_wasm_lower.c`: the carry of a known predecessor, and the dispatch
on the recorded kind and width for an unknown one.

* `pushes_knownCf`: a known kind answers with the recorded carry.
* `run_arms`: the dispatch, by induction on its arms.
* `run_carryIn`: the carry local ends as the recorded carry.
-/

namespace X86Port.Wasm

open Lib StackCode
open Cpu (Width FlagKind Flags X86Cpu Cond Consistent flagCf widthMask)

/-! ## The code -/

/-- Nothing for a kind with no inline form. -/
def emitKnownCf : FlagKind → Option Code
  | .none | .logic => some [.const 0]
  | .add => some [WasmState.cpu, .load 4 rOffset, WasmState.cpu, .load 4 aOffset, .op .ltU]
  | .sub => some [WasmState.cpu, .load 4 aOffset, WasmState.cpu, .load 4 bOffset, .op .ltU]
  | .explicit => some [WasmState.cpu, .load 4 aOffset, .const Cpu.flagCF, .op .and]
  | .inc | .dec => some WasmLower.pushCarryIn
  | _ => none

structure CarryArm where
  kind : FlagKind
  dwordOnly : Bool

/-- State recorded outside a translated block is not masked to its width, and at 32 bits there
is nothing to mask. -/
def carryArms : List CarryArm :=
  [⟨.sub, true⟩, ⟨.logic, false⟩, ⟨.dec, false⟩, ⟨.inc, false⟩, ⟨.add, true⟩,
    ⟨.explicit, false⟩, ⟨.none, false⟩]

/-- Two bytes of memory as the halfword they are. -/
def halfword (low high : U8) : U32 := low.setWidth 32 ||| high.setWidth 32 <<< 8

/-- The test of the halfword that waits in the carry local. -/
def CarryArm.test (arm : CarryArm) : Code :=
  .localGet .carry ::
    (if arm.dwordOnly then ([.const (halfword (kindCode arm.kind) 4)] : Code)
      else [.const 0xFF, .op .and, .const ((kindCode arm.kind).setWidth 32)]) ++ ([.op .eq] : Code)

def emitArms : List CarryArm → Code
  | [] => WasmState.flagsAddr ++ ([.call .flagCf] : Code)
  | arm :: arms => arm.test ++ ([.ite ((emitKnownCf arm.kind).getD []) (emitArms arms)] : Code)

def emitUnknownCf : Code :=
  .localGet .cpu :: .load 2 kindOffset :: .localSet .carry :: emitArms carryArms

def WasmLower.carryIn (l : WasmLower) : Code :=
  (match l.lastKind.bind emitKnownCf with
    | some code => code
    | none => emitUnknownCf) ++ ([.localSet .carry] : Code)

/-! ## A known kind -/

/-- The operands and the result are recorded at 32 bits, or masked to their width. -/
def Masked (f : Flags) : Prop :=
  f.w = .dword ∨
    f.a &&& widthMask f.w = f.a ∧ f.b &&& widthMask f.w = f.b ∧ f.r &&& widthMask f.w = f.r

section

variable (imports : Imports) {lay : CpuLayout} {home : CpuHome lay} {c : X86Cpu}
  {locals : WasmLocal → U32} (hl : locals .cpu = home.addr)

omit imports in
theorem and_one (v : U32) : v &&& 1 = truth (decide (v &&& 1 ≠ 0)) := by
  have h := ofNat_and_one v.toNat
  rw [BitVec.ofNat_toNat, BitVec.setWidth_eq] at h
  rw [h]
  cases decide (v.toNat % 2 = 1) <;> rfl

/-- A carry that compares two fields of the tuple as whole words. -/
theorem masked_lt {f : Flags} {u v : U32} (h : f.w = .dword ∨
    u &&& widthMask f.w = u ∧ v &&& widthMask f.w = v) :
    (if f.w = .dword then decide (u < v)
      else decide (u &&& widthMask f.w < v &&& widthMask f.w)) = decide (u < v) := by
  obtain h | ⟨hu, hv⟩ := h
  · rw [if_pos h]
  · rw [hu, hv, ite_self]

include hl

theorem pushes_knownCf {code : Code} (hcode : emitKnownCf c.flags.kind = some code)
    (hmasked : c.flags.kind = .add ∨ c.flags.kind = .sub → Masked c.flags)
    (hcarry : c.flags.carryIn = 0 ∨ c.flags.carryIn = 1) :
    Pushes (wasmEnv imports) (home.mem c) locals code (truth (flagCf c.flags)) := by
  have ha := pushes_field home c imports hl (load_a home c)
  have hb := pushes_field home c imports hl (load_b home c)
  have hr := pushes_field home c imports hl (load_r home c)
  have hc := pushes_field home c imports hl (load_carryIn home c)
  have hpreserved : c.flags.carryIn.setWidth 32 = truth (decide (c.flags.carryIn ≠ 0)) := by
    obtain h | h := hcarry <;> rw [h] <;> rfl
  cases hkind : c.flags.kind with
  | none | logic =>
    rw [hkind, emitKnownCf, Option.some_inj] at hcode
    subst hcode
    refine (pushes_const 0).congr ?_
    simp only [flagCf, hkind]
    rfl
  | add =>
    rw [hkind, emitKnownCf, Option.some_inj] at hcode
    subst hcode
    refine (hr.binary ha fun _ => rfl).congr (congrArg truth ?_)
    simp only [flagCf, hkind]
    exact (masked_lt ((hmasked (.inl hkind)).imp_right fun h => ⟨h.2.2, h.1⟩)).symm
  | sub =>
    rw [hkind, emitKnownCf, Option.some_inj] at hcode
    subst hcode
    refine (ha.binary hb fun _ => rfl).congr (congrArg truth ?_)
    simp only [flagCf, hkind]
    exact (masked_lt ((hmasked (.inr hkind)).imp_right fun h => ⟨h.1, h.2.1⟩)).symm
  | inc | dec =>
    rw [hkind, emitKnownCf, Option.some_inj] at hcode
    subst hcode
    refine hc.congr ?_
    simp only [flagCf, hkind]
    exact hpreserved
  | explicit =>
    rw [hkind, emitKnownCf, Option.some_inj] at hcode
    subst hcode
    refine (ha.binary (pushes_const _) fun _ => rfl).congr ?_
    simp only [flagCf, hkind]
    exact and_one c.flags.a
  | shl | shr | sar =>
    rw [hkind] at hcode
    cases hcode

end

/-! ## The dispatch -/

theorem halfword_low (low high : U8) : halfword low high &&& 0xFF = low.setWidth 32 := by
  refine BitVec.eq_of_getLsbD_eq fun i hi => ?_
  rw [show (0xFF : U32) = widthMask .byte from rfl, Cpu.getLsbD_and_widthMask, halfword,
    BitVec.getLsbD_or, BitVec.getLsbD_shiftLeft, BitVec.getLsbD_setWidth,
    BitVec.getLsbD_setWidth, show Width.byte.bits = 8 from rfl]
  by_cases h : i < 8
  · simp [h]
  · rw [BitVec.getLsbD_of_ge low i (by omega)]
    simp [h]

theorem halfword_high (low high : U8) : halfword low high >>> 8 = high.setWidth 32 := by
  refine BitVec.eq_of_getLsbD_eq fun i hi => ?_
  rw [halfword, BitVec.getLsbD_ushiftRight, BitVec.getLsbD_or, BitVec.getLsbD_shiftLeft,
    BitVec.getLsbD_setWidth, BitVec.getLsbD_setWidth, BitVec.getLsbD_of_ge low (8 + i) (by omega),
    Nat.add_sub_cancel_left]
  by_cases h : 8 + i < 32
  · simp [hi, h]
  · rw [BitVec.getLsbD_setWidth, BitVec.getLsbD_of_ge high i (by omega)]
    simp

theorem setWidth_inj {x y : U8} (h : x.setWidth 32 = y.setWidth 32) : x = y := by
  have := congrArg (BitVec.setWidth 8) h
  rwa [BitVec.setWidth_setWidth_of_le _ (by decide), BitVec.setWidth_setWidth_of_le _ (by decide),
    BitVec.setWidth_eq, BitVec.setWidth_eq] at this

theorem halfword_inj {x y x' y' : U8} (h : halfword x y = halfword x' y') : x = x' ∧ y = y' := by
  constructor
  · apply setWidth_inj
    rw [← halfword_low x y, h, halfword_low]
  · apply setWidth_inj
    rw [← halfword_high x y, h, halfword_high]

theorem kindCode_inj {k k' : FlagKind} (h : kindCode k = kindCode k') : k = k' := by
  have hsome : some k = some k' := by rw [← kindOfCode_kindCode k, h, kindOfCode_kindCode]
  exact Option.some_inj.mp hsome

theorem widthCode_dword {w : Width} (h : widthCode w = 4) : w = .dword := by
  cases w <;> first | rfl | exact absurd h (by decide)

/-- The verdict of an arm's test on the halfword of a flag state. -/
def CarryArm.takes (arm : CarryArm) (half : U32) : Bool :=
  if arm.dwordOnly then decide (half = halfword (kindCode arm.kind) 4)
  else decide (half &&& 0xFF = (kindCode arm.kind).setWidth 32)

section

variable (others : Imports) {lay : CpuLayout} {home : CpuHome lay} {c : X86Cpu}
  {locals : WasmLocal → U32} {high : U8} (hl : locals .cpu = home.addr)

/-- An arm that is taken is of the recorded kind, at 32 bits where it has to be. -/
theorem takes_kind {arm : CarryArm} (h : arm.takes (halfword (kindCode c.flags.kind) high) = true) :
    arm.kind = c.flags.kind ∧ (arm.dwordOnly = true → high = 4) := by
  unfold CarryArm.takes at h
  by_cases hdword : arm.dwordOnly = true
  · rw [if_pos hdword, decide_eq_true_iff] at h
    obtain ⟨hkind, hhigh⟩ := halfword_inj h
    exact ⟨(kindCode_inj hkind).symm, fun _ => hhigh⟩
  · rw [if_neg hdword, decide_eq_true_iff, halfword_low] at h
    exact ⟨(kindCode_inj (setWidth_inj h)).symm, fun h => absurd h hdword⟩

theorem run_test (arm : CarryArm) (rest : Code) (st : List U32) (m : LinearMem) :
    run (wasmEnv others) (arm.test ++ rest) ⟨m, locals, st⟩ =
      run (wasmEnv others) rest ⟨m, locals, truth (arm.takes (locals .carry)) :: st⟩ := by
  unfold CarryArm.test CarryArm.takes
  cases arm.dwordOnly <;> rfl

include hl

/-- The authority, asked for a pair no arm answers. -/
theorem run_callFlagCf (st : List U32) :
    run (wasmEnv (withFlagHelpers others)) (WasmState.flagsAddr ++ [.call .flagCf])
        ⟨home.mem c, locals, st⟩ =
      .next ⟨home.mem c, locals, truth (flagCf c.flags) :: st⟩ := by
  have hcode : run (wasmEnv (withFlagHelpers others)) (WasmState.flagsAddr ++ [.call .flagCf])
      ⟨home.mem c, locals, st⟩ =
      run (wasmEnv (withFlagHelpers others)) [.call .flagCf]
        ⟨home.mem c, locals, [locals .cpu + BitVec.ofNat 32 flagsOffset] ++ st⟩ := rfl
  have hcall : withFlagHelpers others .flagCf [home.addr + BitVec.ofNat 32 flagsOffset]
      (home.mem c) = some (some (truth (flagCf c.flags)), home.mem c) := by
    rw [withFlagHelpers, home.flagsAddr, flagsAt_image, Option.map_some, flagCf_recorded]
  rw [hcode, run_call _ _ _ st [] rfl (by rw [hl]; exact hcall)]
  rfl

/-- The dispatch, by induction on the arms that are left: one that is taken answers for the
recorded kind, and what no arm takes is asked of the runtime. -/
theorem run_arms (arms : List CarryArm)
    (hknown : ∀ arm ∈ arms, (emitKnownCf arm.kind).isSome)
    (hnarrow : ∀ arm ∈ arms, arm.kind = .add ∨ arm.kind = .sub → arm.dwordOnly = true)
    (hhalf : locals .carry = halfword (kindCode c.flags.kind) high)
    (hhigh : c.flags.kind ≠ .none → high = widthCode c.flags.w)
    (hcarry : c.flags.carryIn = 0 ∨ c.flags.carryIn = 1) (st : List U32) :
    run (wasmEnv (withFlagHelpers others)) (emitArms arms) ⟨home.mem c, locals, st⟩ =
      .next ⟨home.mem c, locals, truth (flagCf c.flags) :: st⟩ := by
  induction arms with
  | nil => exact run_callFlagCf others hl st
  | cons arm arms ih =>
    rw [emitArms, run_test, run_ite_truth, hhalf]
    split_ifs with htakes
    · obtain ⟨hkind, hdword⟩ := takes_kind htakes
      obtain ⟨code, hcode⟩ := Option.isSome_iff_exists.mp (hknown arm List.mem_cons_self)
      have hmasked : c.flags.kind = .add ∨ c.flags.kind = .sub → Masked c.flags := by
        intro hnk
        rw [← hkind] at hnk
        have hfour := hdword (hnarrow arm List.mem_cons_self hnk)
        refine .inl (widthCode_dword ((hhigh ?_).symm.trans hfour))
        rw [← hkind]
        obtain h | h := hnk <;> rw [h] <;> decide
      rw [hcode, Option.getD_some]
      rw [hkind] at hcode
      rw [pushes_knownCf _ hl hcode hmasked hcarry st]
      rfl
    · rw [ih (fun arm h => hknown arm (List.mem_cons_of_mem _ h))
        fun arm h => hnarrow arm (List.mem_cons_of_mem _ h)]
      rfl

variable (home c) in
omit hl in
/-- The kind and the width are read as one halfword, whatever stands in for a width. -/
theorem load_halfword : ∃ high, (home.mem c).load 2 (home.addr.toNat + kindOffset) =
    some (halfword (kindCode c.flags.kind) high) ∧
      (c.flags.kind ≠ .none → high = widthCode c.flags.w) := by
  obtain ⟨high, hbyte⟩ : ∃ high, home.mem c (home.addr.toNat + wOffset) = some high := by
    refine Option.ne_none_iff_exists'.mp fun h => ?_
    rw [CpuHome.mem, image, Option.or_eq_none_iff] at h
    exact home.backed h.2
  refine ⟨high, ?_, fun hkind => ?_⟩
  · have hlow : home.mem c (home.addr.toNat + kindOffset) = some (kindCode c.flags.kind) :=
      image_field cpuByte_kind
    have hvalue : Memory.valueOf [kindCode c.flags.kind, high] =
        halfword (kindCode c.flags.kind) high := by
      rw [Memory.valueOf, Memory.valueOf, Memory.valueOf, show (0 : U32) <<< 8 = 0#32 from rfl,
        BitVec.zero_or, halfword, BitVec.or_comm]
    rw [← hvalue, LinearMem.load, LinearMem.bytes, hlow, Option.bind_some, LinearMem.bytes,
      Nat.add_assoc, show kindOffset + 1 = wOffset from rfl, hbyte]
    rfl
  · have hw : home.mem c (home.addr.toNat + wOffset) = some (widthCode c.flags.w) :=
      image_field (cpuByte_w hkind)
    exact Option.some_inj.mp (hbyte.symm.trans hw)

theorem run_emitUnknownCf (hcarry : c.flags.carryIn = 0 ∨ c.flags.carryIn = 1)
    (st : List U32) :
    ∃ half, run (wasmEnv (withFlagHelpers others)) emitUnknownCf ⟨home.mem c, locals, st⟩ =
      .next ⟨home.mem c, Function.update locals .carry half, truth (flagCf c.flags) :: st⟩ := by
  obtain ⟨high, hload, hhigh⟩ := load_halfword home c
  refine ⟨halfword (kindCode c.flags.kind) high, ?_⟩
  rw [← hl] at hload
  rw [emitUnknownCf, run_localGet, run_load _ _ _ _ _ hload, run_localSet]
  refine run_arms others ?_ carryArms (by decide) (by decide) ?_ hhigh hcarry st
  · rw [Function.update_of_ne (by decide), hl]
  · rw [Function.update_self]

/-- The carry of the recorded tuple, known or not, ends in its local. -/
theorem run_carryIn {l : WasmLower} (hlast : l.lastKind = none ∨ l.lastKind = some c.flags.kind)
    (hmasked : l.lastKind = some .add ∨ l.lastKind = some .sub → Masked c.flags)
    (hcarry : c.flags.carryIn = 0 ∨ c.flags.carryIn = 1) (st : List U32) :
    run (wasmEnv (withFlagHelpers others)) l.carryIn ⟨home.mem c, locals, st⟩ =
      .next ⟨home.mem c, Function.update locals .carry (truth (flagCf c.flags)), st⟩ := by
  unfold WasmLower.carryIn
  cases hcode : l.lastKind.bind emitKnownCf with
  | none =>
    obtain ⟨half, hrun⟩ := run_emitUnknownCf others hl hcarry st
    dsimp only
    rw [run_append, hrun]
    exact congrArg (fun locals => Outcome.next ⟨_, locals, st⟩) (Function.update_idem _ _ _)
  | some code =>
    obtain hnone | hsome := hlast
    · rw [hnone] at hcode
      cases hcode
    · rw [hsome] at hcode hmasked
      have hpushes := pushes_knownCf (withFlagHelpers others) hl hcode
        (fun h => hmasked (h.imp (congrArg some) (congrArg some))) hcarry
      dsimp only
      rw [hpushes.run]
      rfl

end

/-! ## Inline flags -/

/-- What translated code computes from a recorded tuple is what the runtime derives from it:
every condition of an arithmetic kind, and the carry of any predecessor, known or not. -/
theorem inline_flags_agree (others : Imports) (l : WasmLower) (home : CpuHome l.state.lay)
    (c : X86Cpu) (locals : WasmLocal → U32) (hl : locals .cpu = home.addr)
    (hcarry : c.flags.carryIn = 0 ∨ c.flags.carryIn = 1) :
    (l.lastKind = some c.flags.kind → l.lastW = some c.flags.w → c.flags.kind.isArith = true →
      Consistent c.flags → ∀ cc, Pushes (wasmEnv (withFlagHelpers others)) (home.mem c) locals
        (l.condValue cc) (truth (Cpu.cond cc c.flags))) ∧
    (l.lastKind = none ∨ l.lastKind = some c.flags.kind ∧
        (c.flags.kind = .add ∨ c.flags.kind = .sub → Masked c.flags) →
      ∀ st, run (wasmEnv (withFlagHelpers others)) l.carryIn ⟨home.mem c, locals, st⟩ =
        .next ⟨home.mem c, Function.update locals .carry (truth (flagCf c.flags)), st⟩) := by
  refine ⟨fun hlast hw hk hc cc => pushes_condValue _ hl hw hlast hk hc hcarry cc, fun hlast => ?_⟩
  refine run_carryIn others hl (hlast.imp_right And.left) (fun hnk => ?_) hcarry
  obtain hnone | ⟨hsome, hmasked⟩ := hlast
  · rw [hnone] at hnk
    obtain h | h := hnk <;> cases h
  · rw [hsome] at hnk
    exact hmasked (hnk.imp Option.some_inj.mp Option.some_inj.mp)

/-- A lowering whose predecessor recorded this kind at this width. -/
def afterFlags (kind : FlagKind) (w : Width) : WasmLower where
  state := ⟨⟨0, 0, 0, 0, 0, 0⟩, flatLayout, fun _ => []⟩
  lastKind := some kind
  lastW := some w
  leaf := none
  leafSite := none

def withFlags (f : Flags) : X86Cpu := ⟨⟨fun _ => 0, false, f⟩, 0, 0, 0⟩

/-- The comparison of five with seven. -/
def fiveSeven : Flags := ⟨5, 7, 0xFFFFFFFE, .sub, .dword, 0⟩

theorem fiveSeven_below :
    Pushes (wasmEnv (withFlagHelpers fun _ _ _ => none)) (flatHome.mem (withFlags fiveSeven))
        (fun _ => 0x100) ((afterFlags .sub .dword).condValue .b)
        (truth (Cpu.cond .b fiveSeven)) ∧
      ∀ st, run (wasmEnv (withFlagHelpers fun _ _ _ => none)) (afterFlags .sub .dword).carryIn
          ⟨flatHome.mem (withFlags fiveSeven), fun _ => 0x100, st⟩ =
        .next ⟨flatHome.mem (withFlags fiveSeven),
          Function.update (fun _ => 0x100) .carry (truth (flagCf fiveSeven)), st⟩ := by
  have h := inline_flags_agree (fun _ _ _ => none) (afterFlags .sub .dword) flatHome
    (withFlags fiveSeven) (fun _ => 0x100) rfl (.inl rfl)
  exact ⟨h.1 rfl rfl rfl rfl .b, h.2 (.inr ⟨rfl, fun _ => .inl rfl⟩)⟩

/-- A byte addition recorded with its untruncated sum. -/
def wideSum : Flags := ⟨0xFF, 1, 0x100, .add, .byte, 0⟩

/-- The carry of a known addition compares whole words: recorded unmasked at 8 bits, a sum that
wrapped shows no carry. -/
theorem wideSum_carry_lost :
    Cpu.flagsSet ⟨0, 0, 0, .none, .dword, 0⟩ .add 0xFF 1 0x100 .byte = some wideSum ∧
      Consistent wideSum ∧
      ¬ ∀ st, run (wasmEnv (withFlagHelpers fun _ _ _ => none)) (afterFlags .add .byte).carryIn
          ⟨flatHome.mem (withFlags wideSum), fun _ => 0x100, st⟩ =
        .next ⟨flatHome.mem (withFlags wideSum),
          Function.update (fun _ => 0x100) .carry (truth (flagCf wideSum)), st⟩ := by
  refine ⟨rfl, rfl, fun h => ?_⟩
  have hfield : ∀ {offset : Nat} {v : U32},
      (flatHome.mem (withFlags wideSum)).load 4 (flatHome.addr.toNat + offset) = some v →
      Pushes (wasmEnv (withFlagHelpers fun _ _ _ => none)) (flatHome.mem (withFlags wideSum))
        (fun _ => 0x100) [WasmState.cpu, .load 4 offset] v :=
    fun hv => pushes_field _ _ _ rfl hv
  have hcf := ((hfield (load_r _ _)).binary (hfield (load_a _ _)) (o := .ltU) fun _ => rfl).run
    [.localSet .carry] []
  have hlocals := congrArg (fun o => match o with
    | .next fr => fr.locals .carry
    | _ => 0) (hcf.symm.trans (h []))
  exact absurd hlocals (by decide)

end X86Port.Wasm
