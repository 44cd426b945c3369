import X86Port.Cpu.Cond
import X86Port.Wasm.State

/-!
# The imported functions

The functions of the runtime that translated code calls on the flag state, as the C functions
reading linear memory. A body's other imports are a parameter.

* `flagsAt_image`: the flag state a call finds in the memory of a CPU.
* `CpuHome`: where a CPU lives, with every byte of it there.
-/

namespace X86Port.Wasm

open Lib StackCode
open Cpu (Width FlagKind Flags X86Cpu Cond flagCf eflags)

/-! ## The flag state behind a pointer -/

def kindOfCode (b : U32) : Option FlagKind :=
  match b.toNat with
  | 0 => some .none
  | 1 => some .add
  | 2 => some .sub
  | 3 => some .logic
  | 4 => some .inc
  | 5 => some .dec
  | 6 => some .shl
  | 7 => some .shr
  | 8 => some .sar
  | 9 => some .explicit
  | _ => none

def widthOfCode (b : U32) : Option Width :=
  match b.toNat with
  | 1 => some .byte
  | 2 => some .word
  | 4 => some .dword
  | _ => none

/-- The width of a kind, which has none while nothing has been recorded. -/
def widthAt (m : LinearMem) (p : Nat) (kind : FlagKind) : Option Width :=
  if kind = .none then some .dword else (m.load 1 p).bind widthOfCode

/-- `X86pFlags` at a pointer. -/
def flagsAt (m : LinearMem) (p : Nat) : Option Flags :=
  (m.load 4 p).bind fun a =>
  (m.load 4 (p + 4)).bind fun b =>
  (m.load 4 (p + 8)).bind fun r =>
  ((m.load 1 (p + 12)).bind kindOfCode).bind fun kind =>
  (widthAt m (p + 13) kind).bind fun w =>
  (m.load 1 (p + 14)).map fun carryIn => ⟨a, b, r, kind, w, carryIn.setWidth 8⟩

def condOfCode (cc : U32) : Option Cond := [Cond.o, .no, .b, .nb, .z, .nz, .be, .a, .s, .ns, .p,
  .np, .l, .ge, .le, .g][cc.toNat]?

def condCode : Cond → U32
  | .o => 0
  | .no => 1
  | .b => 2
  | .nb => 3
  | .z => 4
  | .nz => 5
  | .be => 6
  | .a => 7
  | .s => 8
  | .ns => 9
  | .p => 10
  | .np => 11
  | .l => 12
  | .ge => 13
  | .le => 14
  | .g => 15

@[simp] theorem condOfCode_condCode (cc : Cond) : condOfCode (condCode cc) = some cc := by
  cases cc <;> rfl

/-! ## The imports -/

/-- The functions of `flags.c` and `cond.c` over the other imports of a module. -/
def withFlagHelpers (others : Imports) : Imports := fun f args m =>
  match f, args with
  | .flagCf, [p] => (flagsAt m p.toNat).map fun flags => (some (truth (flagCf flags)), m)
  | .cond, [cc, p] =>
    (condOfCode cc).bind fun cc =>
      (flagsAt m p.toNat).map fun flags => (some (truth (Cpu.cond cc flags)), m)
  | f, args => others f args m

/-! ## A CPU in memory -/

/-- A flag state up to the width of the kind that has none. -/
def recorded (f : Flags) : Flags := if f.kind = .none then { f with w := .dword } else f

@[simp] theorem flagCf_recorded (f : Flags) : flagCf (recorded f) = flagCf f := by
  unfold recorded
  split_ifs with h
  · simp only [flagCf, h]
  · rfl

@[simp] theorem cond_recorded (cc : Cond) (f : Flags) :
    Cpu.cond cc (recorded f) = Cpu.cond cc f := by
  unfold recorded
  split_ifs with h
  · simp only [Cpu.cond, h]
  · rfl

@[simp] theorem eflags_recorded (f : Flags) : eflags (recorded f) = eflags f := by
  unfold recorded
  split_ifs with h
  · simp only [eflags, h]
  · rfl

@[simp] theorem kindOfCode_kindCode (kind : FlagKind) :
    kindOfCode ((kindCode kind).setWidth 32) = some kind := by
  cases kind <;> rfl

@[simp] theorem widthOfCode_widthCode (w : Width) :
    widthOfCode ((widthCode w).setWidth 32) = some w := by
  cases w <;> rfl

/-- A place for a CPU: an object of linear memory, whose width byte is there even while no
kind has been recorded. -/
structure CpuHome (lay : CpuLayout) where
  addr : U32
  around : LinearMem
  fits : addr.toNat + lay.gsBase + 4 ≤ 2 ^ 32
  backed : Backed addr.toNat around

def flatLayout : CpuLayout := ⟨52, 56, 60, by decide, by decide, by decide⟩

/-- The structure alone in a memory of zeros. -/
def flatHome : CpuHome flatLayout where
  addr := 0x100
  around := fun _ => some 0
  fits := by decide
  backed := Option.some_ne_none 0

section

variable {lay : CpuLayout} (home : CpuHome lay) (c : X86Cpu)

def CpuHome.mem : LinearMem := image lay home.addr.toNat c home.around

theorem load_a : (home.mem c).load 4 (home.addr.toNat + aOffset) = some c.flags.a :=
  load_field fun _ hi => cpuByte_a hi

theorem load_b : (home.mem c).load 4 (home.addr.toNat + bOffset) = some c.flags.b :=
  load_field fun _ hi => cpuByte_b hi

theorem load_r : (home.mem c).load 4 (home.addr.toNat + rOffset) = some c.flags.r :=
  load_field fun _ hi => cpuByte_r hi

theorem load_kind : (home.mem c).load 1 (home.addr.toNat + kindOffset) =
    some ((kindCode c.flags.kind).setWidth 32) :=
  load_byte (image_field cpuByte_kind)

theorem load_carryIn : (home.mem c).load 1 (home.addr.toNat + carryInOffset) =
    some (c.flags.carryIn.setWidth 32) :=
  load_byte (image_field cpuByte_carryIn)

theorem load_w (h : c.flags.kind ≠ .none) : (home.mem c).load 1 (home.addr.toNat + wOffset) =
    some ((widthCode c.flags.w).setWidth 32) :=
  load_byte (image_field (cpuByte_w h))

theorem widthAt_image : widthAt (home.mem c) (home.addr.toNat + wOffset) c.flags.kind =
    some (recorded c.flags).w := by
  unfold widthAt recorded
  by_cases h : c.flags.kind = .none
  · rw [if_pos h, if_pos h]
  · rw [if_neg h, if_neg h, load_w home c h, Option.bind_some, widthOfCode_widthCode]

/-- A call finds the flag state that the CPU holds. -/
theorem flagsAt_image : flagsAt (home.mem c) (home.addr.toNat + flagsOffset) =
    some (recorded c.flags) := by
  have hcarry : (c.flags.carryIn.setWidth 32).setWidth 8 = c.flags.carryIn := by
    rw [BitVec.setWidth_setWidth_of_le _ (by decide), BitVec.setWidth_eq]
  unfold flagsAt
  simp only [Nat.add_assoc]
  rw [show flagsOffset = aOffset from rfl, load_a, Option.bind_some,
    show aOffset + 4 = bOffset from rfl, load_b, Option.bind_some,
    show aOffset + 8 = rOffset from rfl, load_r, Option.bind_some,
    show aOffset + 12 = kindOffset from rfl, load_kind, Option.bind_some,
    kindOfCode_kindCode, Option.bind_some, show aOffset + 13 = wOffset from rfl,
    widthAt_image, Option.bind_some, show aOffset + 14 = carryInOffset from rfl,
    load_carryIn, Option.map_some, hcarry]
  unfold recorded
  split_ifs <;> rfl

/-- A field of the CPU, loaded. -/
theorem pushes_field (imports : Imports) {locals : WasmLocal → U32}
    (hl : locals .cpu = home.addr) {width offset : Nat} {v : U32}
    (hv : (home.mem c).load width (home.addr.toNat + offset) = some v) :
    Pushes (wasmEnv imports) (home.mem c) locals [WasmState.cpu, .load width offset] v := by
  refine (pushes_localGet WasmLocal.cpu).load ?_
  rw [hl]
  exact hv

/-- The address of the flag state is no sum that wraps. -/
theorem CpuHome.flagsAddr : (home.addr + BitVec.ofNat 32 flagsOffset).toNat =
    home.addr.toNat + flagsOffset := by
  have := home.fits
  have := lay.flags_lt_df
  have := lay.df_lt_fsBase
  have := lay.fsBase_lt_gsBase
  have hoff : (BitVec.ofNat 32 flagsOffset).toNat = 36 := rfl
  rw [BitVec.toNat_add, hoff, flagsOffset]
  exact Nat.mod_eq_of_lt (by omega)

end

end X86Port.Wasm
