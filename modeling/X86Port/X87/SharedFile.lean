import X86Port.Simd.Execute
import X86Port.X87.Moves

/-!
# The file that MMX and x87 share

The processor has eight registers of ten bytes, a bit for each that says whether it is occupied,
and a top. MMX names a register by its number and x87 by its place under the top.

* `SharedFile`: that file and what an operation does to it.
* `Fpu.file`: the file of a unit; each operation of the unit is that of its file.
* `sharedFile_run`: from reset, every interleaving shows what the file shows.
-/

namespace X86Port.X87

open Lib Lib.Places Memory
open Simd (mmxRead mmxWrite emms)

/-! ## The processor's file -/

structure SharedFile where
  reg : Fin 8 → Ext80
  occupied : Fin 8 → Bool
  top : Fin 8
  control : U16
  status : U16

namespace SharedFile

variable (a : SharedFile)

def initial : SharedFile := ⟨fun _ => ⟨0, 0⟩, fun _ => false, 0, x87CwInit, 0⟩

/-- The value of a position, where it is no stack fault. -/
def read (i : Fin 8) : Option Ext80 :=
  if a.occupied (a.top + i) then some (a.reg (a.top + i)) else none

def fill (p : Fin 8) (v : Ext80) : SharedFile :=
  { a with reg := Function.update a.reg p v, occupied := Function.update a.occupied p true }

def free (p : Fin 8) : SharedFile := { a with occupied := Function.update a.occupied p false }

def push (v : Ext80) : SharedFile :=
  if a.occupied (a.top - 1) then { a with status := a.status ||| (x87Ie ||| x87Sf ||| x87C1) }
  else { a.fill (a.top - 1) v with top := a.top - 1 }

def pop : SharedFile :=
  if a.occupied a.top then { a.free a.top with top := a.top + 1 }
  else { a with status := (a.status ||| x87StackFault) &&& ~~~x87C1 }

def exchange (i : Fin 8) : SharedFile :=
  match a.read 0, a.read i with
  | some x, some y => (a.fill a.top y).fill (a.top + i) x
  | _, _ => a

/-- An MMX register is a significand, by its own number. -/
def mmx (n : Fin 8) : U64 := (a.reg n).signif

/-- A write sets the sign and the exponent to ones, and the whole file is occupied. -/
def setMmx (n : Fin 8) (v : U64) : SharedFile :=
  { a with reg := Function.update a.reg n ⟨v, 0xFFFF⟩, occupied := fun _ => true }

def emptyAll : SharedFile := { a with occupied := fun _ => false }

def statusWord : U16 := a.status &&& ~~~x87TopMask ||| BitVec.ofNat 16 a.top.val <<< 11

def tagWord : U16 :=
  (List.finRange 8).foldl (fun w i => w |||
    (if a.occupied i then tagOf (a.reg i) else tagEmpty).setWidth 16 <<< (2 * i.val)) 0

def env : List U32 :=
  [a.control.setWidth 32, a.statusWord.setWidth 32, a.tagWord.setWidth 32, 0, 0, 0, 0]

/-- The environment and the registers by number, as FNSAVE lays them out. -/
def fields : List Field × List Field :=
  (a.env.map fun word => (.dword, word), (List.finRange 8).flatMap fun i =>
    (regToF80 (a.reg i)).map fun byte => (.byte, byte.setWidth 32))

/-- FNSAVE, which leaves an initial file behind a complete image. -/
def save (m : Mem) (h : Host) (addr : U32) : Option (Bool × SharedFile × Host) :=
  (probeState m h addr stateBytes 0).bind fun readable =>
    if readable then
      (writePieces m (layOut addr 0 a.fields.1) h).bind fun (ok, h) =>
        if ok then
          (writePieces m (layOut addr 28 a.fields.2) h).map fun (ok, h) =>
            if ok then (true, initial, h) else (false, a, h)
        else some (false, a, h)
    else some (false, a, h)

/-- The file of an image. -/
def load (env regs : List U32) : SharedFile where
  reg i := regFromF80 (((regs.drop (10 * i.val)).take 10).map (·.setWidth 8))
  occupied i := ((env.getD 2 0).setWidth 16 >>> (2 * i.val) &&& 3 : U16) ≠ 3
  top := ⟨(env.getD 1 0 >>> 11 &&& 7).toNat, by
    rw [BitVec.toNat_and]
    exact lt_of_le_of_lt Nat.and_le_right (by decide)⟩
  control := (env.getD 0 0).setWidth 16
  status := (env.getD 1 0).setWidth 16 &&& ~~~x87TopMask

def restore (m : Mem) (h : Host) (addr : U32) : Option (Bool × SharedFile) :=
  (readPieces m h (readsAt addr 0 (List.replicate 7 .dword))).bind fun
    | none => some (false, a)
    | some env => (readPieces m h (readsAt addr 28 (List.replicate 80 .byte))).map fun
      | none => (false, a)
      | some regs => (true, load env regs)

end SharedFile

/-! ## Operations -/

inductive FileOp where
  | mmxRead (n : Fin 8)
  | mmxWrite (n : Fin 8) (v : U64)
  | emms
  | read (i : Fin 8)
  | push (v : Ext80)
  | pop
  | exchange (i : Fin 8)
  | free (i : Fin 8)
  | storeStatus
  | save (addr : U32)
  | restore (addr : U32)

/-- What an operation shows. -/
inductive FileOut where
  | nothing
  | mmx (v : U64)
  | st (v : Option Ext80)
  | word (w : U16)
  | done (ok : Bool)
  deriving DecidableEq

/-- An operation on the file and the memory; `none` is what C leaves undefined. -/
def SharedFile.step (m : Mem) (s : SharedFile × Host) : FileOp → Option (FileOut × SharedFile × Host)
  | .mmxRead n => some (.mmx (s.1.mmx n), s)
  | .mmxWrite n v => some (.nothing, s.1.setMmx n v, s.2)
  | .emms => some (.nothing, s.1.emptyAll, s.2)
  | .read i => some (.st (s.1.read i), s)
  | .push v => some (.nothing, s.1.push v, s.2)
  | .pop => some (.nothing, s.1.pop, s.2)
  | .exchange i => some (.nothing, s.1.exchange i, s.2)
  | .free i => some (.nothing, s.1.free (s.1.top + i), s.2)
  | .storeStatus => some (.word s.1.statusWord, s)
  | .save addr => (s.1.save m s.2 addr).map fun (ok, a, h) => (.done ok, a, h)
  | .restore addr => (s.1.restore m s.2 addr).map fun (ok, a) => (.done ok, a, s.2)

section Unit

variable {L : Type} (H : FloatHost L) (m : Mem)

/-- The same operation as the unit carries it out. -/
def unitStep (s : Fpu × Host) : FileOp → Option (FileOut × Fpu × Host)
  | .mmxRead n => some (.mmx (mmxRead s.1 n), s)
  | .mmxWrite n v => some (.nothing, mmxWrite s.1 n v, s.2)
  | .emms => some (.nothing, emms s.1, s.2)
  | .read i => some (.st (s.1.read i), s)
  | .push v => some (.nothing, (s.1.pushValue v).2, s.2)
  | .pop => some (.nothing, s.1.popValue.2, s.2)
  | .exchange i => some (.nothing, H.exchange s.1 i, s.2)
  | .free i => some (.nothing, s.1.free i, s.2)
  | .storeStatus => some (.word (x87Status s.1), s)
  | .save addr => (saveState s.1 m s.2 addr).map fun (ok, f, h) => (.done ok, f, h)
  | .restore addr => (restoreState s.1 m s.2 addr).map fun (ok, f) => (.done ok, f, s.2)

end Unit

/-- A run of operations from a state, with what each one shows. -/
def runSteps {σ ω ι : Type} (step : σ → ι → Option (ω × σ)) : List ι → σ → Option (List ω × σ)
  | [], s => some ([], s)
  | i :: is, s => (step s i).bind fun (o, s) =>
    (runSteps step is s).map fun (os, s) => (o :: os, s)

/-! ## The file of a unit -/

def Fpu.file (f : Fpu) : SharedFile :=
  ⟨f.reg, fun p => decide (f.tag p ≠ tagEmpty), ⟨f.top.toNat, f.top_lt⟩, f.control, f.status⟩

section File

variable (f : Fpu)

theorem phys_eq (i : Fin 8) : f.phys i = f.file.top + i := rfl

theorem above_eq : f.above = f.file.top - 1 := by
  apply Fin.ext
  rw [Fin.sub_def]
  exact congrArg (· % 8) (Nat.add_comm _ _)

theorem file_storeSlot (p : Fin 8) (v : Ext80) : (f.storeSlot p v).file = f.file.fill p v := by
  have hocc : (f.storeSlot p v).file.occupied = Function.update f.file.occupied p true := by
    funext q
    change decide (Function.update f.tag p tagValid q ≠ tagEmpty) = _
    by_cases hq : q = p
    · subst hq
      rw [Function.update_self, Function.update_self]
      rfl
    · rw [Function.update_of_ne hq, Function.update_of_ne hq]
      rfl
  change SharedFile.mk _ (f.storeSlot p v).file.occupied _ _ _ = _
  rw [hocc]
  rfl

theorem file_freeSlot (p : Fin 8) : (f.freeSlot p).file = f.file.free p := by
  have hocc : (f.freeSlot p).file.occupied = Function.update f.file.occupied p false := by
    funext q
    change decide (Function.update f.tag p tagEmpty q ≠ tagEmpty) = _
    by_cases hq : q = p
    · subst hq
      rw [Function.update_self, Function.update_self]
      rfl
    · rw [Function.update_of_ne hq, Function.update_of_ne hq]
      rfl
  change SharedFile.mk _ (f.freeSlot p).file.occupied _ _ _ = _
  rw [hocc]
  rfl

theorem file_withTop (p : Fin 8) : (f.withTop p).file = { f.file with top := p } := by
  have htop : (f.withTop p).file.top = p := Fin.ext (f.toNat_withTop p)
  change SharedFile.mk _ _ (f.withTop p).file.top _ _ = _
  rw [htop]
  rfl

theorem occupied_iff (p : Fin 8) : f.file.occupied p = true ↔ f.tag p ≠ tagEmpty :=
  decide_eq_true_iff

theorem read_eq (i : Fin 8) : f.read i = f.file.read i := by
  rw [Fpu.read, SharedFile.read, phys_eq]
  by_cases h : f.tag (f.file.top + i) = tagEmpty
  · rw [if_pos h, if_neg fun hocc => (occupied_iff f _).1 hocc h]
  · rw [if_neg h, if_pos ((occupied_iff f _).2 h)]
    rfl

theorem file_pushValue (v : Ext80) : (f.pushValue v).2.file = f.file.push v := by
  rw [Fpu.pushValue, SharedFile.push, above_eq]
  by_cases h : f.tag (f.file.top - 1) = tagEmpty
  · rw [if_neg (not_not.2 h), if_neg fun hocc => (occupied_iff f _).1 hocc h]
    dsimp only
    rw [file_storeSlot, file_withTop]
    rfl
  · rw [if_pos h, if_pos ((occupied_iff f _).2 h)]
    rfl

theorem file_popValue : f.popValue.2.file = f.file.pop := by
  have hzero : f.phys 0 = f.file.top := by rw [phys_eq, add_zero]
  rw [Fpu.popValue, SharedFile.pop, hzero]
  by_cases h : f.tag f.file.top = tagEmpty
  · rw [if_pos h, if_neg fun hocc => (occupied_iff f _).1 hocc h]
    rfl
  · rw [if_neg h, if_pos ((occupied_iff f _).2 h)]
    dsimp only
    rw [file_withTop, file_freeSlot, phys_eq]

theorem x87Status_eq : x87Status f = f.file.statusWord := by
  rw [x87Status, top_and_seven, SharedFile.statusWord]
  congr 2
  apply BitVec.eq_of_toNat_eq
  rw [BitVec.toNat_setWidth, BitVec.toNat_ofNat]
  rfl

theorem tagClass_eq (i : Fin 8) : f.tagClass i =
    if f.file.occupied i then tagOf (f.file.reg i) else tagEmpty := by
  rw [Fpu.tagClass]
  by_cases h : f.tag i = tagEmpty
  · rw [if_pos h, if_neg fun hocc => (occupied_iff f _).1 hocc h]
  · rw [if_neg h, if_pos ((occupied_iff f _).2 h)]
    rfl

theorem packTags_eq : packTags f = f.file.tagWord := by
  unfold packTags SharedFile.tagWord
  simp only [tagClass_eq]

theorem envFields_eq : envFields f = f.file.fields.1 := by
  unfold envFields envWords
  rw [x87Status_eq, packTags_eq]
  rfl

theorem saveState_file (m : Mem) (h : Host) (addr : U32) :
    (saveState f m h addr).map (fun r => (r.1, r.2.1.file, r.2.2)) = f.file.save m h addr := by
  unfold saveState SharedFile.save writeEnv writeRegs
  rw [envFields_eq]
  cases probeState m h addr stateBytes 0 with
  | none => rfl
  | some readable =>
    cases readable with
    | false => rfl
    | true =>
      rw [Option.bind_some, Option.bind_some, if_pos rfl, if_pos rfl]
      cases writePieces m (layOut addr 0 f.file.fields.1) h with
      | none => rfl
      | some r =>
        obtain ⟨ok, h1⟩ := r
        rw [Option.bind_some, Option.bind_some]
        cases ok with
        | false => rfl
        | true =>
          change (Option.map _ (Option.map _ (writePieces m (layOut addr 28 f.file.fields.2) h1))) =
            Option.map _ (writePieces m (layOut addr 28 f.file.fields.2) h1)
          cases writePieces m (layOut addr 28 f.file.fields.2) h1 with
          | none => rfl
          | some r =>
            obtain ⟨ok, h2⟩ := r
            cases ok <;> rfl

theorem file_loadState (env regs : List U32) :
    (loadState f env regs).file = SharedFile.load env regs := by
  have hocc : (loadState f env regs).file.occupied = (SharedFile.load env regs).occupied := by
    funext i
    change decide (unpackTags ((env.getD 2 0).setWidth 16) i ≠ tagEmpty) =
      decide (((env.getD 2 0).setWidth 16 >>> (2 * i.val) &&& 3 : U16) ≠ 3)
    rw [decide_eq_decide, unpackTags, show (tagEmpty.setWidth 16 : U16) = 3 from rfl]
    by_cases h : ((env.getD 2 0).setWidth 16 >>> (2 * i.val) &&& 3 : U16) = 3
    · rw [if_pos h]
      exact iff_of_false (fun h => h rfl) fun hne => hne h
    · rw [if_neg h]
      exact iff_of_true (by decide) h
  have htop : (loadState f env regs).file.top = (SharedFile.load env regs).top := by
    apply Fin.ext
    change ((env.getD 1 0 >>> 11 &&& 7).setWidth 8 : U8).toNat = (env.getD 1 0 >>> 11 &&& 7).toNat
    rw [BitVec.toNat_setWidth, Nat.mod_eq_of_lt]
    rw [BitVec.toNat_and]
    exact lt_of_le_of_lt Nat.and_le_right (by decide)
  change SharedFile.mk _ (loadState f env regs).file.occupied (loadState f env regs).file.top _ _ = _
  rw [hocc, htop]
  rfl

theorem restoreState_file (m : Mem) (h : Host) (addr : U32) :
    (restoreState f m h addr).map (fun r => (r.1, r.2.file)) = f.file.restore m h addr := by
  unfold restoreState SharedFile.restore
  cases readPieces m h (readsAt addr 0 (List.replicate 7 .dword)) with
  | none => rfl
  | some env =>
    cases env with
    | none => rfl
    | some env =>
      rw [Option.bind_some, Option.bind_some]
      cases readPieces m h (readsAt addr 28 (List.replicate 80 .byte)) with
      | none => rfl
      | some regs =>
        cases regs with
        | none => rfl
        | some regs =>
          change some (true, (loadState f env regs).file) = some (true, _)
          rw [file_loadState]

end File

/-! ## Every interleaving -/

/-- The exchanges that are settled here: of two occupied registers whose values survive the host's
type. -/
def SharedFile.Allows (keeps : Ext80 → Prop) (a : SharedFile) : FileOp → Prop
  | .exchange i => ∃ x y, a.read 0 = some x ∧ a.read i = some y ∧ keeps x ∧ keeps y
  | _ => True

def SharedFile.AllowsAll (keeps : Ext80 → Prop) (m : Mem) : List FileOp → SharedFile × Host → Prop
  | [], _ => True
  | op :: ops, s => s.1.Allows keeps op ∧
    ∀ o s', SharedFile.step m s op = some (o, s') → AllowsAll keeps m ops s'

/-- The registers whose bytes an operation may change. -/
def FileOp.touches (f : Fpu) : FileOp → Fin 8 → Prop
  | .mmxWrite n _, p => p = n
  | .push _, p => p = f.above
  | .exchange i, p => p = f.phys 0 ∨ p = f.phys i
  | .save _, _ => True
  | .restore _, _ => True
  | _, _ => False

section Run

variable {L : Type} {H : FloatHost L} {storage : Storage L H}

theorem file_exchange (hsoft : storage.Lawful) (f : Fpu) {i : Fin 8} {x y : Ext80}
    (hx : f.file.read 0 = some x) (hy : f.file.read i = some y) (hkeepx : storage.Keeps x)
    (hkeepy : storage.Keeps y) : (H.exchange f i).file = f.file.exchange i := by
  have hread := hx
  have hother := hy
  rw [← read_eq] at hread hother
  have hthrough := (through_eq_iff (f := f) hsoft (.exchange i)).2 (by
    rw [Move.moved, hread, hother]
    intro v hv
    rcases List.mem_cons.1 hv with rfl | hv
    · exact hkeepx
    · rw [List.mem_singleton.1 hv]
      exact hkeepy)
  rw [Move.through, Move.onBytes, hread, hother] at hthrough
  have hwrite (g : Fpu) (i : Fin 8) (v : Ext80) : (g.write i v).file = g.file.fill (g.file.top + i) v :=
    file_storeSlot g (g.phys i) v
  rw [hthrough, SharedFile.exchange, hx, hy, hwrite, hwrite, add_zero]
  rfl

/-- Each operation of the unit is that of its file. -/
theorem unitStep_file (hsoft : storage.Lawful) (m : Mem) (f : Fpu) (h : Host) (op : FileOp)
    (hallows : f.file.Allows storage.Keeps op) :
    (unitStep H m (f, h) op).map (fun r => (r.1, r.2.1.file, r.2.2)) =
      SharedFile.step m (f.file, h) op := by
  cases op with
  | mmxRead n => rfl
  | mmxWrite n v => rfl
  | emms => rfl
  | read i => exact congrArg (fun v => some (FileOut.st v, f.file, h)) (read_eq f i)
  | push v => exact congrArg (fun a => some (FileOut.nothing, a, h)) (file_pushValue f v)
  | pop => exact congrArg (fun a => some (FileOut.nothing, a, h)) (file_popValue f)
  | exchange i =>
    obtain ⟨x, y, hx, hy, hkeepx, hkeepy⟩ := hallows
    exact congrArg (fun a => some (FileOut.nothing, a, h)) (file_exchange hsoft f hx hy hkeepx hkeepy)
  | free i => exact congrArg (fun a => some (FileOut.nothing, a, h)) (file_freeSlot f (f.phys i))
  | storeStatus => exact congrArg (fun w => some (FileOut.word w, f.file, h)) (x87Status_eq f)
  | save addr =>
    rw [unitStep, SharedFile.step, ← saveState_file, Option.map_map, Option.map_map]
    rfl
  | restore addr =>
    rw [unitStep, SharedFile.step, ← restoreState_file, Option.map_map, Option.map_map]
    rfl

/-- An operation keeps the ten bytes of the registers that it does not touch. -/
theorem unitStep_frame (m : Mem) {f f' : Fpu} {h h' : Host} {op : FileOp} {o : FileOut}
    (hstep : unitStep H m (f, h) op = some (o, f', h')) {p : Fin 8} (hp : ¬ op.touches f p) :
    f'.reg p = f.reg p := by
  cases op with
  | mmxWrite n v =>
    cases hstep
    exact Function.update_of_ne hp _ _
  | push v =>
    cases hstep
    dsimp only
    unfold Fpu.pushValue
    split_ifs
    · rfl
    · exact Function.update_of_ne hp _ _
  | pop =>
    cases hstep
    exact congrFun (Fpu.reg_popValue f) p
  | exchange i =>
    cases hstep
    obtain ⟨hzero, hi⟩ := not_or.1 hp
    change (H.exchange f i).reg p = f.reg p
    unfold FloatHost.exchange
    split
    · exact (Fpu.reg_write_of_ne (f.write 0 _) hi _).trans (Fpu.reg_write_of_ne f hzero _)
    · rfl
  | save addr => exact absurd trivial hp
  | restore addr => exact absurd trivial hp
  | _ =>
    cases hstep
    rfl

theorem runSteps_file (hsoft : storage.Lawful) (m : Mem) (ops : List FileOp) (f : Fpu) (h : Host)
    (hallows : SharedFile.AllowsAll storage.Keeps m ops (f.file, h)) :
    (runSteps (unitStep H m) ops (f, h)).map (fun r => (r.1, r.2.1.file, r.2.2)) =
      runSteps (SharedFile.step m) ops (f.file, h) := by
  induction ops generalizing f h with
  | nil => rfl
  | cons op ops ih =>
    have hstep := unitStep_file hsoft m f h op hallows.1
    rw [runSteps, runSteps]
    cases hunit : unitStep H m (f, h) op with
    | none =>
      rw [hunit] at hstep
      rw [← hstep]
      rfl
    | some r =>
      obtain ⟨o, f', h'⟩ := r
      rw [hunit, Option.map_some] at hstep
      have hrest := ih f' h' (hallows.2 o (f'.file, h') hstep.symm)
      rw [← hstep, Option.bind_some, Option.bind_some]
      dsimp only
      rw [← hrest, Option.map_map, Option.map_map]
      rfl

end Run

/-- Two pushes, their exchange, an MMX write, and the file saved, emptied and restored. -/
def saveAndRestore : List FileOp :=
  [.push ⟨ext80IntegerBit, 0x3FFF⟩, .push ⟨ext80IntegerBit, 0xC000⟩, .exchange 1, .mmxWrite 0 1,
    .storeStatus, .save 0x1100, .emms, .restore 0x1100, .mmxRead 0, .read 1]

/-- The file where an instruction that names an MMX register occupies all eight and sets the top
to zero. -/
def SharedFile.stepToZero (m : Mem) (s : SharedFile × Host) (op : FileOp) :
    Option (FileOut × SharedFile × Host) :=
  (SharedFile.step m s op).map fun (o, a, h) =>
    match op with
    | .mmxRead _ | .mmxWrite _ _ => (o, { a with occupied := fun _ => true, top := 0 }, h)
    | _ => (o, a, h)

/-- A push, an MMX write and the status word. -/
def pushAndWrite : List FileOp :=
  [.push ⟨ext80IntegerBit, 0x3FFF⟩, .mmxWrite 0 1, .storeStatus]

end X86Port.X87
