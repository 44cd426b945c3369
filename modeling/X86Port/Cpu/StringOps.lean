import X86Port.Cpu.Alu
import X86Port.Cpu.Registers
import X86Port.Memory.Mem

/-!
# String instructions

`string_ops.c`: MOVS, STOS, LODS, SCAS and CMPS with their repeat prefix. A forward MOVS or
STOS may go through one bulk copy or fill; everything else is the element loop. An outer
`none` is a fatal diagnostic or a read the language leaves undefined.
-/

namespace X86Port.Cpu

open Memory

inductive StringOp where
  | movs
  | stos
  | lods
  | scas
  | cmps
deriving DecidableEq

inductive RepKind where
  | none
  | rep
  | repne
deriving DecidableEq

inductive StringStatus where
  | ok
  | fault
  | unsupported
deriving DecidableEq

/-- The fields of a decoded instruction that a string instruction reads. -/
structure StringInsn where
  str : StringOp
  rep : RepKind
  strWidth : Nat
deriving DecidableEq

structure Machine where
  cpu : CpuState
  host : Host

structure StringResult where
  status : StringStatus
  faultAddr : U32
  machine : Machine

def repIsDefined (op : StringOp) (kind : RepKind) : Bool :=
  if kind = .none then true
  else if op = .scas ∨ op = .cmps then true
  else decide (kind = .rep)

def Width.ofBytes : Nat → Option Width
  | 1 => some .byte
  | 2 => some .word
  | 4 => some .dword
  | _ => none

def stringIsSupported (op : StringOp) (kind : RepKind) (width : Nat) : Bool :=
  (Width.ofBytes width).isSome && repIsDefined op kind

/-- The pointers that advance are part of the operation. -/
def advance (op : StringOp) (delta : U32) (c : CpuState) : CpuState :=
  let esi' := c.reg esi + delta
  let edi' := c.reg edi + delta
  let c := if op = .movs ∨ op = .lods ∨ op = .cmps then c.setReg esi esi' else c
  if op ≠ .lods then c.setReg edi edi' else c

/-- One iteration; a refused access gives its address and changes nothing. -/
def stepOnce (m : Mem) (op : StringOp) (w : Width) (delta : U32) (s : Machine) :
    Option (Except U32 Machine) :=
  let source := s.cpu.reg esi
  let destination := s.cpu.reg edi
  match op with
  | .movs =>
    (read m s.host source w).bind fun
      | none => some (.error source)
      | some a =>
        (write m s.host destination w a).map fun
          | none => .error destination
          | some host => .ok ⟨advance op delta s.cpu, host⟩
  | .stos =>
    (write m s.host destination w (regRead s.cpu eax w)).map fun
      | none => .error destination
      | some host => .ok ⟨advance op delta s.cpu, host⟩
  | .lods =>
    (read m s.host source w).map fun
      | none => .error source
      | some a => .ok ⟨advance op delta (regWrite s.cpu eax w a), s.host⟩
  | .scas =>
    (read m s.host destination w).bind fun
      | none => some (.error destination)
      | some b =>
        (alu .cmp (regRead s.cpu eax w) b w s.cpu.flags).map fun out =>
          .ok ⟨advance op delta { s.cpu with flags := out.2 }, s.host⟩
  | .cmps =>
    (read m s.host source w).bind fun
      | none => some (.error source)
      | some a =>
        (read m s.host destination w).bind fun
          | none => some (.error destination)
          | some b =>
            (alu .cmp a b w s.cpu.flags).map fun out =>
              .ok ⟨advance op delta { s.cpu with flags := out.2 }, s.host⟩

/-- Whether the comparison just made ends the repeat. -/
def repStops (op : StringOp) (kind : RepKind) (f : Flags) : Bool :=
  (decide (op = .scas) || decide (op = .cmps)) &&
    (decide (kind = .rep) && !flagZf f || decide (kind = .repne) && flagZf f)

/-- The repeat. ECX goes down by one each round, so ECX rounds are enough. -/
def repLoop (m : Mem) (op : StringOp) (kind : RepKind) (w : Width) (delta : U32) :
    Nat → Machine → Option StringResult
  | 0, s => some ⟨.ok, 0, s⟩
  | fuel + 1, s =>
    if s.cpu.reg ecx ≠ 0 then
      (stepOnce m op w delta s).bind fun
        | .error fault => some ⟨.fault, fault, s⟩
        | .ok s =>
          let s := { s with cpu := s.cpu.setReg ecx (s.cpu.reg ecx - 1) }
          if repStops op kind s.cpu.flags then some ⟨.ok, 0, s⟩
          else repLoop m op kind w delta fuel s
    else
      some ⟨.ok, 0, s⟩

/-- The element loop from the current ECX. -/
def elementLoop (m : Mem) (op : StringOp) (kind : RepKind) (w : Width) (delta : U32)
    (s : Machine) : Option StringResult :=
  repLoop m op kind w delta (s.cpu.reg ecx).toNat s

/-- The stride: its sign is the direction flag, its size the element width. -/
def stride (df : Bool) (w : Width) : U32 :=
  if df then -BitVec.ofNat 32 w.bytes else BitVec.ofNat 32 w.bytes

/-- The bulk path of a repeated MOVS: the state after it, when it is admitted. -/
def bulkMovs (m : Mem) (w : Width) (s : Machine) : Option (Option Machine) :=
  let bytes := (s.cpu.reg ecx).toNat * w.bytes
  if bytes ≤ 2 ^ 32 - 1 then
    let n := BitVec.ofNat 32 bytes
    (copyDisjoint m s.host (s.cpu.reg edi) (s.cpu.reg esi) n).map fun
      | none => none
      | some host =>
        let c := s.cpu.setReg esi (s.cpu.reg esi + n)
        let c := c.setReg edi (c.reg edi + n)
        some ⟨c.setReg ecx 0, host⟩
  else
    some none

/-- The bulk path of a repeated STOS. -/
def bulkStos (m : Mem) (w : Width) (s : Machine) : Option (Option Machine) :=
  let count := s.cpu.reg ecx
  (fill m s.host (s.cpu.reg edi) (bytesOf w.bytes (regRead s.cpu eax w)) count).map fun
    | none => none
    | some host =>
      let c := s.cpu.setReg edi (s.cpu.reg edi + count * BitVec.ofNat 32 w.bytes)
      some ⟨c.setReg ecx 0, host⟩

/-- The bulk path, for a forward repeat of the two operations that have one. -/
def bulkString (m : Mem) (op : StringOp) (w : Width) (s : Machine) : Option (Option Machine) :=
  if op = .movs ∧ !s.cpu.df then bulkMovs m w s
  else if op = .stos ∧ !s.cpu.df then bulkStos m w s
  else some none

def stringExecute (m : Mem) (insn : StringInsn) (s : Machine) : Option StringResult :=
  if stringIsSupported insn.str insn.rep insn.strWidth then
    (Width.ofBytes insn.strWidth).bind fun w =>
      let delta := stride s.cpu.df w
      if insn.rep = .none then
        (stepOnce m insn.str w delta s).map fun
          | .error fault => ⟨.fault, fault, s⟩
          | .ok s => ⟨.ok, 0, s⟩
      else
        (bulkString m insn.str w s).bind fun
          | some s => some ⟨.ok, 0, s⟩
          | none => elementLoop m insn.str insn.rep w delta s
  else
    some ⟨.unsupported, 0, s⟩

end X86Port.Cpu
