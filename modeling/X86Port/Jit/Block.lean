import X86Port.Word

/-!
# Translated blocks

What a translation answers and what a call into one answers: the part of `jit_x64.h` and of
`jit_storage.h` that the storage and the engine read.
-/

namespace X86Port.Jit

/-- Why a translation gave no block. -/
inductive JitStatus where
  | fetchFault
  | decodeFailed
  | unsupportedAtEntry
  | outOfSpace
deriving DecidableEq

/-- How a call into translated code ended. -/
inductive JitExit where
  | blockEnd
  | unsupported
  | memoryFault
  | divideError
  | interrupt
  | protectionFault
  | boundRange
deriving DecidableEq

/-- A translated block. A leaf site is named by its address; `entry` is set when the block is
published. -/
structure JitBlock where
  entry : Option Nat
  guestEip : U32
  guestLen : U32
  insns : Nat
  hostBytes : Nat
  chainExits : Nat
  chainExitsDirect : Nat
  chainFirstSlot : Option Nat
  leafSite : Option Nat
deriving DecidableEq

/-- Whether another block fits, and which limit said so: `X86pJitStorageRoom`. -/
inductive StorageRoom where
  | room
  | outOfBytes
  | outOfSlots
  | atEngineLimit
deriving DecidableEq

end X86Port.Jit
