import X86Port.Lib.RangeTable
import X86Port.Word
import X86Port.Memory.Sparse
import X86Port.Memory.SparseMap
import X86Port.Cpu.Alu
import X86Port.Cpu.AluArch
import X86Port.Cpu.AluShift
import X86Port.Cpu.AluCorrect
import X86Port.Lib.Bytes
import X86Port.Memory.Mem
import X86Port.Cpu.Registers
import X86Port.Cpu.StringOps
import X86Port.Memory.Grants
import X86Port.Cpu.StackOps
import X86Port.Cpu.StringBulk
import X86Port.Cpu.StringRestart
import X86Port.Jit.Chain
import X86Port.Jit.ChainExit
import X86Port.Wasm.Arena
import X86Port.Jit.Block
import X86Port.Wasm.Lower
import X86Port.Wasm.Compact
import X86Port.Wasm.Relower
import X86Port.Lib.Tally
import X86Port.Wasm.Storage
import X86Port.Lib.Threaded
import X86Port.Wasm.Accounting
import X86Port.Wasm.FreeSlots
import X86Port.Jit.BlockCache
import X86Port.Jit.Engine
import X86Port.Jit.Linked
import X86Port.Jit.Iterate
import X86Port.Jit.Reach
import X86Port.Jit.LinkedRuns
import X86Port.Cpu.DecodeCache
import X86Port.Lib.Places
import X86Port.Memory.Places
import X86Port.Pe.Image
import X86Port.Pe.Relocation
import X86Port.Pe.Layout
import X86Port.Lib.StackCode
import X86Port.Wasm.Linear
import X86Port.Wasm.CpuImage
import X86Port.Cpu.Insn
import X86Port.Wasm.State
import X86Port.Wasm.Guard
import X86Port.Cpu.Cond
import X86Port.Lib.TopAligned
import X86Port.Wasm.Cond
import X86Port.Wasm.Carry
import X86Port.Jit.Room
import X86Port.Jit.RunBudget
import X86Port.Wasm.EngineStorage
import X86Port.Lib.Rounding
import X86Port.X87.AddSub
import X86Port.X87.Integer
import X86Port.X87.Multiply
import X86Port.Jit.NativeStorage
import X86Port.Memory.Permissions
import X86Port.Memory.WriteAtomic
import X86Port.Wasm.EvictTold
import X86Port.Cpu.Exec
import X86Port.Cpu.GuestMemory
import X86Port.Jit.DeadFlags
import X86Port.Wasm.Alu
import X86Port.Lib.SignedDivision
import X86Port.Cpu.MulDiv
import X86Port.Cpu.Bound
import X86Port.Cpu.Compare
import X86Port.Cpu.ByteMemory
import X86Port.Cpu.BitString
import X86Port.Wasm.Backing
import X86Port.Wasm.BitOps
import X86Port.Cpu.RegParts
import X86Port.Cpu.Exchange
import X86Port.Cpu.DoubleShift
import X86Port.Lib.Interchange
import X86Port.Lib.InterchangeOrder
import X86Port.X87.Widen
import X86Port.X87.Narrow
import X86Port.X87.Binary128
import X86Port.Memory.Pieces
import X86Port.X87.State
import X86Port.Lib.Lanes
import X86Port.Lib.Saturation
import X86Port.Simd.Vec
import X86Port.Simd.Int
import X86Port.Simd.Rearrange
import X86Port.Simd.Arithmetic
import X86Port.Lib.Fields
import X86Port.Lib.Runs
import X86Port.Simd.Execute
import X86Port.Simd.Forms
import X86Port.Simd.Call
import X86Port.Simd.MemoryOperand
import X86Port.Pe.Tables
import X86Port.Pe.TableReads
import X86Port.Pe.TableEnds
import X86Port.Pe.Lookup
import X86Port.Pe.TableWalks
import X86Port.Lib.Leb128
import X86Port.Lib.Reader
import X86Port.Wasm.BinaryFormat
import X86Port.Wasm.Emit
import X86Port.Wasm.EmitSlots
import X86Port.Wasm.ModuleBuilder
import X86Port.Wasm.ModuleSections
import X86Port.Wasm.ModuleParse
import X86Port.X87.RegisterFile
import X86Port.X87.FloatHost
import X86Port.X87.Execute
import X86Port.X87.DoubleArith
import X86Port.X87.Storage
import X86Port.X87.StackFaults
import X86Port.X87.Canonical
import X86Port.X87.Moves
import X86Port.X87.Order
import X86Port.X87.Comparisons
import X86Port.X87.SharedFile
import X86Port.X64.Host
import X86Port.X64.GprCache
import X86Port.X64.CacheFlow
import X86Port.X64.Address
import X86Port.Jit.OneAddress
import X86Port.Lib.JumpCode
import X86Port.Lib.BlockCode
import X86Port.Jit.LeafSites
import X86Port.Jit.LeafCall
import X86Port.Jit.NativeCall
import X86Port.X64.LeafSite
import X86Port.Arm64.LeafSite
import X86Port.Wasm.LeafSite
import X86Port.Jit.LeafBackends
import X86Port.Lib.CodeBuffer
import X86Port.X64.Isa
import X86Port.X64.Emit
import X86Port.X64.EmitForms
import X86Port.X64.EmitReads
import X86Port.X64.EmitRun
import X86Port.Wasm.Refusals
import X86Port.Wasm.Moves
import X86Port.Wasm.Stack
import X86Port.Wasm.Branches
import X86Port.Wasm.Rows
import X86Port.Wasm.BlockRun
import X86Port.Lib.Probing
import X86Port.Jit.SlotTable
import X86Port.Jit.Profile
import X86Port.Jit.ChainCensus
import X86Port.Lib.Placed
import X86Port.Lib.LittleEndian
import X86Port.Lib.Following
import X86Port.Arm64.Isa
import X86Port.Arm64.Emit
import X86Port.Arm64.EmitWords
import X86Port.Arm64.Effects
import X86Port.Arm64.MemoryEffects
import X86Port.Arm64.ArithmeticEffects
import X86Port.Arm64.FieldEffects
import X86Port.Arm64.FlagEffects
import X86Port.Arm64.Does
import X86Port.Arm64.Transfers
import X86Port.Arm64.Ops
import X86Port.Arm64.Branches
import X86Port.Arm64.EmitRun
import X86Port.Arm64.EmittedCode
