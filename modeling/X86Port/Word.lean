import Mathlib.Data.BitVec

/-!
# Machine words

The fixed-width unsigned integers of the C sources. Arithmetic on them wraps, comparisons
are unsigned, and a sum that the source widens first is taken in `Nat`.
-/

namespace X86Port

abbrev U8 := BitVec 8
abbrev U16 := BitVec 16
abbrev U32 := BitVec 32
abbrev U64 := BitVec 64

/-- The register files of the guest have eight places. -/
instance neZero_eight : NeZero 8 := ⟨by decide⟩

def uint32Max : U32 := 0xFFFFFFFF#32

def uint64Max : U64 := 0xFFFFFFFFFFFFFFFF#64

@[simp] theorem toNat_uint32Max : uint32Max.toNat = 2 ^ 32 - 1 := rfl

@[simp] theorem toNat_uint64Max : uint64Max.toNat = 2 ^ 64 - 1 := rfl

/-- The range check `addr > UINT32_MAX - (n - 1)` of the sources: a nonempty range that
passes it ends at or below `2 ^ 32`. -/
theorem not_wraps_iff {addr n : U32} (hn : n ≠ 0) :
    ¬ addr > uint32Max - (n - 1) ↔ addr.toNat + n.toNat ≤ 2 ^ 32 := by
  unfold uint32Max
  bv_omega

end X86Port
