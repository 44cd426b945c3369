import X86Port.Wasm.Pieces

/-!
# The emitted memory guard

What the guard of `jit_wasm_state.c` admits, against `x86p_mem_accessible`. The guard asks the
pages of the first and the last byte; the memory model asks every page.
-/

namespace X86Port.Wasm

open Lib.StackCode
open Memory (Mem PermTable accessible pageRefuses AccessMask Host)
open Cpu (Operand X86Cpu)
open Jit (JitExit)

/-! ## What the two end pages say -/

/-- The page of an offset carries every bit of a mask. -/
def carries {size : U32} (t : PermTable size) (access : U32) (offset : Nat) : Prop :=
  (t.entries.getD (offset / 2 ^ t.pageShift) 0).setWidth 32 &&& access = access

instance {size : U32} (t : PermTable size) (access : U32) (offset : Nat) :
    Decidable (carries t access offset) :=
  inferInstanceAs (Decidable (_ = _))

/-- The access lies in the mapping. -/
def Inside (m : Mem) (addr : U32) (w : Nat) : Prop :=
  w ≤ m.size.toNat ∧ (addr - m.lo).toNat ≤ m.size.toNat - w

/-- The pages of the first and the last byte carry the mask. -/
def EndsCarry (m : Mem) (addr : U32) (w : Nat) (access : U32) : Prop :=
  ∀ t ∈ m.perms, carries t access (addr - m.lo).toNat ∧
    carries t access ((addr - m.lo).toNat + (w - 1))

/-- The mask is of the two rights alone, and every page the access touches is mapped with it. -/
def EveryPageGrants (m : Mem) (addr : U32) (w : Nat) (access : U32) : Prop :=
  AccessMask access ∧ ∀ t ∈ m.perms, ∀ i < w, t.grants access ((addr - m.lo).toNat + i) = true

instance (m : Mem) (addr : U32) (w : Nat) : Decidable (Inside m addr w) :=
  inferInstanceAs (Decidable (_ ∧ _))

instance (m : Mem) (addr : U32) (w : Nat) (access : U32) : Decidable (EndsCarry m addr w access) :=
  inferInstanceAs (Decidable (∀ t ∈ m.perms, _))

instance (m : Mem) (addr : U32) (w : Nat) (access : U32) :
    Decidable (EveryPageGrants m addr w access) :=
  inferInstanceAs (Decidable (_ ∧ ∀ t ∈ m.perms, _))

/-! ## The emitted code -/

section Run

variable {imports : Imports} {s : WasmState} {mem : LinearMem} {l : WasmLocal → U32}
  {st : List U32} {rest : Code}

theorem run_offsetFromLo :
    run (wasmEnv imports) (s.offsetFromLo ++ rest) ⟨mem, l, st⟩ =
      run (wasmEnv imports) rest
        ⟨mem, Function.update l .addr (l .addr - s.plan.lo), (l .addr - s.plan.lo) :: st⟩ := by
  unfold WasmState.offsetFromLo
  by_cases hlo : s.plan.lo ≠ 0
  · rw [if_pos hlo]
    rfl
  · rw [if_neg hlo, not_not.mp hlo, show (0 : U32) = 0#32 from rfl, BitVec.sub_zero]
    rfl

theorem run_toLinear :
    run (wasmEnv imports) (s.toLinear ++ rest) ⟨mem, l, st⟩ =
      run (wasmEnv imports) rest ⟨mem, Function.update l .addr (l .addr + s.plan.base), st⟩ := by
  simp [WasmState.toLinear, run_op_apply, Op.apply]

/-- An exit that is not to a next EIP stores its EIP and returns. -/
theorem run_exitImm {exit : JitExit} (hexit : exit ≠ .blockEnd) {eip : U32} {mem' : LinearMem}
    (hstore : mem.store 4 ((l .cpu).toNat + eipOffset) eip = some mem') :
    run (wasmEnv imports) (s.exitImm eip exit) ⟨mem, l, st⟩ = .ret (exitCode exit) mem' := by
  unfold WasmState.exitImm WasmState.leave
  rw [run_localGet, run_const, run_store (wasmEnv imports) mem l st _ hstore, if_neg hexit]
  rfl

/-- The bounds check leaves with a memory fault, or goes on with what was under the offset. -/
theorem run_guardBounds {insnEip off : U32} {w : Nat} {mem' : LinearMem}
    (hstore : mem.store 4 ((l .cpu).toNat + eipOffset) insnEip = some mem') :
    run (wasmEnv imports) (s.guardBounds insnEip w ++ rest) ⟨mem, l, off :: st⟩ =
      if s.plan.size - BitVec.ofNat 32 w < off then .ret (exitCode .memoryFault) mem'
      else run (wasmEnv imports) rest ⟨mem, l, st⟩ := by
  have hcode : run (wasmEnv imports) (s.guardBounds insnEip w ++ rest) ⟨mem, l, off :: st⟩ =
      run (wasmEnv imports) (.ite (s.exitImm insnEip .memoryFault) [] :: rest)
        ⟨mem, l, truth (decide (s.plan.size - BitVec.ofNat 32 w < off)) :: st⟩ := rfl
  rw [hcode, run_ite_truth, run_exitImm (by decide) hstore, run_nil]
  by_cases hout : s.plan.size - BitVec.ofNat 32 w < off
  · rw [if_pos hout, if_pos (decide_eq_true hout)]
    rfl
  · rw [if_neg hout, if_neg (by simpa using hout)]
    rfl

/-- Where a permission table lies in linear memory. -/
def TableAt (mem : LinearMem) (at_ : U32) {size : U32} (t : PermTable size) : Prop :=
  ∀ p < t.entries.length, mem (at_.toNat + p) = some (t.entries.getD p 0)

/-- The plan of a block over this mapping, with its table where the plan says. -/
structure Maps (s : WasmState) (m : Mem) (mem : LinearMem) : Prop where
  direct : s.plan.memoryContext = 0
  base : s.plan.base = BitVec.ofNat 32 m.host
  lo : s.plan.lo = m.lo
  size : s.plan.size = m.size
  noTable : m.perms = none → s.plan.perms = 0
  table : ∀ t ∈ m.perms, s.plan.perms ≠ 0 ∧ s.plan.pageShift = BitVec.ofNat 32 t.pageShift ∧
    TableAt mem s.plan.perms t

/-- The plan the source takes from a contiguous mapping. -/
theorem maps_planFromMem {m : Mem} {memAt permsAt : U32} (hs : m.sparse = none)
    (hplan : s.plan = planFromMem m memAt permsAt)
    (htable : ∀ t ∈ m.perms, permsAt ≠ 0 ∧ TableAt mem permsAt t) : Maps s m mem := by
  have hsparse : ¬ m.sparse.isSome := by simp [hs]
  constructor
  · rw [hplan]
    exact if_neg hsparse
  · rw [hplan]
    rfl
  · rw [hplan]
    rfl
  · rw [hplan]
    rfl
  · intro hnone
    rw [hplan]
    exact if_pos (Or.inr hnone)
  · intro t ht
    obtain ⟨hne, hat⟩ := htable t ht
    have hperms : s.plan.perms = permsAt := by
      rw [hplan]
      refine if_neg ?_
      rintro (h | h)
      · exact hsparse h
      · rw [h] at ht
        cases ht
    have hshift : s.plan.pageShift = BitVec.ofNat 32 t.pageShift := by
      rw [hplan]
      unfold planFromMem
      rw [Option.mem_def.mp ht]
    rw [hperms]
    exact ⟨hne, hshift, hat⟩

theorem load_entry {m : Mem} {t : PermTable m.size} (hmaps : Maps s m mem) (ht : t ∈ m.perms)
    (off : U32) (hoff : off.toNat < m.size.toNat) :
    mem.load 1 ((off >>> ((BitVec.ofNat 32 t.pageShift).toNat % 32)).toNat + s.plan.perms.toNat) =
      some ((t.entries.getD (off.toNat / 2 ^ t.pageShift) 0).setWidth 32) := by
  have hshift : (BitVec.ofNat 32 t.pageShift).toNat % 32 = t.pageShift := by
    have := t.shift_le
    rw [BitVec.toNat_ofNat, Nat.mod_eq_of_lt (a := t.pageShift) (by omega),
      Nat.mod_eq_of_lt (by omega)]
  have hpage : off.toNat / 2 ^ t.pageShift < t.entries.length := by
    rw [t.lt_length_iff]
    exact Nat.lt_of_le_of_lt (Nat.div_mul_le_self _ _) hoff
  rw [hshift, BitVec.toNat_ushiftRight, Nat.shiftRight_eq_div_pow, Nat.add_comm]
  exact load_byte ((hmaps.table t ht).2.2 _ hpage)

theorem run_firstPage {off : U32} (hl : l .addr = off) {entry : U32}
    (hload : mem.load 1 ((off >>> (s.plan.pageShift.toNat % 32)).toNat + s.plan.perms.toNat) =
      some entry) :
    run (wasmEnv imports) (s.firstPage ++ rest) ⟨mem, l, st⟩ =
      run (wasmEnv imports) rest ⟨mem, l, entry :: st⟩ := by
  subst hl
  have hcode : run (wasmEnv imports) (s.firstPage ++ rest) ⟨mem, l, st⟩ =
      run (wasmEnv imports) (.load 1 s.plan.perms.toNat :: rest)
        ⟨mem, l, l .addr >>> (s.plan.pageShift.toNat % 32) :: st⟩ := rfl
  rw [hcode, run_load (wasmEnv imports) mem l st rest hload]

theorem run_lastPage {off : U32} {w : Nat} (hl : l .addr = off) {entry : U32}
    (hload : mem.load 1 (((off + BitVec.ofNat 32 (w - 1)) >>> (s.plan.pageShift.toNat % 32)).toNat +
      s.plan.perms.toNat) = some entry) (first : U32) :
    run (wasmEnv imports) (s.lastPage w ++ rest) ⟨mem, l, first :: st⟩ =
      run (wasmEnv imports) rest ⟨mem, l, (first &&& entry) :: st⟩ := by
  subst hl
  have hcode : run (wasmEnv imports) (s.lastPage w ++ rest) ⟨mem, l, first :: st⟩ =
      run (wasmEnv imports) (.load 1 s.plan.perms.toNat :: .op .and :: rest)
        ⟨mem, l, (l .addr + BitVec.ofNat 32 (w - 1)) >>> (s.plan.pageShift.toNat % 32) ::
          first :: st⟩ := rfl
  rw [hcode, run_load (wasmEnv imports) mem l (first :: st) _ hload]
  rfl

theorem and_and_eq_iff (a b mask : U32) :
    (a &&& b) &&& mask = mask ↔ a &&& mask = mask ∧ b &&& mask = mask := by
  constructor
  · intro h
    constructor
    · rw [← h, ← BitVec.and_assoc, ← BitVec.and_assoc, BitVec.and_self]
    · rw [← h, ← BitVec.and_assoc, ← BitVec.and_assoc, BitVec.and_comm b a, BitVec.and_assoc a b b,
        BitVec.and_self]
  · rintro ⟨ha, hb⟩
    rw [BitVec.and_assoc, hb, ha]

/-- The verdict on an access inside the mapping is that of its two end pages. -/
theorem run_permsPermitted {m : Mem} (hmaps : Maps s m mem) {addr : U32} {w : Nat}
    (hl : l .addr = addr - m.lo) (hw : 1 ≤ w) (hin : Inside m addr w) (access : U32) :
    run (wasmEnv imports) (s.permsPermitted w access ++ rest) ⟨mem, l, st⟩ =
      run (wasmEnv imports) rest ⟨mem, l, truth (decide (EndsCarry m addr w access)) :: st⟩ := by
  have hsize := m.size.isLt
  obtain ⟨hfit, hle⟩ := hin
  unfold WasmState.permsPermitted
  obtain hnone | ⟨t, ht⟩ := Option.eq_none_or_eq_some m.perms
  · have hends : EndsCarry m addr w access := by
      unfold EndsCarry
      rw [hnone]
      simp
    rw [if_pos (hmaps.noTable hnone), decide_eq_true hends]
    rfl
  · obtain ⟨hne, hshift, -⟩ := hmaps.table t ht
    have hends : EndsCarry m addr w access ↔ carries t access (addr - m.lo).toNat ∧
        carries t access ((addr - m.lo).toNat + (w - 1)) := by
      unfold EndsCarry
      rw [ht]
      simp
    have hfirst := load_entry hmaps ht (addr - m.lo) (by omega)
    rw [← hshift] at hfirst
    have hverdict : decide (EndsCarry m addr w access) = decide (carries t access
        (addr - m.lo).toNat ∧ carries t access ((addr - m.lo).toNat + (w - 1))) :=
      decide_eq_decide.mpr hends
    rw [if_neg hne, List.append_assoc, List.append_assoc, run_firstPage hl hfirst, hverdict]
    by_cases hone : 1 < w
    · have hend : (addr - m.lo + BitVec.ofNat 32 (w - 1)).toNat =
          (addr - m.lo).toNat + (w - 1) := by
        rw [BitVec.toNat_add, BitVec.toNat_ofNat, Nat.mod_eq_of_lt (a := w - 1) (by omega),
          Nat.mod_eq_of_lt (by omega)]
      have hlast := load_entry hmaps ht (addr - m.lo + BitVec.ofNat 32 (w - 1)) (by omega)
      rw [← hshift, hend] at hlast
      rw [if_pos hone, run_lastPage hl hlast]
      simp [WasmState.hasAccess, run_op_apply, Op.apply, and_and_eq_iff, carries]
    · have hlen : w - 1 = 0 := by omega
      rw [if_neg hone]
      simp [WasmState.hasAccess, run_op_apply, Op.apply, carries, hlen]

/-- The comparison of the offset with the last one that fits. -/
theorem inside_iff {m : Mem} {addr : U32} {w : Nat} (hw : w < 2 ^ 32)
    (hfit : ¬ m.size < BitVec.ofNat 32 w) :
    Inside m addr w ↔ ¬ m.size - BitVec.ofNat 32 w < addr - m.lo := by
  have hlen : (BitVec.ofNat 32 w).toNat = w := by
    rw [BitVec.toNat_ofNat, Nat.mod_eq_of_lt hw]
  unfold Inside
  bv_omega

theorem run_guardPerms {m : Mem} (hmaps : Maps s m mem) {insnEip addr : U32} {w : Nat}
    (hl : l .addr = addr - m.lo) (hw : 1 ≤ w) (hin : Inside m addr w) (access : U32)
    {mem' : LinearMem} (hstore : mem.store 4 ((l .cpu).toNat + eipOffset) insnEip = some mem') :
    run (wasmEnv imports) (s.guardPerms insnEip w access ++ rest) ⟨mem, l, st⟩ =
      if EndsCarry m addr w access then run (wasmEnv imports) rest ⟨mem, l, st⟩
      else .ret (exitCode .memoryFault) mem' := by
  unfold WasmState.guardPerms
  by_cases hperms : s.plan.perms = 0
  · have hends : EndsCarry m addr w access := by
      intro t ht
      exact absurd hperms (hmaps.table t ht).1
    rw [if_pos hperms, if_pos hends, List.nil_append]
  · rw [if_neg hperms, List.append_assoc, run_permsPermitted hmaps hl hw hin]
    have hnot : ∀ b : Bool, (Op.eqz).apply (truth b :: st) = some (truth (!b) :: st) := by
      intro b
      cases b <;> rfl
    rw [List.cons_append, run_op (wasmEnv imports) mem l _ _ (hnot _), List.singleton_append,
      run_ite_truth, run_exitImm (by decide) hstore, run_nil]
    by_cases hends : EndsCarry m addr w access
    · rw [if_pos hends, decide_eq_true hends]
      rfl
    · rw [if_neg hends, decide_eq_false hends]
      rfl

/-- The guard goes on with the linear address, or leaves with a memory fault. -/
theorem run_guardAddr {m : Mem} (hmaps : Maps s m mem) {insnEip addr access : U32} {w : Nat}
    (hw : 1 ≤ w) (hw' : w < 2 ^ 32) (hl : l .addr = addr) {mem' : LinearMem}
    (hstore : mem.store 4 ((l .cpu).toNat + eipOffset) insnEip = some mem') :
    run (wasmEnv imports) (s.guardAddr insnEip w access ++ rest) ⟨mem, l, st⟩ =
      if Inside m addr w ∧ EndsCarry m addr w access then
        run (wasmEnv imports) rest
          ⟨mem, Function.update l .addr (addr - m.lo + s.plan.base), st⟩
      else
        .ret (exitCode .memoryFault) mem' := by
  subst hl
  have hcpu : ∀ v, Function.update l .addr v .cpu = l .cpu := fun v =>
    Function.update_of_ne (by decide) _ _
  unfold WasmState.guardAddr
  rw [if_neg (not_not.mpr hmaps.direct), hmaps.size]
  by_cases hnarrow : m.size < BitVec.ofNat 32 w
  · have hout : ¬ Inside m (l .addr) w := by
      rintro ⟨hfit, -⟩
      rw [BitVec.lt_def, BitVec.toNat_ofNat, Nat.mod_eq_of_lt hw'] at hnarrow
      omega
    rw [if_pos hnarrow, if_neg fun h => hout h.1, run_append, run_exitImm (by decide) hstore]
    rfl
  rw [if_neg hnarrow, List.append_assoc, List.append_assoc, List.append_assoc, run_offsetFromLo,
    run_guardBounds (by rwa [hcpu]), hmaps.size, hmaps.lo]
  by_cases hin : Inside m (l .addr) w
  · rw [if_neg ((inside_iff hw' hnarrow).mp hin),
      run_guardPerms hmaps (Function.update_self _ _ _) hw hin access (by rwa [hcpu]),
      run_toLinear, Function.update_self, Function.update_idem]
    by_cases hends : EndsCarry m (l .addr) w access
    · rw [if_pos hends, if_pos ⟨hin, hends⟩]
    · rw [if_neg hends, if_neg fun h => hends h.2]
  · rw [if_pos (not_not.mp fun h => hin ((inside_iff hw' hnarrow).mpr h)), if_neg fun h => hin h.1]

/-- The guard with nothing behind it. -/
theorem run_guardAddr_end {m : Mem} (hmaps : Maps s m mem) {insnEip addr access : U32} {w : Nat}
    (hw : 1 ≤ w) (hw' : w < 2 ^ 32) (hl : l .addr = addr) {mem' : LinearMem}
    (hstore : mem.store 4 ((l .cpu).toNat + eipOffset) insnEip = some mem') :
    run (wasmEnv imports) (s.guardAddr insnEip w access) ⟨mem, l, st⟩ =
      if Inside m addr w ∧ EndsCarry m addr w access then
        .next ⟨mem, Function.update l .addr (addr - m.lo + s.plan.base), st⟩
      else
        .ret (exitCode .memoryFault) mem' := by
  rw [← List.append_nil (s.guardAddr insnEip w access), run_guardAddr hmaps hw hw' hl hstore]
  rfl

/-- The value form: the verdict, and the linear address in its local when it is yes. -/
theorem run_checkAddr (imports : Imports) (access : U32) (l : WasmLocal → U32) (st : List U32)
    {m : Mem} (hmaps : Maps s m mem) {addr : U32} {w : Nat} (hw : 1 ≤ w) (hw' : w < 2 ^ 32)
    (hl : l .addr = addr) :
    ∃ left, run (wasmEnv imports) (s.checkAddr w access) ⟨mem, l, st⟩ =
        .next ⟨mem, Function.update l .addr left,
          truth (decide (Inside m addr w ∧ EndsCarry m addr w access)) :: st⟩ ∧
      (Inside m addr w → left = addr - m.lo + s.plan.base) := by
  subst hl
  unfold WasmState.checkAddr
  rw [if_neg (not_not.mpr hmaps.direct), hmaps.size]
  by_cases hnarrow : m.size < BitVec.ofNat 32 w
  · have hout : ¬ Inside m (l .addr) w := by
      rintro ⟨hfit, -⟩
      rw [BitVec.lt_def, BitVec.toNat_ofNat, Nat.mod_eq_of_lt hw'] at hnarrow
      omega
    refine ⟨l .addr, ?_, fun hin => absurd hin hout⟩
    rw [if_pos hnarrow, decide_eq_false fun h => hout h.1, Function.update_eq_self]
    rfl
  have hcode : run (wasmEnv imports) (s.checkBounds w access)
        ⟨mem, Function.update l .addr (l .addr - m.lo), (l .addr - m.lo) :: st⟩ =
      run (wasmEnv imports) [.ite (s.permsPermitted w access ++ s.toLinear) [.const 0]]
        ⟨mem, Function.update l .addr (l .addr - m.lo),
          truth (decide (l .addr - m.lo ≤ s.plan.size - BitVec.ofNat 32 w)) :: st⟩ := rfl
  rw [if_neg hnarrow, run_offsetFromLo, hmaps.lo, hcode, run_ite_truth, hmaps.size]
  by_cases hin : Inside m (l .addr) w
  · have hle := (inside_iff hw' hnarrow).mp hin
    refine ⟨l .addr - m.lo + s.plan.base, ?_, fun _ => rfl⟩
    rw [if_pos (decide_eq_true (BitVec.not_lt.mp hle)),
      run_permsPermitted hmaps (Function.update_self _ _ _) hw hin,
      ← List.append_nil s.toLinear, run_toLinear, Function.update_self, Function.update_idem]
    by_cases hends : EndsCarry m (l .addr) w access
    · rw [decide_eq_true hends, decide_eq_true ⟨hin, hends⟩]
      rfl
    · rw [decide_eq_false hends, decide_eq_false fun h => hends h.2]
      rfl
  · have hlt := not_not.mp fun h => hin ((inside_iff hw' hnarrow).mpr h)
    refine ⟨l .addr - m.lo, ?_, fun h => absurd h hin⟩
    rw [if_neg (by simpa using hlt), decide_eq_false fun h => hin h.1]
    rfl

end Run

theorem store_eip_at (lay : CpuLayout) (c : X86Cpu) (around : LinearMem) {l : WasmLocal → U32}
    {cpu : U32} (hcpu : l .cpu = cpu) (v : U32) :
    (image lay cpu.toNat c around).store 4 ((l .cpu).toNat + eipOffset) v =
      some (image lay cpu.toNat { c with eip := v } around) := by
  rw [hcpu]
  exact store_eip v

/-! ## What the memory model says -/

section Model

variable {m : Mem} {addr access : U32} {w : Nat}

theorem accessible_of_not_mask (hmask : ¬ AccessMask access) {n : U32} (hn : n ≠ 0) :
    accessible m addr n access = some false := by
  have hrefused : ∀ max, Memory.backingSpan m addr max access = some Memory.Span.refused := by
    intro max
    unfold Memory.backingSpan
    unfold AccessMask at hmask
    rw [if_pos (Or.inr hmask)]
  have hspan : Memory.accessibleSpan m addr n access = some 0 := by
    unfold Memory.accessibleSpan Memory.accessibleSpanLoop
    rw [if_pos (show (0 : U32) < n by bv_omega), hrefused]
    rfl
  unfold accessible
  rw [hspan, Option.map_some, decide_eq_false fun h => hn h.symm, ite_self]

theorem grantsRange_window (hfit : m.lo.toNat + m.size.toNat ≤ 2 ^ 32) (hw : 1 ≤ w) :
    m.GrantsRange access addr.toNat w ↔ Inside m addr w ∧
      ∀ t ∈ m.perms, ∀ i < w, t.grants access ((addr - m.lo).toNat + i) = true := by
  constructor
  · intro h
    obtain ⟨hlo, -⟩ := h 0 (by omega)
    obtain ⟨-, hhi, -⟩ := h (w - 1) (by omega)
    have hoff : (addr - m.lo).toNat = addr.toNat - m.lo.toNat := by bv_omega
    refine ⟨⟨by omega, by omega⟩, fun t ht i hi => ?_⟩
    have hgrants := (h i hi).2.2.2 t ht
    rwa [show addr.toNat + i - m.lo.toNat = (addr - m.lo).toNat + i by omega] at hgrants
  · rintro ⟨⟨hle, hin⟩, hgrants⟩ i hi
    have hoff : m.lo.toNat + (addr - m.lo).toNat = addr.toNat := by bv_omega
    refine ⟨by omega, by omega, by omega, fun t ht => ?_⟩
    rw [show addr.toNat + i - m.lo.toNat = (addr - m.lo).toNat + i by omega]
    exact hgrants t ht i hi

/-- A contiguous mapping that ends inside the address space grants an access when it is inside
and every page it touches grants it. -/
theorem accessible_window (hs : m.sparse = none) (hfit : m.lo.toNat + m.size.toNat ≤ 2 ^ 32)
    (hw : 1 ≤ w) (hw' : w < 2 ^ 31) :
    accessible m addr (BitVec.ofNat 32 w) access =
      some (decide (Inside m addr w ∧ EveryPageGrants m addr w access)) := by
  have hlen : (BitVec.ofNat 32 w).toNat = w := by
    rw [BitVec.toNat_ofNat, Nat.mod_eq_of_lt (by omega)]
  have hn : BitVec.ofNat 32 w ≠ 0 := by bv_omega
  by_cases hmask : AccessMask access
  · rw [Memory.accessible_placed (Memory.wellFormed_window hs) hmask
      (Memory.not_undefined_of_le (by omega) _), hlen]
    refine congrArg some (decide_eq_decide.mpr ?_)
    have hplaced : Lib.Places.Placed (m.place access) addr.toNat w ↔
        m.GrantsRange access addr.toNat w := by
      refine forall₂_congr fun i _ => ?_
      unfold Mem.place
      rw [hs]
      dsimp only
      split_ifs with hgrants <;> simp [hgrants]
    rw [hplaced, grantsRange_window hfit hw]
    exact ⟨fun h => ⟨h.2.1, hmask, h.2.2⟩, fun h => ⟨hn, h.1, h.2.2⟩⟩
  · rw [accessible_of_not_mask hmask hn, decide_eq_false fun h => hmask h.2.1]

theorem endsCarry_of_everyPageGrants (hw : 1 ≤ w) (h : EveryPageGrants m addr w access) :
    EndsCarry m addr w access := by
  intro t ht
  have hcarries : ∀ i < w, carries t access ((addr - m.lo).toNat + i) := by
    intro i hi
    have hgrants := h.2 t ht i hi
    unfold PermTable.grants pageRefuses at hgrants
    unfold carries
    simp only [Bool.not_or, Bool.and_eq_true, Bool.not_eq_true', decide_eq_false_iff_not,
      not_not] at hgrants
    exact hgrants.2
  exact ⟨hcarries 0 (by omega), hcarries (w - 1) (by omega)⟩

end Model

/-! ## The guard against the model -/

/-- The guard, in both forms, answers as the memory model does: it goes on, or pushes a nonzero
verdict, exactly for an accessible range, and then leaves the linear address. -/
structure GuardAgrees (imports : Imports) (s : WasmState) (m : Mem) (cpu : U32) (c : X86Cpu)
    (around : LinearMem) (insnEip addr : U32) (w : Nat) (access : U32) : Prop where
  guard : ∀ l st, l .cpu = cpu → l .addr = addr →
    run (wasmEnv imports) (s.guardAddr insnEip w access)
        ⟨image s.lay cpu.toNat c around, l, st⟩ =
      if accessible m addr (BitVec.ofNat 32 w) access = some true then
        .next ⟨image s.lay cpu.toNat c around,
          Function.update l .addr (BitVec.ofNat 32 m.host + (addr - m.lo)), st⟩
      else
        .ret (exitCode .memoryFault) (image s.lay cpu.toNat { c with eip := insnEip } around)
  check : ∀ o l st, l .cpu = cpu → addressOf c o = addr → ∃ left verdict,
    run (wasmEnv imports) (s.check o w access) ⟨image s.lay cpu.toNat c around, l, st⟩ =
        .next ⟨image s.lay cpu.toNat c around, Function.update l .addr left, verdict :: st⟩ ∧
      (verdict ≠ 0 ↔ accessible m addr (BitVec.ofNat 32 w) access = some true) ∧
      (verdict ≠ 0 → left = BitVec.ofNat 32 m.host + (addr - m.lo))

section Agreement

variable {imports : Imports} {s : WasmState} {m : Mem} {cpu : U32} {c : X86Cpu}
  {around : LinearMem} {insnEip addr access : U32} {w : Nat}

theorem accessible_iff (hs : m.sparse = none) (hfit : m.lo.toNat + m.size.toNat ≤ 2 ^ 32)
    (hw : 1 ≤ w) (hw' : w < 2 ^ 31) :
    accessible m addr (BitVec.ofNat 32 w) access = some true ↔
      Inside m addr w ∧ EveryPageGrants m addr w access := by
  rw [accessible_window hs hfit hw hw', Option.some.injEq, decide_eq_true_iff]

theorem guardAgrees_of_granted (hs : m.sparse = none)
    (hfit : m.lo.toNat + m.size.toNat ≤ 2 ^ 32) (hw : 1 ≤ w) (hw' : w < 2 ^ 31)
    (hmaps : Maps s m (image s.lay cpu.toNat c around))
    (h : Inside m addr w ∧ EndsCarry m addr w access → EveryPageGrants m addr w access) :
    GuardAgrees imports s m cpu c around insnEip addr w access := by
  have hiff : accessible m addr (BitVec.ofNat 32 w) access = some true ↔
      Inside m addr w ∧ EndsCarry m addr w access := by
    rw [accessible_iff hs hfit hw hw']
    exact ⟨fun hall => ⟨hall.1, endsCarry_of_everyPageGrants hw hall.2⟩,
      fun hends => ⟨hends.1, h hends⟩⟩
  have hlinear : addr - m.lo + s.plan.base = BitVec.ofNat 32 m.host + (addr - m.lo) := by
    rw [hmaps.base, add_comm]
  constructor
  · intro l st hcpu haddr
    have hstore := store_eip_at s.lay c around hcpu insnEip
    rw [run_guardAddr_end hmaps hw (by omega) haddr hstore, hlinear]
    by_cases hends : Inside m addr w ∧ EndsCarry m addr w access
    · rw [if_pos hends, if_pos (hiff.mpr hends)]
    · rw [if_neg hends, if_neg fun hacc => hends (hiff.mp hacc)]
  · intro o l st hcpu haddr
    obtain ⟨left, hrun, hleft⟩ := run_checkAddr imports access
      (Function.update l .addr addr) st hmaps hw (by omega) (Function.update_self _ _ _)
    refine ⟨left, truth (decide (Inside m addr w ∧ EndsCarry m addr w access)), ?_, ?_, ?_⟩
    · unfold WasmState.check
      rw [run_address hcpu, haddr, run_localSet, hrun, Function.update_idem]
    · rw [truth_ne_zero, decide_eq_true_iff, hiff]
    · rw [truth_ne_zero, decide_eq_true_iff, ← hlinear]
      exact fun hends => hleft hends.1

/-- An access whose end pages carry the mask goes through the guard, whatever its other pages
say. -/
theorem not_guardAgrees (hs : m.sparse = none)
    (hfit : m.lo.toNat + m.size.toNat ≤ 2 ^ 32) (hw : 1 ≤ w) (hw' : w < 2 ^ 31)
    (hmaps : Maps s m (image s.lay cpu.toNat c around)) (hin : Inside m addr w)
    (hends : EndsCarry m addr w access) (hrefused : ¬ EveryPageGrants m addr w access) :
    ¬ GuardAgrees imports s m cpu c around insnEip addr w access := by
  intro h
  have hguard := h.guard (fun x => if x = .cpu then cpu else addr) [] rfl rfl
  rw [run_guardAddr_end hmaps hw (by omega) rfl (store_eip insnEip), if_pos ⟨hin, hends⟩,
    if_neg fun hacc => hrefused ((accessible_iff hs hfit hw hw').mp hacc).2] at hguard
  cases hguard

/-- Neither form reads linear memory outside the CPU and the entries of the table: whatever else
is absent, the run does not trap. -/
theorem guard_never_traps (hw : 1 ≤ w) (hw' : w < 2 ^ 31)
    (hmaps : Maps s m (image s.lay cpu.toNat c around)) (o : Operand) {l : WasmLocal → U32}
    (st : List U32) (hcpu : l .cpu = cpu) :
    run (wasmEnv imports) (s.guardAddr insnEip w access)
        ⟨image s.lay cpu.toNat c around, l, st⟩ ≠ .trap ∧
      run (wasmEnv imports) (s.check o w access)
        ⟨image s.lay cpu.toNat c around, l, st⟩ ≠ .trap := by
  constructor
  · have hstore := store_eip_at s.lay c around hcpu insnEip
    rw [run_guardAddr_end hmaps hw (by omega) rfl hstore]
    split_ifs <;> simp
  · obtain ⟨left, hrun, -⟩ := run_checkAddr imports access
      (Function.update l .addr (addressOf c o)) st hmaps hw (by omega)
      (Function.update_self _ _ _)
    unfold WasmState.check
    rw [run_address hcpu, run_localSet, hrun]
    simp

/-- The guard never reads past the table, and it agrees with the memory model unless the access
is inside the mapping, its two end pages carry the mask, and yet a page it touches refuses it or
the mask has another bit. -/
theorem guard_admits_iff (hs : m.sparse = none)
    (hfit : m.lo.toNat + m.size.toNat ≤ 2 ^ 32) (hw : 1 ≤ w) (hw' : w < 2 ^ 31)
    (hmaps : Maps s m (image s.lay cpu.toNat c around)) :
    (∀ o l st, l .cpu = cpu →
      run (wasmEnv imports) (s.guardAddr insnEip w access)
          ⟨image s.lay cpu.toNat c around, l, st⟩ ≠ .trap ∧
        run (wasmEnv imports) (s.check o w access)
          ⟨image s.lay cpu.toNat c around, l, st⟩ ≠ .trap) ∧
    (GuardAgrees imports s m cpu c around insnEip addr w access ↔
      (Inside m addr w ∧ EndsCarry m addr w access → EveryPageGrants m addr w access)) := by
  refine ⟨fun o l st hcpu => guard_never_traps hw hw' hmaps o st hcpu, ?_, ?_⟩
  · intro h hends
    by_contra hrefused
    exact not_guardAgrees hs hfit hw hw' hmaps hends.1 hends.2 hrefused h
  · exact guardAgrees_of_granted hs hfit hw hw' hmaps

end Agreement

/-- A read, a write or both over at most two pages is answered by its end pages. -/
theorem everyPageGrants_of_two_pages {m : Mem} {addr access : U32} {w : Nat}
    (hmask : AccessMask access) (hnone : access ≠ 0)
    (hspan : ∀ t ∈ m.perms, w ≤ 2 ^ t.pageShift + 1) (h : EndsCarry m addr w access) :
    EveryPageGrants m addr w access := by
  refine ⟨hmask, fun t ht i hi => ?_⟩
  obtain ⟨hfirst, hlast⟩ := h t ht
  have hpos : 0 < 2 ^ t.pageShift := Nat.two_pow_pos _
  have hgrants : ∀ off, carries t access off → t.grants access off = true := by
    intro off hcarries
    unfold carries at hcarries
    unfold PermTable.grants pageRefuses
    have hzero : t.entries.getD (off / 2 ^ t.pageShift) 0 ≠ 0 := by
      intro hzero
      rw [hzero] at hcarries
      refine hnone ?_
      rw [← hcarries]
      simp
    rw [decide_eq_false hzero, decide_eq_false (not_not.mpr hcarries)]
    rfl
  have hspan := hspan t ht
  have hpage : ((addr - m.lo).toNat + i) / 2 ^ t.pageShift =
        (addr - m.lo).toNat / 2 ^ t.pageShift ∨
      ((addr - m.lo).toNat + i) / 2 ^ t.pageShift =
        ((addr - m.lo).toNat + (w - 1)) / 2 ^ t.pageShift := by
    generalize (addr - m.lo).toNat = off
    have hlow := Nat.div_le_div_right (c := 2 ^ t.pageShift) (Nat.le_add_right off i)
    have hmid := Nat.div_le_div_right (c := 2 ^ t.pageShift) (show off + i ≤ off + (w - 1) by omega)
    have hhigh := Nat.div_le_div_right (c := 2 ^ t.pageShift)
      (show off + (w - 1) ≤ off + 2 ^ t.pageShift by omega)
    rw [Nat.add_div_right _ hpos] at hhigh
    omega
  rcases hpage with hpage | hpage
  · rw [Memory.grants_of_page t hpage, ← Memory.grants_of_page t rfl]
    exact hgrants _ hfirst
  · rw [Memory.grants_of_page t hpage, ← Memory.grants_of_page t rfl]
    exact hgrants _ hlast

/-! ## A page of two bytes -/

/-- Four pages of two bytes; the second is not mapped. -/
theorem holedTable_pos : 1 ≤ 1 := Nat.le_refl 1

theorem holedTable_le : 1 ≤ 31 := by decide

def holedTable : PermTable 8 where
  entries := [3, 0, 3, 3]
  pageShift := 1
  shift_pos := holedTable_pos
  shift_le := holedTable_le
  covers := by decide

def holedMem : Mem := ⟨0x10000, 0x400000, 8, none, some holedTable⟩

def holedAround : LinearMem := fun x => if 0x20000 ≤ x then holedTable.entries[x - 0x20000]? else none

def holedState : WasmState where
  plan := planFromMem holedMem 0 0x20000
  lay := ⟨64, 68, 72, by decide, by decide, by decide⟩
  chainEmit := fun _ => []

def zeroCpu : X86Cpu := ⟨⟨fun _ => 0, false, ⟨0, 0, 0, .none, .dword, 0⟩⟩, 0, 0, 0⟩

theorem holed_maps :
    Maps holedState holedMem (image holedState.lay 0x100 zeroCpu holedAround) := by
  refine maps_planFromMem rfl rfl fun t ht => ?_
  cases ht
  exact ⟨by decide, by unfold TableAt; decide +kernel⟩

/-- Four bytes over the last two pages. -/
theorem holed_agrees : GuardAgrees (fun _ _ _ => none) holedState holedMem 0x100 zeroCpu
    holedAround 0x1000 0x400004 4 3 :=
  (guard_admits_iff rfl (by decide) (by decide) (by decide) holed_maps).2.mpr (by decide)

/-- Four bytes from the second byte on: the first and the third page are mapped, and the guard
lets the access through. -/
theorem holed_admitted : ¬ GuardAgrees (fun _ _ _ => none) holedState holedMem 0x100 zeroCpu
    holedAround 0x1000 0x400001 4 3 :=
  not_guardAgrees rfl (by decide) (by decide) (by decide) holed_maps (by decide) (by decide)
    (by decide)

end X86Port.Wasm
