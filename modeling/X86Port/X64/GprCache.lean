import X86Port.Cpu.RegParts
import X86Port.X64.Host

/-!
# The guest register cache

`jit_x64_gpr.c`: guest registers kept in host registers across a block. What is emitted depends on
what the translator knows at that point, so each emitter gives its code beside the new knowledge.

* `Slots`: three host registers at most, none of them given out twice.
* `Trusted`: what the translator relies on while the flow epoch stands.
* `run_gprLoad`, `run_gprStore`, `run_gprStoreImm`: one lemma an emitter.
-/

namespace X86Port.X64

open Cpu (Reg Width X86Cpu byteReg regRead regWrite widthMask)
open Wasm (LinearMem image regOffset regOffsetW)

/-! ## The emitters -/

/-- What the emitter has counted and what the cache knows. A slot is the number of the host
register plus one, or 0. -/
structure BlockCtx where
  calls : Nat
  sitesBound : Nat
  gprSlot : Reg → Nat
  gprSlots : Nat
  gprLive : Reg → Bool
  gprEpoch : Nat

def BlockCtx.start : BlockCtx := ⟨0, 0, fun _ => 0, 0, fun _ => false, 0⟩

/-- The emitter's calls plus bound jump sites. -/
def blockFlowEpoch (c : BlockCtx) : Nat := c.calls + c.sitesBound

def gprCacheSlots : Nat := 3

def gprCacheReg : Nat → HostReg
  | 0 => .r12
  | 1 => .r13
  | _ => .rbp

def refresh (c : BlockCtx) : BlockCtx :=
  if c.gprEpoch ≠ blockFlowEpoch c then
    { c with gprLive := fun _ => false, gprEpoch := blockFlowEpoch c }
  else
    c

/-- The next free slot goes to a register. -/
def BlockCtx.give (c : BlockCtx) (r : Reg) : BlockCtx :=
  { c with gprSlot := Function.update c.gprSlot r (c.gprSlots + 1), gprSlots := c.gprSlots + 1 }

/-- The host register of a guest register, which `claim` gives a free slot. -/
def cacheReg (c : BlockCtx) (r : Reg) (claim : Bool) : BlockCtx × Option HostReg :=
  if c.gprSlot r = 0 then
    if !claim || decide (gprCacheSlots ≤ c.gprSlots) then
      (c, none)
    else
      (c.give r, some (gprCacheReg c.gprSlots))
  else
    (c, some (gprCacheReg (c.gprSlot r - 1)))

/-- The dword register an operand names, and how far up in it the operand sits. -/
abbrev dwordReg : Reg → Width → Reg × Nat := Cpu.regPart

def BlockCtx.setLive (c : BlockCtx) (r : Reg) (live : Bool) : BlockCtx :=
  { c with gprLive := Function.update c.gprLive r live }

def regOffW (reg : Reg) (w : Width) : U32 := fieldDisp (regOffsetW reg w)

def gprLoad (c : BlockCtx) (dst : HostReg) (reg : Reg) (w : Width) : BlockCtx × HostCode :=
  let (r, shift) := dwordReg reg w
  match cacheReg (refresh c) r (w = .dword) with
  | (c, none) => (c, [.load w dst .rbx (regOffW reg w)])
  | (c, some host) =>
    if c.gprLive r = false ∧ w ≠ .dword then
      (c, [.load w dst .rbx (regOffW reg w)])
    else
      (c.setLive r true,
        (if c.gprLive r then ([] : HostCode)
          else [.load .dword host .rbx (fieldDisp (regOffset r))]) ++
        ([.mov32 dst host] : HostCode) ++
        (if shift ≠ 0 then ([.shiftImm .shr dst shift] : HostCode) else []) ++
        (if w ≠ .dword then ([.aluImm32 .and dst (widthMask w)] : HostCode) else []))

/-- Both stores: memory first, and at full width the host register too. -/
def gprWrite (c : BlockCtx) (reg : Reg) (w : Width) (write : HostInsn)
    (copy : HostReg → HostInsn) : BlockCtx × HostCode :=
  let r := (dwordReg reg w).1
  match cacheReg (refresh c) r (w = .dword) with
  | (c, none) => (c, [write])
  | (c, some host) =>
    if w = .dword then (c.setLive r true, [write, copy host]) else (c.setLive r false, [write])

def gprStore (c : BlockCtx) (reg : Reg) (src : HostReg) (w : Width) : BlockCtx × HostCode :=
  gprWrite c reg w (.store w .rbx (regOffW reg w) src) (.mov32 · src)

def gprStoreImm (c : BlockCtx) (reg : Reg) (imm : U32) (w : Width) : BlockCtx × HostCode :=
  gprWrite c reg w (.storeImm w .rbx (regOffW reg w) imm) (.movImm32 · imm)

/-- A position a later jump returns to. -/
def gprForget (c : BlockCtx) : BlockCtx := { refresh c with gprLive := fun _ => false }

/-! ## What the translator knows -/

/-- The host register of a guest register that has a slot. -/
def hostOf (c : BlockCtx) (r : Reg) : HostReg := gprCacheReg (c.gprSlot r - 1)

structure Slots (c : BlockCtx) : Prop where
  few : c.gprSlots ≤ gprCacheSlots
  given : ∀ r, c.gprSlot r ≤ c.gprSlots
  once : ∀ r q, c.gprSlot r ≠ 0 → c.gprSlot r = c.gprSlot q → r = q
  live : ∀ r, c.gprLive r = true → c.gprSlot r ≠ 0
  past : c.gprEpoch ≤ blockFlowEpoch c

/-- What a load relies on: nothing was called and no path has joined since. -/
def Trusted (c : BlockCtx) (cpu : X86Cpu) (s : HostState) : Prop :=
  c.gprEpoch = blockFlowEpoch c → ∀ r, c.gprLive r = true → s.low (hostOf c r) = cpu.reg r

/-- The host holds a guest CPU, in the memory of its block. -/
structure HoldsCpu (H : CpuHome) (cpu : X86Cpu) (rest : LinearMem) (s : HostState) : Prop where
  rbx : s.reg .rbx = H.cpu
  mem : s.mem = image H.lay H.cpu.toNat cpu rest

/-- The host registers of the cache. -/
def IsCache (r : HostReg) : Prop := r = .r12 ∨ r = .r13 ∨ r = .rbp

/-- A register emitted code may compute in. -/
def IsScratch (r : HostReg) : Prop := ¬ IsCache r ∧ r ≠ .rbx ∧ r ≠ .rsp

instance (r : HostReg) : Decidable (IsCache r) := inferInstanceAs (Decidable (_ ∨ _ ∨ _))

instance (r : HostReg) : Decidable (IsScratch r) := inferInstanceAs (Decidable (_ ∧ _ ∧ _))

theorem slots_start : Slots BlockCtx.start :=
  ⟨Nat.zero_le _, fun _ => le_rfl, fun _ _ h => absurd rfl h, fun _ h => Bool.noConfusion h, le_rfl⟩

theorem isCache_gprCacheReg (n : Nat) : IsCache (gprCacheReg n) := by
  unfold gprCacheReg
  split
  · exact .inl rfl
  · exact .inr (.inl rfl)
  · exact .inr (.inr rfl)

theorem gprCacheReg_inj {m n : Nat} (hm : m < 3) (hn : n < 3) (h : gprCacheReg m = gprCacheReg n) :
    m = n := by
  have hcases : ∀ k : Nat, k < 3 → k = 0 ∨ k = 1 ∨ k = 2 := fun k hk => by omega
  rcases hcases m hm with rfl | rfl | rfl <;> rcases hcases n hn with rfl | rfl | rfl <;>
    first | rfl | cases h

section

variable {c : BlockCtx}

theorem Slots.small (h : Slots c) (r : Reg) : c.gprSlot r ≤ 3 := (h.given r).trans h.few

/-- No host register is given to two guest registers. -/
theorem Slots.hostOf_inj (h : Slots c) {r q : Reg} (hr : c.gprSlot r ≠ 0) (hq : c.gprSlot q ≠ 0)
    (heq : hostOf c r = hostOf c q) : r = q := by
  have hr3 := h.small r
  have hq3 := h.small q
  have hslot := gprCacheReg_inj (by omega) (by omega) heq
  exact h.once r q hr (by omega)

theorem refresh_slot (c : BlockCtx) : (refresh c).gprSlot = c.gprSlot := by
  unfold refresh
  split_ifs <;> rfl

theorem refresh_epoch (c : BlockCtx) : (refresh c).gprEpoch = blockFlowEpoch (refresh c) := by
  unfold refresh
  split_ifs with h
  · rfl
  · exact not_not.mp h

theorem refresh_live {r : Reg} (h : (refresh c).gprLive r = true) :
    c.gprLive r = true ∧ c.gprEpoch = blockFlowEpoch c := by
  unfold refresh at h
  split_ifs at h with hepoch
  exact ⟨h, not_not.mp hepoch⟩

theorem slots_refresh (h : Slots c) : Slots (refresh c) := by
  refine ⟨?_, ?_, ?_, fun r hr => ?_, (refresh_epoch c).le⟩
  · unfold refresh
    split_ifs <;> exact h.few
  · unfold refresh
    split_ifs <;> exact h.given
  · rw [refresh_slot]
    exact h.once
  · rw [refresh_slot]
    exact h.live r (refresh_live hr).1

theorem trusted_refresh {cpu : X86Cpu} {s : HostState} (h : Trusted c cpu s) :
    Trusted (refresh c) cpu s := by
  intro _ r hr
  obtain ⟨hlive, hepoch⟩ := refresh_live hr
  rw [hostOf, refresh_slot]
  exact h hepoch r hlive

/-- What a register that has a host register, or is given one, leaves as it was. -/
structure Cached (c c' : BlockCtx) (r : Reg) (host : HostReg) : Prop where
  slots : Slots c'
  live : c'.gprLive = c.gprLive
  epoch : c'.gprEpoch = c.gprEpoch
  flow : blockFlowEpoch c' = blockFlowEpoch c
  slot : c'.gprSlot r ≠ 0
  host : host = hostOf c' r
  others : ∀ q, c.gprSlot q ≠ 0 → hostOf c' q = hostOf c q

theorem cacheReg_none {r : Reg} {claim : Bool} {c' : BlockCtx}
    (h : cacheReg c r claim = (c', none)) : c' = c ∧ c.gprSlot r = 0 := by
  unfold cacheReg at h
  split_ifs at h with hslot
  · cases h
    exact ⟨rfl, hslot⟩
  · cases h
  · cases h

@[simp] theorem give_self (c : BlockCtx) (r : Reg) : (c.give r).gprSlot r = c.gprSlots + 1 :=
  Function.update_self _ _ _

theorem give_ne {r q : Reg} (h : q ≠ r) : (c.give r).gprSlot q = c.gprSlot q :=
  Function.update_of_ne h _ _

theorem slots_give (hs : Slots c) {r : Reg} (hslot : c.gprSlot r = 0)
    (hfree : c.gprSlots < gprCacheSlots) : Slots (c.give r) := by
  refine ⟨hfree, fun q => ?_, fun p q hp hpq => ?_, fun q hq => ?_, hs.past⟩
  · rcases eq_or_ne q r with rfl | hne
    · rw [give_self]
      exact le_rfl
    · rw [give_ne hne]
      exact (hs.given q).trans (Nat.le_succ _)
  · have hgiven : ∀ q, c.gprSlot q ≠ c.gprSlots + 1 := fun q => by
      have := hs.given q
      omega
    rcases eq_or_ne p r with rfl | hpr <;> rcases eq_or_ne q p with rfl | hqp
    · rfl
    · rw [give_self, give_ne hqp] at hpq
      exact absurd hpq.symm (hgiven q)
    · rfl
    · rw [give_ne hpr] at hp hpq
      rcases eq_or_ne q r with rfl | hqr
      · rw [give_self] at hpq
        exact absurd hpq (hgiven p)
      · rw [give_ne hqr] at hpq
        exact hs.once p q hp hpq
  · rcases eq_or_ne q r with rfl | hne
    · rw [give_self]
      exact Nat.succ_ne_zero _
    · rw [give_ne hne]
      exact hs.live q hq

theorem cacheReg_some (hs : Slots c) {r : Reg} {claim : Bool} {c' : BlockCtx} {host : HostReg}
    (h : cacheReg c r claim = (c', some host)) : Cached c c' r host := by
  unfold cacheReg at h
  split_ifs at h with hslot hfull
  · cases h
  · cases h
    have hfree : c.gprSlots < gprCacheSlots := by
      simp only [Bool.or_eq_true, decide_eq_true_eq, not_or, not_le] at hfull
      exact hfull.2
    refine ⟨slots_give hs hslot hfree, rfl, rfl, rfl, ?_, ?_, fun q hq => ?_⟩
    · rw [give_self]
      exact Nat.succ_ne_zero _
    · rw [hostOf, give_self, Nat.add_sub_cancel]
    · have hne : q ≠ r := fun heq => hq (heq ▸ hslot)
      rw [hostOf, hostOf, give_ne hne]
  · cases h
    exact ⟨hs, rfl, rfl, rfl, hslot, rfl, fun _ _ => rfl⟩

@[simp] theorem setLive_self (c : BlockCtx) (r : Reg) (live : Bool) :
    (c.setLive r live).gprLive r = live := Function.update_self _ _ _

theorem setLive_ne {r q : Reg} (h : q ≠ r) (live : Bool) :
    (c.setLive r live).gprLive q = c.gprLive q := Function.update_of_ne h _ _

theorem slots_setLive (h : Slots c) {r : Reg} (hr : c.gprSlot r ≠ 0) (live : Bool) :
    Slots (c.setLive r live) := by
  refine ⟨h.few, h.given, h.once, fun q hq => ?_, h.past⟩
  rcases eq_or_ne q r with rfl | hne
  · exact hr
  · rw [setLive_ne hne] at hq
    exact h.live q hq

theorem slots_gprLoad (h : Slots c) (dst : HostReg) (reg : Reg) (w : Width) :
    Slots (gprLoad c dst reg w).1 := by
  unfold gprLoad
  dsimp only
  cases hcache : cacheReg (refresh c) (dwordReg reg w).1 (w = .dword) with
  | mk c' host =>
    cases host with
    | none => exact (cacheReg_none hcache).1 ▸ slots_refresh h
    | some host =>
      have hc := cacheReg_some (slots_refresh h) hcache
      dsimp only
      by_cases hnarrow : c'.gprLive (dwordReg reg w).1 = false ∧ w ≠ .dword
      · rw [if_pos hnarrow]
        exact hc.slots
      · rw [if_neg hnarrow]
        exact slots_setLive hc.slots hc.slot true

theorem slots_gprWrite (h : Slots c) (reg : Reg) (w : Width) (write : HostInsn)
    (copy : HostReg → HostInsn) : Slots (gprWrite c reg w write copy).1 := by
  unfold gprWrite
  dsimp only
  cases hcache : cacheReg (refresh c) (dwordReg reg w).1 (w = .dword) with
  | mk c' host =>
    cases host with
    | none => exact (cacheReg_none hcache).1 ▸ slots_refresh h
    | some host =>
      have hc := cacheReg_some (slots_refresh h) hcache
      by_cases hw : w = .dword
      · simp only [if_pos hw]
        exact slots_setLive hc.slots hc.slot true
      · simp only [if_neg hw]
        exact slots_setLive hc.slots hc.slot false

theorem slots_gprForget (h : Slots c) : Slots (gprForget c) :=
  ⟨(slots_refresh h).few, (slots_refresh h).given, (slots_refresh h).once,
    fun _ hr => Bool.noConfusion hr, (slots_refresh h).past⟩

end

/-! ## What stays trusted -/

section

variable {c c' : BlockCtx} {cpu cpu' : X86Cpu} {s s' : HostState}

theorem IsScratch.ne_cache {dst r : HostReg} (hdst : IsScratch dst) (hr : IsCache r) : r ≠ dst :=
  fun h => hdst.1 (h ▸ hr)

/-- Every register that is live after was live before and kept, or is the one just brought in. -/
theorem Trusted.mono (h : Trusted c cpu s)
    (hepoch : c'.gprEpoch = blockFlowEpoch c' → c.gprEpoch = blockFlowEpoch c)
    (hlive : ∀ q, c'.gprLive q = true →
      (c.gprLive q = true ∧ s'.low (hostOf c' q) = s.low (hostOf c q) ∧ cpu'.reg q = cpu.reg q) ∨
        s'.low (hostOf c' q) = cpu'.reg q) : Trusted c' cpu' s' := by
  intro hcurrent q hq
  rcases hlive q hq with ⟨hwas, hhost, hreg⟩ | hnew
  · rw [hhost, hreg]
    exact h (hepoch hcurrent) q hwas
  · exact hnew

theorem Trusted.keep (h : Trusted c cpu s) (hkeep : ∀ r, IsCache r → s'.low r = s.low r) :
    Trusted c cpu s' :=
  h.mono id fun _ hq => .inl ⟨hq, hkeep _ (isCache_gprCacheReg _), rfl⟩

theorem Cached.trusted {r : Reg} {host : HostReg} (hc : Cached c c' r host) (hs : Slots c)
    (h : Trusted c cpu s) : Trusted c' cpu s := by
  refine h.mono (fun hcurrent => ?_) fun q hq => ?_
  · rw [← hc.epoch, hcurrent, hc.flow]
  · rw [hc.live] at hq
    exact .inl ⟨hq, by rw [hc.others q (hs.live q hq)], rfl⟩

/-- A register comes in, or is written through, while the others stay. -/
theorem trusted_setLive (hs : Slots c) {r : Reg} (hslot : c.gprSlot r ≠ 0) (h : Trusted c cpu s)
    (hhost : s'.low (hostOf c r) = cpu'.reg r)
    (hkeep : ∀ x, IsCache x → x ≠ hostOf c r → s'.low x = s.low x)
    (hreg : ∀ q, q ≠ r → cpu'.reg q = cpu.reg q) : Trusted (c.setLive r true) cpu' s' := by
  refine h.mono id fun q hq => ?_
  rcases eq_or_ne q r with rfl | hne
  · exact .inr hhost
  · rw [setLive_ne hne] at hq
    refine .inl ⟨hq, hkeep _ (isCache_gprCacheReg _) fun heq => hne ?_, hreg q hne⟩
    exact hs.hostOf_inj (hs.live q hq) hslot heq

/-- A register that is written behind its host register is dropped. -/
theorem trusted_drop {r : Reg} (h : Trusted c cpu s) (hdead : c'.gprLive r = false)
    (hlive : ∀ q, q ≠ r → c'.gprLive q = c.gprLive q) (hslot : c'.gprSlot = c.gprSlot)
    (hepoch : c'.gprEpoch = blockFlowEpoch c' → c.gprEpoch = blockFlowEpoch c)
    (hkeep : ∀ x, IsCache x → s'.low x = s.low x)
    (hreg : ∀ q, q ≠ r → cpu'.reg q = cpu.reg q) : Trusted c' cpu' s' := by
  refine h.mono hepoch fun q hq => ?_
  have hne : q ≠ r := fun heq => by
    rw [heq, hdead] at hq
    cases hq
  rw [hlive q hne] at hq
  rw [hostOf, hslot]
  exact .inl ⟨hq, hkeep _ (isCache_gprCacheReg _), hreg q hne⟩

end

/-! ## What the emitted code does -/

/-- The translator and the host, between two operations of a block. -/
structure Coherent (H : CpuHome) (cpu : X86Cpu) (rest : LinearMem) (c : BlockCtx)
    (s : HostState) : Prop where
  slots : Slots c
  trusted : Trusted c cpu s
  holds : HoldsCpu H cpu rest s

section

variable {H : CpuHome} {cpu : X86Cpu} {rest : LinearMem} {c : BlockCtx} {s : HostState}

theorem regOffsetW_le (H : CpuHome) (reg : Reg) (w : Width) : regOffsetW reg w ≤ H.lay.gsBase := by
  have hflags := H.lay.flags_lt_df
  have hfs := H.lay.df_lt_fsBase
  have hgs := H.lay.fsBase_lt_gsBase
  have hlt : regOffsetW reg w < 32 := by
    cases w <;> revert reg <;> decide
  omega

theorem exec_loadReg (h : HoldsCpu H cpu rest s) (dst : HostReg) (reg : Reg) (w : Width) :
    (HostInsn.load w dst .rbx (regOffW reg w)).exec s =
      some (s.setLow dst (regRead cpu.toCpuState reg w)) := by
  rw [HostInsn.exec, regOffW, addr_field h.rbx (regOffsetW_le H reg w), h.mem, Wasm.load_reg,
    Option.map_some]

theorem exec_storeReg (h : HoldsCpu H cpu rest s) (src : HostReg) (reg : Reg) (w : Width) :
    (HostInsn.store w .rbx (regOffW reg w) src).exec s =
      some (s.withMem (image H.lay H.cpu.toNat
        { cpu with toCpuState := regWrite cpu.toCpuState reg w (s.low src) } rest)) := by
  rw [HostInsn.exec, regOffW, addr_field h.rbx (regOffsetW_le H reg w), h.mem, Wasm.store_reg,
    Option.map_some]

theorem exec_storeImmReg (h : HoldsCpu H cpu rest s) (imm : U32) (reg : Reg) (w : Width) :
    (HostInsn.storeImm w .rbx (regOffW reg w) imm).exec s =
      some (s.withMem (image H.lay H.cpu.toNat
        { cpu with toCpuState := regWrite cpu.toCpuState reg w imm } rest)) := by
  rw [HostInsn.exec, regOffW, addr_field h.rbx (regOffsetW_le H reg w), h.mem, Wasm.store_reg,
    Option.map_some]

theorem IsCache.ne_rbx {r : HostReg} (h : IsCache r) : HostReg.rbx ≠ r := by
  rintro rfl
  revert h
  decide

theorem HoldsCpu.setLow (h : HoldsCpu H cpu rest s) {r : HostReg} (hr : HostReg.rbx ≠ r) (v : U32) :
    HoldsCpu H cpu rest (s.setLow r v) :=
  ⟨(s.setLow_ne hr v).trans h.rbx, h.mem⟩

/-- A scratch register is written. -/
theorem Coherent.setLow (h : Coherent H cpu rest c s) {dst : HostReg} (hdst : IsScratch dst)
    (v : U32) : Coherent H cpu rest c (s.setLow dst v) :=
  ⟨h.slots, h.trusted.keep fun _ hr => s.low_setLow_ne (hdst.ne_cache hr) v,
    h.holds.setLow hdst.2.1.symm v⟩

theorem Coherent.refresh (h : Coherent H cpu rest c s) : Coherent H cpu rest (refresh c) s :=
  ⟨slots_refresh h.slots, trusted_refresh h.trusted, h.holds⟩

theorem Coherent.cached {c' : BlockCtx} {r : Reg} {host : HostReg}
    (h : Coherent H cpu rest c s) (hc : Cached c c' r host) : Coherent H cpu rest c' s :=
  ⟨hc.slots, hc.trusted h.slots h.trusted, h.holds⟩

theorem regRead_part (c : Cpu.CpuState) (reg : Reg) (w : Width) :
    regRead c reg w = (c.reg (dwordReg reg w).1 >>> (dwordReg reg w).2) &&& widthMask w := by
  cases w with
  | byte => rfl
  | word => exact (congrArg (· &&& _) (BitVec.ushiftRight_zero _)).symm
  | dword => exact ((congrArg (· &&& _) (BitVec.ushiftRight_zero _)).trans BitVec.and_allOnes).symm

/-- The part of a register an operand names, out of a copy of the register. -/
theorem run_narrow (s : HostState) (dst : HostReg) (v : U32) (reg : Reg) (w : Width) :
    run ((if (dwordReg reg w).2 ≠ 0 then ([.shiftImm .shr dst (dwordReg reg w).2] : HostCode)
        else []) ++ (if w ≠ .dword then ([.aluImm32 .and dst (widthMask w)] : HostCode) else []))
        (s.setLow dst v) =
      some (s.setLow dst ((v >>> (dwordReg reg w).2) &&& widthMask w)) := by
  have hfits : (dwordReg reg w).2 + w.bits ≤ 32 := Cpu.regPart_fits reg w
  have hbits : 0 < w.bits := by cases w <;> decide
  have hmod : (dwordReg reg w).2 % 32 = (dwordReg reg w).2 := Nat.mod_eq_of_lt (by omega)
  have hshift : run (if (dwordReg reg w).2 ≠ 0 then [.shiftImm .shr dst (dwordReg reg w).2] else [])
      (s.setLow dst v) = some (s.setLow dst (v >>> (dwordReg reg w).2)) := by
    split_ifs with h
    · rw [run_cons, HostInsn.exec, HostShift.result, HostState.low_setLow, hmod,
        HostState.setLow_setLow]
      rfl
    · rw [not_not.mp h, BitVec.ushiftRight_zero, run_nil]
  rw [run_append, hshift, Option.bind_some]
  split_ifs with h
  · rw [run_cons, HostInsn.exec, HostAlu.result, HostState.low_setLow, HostState.setLow_setLow]
    rfl
  · rw [not_not.mp h, run_nil]
    exact congrArg (fun v => some (s.setLow dst v)) BitVec.and_allOnes.symm

/-- A register is in its host register, from memory if it was not there. -/
theorem run_fill {c' : BlockCtx} {r : Reg} {host : HostReg} (h : Coherent H cpu rest c s)
    (hepoch : c.gprEpoch = blockFlowEpoch c) (hc : Cached c c' r host) :
    ∃ s', run (if c'.gprLive r then [] else [.load .dword host .rbx (fieldDisp (regOffset r))]) s =
        some s' ∧ s'.low host = cpu.reg r ∧ Coherent H cpu rest (c'.setLive r true) s' ∧
        ∀ x, ¬ IsCache x → s'.reg x = s.reg x := by
  have hcache : IsCache host := hc.host ▸ isCache_gprCacheReg _
  have hcoherent := h.cached hc
  have hcurrent : c'.gprEpoch = blockFlowEpoch c' := by rw [hc.epoch, hepoch, hc.flow]
  cases hlive : c'.gprLive r with
  | true =>
    have hhost : s.low host = cpu.reg r := by
      rw [hc.host]
      exact hcoherent.trusted hcurrent r hlive
    refine ⟨s, rfl, hhost, ⟨slots_setLive hc.slots hc.slot _, ?_, h.holds⟩, fun _ _ => rfl⟩
    exact trusted_setLive hc.slots hc.slot hcoherent.trusted (hc.host ▸ hhost)
      (fun _ _ _ => rfl) fun _ _ => rfl
  | false =>
    have hhost : (s.setLow host (cpu.reg r)).low host = cpu.reg r := s.low_setLow _ _
    refine ⟨s.setLow host (cpu.reg r), ?_, hhost, ⟨slots_setLive hc.slots hc.slot _, ?_,
      h.holds.setLow hcache.ne_rbx _⟩, fun x hx => s.setLow_ne (fun heq => hx ?_) _⟩
    · have hload := exec_loadReg h.holds host r .dword
      rw [if_neg Bool.false_ne_true, run_cons]
      exact congrArg (fun o => o.bind (run [])) hload
    · refine trusted_setLive hc.slots hc.slot hcoherent.trusted (hc.host ▸ hhost)
        (fun x _ hne => s.low_setLow_ne ?_ _) fun _ _ => rfl
      rwa [← hc.host] at hne
    · rw [heq]
      exact hcache

/-- A load leaves the current value of the operand, zero-extended. -/
theorem run_gprLoad (h : Coherent H cpu rest c s) {dst : HostReg} (hdst : IsScratch dst)
    (reg : Reg) (w : Width) :
    ∃ s', run (gprLoad c dst reg w).2 s = some s' ∧
      s'.reg dst = (regRead cpu.toCpuState reg w).setWidth 64 ∧
      Coherent H cpu rest (gprLoad c dst reg w).1 s' ∧
      ∀ x, x ≠ dst → ¬ IsCache x → s'.reg x = s.reg x := by
  have hmemory : ∀ c', Coherent H cpu rest c' s →
      ∃ s', run [.load w dst .rbx (regOffW reg w)] s = some s' ∧
        s'.reg dst = (regRead cpu.toCpuState reg w).setWidth 64 ∧ Coherent H cpu rest c' s' ∧
        ∀ x, x ≠ dst → ¬ IsCache x → s'.reg x = s.reg x := fun c' h' =>
    ⟨s.setLow dst (regRead cpu.toCpuState reg w),
      by rw [run_cons, exec_loadReg h.holds, Option.bind_some, run_nil], s.setLow_self _ _,
      h'.setLow hdst _, fun x hx _ => s.setLow_ne hx _⟩
  unfold gprLoad
  dsimp only
  cases hcache : cacheReg (refresh c) (dwordReg reg w).1 (w = .dword) with
  | mk c' host =>
    cases host with
    | none => exact hmemory c' ((cacheReg_none hcache).1 ▸ h.refresh)
    | some host =>
      have hc := cacheReg_some h.refresh.slots hcache
      dsimp only
      by_cases hnarrow : c'.gprLive (dwordReg reg w).1 = false ∧ w ≠ .dword
      · rw [if_pos hnarrow]
        exact hmemory c' (h.refresh.cached hc)
      · rw [if_neg hnarrow]
        obtain ⟨s₁, hfill, hhost, hcoherent, hkeep⟩ := run_fill h.refresh (refresh_epoch c) hc
        refine ⟨s₁.setLow dst (regRead cpu.toCpuState reg w), ?_, s₁.setLow_self _ _,
          hcoherent.setLow hdst _, fun x hx hx' => (s₁.setLow_ne hx _).trans (hkeep x hx')⟩
        have hcopy : (HostInsn.mov32 dst host).exec s₁ =
            some (s₁.setLow dst (cpu.reg (dwordReg reg w).1)) := by
          rw [HostInsn.exec, hhost]
        rw [List.append_assoc, List.append_assoc, run_append, hfill, Option.bind_some,
          List.singleton_append, run_cons, hcopy, Option.bind_some, run_narrow, regRead_part]

/-- The guest CPU after a register write. -/
def written (cpu : X86Cpu) (reg : Reg) (w : Width) (v : U32) : X86Cpu :=
  { cpu with toCpuState := regWrite cpu.toCpuState reg w v }

theorem written_other {reg q : Reg} {w : Width} (v : U32) (h : q ≠ (dwordReg reg w).1) :
    (written cpu reg w v).reg q = cpu.reg q := Cpu.regWrite_other _ _ h

theorem HoldsCpu.withMem (h : HoldsCpu H cpu rest s) (cpu' : X86Cpu) :
    HoldsCpu H cpu' rest (s.withMem (image H.lay H.cpu.toNat cpu' rest)) := ⟨h.rbx, rfl⟩

theorem run_gprWrite (h : Coherent H cpu rest c s) (reg : Reg) (w : Width) (v : U32)
    {write : HostInsn} {copy : HostReg → HostInsn}
    (hwrite : write.exec s =
      some (s.withMem (image H.lay H.cpu.toNat (written cpu reg w v) rest)))
    (hcopy : ∀ host m, (copy host).exec (s.withMem m) = some ((s.withMem m).setLow host v)) :
    ∃ s', run (gprWrite c reg w write copy).2 s = some s' ∧
      Coherent H (written cpu reg w v) rest (gprWrite c reg w write copy).1 s' ∧
      ∀ x, ¬ IsCache x → s'.reg x = s.reg x := by
  set s₁ := s.withMem (image H.lay H.cpu.toNat (written cpu reg w v) rest) with hs₁
  have hother : ∀ q, q ≠ (dwordReg reg w).1 → (written cpu reg w v).reg q = cpu.reg q :=
    fun q hq => written_other v hq
  have hholds : HoldsCpu H (written cpu reg w v) rest s₁ := h.holds.withMem _
  have hone : run [write] s = some s₁ := by rw [run_cons, hwrite, Option.bind_some, run_nil]
  unfold gprWrite
  dsimp only
  cases hcache : cacheReg (refresh c) (dwordReg reg w).1 (w = .dword) with
  | mk c' host =>
    cases host with
    | none =>
      -- a register without a host register is not live
      obtain ⟨rfl, hslot⟩ := cacheReg_none hcache
      have hdead : (refresh c).gprLive (dwordReg reg w).1 = false := by
        by_contra hlive
        exact h.refresh.slots.live _ (Bool.eq_true_of_not_eq_false hlive) hslot
      exact ⟨s₁, hone, ⟨h.refresh.slots, trusted_drop h.refresh.trusted hdead (fun _ _ => rfl) rfl
        id (fun _ _ => rfl) hother, hholds⟩, fun _ _ => rfl⟩
    | some host =>
      have hc := cacheReg_some h.refresh.slots hcache
      have hcoherent := h.refresh.cached hc
      have hhost : IsCache host := hc.host ▸ isCache_gprCacheReg _
      dsimp only
      by_cases hw : w = .dword
      · subst hw
        rw [if_pos rfl]
        refine ⟨s₁.setLow host v, ?_, ⟨slots_setLive hc.slots hc.slot _, ?_,
          hholds.setLow hhost.ne_rbx v⟩, fun x hx => s₁.setLow_ne (fun heq => hx ?_) v⟩
        · rw [run_cons, hwrite, Option.bind_some, run_cons, hcopy, Option.bind_some, run_nil]
        · refine trusted_setLive hc.slots hc.slot hcoherent.trusted ?_ (fun x _ hne => ?_) hother
          · rw [← hc.host, HostState.low_setLow]
            exact (Function.update_self (f := cpu.reg) reg v).symm
          · rw [← hc.host] at hne
            exact s₁.low_setLow_ne hne v
        · rw [heq]
          exact hhost
      · rw [if_neg hw]
        exact ⟨s₁, hone, ⟨slots_setLive hc.slots hc.slot _, trusted_drop hcoherent.trusted
          (setLive_self _ _ _) (fun q hq => setLive_ne hq _) rfl id (fun _ _ => rfl) hother,
          hholds⟩, fun _ _ => rfl⟩

theorem run_gprStore (h : Coherent H cpu rest c s) (reg : Reg) (src : HostReg) (w : Width) :
    ∃ s', run (gprStore c reg src w).2 s = some s' ∧
      Coherent H (written cpu reg w (s.low src)) rest (gprStore c reg src w).1 s' ∧
      ∀ x, ¬ IsCache x → s'.reg x = s.reg x :=
  run_gprWrite h reg w (s.low src) (exec_storeReg h.holds src reg w) fun _ _ => rfl

theorem run_gprStoreImm (h : Coherent H cpu rest c s) (reg : Reg) (imm : U32) (w : Width) :
    ∃ s', run (gprStoreImm c reg imm w).2 s = some s' ∧
      Coherent H (written cpu reg w imm) rest (gprStoreImm c reg imm w).1 s' ∧
      ∀ x, ¬ IsCache x → s'.reg x = s.reg x :=
  run_gprWrite h reg w imm (exec_storeImmReg h.holds imm reg w) fun _ _ => rfl

theorem Coherent.forget (h : Coherent H cpu rest c s) : Coherent H cpu rest (gprForget c) s :=
  ⟨slots_gprForget h.slots, fun _ _ hr => Bool.noConfusion hr, h.holds⟩

/-- The emitter has counted another call or bound site. -/
def Later (c c' : BlockCtx) : Prop :=
  c'.gprSlot = c.gprSlot ∧ c'.gprSlots = c.gprSlots ∧ c'.gprLive = c.gprLive ∧
    c'.gprEpoch = c.gprEpoch ∧ blockFlowEpoch c < blockFlowEpoch c'

theorem Later.slots {c' : BlockCtx} (hlater : Later c c') (h : Slots c) : Slots c' := by
  obtain ⟨hslot, hslots, hlive, hepoch, hflow⟩ := hlater
  refine ⟨?_, ?_, ?_, ?_, ?_⟩
  · rw [hslots]
    exact h.few
  · rw [hslots, hslot]
    exact h.given
  · rw [hslot]
    exact h.once
  · rw [hslot, hlive]
    exact h.live
  · rw [hepoch]
    exact h.past.trans hflow.le

/-- What was known in an earlier epoch is not used, whatever the host registers hold. -/
theorem Later.coherent {cpu' : X86Cpu} {rest' : LinearMem} {c' : BlockCtx} {s' : HostState}
    (hlater : Later c c') (h : Slots c) (hholds : HoldsCpu H cpu' rest' s') :
    Coherent H cpu' rest' c' s' := by
  refine ⟨hlater.slots h, fun hcurrent => ?_, hholds⟩
  obtain ⟨-, -, -, hepoch, hflow⟩ := hlater
  have := h.past
  omega

end

end X86Port.X64
