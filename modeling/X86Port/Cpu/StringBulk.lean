import X86Port.Cpu.StringOps
import X86Port.Memory.Grants

/-!
# The bulk path of MOVS and STOS

A forward repeated MOVS or STOS goes through one copy or one fill when the ranges resolve.
The ranges are resolved for reading, so the bulk path can write where the element loop
faults.

* `repLoop_movs`, `repLoop_stos`: over granted ranges the element loop is one copy, one fill.
* `granted_of_movs_ok`, `granted_of_stos_ok`: a loop that does not fault had every byte of its
  destination granted.
* `bulk_agrees_iff`: the two paths agree exactly when the resolved destination is writable.
-/

namespace X86Port.Cpu

open Memory Lib

/-! ## Ranges split at an element -/

section Ranges

variable {m : Mem} {access : U32}

theorem grantsRange_add {a p q : Nat} :
    m.GrantsRange access a (p + q) ↔
      m.GrantsRange access a p ∧ m.GrantsRange access (a + p) q := by
  constructor
  · intro h
    refine ⟨fun i hi => h i (by omega), fun i hi => ?_⟩
    rw [Nat.add_assoc]
    exact h (p + i) (by omega)
  · rintro ⟨h1, h2⟩ i hi
    rcases Nat.lt_or_ge i p with hlt | hge
    · exact h1 i hlt
    · have h := h2 (i - p) (by omega)
      rwa [Nat.add_assoc, Nat.add_sub_cancel' hge] at h

theorem grantsRange_zero {a : Nat} : m.GrantsRange access a 0 :=
  fun i hi => absurd hi (Nat.not_lt_zero i)

/-- A granted range lies in the window and below the end of the address space. -/
theorem grantsRange_bounds {a n : Nat} (hn : 0 < n) (h : m.GrantsRange access a n) :
    m.lo.toNat ≤ a ∧ a + n ≤ 2 ^ 32 := by
  obtain ⟨hlo, -, -, -⟩ := h 0 hn
  obtain ⟨-, -, hend, -⟩ := h (n - 1) (by omega)
  omega

/-- The pointer behind one element, when the range behind it does not wrap. -/
theorem toNat_add_width {x : U32} {w : Width} {n : Nat} (hn : 0 < n)
    (hx : x.toNat + w.bytes + n ≤ 2 ^ 32) :
    (x + BitVec.ofNat 32 w.bytes).toNat = x.toNat + w.bytes := by
  rw [BitVec.toNat_add, BitVec.toNat_ofNat, Nat.mod_eq_of_lt (show w.bytes < 2 ^ 32 by omega),
    Nat.mod_eq_of_lt (by omega)]

/-- The range behind one element, named by the pointer that moved there. -/
theorem grantsRange_next {x : U32} {w : Width} {n : Nat}
    (hx : x.toNat + (w.bytes + n) ≤ 2 ^ 32) :
    m.GrantsRange access (x + BitVec.ofNat 32 w.bytes).toNat n ↔
      m.GrantsRange access (x.toNat + w.bytes) n := by
  rcases Nat.eq_zero_or_pos n with rfl | hn
  · exact iff_of_true grantsRange_zero grantsRange_zero
  · rw [toNat_add_width hn (by omega)]

end Ranges

/-! ## The registers after a repeat -/

/-- The registers when a repeat of MOVS or STOS over `n` bytes has run out. -/
def afterRepeat (op : StringOp) (n : U32) (c : CpuState) : CpuState :=
  (advance op n c).setReg ecx 0

theorem edi_ne_ecx : edi ≠ ecx := by decide

theorem esi_ne_ecx : esi ≠ ecx := by decide

theorem edi_ne_esi : edi ≠ esi := by decide

/-- The pointers an operation moves. -/
def Moves (op : StringOp) (r : Reg) : Prop := r = edi ∨ op = .movs ∧ r = esi

instance (op : StringOp) (r : Reg) : Decidable (Moves op r) :=
  inferInstanceAs (Decidable (_ ∨ _))

theorem not_moves_ecx (op : StringOp) : ¬ Moves op ecx := by
  rintro (h | ⟨-, h⟩)
  · exact edi_ne_ecx h.symm
  · exact esi_ne_ecx h.symm

section Advance

variable {op : StringOp} (hop : op = .movs ∨ op = .stos) (c : CpuState) (delta n : U32)

include hop in
theorem advance_reg (r : Reg) :
    (advance op delta c).reg r = if Moves op r then c.reg r + delta else c.reg r := by
  rcases hop with rfl | rfl
  · by_cases hd : r = edi
    · simp [advance, Moves, hd]
    · by_cases hs : r = esi
      · simp [advance, Moves, hs, edi_ne_esi.symm]
      · simp [advance, Moves, hd, hs]
  · by_cases hd : r = edi
    · simp [advance, Moves, hd]
    · simp [advance, Moves, hd]

theorem advance_df : (advance op delta c).df = c.df ∧ (advance op delta c).flags = c.flags := by
  cases op <;> simp [advance]

include hop in
theorem afterRepeat_zero (hc : c.reg ecx = 0) : afterRepeat op 0#32 c = c := by
  ext1
  · funext r
    by_cases h : r = ecx
    · simp [afterRepeat, h, hc]
    · simp [afterRepeat, h, advance_reg hop]
  · exact (advance_df c 0).1
  · exact (advance_df c 0).2

include hop in
/-- One element and the repeat behind it. -/
theorem afterRepeat_step :
    afterRepeat op n ((advance op delta c).setReg ecx (c.reg ecx - 1)) =
      afterRepeat op (delta + n) c := by
  ext1
  · funext r
    by_cases h : r = ecx
    · simp [afterRepeat, h]
    · by_cases hm : Moves op r
      · simp [afterRepeat, h, advance_reg hop, hm, BitVec.add_assoc]
      · simp [afterRepeat, h, advance_reg hop, hm]
  · simp [afterRepeat, advance_df]
  · simp [afterRepeat, advance_df]

include hop in
theorem advance_edi :
    ((advance op delta c).setReg ecx n).reg edi = c.reg edi + delta := by
  simp [edi_ne_ecx, advance_reg hop, Moves]

theorem advance_esi :
    ((advance .movs delta c).setReg ecx n).reg esi = c.reg esi + delta := by
  simp [esi_ne_ecx, advance_reg (Or.inl rfl), Moves]

/-- STOS leaves the value it stores where it was. -/
theorem advance_eax (w : Width) :
    regRead ((advance .stos delta c).setReg ecx n) eax w = regRead c eax w := by
  have heax : ((advance .stos delta c).setReg ecx n).reg eax = c.reg eax := by
    simp [show eax ≠ ecx by decide, advance_reg (Or.inr rfl), Moves, show eax ≠ edi by decide]
  have hbyte : (byteReg eax).1 = eax := by decide
  cases w with
  | byte => rw [regRead, regRead, hbyte, heax]
  | word => rw [regRead, regRead, heax]
  | dword => rw [regRead, regRead, heax]

end Advance

/-! ## One element -/

section Step

variable {m : Mem} {w : Width} {s : Machine}

theorem notify_unobserved {h : Host} (hobs : h.observer = false) (addr n : U32) :
    h.notify addr n = h := by
  unfold Host.notify
  rw [hobs]
  rfl

theorem stepOnce_movs (hsparse : m.sparse = none) (hobs : s.host.observer = false)
    (delta : U32) :
    stepOnce m .movs w delta s = some
      (if m.GrantsRange memRead (s.cpu.reg esi).toNat w.bytes then
        if m.GrantsRange memWrite (s.cpu.reg edi).toNat w.bytes then
          .ok ⟨advance .movs delta s.cpu, s.host.copy (m.hostOf (s.cpu.reg edi).toNat)
            (m.hostOf (s.cpu.reg esi).toNat) w.bytes⟩
        else .error (s.cpu.reg edi)
      else .error (s.cpu.reg esi)) := by
  unfold stepOnce
  dsimp only
  rw [read_eq hsparse]
  by_cases hread : m.GrantsRange memRead (s.cpu.reg esi).toNat w.bytes
  · rw [if_pos hread, if_pos hread, Option.bind_some]
    dsimp only
    rw [write_eq hsparse, notify_unobserved hobs, store_valueOf_load]
    by_cases hwrite : m.GrantsRange memWrite (s.cpu.reg edi).toNat w.bytes
    · rw [if_pos hwrite, if_pos hwrite]
      rfl
    · rw [if_neg hwrite, if_neg hwrite]
      rfl
  · rw [if_neg hread, if_neg hread]
    rfl

theorem stepOnce_stos (hsparse : m.sparse = none) (hobs : s.host.observer = false)
    (delta : U32) :
    stepOnce m .stos w delta s = some
      (if m.GrantsRange memWrite (s.cpu.reg edi).toNat w.bytes then
        .ok ⟨advance .stos delta s.cpu, s.host.store (m.hostOf (s.cpu.reg edi).toNat)
          (bytesOf w.bytes (regRead s.cpu eax w))⟩
      else .error (s.cpu.reg edi)) := by
  unfold stepOnce
  dsimp only
  rw [write_eq hsparse, notify_unobserved hobs]
  by_cases hwrite : m.GrantsRange memWrite (s.cpu.reg edi).toNat w.bytes
  · rw [if_pos hwrite, if_pos hwrite]
    rfl
  · rw [if_neg hwrite, if_neg hwrite]
    rfl

/-- The state at the head of the next round. -/
def nextRound (s : Machine) : Machine :=
  { s with cpu := s.cpu.setReg ecx (s.cpu.reg ecx - 1) }

/-- A round of MOVS or STOS, which compare nothing. -/
theorem repLoop_succ {op : StringOp} (hop : op = .movs ∨ op = .stos) {delta : U32} {k : Nat}
    (hcount : (s.cpu.reg ecx).toNat = k + 1) :
    repLoop m op .rep w delta (k + 1) s = (stepOnce m op w delta s).bind fun
      | .error fault => some ⟨.fault, fault, s⟩
      | .ok s => repLoop m op .rep w delta k (nextRound s) := by
  have hne : s.cpu.reg ecx ≠ 0 := by
    intro h
    rw [h] at hcount
    exact absurd hcount (Nat.succ_ne_zero k).symm
  have hstops : ∀ f, repStops op .rep f = false := by
    intro f
    rcases hop with rfl | rfl <;> rfl
  rw [repLoop, if_pos hne]
  congr 1
  funext out
  cases out with
  | error fault => rfl
  | ok s =>
    dsimp only
    rw [hstops]
    rfl

/-- The count after an element. -/
theorem nextRound_ecx {op : StringOp} {delta : U32} {h : Host} {k : Nat}
    (hop : op = .movs ∨ op = .stos) (hcount : (s.cpu.reg ecx).toNat = k + 1) :
    nextRound ⟨advance op delta s.cpu, h⟩ =
        ⟨(advance op delta s.cpu).setReg ecx (s.cpu.reg ecx - 1), h⟩ ∧
      (s.cpu.reg ecx - 1).toNat = k := by
  constructor
  · unfold nextRound
    rw [advance_reg hop, if_neg (not_moves_ecx op)]
  · bv_omega

end Step

/-! ## The loop over granted ranges -/

section Loop

variable {m : Mem} {w : Width}

theorem hostOf_add {a k : Nat} (ha : m.lo.toNat ≤ a) : m.hostOf (a + k) = m.hostOf a + k := by
  unfold Mem.hostOf
  omega

/-- A range behind the first element of a granted range: its host bytes lie behind too. -/
theorem hostOf_next {access : U32} {x : U32} {n : Nat} (hn : 0 < n)
    (hx : m.GrantsRange access x.toNat (w.bytes + n)) :
    m.hostOf (x + BitVec.ofNat 32 w.bytes).toNat = m.hostOf x.toNat + w.bytes := by
  obtain ⟨hlo, hend⟩ := grantsRange_bounds (by omega) hx
  rw [toNat_add_width hn (by omega), hostOf_add hlo]

theorem ofNat_succ_mul (k : Nat) :
    BitVec.ofNat 32 w.bytes + BitVec.ofNat 32 (k * w.bytes) =
      BitVec.ofNat 32 ((k + 1) * w.bytes) := by
  rw [BitVec.ofNat_add_ofNat, Nat.succ_mul, Nat.add_comm]

theorem repLoop_movs (hsparse : m.sparse = none) (k : Nat) :
    ∀ s : Machine, s.host.observer = false → (s.cpu.reg ecx).toNat = k →
      m.GrantsRange memRead (s.cpu.reg esi).toNat (k * w.bytes) →
      m.GrantsRange memWrite (s.cpu.reg edi).toNat (k * w.bytes) →
      ((s.cpu.reg esi).toNat + k * w.bytes ≤ (s.cpu.reg edi).toNat ∨
        (s.cpu.reg edi).toNat + k * w.bytes ≤ (s.cpu.reg esi).toNat) →
      repLoop m .movs .rep w (BitVec.ofNat 32 w.bytes) k s =
        some ⟨.ok, 0, ⟨afterRepeat .movs (BitVec.ofNat 32 (k * w.bytes)) s.cpu,
          s.host.copy (m.hostOf (s.cpu.reg edi).toNat) (m.hostOf (s.cpu.reg esi).toNat)
            (k * w.bytes)⟩⟩ := by
  induction k with
  | zero =>
    intro s _ hcount _ _ _
    have hzero : s.cpu.reg ecx = 0 := BitVec.eq_of_toNat_eq hcount
    rw [Nat.zero_mul, afterRepeat_zero (Or.inl rfl) s.cpu hzero, Host.copy, Bytes.copy_zero]
    rfl
  | succ k ih =>
    intro s hobs hcount hread hwrite hapart
    have hw := (bytes_ne_zero w).1
    rw [Nat.succ_mul, Nat.add_comm] at hread hwrite hapart
    obtain ⟨hread1, hread2⟩ := grantsRange_add.mp hread
    obtain ⟨hwrite1, hwrite2⟩ := grantsRange_add.mp hwrite
    have hreadEnd := (grantsRange_bounds (by omega) hread)
    have hwriteEnd := (grantsRange_bounds (by omega) hwrite)
    obtain ⟨hnext, hcount'⟩ := @nextRound_ecx s .movs (BitVec.ofNat 32 w.bytes)
      (s.host.copy (m.hostOf (s.cpu.reg edi).toNat) (m.hostOf (s.cpu.reg esi).toNat) w.bytes)
      k (Or.inl rfl) hcount
    rw [repLoop_succ (Or.inl rfl) hcount, stepOnce_movs hsparse hobs, if_pos hread1,
      if_pos hwrite1, Option.bind_some]
    dsimp only
    rw [hnext, ih]
    · rw [afterRepeat_step (Or.inl rfl), ofNat_succ_mul, advance_esi, advance_edi (Or.inl rfl)]
      congr 3
      rw [Host.copy, Host.copy, Host.copy]
      congr 1
      rcases Nat.eq_zero_or_pos (k * w.bytes) with hk | hk
      · rw [hk, Bytes.copy_zero, Nat.succ_mul, hk, Nat.zero_add]
      · rw [hostOf_next hk hread, hostOf_next hk hwrite, Nat.succ_mul, Nat.add_comm (k * w.bytes)]
        apply Bytes.copy_copy
        intro x h1 h2 h3
        unfold Mem.hostOf at h1 h2 h3
        omega
    · exact hobs
    · exact hcount'
    · rw [advance_esi, grantsRange_next (by omega)]
      exact hread2
    · rw [advance_edi (Or.inl rfl), grantsRange_next (by omega)]
      exact hwrite2
    · rcases Nat.eq_zero_or_pos (k * w.bytes) with hk | hk
      · omega
      · rw [advance_esi, advance_edi (Or.inl rfl), toNat_add_width hk (by omega),
          toNat_add_width hk (by omega)]
        omega

/-- The bytes of a fill unit. -/
def unitByte (w : Width) (value : U32) (i : Nat) : U8 := (bytesOf w.bytes value).getD i 0

/-- A host whose range of `n` bytes repeats the low bytes of a value. -/
def tiled (h : Host) (dst n : Nat) (w : Width) (value : U32) : Host :=
  { h with bytes := Bytes.tile h.bytes dst n (unitByte w value) w.bytes }

theorem store_tile_unit (h : Host) (dst n : Nat) (w : Width) (value : U32) :
    tiled (h.store dst (bytesOf w.bytes value)) (dst + w.bytes) n w value =
      tiled h dst (w.bytes + n) w value := by
  have hlen := length_bytesOf w.bytes value
  have hpos := (bytes_ne_zero w).1
  have htile := @Bytes.store_tile _ h.bytes dst n (unitByte w value) (bytesOf w.bytes value)
    (by omega) (fun i hi => (List.getD_eq_getElem _ 0 hi).symm)
  rw [hlen] at htile
  unfold tiled Host.store
  rw [htile]

theorem tile_nothing (h : Host) (dst : Nat) (w : Width) (value : U32) :
    tiled h dst 0 w value = h := by
  unfold tiled
  rw [Bytes.tile_zero]

theorem repLoop_stos (hsparse : m.sparse = none) (k : Nat) :
    ∀ s : Machine, s.host.observer = false → (s.cpu.reg ecx).toNat = k →
      m.GrantsRange memWrite (s.cpu.reg edi).toNat (k * w.bytes) →
      repLoop m .stos .rep w (BitVec.ofNat 32 w.bytes) k s =
        some ⟨.ok, 0, ⟨afterRepeat .stos (BitVec.ofNat 32 (k * w.bytes)) s.cpu,
          tiled s.host (m.hostOf (s.cpu.reg edi).toNat) (k * w.bytes) w
            (regRead s.cpu eax w)⟩⟩ := by
  induction k with
  | zero =>
    intro s _ hcount _
    have hzero : s.cpu.reg ecx = 0 := BitVec.eq_of_toNat_eq hcount
    rw [Nat.zero_mul, afterRepeat_zero (Or.inr rfl) s.cpu hzero, tile_nothing]
    rfl
  | succ k ih =>
    intro s hobs hcount hwrite
    have hw := (bytes_ne_zero w).1
    rw [Nat.succ_mul, Nat.add_comm] at hwrite
    obtain ⟨hwrite1, hwrite2⟩ := grantsRange_add.mp hwrite
    have hwriteEnd := (grantsRange_bounds (by omega) hwrite)
    obtain ⟨hnext, hcount'⟩ := @nextRound_ecx s .stos (BitVec.ofNat 32 w.bytes)
      (s.host.store (m.hostOf (s.cpu.reg edi).toNat) (bytesOf w.bytes (regRead s.cpu eax w)))
      k (Or.inr rfl) hcount
    rw [repLoop_succ (Or.inr rfl) hcount, stepOnce_stos hsparse hobs, if_pos hwrite1,
      Option.bind_some]
    dsimp only
    rw [hnext, ih]
    · rw [afterRepeat_step (Or.inr rfl), ofNat_succ_mul, advance_eax, advance_edi (Or.inr rfl)]
      congr 3
      rw [Nat.succ_mul, Nat.add_comm (k * w.bytes)]
      rcases Nat.eq_zero_or_pos (k * w.bytes) with hk | hk
      · rw [hk, ← store_tile_unit, tile_nothing, tile_nothing]
      · rw [hostOf_next hk hwrite, store_tile_unit]
    · exact hobs
    · exact hcount'
    · rw [advance_edi (Or.inr rfl), grantsRange_next (by omega)]
      exact hwrite2

/-! ## A loop that does not fault -/

theorem stepOnce_cases {op : StringOp} (hop : op = .movs ∨ op = .stos)
    (hsparse : m.sparse = none) {s : Machine} (hobs : s.host.observer = false) (delta : U32) :
    (∃ fault, stepOnce m op w delta s = some (.error fault)) ∨
    ∃ h : Host, stepOnce m op w delta s = some (.ok ⟨advance op delta s.cpu, h⟩) ∧
      h.observer = false ∧ m.GrantsRange memWrite (s.cpu.reg edi).toNat w.bytes := by
  rcases hop with rfl | rfl
  · rw [stepOnce_movs hsparse hobs]
    by_cases hread : m.GrantsRange memRead (s.cpu.reg esi).toNat w.bytes
    · rw [if_pos hread]
      by_cases hwrite : m.GrantsRange memWrite (s.cpu.reg edi).toNat w.bytes
      · rw [if_pos hwrite]
        exact Or.inr ⟨_, rfl, hobs, hwrite⟩
      · rw [if_neg hwrite]
        exact Or.inl ⟨_, rfl⟩
    · rw [if_neg hread]
      exact Or.inl ⟨_, rfl⟩
  · rw [stepOnce_stos hsparse hobs]
    by_cases hwrite : m.GrantsRange memWrite (s.cpu.reg edi).toNat w.bytes
    · rw [if_pos hwrite]
      exact Or.inr ⟨_, rfl, hobs, hwrite⟩
    · rw [if_neg hwrite]
      exact Or.inl ⟨_, rfl⟩

/-- The loop always has a result, and one without a fault had its destination granted. -/
theorem repLoop_granted {op : StringOp} (hop : op = .movs ∨ op = .stos)
    (hsparse : m.sparse = none) (k : Nat) :
    ∀ s : Machine, s.host.observer = false → (s.cpu.reg ecx).toNat = k →
      ∃ r, repLoop m op .rep w (BitVec.ofNat 32 w.bytes) k s = some r ∧
        ((s.cpu.reg edi).toNat + k * w.bytes ≤ 2 ^ 32 → r.status = .ok →
          m.GrantsRange memWrite (s.cpu.reg edi).toNat (k * w.bytes)) := by
  induction k with
  | zero =>
    intro s _ _
    refine ⟨_, rfl, fun _ _ => ?_⟩
    rw [Nat.zero_mul]
    exact grantsRange_zero
  | succ k ih =>
    intro s hobs hcount
    rw [repLoop_succ hop hcount]
    rcases stepOnce_cases hop hsparse hobs (BitVec.ofNat 32 w.bytes) with
      ⟨fault, hstep⟩ | ⟨h, hstep, hobs', hgrant⟩
    · rw [hstep]
      exact ⟨_, rfl, fun _ hok => by cases hok⟩
    · obtain ⟨hnext, hcount'⟩ := @nextRound_ecx s op (BitVec.ofNat 32 w.bytes) h k hop hcount
      obtain ⟨r, hr, hrest⟩ := ih ⟨(advance op (BitVec.ofNat 32 w.bytes) s.cpu).setReg ecx
        (s.cpu.reg ecx - 1), h⟩ hobs' hcount'
      rw [hstep, Option.bind_some]
      dsimp only
      rw [hnext]
      refine ⟨r, hr, fun hend hok => ?_⟩
      rw [Nat.succ_mul, Nat.add_comm (k * w.bytes)] at hend ⊢
      rw [advance_edi hop, grantsRange_next hend] at hrest
      refine grantsRange_add.mpr ⟨hgrant, hrest ?_ hok⟩
      rcases Nat.eq_zero_or_pos (k * w.bytes) with hk | hk
      · omega
      · rw [toNat_add_width hk (by omega)]
        omega

end Loop

/-! ## One fill -/

section Fill

variable {m : Mem} {w : Width}

theorem copy_tiled {h : Host} {dst filled chunk : Nat} {value : U32} (hdvd : w.bytes ∣ filled)
    (hchunk : chunk ≤ filled) :
    (tiled h dst filled w value).copy (dst + filled) dst chunk =
      tiled h dst (filled + chunk) w value := by
  unfold tiled Host.copy
  rw [Bytes.copy_tile hdvd hchunk]

/-- What is written stays a whole number of units until the last round. -/
theorem fillLoop_tiled {h : Host} {dst bytes : Nat} {value : U32} (hbytes : w.bytes ∣ bytes)
    (fuel : Nat) :
    ∀ filled, 0 < filled → filled ≤ bytes → w.bytes ∣ filled → bytes - filled ≤ fuel →
      fillLoop dst bytes fuel (tiled h dst filled w value) filled = tiled h dst bytes w value := by
  induction fuel with
  | zero =>
    intro filled _ hle _ hfuel
    rw [show filled = bytes by omega]
    rfl
  | succ fuel ih =>
    intro filled hpos hle hdvd hfuel
    unfold fillLoop
    by_cases hmore : filled < bytes
    · rw [if_pos hmore]
      dsimp only
      by_cases hhalf : filled < bytes - filled
      · rw [if_pos hhalf, copy_tiled hdvd (Nat.le_refl filled)]
        exact ih _ (by omega) (by omega) (Nat.dvd_add hdvd hdvd) (by omega)
      · rw [if_neg hhalf, copy_tiled hdvd (by omega)]
        exact ih _ (by omega) (by omega) (Nat.dvd_add hdvd (Nat.dvd_sub hbytes hdvd)) (by omega)
    · rw [if_neg hmore, show filled = bytes by omega]

theorem unitRepeatsOneByte_iff (unit : List U8) :
    unitRepeatsOneByte unit = true ↔ ∀ b ∈ unit, b = unit.headD 0 := by
  simp [unitRepeatsOneByte]

/-- `memset` over whole units of one byte. -/
theorem store_replicate_tiled {h : Host} {dst bytes : Nat} {value : U32}
    (hsame : unitRepeatsOneByte (bytesOf w.bytes value) = true) :
    h.store dst (List.replicate bytes ((bytesOf w.bytes value).headD 0)) =
      tiled h dst bytes w value := by
  rw [unitRepeatsOneByte_iff] at hsame
  unfold Host.store tiled
  congr 1
  funext x
  rw [Bytes.store_apply, List.length_replicate]
  unfold Bytes.tile
  by_cases hx : dst ≤ x ∧ x < dst + bytes
  · have hlen := length_bytesOf w.bytes value
    have hmod := Nat.mod_lt (x - dst) (Nat.pos_of_ne_zero (bytes_ne_zero w).1)
    have hunit : (x - dst) % w.bytes < (bytesOf w.bytes value).length := by omega
    rw [if_pos hx, if_pos hx, unitByte, List.getD_eq_getElem _ 0 hunit,
      hsame _ (List.getElem_mem hunit), List.getD_replicate _ (by omega)]
  · rw [if_neg hx, if_neg hx]

/-- A length that fits names itself. -/
theorem toNat_bulkLength {count : U32} (hcount : count ≠ 0)
    (hbytes : count.toNat * w.bytes ≤ 2 ^ 32 - 1) :
    (BitVec.ofNat 32 (count.toNat * w.bytes)).toNat = count.toNat * w.bytes ∧
      BitVec.ofNat 32 (count.toNat * w.bytes) ≠ 0 := by
  have hcountPos : 0 < count.toNat := by bv_omega
  have hpos := Nat.mul_pos hcountPos (Nat.pos_of_ne_zero (bytes_ne_zero w).1)
  have hn : (BitVec.ofNat 32 (count.toNat * w.bytes)).toNat = count.toNat * w.bytes := by
    rw [BitVec.toNat_ofNat, Nat.mod_eq_of_lt (by omega)]
  refine ⟨hn, fun hzero => ?_⟩
  rw [hzero] at hn
  exact absurd hn (Nat.ne_of_lt hpos)

variable {h : Host} {addr count value : U32}

/-- A fill that is not refused outright asks for its range. -/
theorem fill_asks (hsparse : m.sparse = none) (hobs : h.observer = false) (hcount : count ≠ 0)
    (hbytes : count.toNat * w.bytes ≤ 2 ^ 32 - 1) :
    fill m h addr (bytesOf w.bytes value) count =
      (resolve m addr (BitVec.ofNat 32 (count.toNat * w.bytes))).bind fun
        | none => some none
        | some destination =>
          if unitRepeatsOneByte (bytesOf w.bytes value) then
            some (some (h.store destination (List.replicate (count.toNat * w.bytes)
              ((bytesOf w.bytes value).headD 0))))
          else
            some (some (fillLoop destination (count.toNat * w.bytes) (count.toNat * w.bytes)
              (h.store destination (bytesOf w.bytes value)) w.bytes)) := by
  have hwidth : w.bytes = 1 ∨ w.bytes = 2 ∨ w.bytes = 4 := by cases w <;> decide
  unfold fill
  dsimp only
  rewrite [length_bytesOf, Nat.mul_comm w.bytes, if_neg, if_neg]
  · rfl
  · rw [hsparse, hobs]
    decide
  · rintro (hzero | hwide | hlong)
    · exact hcount hzero
    · omega
    · omega

/-- A fill goes through when its range is readable. -/
theorem fill_eq (hsparse : m.sparse = none) (hobs : h.observer = false) (hcount : count ≠ 0)
    (hbytes : count.toNat * w.bytes ≤ 2 ^ 32 - 1)
    (hsafe : ¬ m.Overruns memRead addr.toNat (count.toNat * w.bytes)) :
    fill m h addr (bytesOf w.bytes value) count = some
      (if m.GrantsRange memRead addr.toNat (count.toNat * w.bytes) then
        some (tiled h (m.hostOf addr.toNat) (count.toNat * w.bytes) w value)
      else none) := by
  obtain ⟨hn, hne⟩ := toNat_bulkLength hcount hbytes
  have hw := (bytes_ne_zero w).1
  have hfirst : w.bytes ≤ count.toNat * w.bytes := Nat.le_mul_of_pos_left _ (by bv_omega)
  rw [fill_asks hsparse hobs hcount hbytes, resolve_eq hsparse hne (by rwa [hn]), hn]
  by_cases hread : m.GrantsRange memRead addr.toNat (count.toNat * w.bytes)
  · rw [if_pos hread, if_pos hread, Option.bind_some]
    dsimp only
    by_cases hsame : unitRepeatsOneByte (bytesOf w.bytes value) = true
    · rw [if_pos hsame, store_replicate_tiled hsame]
    · rw [if_neg hsame, ← tile_nothing (h.store _ _) (m.hostOf addr.toNat + w.bytes) w value,
        store_tile_unit, Nat.add_zero, fillLoop_tiled (Nat.dvd_mul_left _ _) _ _ (by omega)
          hfirst (Nat.dvd_refl _) (by omega)]
  · rw [if_neg hread, if_neg hread]
    rfl

theorem fill_of_overruns (hsparse : m.sparse = none) (hobs : h.observer = false)
    (hcount : count ≠ 0) (hbytes : count.toNat * w.bytes ≤ 2 ^ 32 - 1)
    (hover : m.Overruns memRead addr.toNat (count.toNat * w.bytes)) :
    fill m h addr (bytesOf w.bytes value) count = none := by
  obtain ⟨hn, hne⟩ := toNat_bulkLength hcount hbytes
  rw [fill_asks hsparse hobs hcount hbytes, resolve_of_overruns hsparse hne (by rwa [hn])]
  rfl

end Fill

/-! ## One copy -/

section Copy

variable {m : Mem} {h : Host} {dst src n : U32}

/-- What the bulk copy takes: both ranges readable and apart. -/
def CopyAdmitted (m : Mem) (src dst n : Nat) : Prop :=
  m.GrantsRange memRead src n ∧ m.GrantsRange memRead dst n ∧
    (src + n ≤ dst ∨ dst + n ≤ src)

/-- The two walks of the bulk copy stay in the permission table. -/
def CopyInside (m : Mem) (src dst n : Nat) : Prop :=
  ¬ m.Overruns memRead src n ∧
    (m.GrantsRange memRead src n → ¬ m.Overruns memRead dst n)

theorem copyDisjoint_asks (hsparse : m.sparse = none) (hobs : h.observer = false) :
    copyDisjoint m h dst src n =
      (resolve m src n).bind fun
        | none => some none
        | some source =>
          (resolve m dst n).bind fun
            | none => some none
            | some destination =>
              if src.toNat < dst.toNat + n.toNat ∧ dst.toNat < src.toNat + n.toNat then
                some none
              else
                some (some (h.copy destination source n.toNat)) := by
  unfold copyDisjoint
  rewrite [if_neg (by rw [hsparse, hobs]; decide)]
  rfl

theorem copyDisjoint_admitted (hsparse : m.sparse = none) (hobs : h.observer = false)
    (hn : n ≠ 0) (hinside : CopyInside m src.toNat dst.toNat n.toNat)
    (hadmits : CopyAdmitted m src.toNat dst.toNat n.toNat) :
    copyDisjoint m h dst src n =
      some (some (h.copy (m.hostOf dst.toNat) (m.hostOf src.toNat) n.toNat)) := by
  obtain ⟨hsrc, hdst, hapart⟩ := hadmits
  rw [copyDisjoint_asks hsparse hobs, resolve_eq hsparse hn hinside.1, if_pos hsrc,
    Option.bind_some]
  dsimp only
  rw [resolve_eq hsparse hn (hinside.2 hsrc), if_pos hdst, Option.bind_some]
  dsimp only
  rw [if_neg (by omega)]

theorem copyDisjoint_refused (hsparse : m.sparse = none) (hobs : h.observer = false)
    (hn : n ≠ 0) (hinside : CopyInside m src.toNat dst.toNat n.toNat)
    (hrefuse : ¬ CopyAdmitted m src.toNat dst.toNat n.toNat) :
    copyDisjoint m h dst src n = some none := by
  rw [copyDisjoint_asks hsparse hobs, resolve_eq hsparse hn hinside.1]
  by_cases hsrc : m.GrantsRange memRead src.toNat n.toNat
  · rw [if_pos hsrc, Option.bind_some]
    dsimp only
    rw [resolve_eq hsparse hn (hinside.2 hsrc)]
    by_cases hdst : m.GrantsRange memRead dst.toNat n.toNat
    · rw [if_pos hdst, Option.bind_some]
      dsimp only
      rw [if_pos]
      by_contra hapart
      exact hrefuse ⟨hsrc, hdst, by omega⟩
    · rw [if_neg hdst]
      rfl
  · rw [if_neg hsrc]
    rfl

theorem copyDisjoint_undefined (hsparse : m.sparse = none) (hobs : h.observer = false)
    (hn : n ≠ 0) (houtside : ¬ CopyInside m src.toNat dst.toNat n.toNat) :
    copyDisjoint m h dst src n = none := by
  rw [copyDisjoint_asks hsparse hobs]
  by_cases hover : m.Overruns memRead src.toNat n.toNat
  · rw [resolve_of_overruns hsparse hn hover]
    rfl
  · have hdst : m.GrantsRange memRead src.toNat n.toNat ∧
        m.Overruns memRead dst.toNat n.toNat := by
      by_contra hnot
      exact houtside ⟨hover, fun hsrc hdst => hnot ⟨hsrc, hdst⟩⟩
    rw [resolve_eq hsparse hn hover, if_pos hdst.1, Option.bind_some]
    dsimp only
    rw [resolve_of_overruns hsparse hn hdst.2]
    rfl

end Copy

/-! ## Agreement -/

/-- The bytes a repeat covers. -/
def repeatBytes (w : Width) (c : CpuState) : Nat := (c.reg ecx).toNat * w.bytes

/-- Where the bulk path does what the element loop does: the memory is sparse, the repeat is
empty or too long, or the walks stay in the permission table and a destination that would be
taken is writable. -/
def BulkSound (m : Mem) (op : StringOp) (w : Width) (c : CpuState) : Prop :=
  m.sparse = none → c.reg ecx ≠ 0 → repeatBytes w c ≤ 2 ^ 32 - 1 →
    let src := (c.reg esi).toNat
    let dst := (c.reg edi).toNat
    let n := repeatBytes w c
    if op = .movs then
      CopyInside m src dst n ∧ (CopyAdmitted m src dst n → m.GrantsRange memWrite dst n)
    else
      ¬ m.Overruns memRead dst n ∧
        (m.GrantsRange memRead dst n → m.GrantsRange memWrite dst n)

section Agree

variable {m : Mem} {w : Width} {s : Machine}

/-- A bulk path that refuses leaves the element loop. -/
theorem stringExecute_eq {insn : StringInsn} (hstr : insn.str = .movs ∨ insn.str = .stos)
    (hrep : insn.rep = .rep) (hw : insn.strWidth = w.bytes) (hdf : s.cpu.df = false) :
    stringExecute m insn s = (bulkString m insn.str w s).bind fun
      | some s => some ⟨.ok, 0, s⟩
      | none => elementLoop m insn.str .rep w (stride false w) s := by
  have hwidth : Width.ofBytes insn.strWidth = some w := by
    rw [hw]
    cases w <;> rfl
  have hsupported : stringIsSupported insn.str insn.rep insn.strWidth = true := by
    unfold stringIsSupported
    rw [hwidth, hrep]
    rcases hstr with h | h <;> rw [h] <;> rfl
  unfold stringExecute
  rw [if_pos hsupported, hwidth, Option.bind_some]
  dsimp only
  rewrite [if_neg (by rw [hrep]; decide), hrep, hdf]
  rfl

theorem bulkString_movs (hdf : s.cpu.df = false) : bulkString m .movs w s = bulkMovs m w s := by
  unfold bulkString
  rw [hdf]
  rfl

theorem bulkString_stos (hdf : s.cpu.df = false) : bulkString m .stos w s = bulkStos m w s := by
  unfold bulkString
  rw [hdf]
  rfl

/-- Outside the range of the bulk path there is only the loop. -/
theorem bulkString_refused {op : StringOp} (hop : op = .movs ∨ op = .stos)
    (hdf : s.cpu.df = false)
    (hout : m.sparse ≠ none ∨ s.cpu.reg ecx = 0 ∨ ¬ repeatBytes w s.cpu ≤ 2 ^ 32 - 1) :
    bulkString m op w s = some none := by
  have hsome : m.sparse ≠ none ↔ m.sparse.isSome = true := by
    rw [Option.isSome_iff_ne_none]
  rcases hop with rfl | rfl
  · rw [bulkString_movs hdf]
    unfold bulkMovs
    dsimp only
    by_cases hlong : (s.cpu.reg ecx).toNat * w.bytes ≤ 2 ^ 32 - 1
    · rw [if_pos hlong]
      rcases hout with h | h | h
      · unfold copyDisjoint
        rw [if_pos (Or.inl (hsome.mp h))]
        rfl
      · have hzero : BitVec.ofNat 32 ((s.cpu.reg ecx).toNat * w.bytes) = 0 := by
          rw [h]
          simp
        unfold copyDisjoint
        rw [hzero]
        by_cases hno : m.sparse.isSome = true ∨ s.host.observer = true
        · rw [if_pos hno]
          rfl
        · rw [if_neg hno, resolve_zero (by simpa using fun h => hno (Or.inl h))]
          rfl
      · exact absurd hlong h
    · rw [if_neg hlong]
  · rw [bulkString_stos hdf]
    unfold bulkStos fill
    dsimp only
    rw [length_bytesOf, Nat.mul_comm w.bytes]
    by_cases hfirst : s.cpu.reg ecx = 0 ∨ (w.bytes ≠ 1 ∧ w.bytes ≠ 2 ∧ w.bytes ≠ 4) ∨
        (s.cpu.reg ecx).toNat * w.bytes > 2 ^ 32 - 1
    · rw [if_pos hfirst]
      rfl
    · rcases hout with h | h | h
      · rw [if_neg hfirst, if_pos (Or.inl (hsome.mp h))]
        rfl
      · exact absurd (Or.inl h) hfirst
      · exact absurd (Or.inr (Or.inr (Nat.lt_of_not_le h))) hfirst

/-- The bulk path on a contiguous memory, with a length it can name. -/
structure BulkRange (m : Mem) (w : Width) (s : Machine) : Prop where
  sparse : m.sparse = none
  unobserved : s.host.observer = false
  forward : s.cpu.df = false
  count : s.cpu.reg ecx ≠ 0
  fits : repeatBytes w s.cpu ≤ 2 ^ 32 - 1

/-- The bulk path of MOVS, by what the copy answers. -/
theorem bulkMovs_eq (hr : BulkRange m w s) :
    bulkString m .movs w s =
      (copyDisjoint m s.host (s.cpu.reg edi) (s.cpu.reg esi)
        (BitVec.ofNat 32 (repeatBytes w s.cpu))).map fun out => out.map fun host =>
          ⟨afterRepeat .movs (BitVec.ofNat 32 (repeatBytes w s.cpu)) s.cpu, host⟩ := by
  rw [bulkString_movs hr.forward]
  unfold bulkMovs
  dsimp only
  have hfits := hr.fits
  unfold repeatBytes at hfits ⊢
  rw [if_pos hfits]
  congr 1
  funext out
  cases out with
  | none => rfl
  | some host =>
    have hedi : (s.cpu.setReg esi (s.cpu.reg esi +
        BitVec.ofNat 32 ((s.cpu.reg ecx).toNat * w.bytes))).reg edi = s.cpu.reg edi := by
      rw [setReg_reg, Function.update_of_ne edi_ne_esi]
    dsimp only
    rw [hedi]
    rfl

/-- The bulk path of STOS, by what the fill answers. -/
theorem bulkStos_eq (hr : BulkRange m w s) :
    bulkString m .stos w s =
      (fill m s.host (s.cpu.reg edi) (bytesOf w.bytes (regRead s.cpu eax w))
        (s.cpu.reg ecx)).map fun out => out.map fun host =>
          ⟨afterRepeat .stos (BitVec.ofNat 32 (repeatBytes w s.cpu)) s.cpu, host⟩ := by
  have hlen : s.cpu.reg ecx * BitVec.ofNat 32 w.bytes =
      BitVec.ofNat 32 (repeatBytes w s.cpu) := by
    apply BitVec.eq_of_toNat_eq
    rw [BitVec.toNat_mul, BitVec.toNat_ofNat, BitVec.toNat_ofNat, Nat.mul_mod_mod]
    rfl
  rw [bulkString_stos hr.forward]
  unfold bulkStos
  dsimp only
  rw [hlen]
  congr 1
  funext out
  cases out <;> rfl

theorem elementLoop_eq (op : StringOp) :
    elementLoop m op .rep w (stride false w) s =
      repLoop m op .rep w (BitVec.ofNat 32 w.bytes) (s.cpu.reg ecx).toNat s := rfl

/-- The result both paths give when nothing faults. -/
def bulkResult (m : Mem) (op : StringOp) (w : Width) (s : Machine) : Machine :=
  let dst := m.hostOf (s.cpu.reg edi).toNat
  let src := m.hostOf (s.cpu.reg esi).toNat
  let n := repeatBytes w s.cpu
  ⟨afterRepeat op (BitVec.ofNat 32 n) s.cpu,
    if op = .movs then s.host.copy dst src n
    else tiled s.host dst n w (regRead s.cpu eax w)⟩

/-- What the bulk path answers: it is undefined, refused, or taken. -/
inductive BulkAnswer (m : Mem) (op : StringOp) (w : Width) (s : Machine) : Prop where
  | undefined (houtside : ¬ BulkSound m op w s.cpu) (h : bulkString m op w s = none)
  | refused (hsound : BulkSound m op w s.cpu) (h : bulkString m op w s = some none)
  | taken (h : bulkString m op w s = some (some (bulkResult m op w s)))
    (hfits : (s.cpu.reg edi).toNat + repeatBytes w s.cpu ≤ 2 ^ 32)
    (hsound : BulkSound m op w s.cpu ↔
      m.GrantsRange memWrite (s.cpu.reg edi).toNat (repeatBytes w s.cpu))
    (hloop : m.GrantsRange memWrite (s.cpu.reg edi).toNat (repeatBytes w s.cpu) →
      elementLoop m op .rep w (stride false w) s = some ⟨.ok, 0, bulkResult m op w s⟩)

theorem bulkSound_iff (hr : BulkRange m w s) (op : StringOp) :
    BulkSound m op w s.cpu ↔
      if op = .movs then
        CopyInside m (s.cpu.reg esi).toNat (s.cpu.reg edi).toNat (repeatBytes w s.cpu) ∧
          (CopyAdmitted m (s.cpu.reg esi).toNat (s.cpu.reg edi).toNat (repeatBytes w s.cpu) →
            m.GrantsRange memWrite (s.cpu.reg edi).toNat (repeatBytes w s.cpu))
      else
        ¬ m.Overruns memRead (s.cpu.reg edi).toNat (repeatBytes w s.cpu) ∧
          (m.GrantsRange memRead (s.cpu.reg edi).toNat (repeatBytes w s.cpu) →
            m.GrantsRange memWrite (s.cpu.reg edi).toNat (repeatBytes w s.cpu)) :=
  ⟨fun h => h hr.sparse hr.count hr.fits, fun h _ _ _ => h⟩

theorem repeatBytes_pos (hr : BulkRange m w s) : 0 < repeatBytes w s.cpu := by
  have := hr.count
  exact Nat.mul_pos (by bv_omega) (Nat.pos_of_ne_zero (bytes_ne_zero w).1)

theorem movs_answer (hr : BulkRange m w s) : BulkAnswer m .movs w s := by
  obtain ⟨hn, hne⟩ : (BitVec.ofNat 32 (repeatBytes w s.cpu)).toNat = repeatBytes w s.cpu ∧
      BitVec.ofNat 32 (repeatBytes w s.cpu) ≠ 0 := toNat_bulkLength hr.count hr.fits
  have hsound := bulkSound_iff hr .movs
  rw [if_pos rfl] at hsound
  by_cases hinside : CopyInside m (s.cpu.reg esi).toNat (s.cpu.reg edi).toNat
      (repeatBytes w s.cpu)
  · by_cases hadmits : CopyAdmitted m (s.cpu.reg esi).toNat (s.cpu.reg edi).toNat
        (repeatBytes w s.cpu)
    · refine BulkAnswer.taken ?_ (grantsRange_bounds (repeatBytes_pos hr) hadmits.2.1).2 ?_ ?_
      · rw [bulkMovs_eq hr, copyDisjoint_admitted hr.sparse hr.unobserved hne
          (by rw [hn]; exact hinside) (by rw [hn]; exact hadmits), hn]
        rfl
      · rw [hsound]
        exact ⟨fun h => h.2 hadmits, fun h => ⟨hinside, fun _ => h⟩⟩
      · intro hwrite
        rw [elementLoop_eq, repLoop_movs hr.sparse _ s hr.unobserved rfl hadmits.1 hwrite
          hadmits.2.2]
        rfl
    · refine BulkAnswer.refused (hsound.mpr ⟨hinside, fun h => absurd h hadmits⟩) ?_
      rw [bulkMovs_eq hr, copyDisjoint_refused hr.sparse hr.unobserved hne
        (by rw [hn]; exact hinside) (by rw [hn]; exact hadmits)]
      rfl
  · refine BulkAnswer.undefined (fun h => hinside (hsound.mp h).1) ?_
    rw [bulkMovs_eq hr, copyDisjoint_undefined hr.sparse hr.unobserved hne
      (by rw [hn]; exact hinside)]
    rfl

theorem stos_answer (hr : BulkRange m w s) : BulkAnswer m .stos w s := by
  have hsound := bulkSound_iff hr .stos
  rw [if_neg (by decide)] at hsound
  have hlen : (s.cpu.reg ecx).toNat * w.bytes = repeatBytes w s.cpu := rfl
  by_cases hover : m.Overruns memRead (s.cpu.reg edi).toNat (repeatBytes w s.cpu)
  · refine BulkAnswer.undefined (fun h => (hsound.mp h).1 hover) ?_
    rw [bulkStos_eq hr, fill_of_overruns hr.sparse hr.unobserved hr.count hr.fits hover]
    rfl
  · by_cases hread : m.GrantsRange memRead (s.cpu.reg edi).toNat (repeatBytes w s.cpu)
    · refine BulkAnswer.taken ?_ (grantsRange_bounds (repeatBytes_pos hr) hread).2 ?_ ?_
      · rw [bulkStos_eq hr, fill_eq hr.sparse hr.unobserved hr.count hr.fits hover, hlen,
          if_pos hread]
        rfl
      · rw [hsound]
        exact ⟨fun h => h.2 hread, fun h => ⟨hover, fun _ => h⟩⟩
      · intro hwrite
        rw [elementLoop_eq, repLoop_stos hr.sparse _ s hr.unobserved rfl hwrite]
        rfl
    · refine BulkAnswer.refused (hsound.mpr ⟨hover, fun h => absurd h hread⟩) ?_
      rw [bulkStos_eq hr, fill_eq hr.sparse hr.unobserved hr.count hr.fits hover, hlen,
        if_neg hread]
      rfl

/-- A forward repeat of MOVS or STOS does what the element loop does exactly when the bulk path
is sound, and then the bulk path stores only to writable bytes. -/
theorem bulk_agrees_iff (m : Mem) (insn : StringInsn) (w : Width) (s : Machine)
    (hstr : insn.str = .movs ∨ insn.str = .stos) (hrep : insn.rep = .rep)
    (hw : insn.strWidth = w.bytes) (hdf : s.cpu.df = false) (hobs : s.host.observer = false) :
    (stringExecute m insn s = elementLoop m insn.str .rep w (stride false w) s ↔
      BulkSound m insn.str w s.cpu) ∧
    (BulkSound m insn.str w s.cpu → ∀ s', bulkString m insn.str w s = some (some s') →
      m.GrantsRange memWrite (s.cpu.reg edi).toNat (repeatBytes w s.cpu)) := by
  rw [stringExecute_eq hstr hrep hw hdf]
  by_cases hout : m.sparse ≠ none ∨ s.cpu.reg ecx = 0 ∨ ¬ repeatBytes w s.cpu ≤ 2 ^ 32 - 1
  · rw [bulkString_refused hstr hdf hout]
    refine ⟨iff_of_true rfl ?_, fun _ s' h => by cases h⟩
    intro h1 h2 h3
    rcases hout with h | h | h
    · exact absurd h1 h
    · exact absurd h h2
    · exact absurd h3 h
  · simp only [not_or, not_not] at hout
    have hr : BulkRange m w s := ⟨hout.1, hobs, hdf, hout.2.1, hout.2.2⟩
    have hanswer : BulkAnswer m insn.str w s := by
      rcases hstr with h | h
      · rw [h]
        exact movs_answer hr
      · rw [h]
        exact stos_answer hr
    obtain ⟨r, hloop, hok⟩ := @repLoop_granted m w _ hstr hr.sparse _ s hobs rfl
    rw [← elementLoop_eq] at hloop
    cases hanswer with
    | undefined houtside hbulk =>
      refine ⟨iff_of_false ?_ houtside, fun h => absurd h houtside⟩
      rw [hbulk, hloop]
      exact fun heq => by cases heq
    | refused hsound hbulk =>
      rw [hbulk]
      exact ⟨iff_of_true rfl hsound, fun _ s' h => by cases h⟩
    | taken hbulk hfits hsound htaken =>
      rw [hbulk, hsound]
      refine ⟨⟨?_, fun hwrite => (htaken hwrite).symm⟩, fun hwrite _ _ => hwrite⟩
      intro heq
      have hr : ⟨.ok, 0, bulkResult m insn.str w s⟩ = r := Option.some.inj (heq.trans hloop)
      exact hok hfits (by rw [← hr])

end Agree

/-- One page of permissions over a window at 0. -/
def onePage (entry : U8) : Mem where
  host := 0
  lo := 0
  size := 4096
  sparse := none
  perms := some ⟨[entry], 12, by decide, by decide, rfl⟩

/-- A repeated STOSB of one byte at address 0. -/
def repStosb : StringInsn := ⟨.stos, .rep, 1⟩

def storeOne : Machine where
  cpu := ⟨fun r => if r = ecx then 1 else if r = eax then 0x5A else 0, false,
    ⟨0, 0, 0, .none, .dword, 0⟩⟩
  host := ⟨fun _ => 0, false, []⟩

/-- Two pages that can be written, over a window at 0. -/
def twoPages : Mem where
  host := 0
  lo := 0
  size := 8192
  sparse := none
  perms := some ⟨[3, 3], 12, by decide, by decide, rfl⟩

/-- Four bytes over the end of the first page. -/
def storeFour : Machine where
  cpu := ⟨fun r => if r = ecx then 4 else if r = eax then 0x5A else if r = edi then 0xFFE else 0,
    false, ⟨0, 0, 0, .none, .dword, 0⟩⟩
  host := ⟨fun _ => 0, false, []⟩

theorem storeFour_agrees :
    stringExecute twoPages repStosb storeFour =
      elementLoop twoPages .stos .rep .byte (stride false .byte) storeFour := by
  refine (bulk_agrees_iff twoPages repStosb .byte storeFour (Or.inr rfl) rfl rfl rfl rfl).1.mpr ?_
  exact fun _ _ _ => ⟨not_overruns_of_le (by decide) _, fun _ => by decide⟩

/-- A page that can only be read: the fill resolves it and writes, the loop faults. -/
theorem readOnly_fill_diverges :
    (stringExecute (onePage 1) repStosb storeOne).map
        (fun r => (r.status, r.machine.host.bytes 0)) = some (.ok, 0x5A) ∧
      (elementLoop (onePage 1) .stos .rep .byte (stride false .byte) storeOne).map
        (fun r => (r.status, r.machine.host.bytes 0)) = some (.fault, 0) ∧
      ¬ ∀ (m : Mem) (insn : StringInsn) (w : Width) (s : Machine),
        insn.str = .movs ∨ insn.str = .stos → insn.rep = .rep → insn.strWidth = w.bytes →
        s.cpu.df = false → s.host.observer = false →
          stringExecute m insn s = elementLoop m insn.str .rep w (stride false w) s := by
  have hbulk : (stringExecute (onePage 1) repStosb storeOne).map
      (fun r => (r.status, r.machine.host.bytes 0)) = some (.ok, 0x5A) := by decide +kernel
  have hloop : (elementLoop (onePage 1) .stos .rep .byte (stride false .byte) storeOne).map
      (fun r => (r.status, r.machine.host.bytes 0)) = some (.fault, 0) := by decide +kernel
  refine ⟨hbulk, hloop, fun hall => ?_⟩
  have heq := hall (onePage 1) repStosb .byte storeOne (Or.inr rfl) rfl rfl rfl rfl
  rw [heq] at hbulk
  exact absurd (hbulk.symm.trans hloop) (by decide)

end X86Port.Cpu
