import X86Port.Cpu.Exchange
import X86Port.Memory.Pieces

/-!
# Stack frames

PUSHAD, POPAD and ENTER of `stack_ops.c`, and LEAVE of the interpreter.

* `run_pushes`, `pushes_refused`: a list of pushes writes the words before the first that is
  refused.
* `word_pushed`: words that share no byte are read back.
* `stackPopad_ok`, `stackEnter_ok`, `executeLeave_ok`: what the operations leave.
* `stackEnter_readRefused`, `stackEnter_pushRefused`, `stackPopad_refused`: where they stop.
* `stack_frames`: POPAD undoes PUSHAD, LEAVE undoes ENTER, and a refusal leaves whole steps.
-/

namespace X86Port.Cpu

open Lib Lib.Places Exec
open Memory (Mem Host memRead memWrite valueOf bytesOf)

/-! ## The operations -/

section Operations

variable {μ : Type} (g : GuestMem μ)

def pushadOrder : List Reg := [eax, ecx, edx, ebx, esp, ebp, esi, edi]

def popadOrder : List Reg := [edi, esi, ebp, esp, ebx, edx, ecx, eax]

/-- One round of PUSHAD, which saves the stack pointer from before the first push. -/
def pushadRound (original : U32) (r : Reg) : Exec μ Unit := do
  let value ← ask fun s => if r = esp then original else s.cpu.reg r
  push32 g value

def stackPushad : Exec μ Unit := do
  let original ← ask fun s => s.cpu.reg esp
  pushadOrder.forM (pushadRound g original)

/-- One round of POPAD: the saved stack pointer is consumed and not restored. -/
def popadRound (r : Reg) : Exec μ Unit := do
  let value ← pop32 g
  if r ≠ esp then writeReg r 4 value else pure ()

def stackPopad : Exec μ Unit := popadOrder.forM (popadRound g)

/-- One outer frame pointer: EBP is the cursor of the reads. -/
def enterRound : Exec μ Unit := do
  let below ← ask fun s => s.cpu.reg ebp - 4
  writeReg ebp 4 below
  let value ← readMem g below 4
  push32 g value

/-- Behind the outer frame pointers comes the new one, except on level zero. -/
def enterFrame (level frame : U32) : Exec μ Unit := if level ≠ 0 then push32 g frame else pure ()

def stackEnter (allocation level : U32) : Exec μ Unit := do
  let level := level &&& 31
  let old ← ask fun s => s.cpu.reg ebp
  push32 g old
  let frame ← ask fun s => s.cpu.reg esp
  (List.range (level.toNat - 1)).forM fun _ => enterRound g
  enterFrame g level frame
  writeReg ebp 4 frame
  let top ← ask fun s => s.cpu.reg esp
  writeReg esp 4 (top - (allocation &&& 0xFFFF))

end Operations

/-! ## Words of the stack -/

/-- What a word of the memory holds. -/
def word (m : Mem) (h : Host) (a : U32) : U32 :=
  valueOf (gather h.bytes (m.place 0) a.toNat 4)

/-- The address of push `k` below a stack pointer. -/
def slot (top : U32) (k : Nat) : U32 := top - BitVec.ofNat 32 (4 * (k + 1))

/-- The two words have no byte in common. -/
def Apart (m : Mem) (a b : U32) : Prop :=
  ∀ i < 4, ∀ j < 4, cell (m.place 0) (a.toNat + i) ≠ cell (m.place 0) (b.toNat + j)

/-- The bytes of the word lie at four places. -/
def Whole (m : Mem) (a : U32) : Prop :=
  ∀ i < 4, ∀ j < 4, cell (m.place 0) (a.toNat + i) = cell (m.place 0) (a.toNat + j) → i = j

/-- One granted push. -/
def pushWord (m : Mem) (s : Ctx Host) (value : U32) : Ctx Host :=
  let top := s.cpu.reg esp - 4
  { s with mem := Host.put m s.mem top (bytesOf 4 value) }.withRegs
    (s.cpu.toCpuState.setReg esp top)

/-- Granted pushes, one after the other. -/
def pushed (m : Mem) (s : Ctx Host) (words : List U32) : Ctx Host := words.foldl (pushWord m) s

/-- What an instruction of the stack leaves besides the memory and the registers. -/
structure StackBeside (s t : Ctx Host) : Prop where
  df : t.cpu.df = s.cpu.df
  flags : t.cpu.flags = s.cpu.flags
  eip : t.cpu.eip = s.cpu.eip
  bases : t.cpu.fsBase = s.cpu.fsBase ∧ t.cpu.gsBase = s.cpu.gsBase
  seg : t.seg = s.seg
  nextEip : t.nextEip = s.nextEip

theorem StackBeside.trans {s t u : Ctx Host} (hst : StackBeside s t) (htu : StackBeside t u) :
    StackBeside s u where
  df := htu.df.trans hst.df
  flags := htu.flags.trans hst.flags
  eip := htu.eip.trans hst.eip
  bases := ⟨htu.bases.1.trans hst.bases.1, htu.bases.2.trans hst.bases.2⟩
  seg := htu.seg.trans hst.seg
  nextEip := htu.nextEip.trans hst.nextEip

section Words

variable {m : Mem} {s : Ctx Host} {h : Host} {a b v : U32} {k : Nat} {words : List U32}

theorem granted_apart (hw : m.Granted memWrite a .dword) {i : Nat} (hi : i < 4) :
    cell (m.place memWrite) (a.toNat + i) = cell (m.place 0) (a.toNat + i) :=
  Memory.cell_zero (hw i hi)

theorem put_bytes (hw : m.Granted memWrite a .dword) (v : U32) :
    (Host.put m h a (bytesOf 4 v)).bytes = scatter (m.place 0) h.bytes a.toNat (bytesOf 4 v) := by
  unfold Host.put
  dsimp only
  refine scatter_congr fun i hi => granted_apart hw ?_
  rwa [Memory.length_bytesOf] at hi

theorem word_put (hw : m.Granted memWrite a .dword) (hwhole : Whole m a) (v : U32) :
    word m (Host.put m h a (bytesOf 4 v)) a = v := by
  have hlen : (bytesOf 4 v).length = 4 := Memory.length_bytesOf 4 v
  have hback := (@gather_scatter_iff _ (m.place 0) h.bytes a.toNat (bytesOf 4 v)).mpr
    fun i hi j hj hcell => by
      rw [hlen] at hi hj
      have := hwhole i hi j hj hcell
      subst this
      rfl
  unfold word
  rw [put_bytes hw]
  rw [hlen] at hback
  rw [hback, Memory.valueOf_bytesOf]

theorem word_put_apart (hw : m.Granted memWrite a .dword) (hapart : Apart m a b) (v : U32) :
    word m (Host.put m h a (bytesOf 4 v)) b = word m h b := by
  unfold word
  rw [put_bytes hw]
  congr 1
  unfold gather
  refine List.map_congr_left fun i hi => scatter_frame fun j hj => ?_
  rw [List.mem_range] at hi
  rw [Memory.length_bytesOf] at hj
  exact hapart j hj i hi

/-! ## Pushed words -/

theorem pushed_cons (v : U32) (words : List U32) :
    pushed m s (v :: words) = pushed m (pushWord m s v) words := rfl

theorem pushed_append (words words' : List U32) :
    pushed m s (words ++ words') = pushed m (pushed m s words) words' := List.foldl_append

theorem pushWord_esp : (pushWord m s v).cpu.reg esp = s.cpu.reg esp - 4 := by
  simp only [pushWord, Ctx.withRegs, setReg_reg, Function.update_self]

theorem pushWord_reg {r : Reg} (hr : r ≠ esp) : (pushWord m s v).cpu.reg r = s.cpu.reg r := by
  simp only [pushWord, Ctx.withRegs, setReg_reg, Function.update_of_ne hr]

theorem slot_pushWord (k : Nat) :
    slot ((pushWord m s v).cpu.reg esp) k = slot (s.cpu.reg esp) (k + 1) := by
  unfold slot
  rw [pushWord_esp]
  have : BitVec.ofNat 32 (4 * (k + 1 + 1)) = 4 + BitVec.ofNat 32 (4 * (k + 1)) := by
    rw [Nat.mul_add, Nat.add_comm, BitVec.ofNat_add]
    rfl
  rw [this, BitVec.sub_sub]

theorem slot_zero (top : U32) : slot top 0 = top - 4 := rfl

theorem sub_slot (a : U32) (n : Nat) : a - BitVec.ofNat 32 (4 * n) - 4 = slot a n := by
  unfold slot
  rw [Nat.mul_add, BitVec.ofNat_add, BitVec.sub_sub]
  rfl

theorem pushed_esp : (pushed m s words).cpu.reg esp =
    s.cpu.reg esp - BitVec.ofNat 32 (4 * words.length) := by
  induction words generalizing s with
  | nil => simp [pushed]
  | cons v words ih =>
    rw [pushed_cons, ih, pushWord_esp, List.length_cons, Nat.mul_add, Nat.mul_one, Nat.add_comm,
      BitVec.ofNat_add, BitVec.sub_sub]
    rfl

theorem pushed_reg {r : Reg} (hr : r ≠ esp) : (pushed m s words).cpu.reg r = s.cpu.reg r := by
  induction words generalizing s with
  | nil => rfl
  | cons v words ih => rw [pushed_cons, ih, pushWord_reg hr]

theorem pushed_beside : StackBeside s (pushed m s words) := by
  induction words generalizing s with
  | nil => exact ⟨rfl, rfl, rfl, ⟨rfl, rfl⟩, rfl, rfl⟩
  | cons v words ih =>
    have hrest := @ih (pushWord m s v)
    exact ⟨hrest.df, hrest.flags, hrest.eip, hrest.bases, hrest.seg, hrest.nextEip⟩

theorem word_pushed_apart
    (hw : ∀ k < words.length, m.Granted memWrite (slot (s.cpu.reg esp) k) .dword)
    (hapart : ∀ k < words.length, Apart m (slot (s.cpu.reg esp) k) a) :
    word m (pushed m s words).mem a = word m s.mem a := by
  induction words generalizing s with
  | nil => rfl
  | cons v words ih =>
    have hnext (k : Nat) (hk : k < words.length) := hw (k + 1) (by simpa using hk)
    have hnextApart (k : Nat) (hk : k < words.length) := hapart (k + 1) (by simpa using hk)
    rw [pushed_cons, ih (fun k hk => by rw [slot_pushWord]; exact hnext k hk)
      fun k hk => by rw [slot_pushWord]; exact hnextApart k hk]
    exact word_put_apart (hw 0 (by simp)) (hapart 0 (by simp)) v

/-- The words of a stack that share no byte. -/
structure Separate (m : Mem) (top : U32) (n : Nat) : Prop where
  whole : ∀ k < n, Whole m (slot top k)
  apart : ∀ k < n, ∀ l < n, k ≠ l → Apart m (slot top k) (slot top l)

/-- A pushed word is read back. -/
theorem word_pushed (hw : ∀ k < words.length, m.Granted memWrite (slot (s.cpu.reg esp) k) .dword)
    (hseparate : Separate m (s.cpu.reg esp) words.length) (hk : k < words.length) :
    word m (pushed m s words).mem (slot (s.cpu.reg esp) k) = words[k] := by
  induction words generalizing s k with
  | nil => exact absurd hk (Nat.not_lt_zero k)
  | cons v words ih =>
    have hnext (k : Nat) (hk : k < words.length) :
        m.Granted memWrite (slot ((pushWord m s v).cpu.reg esp) k) .dword := by
      rw [slot_pushWord]
      exact hw (k + 1) (by simpa using hk)
    rw [pushed_cons]
    cases k with
    | zero =>
      rw [word_pushed_apart hnext fun l hl => ?_]
      · exact word_put (hw 0 hk) (hseparate.whole 0 hk) v
      · rw [slot_pushWord]
        exact hseparate.apart (l + 1) (by simpa using hl) 0 hk (Nat.succ_ne_zero l)
    | succ k =>
      have hk' : k < words.length := by simpa using hk
      rw [← slot_pushWord (m := m) (s := s) (v := v),
        ih hnext ⟨fun l hl => ?_, fun l hl l' hl' hne => ?_⟩ hk']
      · rfl
      · rw [slot_pushWord]
        exact hseparate.whole (l + 1) (by simpa using hl)
      · rw [slot_pushWord, slot_pushWord]
        exact hseparate.apart (l + 1) (by simpa using hl) (l' + 1) (by simpa using hl') (by omega)

end Words

/-! ## Single pushes and pops -/

section Runs

variable {m : Mem} {s t u : Ctx Host} {v : U32}

/-- A loop stops at the first round that is refused. -/
theorem forM_refused {α : Type} {round : α → Exec Host Unit} {l l' : List α} {a : α} {e : Halt}
    (hl : l.forM round s = .ok () t) (ha : round a t = .error e u) :
    (l ++ a :: l').forM round s = .error e u := by
  induction l generalizing s with
  | nil =>
    cases hl
    exact bind_error ha
  | cons b l ih =>
    change (round b >>= fun _ => l.forM round) s = _ at hl
    change (round b >>= fun _ => (l ++ a :: l').forM round) s = _
    cases hb : round b s with
    | ok _ s' =>
      rw [bind_ok hb] at hl ⊢
      exact ih hl
    | error e' s' =>
      rw [bind_error hb] at hl
      cases hl

theorem writeMem_word (hm : m.WellFormed) (a v : U32) :
    writeMem (guestMem m) a 4 v s =
      if m.Granted memWrite a .dword then .ok () { s with mem := Host.put m s.mem a (bytesOf 4 v) }
      else .error (.fault .memoryFault a) s := by
  have hwrite : (guestMem m).write s.mem a 4 v = if m.Granted memWrite a .dword then
      some (Host.put m s.mem a (bytesOf 4 v)) else none :=
    @guestMem_write_placed m s.mem a .dword hm v
  unfold writeMem
  rw [hwrite]
  by_cases hw : m.Granted memWrite a .dword
  · rw [if_pos hw, if_pos hw]
  · rw [if_neg hw, if_neg hw]

theorem push32_ok (hm : m.WellFormed) (hw : m.Granted memWrite (s.cpu.reg esp - 4) .dword) :
    push32 (guestMem m) v s = .ok () (pushWord m s v) := by
  have hwrite := (writeMem_word (s := s) hm (s.cpu.reg esp - 4) v).trans (if_pos hw)
  unfold push32
  rw [ask_bind, bind_ok hwrite]
  rfl

theorem push32_refused (hm : m.WellFormed)
    (hw : ¬ m.Granted memWrite (s.cpu.reg esp - 4) .dword) :
    push32 (guestMem m) v s = .error (.fault .memoryFault (s.cpu.reg esp - 4)) s := by
  have hwrite := (writeMem_word (s := s) hm (s.cpu.reg esp - 4) v).trans (if_neg hw)
  unfold push32
  rw [ask_bind]
  exact bind_error hwrite

theorem readMem_word (hm : m.WellFormed) (a : U32) :
    readMem (guestMem m) a 4 s = if m.Granted memRead a .dword then .ok (word m s.mem a) s
      else .error (.fault .memoryFault a) s := by
  have hread : (guestMem m).read s.mem a 4 = if m.Granted memRead a .dword then
      some (word m s.mem a) else none := @guestMem_read_placed m s.mem a .dword hm
  unfold readMem
  rw [hread]
  by_cases hr : m.Granted memRead a .dword
  · rw [if_pos hr, if_pos hr]
  · rw [if_neg hr, if_neg hr]

theorem pop32_ok (hm : m.WellFormed) (hr : m.Granted memRead (s.cpu.reg esp) .dword) :
    pop32 (guestMem m) s = .ok (word m s.mem (s.cpu.reg esp))
      (s.withRegs (s.cpu.toCpuState.setReg esp (s.cpu.reg esp + 4))) := by
  have hread := (readMem_word (s := s) hm (s.cpu.reg esp)).trans (if_pos hr)
  unfold pop32
  rw [ask_bind, bind_ok hread]
  rfl

theorem pop32_refused (hm : m.WellFormed) (hr : ¬ m.Granted memRead (s.cpu.reg esp) .dword) :
    pop32 (guestMem m) s = .error (.fault .memoryFault (s.cpu.reg esp)) s := by
  have hread := (readMem_word (s := s) hm (s.cpu.reg esp)).trans (if_neg hr)
  unfold pop32
  rw [ask_bind]
  exact bind_error hread

/-! ## PUSHAD -/

/-- What PUSHAD saves of a register. -/
def saved (original : U32) (s : Ctx Host) (r : Reg) : U32 :=
  if r = esp then original else s.cpu.reg r

theorem saved_pushWord (original : U32) (rs : List Reg) :
    rs.map (saved original (pushWord m s v)) = rs.map (saved original s) := by
  refine List.map_congr_left fun r _ => ?_
  unfold saved
  by_cases hr : r = esp
  · rw [if_pos hr, if_pos hr]
  · rw [if_neg hr, if_neg hr, pushWord_reg hr]

theorem run_pushes (hm : m.WellFormed) (original : U32) (rs : List Reg)
    (hw : ∀ k < rs.length, m.Granted memWrite (slot (s.cpu.reg esp) k) .dword) :
    rs.forM (pushadRound (guestMem m) original) s =
      .ok () (pushed m s (rs.map (saved original s))) := by
  induction rs generalizing s with
  | nil => rfl
  | cons r rs ih =>
    have hround : pushadRound (guestMem m) original r s =
        .ok () (pushWord m s (saved original s r)) := push32_ok hm (hw 0 (by simp))
    change (pushadRound (guestMem m) original r >>= fun _ =>
      rs.forM (pushadRound (guestMem m) original)) s = _
    rw [bind_ok hround, ih fun k hk => by rw [slot_pushWord]; exact hw (k + 1) (by simpa using hk),
      saved_pushWord]
    rfl

/-- A push that is refused behind granted ones leaves their words. -/
theorem pushes_refused (hm : m.WellFormed) (original : U32) (rs : List Reg) {j : Nat}
    (hj : j < rs.length)
    (hw : ∀ k < j, m.Granted memWrite (slot (s.cpu.reg esp) k) .dword)
    (hno : ¬ m.Granted memWrite (slot (s.cpu.reg esp) j) .dword) :
    rs.forM (pushadRound (guestMem m) original) s =
      .error (.fault .memoryFault (slot (s.cpu.reg esp) j))
        (pushed m s ((rs.map (saved original s)).take j)) := by
  have hlen : (rs.take j).length = j := List.length_take_of_le (Nat.le_of_lt hj)
  have hok := run_pushes (s := s) hm original (rs.take j) fun k hk => hw k (by rwa [hlen] at hk)
  rw [List.map_take] at hok
  set u := pushed m s ((rs.map (saved original s)).take j) with hu
  have hesp : u.cpu.reg esp - 4 = slot (s.cpu.reg esp) j := by
    rw [hu, pushed_esp, List.length_take, List.length_map, Nat.min_eq_left (Nat.le_of_lt hj),
      sub_slot]
  have hround : pushadRound (guestMem m) original rs[j] u =
      .error (.fault .memoryFault (slot (s.cpu.reg esp) j)) u := by
    rw [← hesp] at hno ⊢
    exact push32_refused hm hno
  have hsplit : rs = rs.take j ++ rs[j] :: rs.drop (j + 1) := by
    rw [List.getElem_cons_drop, List.take_append_drop]
  rw [hsplit]
  exact forM_refused hok hround

/-! ## POPAD -/

/-- A round of POPAD, whether or not the register takes the value. -/
theorem popadRound_ok (hm : m.WellFormed) (r : Reg)
    (hr : m.Granted memRead (s.cpu.reg esp) .dword) :
    ∃ u, popadRound (guestMem m) r s = .ok () u ∧ u.mem = s.mem ∧ StackBeside s u ∧
      u.cpu.reg esp = s.cpu.reg esp + 4 ∧ (∀ q ≠ r, q ≠ esp → u.cpu.reg q = s.cpu.reg q) ∧
      (r ≠ esp → u.cpu.reg r = word m s.mem (s.cpu.reg esp)) := by
  set popped := s.withRegs (s.cpu.toCpuState.setReg esp (s.cpu.reg esp + 4)) with hpopped
  unfold popadRound
  rw [bind_ok (pop32_ok hm hr)]
  by_cases hre : r = esp
  · rw [if_neg (not_not.mpr hre)]
    refine ⟨popped, rfl, rfl, ⟨rfl, rfl, rfl, ⟨rfl, rfl⟩, rfl, rfl⟩,
      by simp [hpopped, Ctx.withRegs], fun q _ hq => ?_, fun h => absurd hre h⟩
    simp [hpopped, Ctx.withRegs, hq]
  · rw [if_pos hre]
    refine ⟨_, writeReg_ok r (w := .dword) rfl _, rfl, ⟨rfl, rfl, rfl, ⟨rfl, rfl⟩, rfl, rfl⟩,
      ?_, fun q hq hqe => ?_, fun _ => ?_⟩
    · simp [Ctx.withRegs, regWrite, Ne.symm hre]
    · simp [Ctx.withRegs, regWrite, hq, hqe]
    · simp [Ctx.withRegs, regWrite]

/-- The registers of a list come back from the words above the stack pointer. -/
theorem stackPopad_run (hm : m.WellFormed) (rs : List Reg) (hnodup : rs.Nodup)
    (hr : ∀ k < rs.length, m.Granted memRead (s.cpu.reg esp + BitVec.ofNat 32 (4 * k)) .dword) :
    ∃ t, rs.forM (popadRound (guestMem m)) s = .ok () t ∧ t.mem = s.mem ∧ StackBeside s t ∧
      t.cpu.reg esp = s.cpu.reg esp + BitVec.ofNat 32 (4 * rs.length) ∧
      (∀ r ∉ rs, r ≠ esp → t.cpu.reg r = s.cpu.reg r) ∧
      ∀ (k : Nat) (hk : k < rs.length), rs[k] ≠ esp →
        t.cpu.reg rs[k] = word m s.mem (s.cpu.reg esp + BitVec.ofNat 32 (4 * k)) := by
  induction rs generalizing s with
  | nil =>
    exact ⟨s, rfl, rfl, ⟨rfl, rfl, rfl, ⟨rfl, rfl⟩, rfl, rfl⟩, by simp, fun r _ _ => rfl,
      fun k hk => absurd hk (Nat.not_lt_zero k)⟩
  | cons r rs ih =>
    obtain ⟨hnot, hnodup⟩ := List.nodup_cons.mp hnodup
    have hfirst : m.Granted memRead (s.cpu.reg esp) .dword := by simpa using hr 0 (by simp)
    obtain ⟨u, hround, hmem, hbeside, hesp, hother, htaken⟩ := popadRound_ok hm r hfirst
    have hshift (k : Nat) : u.cpu.reg esp + BitVec.ofNat 32 (4 * k) =
        s.cpu.reg esp + BitVec.ofNat 32 (4 * (k + 1)) := by
      rw [hesp, Nat.mul_add, Nat.add_comm, BitVec.ofNat_add, BitVec.add_assoc]
      rfl
    obtain ⟨t, hrest, htmem, htbeside, htesp, htother, httaken⟩ := @ih u hnodup fun k hk => by
      rw [hshift]
      exact hr (k + 1) (by simpa using hk)
    refine ⟨t, ?_, htmem.trans hmem, hbeside.trans htbeside, ?_, fun q hq hqe => ?_,
      fun k hk hke => ?_⟩
    · change (popadRound (guestMem m) r >>= fun _ => rs.forM (popadRound (guestMem m))) s = _
      rw [bind_ok hround, hrest]
    · rw [htesp, hshift]
      rfl
    · rw [List.mem_cons, not_or] at hq
      rw [htother q hq.2 hqe, hother q hq.1 hqe]
    · cases k with
      | zero =>
        have := htaken hke
        simp only [List.getElem_cons_zero, Nat.mul_zero]
        rw [htother r hnot hke, this]
        simp
      | succ k =>
        have hk' : k < rs.length := by simpa using hk
        have := httaken k hk' hke
        rw [hmem, hshift] at this
        exact this

end Runs

/-! ## ENTER -/

/-- The words that ENTER pushes up to outer frame pointer `n`, each read when it is its turn. -/
def enterWords (m : Mem) (s : Ctx Host) : Nat → List U32
  | 0 => [s.cpu.reg ebp]
  | n + 1 => enterWords m s n ++
      [word m (pushed m s (enterWords m s n)).mem (slot (s.cpu.reg ebp) n)]

/-- All words that ENTER pushes. -/
def enterAll (m : Mem) (s : Ctx Host) (level : Nat) : List U32 :=
  enterWords m s (level - 1) ++ if level = 0 then [] else [s.cpu.reg esp - 4]

/-- The state behind outer frame pointer `n`. -/
def enterState (m : Mem) (s : Ctx Host) (n : Nat) : Ctx Host :=
  let t := pushed m s (enterWords m s n)
  t.withRegs (t.cpu.toCpuState.setReg ebp (s.cpu.reg ebp - BitVec.ofNat 32 (4 * n)))

section Enter

variable {m : Mem} {s t : Ctx Host} {n j : Nat}

@[simp] theorem length_enterWords (m : Mem) (s : Ctx Host) (n : Nat) :
    (enterWords m s n).length = n + 1 := by
  induction n with
  | zero => rfl
  | succ n ih => rw [enterWords, List.length_append, ih]; rfl

theorem take_enterWords (hj : j ≤ n) : (enterWords m s n).take (j + 1) = enterWords m s j := by
  induction n with
  | zero =>
    obtain rfl := Nat.le_zero.mp hj
    rfl
  | succ n ih =>
    rcases Nat.lt_or_ge n j with hlt | hge
    · obtain rfl : j = n + 1 := by omega
      exact List.take_of_length_le (by simp)
    · rw [enterWords, List.take_append_of_le_length (by simpa using hge), ih hge]

/-- Words that are not written are read as they were. -/
theorem enterWords_apart
    (hw : ∀ k < n + 1, m.Granted memWrite (slot (s.cpu.reg esp) k) .dword)
    (hapart : ∀ i < n, ∀ k < n + 1, Apart m (slot (s.cpu.reg esp) k) (slot (s.cpu.reg ebp) i)) :
    enterWords m s n =
      s.cpu.reg ebp :: (List.range n).map fun i => word m s.mem (slot (s.cpu.reg ebp) i) := by
  induction n with
  | zero => rfl
  | succ n ih =>
    have hread : word m (pushed m s (enterWords m s n)).mem (slot (s.cpu.reg ebp) n) =
        word m s.mem (slot (s.cpu.reg ebp) n) := by
      refine word_pushed_apart (fun k hk => hw k ?_) fun k hk => hapart n (by omega) k ?_
      · rw [length_enterWords] at hk
        omega
      · rw [length_enterWords] at hk
        omega
    rw [enterWords, hread, ih (fun k hk => hw k (by omega))
      fun i hi k hk => hapart i (by omega) k (by omega), List.range_succ, List.map_append]
    rfl

theorem enterState_reg {r : Reg} (hr : r ≠ ebp) :
    (enterState m s n).cpu.reg r = (pushed m s (enterWords m s n)).cpu.reg r := by
  simp [enterState, Ctx.withRegs, hr]

theorem enterState_ebp :
    (enterState m s n).cpu.reg ebp = s.cpu.reg ebp - BitVec.ofNat 32 (4 * n) := by
  simp [enterState, Ctx.withRegs]

theorem enterState_esp :
    (enterState m s n).cpu.reg esp = s.cpu.reg esp - BitVec.ofNat 32 (4 * (n + 1)) := by
  rw [enterState_reg (by decide), pushed_esp, length_enterWords]

theorem enterState_others {r : Reg} (hsp : r ≠ esp) (hbp : r ≠ ebp) :
    (enterState m s n).cpu.reg r = s.cpu.reg r := by
  rw [enterState_reg hbp, pushed_reg hsp]

theorem enterState_beside : StackBeside s (enterState m s n) := by
  have hrest := @pushed_beside m s (enterWords m s n)
  exact ⟨hrest.df, hrest.flags, hrest.eip, hrest.bases, hrest.seg, hrest.nextEip⟩

/-- A round up to its read and its push. -/
theorem enterRound_eq (hm : m.WellFormed) :
    enterRound (guestMem m) (enterState m s n) =
      let below := slot (s.cpu.reg ebp) n
      let u := (enterState m s n).withRegs ((enterState m s n).cpu.toCpuState.setReg ebp below)
      if m.Granted memRead below .dword then
        if m.Granted memWrite (slot (s.cpu.reg esp) (n + 1)) .dword then
          .ok () (enterState m s (n + 1))
        else .error (.fault .memoryFault (slot (s.cpu.reg esp) (n + 1))) u
      else .error (.fault .memoryFault below) u := by
  set below := slot (s.cpu.reg ebp) n with hbelow
  set u := (enterState m s n).withRegs ((enterState m s n).cpu.toCpuState.setReg ebp below) with hu
  have hbelow' : (enterState m s n).cpu.reg ebp - 4 = below := by rw [enterState_ebp, sub_slot]
  have hesp : u.cpu.reg esp - 4 = slot (s.cpu.reg esp) (n + 1) := by
    have : u.cpu.reg esp = (enterState m s n).cpu.reg esp := by
      simp [hu, Ctx.withRegs, show esp ≠ ebp by decide]
    rw [this, enterState_esp, sub_slot]
  have hmem : u.mem = (pushed m s (enterWords m s n)).mem := rfl
  unfold enterRound
  rw [ask_bind, hbelow', bind_ok (writeReg_ok ebp (w := .dword) rfl below)]
  change (readMem (guestMem m) below 4 >>= fun value => push32 (guestMem m) value) u = _
  have hread := readMem_word (s := u) hm below
  by_cases hr : m.Granted memRead below .dword
  · rw [if_pos hr] at hread
    rw [bind_ok hread, if_pos hr]
    by_cases hw : m.Granted memWrite (slot (s.cpu.reg esp) (n + 1)) .dword
    · rw [if_pos hw, push32_ok hm (by rw [hesp]; exact hw), hmem]
      -- the push on the moved cursor is the push, and then the cursor
      have hstate : pushWord m u (word m (pushed m s (enterWords m s n)).mem below) =
          enterState m s (n + 1) := by
        unfold enterState
        dsimp only
        rw [enterWords, pushed_append]
        set t := pushed m s (enterWords m s n) with ht
        change pushWord m u _ = (pushWord m t _).withRegs _
        have hebp : s.cpu.reg ebp - BitVec.ofNat 32 (4 * (n + 1)) = below := rfl
        have hregs (v x : U32) : (((t.cpu.toCpuState.setReg ebp x).setReg ebp below).setReg esp v) =
            (t.cpu.toCpuState.setReg esp v).setReg ebp below := by
          unfold CpuState.setReg
          rw [Function.update_idem, Function.update_comm (by decide)]
        have htop : u.cpu.reg esp = t.cpu.reg esp := by
          simp [hu, Ctx.withRegs, show esp ≠ ebp by decide, enterState, ← ht]
        rw [hebp]
        unfold pushWord
        dsimp only
        rw [htop]
        unfold Ctx.withRegs
        refine congrArg (fun c : CpuState => ({ t with
          cpu := { t.cpu with toCpuState := c }
          mem := Host.put m t.mem (t.cpu.reg esp - 4) (bytesOf 4 (word m t.mem below)) } :
            Ctx Host)) ?_
        exact hregs _ _
      rw [hstate]
    · rw [if_neg hw, push32_refused hm (by rw [hesp]; exact hw), hesp]
  · rw [if_neg hr] at hread
    rw [bind_error hread, if_neg hr]

theorem enterRounds_ok (hm : m.WellFormed) (l : List Nat) {n : Nat}
    (hr : ∀ i < n + l.length, m.Granted memRead (slot (s.cpu.reg ebp) i) .dword)
    (hw : ∀ k < n + l.length + 1, m.Granted memWrite (slot (s.cpu.reg esp) k) .dword) :
    l.forM (fun _ => enterRound (guestMem m)) (enterState m s n) =
      .ok () (enterState m s (n + l.length)) := by
  induction l generalizing n with
  | nil => rfl
  | cons a l ih =>
    rw [List.length_cons] at hr hw
    have hround := enterRound_eq (s := s) (n := n) hm
    dsimp only at hround
    rw [if_pos (hr n (by omega)), if_pos (hw (n + 1) (by omega))] at hround
    change (enterRound (guestMem m) >>= fun _ => l.forM fun _ => enterRound (guestMem m)) _ = _
    rw [bind_ok hround, ih (fun i hi => hr i (by omega)) fun k hk => hw k (by omega),
      List.length_cons]
    congr 2
    omega

/-- The first `j` of the words are written, and the stack pointer names the last of them; EBP is
where the reads have come to. -/
structure StoppedAfter (m : Mem) (s : Ctx Host) (words : List U32) (j : Nat) (cursor : U32)
    (t : Ctx Host) : Prop where
  memory : t.mem = (pushed m s (words.take j)).mem
  top : t.cpu.reg esp = s.cpu.reg esp - BitVec.ofNat 32 (4 * j)
  cursor : t.cpu.reg ebp = cursor
  others : ∀ r, r ≠ esp → r ≠ ebp → t.cpu.reg r = s.cpu.reg r
  beside : StackBeside s t

/-- The state behind ENTER, with `words` pushed. -/
structure Entered (m : Mem) (s : Ctx Host) (allocation : U32) (words : List U32) (t : Ctx Host) :
    Prop where
  memory : t.mem = (pushed m s words).mem
  frame : t.cpu.reg ebp = s.cpu.reg esp - 4
  top : t.cpu.reg esp =
    s.cpu.reg esp - BitVec.ofNat 32 (4 * words.length) - (allocation &&& 0xFFFF)
  others : ∀ r, r ≠ esp → r ≠ ebp → t.cpu.reg r = s.cpu.reg r
  beside : StackBeside s t

theorem level_toNat (level : U32) : (level &&& 31).toNat = level.toNat % 32 := by
  rw [BitVec.toNat_and]
  exact Nat.and_two_pow_sub_one_eq_mod level.toNat 5

/-- The end of ENTER, behind its last push. -/
theorem enterEnd_run (u : Ctx Host) (frame allocation : U32) :
    ∃ t, (writeReg ebp 4 frame >>= fun _ => ask (fun s => s.cpu.reg esp) >>= fun top =>
        writeReg esp 4 (top - (allocation &&& 0xFFFF)) : Exec Host Unit) u = .ok () t ∧
      t.mem = u.mem ∧ t.cpu.reg ebp = frame ∧
        t.cpu.reg esp = u.cpu.reg esp - (allocation &&& 0xFFFF) ∧
          (∀ r, r ≠ esp → r ≠ ebp → t.cpu.reg r = u.cpu.reg r) ∧ StackBeside u t := by
  let framed := u.withRegs (regWrite u.cpu.toCpuState ebp .dword frame)
  have hframe : writeReg ebp 4 frame u = .ok () framed := writeReg_ok ebp (w := .dword) rfl frame
  let top := framed.cpu.reg esp - (allocation &&& 0xFFFF)
  have htop : writeReg esp 4 top framed =
      .ok () (framed.withRegs (regWrite framed.cpu.toCpuState esp .dword top)) :=
    writeReg_ok esp (w := .dword) rfl top
  refine ⟨framed.withRegs (regWrite framed.cpu.toCpuState esp .dword top), ?_, rfl, ?_, ?_,
    fun r hsp hbp => ?_, ⟨rfl, rfl, rfl, ⟨rfl, rfl⟩, rfl, rfl⟩⟩
  · rw [bind_ok hframe, ask_bind]
    exact htop
  · simp [framed, Ctx.withRegs, regWrite, show ebp ≠ esp by decide]
  · simp [framed, top, Ctx.withRegs, regWrite, show esp ≠ ebp by decide]
  · simp [framed, Ctx.withRegs, regWrite, hsp, hbp]

theorem enterState_zero : enterState m s 0 = pushWord m s (s.cpu.reg ebp) := by
  have hone : pushed m s (enterWords m s 0) = pushWord m s (s.cpu.reg ebp) := rfl
  have hebp : (pushWord m s (s.cpu.reg ebp)).cpu.toCpuState.setReg ebp (s.cpu.reg ebp) =
      (pushWord m s (s.cpu.reg ebp)).cpu.toCpuState := by
    unfold CpuState.setReg
    have hkept := pushWord_reg (m := m) (s := s) (v := s.cpu.reg ebp) (show ebp ≠ esp by decide)
    rw [Function.update_eq_self_iff.mpr hkept.symm]
  unfold enterState
  dsimp only
  rw [hone, Nat.mul_zero, BitVec.sub_zero, hebp]
  rfl

theorem length_enterAll (level : Nat) :
    (enterAll m s level).length = if level = 0 then 1 else level + 1 := by
  unfold enterAll
  rw [List.length_append, length_enterWords]
  split_ifs with h
  · subst h; rfl
  · simp only [List.length_cons, List.length_nil]
    omega

/-- ENTER up to the rounds. -/
theorem stackEnter_eq (hm : m.WellFormed) (allocation level : U32)
    (hfirst : m.Granted memWrite (slot (s.cpu.reg esp) 0) .dword) :
    stackEnter (guestMem m) allocation level s =
      ((List.range (level.toNat % 32 - 1)).forM (fun _ => enterRound (guestMem m)) >>= fun _ =>
        enterFrame (guestMem m) (level &&& 31) (slot (s.cpu.reg esp) 0) >>= fun _ =>
          writeReg ebp 4 (slot (s.cpu.reg esp) 0) >>= fun _ =>
            ask (fun s => s.cpu.reg esp) >>= fun top =>
              writeReg esp 4 (top - (allocation &&& 0xFFFF))) (enterState m s 0) := by
  have hframe : (enterState m s 0).cpu.reg esp = slot (s.cpu.reg esp) 0 := enterState_esp
  unfold stackEnter
  rw [level_toNat, ask_bind, bind_ok (push32_ok hm hfirst), ask_bind, ← enterState_zero, hframe]

theorem enterFrame_of_pos {level : U32} (h : level.toNat % 32 ≠ 0) (frame : U32) :
    enterFrame (guestMem m) (level &&& 31) frame = push32 (guestMem m) frame :=
  if_pos fun hzero => h (by rw [← level_toNat, hzero]; rfl)

theorem enterFrame_of_zero {level : U32} (h : level.toNat % 32 = 0) (frame : U32) :
    enterFrame (guestMem m) (level &&& 31) frame = pure () := by
  rw [← level_toNat] at h
  exact if_neg (not_not.mpr (BitVec.eq_of_toNat_eq h))

/-- Behind the outer frame pointers: the frame pointer itself, unless the level is zero. -/
theorem enterFrame_ok (hm : m.WellFormed) (level : U32)
    (hw : ∀ k < (enterAll m s (level.toNat % 32)).length,
      m.Granted memWrite (slot (s.cpu.reg esp) k) .dword) :
    ∃ u, enterFrame (guestMem m) (level &&& 31) (slot (s.cpu.reg esp) 0)
        (enterState m s (level.toNat % 32 - 1)) = .ok () u ∧
      u.mem = (pushed m s (enterAll m s (level.toNat % 32))).mem ∧
      u.cpu.reg esp =
        s.cpu.reg esp - BitVec.ofNat 32 (4 * (enterAll m s (level.toNat % 32)).length) ∧
      (∀ r, r ≠ esp → r ≠ ebp → u.cpu.reg r = s.cpu.reg r) ∧ StackBeside s u := by
  rw [length_enterAll] at hw ⊢
  by_cases hzero : level.toNat % 32 = 0
  · rw [enterFrame_of_zero hzero]
    refine ⟨_, rfl, ?_, ?_, fun r => enterState_others, enterState_beside⟩
    · unfold enterAll
      rw [if_pos hzero, List.append_nil]
      rfl
    · rw [if_pos hzero, enterState_esp, hzero]
  · rw [enterFrame_of_pos hzero]
    rw [if_neg hzero] at hw ⊢
    generalize level.toNat % 32 = n at *
    have hbeside : StackBeside s (enterState m s (n - 1)) := enterState_beside
    have hlast : m.Granted memWrite ((enterState m s (n - 1)).cpu.reg esp - 4) .dword := by
      rw [enterState_esp, sub_slot]
      exact hw (n - 1 + 1) (by omega)
    refine ⟨_, push32_ok hm hlast, ?_, ?_, fun r hsp hbp => ?_, ?_⟩
    · unfold enterAll
      rw [if_neg hzero, pushed_append]
      simp only [pushed, List.foldl_cons, List.foldl_nil, pushWord, enterState, Ctx.withRegs,
        setReg_reg, Function.update_of_ne (show esp ≠ ebp by decide)]
      rfl
    · rw [pushWord_esp, enterState_esp, sub_slot, Nat.sub_add_cancel (Nat.pos_of_ne_zero hzero)]
      rfl
    · rw [pushWord_reg hsp, enterState_others hsp hbp]
    · exact ⟨hbeside.df, hbeside.flags, hbeside.eip, hbeside.bases, hbeside.seg, hbeside.nextEip⟩

theorem stackEnter_ok (hm : m.WellFormed) (allocation level : U32)
    (hr : ∀ i < level.toNat % 32 - 1, m.Granted memRead (slot (s.cpu.reg ebp) i) .dword)
    (hw : ∀ k < (enterAll m s (level.toNat % 32)).length,
      m.Granted memWrite (slot (s.cpu.reg esp) k) .dword) :
    ∃ t, stackEnter (guestMem m) allocation level s = .ok () t ∧
      Entered m s allocation (enterAll m s (level.toNat % 32)) t := by
  have hpushes (k : Nat) (hk : k < level.toNat % 32 - 1 + 1) :
      m.Granted memWrite (slot (s.cpu.reg esp) k) .dword := hw k (by
    rw [length_enterAll]
    split_ifs <;> omega)
  have hrounds := enterRounds_ok (s := s) (n := 0) hm (List.range (level.toNat % 32 - 1))
    (by simpa using hr) (by simpa using hpushes)
  rw [List.length_range, Nat.zero_add] at hrounds
  obtain ⟨u, hrun, humem, huesp, huothers, hubeside⟩ := enterFrame_ok hm level hw
  obtain ⟨t, hend, htmem, htebp, htesp, htothers, htbeside⟩ :=
    enterEnd_run u (slot (s.cpu.reg esp) 0) allocation
  refine ⟨t, ?_, htmem.trans humem, htebp, ?_, fun r hsp hbp =>
    (htothers r hsp hbp).trans (huothers r hsp hbp), hubeside.trans htbeside⟩
  · rw [stackEnter_eq hm allocation level (hpushes 0 (Nat.succ_pos _)), bind_ok hrounds,
      bind_ok hrun]
    exact hend
  · rw [htesp, huesp]

/-! ### Refused accesses

ENTER pushes EBP, then reads outer frame pointer `i` and pushes it as word `i + 1`, then pushes
the new frame pointer as word `level`. -/

/-- The first access of ENTER to be refused is its push of word `k`. -/
structure PushRefused (m : Mem) (s : Ctx Host) (level k : Nat) : Prop where
  word : k < (enterAll m s level).length
  pushes : ∀ l < k, m.Granted memWrite (slot (s.cpu.reg esp) l) .dword
  reads : ∀ i < min k (level - 1), m.Granted memRead (slot (s.cpu.reg ebp) i) .dword
  refused : ¬ m.Granted memWrite (slot (s.cpu.reg esp) k) .dword

/-- The first access of ENTER to be refused is its read of outer frame pointer `i`. -/
structure ReadRefused (m : Mem) (s : Ctx Host) (level i : Nat) : Prop where
  link : i < level - 1
  pushes : ∀ l < i + 1, m.Granted memWrite (slot (s.cpu.reg esp) l) .dword
  reads : ∀ l < i, m.Granted memRead (slot (s.cpu.reg ebp) l) .dword
  refused : ¬ m.Granted memRead (slot (s.cpu.reg ebp) i) .dword

theorem take_enterAll {level : Nat} (hj : j ≤ level - 1) :
    (enterAll m s level).take (j + 1) = enterWords m s j := by
  unfold enterAll
  rw [List.take_append_of_le_length (by rw [length_enterWords]; omega), take_enterWords hj]

/-- A round that is refused behind `n` granted ones ends ENTER. -/
theorem stackEnter_round (hm : m.WellFormed) (allocation level : U32) {e : Halt}
    (hn : n < level.toNat % 32 - 1)
    (hr : ∀ i < n, m.Granted memRead (slot (s.cpu.reg ebp) i) .dword)
    (hw : ∀ k < n + 1, m.Granted memWrite (slot (s.cpu.reg esp) k) .dword)
    (hround : enterRound (guestMem m) (enterState m s n) = .error e t) :
    stackEnter (guestMem m) allocation level s = .error e t := by
  have hok := enterRounds_ok (s := s) (n := 0) hm (List.range n) (by simpa using hr)
    (by simpa using hw)
  rw [List.length_range, Nat.zero_add] at hok
  have hsplit : List.range (level.toNat % 32 - 1) =
      List.range n ++ n :: (List.range (level.toNat % 32 - 1)).drop (n + 1) := by
    have hlen : n < (List.range (level.toNat % 32 - 1)).length := by rwa [List.length_range]
    have hdrop := List.getElem_cons_drop hlen
    rw [List.getElem_range] at hdrop
    have htake : (List.range (level.toNat % 32 - 1)).take n = List.range n := by
      rw [List.take_range, Nat.min_eq_left (Nat.le_of_lt hn)]
    rw [hdrop, ← htake, List.take_append_drop]
  rw [stackEnter_eq hm allocation level (hw 0 (Nat.succ_pos n)), hsplit]
  exact bind_error (forM_refused hok hround)

theorem stoppedAfter_round {level : Nat} (hn : n ≤ level - 1) (cursor : U32) :
    StoppedAfter m s (enterAll m s level) (n + 1) cursor ((enterState m s n).withRegs
      ((enterState m s n).cpu.toCpuState.setReg ebp cursor)) := by
  have hbeside := @enterState_beside m s n
  refine ⟨?_, ?_, ?_, fun r hsp hbp => ?_, ⟨hbeside.df, hbeside.flags, hbeside.eip,
    hbeside.bases, hbeside.seg, hbeside.nextEip⟩⟩
  · rw [take_enterAll hn]
    rfl
  · rw [← enterState_esp (m := m)]
    simp [Ctx.withRegs, show esp ≠ ebp by decide]
  · simp [Ctx.withRegs]
  · refine Eq.trans ?_ (enterState_others (m := m) (n := n) hsp hbp)
    simp [Ctx.withRegs, hbp]

/-- A refused read leaves the words pushed before it, with EBP on the word it asked for. -/
theorem stackEnter_readRefused (hm : m.WellFormed) (allocation level : U32) {i : Nat}
    (hread : ReadRefused m s (level.toNat % 32) i) :
    ∃ t, stackEnter (guestMem m) allocation level s =
        .error (.fault .memoryFault (slot (s.cpu.reg ebp) i)) t ∧
      StoppedAfter m s (enterAll m s (level.toNat % 32)) (i + 1) (slot (s.cpu.reg ebp) i) t := by
  have hround := enterRound_eq (s := s) (n := i) hm
  dsimp only at hround
  rw [if_neg hread.refused] at hround
  exact ⟨_, stackEnter_round hm allocation level hread.link hread.reads hread.pushes hround,
    stoppedAfter_round (Nat.le_of_lt hread.link) _⟩

/-- A refused push leaves the words pushed before it. -/
theorem stackEnter_pushRefused (hm : m.WellFormed) (allocation level : U32) {k : Nat}
    (hpush : PushRefused m s (level.toNat % 32) k) :
    ∃ t, stackEnter (guestMem m) allocation level s =
        .error (.fault .memoryFault (slot (s.cpu.reg esp) k)) t ∧
      StoppedAfter m s (enterAll m s (level.toNat % 32)) k
        (s.cpu.reg ebp - BitVec.ofNat 32 (4 * min k (level.toNat % 32 - 1))) t := by
  obtain ⟨hk, hpushes, hreads, hrefused⟩ := hpush
  rw [length_enterAll] at hk
  cases k with
  | zero =>
    refine ⟨s, ?_, rfl, by simp, by simp, fun r _ _ => rfl, ⟨rfl, rfl, rfl, ⟨rfl, rfl⟩, rfl, rfl⟩⟩
    unfold stackEnter
    rw [ask_bind]
    exact bind_error (push32_refused hm hrefused)
  | succ n =>
    have hsome : level.toNat % 32 ≠ 0 := fun hnone => by
      rw [if_pos hnone] at hk
      omega
    rw [if_neg hsome] at hk
    by_cases hlast : n = level.toNat % 32 - 1
    · -- all rounds are granted: it is the push of the frame pointer itself
      subst hlast
      rw [Nat.min_eq_right (Nat.le_succ _)] at hreads ⊢
      have hok := enterRounds_ok (s := s) (n := 0) hm (List.range (level.toNat % 32 - 1))
        (by simpa using hreads) (by simpa using hpushes)
      rw [List.length_range, Nat.zero_add] at hok
      have hesp : (enterState m s (level.toNat % 32 - 1)).cpu.reg esp - 4 =
          slot (s.cpu.reg esp) (level.toNat % 32 - 1 + 1) := by
        rw [enterState_esp, sub_slot]
      refine ⟨enterState m s (level.toNat % 32 - 1), ?_, ?_⟩
      · rw [stackEnter_eq hm allocation level (hpushes 0 (Nat.succ_pos _)), bind_ok hok,
          enterFrame_of_pos hsome, ← hesp]
        exact bind_error (push32_refused hm (by rwa [hesp]))
      · refine ⟨?_, enterState_esp, enterState_ebp, fun r => enterState_others, enterState_beside⟩
        rw [take_enterAll (Nat.le_refl _)]
        rfl
    · have hn : n < level.toNat % 32 - 1 := by omega
      have hmin : min (n + 1) (level.toNat % 32 - 1) = n + 1 := Nat.min_eq_left hn
      rw [hmin] at hreads ⊢
      have hround := enterRound_eq (s := s) (n := n) hm
      dsimp only at hround
      rw [if_pos (hreads n (Nat.lt_succ_self n)), if_neg hrefused] at hround
      exact ⟨_, stackEnter_round hm allocation level hn
        (fun i hi => hreads i (Nat.lt_succ_of_lt hi)) hpushes hround,
        stoppedAfter_round (Nat.le_of_lt hn) _⟩

end Enter

/-! ## Frames -/

/-- The words that PUSHAD pushes. -/
def pushadWords (s : Ctx Host) : List U32 := pushadOrder.map (saved (s.cpu.reg esp) s)

/-- The words of a frame: the old frame pointer, the outer ones, and the new one. -/
def frameWords (m : Mem) (s : Ctx Host) (level : Nat) : List U32 :=
  (s.cpu.reg ebp :: (List.range (level - 1)).map fun i => word m s.mem (slot (s.cpu.reg ebp) i)) ++
    if level = 0 then [] else [s.cpu.reg esp - 4]

/-- The words below a stack pointer can be read and written, and share no byte. -/
structure StackWords (m : Mem) (top : U32) (n : Nat) : Prop where
  readable : ∀ k < n, m.Granted memRead (slot top k) .dword
  writable : ∀ k < n, m.Granted memWrite (slot top k) .dword
  separate : Separate m top n

/-- The outer frame pointers can be read, and share no byte with the words below the stack
pointer. -/
structure OuterFrames (m : Mem) (s : Ctx Host) (links words : Nat) : Prop where
  readable : ∀ i < links, m.Granted memRead (slot (s.cpu.reg ebp) i) .dword
  apart : ∀ i < links, ∀ k < words, Apart m (slot (s.cpu.reg esp) k) (slot (s.cpu.reg ebp) i)

section Frames

variable {m : Mem} {s t u : Ctx Host} {n k : Nat}

/-- A word below the stack pointer, counted from the last one pushed. -/
theorem slot_back (top : U32) (hk : k < n) :
    top - BitVec.ofNat 32 (4 * n) + BitVec.ofNat 32 (4 * k) = slot top (n - 1 - k) := by
  have hsplit : 4 * n = 4 * k + 4 * (n - 1 - k + 1) := by omega
  unfold slot
  rw [hsplit, BitVec.ofNat_add]
  generalize BitVec.ofNat 32 (4 * k) = b
  generalize BitVec.ofNat 32 (4 * (n - 1 - k + 1)) = c
  bv_omega

theorem length_frameWords (m : Mem) (s : Ctx Host) (level : Nat) :
    (frameWords m s level).length = if level = 0 then 1 else level + 1 := by
  unfold frameWords
  rw [List.length_append, List.length_cons, List.length_map, List.length_range]
  split_ifs with h
  · subst h; rfl
  · simp only [List.length_cons, List.length_nil]
    omega

theorem enterAll_eq {level : Nat}
    (hwords : StackWords m (s.cpu.reg esp) (frameWords m s level).length)
    (houter : OuterFrames m s (level - 1) (frameWords m s level).length) :
    enterAll m s level = frameWords m s level := by
  have hlen : level - 1 + 1 ≤ (frameWords m s level).length := by
    rw [length_frameWords]
    split_ifs <;> omega
  unfold enterAll frameWords
  rw [enterWords_apart (fun k hk => hwords.writable k (by omega))
    fun i hi k hk => houter.apart i hi k (by omega)]

/-! ## PUSHAD and POPAD -/

theorem stackPushad_ok (hm : m.WellFormed)
    (hw : ∀ k < 8, m.Granted memWrite (slot (s.cpu.reg esp) k) .dword) :
    stackPushad (guestMem m) s = .ok () (pushed m s (pushadWords s)) := by
  unfold stackPushad
  rw [ask_bind]
  exact run_pushes hm (s.cpu.reg esp) pushadOrder hw

/-- POPAD takes the registers in the order opposite to PUSHAD. -/
theorem popadOrder_eq : popadOrder = pushadOrder.reverse := rfl

theorem stackPopad_ok (hm : m.WellFormed) (hwords : StackWords m (s.cpu.reg esp) 8)
    (hmem : u.mem = (pushed m s (pushadWords s)).mem)
    (hesp : u.cpu.reg esp = (pushed m s (pushadWords s)).cpu.reg esp) :
    ∃ v, stackPopad (guestMem m) u = .ok () v ∧ v.mem = u.mem ∧ StackBeside u v ∧
      ∀ r, v.cpu.reg r = s.cpu.reg r := by
  have htop : u.cpu.reg esp = s.cpu.reg esp - BitVec.ofNat 32 (4 * 8) := hesp.trans pushed_esp
  obtain ⟨v, hrun, hvmem, hvbeside, hvesp, -, htaken⟩ := stackPopad_run (s := u) hm popadOrder
    (by decide)
    fun k (hk : k < 8) => by
      rw [htop, slot_back _ hk]
      exact hwords.readable _ (by omega)
  refine ⟨v, hrun, hvmem, hvbeside, fun r => ?_⟩
  by_cases hr : r = esp
  · subst hr
    rw [hvesp, htop]
    exact BitVec.sub_add_cancel _ _
  · -- the word that the register comes from, and what was pushed into it
    have hmem' : r ∈ popadOrder := by
      revert r
      decide
    obtain ⟨k, hk, rfl⟩ := List.getElem_of_mem hmem'
    have hk8 : k < 8 := hk
    have hk' : 8 - 1 - k < (pushadWords s).length := by
      change 8 - 1 - k < 8
      omega
    have hback : word m (pushed m s (pushadWords s)).mem (slot (s.cpu.reg esp) (8 - 1 - k)) =
        (pushadWords s)[8 - 1 - k] :=
      word_pushed (by exact hwords.writable) (by exact hwords.separate) hk'
    have hsaved : (pushadWords s)[8 - 1 - k] = saved (s.cpu.reg esp) s popadOrder[k] := by
      have hpush : popadOrder[k] = pushadOrder[8 - 1 - k] := by
        simp only [popadOrder_eq]
        exact List.getElem_reverse _
      rw [hpush]
      exact List.getElem_map _
    rw [htaken k hk hr, htop, slot_back _ hk8, hmem, hback, hsaved]
    exact if_neg hr

/-- The words before `j` are popped into their registers, and the stack pointer names word `j`. -/
structure PoppedBefore (m : Mem) (s : Ctx Host) (j : Nat) (t : Ctx Host) : Prop where
  memory : t.mem = s.mem
  top : t.cpu.reg esp = s.cpu.reg esp + BitVec.ofNat 32 (4 * j)
  registers : ∀ (k : Nat) (hk : k < popadOrder.length), popadOrder[k] ≠ esp →
    t.cpu.reg popadOrder[k] = if k < j then word m s.mem (s.cpu.reg esp + BitVec.ofNat 32 (4 * k))
      else s.cpu.reg popadOrder[k]
  beside : StackBeside s t

/-- A refused read leaves the registers popped before it. -/
theorem stackPopad_refused (hm : m.WellFormed) {j : Nat} (hj : j < popadOrder.length)
    (hr : ∀ k < j, m.Granted memRead (s.cpu.reg esp + BitVec.ofNat 32 (4 * k)) .dword)
    (hno : ¬ m.Granted memRead (s.cpu.reg esp + BitVec.ofNat 32 (4 * j)) .dword) :
    ∃ t, stackPopad (guestMem m) s =
        .error (.fault .memoryFault (s.cpu.reg esp + BitVec.ofNat 32 (4 * j))) t ∧
      PoppedBefore m s j t := by
  have hnodup : popadOrder.Nodup := by decide
  have hlen : (popadOrder.take j).length = j := List.length_take_of_le (Nat.le_of_lt hj)
  obtain ⟨t, hok, hmem, hbeside, hesp, hother, htaken⟩ := stackPopad_run (s := s) hm
    (popadOrder.take j) (hnodup.sublist (List.take_sublist j _))
    fun k hk => hr k (by rwa [hlen] at hk)
  rw [hlen] at hesp
  have hround : popadRound (guestMem m) popadOrder[j] t =
      .error (.fault .memoryFault (s.cpu.reg esp + BitVec.ofNat 32 (4 * j))) t := by
    rw [← hesp] at hno ⊢
    exact bind_error (pop32_refused hm hno)
  have hsplit : popadOrder = popadOrder.take j ++ popadOrder[j] :: popadOrder.drop (j + 1) := by
    rw [List.getElem_cons_drop, List.take_append_drop]
  refine ⟨t, ?_, hmem, hesp, fun k hk hke => ?_, hbeside⟩
  · unfold stackPopad
    rw [hsplit]
    exact forM_refused hok hround
  · by_cases hkj : k < j
    · rw [if_pos hkj]
      have hk' : k < (popadOrder.take j).length := by rwa [hlen]
      have hget : (popadOrder.take j)[k] = popadOrder[k] := List.getElem_take
      rw [← hget] at hke ⊢
      exact htaken k hk' hke
    · rw [if_neg hkj]
      refine hother _ (fun hmem => hkj ?_) hke
      obtain ⟨l, hl, heq⟩ := List.getElem_of_mem hmem
      rw [List.getElem_take] at heq
      rw [hlen] at hl
      rwa [← (List.Nodup.getElem_inj_iff hnodup).mp heq]

/-! ## LEAVE -/

theorem executeLeave_ok (hm : m.WellFormed)
    (hr : m.Granted memRead (u.cpu.reg ebp) .dword) :
    ∃ v, executeLeave (guestMem m) u = .ok () v ∧ v.mem = u.mem ∧
      v.cpu.reg esp = u.cpu.reg ebp + 4 ∧ v.cpu.reg ebp = word m u.mem (u.cpu.reg ebp) ∧
        ∀ r, r ≠ esp → r ≠ ebp → v.cpu.reg r = u.cpu.reg r := by
  let moved := u.withRegs (regWrite u.cpu.toCpuState esp .dword (u.cpu.reg ebp))
  have hmoved : writeReg esp 4 (u.cpu.reg ebp) u = .ok () moved :=
    writeReg_ok esp (w := .dword) rfl (u.cpu.reg ebp)
  have hesp : moved.cpu.reg esp = u.cpu.reg ebp := by simp [moved, Ctx.withRegs, regWrite]
  have hpop := pop32_ok (s := moved) hm (by rw [hesp]; exact hr)
  rw [hesp] at hpop
  let popped := moved.withRegs (moved.cpu.toCpuState.setReg esp (u.cpu.reg ebp + 4))
  refine ⟨popped.withRegs (regWrite popped.cpu.toCpuState ebp .dword
    (word m u.mem (u.cpu.reg ebp))), ?_, rfl, ?_, ?_, fun r hsp hbp => ?_⟩
  · unfold executeLeave
    rw [ask_bind, bind_ok hmoved, bind_ok hpop]
    exact writeReg_ok ebp (w := .dword) rfl _
  · simp [popped, Ctx.withRegs, regWrite, show esp ≠ ebp by decide]
  · simp [Ctx.withRegs, regWrite]
  · simp [popped, moved, Ctx.withRegs, regWrite, hsp, hbp]

/-- A refused read leaves the stack pointer on the frame, and everything else as it was. -/
theorem executeLeave_refused (hm : m.WellFormed)
    (hno : ¬ m.Granted memRead (u.cpu.reg ebp) .dword) :
    executeLeave (guestMem m) u = .error (.fault .memoryFault (u.cpu.reg ebp))
      (u.withRegs (u.cpu.toCpuState.setReg esp (u.cpu.reg ebp))) := by
  let moved := u.withRegs (u.cpu.toCpuState.setReg esp (u.cpu.reg ebp))
  have hmoved : writeReg esp 4 (u.cpu.reg ebp) u = .ok () moved :=
    writeReg_ok esp (w := .dword) rfl (u.cpu.reg ebp)
  have hesp : moved.cpu.reg esp = u.cpu.reg ebp := by simp [moved, Ctx.withRegs]
  have hpop := pop32_refused (s := moved) hm (by rwa [hesp])
  rw [hesp] at hpop
  unfold executeLeave
  rw [ask_bind, bind_ok hmoved]
  exact bind_error hpop

/-! ## Nesting and unwinding -/

/-- PUSHAD leaves its words and moves the stack pointer only; POPAD behind it, whatever came
between, takes all eight registers back. -/
def PushadUnwinds (m : Mem) (s : Ctx Host) : Prop :=
  ∃ t, stackPushad (guestMem m) s = .ok () t ∧ t.mem = (pushed m s (pushadWords s)).mem ∧
    t.cpu.reg esp = s.cpu.reg esp - 32 ∧ (∀ r ≠ esp, t.cpu.reg r = s.cpu.reg r) ∧
    StackBeside s t ∧
    (∀ (k : Nat) (hk : k < (pushadWords s).length),
      word m t.mem (slot (s.cpu.reg esp) k) = (pushadWords s)[k]) ∧
    ∀ u, u.mem = t.mem → u.cpu.reg esp = t.cpu.reg esp →
      ∃ v, stackPopad (guestMem m) u = .ok () v ∧ v.mem = u.mem ∧ StackBeside u v ∧
        ∀ r, v.cpu.reg r = s.cpu.reg r

/-- ENTER leaves its words and the new frame; LEAVE behind it, whatever came between, takes the
stack pointer and the frame pointer back. -/
def EnterUnwinds (m : Mem) (s : Ctx Host) (allocation level : U32) : Prop :=
  ∃ t, stackEnter (guestMem m) allocation level s = .ok () t ∧
    Entered m s allocation (frameWords m s (level.toNat % 32)) t ∧
    (∀ (k : Nat) (hk : k < (frameWords m s (level.toNat % 32)).length),
      word m t.mem (slot (s.cpu.reg esp) k) = (frameWords m s (level.toNat % 32))[k]) ∧
    ∀ u, u.mem = t.mem → u.cpu.reg ebp = t.cpu.reg ebp →
      ∃ v, executeLeave (guestMem m) u = .ok () v ∧ v.mem = u.mem ∧
        v.cpu.reg esp = s.cpu.reg esp ∧ v.cpu.reg ebp = s.cpu.reg ebp ∧
        ∀ r, r ≠ esp → r ≠ ebp → v.cpu.reg r = u.cpu.reg r

theorem pushadUnwinds (hm : m.WellFormed) (hwords : StackWords m (s.cpu.reg esp) 8) :
    PushadUnwinds m s := by
  refine ⟨pushed m s (pushadWords s), stackPushad_ok hm hwords.writable, rfl, pushed_esp,
    fun r hr => pushed_reg hr, pushed_beside,
    fun k hk => word_pushed (by exact hwords.writable) (by exact hwords.separate) hk,
    fun u hmem hesp => ?_⟩
  exact stackPopad_ok hm hwords hmem hesp

theorem enterUnwinds (hm : m.WellFormed) (allocation level : U32)
    (hwords : StackWords m (s.cpu.reg esp) (frameWords m s (level.toNat % 32)).length)
    (houter : OuterFrames m s (level.toNat % 32 - 1)
      (frameWords m s (level.toNat % 32)).length) :
    EnterUnwinds m s allocation level := by
  have hall := enterAll_eq hwords houter
  obtain ⟨t, hrun, hentered⟩ := stackEnter_ok (s := s) hm allocation level houter.readable
    (by rw [hall]; exact hwords.writable)
  rw [hall] at hentered
  have hback (k : Nat) (hk : k < (frameWords m s (level.toNat % 32)).length) :
      word m t.mem (slot (s.cpu.reg esp) k) = (frameWords m s (level.toNat % 32))[k] := by
    rw [hentered.memory]
    exact word_pushed hwords.writable hwords.separate hk
  refine ⟨t, hrun, hentered, hback, fun u hmem hebp => ?_⟩
  -- the frame pointer names the first word, which is the old frame pointer
  have hfirst : 0 < (frameWords m s (level.toNat % 32)).length := by
    rw [length_frameWords]
    split_ifs <;> omega
  have hframe : u.cpu.reg ebp = slot (s.cpu.reg esp) 0 := hebp.trans hentered.frame
  obtain ⟨v, hleave, hvmem, hvesp, hvebp, hvother⟩ := executeLeave_ok (u := u) hm (by
    rw [hframe]
    exact hwords.readable 0 hfirst)
  refine ⟨v, hleave, hvmem, ?_, ?_, hvother⟩
  · rw [hvesp, hframe, slot_zero]
    exact BitVec.sub_add_cancel _ _
  · rw [hvebp, hframe, hmem, hback 0 hfirst]
    rfl

theorem stackPushad_refused (hm : m.WellFormed) {j : Nat} (hj : j < (pushadWords s).length)
    (hw : ∀ k < j, m.Granted memWrite (slot (s.cpu.reg esp) k) .dword)
    (hno : ¬ m.Granted memWrite (slot (s.cpu.reg esp) j) .dword) :
    ∃ t, stackPushad (guestMem m) s =
        .error (.fault .memoryFault (slot (s.cpu.reg esp) j)) t ∧
      StoppedAfter m s (pushadWords s) j (s.cpu.reg ebp) t := by
  have hrun := pushes_refused (s := s) hm (s.cpu.reg esp) pushadOrder hj hw hno
  refine ⟨pushed m s ((pushadWords s).take j), ?_, rfl, ?_, pushed_reg (by decide),
    fun r hsp _ => pushed_reg hsp, pushed_beside⟩
  · unfold stackPushad
    rw [ask_bind]
    exact hrun
  · rw [pushed_esp, List.length_take, Nat.min_eq_left (Nat.le_of_lt hj)]

/-- What PUSHAD, ENTER, POPAD and LEAVE leave when they meet a refusal, by the first access that is
refused: its address is reported, and the steps before it are done. -/
structure RefusalsStop (m : Mem) (s : Ctx Host) : Prop where
  pushad : ∀ j < (pushadWords s).length,
    (∀ k < j, m.Granted memWrite (slot (s.cpu.reg esp) k) .dword) →
    ¬ m.Granted memWrite (slot (s.cpu.reg esp) j) .dword →
    ∃ t, stackPushad (guestMem m) s = .error (.fault .memoryFault (slot (s.cpu.reg esp) j)) t ∧
      StoppedAfter m s (pushadWords s) j (s.cpu.reg ebp) t
  enterPush : ∀ allocation level k, PushRefused m s (level.toNat % 32) k →
    ∃ t, stackEnter (guestMem m) allocation level s =
        .error (.fault .memoryFault (slot (s.cpu.reg esp) k)) t ∧
      StoppedAfter m s (enterAll m s (level.toNat % 32)) k
        (s.cpu.reg ebp - BitVec.ofNat 32 (4 * min k (level.toNat % 32 - 1))) t
  enterRead : ∀ allocation level i, ReadRefused m s (level.toNat % 32) i →
    ∃ t, stackEnter (guestMem m) allocation level s =
        .error (.fault .memoryFault (slot (s.cpu.reg ebp) i)) t ∧
      StoppedAfter m s (enterAll m s (level.toNat % 32)) (i + 1) (slot (s.cpu.reg ebp) i) t
  popad : ∀ j < popadOrder.length,
    (∀ k < j, m.Granted memRead (s.cpu.reg esp + BitVec.ofNat 32 (4 * k)) .dword) →
    ¬ m.Granted memRead (s.cpu.reg esp + BitVec.ofNat 32 (4 * j)) .dword →
    ∃ t, stackPopad (guestMem m) s =
        .error (.fault .memoryFault (s.cpu.reg esp + BitVec.ofNat 32 (4 * j))) t ∧
      PoppedBefore m s j t
  leave : ¬ m.Granted memRead (s.cpu.reg ebp) .dword →
    executeLeave (guestMem m) s = .error (.fault .memoryFault (s.cpu.reg ebp))
      (s.withRegs (s.cpu.toCpuState.setReg esp (s.cpu.reg ebp)))

/-- Frames nest and unwind; the first access that is refused, push or read, stops the instruction
there, with the words of the steps before it written and the stack pointer on the last of them. -/
theorem stack_frames (hm : m.WellFormed) (s : Ctx Host) :
    (StackWords m (s.cpu.reg esp) 8 → PushadUnwinds m s) ∧
    (∀ allocation level,
      StackWords m (s.cpu.reg esp) (frameWords m s (level.toNat % 32)).length →
      OuterFrames m s (level.toNat % 32 - 1) (frameWords m s (level.toNat % 32)).length →
      EnterUnwinds m s allocation level) ∧
    RefusalsStop m s where
  left := pushadUnwinds hm
  right := ⟨enterUnwinds hm, {
    pushad := fun _ hj hw hno => stackPushad_refused hm hj hw hno
    enterPush := fun allocation level _ => stackEnter_pushRefused hm allocation level
    enterRead := fun allocation level _ => stackEnter_readRefused hm allocation level
    popad := fun _ hj hr hno => stackPopad_refused hm hj hr hno
    leave := executeLeave_refused hm }⟩

end Frames

/-- A window of one page. -/
def stackPage : Mem := ⟨0, 0, 0x1000, none, none⟩

/-- A CPU on the page. -/
def onPage (top frame : U32) : Ctx Host :=
  filled.withRegs ((filled.cpu.toCpuState.setReg esp top).setReg ebp frame)

theorem stackWords_stackPage : StackWords stackPage 0x800 8 :=
  ⟨by decide, by decide, by unfold Whole; decide, by unfold Apart; decide⟩

/-- Frames in the middle of the page; PUSHAD and ENTER at its lower end and POPAD and LEAVE at its
upper end, where the third push or read, the second outer frame pointer and the frame are not on
the page. -/
theorem stack_frames_onePage :
    PushadUnwinds stackPage (onPage 0x800 0x900) ∧
    EnterUnwinds stackPage (onPage 0x800 0x900) 16 7 ∧
    (∃ t, stackPushad (guestMem stackPage) (onPage 8 0x900) =
        .error (.fault .memoryFault 0xFFFFFFFC) t ∧
      StoppedAfter stackPage (onPage 8 0x900) (pushadWords (onPage 8 0x900)) 2 0x900 t) ∧
    (∃ t, stackEnter (guestMem stackPage) 16 7 (onPage 8 0x900) =
        .error (.fault .memoryFault 0xFFFFFFFC) t ∧
      StoppedAfter stackPage (onPage 8 0x900) (enterAll stackPage (onPage 8 0x900) 7) 2 0x8F8 t) ∧
    (∃ t, stackEnter (guestMem stackPage) 16 7 (onPage 0x800 4) =
        .error (.fault .memoryFault 0xFFFFFFFC) t ∧
      StoppedAfter stackPage (onPage 0x800 4) (enterAll stackPage (onPage 0x800 4) 7) 2 0xFFFFFFFC t) ∧
    (∃ t, stackPopad (guestMem stackPage) (onPage 0xFF8 0) = .error (.fault .memoryFault 0x1000) t ∧
      PoppedBefore stackPage (onPage 0xFF8 0) 2 t) ∧
    ∃ t, executeLeave (guestMem stackPage) (onPage 0x800 0x1000) =
      .error (.fault .memoryFault 0x1000) t := by
  have hwell : stackPage.WellFormed := Memory.wellFormed_window rfl
  have hmiddle := stack_frames hwell (onPage 0x800 0x900)
  have hlow := (stack_frames hwell (onPage 8 0x900)).2.2
  have hframe := (stack_frames hwell (onPage 0x800 4)).2.2
  have hhigh := (stack_frames hwell (onPage 0xFF8 0)).2.2
  have hleave := (stack_frames hwell (onPage 0x800 0x1000)).2.2
  refine ⟨hmiddle.1 stackWords_stackPage, hmiddle.2.1 16 7 stackWords_stackPage
    ⟨by decide, by unfold Apart; decide⟩, ?_, ?_, ?_, ?_, ?_⟩
  · exact hlow.pushad 2 (by decide) (by decide) (by decide)
  · exact hlow.enterPush 16 7 2
      ⟨by rw [length_enterAll]; decide, by decide, by decide, by decide⟩
  · exact hframe.enterRead 16 7 1 ⟨by decide, by decide, by decide, by decide⟩
  · exact hhigh.popad 2 (by decide) (by decide) (by decide)
  · exact ⟨_, hleave.leave (by decide)⟩

end X86Port.Cpu
