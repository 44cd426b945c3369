import X86Port.Arm64.EmitWords

/-!
# What the words of the encoder do

A call of `emit_arm64.c` that writes straight-line code, as a function of the host's state.

* `Emits`: a call puts words down that come to this function.
* `emits_movWImm32`, `emits_movXImm64`, `emits_movXImm64Fixed`: constants, in pieces of 16 bits.
-/

namespace X86Port.Arm64

open Lib (CodeBuffer)

/-! ## Registers -/

namespace A64State

variable (s : A64State) {r r' : RegNo} {v v' : U64}

@[simp] theorem x_zero : s.x 31 = 0 := if_pos rfl

theorem x_of_ne (h : r ≠ 31) : s.x r = s.gpr r := if_neg h

theorem setX_of_ne (h : r ≠ 31) (v : U64) : s.setX r v = s.setSp r v := if_neg h

@[simp] theorem setX_zero (v : U64) : s.setX 31 v = s := if_pos rfl

@[simp] theorem setSp_setSp : (s.setSp r v).setSp r v' = s.setSp r v' := by
  unfold setSp
  rw [Function.update_idem]

theorem setSp_gpr_self (r : RegNo) (v : U64) : (s.setSp r v).gpr r = v := by
  unfold setSp
  dsimp only
  rw [Function.update_self]

theorem setSp_gpr_of_ne (h : r' ≠ r) (v : U64) : (s.setSp r v).gpr r' = s.gpr r' := by
  unfold setSp
  dsimp only
  rw [Function.update_of_ne h]

@[simp] theorem setX_setX : (s.setX r v).setX r v' = s.setX r v' := by
  by_cases h : r = 31
  · subst h
    rw [setX_zero, setX_zero, setX_zero]
  · rw [setX_of_ne _ h, setX_of_ne _ h, setX_of_ne _ h, setSp_setSp]

theorem setX_x_self (h : r ≠ 31) : (s.setX r v).x r = v := by
  rw [setX_of_ne _ h, x_of_ne _ h]
  exact Function.update_self ..

theorem setX_x_of_ne (h : r' ≠ r) : (s.setX r v).x r' = s.x r' := by
  unfold setX x
  split_ifs with h'
  · rfl
  · rfl
  · exact Function.update_of_ne h _ _

/-- The address of a load or store. -/
def addr (s : A64State) (base : RegNo) (disp : U32) : U64 := s.gpr base + disp.signExtend 64

end A64State

/-! ## Words one after the other -/

def runWords (words : List U32) (s : A64State) : Option A64State :=
  words.foldlM (fun s word => (decode word).bind fun i => i.exec s) s

theorem runWords_append (ws ws' : List U32) (s : A64State) :
    runWords (ws ++ ws') s = (runWords ws s).bind (runWords ws') := List.foldlM_append

/-- The call puts words down that turn every state into its image. -/
def Emits (e e' : A64Emit) (f : A64State → A64State) : Prop :=
  ∃ words, e' = { e with code := e.code.putAll words } ∧ ∀ s, runWords words s = some (f s)

section

variable {e e' e'' : A64Emit} {f g : A64State → A64State}

theorem Emits.refl (e : A64Emit) : Emits e e id := ⟨[], rfl, fun _ => rfl⟩

theorem Emits.trans (h : Emits e e' f) (h' : Emits e' e'' g) : Emits e e'' (g ∘ f) := by
  obtain ⟨ws, rfl, hrun⟩ := h
  obtain ⟨ws', rfl, hrun'⟩ := h'
  refine ⟨ws ++ ws', ?_, fun s => ?_⟩
  · rw [CodeBuffer.putAll_putAll]
  · rw [runWords_append, hrun, Option.bind_some, hrun']
    rfl

theorem Emits.word {word : U32} {i : A64Instr} (hdecode : decode word = some i)
    (hexec : ∀ s, i.exec s = some (f s)) : Emits e (e.put32 word) f := by
  refine ⟨[word], rfl, fun s => ?_⟩
  change ((decode word).bind fun i => i.exec s).bind pure = _
  rw [hdecode, Option.bind_some, hexec]
  rfl

theorem Emits.congr (h : Emits e e' f) (heq : ∀ s, f s = g s) : Emits e e' g :=
  funext heq ▸ h

end

/-! ## Moves -/

section

variable (e : A64Emit) (rd rn rm : RegNo)

theorem emits_movz (sf : Bool) (hw : BitVec 2) (imm16 : U16) (h : sf = false → hw.toNat < 2) :
    Emits e (e.moveWide sf 2 hw imm16 rd) fun s =>
      s.write rd (imm16.setWidth (sizeOf sf) <<< (16 * hw.toNat)) :=
  Emits.word (decode_moveWide sf rd 2 hw imm16) fun s => by
    have hsize : ¬ (sf = false ∧ 2 ≤ hw.toNat) := fun h' => by have := h h'.1; omega
    exact (if_neg hsize).trans ((if_neg (by decide)).trans (if_pos rfl))

theorem emits_movk (sf : Bool) (hw : BitVec 2) (imm16 : U16) (h : sf = false → hw.toNat < 2) :
    Emits e (e.moveWide sf 3 hw imm16 rd) fun s =>
      s.write rd (s.read sf rd &&& ~~~((0xFFFF#16).setWidth (sizeOf sf) <<< (16 * hw.toNat)) |||
        imm16.setWidth (sizeOf sf) <<< (16 * hw.toNat)) :=
  Emits.word (decode_moveWide sf rd 3 hw imm16) fun s => by
    have hsize : ¬ (sf = false ∧ 2 ≤ hw.toNat) := fun h' => by have := h h'.1; omega
    exact (if_neg hsize).trans ((if_neg (by decide)).trans ((if_neg (by decide)).trans
      (if_pos rfl)))

end

section

variable {n : Nat} (imm : BitVec n) {k : Nat}

/-- The lowest bits of a constant. -/
def lowBits (imm : BitVec n) (k : Nat) : BitVec n := BitVec.ofNat n (imm.toNat % 2 ^ k)

theorem toNat_lowBits (k : Nat) : (lowBits imm k).toNat = imm.toNat % 2 ^ k := by
  rw [lowBits, BitVec.toNat_ofNat]
  exact Nat.mod_eq_of_lt ((Nat.mod_le _ _).trans_lt imm.isLt)

theorem lowBits_all : lowBits imm n = imm :=
  BitVec.eq_of_toNat_eq (by rw [toNat_lowBits, Nat.mod_eq_of_lt imm.isLt])

/-- Sixteen more bits of a constant. -/
theorem mod_add_piece (a k : Nat) :
    a % 2 ^ (k + 16) = a % 2 ^ k + a / 2 ^ k % 2 ^ 16 * 2 ^ k := by
  rw [Nat.pow_add, Nat.mod_mul, Nat.mul_comm (2 ^ k)]

theorem toNat_piece (piece : U16) (hk : k + 16 ≤ n) :
    (piece.setWidth n <<< k).toNat = piece.toNat * 2 ^ k := by
  have hpiece : piece.toNat * 2 ^ k < 2 ^ n := calc
    piece.toNat * 2 ^ k < 2 ^ 16 * 2 ^ k :=
        Nat.mul_lt_mul_of_pos_right piece.isLt (Nat.two_pow_pos k)
    _ = 2 ^ (k + 16) := by rw [Nat.pow_add, Nat.mul_comm]
    _ ≤ 2 ^ n := Nat.pow_le_pow_right (by decide) hk
  have hwide : piece.toNat < 2 ^ n :=
    piece.isLt.trans_le (Nat.pow_le_pow_right (by decide) (by omega))
  rw [BitVec.toNat_shiftLeft, BitVec.toNat_setWidth, Nat.mod_eq_of_lt hwide, Nat.shiftLeft_eq,
    Nat.mod_eq_of_lt hpiece]

theorem movz_lowBits {piece : U16} (hpiece : piece.toNat = imm.toNat / 2 ^ k % 2 ^ 16)
    (hk : k + 16 ≤ n) (hzero : imm.toNat % 2 ^ k = 0) :
    piece.setWidth n <<< k = lowBits imm (k + 16) :=
  BitVec.eq_of_toNat_eq (by
    rw [toNat_piece piece hk, toNat_lowBits, mod_add_piece, hzero, hpiece, Nat.zero_add])

theorem movk_lowBits {piece : U16} (hpiece : piece.toNat = imm.toNat / 2 ^ k % 2 ^ 16)
    (hk : k + 16 ≤ n) :
    lowBits imm k &&& ~~~((0xFFFF#16).setWidth n <<< k) ||| piece.setWidth n <<< k =
      lowBits imm (k + 16) := by
  have hlow : (lowBits imm k).toNat < 2 ^ k := by
    rw [toNat_lowBits]
    exact Nat.mod_lt _ (Nat.two_pow_pos k)
  have hkeep : lowBits imm k &&& ~~~((0xFFFF#16).setWidth n <<< k) = lowBits imm k := by
    apply BitVec.eq_of_getLsbD_eq
    intro i hi
    rw [BitVec.getLsbD_and, BitVec.getLsbD_not, Lib.getLsbD_placed]
    by_cases hik : k ≤ i
    · have hbit : (lowBits imm k).getLsbD i = false :=
        Nat.testBit_lt_two_pow (hlow.trans_le (Nat.pow_le_pow_right (by decide) hik))
      rw [hbit, Bool.false_and]
    · simp [hik, hi]
  rw [hkeep]
  apply BitVec.eq_of_toNat_eq
  rw [BitVec.toNat_or, toNat_piece piece hk, toNat_lowBits, toNat_lowBits, mod_add_piece, ← hpiece,
    Nat.or_comm, Nat.mul_comm, ← Nat.two_pow_add_eq_or_of_lt (Nat.mod_lt _ (Nat.two_pow_pos k)),
    Nat.add_comm]

theorem lowBits_skip (h : imm.toNat / 2 ^ k % 2 ^ 16 = 0) : lowBits imm (k + 16) = lowBits imm k :=
  BitVec.eq_of_toNat_eq (by
    rw [toNat_lowBits, toNat_lowBits, mod_add_piece, h, Nat.zero_mul, Nat.add_zero])

end

namespace A64State

theorem read_write {sf : Bool} {r : RegNo} (s : A64State) (h : r ≠ 31) (v : BitVec (sizeOf sf)) :
    (s.write r v).read sf r = v := by
  unfold write read
  rw [setX_x_self s h, BitVec.setWidth_setWidth_of_le]
  · exact BitVec.setWidth_eq v
  · cases sf <;> decide

/-- A register that is changed by way of what was written before. -/
theorem write_read_write {sf : Bool} (s : A64State) (r : RegNo) (v : BitVec (sizeOf sf))
    (g : BitVec (sizeOf sf) → BitVec (sizeOf sf)) :
    (s.write r v).write r (g ((s.write r v).read sf r)) = s.write r (g v) := by
  by_cases h : r = 31
  · subst h
    unfold write
    rw [setX_zero, setX_zero, setX_zero]
  · rw [read_write s h]
    exact s.setX_setX

end A64State

section

variable (e : A64Emit) (dst src : RegNo)

theorem toNat_masked_half (v : U32) :
    ((v &&& 0xFFFF).setWidth 16 : U16).toNat = v.toNat % 2 ^ 16 := by
  rw [BitVec.toNat_setWidth, BitVec.toNat_and]
  change (v.toNat &&& (2 ^ 16 - 1)) % 2 ^ 16 = _
  rw [Nat.and_two_pow_sub_one_eq_mod, Nat.mod_mod]

theorem emits_movWImm32 (imm : U32) :
    Emits e (e.movWImm32 dst imm) fun s => s.write dst imm := by
  have hlo := toNat_masked_half imm
  have hhi := toNat_masked_half (imm >>> 16)
  rw [BitVec.toNat_ushiftRight, Nat.shiftRight_eq_div_pow] at hhi
  unfold A64Emit.movWImm32
  dsimp only
  generalize ((imm &&& 0xFFFF).setWidth 16 : U16) = lo at hlo ⊢
  generalize (((imm >>> 16) &&& 0xFFFF).setWidth 16 : U16) = hi at hhi ⊢
  have hlo' : lo.toNat = imm.toNat / 2 ^ 0 % 2 ^ 16 := by rw [hlo, Nat.pow_zero, Nat.div_one]
  have hz : lo.setWidth 32 <<< 0 = lowBits imm 16 :=
    movz_lowBits imm hlo' (by decide) (Nat.mod_one _)
  split_ifs with h h'
  · refine (emits_movz e dst false 0 lo fun _ => by decide).congr fun s => ?_
    have hsmall : lowBits imm (16 + 16) = lowBits imm 16 :=
      lowBits_skip imm (by rw [← hhi, h]; rfl)
    change s.write dst (lo.setWidth 32 <<< 0) = _
    rw [hz, ← hsmall, lowBits_all]
  · refine (emits_movz e dst false 1 hi fun _ => by decide).congr fun s => ?_
    have hnone : imm.toNat % 2 ^ 16 = 0 := by rw [← hlo, h']; rfl
    change s.write dst (hi.setWidth 32 <<< 16) = _
    rw [movz_lowBits imm hhi (by decide) hnone, lowBits_all]
  · refine ((emits_movz e dst false 0 lo fun _ => by decide).trans
      (emits_movk _ dst false 1 hi fun _ => by decide)).congr fun s => ?_
    refine (@A64State.write_read_write false s dst (lo.setWidth 32 <<< 0) fun v : U32 =>
      v &&& ~~~((0xFFFF#16).setWidth 32 <<< 16) ||| hi.setWidth 32 <<< 16).trans ?_
    rw [hz]
    exact congrArg (s.write dst) ((movk_lowBits imm hhi (by decide)).trans (lowBits_all imm))

/-! ### Constants of 64 bits -/

theorem toNat_chunk (imm : U64) (i : BitVec 2) :
    (A64Emit.chunk imm i).toNat = imm.toNat / 2 ^ (16 * i.toNat) % 2 ^ 16 := by
  unfold A64Emit.chunk
  rw [BitVec.toNat_setWidth, BitVec.toNat_and, BitVec.toNat_ushiftRight, Nat.shiftRight_eq_div_pow]
  change (_ &&& (2 ^ 16 - 1)) % 2 ^ 16 = _
  rw [Nat.and_two_pow_sub_one_eq_mod, Nat.mod_mod]

/-- The lowest `k` bits are loaded, or nothing has been written and they are zero. -/
def Loading (imm : U64) (k : Nat) (st : A64Emit × Bool) : Prop :=
  st.2 = false ∧ st.1 = e ∧ imm.toNat % 2 ^ k = 0 ∧ (k = 0 ∨ imm ≠ 0) ∨
    st.2 = true ∧ Emits e st.1 fun s => s.write dst (lowBits imm k)

theorem movk_next {e e' : A64Emit} {imm : U64} {k : Nat} (i : BitVec 2) (hk : 16 * i.toNat = k)
    (h : Emits e e' fun s => s.write dst (lowBits imm k)) :
    Emits e (e'.moveWide true 3 i (A64Emit.chunk imm i) dst) fun s =>
      s.write dst (lowBits imm (k + 16)) := by
  subst hk
  have hi := i.isLt
  refine (h.trans (emits_movk _ dst true i _ nofun)).congr fun s => ?_
  refine (@A64State.write_read_write true s dst (lowBits imm (16 * i.toNat)) fun v : U64 =>
    v &&& ~~~((0xFFFF#16).setWidth 64 <<< (16 * i.toNat)) |||
      (A64Emit.chunk imm i).setWidth 64 <<< (16 * i.toNat)).trans ?_
  exact congrArg (s.write dst) (movk_lowBits imm (toNat_chunk imm i) (by omega))

theorem movz_next {imm : U64} {k : Nat} (i : BitVec 2) (hk : 16 * i.toNat = k)
    (h : imm.toNat % 2 ^ k = 0) :
    Emits e (e.moveWide true 2 i (A64Emit.chunk imm i) dst) fun s =>
      s.write dst (lowBits imm (k + 16)) := by
  subst hk
  have hi := i.isLt
  refine (emits_movz e dst true i _ nofun).congr fun s => ?_
  exact congrArg (s.write dst) (movz_lowBits imm (toNat_chunk imm i) (by omega) h)

theorem movChunk_loading {imm : U64} {k : Nat} (i : BitVec 2) (hk : 16 * i.toNat = k)
    {st : A64Emit × Bool} (h : Loading e dst imm k st) :
    Loading e dst imm (k + 16) (A64Emit.movChunk dst imm st i) := by
  unfold A64Emit.movChunk
  split_ifs with hskip hfirst
  · have hchunk : imm.toNat / 2 ^ k % 2 ^ 16 = 0 := by
      rw [← hk, ← toNat_chunk, hskip.1]
      rfl
    rcases h with ⟨hwrote, heq, hlow, hne⟩ | ⟨hwrote, hemits⟩
    · refine .inl ⟨hwrote, heq, by rw [mod_add_piece, hlow, hchunk, Nat.zero_mul], .inr ?_⟩
      rcases hne with hzero | hne
      · have hi : i = 0 := BitVec.eq_of_toNat_eq (by change i.toNat = 0; omega)
        exact fun himm => hskip.2.2 ⟨himm, hi⟩
      · exact hne
    · exact .inr ⟨hwrote, lowBits_skip imm hchunk ▸ hemits⟩
  · rcases h with ⟨-, heq, hlow, -⟩ | ⟨hwrote, -⟩
    · refine .inr ⟨rfl, ?_⟩
      dsimp only
      rw [heq]
      exact movz_next e dst i hk hlow
    · rw [hwrote] at hfirst
      cases hfirst
  · rcases h with ⟨hwrote, -⟩ | ⟨hwrote, hemits⟩
    · exact absurd hwrote hfirst
    · exact .inr ⟨hwrote, movk_next dst i hk hemits⟩

theorem emits_movXImm64 (imm : U64) :
    Emits e (e.movXImm64 dst imm) fun s => s.write dst imm := by
  have h0 : Loading e dst imm 0 (e, false) := .inl ⟨rfl, rfl, Nat.mod_one _, .inl rfl⟩
  have h1 : Loading e dst imm 16 _ := movChunk_loading e dst 0 rfl h0
  have h2 : Loading e dst imm 32 _ := movChunk_loading e dst 1 rfl h1
  have h3 : Loading e dst imm 48 _ := movChunk_loading e dst 2 rfl h2
  have h4 : Loading e dst imm 64 _ := movChunk_loading e dst 3 rfl h3
  rcases h4 with ⟨-, -, hlow, hne⟩ | ⟨hwrote, hemits⟩
  · exfalso
    have himm := imm.isLt
    rw [Nat.mod_eq_of_lt himm] at hlow
    rcases hne with hzero | hne
    · cases hzero
    · exact hne (BitVec.eq_of_toNat_eq hlow)
  · unfold A64Emit.movXImm64
    have hlast : ¬ ([0, 1, 2, 3].foldl (A64Emit.movChunk dst imm) (e, false)).2 = false := fun h =>
      Bool.noConfusion (hwrote.symm.trans h)
    rw [if_neg hlast]
    exact hemits.congr fun s => congrArg (s.write dst) (lowBits_all imm)

theorem emits_movXImm64Fixed (imm : U64) :
    Emits e (e.movXImm64Fixed dst imm) fun s => s.write dst imm := by
  have h0 := movz_next e dst 0 (k := 0) rfl (Nat.mod_one imm.toNat)
  have h1 := movk_next dst 1 (k := 16) rfl h0
  have h2 := movk_next dst 2 (k := 32) rfl h1
  have h3 := movk_next dst 3 (k := 48) rfl h2
  exact h3.congr fun s => congrArg (s.write dst) (lowBits_all imm)

end

end X86Port.Arm64
