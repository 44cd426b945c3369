import X86Port.Arm64.ArithmeticEffects

/-!
# What the shifts and bit fields of the encoder do

* `getLsbD_fieldOf_down`, `getLsbD_fieldOf_up`: the bits of a bit field.
* `emits_shlWImm` to `emits_bfiW`: the calls.
-/

namespace X86Port.Arm64

/-! ## Bit fields -/

section

variable {k : Nat} (src : BitVec k) {immr imms : Nat}

theorem getLsbD_fieldOf_down (h : immr ≤ imms) (himms : imms < k) (i : Nat) :
    (fieldOf src immr imms).getLsbD i = (decide (immr + i ≤ imms) && src.getLsbD (immr + i)) := by
  unfold fieldOf
  rw [if_pos h, BitVec.getLsbD_ushiftRight, BitVec.getLsbD_shiftLeft,
    show k - 1 - imms + immr + i - (k - 1 - imms) = immr + i by omega]
  by_cases hi : immr + i ≤ imms
  · simp [hi, show k - 1 - imms + immr + i < k by omega,
      show ¬ k - 1 - imms + immr + i < k - 1 - imms by omega]
  · simp [hi, show ¬ k - 1 - imms + immr + i < k by omega]

theorem getLsbD_fieldOf_up (h : imms < immr) (himmr : immr < k) (i : Nat) :
    (fieldOf src immr imms).getLsbD i =
      (decide (k - immr ≤ i ∧ i ≤ k - immr + imms) && src.getLsbD (i - (k - immr))) := by
  unfold fieldOf
  rw [if_neg (by omega), BitVec.getLsbD_shiftLeft, BitVec.getLsbD_ushiftRight,
    BitVec.getLsbD_shiftLeft]
  by_cases hlow : k - immr ≤ i
  · by_cases hhigh : i ≤ k - immr + imms
    · rw [show k - 1 - imms + (i - (k - immr)) - (k - 1 - imms) = i - (k - immr) by omega]
      simp [hlow, hhigh, show i < k by omega, show ¬ i < k - immr by omega,
        show k - 1 - imms + (i - (k - immr)) < k by omega,
        show ¬ k - 1 - imms + (i - (k - immr)) < k - 1 - imms by omega]
    · simp [hhigh, show ¬ k - 1 - imms + (i - (k - immr)) < k by omega]
  · simp [hlow, show i < k - immr by omega]

/-- The `width` bits from `lsb` on. -/
def bitsFrom (src : BitVec k) (lsb width : Nat) : BitVec k :=
  (src >>> lsb) &&& BitVec.ofNat k (2 ^ width - 1)

theorem getLsbD_bitsFrom (lsb width i : Nat) (hi : i < k) :
    (bitsFrom src lsb width).getLsbD i = (decide (i < width) && src.getLsbD (lsb + i)) := by
  unfold bitsFrom
  rw [BitVec.getLsbD_and, BitVec.getLsbD_ushiftRight, BitVec.getLsbD_ofNat,
    Nat.testBit_two_pow_sub_one, decide_eq_true hi, Bool.true_and, Bool.and_comm]

theorem fieldOf_lsr {n : Nat} (h : n < k) : fieldOf src n (k - 1) = src >>> n := by
  apply BitVec.eq_of_getLsbD_eq
  intro i hi
  rw [getLsbD_fieldOf_down src (by omega) (by omega), BitVec.getLsbD_ushiftRight]
  by_cases hin : n + i ≤ k - 1
  · rw [decide_eq_true hin, Bool.true_and]
  · rw [BitVec.getLsbD_of_ge src (n + i) (by omega), Bool.and_false]

theorem fieldOf_lsl {n : Nat} (hpos : 0 < n) (h : n < k) :
    fieldOf src (k - n) (k - 1 - n) = src <<< n := by
  apply BitVec.eq_of_getLsbD_eq
  intro i hi
  rw [getLsbD_fieldOf_up src (by omega) (by omega), BitVec.getLsbD_shiftLeft,
    show k - (k - n) = n by omega]
  by_cases hin : n ≤ i
  · simp [hin, hi, show ¬ i < n by omega, show i ≤ n + (k - 1 - n) by omega]
  · simp [hin, show i < n by omega]

theorem fieldOf_extract {lsb width : Nat} (hpos : 0 < width) (h : lsb + width ≤ k) :
    fieldOf src lsb (lsb + width - 1) = bitsFrom src lsb width := by
  apply BitVec.eq_of_getLsbD_eq
  intro i hi
  rw [getLsbD_fieldOf_down src (by omega) (by omega), getLsbD_bitsFrom _ _ _ _ hi]
  congr 1
  rw [decide_eq_decide]
  omega

/-- The field of an insertion at `lsb`. -/
theorem fieldOf_insert {lsb width : Nat} (hpos : 0 < width) (h : lsb + width ≤ k) :
    fieldOf src ((k - lsb) % k) (width - 1) = bitsFrom src 0 width <<< lsb := by
  apply BitVec.eq_of_getLsbD_eq
  intro i hi
  rw [BitVec.getLsbD_shiftLeft]
  rcases Nat.eq_zero_or_pos lsb with rfl | hlsb
  · rw [Nat.sub_zero, Nat.mod_self, getLsbD_fieldOf_down src (Nat.zero_le _) (by omega),
      Nat.sub_zero, getLsbD_bitsFrom _ _ _ _ hi]
    simp only [hi, Nat.zero_add, Nat.not_lt_zero, decide_true, decide_false, Bool.not_false,
      Bool.true_and]
    congr 1
    rw [decide_eq_decide]
    omega
  · rw [Nat.mod_eq_of_lt (by omega), getLsbD_fieldOf_up src (by omega) (by omega),
      getLsbD_bitsFrom _ _ _ _ (by omega), show k - (k - lsb) = lsb by omega, Nat.zero_add]
    by_cases hin : lsb ≤ i
    · simp only [hi, hin, show ¬ i < lsb by omega, decide_true, decide_false, Bool.not_false,
        Bool.true_and, true_and]
      congr 1
      rw [decide_eq_decide]
      omega
    · simp [hin, show i < lsb by omega]

end

/-! ## Calls -/

theorem exec_ubfm {sf : Bool} {immr imms : BitVec 6} (himmr : immr.toNat < sizeOf sf)
    (himms : imms.toNat < sizeOf sf) (rn rd : RegNo) (s : A64State) :
    (A64Instr.bitfield sf 2 sf immr imms rn rd).exec s =
      some (s.write rd (fieldOf (s.read sf rn) immr.toNat imms.toNat)) := by
  have hlegal : ¬ (sf ≠ sf ∨ sizeOf sf ≤ immr.toNat ∨ sizeOf sf ≤ imms.toNat) := by
    rintro (h | h | h)
    · exact h rfl
    · omega
    · omega
  exact if_neg hlegal

/-- The six bits of a place in a word. -/
theorem place6_inWord (v : U32) : v &&& 0x3F = inWord (v.setWidth 6 : BitVec 6) :=
  and_ones_eq v (by decide : 6 ≤ 32)

theorem toNat_place6 {v : U32} {n : Nat} (h : v.toNat = n) (hn : n < 64) :
    (v.setWidth 6 : BitVec 6).toNat = n := by
  rw [BitVec.toNat_setWidth, h, Nat.mod_eq_of_lt hn]

theorem toNat_count5 (count : U8) : (count.setWidth 32 &&& 31 : U32).toNat = count.toNat % 32 := by
  rw [BitVec.toNat_and, BitVec.toNat_setWidth]
  change count.toNat % 2 ^ 32 &&& (2 ^ 5 - 1) = _
  rw [Nat.and_two_pow_sub_one_eq_mod]
  omega

section

variable (e : A64Emit) (dst src : RegNo)

theorem emits_bitfield_u {immr imms : U32} {r n : Nat} (hr : immr.toNat = r) (hn : imms.toNat = n)
    (hr32 : r < 32) (hn32 : n < 32) :
    Emits e (e.bitfield 2 dst src immr imms) fun s => s.write dst (fieldOf (s.w src) r n) := by
  unfold A64Emit.bitfield
  rw [place6_inWord, place6_inWord]
  refine Emits.word (decode_bitfield dst src 2 _ _) fun s => ?_
  have hr' := toNat_place6 hr (by omega)
  have hn' := toNat_place6 hn (by omega)
  refine (@exec_ubfm false _ _ ?_ ?_ src dst s).trans ?_
  · rw [hr']
    exact hr32
  · rw [hn']
    exact hn32
  · rw [hr', hn']
    rfl

theorem emits_lsl {c : U32} {n : Nat} (hc : c.toNat = n) (hn : n < 32) :
    Emits e (e.bitfield 2 dst src ((32 - c) &&& 31) (31 - c)) fun s =>
      s.write dst (s.w src <<< n) := by
  have hlow : (31 - c).toNat = 31 - n := by
    rw [BitVec.toNat_sub, hc]
    change (2 ^ 32 - n + 31) % 2 ^ 32 = _
    omega
  have hhigh : ((32 - c) &&& 31).toNat = (32 - n) % 32 := by
    rw [BitVec.toNat_and, BitVec.toNat_sub, hc]
    change (2 ^ 32 - n + 32) % 2 ^ 32 &&& (2 ^ 5 - 1) = _
    rw [Nat.and_two_pow_sub_one_eq_mod]
    omega
  refine (emits_bitfield_u e dst src hhigh hlow (Nat.mod_lt _ (by decide)) (by omega)).congr
    fun s => congrArg (s.write dst) ?_
  rcases Nat.eq_zero_or_pos n with rfl | hpos
  · exact (fieldOf_lsr (s.w src) (show 0 < 32 by decide)).trans
      ((BitVec.ushiftRight_zero _).trans (BitVec.shiftLeft_zero _).symm)
  · rw [Nat.mod_eq_of_lt (by omega)]
    exact fieldOf_lsl (s.w src) hpos hn

theorem emits_shlWImm (count : U8) :
    Emits e (e.shlWImm dst count) fun s => s.write dst (s.w dst <<< (count.toNat % 32)) :=
  emits_lsl e dst dst (toNat_count5 count) (Nat.mod_lt _ (by decide))

theorem emits_lsrWImm (count : U8) :
    Emits e (e.lsrWImm dst count) fun s => s.write dst (s.w dst >>> (count.toNat % 32)) :=
  (emits_bitfield_u e dst dst (toNat_count5 count) (show (31 : U32).toNat = 31 from rfl)
    (Nat.mod_lt _ (by decide)) (by decide)).congr fun s => congrArg (s.write dst)
      (fieldOf_lsr (s.w dst) (Nat.mod_lt _ (by decide)))

theorem emits_sarWImm (count : U8) :
    Emits e (e.sarWImm dst count) fun s =>
      s.write dst ((s.w dst).sshiftRight (count.toNat % 32)) := by
  have hlt : count.toNat % 32 < 32 := Nat.mod_lt _ (by decide)
  have hr := toNat_place6 (toNat_count5 count) (by omega)
  unfold A64Emit.sarWImm A64Emit.bitfield
  rw [place6_inWord, show (31 : U32) &&& 0x3F = inWord (31 : BitVec 6) from rfl]
  refine Emits.word (decode_bitfield dst dst 0 _ _) fun s => ?_
  have hlegal : ¬ (false ≠ false ∨
      32 ≤ ((count.setWidth 32 &&& 31 : U32).setWidth 6 : BitVec 6).toNat ∨
      32 ≤ (31 : BitVec 6).toNat) := by
    rw [hr]
    simp
    omega
  refine (if_neg hlegal).trans ?_
  rw [hr]
  change some (s.write dst (signedFieldOf (s.w dst) (count.toNat % 32) 31)) = _
  unfold signedFieldOf
  rw [if_pos (by omega), show 32 - 1 - 31 = 0 from rfl, BitVec.shiftLeft_zero, Nat.zero_add]

theorem emits_lsrXImm (count : U8) :
    Emits e (e.lsrXImm dst src count) fun s => s.write dst (s.x src >>> (count.toNat % 64)) := by
  have hr : ((count.setWidth 32 : U32).setWidth 6 : BitVec 6).toNat = count.toNat % 64 := by
    rw [BitVec.toNat_setWidth, BitVec.toNat_setWidth]
    omega
  unfold A64Emit.lsrXImm
  rw [place6_inWord]
  refine Emits.word (decode_lsrXImm dst src _) fun s => ?_
  refine (@exec_ubfm true _ 63 ?_ (by decide) src dst s).trans ?_
  · rw [hr]
    exact Nat.mod_lt _ (by decide)
  · rw [hr]
    refine congrArg (fun v => some (s.write dst v)) ?_
    refine (fieldOf_lsr _ (show count.toNat % 64 < 64 from Nat.mod_lt _ (by decide))).trans ?_
    rw [s.read_x]

theorem emits_ubfm (sf : Bool) {immr imms : U32} (hr : immr.toNat < sizeOf sf)
    (hn : imms.toNat < sizeOf sf) :
    Emits e (e.ubfm sf dst src immr imms) fun s =>
      s.write dst (fieldOf (s.read sf src) immr.toNat imms.toNat) := by
  have hsize : sizeOf sf ≤ 64 := by cases sf <;> decide
  have hr' := toNat_place6 (v := immr) rfl (by omega)
  have hn' := toNat_place6 (v := imms) rfl (by omega)
  have hword : decode ((if sf then 0xD3400000#32 else 0x53000000#32) ||| immr <<< 16 |||
      imms <<< 10 ||| inWord src <<< 5 ||| inWord dst) =
        some (.bitfield sf 2 sf (immr.setWidth 6) (imms.setWidth 6) src dst) := by
    have h6 : ∀ v : U32, v.toNat < 64 → inWord (v.setWidth 6 : BitVec 6) = v := fun v hv =>
      inWord_setWidth hv
    cases sf with
    | false =>
      have := decode_ubfmW dst src (immr.setWidth 6) (imms.setWidth 6)
      rwa [h6 immr (by omega), h6 imms (by omega)] at this
    | true =>
      have := decode_ubfmX dst src (immr.setWidth 6) (imms.setWidth 6)
      rwa [h6 immr (by omega), h6 imms (by omega)] at this
  refine Emits.word hword fun s => ?_
  refine (exec_ubfm (by rwa [hr']) (by rwa [hn']) src dst s).trans ?_
  rw [hr', hn']

theorem emits_ubfxW {lsb width : U32} (hpos : width ≠ 0) (h : lsb.toNat + width.toNat ≤ 32) :
    Emits e (e.ubfxW dst src lsb width) fun s =>
      s.write dst (bitsFrom (s.w src) lsb.toNat width.toNat) := by
  have hpos' : 0 < width.toNat := Nat.pos_of_ne_zero fun hz => hpos (BitVec.eq_of_toNat_eq hz)
  have hsum : (lsb + width).toNat = lsb.toNat + width.toNat := by
    rw [BitVec.toNat_add, Nat.mod_eq_of_lt (by omega)]
  have hlast : (lsb + width - 1).toNat = lsb.toNat + width.toNat - 1 := by bv_omega
  unfold A64Emit.ubfxW
  rw [if_neg (not_or.mpr ⟨hpos, by bv_omega⟩)]
  refine (@emits_ubfm e dst src false lsb _ ?_ ?_).congr fun s => ?_
  · change lsb.toNat < 32
    omega
  · change (lsb + width - 1).toNat < 32
    omega
  · rw [hlast]
    exact congrArg (s.write dst) (fieldOf_extract (s.w src) hpos' h)

theorem emits_ubfxX {lsb width : U32} (hpos : width ≠ 0) (h : lsb.toNat + width.toNat ≤ 64) :
    Emits e (e.ubfxX dst src lsb width) fun s =>
      s.write dst (bitsFrom (s.x src) lsb.toNat width.toNat) := by
  have hpos' : 0 < width.toNat := Nat.pos_of_ne_zero fun hz => hpos (BitVec.eq_of_toNat_eq hz)
  have hlast : (lsb + width - 1).toNat = lsb.toNat + width.toNat - 1 := by bv_omega
  unfold A64Emit.ubfxX
  rw [if_neg (not_or.mpr ⟨hpos, by bv_omega⟩)]
  refine (@emits_ubfm e dst src true lsb _ ?_ ?_).congr fun s => ?_
  · change lsb.toNat < 64
    omega
  · change (lsb + width - 1).toNat < 64
    omega
  · rw [hlast, s.read_x]
    exact congrArg (s.write dst) (fieldOf_extract (s.x src) hpos' h)

theorem emits_lslXImm {count : U32} (hpos : count ≠ 0) (h : count ≤ 63) :
    Emits e (e.lslXImm dst src count) fun s => s.write dst (s.x src <<< count.toNat) := by
  have hpos' : 0 < count.toNat := Nat.pos_of_ne_zero fun hz => hpos (BitVec.eq_of_toNat_eq hz)
  have hle : count.toNat ≤ 63 := h
  have hr : (64 - count).toNat = 64 - count.toNat := by bv_omega
  have hn : (63 - count).toNat = 64 - 1 - count.toNat := by bv_omega
  unfold A64Emit.lslXImm
  rw [if_neg (not_or.mpr ⟨hpos, by bv_omega⟩)]
  refine (emits_ubfm e dst src true ?_ ?_).congr fun s => ?_
  · change (64 - count).toNat < 64
    omega
  · change (63 - count).toNat < 64
    omega
  · rw [hr, hn, s.read_x]
    exact congrArg (s.write dst) (fieldOf_lsl (s.x src) hpos' (by omega))

theorem emits_lslWWImm {count : U32} (hpos : count ≠ 0) (h : count ≤ 31) :
    Emits e (e.lslWWImm dst src count) fun s => s.write dst (s.w src <<< count.toNat) := by
  have hpos' : 0 < count.toNat := Nat.pos_of_ne_zero fun hz => hpos (BitVec.eq_of_toNat_eq hz)
  have hle : count.toNat ≤ 31 := h
  have hr : (32 - count).toNat = 32 - count.toNat := by bv_omega
  have hn : (31 - count).toNat = 32 - 1 - count.toNat := by bv_omega
  unfold A64Emit.lslWWImm
  rw [if_neg (not_or.mpr ⟨hpos, by bv_omega⟩)]
  refine (emits_ubfm e dst src false ?_ ?_).congr fun s => ?_
  · change (32 - count).toNat < 32
    omega
  · change (31 - count).toNat < 32
    omega
  · rw [hr, hn]
    exact congrArg (s.write dst) (fieldOf_lsl (s.w src) hpos' (by omega))

/-- The source's lowest bits put in at `lsb`, and the others as they are. -/
def insertBits {k : Nat} (dst src : BitVec k) (lsb width : Nat) : BitVec k :=
  let mask := BitVec.ofNat k (2 ^ width - 1) <<< lsb
  dst &&& ~~~mask ||| bitsFrom src 0 width <<< lsb

theorem emits_bfiW {lsb width : U32} (hpos : width ≠ 0) (h : lsb.toNat + width.toNat ≤ 32) :
    Emits e (e.bfiW dst src lsb width) fun s =>
      s.write dst (insertBits (s.w dst) (s.w src) lsb.toNat width.toNat) := by
  have hpos' : 0 < width.toNat := Nat.pos_of_ne_zero fun hz => hpos (BitVec.eq_of_toNat_eq hz)
  have hr : ((32 - lsb) &&& 31).toNat = (32 - lsb.toNat) % 32 := by
    rw [BitVec.toNat_and]
    change (32 - lsb).toNat &&& (2 ^ 5 - 1) = _
    rw [Nat.and_two_pow_sub_one_eq_mod]
    bv_omega
  have hn : (width - 1).toNat = width.toNat - 1 := by bv_omega
  have hr6 := toNat_place6 hr (by omega)
  have hn6 := toNat_place6 hn (by omega)
  have hlegal : ¬ (false ≠ false ∨ 32 ≤ (((32 - lsb) &&& 31).setWidth 6 : BitVec 6).toNat ∨
      32 ≤ ((width - 1).setWidth 6 : BitVec 6).toNat) := by
    rw [hr6, hn6]
    simp
    omega
  unfold A64Emit.bfiW A64Emit.bitfield
  rw [if_neg (not_or.mpr ⟨hpos, by bv_omega⟩), place6_inWord, place6_inWord]
  refine Emits.word (decode_bitfield dst src 1 _ _) fun s => (if_neg hlegal).trans ?_
  rw [hr6, hn6]
  change some (s.write dst ((s.w dst &&& ~~~(fieldOf (BitVec.allOnes 32) _ _)) |||
    fieldOf (s.w src) _ _)) = _
  have hones : bitsFrom (BitVec.allOnes 32) 0 width.toNat =
      BitVec.ofNat 32 (2 ^ width.toNat - 1) := by
    unfold bitsFrom
    rw [BitVec.ushiftRight_zero, BitVec.allOnes_and]
  rw [fieldOf_insert _ hpos' h, fieldOf_insert _ hpos' h, hones]
  rfl

end

end X86Port.Arm64
