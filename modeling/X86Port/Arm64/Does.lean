import X86Port.Arm64.FlagEffects

/-!
# What a call of the encoder does

A call is meant to bring the host from one state to another, some registers aside. What it puts
down may rest on the last store, whose word is still in its register.

* `FreshAt`: the last store, seen from its end.
* `Does`: what a call puts down does what is meant.
* `does_load`, `does_store`, `does_load32`, `does_store32`: loads and stores.
-/

namespace X86Port.Arm64

open Lib (CodeBuffer LittleEndian.load_store)

/-! ## States that differ in a few registers -/

namespace EqBut

variable {lost lost' : List RegNo} {s t : A64State}

theorem eq_with (h : EqBut lost s t) : t = { s with gpr := t.gpr } := by
  obtain ⟨-, hvec, hn, hz, hc, hv, hmem⟩ := h
  cases s
  cases t
  dsimp only at *
  rw [hvec, hn, hz, hc, hv, hmem]

theorem of_gpr {g : RegNo → U64} (h : ∀ r, r ∉ lost → g r = s.gpr r) :
    EqBut lost s { s with gpr := g } := ⟨h, rfl, rfl, rfl, rfl, rfl, rfl⟩

theorem mono (h : EqBut lost s t) (hsub : ∀ r, r ∈ lost → r ∈ lost') : EqBut lost' s t :=
  { h with gpr := fun r hr => h.gpr r fun hmem => hr (hsub r hmem) }

theorem x (h : EqBut lost s t) {r : RegNo} (hr : r ∉ lost) : t.x r = s.x r := by
  unfold A64State.x
  rw [h.gpr r hr]

theorem w (h : EqBut lost s t) {r : RegNo} (hr : r ∉ lost) : t.w r = s.w r := by
  unfold A64State.w
  rw [h.x hr]

theorem addr (h : EqBut lost s t) {base : RegNo} (hbase : base ∉ lost) (disp : U32) :
    t.addr base disp = s.addr base disp := by
  unfold A64State.addr
  rw [h.gpr base hbase]

theorem load (h : EqBut lost s t) (a : U64) (n : Nat) : t.load a n = s.load a n := by
  unfold A64State.load
  rw [h.mem]

/-- A register that takes a value is the same again. -/
theorem setSp_both (h : EqBut lost s t) (r : RegNo) (v : U64) :
    EqBut (lost.erase r) (s.setSp r v) (t.setSp r v) := by
  rw [h.eq_with]
  refine of_gpr fun r' hr' => ?_
  by_cases heq : r' = r
  · rw [heq]
    exact (A64State.setSp_gpr_self _ r v).trans (s.setSp_gpr_self r v).symm
  · have hmem : r' ∉ lost := fun hmem => hr' ((List.mem_erase_of_ne heq).mpr hmem)
    exact (A64State.setSp_gpr_of_ne _ heq v).trans
      ((h.gpr r' hmem).trans (s.setSp_gpr_of_ne heq v).symm)

theorem write_both (h : EqBut lost s t) (hsp : 31 ∉ lost) (r : RegNo) {k : Nat} (v : BitVec k) :
    EqBut (lost.erase r) (s.write r v) (t.write r v) := by
  unfold A64State.write A64State.setX
  split_ifs with hr
  · rw [hr, List.erase_of_not_mem hsp]
    exact h
  · exact h.setSp_both r _

theorem store_both (h : EqBut lost s t) (a : U64) (n : Nat) (v : BitVec (8 * n)) :
    EqBut lost (s.store a n v) (t.store a n v) := by
  rw [h.eq_with]
  exact of_gpr h.gpr

theorem setVec_both (h : EqBut lost s t) (r : RegNo) (v : BitVec 128) :
    EqBut lost (s.setVec r v) (t.setVec r v) := by
  rw [h.eq_with]
  exact of_gpr h.gpr

theorem compared_both (h : EqBut lost s t) {k : Nat} (isSub : Bool) (p q : BitVec k) :
    EqBut lost (s.compared isSub p q) (t.compared isSub p q) := by
  rw [h.eq_with]
  cases isSub with
  | false => exact of_gpr h.gpr
  | true => exact of_gpr h.gpr

/-- One register after the other. -/
theorem trans {u : A64State} (h : EqBut lost s t) (h' : EqBut lost' t u) :
    EqBut (lost ++ lost') s u := by
  rw [h'.eq_with, h.eq_with]
  refine of_gpr fun r hr => ?_
  rw [List.mem_append, not_or] at hr
  exact (h'.gpr r hr.2).trans (h.gpr r hr.1)

end EqBut

theorem eqBut_setX (s : A64State) {lost : List RegNo} {r : RegNo} (hr : r ∈ lost) (v : U64) :
    EqBut lost s (s.setX r v) := by
  unfold A64State.setX
  split_ifs
  · exact EqBut.refl _ s
  · exact (EqBut.refl _ s).setSp hr v

/-! ## Calls -/

/-- A last store that ends here has its word still in its register. -/
def FreshAt (fwd : Option Forward) (place : Nat) (s : A64State) : Prop :=
  ∀ f, fwd = some f → f.place ≤ place ∧
    (f.place = place → s.load (s.addr f.base f.disp) 4 = s.w f.src)

/-- Unless the buffer overflows, what the call puts down does what is meant. -/
def Does (e e' : A64Emit) (means : A64State → A64State → Prop) : Prop :=
  e'.code.overflow = false → ∃ words, e'.code = e.code.putAll words ∧
    ∀ s, FreshAt e.forward e.len s →
      ∃ t, runWords words s = some t ∧ means s t ∧ FreshAt e'.forward e'.len t

section

variable {e e' e'' : A64Emit} {f : A64State → A64State}
  {means means' : A64State → A64State → Prop}

theorem len_putAll {words : List U32} (h : (e.code.putAll words).overflow = false) :
    (e.code.putAll words).len = e.code.len + words.length := by
  obtain ⟨hover, hroom⟩ := CodeBuffer.putAll_fits h
  exact (CodeBuffer.putAll_ok hover hroom).2.1

/-- What has been put down since leaves nothing of the last store. -/
theorem FreshAt.after {fwd : Option Forward} {place place' : Nat} {s : A64State}
    (h : FreshAt fwd place s) (hlt : place < place') (t : A64State) : FreshAt fwd place' t := by
  intro f hf
  have hle := (h f hf).1
  exact ⟨by omega, fun heq => by omega⟩

theorem Emits.does_fresh (h : Emits e e' f)
    (hmeans : ∀ s, FreshAt e.forward e.len s → means s (f s)) : Does e e' means := by
  obtain ⟨words, rfl, hrun⟩ := h
  intro hover
  refine ⟨words, rfl, fun s hfresh => ⟨f s, hrun s, hmeans s hfresh, ?_⟩⟩
  cases words with
  | nil =>
    have hsame : f s = s := (Option.some.inj (hrun s)).symm
    rw [hsame]
    exact hfresh
  | cons word words =>
    refine hfresh.after ?_ _
    have hlen := len_putAll hover
    rw [List.length_cons] at hlen
    change 4 * e.code.len < 4 * (e.code.putAll (word :: words)).len
    omega

theorem Emits.does (h : Emits e e' f) (hmeans : ∀ s, means s (f s)) : Does e e' means :=
  h.does_fresh fun s _ => hmeans s

theorem Does.trans (h : Does e e' means) (h' : Does e' e'' means') :
    Does e e'' fun s t => ∃ u, means s u ∧ means' u t := by
  intro hover
  obtain ⟨words', hcode', hrun'⟩ := h' hover
  rw [hcode'] at hover
  obtain ⟨words, hcode, hrun⟩ := h (CodeBuffer.putAll_fits hover).1
  refine ⟨words ++ words', by rw [hcode', hcode, CodeBuffer.putAll_putAll], fun s hfresh => ?_⟩
  obtain ⟨u, hu, hmeans, hfresh'⟩ := hrun s hfresh
  obtain ⟨t, ht, hmeans', hfresh''⟩ := hrun' u hfresh'
  exact ⟨t, by rw [runWords_append, hu, Option.bind_some, ht], ⟨u, hmeans, hmeans'⟩, hfresh''⟩

theorem Does.mono (h : Does e e' means) (hmono : ∀ s t, means s t → means' s t) :
    Does e e' means' := by
  intro hover
  obtain ⟨words, hcode, hrun⟩ := h hover
  refine ⟨words, hcode, fun s hfresh => ?_⟩
  obtain ⟨t, ht, hmeans, hfresh'⟩ := hrun s hfresh
  exact ⟨t, ht, hmono s t hmeans, hfresh'⟩

/-- A call that is refused. -/
theorem does_refused (e : A64Emit) : Does e e.refuse means := fun hover => Bool.noConfusion hover

end

/-! ## Loads and stores -/

theorem sp_not_lost (disp : U32) (bytes : Nat) : 31 ∉ lostFor disp bytes := by
  unfold lostFor
  split_ifs <;> decide

section

variable (e : A64Emit) {rt base : RegNo} {disp : U32}

/-- A load into a general register, with zeros above. -/
theorem emits_load {size : BitVec 2} {bytes : Nat} (hbytes : bytes = 2 ^ size.toNat)
    (hreach : Reachable base disp bytes) :
    Emits e (e.ldstUnsigned (loadStoreBase size false 1) rt base disp bytes) fun s =>
      (approach base disp bytes s).write rt
        ((approach base disp bytes s).load (s.addr base disp) bytes) := by
  subst hbytes
  exact @emits_ldst e size 1 false rt base disp _
    (fun a t => t.write rt (t.load a (2 ^ size.toNat))) rfl (fun _ _ => rfl) hreach

theorem does_load {size : BitVec 2} {bytes : Nat} (hbytes : bytes = 2 ^ size.toNat)
    (hreach : Reachable base disp bytes) :
    Does e (e.ldstUnsigned (loadStoreBase size false 1) rt base disp bytes) fun s t =>
      EqBut ((lostFor disp bytes).erase rt)
        (s.write rt (s.load (s.addr base disp) bytes)) t := by
  refine (emits_load e hbytes hreach).does fun s => ?_
  have h := approach_eqBut base disp bytes s
  rw [h.load]
  exact h.write_both (sp_not_lost _ _) rt _

/-- The state after a store. -/
theorem emits_store {size : BitVec 2} {bytes : Nat} (hbytes : bytes = 2 ^ size.toNat)
    (hreach : Reachable base disp bytes) :
    Emits e (e.ldstUnsigned (loadStoreBase size false 0) rt base disp bytes) fun s =>
      (approach base disp bytes s).store (s.addr base disp) bytes
        (((approach base disp bytes s).x rt).setWidth _) := by
  subst hbytes
  exact @emits_ldst e size 0 false rt base disp _
    (fun a t => t.store a (2 ^ size.toNat) ((t.x rt).setWidth _)) rfl (fun _ _ => rfl) hreach

theorem does_store {size : BitVec 2} {bytes : Nat} (hbytes : bytes = 2 ^ size.toNat)
    (hreach : Reachable base disp bytes) (hsrc : rt ∉ lostFor disp bytes) :
    Does e (e.ldstUnsigned (loadStoreBase size false 0) rt base disp bytes) fun s t =>
      EqBut (lostFor disp bytes)
        (s.store (s.addr base disp) bytes ((s.x rt).setWidth _)) t := by
  refine (emits_store e hbytes hreach).does fun s => ?_
  have h := approach_eqBut base disp bytes s
  rw [h.x hsrc]
  exact h.store_both _ _ _

/-! ### The last store -/

theorem does_store32 {src : RegNo} (hreach : Reachable base disp 4) (hsrc : src ∉ lostFor disp 4)
    (hbase : base ∉ lostFor disp 4) :
    Does e (e.store32 base disp src) fun s t =>
      EqBut (lostFor disp 4) (s.store (s.addr base disp) 4 (s.w src)) t := by
  obtain ⟨words, heq, hrun⟩ := @emits_store e src base disp 2 4 rfl hreach
  intro hover
  refine ⟨words, congrArg A64Emit.code heq, fun s _ => ⟨_, hrun s, ?_, ?_⟩⟩
  · have h := approach_eqBut base disp 4 s
    change EqBut _ _ ((approach base disp 4 s).store _ 4 ((approach base disp 4 s).w src))
    rw [h.w hsrc]
    exact h.store_both _ _ _
  · rintro f hf
    obtain rfl := Option.some.inj hf
    refine ⟨le_rfl, fun _ => ?_⟩
    have haddr : (approach base disp 4 s).addr base disp = s.addr base disp :=
      (approach_eqBut base disp 4 s).addr hbase disp
    exact (congrArg (fun a => A64State.load _ a 4) haddr).trans
      (Lib.LittleEndian.load_store (by decide) _)

/-- The low half of a register takes a value, with zeros above; or it is there, and nothing is
done. -/
def TakesW (lost : List RegNo) (dst : RegNo) (v : U32) (s t : A64State) : Prop :=
  EqBut (lost.erase dst) (s.write dst v) t ∨ t = s ∧ s.w dst = v

theorem forwarded_fresh {e : A64Emit} {src : RegNo} {s : A64State}
    (h : e.forwarded base disp = some src) (hfresh : FreshAt e.forward e.len s) :
    s.load (s.addr base disp) 4 = s.w src := by
  unfold A64Emit.forwarded at h
  cases hf : e.forward with
  | none =>
    rw [hf] at h
    cases h
  | some f =>
    rw [hf] at h
    dsimp only at h
    split_ifs at h with hhit
    obtain rfl := Option.some.inj h
    rw [hhit.2.1, hhit.2.2]
    exact (hfresh f hf).2 hhit.1.symm

theorem does_load32 {dst : RegNo} (hreach : Reachable base disp 4) :
    Does e (e.load32 dst base disp) fun s t =>
      TakesW (lostFor disp 4) dst (s.load (s.addr base disp) 4) s t := by
  unfold A64Emit.load32
  cases hhit : e.forwarded base disp with
  | none => exact (@does_load e dst base disp 2 4 rfl hreach).mono fun s t h => .inl h
  | some src =>
    dsimp only
    split_ifs with hne
    · refine (emits_movWW e dst src).does_fresh fun s hfresh => .inl ?_
      rw [forwarded_fresh hhit hfresh]
      exact EqBut.refl _ _
    · refine (Emits.refl e).does_fresh fun s hfresh => .inr ⟨rfl, ?_⟩
      rw [forwarded_fresh hhit hfresh, not_not.mp hne]

/-! ### Constants -/

/-- A constant in the second scratch register. -/
theorem does_constant (imm : U32) :
    Does e (e.movWImm32 9 imm) fun s t => EqBut [9] s t ∧ t.w 9 = imm := by
  refine (emits_movWImm32 e 9 imm).does fun s => ⟨eqBut_setX s (by decide) _, ?_⟩
  unfold A64State.w
  rw [A64State.write, s.setX_x_self (by decide), BitVec.setWidth_setWidth_of_le _ (by decide),
    BitVec.setWidth_eq]

theorem nine_not_lost {bytes : Nat}
    (hnear : (A64Emit.fitsScaledUnsigned disp bytes).isSome ∨ Near disp) :
    9 ∉ lostFor disp bytes := by
  unfold lostFor
  split_ifs with h h'
  · decide
  · decide
  · exact (hnear.elim h h').elim

theorem does_storeConstant {size : BitVec 2} {bytes : Nat} (hbytes : bytes = 2 ^ size.toNat)
    (hsize : bytes ≤ 4) (hnear : (A64Emit.fitsScaledUnsigned disp bytes).isSome ∨ Near disp)
    (hbase : base ≠ 9) (imm : U32) :
    Does e ((e.movWImm32 9 imm).ldstUnsigned (loadStoreBase size false 0) 9 base disp bytes)
      fun s t => EqBut (9 :: lostFor disp bytes)
        (s.store (s.addr base disp) bytes (imm.setWidth _)) t := by
  have hreach : Reachable base disp bytes := hnear.imp_right .inl
  refine ((does_constant e imm).trans
    (does_store _ hbytes hreach (nine_not_lost hnear))).mono fun s t => ?_
  rintro ⟨u, ⟨hu, himm⟩, ht⟩
  have hwide : (u.x 9).setWidth (8 * bytes) = imm.setWidth (8 * bytes) := by
    rw [← himm]
    exact (BitVec.setWidth_setWidth_of_le _ (by omega)).symm
  have hbase9 : base ∉ [(9 : RegNo)] := fun hmem => hbase (List.mem_singleton.mp hmem)
  rw [hu.addr hbase9, hwide] at ht
  exact (hu.store_both _ _ _).trans ht

theorem does_store32Imm (hnear : (A64Emit.fitsScaledUnsigned disp 4).isSome ∨ Near disp)
    (hbase : base ≠ 9) (hbase' : base ∉ lostFor disp 4) (imm : U32) :
    Does e (e.store32Imm base disp imm) fun s t =>
      EqBut (9 :: lostFor disp 4) (s.store (s.addr base disp) 4 imm) t := by
  have hreach : Reachable base disp 4 := hnear.imp_right .inl
  refine ((does_constant e imm).trans
    (does_store32 _ hreach (nine_not_lost hnear) hbase')).mono fun s t => ?_
  rintro ⟨u, ⟨hu, himm⟩, ht⟩
  have hbase9 : base ∉ [(9 : RegNo)] := fun hmem => hbase (List.mem_singleton.mp hmem)
  rw [hu.addr hbase9, himm] at ht
  exact (hu.store_both _ _ _).trans ht

end

end X86Port.Arm64
