import X86Port.Cpu.StringElements

/-!
# Restarting a repeated string instruction

A fault leaves the state behind a whole number of elements, with the count that is left. What
an execution from there does under other permissions is what an execution from the start does,
unless one of the two goes through the bulk path and the other cannot.

* `bulkString_cases`: what the bulk path does, by registers and permissions.
* `string_restartable`: the state at a fault, when a restart ends alike, and where a comparing
  repeat stops.
-/

namespace X86Port.Cpu

open Memory Lib Lib.Places Lib.CountedLoop

/-! ## The bulk path -/

/-- A repeat that asks for the bulk path, on a memory and with a length that it takes. -/
structure BulkTried (m : Mem) (op : StringOp) (w : Width) (s : Machine) : Prop where
  op : op = .movs ∨ op = .stos
  range : BulkRange m w s

/-- The walks of the bulk path stay in the permission table. -/
def BulkInside (m : Mem) (op : StringOp) (w : Width) (c : CpuState) : Prop :=
  if op = .movs then CopyInside m (c.reg esi).toNat (c.reg edi).toNat (repeatBytes w c)
  else ¬ m.Overruns memRead (c.reg edi).toNat (repeatBytes w c)

/-- The ranges are readable, and those of a copy apart. -/
def BulkAdmitted (m : Mem) (op : StringOp) (w : Width) (c : CpuState) : Prop :=
  if op = .movs then CopyAdmitted m (c.reg esi).toNat (c.reg edi).toNat (repeatBytes w c)
  else m.GrantsRange memRead (c.reg edi).toNat (repeatBytes w c)

/-- Asking for the bulk path has a meaning. -/
def BulkDefined (m : Mem) (op : StringOp) (w : Width) (s : Machine) : Prop :=
  BulkTried m op w s → BulkInside m op w s.cpu

/-- The whole repeat goes through the bulk path. -/
structure BulkTaken (m : Mem) (op : StringOp) (w : Width) (s : Machine) : Prop where
  tried : BulkTried m op w s
  inside : BulkInside m op w s.cpu
  admitted : BulkAdmitted m op w s.cpu

/-- The bulk path writes only where it may. -/
def BulkWritable (m : Mem) (op : StringOp) (w : Width) (s : Machine) : Prop :=
  BulkTaken m op w s → m.GrantsRange memWrite (s.cpu.reg edi).toNat (repeatBytes w s.cpu)

section Bulk

variable {m : Mem} {op : StringOp} {w : Width} {s t : Machine}

theorem bulkString_of_not_tried (h : ¬ BulkTried m op w s) : bulkString m op w s = some none := by
  by_cases hop : op = .movs ∨ op = .stos
  · cases hdf : s.cpu.df with
    | true => simp [bulkString, hdf]
    | false =>
      by_cases hout : m.sparse ≠ none ∨ s.cpu.reg ecx = 0 ∨ ¬ repeatBytes w s.cpu ≤ 2 ^ 32 - 1
      · exact bulkString_refused hop hdf hout
      · simp only [not_or, not_not] at hout
        have hobs : s.host.observer = true := by
          by_contra hnot
          exact h ⟨hop, hout.1, (Bool.not_eq_true _).mp hnot, hdf, hout.2.1, hout.2.2⟩
        rcases hop with rfl | rfl
        · rw [bulkString_movs hdf]
          have hfits : (s.cpu.reg ecx).toNat * w.bytes ≤ 2 ^ 32 - 1 := hout.2.2
          unfold bulkMovs copyDisjoint
          dsimp only
          rw [if_pos hfits, if_pos (Or.inr hobs)]
          rfl
        · rw [bulkString_stos hdf]
          unfold bulkStos fill
          dsimp only
          by_cases hfirst : s.cpu.reg ecx = 0 ∨ (w.bytes ≠ 1 ∧ w.bytes ≠ 2 ∧ w.bytes ≠ 4) ∨
              w.bytes * (s.cpu.reg ecx).toNat > 2 ^ 32 - 1
          · rw [length_bytesOf, if_pos hfirst]
            rfl
          · rw [length_bytesOf, if_neg hfirst, if_pos (Or.inr hobs)]
            rfl
  · simp only [not_or] at hop
    simp [bulkString, hop.1, hop.2]

/-- The bulk path is not tried, refuses, has no meaning, or does the whole repeat. -/
theorem bulkString_tried (h : BulkTried m op w s) :
    (BulkInside m op w s.cpu → BulkAdmitted m op w s.cpu →
      bulkString m op w s = some (some (bulkResult m op w s))) ∧
    (BulkInside m op w s.cpu → ¬ BulkAdmitted m op w s.cpu → bulkString m op w s = some none) ∧
    (¬ BulkInside m op w s.cpu → bulkString m op w s = none) := by
  obtain ⟨hop, hr⟩ := h
  obtain ⟨hn, hne⟩ : (BitVec.ofNat 32 (repeatBytes w s.cpu)).toNat = repeatBytes w s.cpu ∧
      BitVec.ofNat 32 (repeatBytes w s.cpu) ≠ 0 := toNat_bulkLength hr.count hr.fits
  have hlen : (s.cpu.reg ecx).toNat * w.bytes = repeatBytes w s.cpu := rfl
  rcases hop with rfl | rfl
  · unfold BulkInside BulkAdmitted
    rw [if_pos rfl, if_pos rfl, bulkMovs_eq hr]
    refine ⟨fun hinside hadmits => ?_, fun hinside hadmits => ?_, fun houtside => ?_⟩
    · rw [copyDisjoint_admitted hr.sparse hr.unobserved hne (by rw [hn]; exact hinside)
        (by rw [hn]; exact hadmits), hn]
      rfl
    · rw [copyDisjoint_refused hr.sparse hr.unobserved hne (by rw [hn]; exact hinside)
        (by rw [hn]; exact hadmits)]
      rfl
    · rw [copyDisjoint_undefined hr.sparse hr.unobserved hne (by rw [hn]; exact houtside)]
      rfl
  · unfold BulkInside BulkAdmitted
    rw [if_neg (by decide), if_neg (by decide), bulkStos_eq hr]
    refine ⟨fun hinside hadmits => ?_, fun hinside hadmits => ?_, fun houtside => ?_⟩
    · rw [fill_eq hr.sparse hr.unobserved hr.count hr.fits hinside, hlen, if_pos hadmits]
      rfl
    · rw [fill_eq hr.sparse hr.unobserved hr.count hr.fits hinside, hlen, if_neg hadmits]
      rfl
    · rw [fill_of_overruns hr.sparse hr.unobserved hr.count hr.fits (not_not.mp houtside)]
      rfl

theorem bulkString_taken (h : BulkTaken m op w s) :
    bulkString m op w s = some (some (bulkResult m op w s)) :=
  (bulkString_tried h.tried).1 h.inside h.admitted

theorem bulkString_undefined (h : ¬ BulkDefined m op w s) : bulkString m op w s = none := by
  obtain ⟨htried, houtside⟩ := Classical.not_imp.mp h
  exact (bulkString_tried htried).2.2 houtside

/-- A bulk path that is not taken leaves the element loop. -/
theorem bulkString_left (h : BulkDefined m op w s) (hnot : ¬ BulkTaken m op w s) :
    bulkString m op w s = some none := by
  by_cases htried : BulkTried m op w s
  · exact (bulkString_tried htried).2.1 (h htried) fun hadmits => hnot ⟨htried, h htried, hadmits⟩
  · exact bulkString_of_not_tried htried

/-- Only the count, the pointers, the direction and the observer matter. -/
theorem bulkTaken_congr {s' : Machine} (hreg : ∀ r ∈ [ecx, esi, edi], s'.cpu.reg r = s.cpu.reg r)
    (hdf : s'.cpu.df = s.cpu.df) (hobs : s'.host.observer = s.host.observer) :
    (BulkTried m op w s' ↔ BulkTried m op w s) ∧
      (BulkInside m op w s'.cpu ↔ BulkInside m op w s.cpu) ∧
      (BulkAdmitted m op w s'.cpu ↔ BulkAdmitted m op w s.cpu) ∧
      repeatBytes w s'.cpu = repeatBytes w s.cpu := by
  have hecx := hreg ecx (by simp)
  have hesi := hreg esi (by simp)
  have hedi := hreg edi (by simp)
  have hbytes : repeatBytes w s'.cpu = repeatBytes w s.cpu := by
    unfold repeatBytes
    rw [hecx]
  refine ⟨⟨fun h => ⟨h.op, h.range.sparse, ?_, ?_, ?_, ?_⟩,
    fun h => ⟨h.op, h.range.sparse, ?_, ?_, ?_, ?_⟩⟩, ?_, ?_, hbytes⟩
  · rw [← hobs, h.range.unobserved]
  · rw [← hdf, h.range.forward]
  · rw [← hecx]
    exact h.range.count
  · rw [← hbytes]
    exact h.range.fits
  · rw [hobs, h.range.unobserved]
  · rw [hdf, h.range.forward]
  · rw [hecx]
    exact h.range.count
  · rw [hbytes]
    exact h.range.fits
  · unfold BulkInside
    rw [hesi, hedi, hbytes]
  · unfold BulkAdmitted
    rw [hesi, hedi, hbytes]

/-- The element loop over a range that the bulk path takes, when all of it is writable. -/
theorem elementLoop_taken (htried : BulkTried m op w s) (hadmits : BulkAdmitted m op w s.cpu)
    (hwrite : m.GrantsRange memWrite (s.cpu.reg edi).toNat (repeatBytes w s.cpu)) :
    elementLoop m op .rep w (stride s.cpu.df w) s = some ⟨.ok, 0, bulkResult m op w s⟩ := by
  obtain ⟨hop, hr⟩ := htried
  rw [hr.forward, elementLoop_eq]
  unfold BulkAdmitted at hadmits
  rcases hop with rfl | rfl
  · rw [if_pos rfl] at hadmits
    rw [repLoop_movs hr.sparse _ s hr.unobserved rfl hadmits.1 hwrite hadmits.2.2]
    rfl
  · rw [repLoop_stos hr.sparse _ s hr.unobserved rfl hwrite]
    rfl

end Bulk

/-! ## Elements under other permissions -/

section Transfer

variable {m m' : Mem} {op : StringOp} {w : Width} {delta : U32} {stops : Machine → Bool}
  {s t : Machine} {k : Nat}

/-- Elements that went through do so again when none of their accesses is refused. -/
theorem rounds_iff (hm : m.WellFormed) (hm' : m'.WellFormed) (hsame : SameLayout m m')
    (h : Rounds (elementRound m op w delta) stops k s t) :
    Rounds (elementRound m' op w delta) stops k s t ↔
      ∀ j < k, refusedElement m' op w delta s.cpu j = none := by
  constructor
  · intro h' j hj
    obtain ⟨u, hfirst, hlast⟩ := h'.take (Nat.le_of_lt hj)
    have hmoved := moved_of_rounds hm' hfirst
    rw [← refusedElement_eq hmoved.source hmoved.destination]
    obtain ⟨i, hi⟩ : ∃ i, k - j = i + 1 := ⟨k - j - 1, by omega⟩
    rw [hi] at hlast
    cases hlast with
    | head hround _ _ => exact ((elementRound_ok hm').mp hround).1
  · intro hgranted
    refine h.transfer fun i hi u v hu hround => ?_
    have hmoved := moved_of_rounds hm hu
    have hrefused := hgranted i hi
    rw [← refusedElement_eq hmoved.source hmoved.destination] at hrefused
    obtain ⟨hrefused₀, rfl⟩ := (elementRound_ok hm).mp hround
    refine (elementRound_ok hm').mpr ⟨hrefused, ?_⟩
    rw [element_sameLayout hsame hrefused₀ hrefused]

theorem elementRound_sameLayout (hm : m.WellFormed) (hm' : m'.WellFormed) (hsame : SameLayout m m')
    (s t u : Machine) (h : elementRound m op w delta s = some (.ok t))
    (h' : elementRound m' op w delta s = some (.ok u)) : t = u := by
  obtain ⟨hrefused, rfl⟩ := (elementRound_ok hm).mp h
  obtain ⟨hrefused', rfl⟩ := (elementRound_ok hm').mp h'
  rw [element_sameLayout hsame hrefused hrefused']

end Transfer

/-! ## The rest of a repeat that is taken in bulk -/

/-- The window with every page writable that can be read, and the others away. -/
def opened (m : Mem) : Mem :=
  { m with perms := m.perms.map fun t =>
    { t with
      entries := t.entries.map fun e => if pageRefuses e memRead then 0 else 3
      covers := by rw [List.length_map, t.covers] } }

section Rest

variable {m m' : Mem} {op : StringOp} {w : Width} {s t : Machine} {k : Nat}

theorem grants_opened {access : U32} {a : Nat} (ha : access ∈ [0, memRead, memWrite]) :
    (opened m).Grants access a ↔ m.Grants memRead a := by
  have hentry (entries : List U8) (i : Nat) :
      pageRefuses ((entries.map fun e => if pageRefuses e memRead then 0 else 3).getD i 0) access =
        pageRefuses (entries.getD i 0) memRead := by
    rcases Nat.lt_or_ge i entries.length with hi | hi
    · rw [List.getD_eq_getElem _ _ (by rwa [List.length_map]), List.getD_eq_getElem _ _ hi,
        List.getElem_map]
      cases hread : pageRefuses entries[i] memRead with
      | true => rfl
      | false =>
        rw [if_neg Bool.false_ne_true]
        simp only [List.mem_cons, List.not_mem_nil, or_false] at ha
        rcases ha with rfl | rfl | rfl <;> decide
    · rw [List.getD_eq_default _ _ (by rwa [List.length_map]), List.getD_eq_default _ _ hi]
      rfl
  unfold Mem.Grants opened
  cases m.perms with
  | none => simp
  | some table =>
    simp only [Option.map_some, Option.mem_some_iff, forall_eq', PermTable.grants, hentry]

theorem sameLayout_opened (hs : m'.sparse = none) (hsame : SameLayout m m') :
    SameLayout m (opened m') := by
  intro a x y hx hy
  refine hsame a x y hx ?_
  unfold Mem.place at hy ⊢
  have hs' : (opened m').sparse = none := hs
  rw [hs'] at hy
  rw [hs]
  dsimp only at hy ⊢
  by_cases hg : (opened m').Grants 0 a
  · rw [if_pos hg] at hy
    have hread := (grants_opened (by simp)).mp hg
    have hplace : m'.place memRead a = some (m'.hostOf a) := by
      unfold Mem.place
      rw [hs]
      exact if_pos hread
    have hzero := place_zero hplace
    unfold Mem.place at hzero
    rw [hs] at hzero
    exact hzero.trans hy
  · rw [if_neg hg] at hy
    cases hy

/-- A walk that starts behind the first bytes of a granted range stays in the table. -/
theorem not_overruns_behind {access : U32} {a p q : Nat} (hq : 0 < q)
    (hg : m.GrantsRange access a (p + q)) (hnot : ¬ m.Overruns access a (p + q)) :
    ¬ m.Overruns access (a + p) q := by
  have hlo := (grantsRange_bounds (by omega) hg).1
  rcases Nat.eq_zero_or_pos p with rfl | hp
  · rwa [Nat.zero_add] at hnot
  · rintro ⟨hstart, -⟩
    omega

/-- The registers behind the first elements of a forward repeat. -/
theorem moved_forward (hop : op = .movs ∨ op = .stos) (hdf : s.cpu.df = false)
    (hmoved : Moved op (stride s.cpu.df w) k s t) (hk : k < remaining s) :
    repeatBytes w s.cpu = k * w.bytes + repeatBytes w t.cpu ∧ 0 < repeatBytes w t.cpu ∧
      t.cpu.reg ecx ≠ 0 ∧ t.cpu.reg edi = s.cpu.reg edi + BitVec.ofNat 32 (k * w.bytes) ∧
      (op = .movs → t.cpu.reg esi = s.cpu.reg esi + BitVec.ofNat 32 (k * w.bytes)) := by
  have hpos := Nat.pos_of_ne_zero (bytes_ne_zero w).1
  have hlt := (s.cpu.reg ecx).isLt
  have hn : (t.cpu.reg ecx).toNat = remaining s - k := by
    unfold remaining at hk ⊢
    rw [hmoved.count]
    bv_omega
  have hmul : BitVec.ofNat 32 k * BitVec.ofNat 32 w.bytes = BitVec.ofNat 32 (k * w.bytes) :=
    (BitVec.ofNat_mul k w.bytes).symm
  refine ⟨?_, ?_, ?_, ?_, fun hmovs => ?_⟩
  · unfold repeatBytes
    rw [hn, ← Nat.add_mul, Nat.add_sub_of_le (Nat.le_of_lt hk)]
    rfl
  · unfold repeatBytes
    rw [hn]
    exact Nat.mul_pos (by omega) hpos
  · intro hzero
    rw [hzero] at hn
    exact absurd hn (by change 0 ≠ _; omega)
  · rw [hmoved.destination, hdf, ← hmul]
    rcases hop with rfl | rfl <;> rfl
  · rw [hmoved.source, hdf, ← hmul, hmovs]
    rfl

/-- The bytes behind the first elements of a granted range. -/
theorem granted_behind {access x y : U32} {p q n : Nat} (hn : n = p + q) (hq : 0 < q)
    (hy : y = x + BitVec.ofNat 32 p) (hg : m.GrantsRange access x.toNat n) :
    y.toNat = x.toNat + p ∧ m.GrantsRange access y.toNat q ∧
      (¬ m.Overruns access x.toNat n → ¬ m.Overruns access y.toNat q) := by
  subst hn
  have hend := (grantsRange_bounds (by omega) hg).2
  have hnat : y.toNat = x.toNat + p := by
    rw [hy, BitVec.toNat_add, BitVec.toNat_ofNat, Nat.mod_eq_of_lt (show p < 2 ^ 32 by omega),
      Nat.mod_eq_of_lt (by omega)]
  rw [hnat]
  exact ⟨rfl, (grantsRange_add.mp hg).2, not_overruns_behind hq hg⟩

/-- Within a readable range every element is granted in the opened window. -/
theorem granted_opened (hs : m.sparse = none) {access x : U32} {n j : Nat}
    (ha : access ∈ [0, memRead, memWrite]) (hg : m.GrantsRange memRead x.toNat n)
    (hj : j * w.bytes + w.bytes ≤ n) :
    (opened m).Granted access (x + BitVec.ofNat 32 j * BitVec.ofNat 32 w.bytes) w := by
  have hpos := Nat.pos_of_ne_zero (bytes_ne_zero w).1
  rw [← BitVec.ofNat_mul]
  obtain ⟨-, hbehind, -⟩ := @granted_behind m memRead x _ (j * w.bytes) (n - j * w.bytes) n
    (by omega) (by omega) rfl hg
  intro i hi
  have hs' : (opened m).sparse = none := hs
  unfold Mem.place
  rw [hs']
  dsimp only
  rw [if_pos ((grants_opened ha).mpr (hbehind i (by omega)))]
  exact Option.some_ne_none _

theorem bulkTaken_behind (htaken : BulkTaken m' op w s)
    (hmoved : Moved op (stride s.cpu.df w) k s t) (hk : k < remaining s) :
    BulkTaken m' op w t := by
  obtain ⟨⟨hop, hr⟩, hinside, hadmits⟩ := htaken
  obtain ⟨hsplit, hpos, hcount, hedi, hesi⟩ := moved_forward hop hr.forward hmoved hk
  have htried : BulkTried m' op w t :=
    ⟨hop, hr.sparse, hmoved.observer.trans hr.unobserved, hmoved.df.trans hr.forward, hcount,
      Nat.le_trans (by omega) hr.fits⟩
  unfold BulkInside at hinside
  unfold BulkAdmitted at hadmits
  rcases hop with rfl | rfl
  · rw [if_pos rfl] at hinside hadmits
    obtain ⟨hsrc, hdst, hapart⟩ := hadmits
    obtain ⟨hsrcAt, hsrcOk, hsrcIn⟩ := granted_behind hsplit hpos (hesi rfl) hsrc
    obtain ⟨hdstAt, hdstOk, hdstIn⟩ := granted_behind hsplit hpos hedi hdst
    refine ⟨htried, ?_, ?_⟩
    · exact ⟨hsrcIn hinside.1, fun _ => hdstIn (hinside.2 hsrc)⟩
    · exact ⟨hsrcOk, hdstOk, by omega⟩
  · rw [if_neg (by decide)] at hinside hadmits
    obtain ⟨hdstAt, hdstOk, hdstIn⟩ := granted_behind hsplit hpos hedi hadmits
    exact ⟨htried, hdstIn hinside, hdstOk⟩

/-- What the bulk path leaves when it takes the whole repeat is what it leaves when it takes the
rest. -/
theorem bulkResult_behind (hm : m.WellFormed) (hsame : SameLayout m m')
    (htaken : BulkTaken m' op w s)
    (h : Rounds (elementRound m op w (stride s.cpu.df w)) (endsRepeat op .rep) k s t)
    (hk : k < remaining s) : bulkResult m' op w t = bulkResult m' op w s := by
  have hmoved := moved_of_rounds hm h
  have htaken' := bulkTaken_behind htaken hmoved hk
  have hs := htaken.tried.range.sparse
  have hm' : (opened m').WellFormed := wellFormed_window hs
  have hopen {u : Machine} (hu : BulkTaken m' op w u) :
      elementLoop (opened m') op .rep w (stride u.cpu.df w) u =
        some ⟨.ok, 0, bulkResult m' op w u⟩ := by
    have hgrants {access : U32} (ha : access ∈ [0, memRead, memWrite]) (a n : Nat) :
        (opened m').GrantsRange access a n ↔ m'.GrantsRange memRead a n :=
      forall₂_congr fun i _ => grants_opened ha
    have hadmits := hu.admitted
    have hr := hu.tried.range
    refine @elementLoop_taken (opened m') op w u ⟨hu.tried.op, hs, hr.unobserved, hr.forward,
      hr.count, hr.fits⟩ ?_ ?_
    · unfold BulkAdmitted CopyAdmitted at hadmits ⊢
      rw [hgrants (by simp), hgrants (by simp)]
      exact hadmits
    · rw [hgrants (by simp)]
      unfold BulkAdmitted at hadmits
      split_ifs at hadmits
      · exact hadmits.2.1
      · exact hadmits
  have hrounds : Rounds (elementRound (opened m') op w (stride s.cpu.df w)) (endsRepeat op .rep)
      k s t := by
    refine (rounds_iff hm hm' (sameLayout_opened hs hsame) h).mpr fun j hj => ?_
    have hj' : j * w.bytes + w.bytes ≤ repeatBytes w s.cpu := by
      unfold repeatBytes
      rw [← Nat.succ_mul]
      exact Nat.mul_le_mul_right _ (Nat.lt_trans hj hk)
    have hadmits := htaken.admitted
    have hstride : stride s.cpu.df w = BitVec.ofNat 32 w.bytes := by
      rw [htaken.tried.range.forward]
      rfl
    unfold refusedElement BulkAdmitted at *
    rw [refusedAccess_eq, hstride]
    rcases htaken.tried.op with rfl | rfl
    · rw [if_pos rfl] at hadmits
      dsimp only
      rw [if_pos (granted_opened hs (by simp) hadmits.1 hj'),
        if_pos (granted_opened hs (by simp) hadmits.2.1 hj')]
    · rw [if_neg (by decide)] at hadmits
      exact if_pos (granted_opened hs (by simp) hadmits hj')
  have hleft : remaining t + k = remaining s := by
    refine h.count_add (remaining_of_round hm) (Nat.le_of_lt hk)
  have hwhole := hopen htaken
  have hrest := hopen htaken'
  rw [hmoved.df, elementLoop_eq_loop hm'] at hrest
  rw [elementLoop_eq_loop hm', ← hleft, loop_resume hrounds, hrest] at hwhole
  exact congrArg StringResult.machine (Option.some.inj hwhole)

end Rest

/-! ## Executions -/

/-- The state that `k` elements leave, as far as the bulk path looks at it. -/
def behind (op : StringOp) (w : Width) (k : Nat) (s : Machine) : Machine :=
  ⟨(advance op (BitVec.ofNat 32 k * stride s.cpu.df w) s.cpu).setReg ecx
    (s.cpu.reg ecx - BitVec.ofNat 32 k), s.host⟩

/-- When a restart behind `k` elements ends as an execution from the start does: the bulk path
takes the whole repeat, or it is left at the start, the elements done are still granted, and at
the restart it writes only where it may. -/
def RestartSound (m : Mem) (insn : StringInsn) (w : Width) (s : Machine) (k : Nat) : Prop :=
  insn.rep = .none ∨ BulkTaken m insn.str w s ∨
    (BulkDefined m insn.str w s ∧
      (∀ j < k, refusedElement m insn.str w (stride s.cpu.df w) s.cpu j = none) ∧
      BulkDefined m insn.str w (behind insn.str w k s) ∧
      BulkWritable m insn.str w (behind insn.str w k s))

/-- Two executions that both have a result end in the same state. -/
def EndsAlike (m : Mem) (insn : StringInsn) (s t : Machine) : Prop :=
  ∃ r r', stringExecute m insn s = some r ∧ stringExecute m insn t = some r' ∧
    r.machine = r'.machine

/-- A fault behind `k` elements. -/
structure FaultBehind (m : Mem) (insn : StringInsn) (w : Width) (s : Machine) (r : StringResult)
    (k : Nat) : Prop where
  elements : Elements m insn.str w (stride s.cpu.df w) k s r.machine
  single : insn.rep = .none → k = 0
  left : insn.rep ≠ .none → k < remaining s ∧
    r.machine.cpu.reg ecx = s.cpu.reg ecx - BitVec.ofNat 32 k
  address : refusedElement m insn.str w (stride s.cpu.df w) s.cpu k = some r.faultAddr

section Execute

variable {m m' : Mem} {insn : StringInsn} {w : Width} {s t : Machine} {k : Nat}

theorem width_of_bytes (hw : insn.strWidth = w.bytes) : Width.ofBytes insn.strWidth = some w := by
  rw [hw]
  cases w <;> rfl

theorem stringExecute_once (m : Mem) (s : Machine) (hw : insn.strWidth = w.bytes)
    (hsupported : stringIsSupported insn.str insn.rep insn.strWidth = true)
    (hrep : insn.rep = .none) :
    stringExecute m insn s = (stepOnce m insn.str w (stride s.cpu.df w) s).map fun
      | .error fault => ⟨.fault, fault, s⟩
      | .ok s => ⟨.ok, 0, s⟩ := by
  unfold stringExecute
  rw [if_pos hsupported, width_of_bytes hw, Option.bind_some]
  dsimp only
  rewrite [if_pos hrep]
  rfl

theorem stringExecute_repeat (m : Mem) (s : Machine) (hw : insn.strWidth = w.bytes)
    (hsupported : stringIsSupported insn.str insn.rep insn.strWidth = true)
    (hrep : insn.rep ≠ .none) :
    stringExecute m insn s = (bulkString m insn.str w s).bind fun
      | some s => some ⟨.ok, 0, s⟩
      | none => elementLoop m insn.str insn.rep w (stride s.cpu.df w) s := by
  unfold stringExecute
  rw [if_pos hsupported, width_of_bytes hw, Option.bind_some]
  dsimp only
  rewrite [if_neg hrep]
  rfl

/-- The operations with a bulk path have one repeat prefix. -/
theorem rep_of_bulk (hsupported : stringIsSupported insn.str insn.rep insn.strWidth = true)
    (hrep : insn.rep ≠ .none) (hop : insn.str = .movs ∨ insn.str = .stos) : insn.rep = .rep := by
  unfold stringIsSupported repIsDefined at hsupported
  rw [Bool.and_eq_true, if_neg hrep, if_neg (by rcases hop with h | h <;> rw [h] <;> decide)]
    at hsupported
  exact of_decide_eq_true hsupported.2

theorem bulkResult_ecx (m : Mem) (op : StringOp) (w : Width) (s : Machine) :
    (bulkResult m op w s).cpu.reg ecx = 0 := by
  simp [bulkResult, afterRepeat]

theorem remaining_bulkResult (m : Mem) (op : StringOp) (w : Width) (s : Machine) :
    remaining (bulkResult m op w s) = 0 := by
  unfold remaining
  rw [bulkResult_ecx]
  rfl

/-- A loop that faults leaves something to do. -/
theorem remaining_of_fault (hm : m.WellFormed) {op : StringOp} {kind : RepKind} {delta : U32}
    {r : StringResult} (hloop : elementLoop m op kind w delta s = some r) :
    remaining r.machine ≤ remaining s ∧ (r.status = .fault → 0 < remaining r.machine) := by
  rw [elementLoop_eq_loop hm] at hloop
  obtain ⟨out, hout, rfl⟩ := Option.map_eq_some_iff.mp hloop
  have hle := count_of_loop (remaining_of_round hm) hout
  cases loop_cases hout with
  | @failed fault k t hlt hdone herror =>
    have := hdone.count_add (remaining_of_round hm) (Nat.le_of_lt hlt)
    refine ⟨hle, fun _ => ?_⟩
    change 0 < remaining t
    omega
  | ranOut hdone => exact ⟨hle, fun h => by cases h⟩
  | stopped hlt hdone hlast hends => exact ⟨hle, fun h => by cases h⟩

theorem elementLoop_total (hm : m.WellFormed) (op : StringOp) (kind : RepKind) (w : Width)
    (delta : U32) (s : Machine) : ∃ r, elementLoop m op kind w delta s = some r := by
  obtain ⟨out, hout⟩ := loop_defined (elementRound_total hm) (remaining s) s
  exact ⟨_, by rw [elementLoop_eq_loop hm, hout]; rfl⟩

/-- A bulk path that is taken leaves what the loop leaves exactly when it may write there. -/
theorem taken_agrees_iff (hm : m.WellFormed) (htaken : BulkTaken m insn.str w s)
    (hrep : insn.rep = .rep) :
    (∃ r, elementLoop m insn.str insn.rep w (stride s.cpu.df w) s = some r ∧
      bulkResult m insn.str w s = r.machine) ↔ BulkWritable m insn.str w s := by
  constructor
  · rintro ⟨r, hloop, hsame⟩ -
    have hr := htaken.tried.range
    rw [hrep, hr.forward, elementLoop_eq] at hloop
    have hgranted : r.status = .ok → m.GrantsRange memWrite (s.cpu.reg edi).toNat
        (repeatBytes w s.cpu) := by
      obtain ⟨r', hloop', hok⟩ := @repLoop_granted m w _ htaken.tried.op hr.sparse _ s hr.unobserved
        rfl
      cases hloop.symm.trans hloop'
      refine hok ?_
      have hadmits := htaken.admitted
      unfold BulkAdmitted at hadmits
      split_ifs at hadmits
      · exact (grantsRange_bounds (repeatBytes_pos hr) hadmits.2.1).2
      · exact (grantsRange_bounds (repeatBytes_pos hr) hadmits).2
    rw [← elementLoop_eq] at hloop
    have hfault := (remaining_of_fault hm hloop).2
    rw [← hsame, remaining_bulkResult] at hfault
    refine hgranted ?_
    rw [elementLoop_eq_loop hm] at hloop
    obtain ⟨out, hout, rfl⟩ := Option.map_eq_some_iff.mp hloop
    cases loop_cases hout with
    | failed hlt hdone herror => exact absurd (hfault rfl) (Nat.lt_irrefl 0)
    | ranOut hdone => rfl
    | stopped hlt hdone hlast hends => rfl
  · intro hwrite
    refine ⟨⟨.ok, 0, bulkResult m insn.str w s⟩, ?_, rfl⟩
    rw [hrep]
    exact elementLoop_taken htaken.tried htaken.admitted (hwrite htaken)

theorem behind_regs {op : StringOp} (hmoved : Moved op (stride s.cpu.df w) k s t) :
    ∀ r ∈ [ecx, esi, edi], (behind op w k s).cpu.reg r = t.cpu.reg r := by
  obtain ⟨-, hsource, hdestination⟩ :=
    advance_regs op (BitVec.ofNat 32 k * stride s.cpu.df w) s.cpu
  simp only [List.forall_mem_cons, List.not_mem_nil, false_implies, implies_true, and_true]
  refine ⟨?_, ?_, ?_⟩
  · unfold behind
    rw [hmoved.count, setReg_reg, Function.update_self]
  · unfold behind
    rw [hmoved.source, setReg_reg, Function.update_of_ne esi_ne_ecx, hsource]
    unfold sourceStep
    split_ifs <;> simp
  · unfold behind
    rw [hmoved.destination, setReg_reg, Function.update_of_ne edi_ne_ecx, hdestination]
    unfold destinationStep
    split_ifs <;> simp

/-- What the bulk path does at the restart is known from the start. -/
theorem bulk_behind {op : StringOp} (hmoved : Moved op (stride s.cpu.df w) k s t) :
    (BulkDefined m op w (behind op w k s) ↔ BulkDefined m op w t) ∧
      (BulkWritable m op w (behind op w k s) ↔ BulkWritable m op w t) := by
  have hregs := behind_regs hmoved
  have hdf : (behind op w k s).cpu.df = t.cpu.df := by
    rw [hmoved.df]
    exact (advance_df s.cpu _).1
  obtain ⟨htried, hinside, hadmits, hbytes⟩ :=
    @bulkTaken_congr m op w t (behind op w k s) hregs hdf hmoved.observer.symm
  have htaken : BulkTaken m op w (behind op w k s) ↔ BulkTaken m op w t :=
    ⟨fun h => ⟨htried.mp h.1, hinside.mp h.2, hadmits.mp h.3⟩,
      fun h => ⟨htried.mpr h.1, hinside.mpr h.2, hadmits.mpr h.3⟩⟩
  unfold BulkDefined BulkWritable
  rw [htried, hinside, htaken, hbytes, hregs edi (by simp)]
  exact ⟨Iff.rfl, Iff.rfl⟩

/-- A bulk path that is left gives the element loop. -/
theorem stringExecute_left (hw : insn.strWidth = w.bytes)
    (hsupported : stringIsSupported insn.str insn.rep insn.strWidth = true)
    (hrep : insn.rep ≠ .none) (hdefined : BulkDefined m insn.str w s)
    (hnot : ¬ BulkTaken m insn.str w s) :
    stringExecute m insn s = elementLoop m insn.str insn.rep w (stride s.cpu.df w) s := by
  rw [stringExecute_repeat m s hw hsupported hrep, bulkString_left hdefined hnot]
  rfl

theorem stringExecute_taken (hw : insn.strWidth = w.bytes)
    (hsupported : stringIsSupported insn.str insn.rep insn.strWidth = true)
    (hrep : insn.rep ≠ .none) (htaken : BulkTaken m insn.str w s) :
    stringExecute m insn s = some ⟨.ok, 0, bulkResult m insn.str w s⟩ := by
  rw [stringExecute_repeat m s hw hsupported hrep, bulkString_taken htaken]
  rfl

theorem stringExecute_undefined (hw : insn.strWidth = w.bytes)
    (hsupported : stringIsSupported insn.str insn.rep insn.strWidth = true)
    (hrep : insn.rep ≠ .none) (hnot : ¬ BulkDefined m insn.str w s) :
    stringExecute m insn s = none := by
  rw [stringExecute_repeat m s hw hsupported hrep, bulkString_undefined hnot]
  rfl

/-- A restart behind `k` elements of a repeat ends as the execution from the start exactly when
it is sound. -/
theorem restart_iff (hm : m.WellFormed) (hm' : m'.WellFormed) (hsame : SameLayout m m')
    (hw : insn.strWidth = w.bytes)
    (hsupported : stringIsSupported insn.str insn.rep insn.strWidth = true)
    (hrep : insn.rep ≠ .none) (hk : k < remaining s)
    (h : Rounds (elementRound m insn.str w (stride s.cpu.df w)) (endsRepeat insn.str insn.rep)
      k s t) : EndsAlike m' insn t s ↔ RestartSound m' insn w s k := by
  have hmoved := moved_of_rounds hm h
  obtain ⟨hdefinedAt, hwritableAt⟩ := @bulk_behind m' w s t k insn.str hmoved
  have hleft := h.count_add (remaining_of_round hm) (Nat.le_of_lt hk)
  unfold RestartSound
  rw [← rounds_iff hm hm' hsame h, hdefinedAt, hwritableAt]
  by_cases htaken : BulkTaken m' insn.str w s
  · -- both go through the bulk path
    refine iff_of_true ?_ (Or.inr (Or.inl htaken))
    have hkind := rep_of_bulk hsupported hrep htaken.tried.op
    rw [hkind] at h
    have htaken' := bulkTaken_behind htaken hmoved hk
    exact ⟨_, _, stringExecute_taken hw hsupported hrep htaken',
      stringExecute_taken hw hsupported hrep htaken, bulkResult_behind hm hsame htaken h hk⟩
  by_cases hdefined : BulkDefined m' insn.str w s
  swap
  · refine iff_of_false ?_ (by tauto)
    rintro ⟨r, r', -, hstart, -⟩
    rw [stringExecute_undefined hw hsupported hrep hdefined] at hstart
    cases hstart
  have hstart := stringExecute_left hw hsupported hrep hdefined htaken
  have hloops : ∃ r', elementLoop m' insn.str insn.rep w (stride s.cpu.df w) s = some r' :=
    elementLoop_total hm' _ _ _ _ _
  obtain ⟨r', hr'⟩ := hloops
  have hdf := hmoved.df
  by_cases hrounds : Rounds (elementRound m' insn.str w (stride s.cpu.df w))
      (endsRepeat insn.str insn.rep) k s t
  · -- the start comes to the state of the restart
    have hresume : elementLoop m' insn.str insn.rep w (stride t.cpu.df w) t = some r' := by
      rw [hdf, ← hr', elementLoop_eq_loop hm', elementLoop_eq_loop hm', ← hleft,
        loop_resume hrounds]
    by_cases hdefined' : BulkDefined m' insn.str w t
    swap
    · refine iff_of_false ?_ (by tauto)
      rintro ⟨r, -, hrestart, -⟩
      rw [stringExecute_undefined hw hsupported hrep hdefined'] at hrestart
      cases hrestart
    by_cases htaken' : BulkTaken m' insn.str w t
    · have hagrees := taken_agrees_iff hm' htaken' (rep_of_bulk hsupported hrep htaken'.tried.op)
      rw [hresume] at hagrees
      unfold EndsAlike
      rw [stringExecute_taken hw hsupported hrep htaken', hstart, hr']
      constructor
      · rintro ⟨_, _, hr, hr', hends⟩
        cases hr
        cases hr'
        exact Or.inr (Or.inr ⟨hdefined, hrounds, hdefined', hagrees.mp ⟨_, rfl, hends⟩⟩)
      · rintro (hnone | htaken | ⟨-, -, -, hwrite⟩)
        · exact absurd hnone hrep
        · contradiction
        · obtain ⟨_, hr, hends⟩ := hagrees.mpr hwrite
          cases hr
          exact ⟨_, _, rfl, rfl, hends⟩
    · refine iff_of_true ?_ (Or.inr (Or.inr ⟨hdefined, hrounds, hdefined', fun h => absurd h htaken'⟩))
      exact ⟨r', r', (stringExecute_left hw hsupported hrep hdefined' htaken').trans hresume,
        hstart.trans hr', rfl⟩
  · -- the start faults before it comes there, with more left to do
    refine iff_of_false ?_ (by tauto)
    obtain ⟨e, u, hloop, hlt⟩ := loop_of_not_rounds (remaining_of_round hm)
      (elementRound_sameLayout hm hm' hsame) (elementRound_total hm') h (Nat.le_of_lt hk) hrounds
    rw [elementLoop_eq_loop hm', hloop] at hr'
    rintro ⟨r, _, hrestart, hr'', hends⟩
    cases (hstart.trans (by rw [elementLoop_eq_loop hm', hloop])).symm.trans hr''
    have hmachine : r.machine = u := hends
    by_cases hdefined' : BulkDefined m' insn.str w t
    · by_cases htaken' : BulkTaken m' insn.str w t
      · rw [stringExecute_taken hw hsupported hrep htaken'] at hrestart
        cases hrestart
        have hzero := remaining_bulkResult m' insn.str w t
        rw [← hmachine, hzero] at hlt
        exact Nat.not_lt_zero _ hlt
      · rw [stringExecute_left hw hsupported hrep hdefined' htaken'] at hrestart
        have hle := (remaining_of_fault hm' hrestart).1
        rw [hmachine] at hle
        exact absurd hlt (Nat.not_lt.mpr hle)
    · rw [stringExecute_undefined hw hsupported hrep hdefined'] at hrestart
      cases hrestart

end Execute

/-! ## The comparing repeats -/

/-- The left operand of element `j`. -/
def leftElement (m : Mem) (op : StringOp) (w : Width) (delta : U32) (s : Machine) (j : Nat) : U32 :=
  if op = .cmps then loaded m s.host (s.cpu.reg esi + BitVec.ofNat 32 j * delta) w
  else regRead s.cpu eax w

/-- The right operand of element `j`. -/
def rightElement (m : Mem) (w : Width) (delta : U32) (s : Machine) (j : Nat) : U32 :=
  loaded m s.host (s.cpu.reg edi + BitVec.ofNat 32 j * delta) w

/-- Element `j` ends the repeat: it differs under REPE, it matches under REPNE. -/
def elementEnds (m : Mem) (op : StringOp) (kind : RepKind) (w : Width) (delta : U32) (s : Machine)
    (j : Nat) : Bool :=
  let equal := decide (operand w (leftElement m op w delta s j) =
    operand w (rightElement m w delta s j))
  match kind with
  | .rep => !equal
  | .repne => equal
  | .none => false

/-- The elements up to and with the first that ends the repeat, of those that are left. -/
def comparedElements (m : Mem) (op : StringOp) (kind : RepKind) (w : Width) (delta : U32)
    (s : Machine) : Nat :=
  min (remaining s) (1 + (List.range (remaining s)).findIdx (elementEnds m op kind w delta s))

/-- A comparing repeat from `s` that ends in `t`. -/
structure ComparedRounds (m : Mem) (op : StringOp) (kind : RepKind) (w : Width) (delta : U32)
    (s t : Machine) : Prop where
  elements : Elements m op w delta (comparedElements m op kind w delta s) s t
  count : t.cpu.reg ecx = s.cpu.reg ecx - BitVec.ofNat 32 (comparedElements m op kind w delta s)
  memory : t.host = s.host
  untouched : remaining s = 0 → t.cpu.flags = s.cpu.flags
  last : ∀ j, comparedElements m op kind w delta s = j + 1 → ∃ u v, Elements m op w delta j s u ∧
    alu .cmp (leftElement m op w delta s j) (rightElement m w delta s j) w u.cpu.flags =
      some (v, t.cpu.flags)

section Compare

variable {m : Mem} {op : StringOp} {kind : RepKind} {w : Width} {delta : U32}
  {stops : Machine → Bool} {s t u : Machine} {k j : Nat}

theorem flagZf_comparedFlags (a b : U32) (w : Width) (f : Flags) :
    flagZf (comparedFlags a b w f) = decide (operand w a = operand w b) := by
  have hconsistent : Consistent (comparedFlags a b w f) :=
    @consistent_shape .cmp _ _ rfl (a &&& widthMask w) (b &&& widthMask w) w
      (if flagCf f then 1 else 0)
  have hzf : flagZf (comparedFlags a b w f) =
      decide (operand w (a &&& widthMask w) = operand w (b &&& widthMask w)) :=
    (flags_sub rfl hconsistent).2.1
  simp only [hzf, operand_and_widthMask]

/-- A comparing element and the round behind it. -/
theorem element_compares (hop : op = .scas ∨ op = .cmps) :
    (element m op w delta s).host = s.host ∧
      (element m op w delta s).cpu.reg eax = s.cpu.reg eax ∧
      (element m op w delta s).cpu.flags = comparedFlags (leftOperand m op w s)
        (loaded m s.host (s.cpu.reg edi) w) w s.cpu.flags := by
  have heax := advance_other op delta (withComparison m op w s) (r := eax) (by decide) (by decide)
  have hflags : (advance op delta (withComparison m op w s)).flags =
      (withComparison m op w s).flags := (advance_df (withComparison m op w s) delta).2
  rcases hop with rfl | rfl
  · exact ⟨rfl, heax, hflags⟩
  · exact ⟨rfl, heax, hflags⟩

/-- Comparing changes neither the memory nor the accumulator. -/
theorem kept_of_rounds (hm : m.WellFormed) (hop : op = .scas ∨ op = .cmps)
    (h : Rounds (elementRound m op w delta) stops k s t) :
    t.host = s.host ∧ t.cpu.reg eax = s.cpu.reg eax := by
  refine h.invariant (P := fun _ u => u.host = s.host ∧ u.cpu.reg eax = s.cpu.reg eax)
    ⟨rfl, rfl⟩ fun i u v hu hround => ?_
  obtain ⟨-, rfl⟩ := (elementRound_ok hm).mp hround
  obtain ⟨hhost, heax, -⟩ := @element_compares m op w delta u hop
  refine ⟨hhost.trans hu.1, ?_⟩
  unfold nextRound
  rw [setReg_reg, Function.update_of_ne (by decide), heax, hu.2]

/-- The operands that a round finds are those of its element. -/
theorem operands_of_rounds (hm : m.WellFormed) (hop : op = .scas ∨ op = .cmps)
    (h : Rounds (elementRound m op w delta) stops k s t) :
    leftOperand m op w t = leftElement m op w delta s k ∧
      loaded m t.host (t.cpu.reg edi) w = rightElement m w delta s k := by
  have hmoved := moved_of_rounds hm h
  obtain ⟨hhost, heax⟩ := kept_of_rounds hm hop h
  have haccumulator : regRead t.cpu eax w = regRead s.cpu eax w := by
    cases w with
    | byte =>
      unfold regRead
      rw [show (byteReg eax).1 = eax by decide, heax]
    | word =>
      unfold regRead
      rw [heax]
    | dword => exact heax
  unfold leftOperand leftElement rightElement
  rw [hmoved.source, hmoved.destination, hhost, haccumulator]
  rcases hop with rfl | rfl
  · exact ⟨rfl, rfl⟩
  · exact ⟨rfl, rfl⟩

/-- What the code tests behind an element is what the element says. -/
theorem endsRepeat_next (hm : m.WellFormed) (hop : op = .scas ∨ op = .cmps)
    (h : Rounds (elementRound m op w delta) stops k s t) :
    endsRepeat op kind (nextRound (element m op w delta t)) =
      elementEnds m op kind w delta s k := by
  obtain ⟨hleft, hright⟩ := operands_of_rounds hm hop h
  have hflags : (nextRound (element m op w delta t)).cpu.flags =
      comparedFlags (leftElement m op w delta s k) (rightElement m w delta s k) w t.cpu.flags := by
    rw [← hleft, ← hright]
    exact (element_compares hop).2.2
  unfold endsRepeat repStops elementEnds
  rw [hflags, flagZf_comparedFlags]
  rcases hop with rfl | rfl <;> cases kind <;> simp

/-- Rounds that go on did not compare what ends the repeat. -/
theorem not_elementEnds (hm : m.WellFormed) (hop : op = .scas ∨ op = .cmps)
    (h : Rounds (elementRound m op w delta) (endsRepeat op kind) k s t) (hj : j < k) :
    elementEnds m op kind w delta s j = false := by
  obtain ⟨u, hfirst, hlast⟩ := h.take (Nat.le_of_lt hj)
  obtain ⟨i, hi⟩ : ∃ i, k - j = i + 1 := ⟨k - j - 1, by omega⟩
  rw [hi] at hlast
  cases hlast with
  | head hround hgo _ =>
    obtain ⟨-, rfl⟩ := (elementRound_ok hm).mp hround
    rwa [endsRepeat_next hm hop hfirst] at hgo

/-- The flags behind the last of the elements are those of its comparison. -/
theorem last_comparison (hm : m.WellFormed) (hop : op = .scas ∨ op = .cmps)
    (h : Rounds (elementRound m op w delta) stops k s t)
    (hround : elementRound m op w delta t = some (.ok u)) :
    ∃ v, alu .cmp (leftElement m op w delta s k) (rightElement m w delta s k) w t.cpu.flags =
      some (v, u.cpu.flags) := by
  obtain ⟨hleft, hright⟩ := operands_of_rounds hm hop h
  obtain ⟨-, rfl⟩ := (elementRound_ok hm).mp hround
  obtain ⟨v, halu⟩ := alu_cmp_eq (leftElement m op w delta s k) (rightElement m w delta s k) w
    t.cpu.flags
  refine ⟨v, ?_⟩
  rw [halu, ← hleft, ← hright]
  exact congrArg (fun f => some (v, f)) (element_compares hop).2.2.symm

/-- A comparing repeat that does not fault stops at the first element that ends it. -/
theorem compared_of_loop (hm : m.WellFormed) (hop : op = .scas ∨ op = .cmps)
    (h : loop (elementRound m op w delta) (endsRepeat op kind) (remaining s) s = some (none, t)) :
    ComparedRounds m op kind w delta s t := by
  cases loop_cases h with
  | ranOut hdone =>
    have hall : ∀ j ∈ List.range (remaining s), ¬ elementEnds m op kind w delta s j = true :=
      fun j hj => by rw [not_elementEnds hm hop hdone (List.mem_range.mp hj)]; decide
    have hcount : comparedElements m op kind w delta s = remaining s := by
      unfold comparedElements
      rw [List.findIdx_eq_length.mpr (by simpa using hall), List.length_range]
      omega
    have hmoved := moved_of_rounds hm hdone
    refine ⟨hcount ▸ hdone.forget, hcount ▸ hmoved.count, (kept_of_rounds hm hop hdone).1, ?_, ?_⟩
    · intro hzero
      rw [hzero] at hdone
      cases hdone
      rfl
    · intro j hj
      obtain ⟨u, hfirst, hlast⟩ := hdone.take (i := j) (by omega)
      rw [show remaining s - j = 0 + 1 by omega] at hlast
      cases hlast with
      | head hround hgo rest =>
        cases rest
        obtain ⟨v, hv⟩ := last_comparison hm hop hfirst hround
        exact ⟨u, v, hfirst.forget, hv⟩
  | @stopped k u _ hlt hdone hround hends =>
    have hends' : elementEnds m op kind w delta s k = true := by
      rw [← endsRepeat_next hm hop hdone]
      obtain ⟨-, rfl⟩ := (elementRound_ok hm).mp hround
      exact hends
    have hcount : comparedElements m op kind w delta s = k + 1 := by
      have hindex : (List.range (remaining s)).findIdx (elementEnds m op kind w delta s) = k := by
        refine (List.findIdx_eq (by rwa [List.length_range])).mpr ⟨?_, fun j hj => ?_⟩
        · rwa [List.getElem_range]
        · rw [List.getElem_range]
          exact not_elementEnds hm hop hdone hj
      unfold comparedElements
      rw [hindex]
      omega
    have hall : Rounds (elementRound m op w delta) (fun _ => false) (k + 1) s t :=
      hdone.forget.snoc hround rfl
    have hmoved := moved_of_rounds hm hall
    refine ⟨hcount ▸ hall, hcount ▸ hmoved.count, (kept_of_rounds hm hop hall).1, ?_, ?_⟩
    · omega
    · intro j hj
      obtain rfl : j = k := by omega
      obtain ⟨v, hv⟩ := last_comparison hm hop hdone hround
      exact ⟨u, v, hdone.forget, hv⟩

end Compare

/-! ## The result -/

/-- A fault leaves the state behind the elements before the refused one, and a restart under
other permissions ends as an execution from the start exactly when it is sound. A comparing
repeat has a meaning, and when it does not fault it stops at the first element that ends it. -/
theorem string_restartable (m : Mem) (insn : StringInsn) (w : Width) (s : Machine)
    (hm : m.WellFormed) (hw : insn.strWidth = w.bytes)
    (hsupported : stringIsSupported insn.str insn.rep insn.strWidth = true) :
    (∀ r, stringExecute m insn s = some r → r.status = .fault →
      ∃ k, FaultBehind m insn w s r k ∧
        ∀ m' : Mem, m'.WellFormed → SameLayout m m' →
          (EndsAlike m' insn r.machine s ↔ RestartSound m' insn w s k)) ∧
    (insn.str = .scas ∨ insn.str = .cmps → insn.rep ≠ .none →
      ∃ r, stringExecute m insn s = some r ∧
        (r.status = .ok →
          ComparedRounds m insn.str insn.rep w (stride s.cpu.df w) s r.machine)) := by
  constructor
  · intro r hexec hfault
    by_cases hrep : insn.rep = .none
    · -- one element, which left everything as it was
      rw [stringExecute_once m s hw hsupported hrep, stepOnce_eq hm] at hexec
      cases hrefused : refusedAccess m insn.str w (s.cpu.reg esi) (s.cpu.reg edi) with
      | none =>
        rw [hrefused] at hexec
        cases hexec
        cases hfault
      | some fault =>
        rw [hrefused] at hexec
        cases hexec
        refine ⟨0, ⟨.refl s, fun _ => rfl, fun h => absurd hrep h, ?_⟩, fun m' hm' _ => ?_⟩
        · rw [← hrefused]
          unfold refusedElement
          simp
        · refine iff_of_true ?_ (Or.inl hrep)
          have htotal : ∃ r, stringExecute m' insn s = some r := by
            rw [stringExecute_once m' s hw hsupported hrep, stepOnce_eq hm']
            exact ⟨_, rfl⟩
          obtain ⟨r, hr⟩ := htotal
          exact ⟨r, r, hr, hr, rfl⟩
    · by_cases hdefined : BulkDefined m insn.str w s
      · by_cases htaken : BulkTaken m insn.str w s
        · rw [stringExecute_taken hw hsupported hrep htaken] at hexec
          cases hexec
          cases hfault
        · rw [stringExecute_left hw hsupported hrep hdefined htaken, elementLoop_eq_loop hm]
            at hexec
          obtain ⟨out, hout, rfl⟩ := Option.map_eq_some_iff.mp hexec
          cases loop_cases hout with
          | @failed fault k t hlt hdone herror =>
            have hmoved := moved_of_rounds hm hdone
            have hrefused := (elementRound_error hm).mp herror
            rw [refusedElement_eq hmoved.source hmoved.destination] at hrefused
            exact ⟨k, ⟨hdone.forget, fun h => absurd h hrep, fun _ => ⟨hlt, hmoved.count⟩,
                hrefused⟩,
              fun m' hm' hsame => restart_iff hm hm' hsame hw hsupported hrep hlt hdone⟩
          | ranOut hdone => cases hfault
          | stopped hlt hdone hlast hends => cases hfault
      · rw [stringExecute_undefined hw hsupported hrep hdefined] at hexec
        cases hexec
  · intro hop hrep
    have hnot : ¬ BulkTried m insn.str w s := by
      intro h
      rcases hop with h' | h' <;> rcases h.op with h'' | h'' <;> rw [h'] at h'' <;> cases h''
    have htotal (u : Machine) : ∃ out, elementRound m insn.str w (stride s.cpu.df w) u = some out :=
      elementRound_total hm u
    obtain ⟨out, hout⟩ := @loop_defined _ _ _ (endsRepeat insn.str insn.rep) htotal (remaining s) s
    refine ⟨repeatResult out, ?_, fun hok => ?_⟩
    · rw [stringExecute_left hw hsupported hrep (fun h => absurd h hnot) fun h => hnot h.tried,
        elementLoop_eq_loop hm, hout]
      rfl
    · obtain ⟨fault, t⟩ := out
      cases fault with
      | some fault => cases hok
      | none => exact compared_of_loop hm hop hout

/-- Two contiguous windows at one place differ in their permissions only. -/
theorem sameLayout_window {m m' : Mem} (hs : m.sparse = none) (hs' : m'.sparse = none)
    (hlo : m'.lo = m.lo) (hhost : m'.host = m.host) : SameLayout m m' := by
  intro a x y hx hy
  unfold Mem.place at hx hy
  rw [hs] at hx
  rw [hs'] at hy
  dsimp only at hx hy
  split_ifs at hx hy
  cases hx
  cases hy
  unfold Mem.hostOf
  rw [hlo, hhost]

theorem sixPages_pos : 1 ≤ 1 := Nat.le_refl 1

theorem sixPages_le : 1 ≤ 31 := by decide

/-- Six pages of two bytes at address 0; the last can only be read. -/
def sixPages (fifth : U8) : Mem where
  host := 0
  lo := 0
  size := 12
  sparse := none
  perms := some ⟨[3, 3, 3, 3, fifth, 1], 1, sixPages_pos, sixPages_le, by simp⟩

def repMovsb : StringInsn := ⟨.movs, .rep, 1⟩

/-- Eight bytes from 0 to 4, which overlap. -/
def copyEight : Machine where
  cpu := ⟨fun r => if r = ecx then 8 else if r = edi then 4 else 0, false,
    ⟨0, 0, 0, .none, .dword, 0⟩⟩
  host := ⟨fun a => BitVec.ofNat 8 a, false, []⟩

theorem copyEight_faults :
    (stringExecute (sixPages 0) repMovsb copyEight).map
      (fun r => (r.status, r.faultAddr, r.machine.cpu.reg ecx)) = some (.fault, 8, 4) := by
  decide +kernel

theorem copyEight_behind {r : StringResult} {k : Nat}
    (h : FaultBehind (sixPages 0) repMovsb .byte copyEight r k)
    (hcount : r.machine.cpu.reg ecx = 4) : k = 4 := by
  obtain ⟨hlt, hk⟩ := h.left (by decide)
  rw [hcount, show copyEight.cpu.reg ecx = 8 from rfl] at hk
  have : k < 8 := hlt
  bv_omega

/-- The six pages, all writable. -/
def openPages : Mem where
  host := 0
  lo := 0
  size := 12
  sparse := none
  perms := some ⟨[3, 3, 3, 3, 3, 3], 1, sixPages_pos, sixPages_le, by simp⟩

theorem openPages_restartSound : RestartSound openPages repMovsb .byte copyEight 4 := by
  have hdefined (s : Machine) (hshort : repeatBytes .byte s.cpu ≤ 2 ^ 31) :
      BulkDefined openPages .movs .byte s := fun _ =>
    ⟨not_overruns_of_le hshort _, fun _ => not_overruns_of_le hshort _⟩
  refine .inr (.inr ⟨hdefined _ (by decide), by decide +kernel, hdefined _ (by decide), fun _ => ?_⟩)
  change openPages.GrantsRange memWrite 8 4
  decide +kernel

/-- Behind four of eight bytes the fifth page faults, and once it is writable, and the sixth, a
restart ends as an execution from the start does. -/
theorem copyEight_restarts :
    ∃ r, stringExecute (sixPages 0) repMovsb copyEight = some r ∧
      FaultBehind (sixPages 0) repMovsb .byte copyEight r 4 ∧
      EndsAlike openPages repMovsb r.machine copyEight := by
  obtain ⟨r, hexec, hr⟩ := Option.map_eq_some_iff.mp copyEight_faults
  obtain ⟨hfault, hleft⟩ := Prod.ext_iff.mp hr
  have hcount : r.machine.cpu.reg ecx = 4 := congrArg Prod.snd hleft
  obtain ⟨k, hbehind, hrestart⟩ := (string_restartable (sixPages 0) repMovsb .byte copyEight
    (wellFormed_window rfl) rfl (by decide)).1 r hexec hfault
  obtain rfl := copyEight_behind hbehind hcount
  exact ⟨r, hexec, hbehind, (hrestart openPages (wellFormed_window rfl)
    (sameLayout_window rfl rfl rfl rfl)).mpr openPages_restartSound⟩

/-- Once the fifth page is writable, the rest no longer overlaps and goes through the bulk path,
over the page that can only be read; from the start the element loop faults there. -/
theorem copyEight_restart_diverges :
    ¬ ∀ (m : Mem) (insn : StringInsn) (w : Width) (s : Machine), m.WellFormed →
        insn.strWidth = w.bytes → stringIsSupported insn.str insn.rep insn.strWidth = true →
        ∀ r, stringExecute m insn s = some r → r.status = .fault →
          ∃ k, FaultBehind m insn w s r k ∧ ∀ m' : Mem, m'.WellFormed → SameLayout m m' →
            refusedElement m' insn.str w (stride s.cpu.df w) s.cpu k = none →
              EndsAlike m' insn r.machine s := by
  intro hall
  obtain ⟨r, hexec, hr⟩ := Option.map_eq_some_iff.mp copyEight_faults
  obtain ⟨hstatus, hleft⟩ := Prod.ext_iff.mp hr
  have hcount : r.machine.cpu.reg ecx = 4 := congrArg Prod.snd hleft
  obtain ⟨k, hbehind, hrestart⟩ := hall (sixPages 0) repMovsb .byte copyEight
    (wellFormed_window rfl) rfl (by decide) r hexec hstatus
  have hk4 := copyEight_behind hbehind hcount
  obtain ⟨a, b, ha, hb, hends⟩ := hrestart (sixPages 3) (wellFormed_window rfl)
    (sameLayout_window rfl rfl rfl rfl) (by rw [hk4]; decide +kernel)
  have hrest : ((stringExecute (sixPages 0) repMovsb copyEight).bind fun r =>
      stringExecute (sixPages 3) repMovsb r.machine).map (fun r => r.machine.cpu.reg ecx) =
        some 0 := by decide +kernel
  have hwhole : (stringExecute (sixPages 3) repMovsb copyEight).map
      (fun r => r.machine.cpu.reg ecx) = some 2 := by decide +kernel
  rw [hexec, Option.bind_some, ha] at hrest
  rw [hb] at hwhole
  rw [Option.map_some, hends] at hrest
  exact absurd (hrest.symm.trans hwhole) (by decide)

end X86Port.Cpu
