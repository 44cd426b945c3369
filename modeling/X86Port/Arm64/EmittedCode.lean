import X86Port.Arm64.EmitRun
import X86Port.Lib.Following

/-!
# The code of the AArch64 encoder

The calls of a run as lines of a program, and the host on the words that they came to.

* `LineStep`: what the calls are to do, line by line.
* `codeStep`: what the host does with the words.
* `emitted_code_follows`: the host follows the lines.
-/

namespace X86Port.Arm64

open Lib (StepsIn)

/-! ## What they are to do, and what the host does -/

/-- Where the code lies, and what the functions it calls do: some never return. -/
structure A64Host where
  base : U64
  function : U64 → A64State → Option A64State

/-- The return address behind a word. -/
def A64Host.linked (H : A64Host) (pc : Nat) (s : A64State) : A64State :=
  s.setX 30 (H.base + 4 * BitVec.ofNat 64 (pc + 1))

inductive LineStep (H : A64Host) (S : A64Session) : Nat × A64State → Nat × A64State → Prop where
  | op {p : Nat} {s t : A64State} {o : A64Op} {returned : Returned} {start : Nat}
      (line : S.entries[p]? = some ⟨.op o, returned, start⟩) (means : o.Means s t) :
      LineStep H S (p, s) (p + 1, t)
  | mark {p : Nat} {s : A64State} {returned : Returned} {start : Nat}
      (line : S.entries[p]? = some ⟨.mark, returned, start⟩) : LineStep H S (p, s) (p + 1, s)
  | idle {p : Nat} {s : A64State} {returned : Returned} {start : Nat}
      (line : S.entries[p]? = some ⟨.idle, returned, start⟩) : LineStep H S (p, s) (p + 1, s)
  | taken {p l : Nat} {s : A64State} {k : A64Branch} {returned : Returned} {start : Nat}
      (line : S.entries[p]? = some ⟨.branch k (some l), returned, start⟩)
      (taken : k.taken s = true) :
      LineStep H S (p, s) (l + 1, if k.links then H.linked start s else s)
  | passed {p : Nat} {dest : Option Nat} {s : A64State} {k : A64Branch} {returned : Returned}
      {start : Nat} (line : S.entries[p]? = some ⟨.branch k dest, returned, start⟩)
      (passed : k.taken s = false) : LineStep H S (p, s) (p + 1, s)
  | call {p : Nat} {s t : A64State} {target : RegNo} {returned : Returned} {start : Nat}
      (line : S.entries[p]? = some ⟨.call target, returned, start⟩)
      (returns : H.function (s.x target) (H.linked start s) = some t) :
      LineStep H S (p, s) (p + 1, t)

/-- What the host does with an instruction at a word; nothing where it leaves the code. -/
def A64Instr.stepAt (H : A64Host) (pc : Nat) (s : A64State) (i : A64Instr) :
    Option (Nat × A64State) :=
  match i with
  | .branchReg opc target =>
    if opc = 1 then (H.function (s.x target) (H.linked pc s)).map fun t => (pc + 1, t) else none
  | i =>
    match i.branchTo s with
    | some (true, off) =>
      if 0 ≤ pc + off then some ((pc + off).toNat, if i.links then H.linked pc s else s) else none
    | some (false, _) => some (pc + 1, s)
    | none => (i.exec s).map fun t => (pc + 1, t)

def codeStep (H : A64Host) (code : List U32) (c : Nat × A64State) : Option (Nat × A64State) :=
  (code[c.1]?).bind fun word => (decode word).bind fun i => i.stepAt H c.1 c.2

/-- The host comes there. -/
def Reaches (H : A64Host) (code : List U32) : Nat × A64State → Nat × A64State → Prop :=
  Relation.ReflTransGen fun c c' => codeStep H code c = some c'

/-- The lines end, and so does the code; or a line leaves it, and so does the host; or a function
does not return; or a branch was not bound. -/
def Stops (H : A64Host) (S : A64Session) (p : Nat) (s : A64State) : Prop :=
  match S.entries[p]? with
  | none => p = S.entries.length
  | some ⟨.leave opc target, _, start⟩ =>
    (S.e.code.contents[start]?).bind decode = some (.branchReg opc target)
  | some ⟨.call target, _, start⟩ => H.function (s.x target) (H.linked start s) = none
  | some ⟨.branch k none, _, _⟩ => k.taken s = true
  | _ => False

/-! ## What the host does with it -/

section

variable {H : A64Host} {pc : Nat} {s t : A64State} {i : A64Instr}

theorem stepAt_exec (h : i.exec s = some t) : i.stepAt H pc s = some (pc + 1, t) := by
  cases i with
  | branch link imm26 => cases h
  | branchCond imm19 cond => cases h
  | compareBranch sf nonzero imm19 rt => cases h
  | testBranch bit nonzero imm14 rt => cases h
  | branchReg opc rn => cases h
  | _ => exact congrArg (Option.map _) h

theorem stepAt_branch {taken : Bool} {off : Int} (h : i.branchTo s = some (taken, off)) :
    i.stepAt H pc s =
      if taken then
        if 0 ≤ pc + off then some ((pc + off).toNat, if i.links then H.linked pc s else s) else none
      else some (pc + 1, s) := by
  have hmatch : (match i.branchTo s with
      | some (true, off) =>
        if 0 ≤ pc + off then some ((pc + off).toNat, if i.links then H.linked pc s else s) else none
      | some (false, _) => some (pc + 1, s)
      | none => (i.exec s).map fun t => (pc + 1, t)) = if taken then
        if 0 ≤ pc + off then some ((pc + off).toNat, if i.links then H.linked pc s else s) else none
      else some (pc + 1, s) := by
    rw [h]
    cases taken <;> rfl
  cases i with
  | branchReg opc rn => cases h
  | _ => exact hmatch

theorem codeStep_at {code : List U32} {word : U32} (hword : code[pc]? = some word)
    (hdecode : decode word = some i) : codeStep H code (pc, s) = i.stepAt H pc s := by
  unfold codeStep
  dsimp only
  rw [hword, Option.bind_some, hdecode, Option.bind_some]

/-- Words without branches, from end to end. -/
theorem reaches_words {code pre words post : List U32} (hcode : code = pre ++ words ++ post)
    (hrun : runWords words s = some t) :
    Reaches H code (pre.length, s) (pre.length + words.length, t) := by
  induction words generalizing pre s with
  | nil =>
    cases hrun
    exact .refl
  | cons word words ih =>
    obtain ⟨u, hu, hrest⟩ := Option.bind_eq_some_iff.mp hrun
    obtain ⟨i, hdecode, hexec⟩ := Option.bind_eq_some_iff.mp hu
    have hword : code[pre.length]? = some word := by
      rw [hcode, List.append_assoc, List.getElem?_append_right le_rfl, Nat.sub_self]
      rfl
    have hfirst : codeStep H code (pre.length, s) = some (pre.length + 1, u) :=
      (codeStep_at hword hdecode).trans (stepAt_exec hexec)
    have hcode' : code = (pre ++ [word]) ++ words ++ post := by simpa using hcode
    have hrest' := ih hcode' hrest
    rw [List.length_append, List.length_singleton] at hrest'
    rw [List.length_cons, Nat.add_comm words.length, ← Nat.add_assoc]
    exact .head hfirst hrest'

end

section

variable {S : A64Session} {items : List A64Item} {H : A64Host} {s t : A64State}

theorem KeptBy.place (hk : KeptBy S items) {pre post : List A64Item}
    (hitems : items = pre ++ post) :
    S.place pre.length = (flatWords pre).length := by
  unfold A64Session.place
  rw [hk.entries, List.getElem?_map, hitems, List.getElem?_append_right le_rfl, Nat.sub_self]
  cases post with
  | nil =>
    rw [List.append_nil] at hitems
    rw [← hitems, hk.len]
    rfl
  | cons it post =>
    have hchain := hk.chain
    rw [hitems, chain_append, Nat.zero_add] at hchain
    exact hchain.2.1

/-- What is known of the last store where a line begins. -/
def FreshLine (S : A64Session) (items : List A64Item) (p : Nat) (s : A64State) : Prop :=
  p ≤ items.length ∧ FreshAt (lastAfter none (items.take p)) (4 * S.place p) s

/-- A line that the host has come to the end of. -/
theorem KeptBy.next (hk : KeptBy S items) {p : Nat} {it : A64Item} (hp : items[p]? = some it)
    (hfresh : FreshAt it.after (4 * (it.start + it.words.length)) t) :
    S.place p = it.start ∧ S.place (p + 1) = it.start + it.words.length ∧
      FreshLine S items (p + 1) t := by
  obtain ⟨pre, post, hlen, hitems, hstart, -, -, -⟩ := hk.split hp
  have hpre := hk.place hitems
  have hitems' : items = (pre ++ [it]) ++ post := by rw [hitems, List.append_assoc]; rfl
  have hend := hk.place hitems'
  rw [List.length_append, List.length_singleton, flatWords_append, flatWords_cons, flatWords_nil,
    List.append_nil, List.length_append, hlen, ← hstart] at hend
  rw [hlen, ← hstart] at hpre
  refine ⟨hpre, hend, ?_, ?_⟩
  · rw [hitems', List.length_append, List.length_append, hlen]
    exact Nat.le_add_right _ _
  · have htake : items.take (p + 1) = pre ++ [it] := by
      rw [hitems', List.take_append_of_le_length (by simp [hlen]),
        List.take_of_length_le (by simp [hlen])]
    rw [htake, lastAfter_append, hend]
    exact hfresh

/-- One line, and what the host does with its words. -/
theorem line_follows (hk : KeptBy S items) {p : Nat} (h : FreshLine S items p s) :
    Stops H S p s ∨ ∃ c : Nat × A64State, LineStep H S (p, s) c ∧
      Reaches H S.e.code.contents (S.place p, s) (S.place c.1, c.2) ∧
        FreshLine S items c.1 c.2 := by
  cases hp : items[p]? with
  | none =>
    have hend : p = items.length := Nat.le_antisymm h.1 (List.getElem?_eq_none_iff.mp hp)
    have hentry : S.entries[p]? = none := by rw [hk.entries, List.getElem?_map, hp]; rfl
    left
    unfold Stops
    rw [hentry, hk.entries]
    exact hend.trans (List.length_map _).symm
  | some it =>
    have hentry : ∀ {line : A64Line}, it.line = line →
        S.entries[p]? = some ⟨line, it.returned, it.start⟩ := fun hline => by
      rw [hk.entries, List.getElem?_map, hp, ← hline]
      rfl
    obtain ⟨pre, post, hlen, hitems, hstart, hstands, -, -⟩ := hk.split hp
    have hplace : S.place p = it.start := by
      rw [← hlen, hk.place hitems, hstart]
    have hfwd : FreshAt (lastAfter none pre) (4 * it.start) s := by
      have h' := h.2
      rw [hplace, hitems, ← hlen, List.take_left] at h'
      exact h'
    have hcode : S.e.code.contents = flatWords pre ++ it.words ++ flatWords post := by
      rw [hk.contents, hitems, flatWords_append, flatWords_cons, List.append_assoc]
    have hword : ∀ {word : U32}, it.words = [word] → S.e.code.contents[it.start]? = some word := by
      intro word hw
      rw [hcode, hw, hstart, List.append_assoc, List.getElem?_append_right le_rfl, Nat.sub_self]
      rfl
    -- a line of one word leaves nothing of the last store
    have hafter : ∀ {word : U32} (t : A64State), it.words = [word] → it.after = lastAfter none pre →
        FreshAt it.after (4 * (it.start + it.words.length)) t := fun t hw hsame => by
      rw [hsame, hw]
      exact hfwd.after (by rw [List.length_singleton]; omega) t
    unfold A64Item.Stands at hstands
    cases hline : it.line with
    | op o =>
      rw [hline] at hstands
      obtain ⟨t, hrun, hmeans, hfresh⟩ := hstands s hfwd
      obtain ⟨-, hnext, hfresh'⟩ := hk.next hp hfresh
      refine .inr ⟨(p + 1, t), .op (hentry hline) hmeans, ?_, hfresh'⟩
      rw [hplace, hnext, hstart]
      exact reaches_words hcode hrun
    | mark =>
      rw [hline] at hstands
      have hfresh : FreshAt it.after (4 * (it.start + it.words.length)) s := by
        rw [hstands.1]
        exact hstands.2 s
      obtain ⟨-, hnext, hfresh'⟩ := hk.next hp hfresh
      refine .inr ⟨(p + 1, s), .mark (hentry hline), ?_, hfresh'⟩
      rw [hplace, hnext, hstands.1]
      exact .refl
    | idle =>
      rw [hline] at hstands
      have hfresh : FreshAt it.after (4 * (it.start + it.words.length)) s := by
        rw [hstands.1]
        exact hstands.2 s hfwd
      obtain ⟨-, hnext, hfresh'⟩ := hk.next hp hfresh
      refine .inr ⟨(p + 1, s), .idle (hentry hline), ?_, hfresh'⟩
      rw [hplace, hnext, hstands.1]
      exact .refl
    | call target =>
      rw [hline] at hstands
      obtain ⟨hw, hsame⟩ := hstands
      have hstep : codeStep H S.e.code.contents (it.start, s) =
          (H.function (s.x target) (H.linked it.start s)).map fun t => (it.start + 1, t) :=
        codeStep_at (hword hw) (decode_branchReg target 1)
      cases hreturns : H.function (s.x target) (H.linked it.start s) with
      | none =>
        left
        unfold Stops
        rw [hentry hline]
        exact hreturns
      | some t =>
        rw [hreturns] at hstep
        obtain ⟨-, hnext, hfresh'⟩ := hk.next hp (hafter t hw hsame)
        refine .inr ⟨(p + 1, t), .call (hentry hline) hreturns, ?_, hfresh'⟩
        rw [hplace, hnext, hw]
        exact .single hstep
    | leave opc target =>
      rw [hline] at hstands
      left
      unfold Stops
      rw [hentry hline]
      dsimp only
      rw [hword hstands.1]
      exact decode_branchReg target opc
    | branch k dest =>
      rw [hline] at hstands
      obtain ⟨hrefused, hfits, hw, hsame⟩ := hstands
      obtain ⟨i, hdecode, hlinks, hbranch⟩ := k.decode_word hrefused hfits
      have hstep := (codeStep_at (H := H) (s := s) (hword hw) hdecode).trans
        (stepAt_branch (hbranch s))
      cases htaken : k.taken s with
      | false =>
        rw [htaken] at hstep
        obtain ⟨-, hnext, hfresh'⟩ := hk.next hp (hafter s hw hsame)
        refine .inr ⟨(p + 1, s), .passed (hentry hline) htaken, ?_, hfresh'⟩
        rw [hplace, hnext, hw]
        exact .single hstep
      | true =>
        rw [htaken, if_pos rfl] at hstep
        cases dest with
        | none =>
          left
          unfold Stops
          rw [hentry hline]
          exact htaken
        | some l =>
          obtain ⟨m, hm, hmark, haim⟩ := hk.aims it (List.mem_of_getElem? hp) k l hline
          obtain ⟨pre', post', -, hitems', hstart', hstands', -, -⟩ := hk.split hm
          unfold A64Item.Stands at hstands'
          rw [hmark] at hstands'
          have hfresh : FreshAt m.after (4 * (m.start + m.words.length))
              (if k.links then H.linked it.start s else s) := by
            rw [hstands'.1]
            exact hstands'.2 _
          obtain ⟨-, hnext, hfresh'⟩ := hk.next hm hfresh
          refine .inr ⟨(l + 1, _), .taken (hentry hline) htaken, ?_, hfresh'⟩
          have hto : (it.start : Int) + ((it.aim : Int) - it.start) = it.aim := by omega
          rw [hto, if_pos (Int.natCast_nonneg _), Int.toNat_natCast, hlinks, haim] at hstep
          rw [hplace, hnext, hstands'.1]
          exact .single hstep

end

/-- The host follows the lines, however far they go: it comes to the word of each line that is
reached, in a state that the lines allow. -/
theorem emitted_code_follows (H : A64Host) (buf : Option (Nat → U32)) (cap : Nat)
    (calls : List A64Call) (hlegal : ∀ o, .op o ∈ calls → o.Legal)
    (hok : (emitCalls buf cap calls).e.ok) (s : A64State) (n : Nat) :
    let S := emitCalls buf cap calls
    ∃ k p t, StepsIn (LineStep H S) k (0, s) (p, t) ∧
      Reaches H S.e.code.contents (0, s) (S.place p, t) ∧ (k = n ∨ k ≤ n ∧ Stops H S p t) := by
  obtain ⟨items, hk⟩ := emitCalls_kept buf cap hlegal hok
  generalize emitCalls buf cap calls = S at hk ⊢
  have hzero : S.place 0 = 0 := @KeptBy.place S items hk [] items rfl
  have hstart : FreshLine S items 0 s := ⟨Nat.zero_le _, nofun⟩
  have hfollow := @Lib.follow _ _ (LineStep H S)
    (fun c c' => codeStep H S.e.code.contents c = some c')
    (fun a b => b = (S.place a.1, a.2) ∧ FreshLine S items a.1 a.2) (fun a => Stops H S a.1 a.2)
    (fun a b hab => by
      obtain ⟨rfl, hfresh⟩ := hab
      rcases line_follows (H := H) hk hfresh with hstop | ⟨c, hline, hreach, hfresh'⟩
      · exact .inl hstop
      · exact .inr ⟨c, _, hline, hreach, rfl, hfresh'⟩) n (0, s) (0, s)
  obtain ⟨k, ⟨p, t⟩, b, hsteps, hreach, ⟨rfl, -⟩, hend⟩ := hfollow ⟨by rw [hzero], hstart⟩
  exact ⟨k, p, t, hsteps, hreach, hend⟩

theorem emitted_code_follows_loop :
    let calls : List A64Call :=
      [.op (.movWImm32 0 3), .op (.store32 19 8 0), .op (.load32 0 19 8), .label,
        .op (.aluWImm .sub 0 1), .branch (.cbnzW 0), .bindTo 5 3, .ret]
    let H : A64Host := ⟨0, fun _ _ => none⟩
    let S := emitCalls (some fun _ => 0) 64 calls
    ∃ k p t, StepsIn (LineStep H S) k (0, blankState) (p, t) ∧
      Reaches H S.e.code.contents (0, blankState) (S.place p, t) ∧
      (k = 20 ∨ k ≤ 20 ∧ Stops H S p t) := by
  intro calls H S
  have hok : S.e.ok := rfl
  refine emitted_code_follows H (some fun _ => 0) 64 calls (fun o ho => ?_) hok blankState 20
  simp only [calls, List.mem_cons, A64Call.op.injEq, reduceCtorEq, List.not_mem_nil, false_or,
    or_false] at ho
  rcases ho with rfl | rfl | rfl | rfl
  · trivial
  · exact ⟨.inl rfl, by decide, by decide⟩
  · exact .inl rfl
  · exact ⟨by decide, by decide⟩

end X86Port.Arm64
