import X86Port.Arm64.Branches
import X86Port.Arm64.Ops

/-!
# Runs of the AArch64 encoder

Calls of the encoder one after the other: code, labels, and branches that are bound later.

* `emitCalls`: what a run of calls makes.
* `exec_kept`: the buffer holds the words of the lines, each branch with the distance to its mark.
-/

namespace X86Port.Arm64

open Lib (CodeBuffer)

/-! ## Calls -/

/-- A call of the encoder. A branch is bound by the place of its call, and so is a label. -/
inductive A64Call where
  | op (o : A64Op)
  | branch (k : A64Branch)
  | label
  | bind (i : Nat)
  | bindTo (i l : Nat)
  | ret
  | blr (target : RegNo)
  | br (target : RegNo)

/-- What a call is to do: `mark` is a place that branches go to, behind it. -/
inductive A64Line where
  | op (o : A64Op)
  | branch (k : A64Branch) (dest : Option Nat)
  | mark
  | idle
  | call (target : RegNo)
  | leave (opc : BitVec 2) (target : RegNo)

/-- What a call returns. -/
inductive Returned where
  | site (site : A64Site)
  | label (offset : Nat)
  | nothing

/-- A call that was made, and the word it begins at. -/
structure A64Entry where
  line : A64Line
  returned : Returned
  start : Nat

structure A64Session where
  e : A64Emit
  entries : List A64Entry

/-- The branch of an earlier call goes to a mark. -/
def bound (entries : List A64Entry) (i l : Nat) : List A64Entry :=
  match entries[i]? with
  | some ⟨.branch k _, returned, start⟩ => entries.set i ⟨.branch k (some l), returned, start⟩
  | _ => entries

namespace A64Session

def made (s : A64Session) (e : A64Emit) (line : A64Line) (returned : Returned) : A64Session :=
  ⟨e, s.entries ++ [⟨line, returned, s.e.code.len⟩]⟩

def bind (s : A64Session) (i : Nat) : A64Session :=
  match (s.entries[i]?).map A64Entry.returned with
  | some (.site site) =>
    ⟨s.e.bind site, bound s.entries i s.entries.length ++ [⟨.mark, .nothing, s.e.code.len⟩]⟩
  | _ => s.made s.e .idle .nothing

def bindTo (s : A64Session) (i l : Nat) : A64Session :=
  match (s.entries[i]?).map A64Entry.returned, (s.entries[l]?).map A64Entry.returned with
  | some (.site site), some (.label target) =>
    ⟨s.e.bindTo site target, bound s.entries i l ++ [⟨.idle, .nothing, s.e.code.len⟩]⟩
  | _, _ => s.made s.e .idle .nothing

def exec (s : A64Session) : A64Call → A64Session
  | .op o => s.made (o.emit s.e) (.op o) .nothing
  | .branch k =>
    let r := k.emit s.e
    s.made r.2 (.branch k none) (.site r.1)
  | .label =>
    let r := s.e.label
    s.made r.2 .mark (.label r.1)
  | .bind i => s.bind i
  | .bindTo i l => s.bindTo i l
  | .ret => s.made s.e.ret (.leave 2 30) .nothing
  | .blr target => s.made (s.e.blr target) (.call target) .nothing
  | .br target => s.made (s.e.br target) (.leave 0 target) .nothing

/-- The word that a line begins at. -/
def place (s : A64Session) (p : Nat) : Nat :=
  (s.entries[p]?).elim s.e.code.len A64Entry.start

end A64Session

def emitCalls (buf : Option (Nat → U32)) (cap : Nat) (calls : List A64Call) : A64Session :=
  calls.foldl A64Session.exec ⟨A64Emit.init buf cap, []⟩

/-! ## What a run keeps -/

/-- A call that was made, with its words, what is known of the last store behind it, and the word
that a branch goes to. -/
structure A64Item extends A64Entry where
  words : List U32
  after : Option Forward
  aim : Nat

def jumpWord (opc : BitVec 2) (target : RegNo) : U32 :=
  0xD61F0000#32 ||| inWord opc <<< 21 ||| inWord target <<< 5

/-- The words of a line, where this is known of the last store. -/
def A64Item.Stands (fwd : Option Forward) (it : A64Item) : Prop :=
  match it.line with
  | .op o => ∀ s, FreshAt fwd (4 * it.start) s → ∃ t, runWords it.words s = some t ∧ o.Means s t ∧
      FreshAt it.after (4 * (it.start + it.words.length)) t
  | .branch k _ => ¬ k.Refused ∧ k.Fits ((it.aim : Int) - it.start) ∧
      it.words = [k.word ((it.aim : Int) - it.start)] ∧ it.after = fwd
  | .mark => it.words = [] ∧ ∀ s, FreshAt it.after (4 * it.start) s
  | .idle => it.words = [] ∧ ∀ s, FreshAt fwd (4 * it.start) s → FreshAt it.after (4 * it.start) s
  | .call target => it.words = [jumpWord 1 target] ∧ it.after = fwd
  | .leave opc target => it.words = [jumpWord opc target] ∧ it.after = fwd

/-- What the call returned leads back to its line. -/
def A64Item.Leads (it : A64Item) : Prop :=
  match it.returned with
  | .site site => site.start = 4 * it.start ∧ ∃ k dest, it.line = .branch k dest
  | .label n => n = 4 * it.start ∧ it.line = .mark
  | .nothing => True

def flatWords (items : List A64Item) : List U32 := items.flatMap A64Item.words

/-- What is known of the last store behind the items. -/
def lastAfter (fwd : Option Forward) : List A64Item → Option Forward
  | [] => fwd
  | it :: rest => lastAfter it.after rest

def Chain : Nat → Option Forward → List A64Item → Prop
  | _, _, [] => True
  | start, fwd, it :: rest => it.start = start ∧ it.Stands fwd ∧ it.Leads ∧
      Chain (start + it.words.length) it.after rest

@[simp] theorem flatWords_nil : flatWords [] = [] := rfl

@[simp] theorem flatWords_cons (it : A64Item) (items : List A64Item) :
    flatWords (it :: items) = it.words ++ flatWords items := List.flatMap_cons

@[simp] theorem flatWords_append (xs ys : List A64Item) :
    flatWords (xs ++ ys) = flatWords xs ++ flatWords ys := List.flatMap_append

theorem lastAfter_append (fwd : Option Forward) (xs ys : List A64Item) :
    lastAfter fwd (xs ++ ys) = lastAfter (lastAfter fwd xs) ys := by
  induction xs generalizing fwd with
  | nil => rfl
  | cons it xs ih => exact ih it.after

theorem chain_append {start : Nat} {fwd : Option Forward} {xs ys : List A64Item} :
    Chain start fwd (xs ++ ys) ↔
      Chain start fwd xs ∧ Chain (start + (flatWords xs).length) (lastAfter fwd xs) ys := by
  induction xs generalizing start fwd with
  | nil => exact ⟨fun h => ⟨trivial, h⟩, fun h => h.2⟩
  | cons it xs ih =>
    rw [List.cons_append, Chain, ih, Chain, flatWords_cons, List.length_append, Nat.add_assoc,
      lastAfter]
    simp only [and_assoc]

structure KeptBy (s : A64Session) (items : List A64Item) : Prop where
  entries : s.entries = items.map A64Item.toA64Entry
  contents : s.e.code.contents = flatWords items
  chain : Chain 0 none items
  last : s.e.forward = lastAfter none items
  recent : ∀ f, s.e.forward = some f → f.place ≤ s.e.len
  aims : ∀ it ∈ items, ∀ k l, it.line = .branch k (some l) →
    ∃ m, items[l]? = some m ∧ m.line = .mark ∧ it.aim = m.start

/-- Unless the buffer has overflowed. -/
def A64Session.Kept (s : A64Session) : Prop := s.e.code.overflow = false → ∃ items, KeptBy s items

section

variable {s : A64Session} {items : List A64Item}

theorem KeptBy.len (h : KeptBy s items) : (flatWords items).length = s.e.code.len := by
  rw [← h.contents, CodeBuffer.length_contents]

/-- One more line, whose words are put down. -/
theorem KeptBy.append (h : KeptBy s items) {e : A64Emit} {it : A64Item}
    (hover : e.code.overflow = false) (hcode : e.code = s.e.code.putAll it.words)
    (hstart : it.start = s.e.code.len) (hstands : it.Stands s.e.forward) (hleads : it.Leads)
    (hafter : it.after = e.forward) (hrecent : ∀ f, e.forward = some f → f.place ≤ e.len)
    (haim : ∀ k l, it.line = .branch k (some l) →
      ∃ m, items[l]? = some m ∧ m.line = .mark ∧ it.aim = m.start) :
    KeptBy ⟨e, s.entries ++ [it.toA64Entry]⟩ (items ++ [it]) where
  entries := by
    dsimp only
    rw [h.entries, List.map_append]
    rfl
  contents := by
    rw [hcode] at hover
    obtain ⟨hover', hroom⟩ := CodeBuffer.putAll_fits hover
    dsimp only
    rw [hcode, (CodeBuffer.putAll_ok hover' hroom).2.2, h.contents, flatWords_append,
      flatWords_cons,
      flatWords_nil, List.append_nil]
  chain := by
    refine chain_append.mpr ⟨h.chain, ?_, ?_, hleads, trivial⟩
    · rw [Nat.zero_add, h.len, hstart]
    · rw [← h.last]
      exact hstands
  last := by
    rw [lastAfter_append]
    exact hafter.symm
  recent := hrecent
  aims it' hmem k l hline := by
    have hgrow : ∀ {m : A64Item}, items[l]? = some m → (items ++ [it])[l]? = some m := fun hm => by
      rw [List.getElem?_append_left (List.getElem?_eq_some_iff.mp hm).1]
      exact hm
    rcases List.mem_append.mp hmem with hold | hnew
    · obtain ⟨m, hm, hmark, haim'⟩ := h.aims it' hold k l hline
      exact ⟨m, hgrow hm, hmark, haim'⟩
    · rw [List.mem_singleton.mp hnew] at hline ⊢
      obtain ⟨m, hm, hmark, haim'⟩ := haim k l hline
      exact ⟨m, hgrow hm, hmark, haim'⟩

/-- An item among the others. -/
theorem KeptBy.split (h : KeptBy s items) {p : Nat} {it : A64Item} (hp : items[p]? = some it) :
    ∃ pre post, pre.length = p ∧ items = pre ++ it :: post ∧
      it.start = (flatWords pre).length ∧ it.Stands (lastAfter none pre) ∧ it.Leads ∧
      ∀ it', items.set p it' = pre ++ it' :: post := by
  obtain ⟨pre, post, hlen, hitems, hset⟩ := Lib.set_split hp
  have hchain := h.chain
  rw [hitems, chain_append, Nat.zero_add] at hchain
  exact ⟨pre, post, hlen, hitems, hchain.2.1, hchain.2.2.1, hchain.2.2.2.1, hset⟩

/-! ## One call -/

/-- A state in which every last store is fresh. -/
def blankState : A64State := ⟨fun _ => 0, fun _ => 0, false, false, false, false, fun _ => 0⟩

theorem blank_load (a : U64) : blankState.load a 4 = 0 :=
  Lib.LittleEndian.eq_of_bytes fun _ hi =>
    (Lib.LittleEndian.byte_load hi).trans BitVec.extractLsb'_zero.symm

theorem blank_fresh {fwd : Option Forward} {place : Nat}
    (h : ∀ f, fwd = some f → f.place ≤ place) : FreshAt fwd place blankState :=
  fun f hf => ⟨h f hf, fun _ => by
    rw [blank_load]
    unfold A64State.w A64State.x
    split_ifs <;> rfl⟩

theorem op_kept (h : s.Kept) {o : A64Op} (ho : o.Legal) : (s.exec (.op o)).Kept := by
  intro hover
  obtain ⟨words, hcode, hrun⟩ := op_does o ho s.e hover
  have hwords : (s.e.code.putAll words).overflow = false := hcode ▸ hover
  obtain ⟨items, hk⟩ := h (CodeBuffer.putAll_fits hwords).1
  have hlen : (o.emit s.e).len = 4 * (s.e.code.len + words.length) := by
    rw [A64Emit.len, hcode, len_putAll hwords]
  refine ⟨_, @KeptBy.append s items hk (o.emit s.e)
    ⟨⟨.op o, .nothing, s.e.code.len⟩, words, (o.emit s.e).forward, 0⟩ hover hcode rfl ?_ trivial rfl
    ?_ nofun⟩
  · intro t hfresh
    obtain ⟨u, hu, hmeans, hfresh'⟩ := hrun t hfresh
    exact ⟨u, hu, hmeans, hlen ▸ hfresh'⟩
  · obtain ⟨u, -, -, hfresh⟩ := hrun blankState (blank_fresh hk.recent)
    exact fun f hf => (hfresh f hf).1

/-- A line of one word. -/
theorem word_kept (h : s.Kept) {e : A64Emit} {word : U32} {line : A64Line} {returned : Returned}
    (hcode : e.code = s.e.code.putAll [word]) (hforward : e.forward = s.e.forward)
    (hstands : e.code.overflow = false →
      (⟨⟨line, returned, s.e.code.len⟩, [word], e.forward, s.e.code.len⟩ : A64Item).Stands
        s.e.forward)
    (hleads : (⟨⟨line, returned, s.e.code.len⟩, [word], e.forward, s.e.code.len⟩ : A64Item).Leads)
    (haim : ∀ k l, line ≠ .branch k (some l)) : (s.made e line returned).Kept := by
  intro hover
  have hover' : e.code.overflow = false := hover
  have hwords : (s.e.code.putAll [word]).overflow = false := hcode ▸ hover'
  obtain ⟨items, hk⟩ := h (CodeBuffer.putAll_fits hwords).1
  refine ⟨_, hk.append hover' hcode rfl (hstands hover') hleads rfl ?_
    fun k l hline => absurd hline (haim k l)⟩
  intro f hf
  have hle := hk.recent f (hforward ▸ hf)
  have hlen := len_putAll hwords
  rw [← hcode] at hlen
  unfold A64Emit.len at hle ⊢
  omega

theorem unbound_spec (e : A64Emit) (word : U32) :
    (e.unbound word).2.code = e.code.putAll [word] ∧ (e.unbound word).2.forward = e.forward ∧
      (e.unbound word).1.start = e.len := ⟨rfl, rfl, rfl⟩

theorem testBit_spec {e : A64Emit} {base : U32} {reg : RegNo} {bit : U32}
    (h : (e.testBit base reg bit).2.code.overflow = false) :
    ¬ 63 < bit ∧ (e.testBit base reg bit) = e.unbound
      (base ||| ((bit >>> 5) &&& 1) <<< 31 ||| (bit &&& 31) <<< 19 ||| inWord reg) := by
  unfold A64Emit.testBit at h ⊢
  by_cases hbit : 63 < bit
  · rw [if_pos hbit, (unbound_spec _ _).1] at h
    cases (CodeBuffer.putAll_fits h).1
  · rw [if_neg hbit]
    exact ⟨hbit, rfl⟩

theorem branch_emit {k : A64Branch} {e : A64Emit} (h : (k.emit e).2.code.overflow = false) :
    ¬ k.Refused ∧ k.emit e = e.unbound k.head := by
  cases k with
  | tbz reg bit => exact testBit_spec h
  | tbnz reg bit => exact testBit_spec h
  | _ => exact ⟨id, rfl⟩

theorem branch_kept (h : s.Kept) (k : A64Branch) : (s.exec (.branch k)).Kept := by
  intro hover
  obtain ⟨hk, hemit⟩ := branch_emit hover
  have hexec : s.exec (.branch k) =
      s.made (s.e.unbound k.head).2 (.branch k none) (.site (s.e.unbound k.head).1) := by
    rw [← hemit]
    rfl
  rw [hexec] at hover ⊢
  obtain ⟨hcode, hforward, hstart⟩ := unbound_spec s.e k.head
  refine word_kept h hcode hforward (fun _ => ?_) ⟨hstart, k, none, rfl⟩ nofun hover
  have hnear : (s.e.code.len : Int) - s.e.code.len = 0 := Int.sub_self _
  refine ⟨hk, ?_, ?_, hforward⟩
  · rw [hnear]
    exact k.fits_zero
  · rw [hnear, k.word_zero]

theorem call_kept (h : s.Kept) (target : RegNo) : (s.exec (.blr target)).Kept :=
  word_kept h rfl rfl (fun _ => ⟨rfl, rfl⟩) trivial nofun

theorem leave_kept (h : s.Kept) (target : RegNo) :
    (s.exec (.br target)).Kept ∧ (s.exec .ret).Kept :=
  ⟨word_kept h rfl rfl (fun _ => ⟨congrArg (fun w => [w]) (by simp [jumpWord, inWord]), rfl⟩)
    trivial nofun,
    word_kept h rfl rfl (fun _ => ⟨rfl, rfl⟩) trivial nofun⟩

/-- A line without words, behind which the last store is as fresh as before, or forgotten. -/
theorem empty_kept (hk : KeptBy s items) {e : A64Emit} (hover : e.code.overflow = false)
    (hcode : e.code = s.e.code) {line : A64Line} {returned : Returned}
    (hstands : (⟨⟨line, returned, s.e.code.len⟩, [], e.forward, 0⟩ : A64Item).Stands s.e.forward)
    (hleads : (⟨⟨line, returned, s.e.code.len⟩, [], e.forward, 0⟩ : A64Item).Leads)
    (hforward : e.forward = none ∨ e.forward = s.e.forward)
    (haim : ∀ k l, line ≠ .branch k (some l)) :
    KeptBy ⟨e, s.entries ++ [⟨line, returned, s.e.code.len⟩]⟩
      (items ++ [⟨⟨line, returned, s.e.code.len⟩, [], e.forward, 0⟩]) := by
  refine @KeptBy.append s items hk e ⟨⟨line, returned, s.e.code.len⟩, [], e.forward, 0⟩ hover hcode
    rfl hstands hleads rfl ?_ fun k l hline => absurd hline (haim k l)
  intro f hf
  rcases hforward with hnone | hsame
  · rw [hnone] at hf
    cases hf
  · have hlen : e.len = s.e.len := congrArg (fun c => 4 * c.len) hcode
    rw [hlen]
    exact hk.recent f (hsame ▸ hf)

theorem label_kept (h : s.Kept) : (s.exec .label).Kept := by
  intro hover
  obtain ⟨items, hk⟩ := h hover
  exact ⟨_, empty_kept hk hover rfl ⟨rfl, fun _ => nofun⟩ ⟨rfl, rfl⟩ (.inl rfl) nofun⟩

theorem idle_kept (h : s.Kept) : (s.made s.e .idle .nothing).Kept := by
  intro hover
  obtain ⟨items, hk⟩ := h hover
  exact ⟨_, empty_kept hk hover rfl ⟨rfl, fun _ hfresh => hfresh⟩ trivial (.inr rfl) nofun⟩

/-! ### Branches that are bound -/

/-- The last store behind a call of `x86p_a64_emit_bind_to`. -/
def forgotten (fwd : Option Forward) (target : Nat) : Option Forward :=
  if fwd.map Forward.place = some target then none else fwd

theorem bindTo_ok {e : A64Emit} {site : A64Site} {target : Nat}
    (h : (e.bindTo site target).code.overflow = false) :
    ((target : Int) - site.start) % 4 = 0 ∧ ∃ word,
      A64Emit.retarget (e.code.buf (site.start / 4)) (((target : Int) - site.start) / 4) =
        some word ∧
      e.code.overflow = false ∧
      (e.bindTo site target).code = e.code.patch (site.start / 4) [word] ∧
      (e.bindTo site target).forward = forgotten e.forward target := by
  have hrefuse : ∀ e' : A64Emit, ¬ e'.refuse.code.overflow = false := fun _ hno => nomatch hno
  set e₁ := if e.forward.map Forward.place = some target then { e with forward := none } else e
    with he₁
  have hcode : e₁.code = e.code := by
    rw [he₁]
    split_ifs <;> rfl
  have hforward : e₁.forward = forgotten e.forward target := by
    rw [he₁, forgotten]
    split_ifs <;> rfl
  unfold A64Emit.bindTo at h ⊢
  dsimp only at h ⊢
  rw [← he₁] at h ⊢
  by_cases hbad : e₁.code.overflow ∨ site.start + 4 > e₁.len ∨ target > e₁.len
  · rw [if_pos hbad] at h
    exact absurd h (hrefuse _)
  rw [if_neg hbad] at h ⊢
  by_cases halign : ((target : Int) - site.start) % 4 ≠ 0
  · rw [if_pos halign] at h
    exact absurd h (hrefuse _)
  rw [if_neg halign, hcode] at h ⊢
  cases hword : A64Emit.retarget (e.code.buf (site.start / 4))
      (((target : Int) - site.start) / 4) with
  | none =>
    rw [hword] at h
    exact absurd h (hrefuse _)
  | some word =>
    rw [hword] at h
    exact ⟨not_not.mp halign, word, rfl, h, rfl, hforward⟩

theorem bound_append {entries : List A64Entry} {i : Nat} (hi : i < entries.length) (l : Nat)
    (entry : A64Entry) : bound (entries ++ [entry]) i l = bound entries i l ++ [entry] := by
  unfold bound
  rw [List.getElem?_append_left hi]
  split
  · rw [List.set_append_left _ _ hi]
  · rfl

theorem bound_entries {items : List A64Item} {i l : Nat} {it it' : A64Item} {k : A64Branch}
    {dest : Option Nat} (hi : items[i]? = some it) (hline : it.line = .branch k dest)
    (hentry : it'.toA64Entry = ⟨.branch k (some l), it.returned, it.start⟩) :
    bound (items.map A64Item.toA64Entry) i l = (items.set i it').map A64Item.toA64Entry := by
  have hold : (items.map A64Item.toA64Entry)[i]? =
      some ⟨.branch k dest, it.returned, it.start⟩ := by
    rw [List.getElem?_map, hi, ← hline]
    rfl
  unfold bound
  rw [hold, List.map_set, hentry]

/-- A branch among the items goes to a mark among them. -/
theorem KeptBy.rebind (hk : KeptBy s items) {i l : Nat} {it m : A64Item} {k : A64Branch}
    {dest : Option Nat} (hi : items[i]? = some it) (hline : it.line = .branch k dest)
    (hl : items[l]? = some m) (hmark : m.line = .mark) (hfits : k.Fits ((m.start : Int) - it.start))
    {e : A64Emit} (hcode : e.code = s.e.code.patch it.start [k.word ((m.start : Int) - it.start)])
    (hforward : e.forward = s.e.forward) :
    ∃ items', KeptBy ⟨e, bound s.entries i l⟩ items' := by
  obtain ⟨pre, post, hlength, hitems, hstart, hstands, hleads, hset⟩ := hk.split hi
  have hold := hstands
  rw [A64Item.Stands, hline] at hold
  obtain ⟨hrefused, -, hwords, hafter⟩ := hold
  set it' : A64Item :=
    ⟨⟨.branch k (some l), it.returned, it.start⟩, [k.word ((m.start : Int) - it.start)], it.after,
      m.start⟩ with hit'
  have hone : it.words.length = 1 := by rw [hwords]; rfl
  have hne : ∀ {j : Nat} {m' : A64Item}, items[j]? = some m' → m'.line = .mark → i ≠ j := by
    rintro j m' hj hmark' rfl
    rw [hi] at hj
    cases hj
    rw [hline] at hmark'
    cases hmark'
  have hkeep : ∀ {j : Nat} {m' : A64Item}, items[j]? = some m' → m'.line = .mark →
      (items.set i it')[j]? = some m' := fun hj hmark' => by
    rw [List.getElem?_set_ne (hne hj hmark')]
    exact hj
  refine ⟨items.set i it', ?_, ?_, ?_, ?_, ?_, ?_⟩
  · dsimp only
    rw [hk.entries]
    exact bound_entries hi hline rfl
  · have hall : s.e.code.contents = flatWords pre ++ it.words ++ flatWords post := by
      rw [hk.contents, hitems, flatWords_append, flatWords_cons, List.append_assoc]
    dsimp only
    rw [hcode, hstart, CodeBuffer.contents_patch hall (List.length_singleton.trans hone.symm),
      hset, flatWords_append,
      flatWords_cons, ← hstart, List.append_assoc]
  · have hchain := hk.chain
    rw [hitems, chain_append, Nat.zero_add] at hchain
    obtain ⟨hpre, hstart', -, -, hpost⟩ := hchain
    rw [hset, chain_append, Nat.zero_add]
    refine ⟨hpre, hstart', ⟨hrefused, hfits, rfl, hafter⟩, ?_, ?_⟩
    · rw [A64Item.Leads] at hleads ⊢
      cases hreturned : it.returned with
      | site site =>
        rw [hreturned] at hleads
        exact ⟨hleads.1, k, some l, rfl⟩
      | label n =>
        rw [hreturned, hline] at hleads
        cases hleads.2
      | nothing => exact trivial
    · rwa [hone] at hpost
  · change e.forward = _
    rw [hforward, hk.last, hset, hitems, lastAfter_append, lastAfter_append]
    rfl
  · have hlen : e.len = s.e.len := congrArg (fun c => 4 * c.len) hcode
    intro f hf
    dsimp only at hf ⊢
    rw [hlen]
    exact hk.recent f (hforward ▸ hf)
  · intro it'' hmem k' l' hline'
    rcases List.mem_or_eq_of_mem_set hmem with hmem' | rfl
    · obtain ⟨m', hm', hmark', haim⟩ := hk.aims it'' hmem' k' l' hline'
      exact ⟨m', hkeep hm' hmark', hmark', haim⟩
    · cases hline'
      exact ⟨m, hkeep hl hmark, hmark, rfl⟩

/-- The branch that returned a site, with its word in the buffer. -/
theorem KeptBy.site (hk : KeptBy s items) {i : Nat} {site : A64Site}
    (hi : (s.entries[i]?).map A64Entry.returned = some (.site site)) :
    ∃ it k dest off, items[i]? = some it ∧ it.line = .branch k dest ∧ site.start = 4 * it.start ∧
      s.e.code.buf it.start = k.word off := by
  rw [hk.entries, List.getElem?_map, Option.map_map] at hi
  obtain ⟨it, hit, hreturned⟩ := Option.map_eq_some_iff.mp hi
  obtain ⟨pre, post, -, hitems, hstart, hstands, hleads, -⟩ := hk.split hit
  have hreturned' : it.returned = .site site := hreturned
  rw [A64Item.Leads, hreturned'] at hleads
  obtain ⟨hsite, k, dest, hline⟩ := hleads
  rw [A64Item.Stands, hline] at hstands
  have hall : s.e.code.contents =
      flatWords pre ++ k.word (it.aim - it.start) :: flatWords post := by
    rw [hk.contents, hitems, flatWords_append, flatWords_cons, hstands.2.2.1]
    rfl
  have hlen : it.start < s.e.code.len := by
    rw [← CodeBuffer.length_contents, hall, hstart, List.length_append, List.length_cons]
    omega
  have hcell := CodeBuffer.getElem?_contents hlen
  rw [hall, hstart, List.getElem?_append_right le_rfl, Nat.sub_self, List.getElem?_cons_zero,
    ← hstart] at hcell
  exact ⟨it, k, dest, _, hit, hline, hsite, (Option.some.inj hcell).symm⟩

/-- A line that binds a branch to a mark, which may be the line itself. -/
theorem bindTo_kept (hk : KeptBy s items) {i l target : Nat} {site : A64Site} {line : A64Line}
    {m : A64Item} (hi : (s.entries[i]?).map A64Entry.returned = some (.site site))
    (hstands : (⟨⟨line, .nothing, s.e.code.len⟩, [], forgotten s.e.forward target, 0⟩ :
      A64Item).Stands s.e.forward)
    (hbranch : ∀ k l, line ≠ .branch k (some l))
    (hl : (items ++ [⟨⟨line, .nothing, s.e.code.len⟩, [], forgotten s.e.forward target, 0⟩])[l]? =
      some m) (hmark : m.line = .mark) (htarget : target = 4 * m.start)
    (hover : (s.e.bindTo site target).code.overflow = false) :
    ∃ items', KeptBy ⟨s.e.bindTo site target,
      bound s.entries i l ++ [⟨line, .nothing, s.e.code.len⟩]⟩ items' := by
  obtain ⟨-, word, hword, hover', hcode, hforward⟩ := bindTo_ok hover
  obtain ⟨it, k, dest, off, hit, hline, hsite, hcell⟩ := hk.site hi
  have hquiet : forgotten s.e.forward target = none ∨
      forgotten s.e.forward target = s.e.forward := by
    unfold forgotten
    split_ifs
    · exact .inl rfl
    · exact .inr rfl
  have hk₁ := @empty_kept s items hk { s.e with forward := forgotten s.e.forward target } hover' rfl
    line .nothing hstands trivial hquiet hbranch
  have hlt : i < s.entries.length := by
    rw [hk.entries, List.length_map]
    exact (List.getElem?_eq_some_iff.mp hit).1
  have hit' : (items ++ [(⟨⟨line, .nothing, s.e.code.len⟩, [], forgotten s.e.forward target, 0⟩ :
      A64Item)])[i]? = some it := by
    rw [List.getElem?_append_left (List.getElem?_eq_some_iff.mp hit).1]
    exact hit
  rw [hsite, htarget, Nat.mul_div_cancel_left _ (by decide)] at hword hcode
  have hdistance :
      (((4 * m.start : Nat) : Int) - (4 * it.start : Nat)) / 4 = m.start - it.start := by
    omega
  rw [hdistance, hcell, A64Branch.retarget_word] at hword
  split_ifs at hword with hfits
  rw [← Option.some.inj hword, ← htarget] at hcode
  rw [← bound_append hlt]
  exact hk₁.rebind hit' hline hl hmark hfits hcode hforward

theorem bind_kept (h : s.Kept) (i : Nat) : (s.bind i).Kept := by
  unfold A64Session.bind
  split
  · rename_i site hi
    intro hover
    obtain ⟨items, hk⟩ := h (bindTo_ok hover).2.choose_spec.2.1
    have hlast : (items ++ [(⟨⟨.mark, .nothing, s.e.code.len⟩, [],
        forgotten s.e.forward s.e.len, 0⟩ : A64Item)])[s.entries.length]? =
          some ⟨⟨.mark, .nothing, s.e.code.len⟩, [], forgotten s.e.forward s.e.len, 0⟩ := by
      rw [hk.entries, List.length_map, List.getElem?_append_right le_rfl, Nat.sub_self]
      rfl
    refine bindTo_kept hk hi ⟨rfl, fun t f hf => ?_⟩ nofun hlast rfl rfl hover
    -- a store that ends here is forgotten
    dsimp only at hf
    unfold forgotten at hf
    split_ifs at hf with hhere
    refine ⟨hk.recent f hf, fun hplace => absurd ?_ hhere⟩
    rw [hf, Option.map_some, hplace]
    rfl
  · exact idle_kept h

theorem bindTo_label_kept (h : s.Kept) (i l : Nat) : (s.bindTo i l).Kept := by
  unfold A64Session.bindTo
  split
  · rename_i site target hi hl
    intro hover
    obtain ⟨items, hk⟩ := h (bindTo_ok hover).2.choose_spec.2.1
    rw [hk.entries, List.getElem?_map, Option.map_map] at hl
    obtain ⟨m, hm, hreturned⟩ := Option.map_eq_some_iff.mp hl
    have hreturned' : m.returned = .label target := hreturned
    obtain ⟨-, -, -, -, -, -, hleads, -⟩ := hk.split hm
    rw [A64Item.Leads, hreturned'] at hleads
    refine bindTo_kept hk hi ⟨rfl, fun t hfresh => ?_⟩ nofun ?_ hleads.2 hleads.1 hover
    · dsimp only
      unfold forgotten
      split_ifs
      · exact nofun
      · exact hfresh
    · rw [List.getElem?_append_left (List.getElem?_eq_some_iff.mp hm).1]
      exact hm
  · exact idle_kept h

end

theorem exec_kept {s : A64Session} (h : s.Kept) {c : A64Call} (hc : ∀ o, c = .op o → o.Legal) :
    (s.exec c).Kept := by
  cases c with
  | op o => exact op_kept h (hc o rfl)
  | branch k => exact branch_kept h k
  | label => exact label_kept h
  | bind i => exact bind_kept h i
  | bindTo i l => exact bindTo_label_kept h i l
  | ret => exact (leave_kept h 30).2
  | blr target => exact call_kept h target
  | br target => exact (leave_kept h target).1

theorem emitCalls_kept (buf : Option (Nat → U32)) (cap : Nat) {calls : List A64Call}
    (hlegal : ∀ o, .op o ∈ calls → o.Legal) : (emitCalls buf cap calls).Kept := by
  have hrun : ∀ (calls : List A64Call) (s : A64Session), (∀ o, .op o ∈ calls → o.Legal) → s.Kept →
      (calls.foldl A64Session.exec s).Kept := by
    intro calls
    induction calls with
    | nil => exact fun _ _ h => h
    | cons c calls ih =>
      intro s hlegal h
      refine ih _ (fun o ho => hlegal o (List.mem_cons_of_mem _ ho)) (exec_kept h ?_)
      rintro o rfl
      exact hlegal o List.mem_cons_self
  refine hrun calls _ hlegal fun hover => ⟨[], rfl, ?_, trivial, rfl, nofun, fun _ hit =>
    absurd hit List.not_mem_nil⟩
  cases buf with
  | none => cases hover
  | some buf => rfl

end X86Port.Arm64
