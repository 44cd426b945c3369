import Mathlib.Data.Fintype.Card
import X86Port.Lib.Tally
import X86Port.Lib.Threaded
import X86Port.Wasm.Arena

/-!
# The arena's free list, counters and ceiling

* `Ordered`: the free list visits the free slots, the counters count the live ones, and a ceiling
  in force is at most the headroom above them.
* `publish_ordered`, `release_ordered`: the two operations that move a slot.
* `arena_ordered`: any run of the arena keeps the order, whatever its host answers.
-/

namespace X86Port.Wasm.Arena

variable {cap : Nat} {σ M : Type}

/-- The slots that are live. -/
def liveSlots (a : Arena cap σ M) : Finset (Fin cap) :=
  Finset.univ.filter fun i => a.isLive i = true

def nextFree (a : Arena cap σ M) (i : Fin cap) : Nat := (a.slots i).nextFree

/-- The free list, the counters and the ceiling agree with the slots. -/
structure Ordered (a : Arena cap σ M) : Prop where
  free : ∃ l, Lib.Threaded a.nextFree a.freeHead l ∧ l.Nodup ∧ ∀ i, i ∈ l ↔ a.isLive i = false
  live : a.live = a.liveSlots.card
  counted : a.published = a.released + a.live
  headroom : a.headroom = a.ceiling / ceilingHeadroomDivisor
  ceiling : a.ceiling ≠ 0 → a.ceiling ≤ a.live + a.headroom

/-- The slots and what is threaded through them, apart from the ceiling. -/
structure Balanced (a : Arena cap σ M) : Prop where
  free : ∃ l, Lib.Threaded a.nextFree a.freeHead l ∧ l.Nodup ∧ ∀ i, i ∈ l ↔ a.isLive i = false
  live : a.live = a.liveSlots.card
  counted : a.published = a.released + a.live

theorem Ordered.balanced {a : Arena cap σ M} (h : Ordered a) : Balanced a :=
  ⟨h.free, h.live, h.counted⟩

theorem liveSlots_card (a : Arena cap σ M) (i : Fin cap) (slot : ArenaSlot) :
    (Finset.univ.filter fun x => (Function.update a.slots i slot x).live = true).card +
        (if a.isLive i = true then 1 else 0) =
      a.liveSlots.card + (if slot.live = true then 1 else 0) :=
  Lib.card_write (fun s : ArenaSlot => s.live = true) a.slots i slot

/-- A live slot is counted, so the count can be lowered. -/
theorem Balanced.live_pos {a : Arena cap σ M} (h : Balanced a) {token : Fin cap}
    (hlive : a.isLive token = true) : 0 < a.live := by
  rw [h.live]
  refine Finset.card_pos.mpr ⟨token, ?_⟩
  unfold liveSlots
  rw [Finset.mem_filter]
  exact ⟨Finset.mem_univ token, hlive⟩

/-! ## Publishing -/

/-- The head of the free list is a free slot, and the rest is the list without it. -/
theorem Balanced.head {a : Arena cap σ M} (h : Balanced a) (hhead : a.freeHead ≠ 0) :
    ∃ i : Fin cap, a.freeHead = i.val + 1 ∧ a.isLive i = false ∧
      ∀ module, Balanced { a with
        freeHead := (a.slots i).nextFree
        slots := Function.update a.slots i ⟨true, module, 0⟩
        live := a.live + 1
        published := a.published + 1 } := by
  obtain ⟨l, hl, hnodup, hmem⟩ := h.free
  obtain ⟨i, rest, rfl, hi, hrest⟩ := hl.pop hhead
  obtain ⟨hnot, hnodup'⟩ := List.nodup_cons.mp hnodup
  have hfree : a.isLive i = false := (hmem i).mp List.mem_cons_self
  refine ⟨i, hi, hfree, fun module => ?_⟩
  exact {
    free := by
      refine ⟨rest, hrest.congr fun j hj => ?_, hnodup', fun j => ?_⟩
      · unfold nextFree
        dsimp only
        rw [Function.update_of_ne (fun hji : j = i => hnot (hji ▸ hj))]
      · unfold isLive
        dsimp only
        by_cases hj : j = i
        · rw [hj, Function.update_self]
          simp only [Bool.true_eq_false, iff_false]
          exact hnot
        · rw [Function.update_of_ne hj]
          have hjmem := hmem j
          rw [List.mem_cons] at hjmem
          exact ⟨fun h => hjmem.mp (Or.inr h), fun h => (hjmem.mpr h).resolve_left hj⟩
    live := by
      have hcard := liveSlots_card a i ⟨true, module, 0⟩
      have hlive := h.live
      rw [hfree] at hcard
      simp only [Bool.false_eq_true, if_false, if_true] at hcard
      unfold liveSlots isLive at hcard hlive ⊢
      dsimp only at hcard hlive ⊢
      omega
    counted := by
      have hcounted := h.counted
      dsimp only
      omega }

/-- A refusal puts at most the live count in force as a ceiling. -/
theorem learnCeiling_ordered {a : Arena cap σ M} (h : Ordered a) (why : Refused) :
    Ordered (a.learnCeiling why) := by
  unfold learnCeiling
  split_ifs with hlearn
  · exact ⟨h.free, h.live, h.counted, rfl, fun _ => Nat.le_add_right _ _⟩
  · exact h

theorem publish_ordered {a : Arena cap σ M} (h : Ordered a) (bytes : M) (len : Nat) :
    Ordered (a.publish bytes len).2 ∧ ∀ slot, (a.publish bytes len).1 ≠ .error (.notFree slot) := by
  have hrefused : ∀ host : Option (WasmHost σ M),
      Ordered { a with host := host, refusals := a.refusals + 1 } :=
    fun _ => ⟨h.free, h.live, h.counted, h.headroom, h.ceiling⟩
  unfold publish
  cases hhost : a.host with
  | none => exact ⟨hrefused _, fun slot hslot => by cases hslot⟩
  | some host =>
    dsimp only
    by_cases hlen : len = 0
    · rw [if_pos hlen]
      exact ⟨hrefused _, fun slot hslot => by cases hslot⟩
    · by_cases hhead : a.freeHead = 0
      · rw [if_neg hlen, if_pos hhead]
        exact ⟨hrefused _, fun slot hslot => by cases hslot⟩
      · obtain ⟨i, hi, hfree, hnext⟩ := h.balanced.head hhead
        have hin : a.freeHead - 1 < cap := by
          rw [hi]
          exact i.isLt
        have hslot : (⟨a.freeHead - 1, hin⟩ : Fin cap) = i := Fin.ext (by dsimp only; omega)
        rw [if_neg hlen, if_neg hhead, dif_pos hin, hslot]
        unfold isLive at hfree
        rw [if_neg (by rw [hfree]; decide)]
        cases host.instantiate bytes a.user with
        | mk outcome user =>
          cases outcome with
          | error why =>
            refine ⟨learnCeiling_ordered ?_ why, fun slot hslot => by cases hslot⟩
            exact ⟨h.free, h.live, h.counted, h.headroom, h.ceiling⟩
          | ok module =>
            refine ⟨?_, fun slot hslot => by cases hslot⟩
            have hbalanced := hnext module
            refine ⟨hbalanced.free, hbalanced.live, hbalanced.counted, h.headroom, fun hc => ?_⟩
            have hle := h.ceiling hc
            dsimp only
            omega

/-! ## Releasing -/

/-- A slot that is released goes to the head of the free list. -/
theorem Balanced.released {a : Arena cap σ M} (h : Balanced a) {token : Fin cap}
    (hlive : a.isLive token = true) (user : σ) :
    Balanced { a with
      user := user
      slots := Function.update a.slots token ⟨false, 0, a.freeHead⟩
      freeHead := token.val + 1
      live := a.live - 1
      released := a.released + 1 } where
  free := by
    obtain ⟨l, hl, hnodup, hmem⟩ := h.free
    have hnot : token ∉ l := by
      rw [hmem, hlive]
      decide
    refine ⟨token :: l, ?_, List.nodup_cons.mpr ⟨hnot, hnodup⟩, fun i => ?_⟩
    · refine hl.push hnot ?_ fun j hj => ?_
      · unfold nextFree
        dsimp only
        rw [Function.update_self]
      · unfold nextFree
        dsimp only
        rw [Function.update_of_ne hj]
    · unfold isLive
      dsimp only
      rw [List.mem_cons]
      by_cases hi : i = token
      · rw [hi, Function.update_self]
        simp
      · rw [Function.update_of_ne hi]
        have himem := hmem i
        unfold isLive at himem
        exact ⟨fun h => himem.mp (h.resolve_left hi), fun h => Or.inr (himem.mpr h)⟩
  live := by
    have hcard := liveSlots_card a token ⟨false, 0, a.freeHead⟩
    have hcount := h.live
    rw [hlive] at hcard
    simp only [Bool.false_eq_true, if_false, if_true] at hcard
    unfold liveSlots isLive at hcard hcount ⊢
    dsimp only at hcard hcount ⊢
    omega
  counted := by
    have hcounted := h.counted
    have hpos := h.live_pos hlive
    dsimp only
    omega

/-- A ceiling the arena is below by the headroom is retired. -/
theorem retireCeiling_ordered {a : Arena cap σ M} (h : Balanced a)
    (hheadroom : a.headroom = a.ceiling / ceilingHeadroomDivisor) : Ordered a.retireCeiling := by
  unfold retireCeiling
  split_ifs with hkeep
  · exact ⟨h.free, h.live, h.counted, hheadroom, fun hc => hkeep.resolve_left hc⟩
  · exact ⟨h.free, h.live, h.counted, (Nat.zero_div _).symm, fun hc => absurd rfl hc⟩

theorem release_ordered {a : Arena cap σ M} (h : Ordered a) (token : Fin cap) :
    Ordered (a.release token) := by
  unfold release
  split_ifs with hlive
  · exact retireCeiling_ordered (h.balanced.released hlive _) h.headroom
  · exact h

theorem releaseAll_ordered {a : Arena cap σ M} (h : Ordered a) : Ordered a.releaseAll := by
  unfold releaseAll
  induction List.finRange cap generalizing a with
  | nil => exact h
  | cons token tokens ih => exact ih (release_ordered h token)

/-! ## Runs -/

theorem init_ordered (cap : Nat) (host : Option (WasmHost σ M)) (user : σ) :
    Ordered (init cap host user) where
  free := ⟨List.finRange cap, Lib.threaded_fresh cap, List.nodup_finRange cap,
    fun i => ⟨fun _ => rfl, fun _ => List.mem_finRange i⟩⟩
  live := by
    unfold liveSlots isLive init
    simp
  counted := rfl
  headroom := (Nat.zero_div _).symm
  ceiling := fun h => absurd rfl h

theorem entry_ordered {a : Arena cap σ M} (h : Ordered a) (token : Fin cap) (field : BodyName) :
    Ordered (a.entry token field).2 := by
  unfold entry
  split_ifs
  · cases a.host with
    | none => exact h
    | some host => exact ⟨h.free, h.live, h.counted, h.headroom, h.ceiling⟩
  · exact h

theorem adopt_ordered {a : Arena cap σ M} (h : Ordered a) (dest source : Fin cap)
    (destField sourceField : BodyName) (entry : Nat) :
    Ordered (a.adopt dest destField source sourceField entry).2 := by
  unfold adopt
  cases a.host.bind WasmHost.adopt with
  | none => exact h
  | some adopt =>
    dsimp only
    split_ifs
    · exact ⟨h.free, h.live, h.counted, h.headroom, h.ceiling⟩
    · exact ⟨h.free, h.live, h.counted, h.headroom, h.ceiling⟩
    · exact h

/-- What is asked of an arena. -/
inductive Op (cap : Nat) (M : Type) where
  | publish (bytes : M) (len : Nat)
  | entry (token : Fin cap) (field : BodyName)
  | adopt (dest : Fin cap) (destField : BodyName) (source : Fin cap) (sourceField : BodyName)
    (index : Nat)
  | release (token : Fin cap)
  | releaseAll

def step (a : Arena cap σ M) : Op cap M → Arena cap σ M
  | .publish bytes len => (a.publish bytes len).2
  | .entry token field => (a.entry token field).2
  | .adopt dest destField source sourceField index =>
    (a.adopt dest destField source sourceField index).2
  | .release token => a.release token
  | .releaseAll => a.releaseAll

def run (a : Arena cap σ M) (ops : List (Op cap M)) : Arena cap σ M := ops.foldl step a

theorem step_ordered {a : Arena cap σ M} (h : Ordered a) (op : Op cap M) : Ordered (a.step op) := by
  cases op with
  | publish bytes len => exact (publish_ordered h bytes len).1
  | entry token field => exact entry_ordered h token field
  | adopt dest destField source sourceField index =>
    exact adopt_ordered h dest source destField sourceField index
  | release token => exact release_ordered h token
  | releaseAll => exact releaseAll_ordered h

theorem run_ordered (ops : List (Op cap M)) :
    ∀ {a : Arena cap σ M}, Ordered a → Ordered (a.run ops) := by
  induction ops with
  | nil => exact fun h => h
  | cons op ops ih => exact fun h => ih (step_ordered h op)

/-- An arena with nothing live is under no ceiling, and has room for anything it has slots for. -/
theorem Ordered.room_of_idle {a : Arena cap σ M} (h : Ordered a) (hidle : a.live = 0) :
    a.ceiling = 0 ∧ (0 < cap → a.hasRoom = true) := by
  have hceiling : a.ceiling = 0 := by
    by_contra hc
    have hle := h.ceiling hc
    rw [h.headroom, hidle] at hle
    unfold ceilingHeadroomDivisor at hle
    omega
  refine ⟨hceiling, fun hcap => ?_⟩
  unfold hasRoom
  rw [hidle, hceiling, decide_eq_true hcap]
  rfl

/-- The arena's order holds in every state it reaches: publication takes a free slot and never
finds the free list wrong, and an idle arena has room. -/
theorem arena_ordered (cap : Nat) (host : Option (WasmHost σ M)) (user : σ)
    (ops : List (Op cap M)) :
    let a := (init cap host user).run ops
    Ordered a ∧
      (∀ bytes len, (∀ token, (a.publish bytes len).1 = .ok token → a.isLive token = false) ∧
        ∀ slot, (a.publish bytes len).1 ≠ .error (.notFree slot)) ∧
      (a.live = 0 → a.ceiling = 0 ∧ (0 < cap → a.hasRoom = true)) := by
  have hordered := run_ordered ops (init_ordered cap host user)
  refine ⟨hordered, fun bytes len => ⟨fun token htoken => ?_, ?_⟩, hordered.room_of_idle⟩
  · exact (publish_ok (Prod.ext htoken rfl)).1
  · exact (publish_ordered hordered bytes len).2

end X86Port.Wasm.Arena
