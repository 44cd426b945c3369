import X86Port.Pe.Image

/-!
# The relocation walk ends

A block of the table says how far the next one is. The check `block_size < 8` keeps a block from
standing still, and the sum `block + block_size` wraps.

* `Within`: where the walk may write.
* `relocateEntries_enough`: the rounds given to the inner loop are enough.
* `relocate_contained_iff`: the walk stays in the image, and it ends exactly when it takes
  finitely many blocks whose size carries the cursor past `2 ^ 32`.
-/

namespace X86Port.Pe

open Cpu (Width)
open Memory (Mem Host)

variable {image : Image} {delta : U32} {relocs : PeDataDirectory}

/-- The four bytes written from `a` on lie in the image. -/
def Within (image : Image) (a : U32) : Prop :=
  ∀ i < 4, (a + BitVec.ofNat 32 i - image.base).toNat < image.size.toNat

def Walk.Contained (image : Image) (s : Walk) : Prop := ∀ a ∈ s.writes, Within image a

theorem imageRead_bound {h : Host} {rva : U32} {w : Width} {value : U32}
    (hread : imageRead image h rva w = some value) : rva.toNat + w.bytes ≤ image.size.toNat := by
  unfold imageRead at hread
  by_cases hin : rva ≤ image.size ∧ image.size - rva ≥ BitVec.ofNat 32 w.bytes
  · obtain ⟨hle, hroom⟩ := hin
    have : w.bytes ≤ 4 := by cases w <;> decide
    bv_omega
  · rw [if_neg hin] at hread
    cases hread

theorem rva32_bound {h : Host} {rva value : U32} (hread : rva32 image h rva = some value) :
    rva.toNat + 4 ≤ image.size.toNat := imageRead_bound hread

theorem rva16_bound {h : Host} {rva : U32} {word : U16} (hread : rva16 image h rva = some word) :
    rva.toNat + 2 ≤ image.size.toNat := by
  obtain ⟨value, hvalue, -⟩ := Option.map_eq_some_iff.mp hread
  exact imageRead_bound hvalue

theorem within_of_target {target : U32} (h : target.toNat + 4 ≤ image.size.toNat) :
    Within image (image.base + target) := by
  intro i hi
  bv_omega

/-! ## The entries of a block -/

example (page stop entry : U32) (s : Walk) :
    relocateEntries image delta page stop 0 entry s = (none, s) := by rw [relocateEntries]

example (s : Walk) : relocateLoop image delta relocs 0 s = (none, s) := by rw [relocateLoop]

/-- What one round over an entry does: return, pass over it, or relocate the word it names. -/
theorem relocateEntries_succ (image : Image) (delta page stop : U32) (fuel : Nat) (entry : U32) (s : Walk) :
    (¬ entry + 2 ≤ stop ∧ relocateEntries image delta page stop (fuel + 1) entry s = (none, s)) ∨
      (∃ status, status ≠ .ok ∧
        relocateEntries image delta page stop (fuel + 1) entry s = (some status, s)) ∨
      ∃ word, entry + 2 ≤ stop ∧ rva16 image s.host entry = some word ∧
        ((word >>> 12 = 0 ∧ relocateEntries image delta page stop (fuel + 1) entry s =
            relocateEntries image delta page stop fuel (entry + 2) s) ∨
          ∃ value host, word >>> 12 = 3 ∧
            rva32 image s.host (relocTarget page word) = some value ∧
            (Memory.write image.mem s.host (image.base + relocTarget page word) .dword
              (value + delta)).join = some host ∧
            relocateEntries image delta page stop (fuel + 1) entry s =
              relocateEntries image delta page stop fuel (entry + 2)
                ⟨host, s.block, s.writes ++ [image.base + relocTarget page word]⟩) := by
  rw [relocateEntries]
  by_cases hgo : entry + 2 ≤ stop
  · right
    rw [if_pos hgo]
    cases hword : rva16 image s.host entry with
    | none => exact Or.inl ⟨_, by decide, rfl⟩
    | some word =>
      dsimp only
      by_cases habsolute : word >>> 12 = 0
      · right
        exact ⟨word, hgo, rfl, Or.inl ⟨habsolute, if_pos habsolute⟩⟩
      · rw [if_neg habsolute]
        by_cases htype : word >>> 12 ≠ 3
        · rw [if_pos htype]
          exact Or.inl ⟨_, by decide, rfl⟩
        · rw [if_neg htype]
          cases hvalue : rva32 image s.host (relocTarget page word) with
          | none => exact Or.inl ⟨_, by decide, rfl⟩
          | some value =>
            dsimp only
            cases hwrite : (Memory.write image.mem s.host (image.base + relocTarget page word)
                .dword (value + delta)).join with
            | none => exact Or.inl ⟨_, by decide, rfl⟩
            | some host =>
              right
              exact ⟨word, hgo, rfl, Or.inr ⟨value, host, not_not.mp htype, hvalue, hwrite, rfl⟩⟩
  · left
    exact ⟨hgo, if_neg hgo⟩

theorem relocateEntries_contained (delta page stop : U32) (fuel : Nat) (entry : U32) {s : Walk}
    (h : s.Contained image) :
    (relocateEntries image delta page stop fuel entry s).2.Contained image ∧
      (relocateEntries image delta page stop fuel entry s).2.block = s.block := by
  induction fuel generalizing entry s with
  | zero => exact ⟨h, rfl⟩
  | succ fuel ih =>
    obtain ⟨-, heq⟩ | ⟨status, -, heq⟩ | ⟨word, -, -, hround⟩ :=
      relocateEntries_succ image delta page stop fuel entry s
    · rw [heq]
      exact ⟨h, rfl⟩
    · rw [heq]
      exact ⟨h, rfl⟩
    · obtain ⟨-, heq⟩ | ⟨value, host, -, hread, -, heq⟩ := hround
      · rw [heq]
        exact ih _ h
      · rw [heq]
        refine ih _ ?_
        intro a ha
        rcases List.mem_append.mp ha with ha | ha
        · exact h a ha
        · rw [List.mem_singleton.mp ha]
          exact within_of_target (rva32_bound hread)

theorem relocateEntries_ne_ok (image : Image) (delta page stop : U32) (fuel : Nat) (entry : U32)
    (s : Walk) : (relocateEntries image delta page stop fuel entry s).1 ≠ some .ok := by
  induction fuel generalizing entry s with
  | zero => exact (Option.some_ne_none _).symm
  | succ fuel ih =>
    obtain ⟨-, heq⟩ | ⟨status, hne, heq⟩ | ⟨word, -, -, hround⟩ :=
      relocateEntries_succ image delta page stop fuel entry s
    · rw [heq]
      exact (Option.some_ne_none _).symm
    · rw [heq]
      exact fun h => hne (Option.some.inj h)
    · obtain ⟨-, heq⟩ | ⟨value, host, -, -, -, heq⟩ := hround
      · rw [heq]
        exact ih _ _
      · rw [heq]
        exact ih _ _

/-- More rounds than two bytes apart change nothing: an entry past the image is refused. -/
theorem relocateEntries_enough (image : Image) (delta page stop : U32) (fuel : Nat) (entry : U32)
    (s : Walk) (hfuel : image.size.toNat + 2 ≤ entry.toNat + 2 * fuel) (hpos : 0 < fuel) :
    relocateEntries image delta page stop (fuel + 1) entry s =
      relocateEntries image delta page stop fuel entry s := by
  induction fuel generalizing entry s with
  | zero => exact absurd hpos (Nat.lt_irrefl 0)
  | succ fuel ih =>
    by_cases hgo : entry + 2 ≤ stop
    · cases hword : rva16 image s.host entry with
      | none => simp only [relocateEntries, if_pos hgo, hword]
      | some word =>
        have hbound := rva16_bound hword
        have hstep : ∀ s', relocateEntries image delta page stop (fuel + 1) (entry + 2) s' =
            relocateEntries image delta page stop fuel (entry + 2) s' := by
          intro s'
          refine ih _ s' ?_ (by omega)
          bv_omega
        rw [relocateEntries.eq_2 _ _ _ _ entry s (fuel + 1),
          relocateEntries.eq_2 _ _ _ _ entry s fuel]
        simp only [hword, hstep]
    · simp only [relocateEntries, if_neg hgo]

/-! ## The blocks -/

/-- The size of the block at the cursor carries the cursor past `2 ^ 32`. -/
def Wraps (image : Image) (s : Walk) : Prop :=
  ∃ blockSize, rva32 image s.host (s.block + 4) = some blockSize ∧
    2 ^ 32 ≤ s.block.toNat + blockSize.toNat

theorem relocateRound_contained {s : Walk} (h : s.Contained image) :
    (relocateRound image delta relocs s).2.Contained image := by
  unfold relocateRound
  split_ifs
  · unfold relocateBlock
    split
    · split_ifs
      · exact h
      · rename_i page blockSize _ _ _
        have hentries := (relocateEntries_contained delta page (s.block + blockSize)
          (image.size.toNat + 1) (s.block + 8) h).1
        dsimp only
        split <;> exact hentries
    · exact h
  · exact h

/-- A round that does not return moves the cursor up, unless the block's size wraps it. -/
theorem relocateRound_moves {s : Walk} (h : (relocateRound image delta relocs s).1 = none)
    (hwrap : ¬ Wraps image s) :
    s.block.toNat < (relocateRound image delta relocs s).2.block.toNat := by
  unfold relocateRound at h ⊢
  by_cases hgo : s.block + 8 ≤ relocs.rva + relocs.size
  · rw [if_pos hgo] at h ⊢
    unfold relocateBlock at h ⊢
    cases hpage : rva32 image s.host s.block with
    | none =>
      rw [hpage] at h
      cases h
    | some page =>
      cases hsize : rva32 image s.host (s.block + 4) with
      | none =>
        rw [hpage, hsize] at h
        cases h
      | some blockSize =>
        rw [hpage, hsize] at h
        dsimp only at h ⊢
        by_cases hsmall : blockSize < 8
        · rw [if_pos hsmall] at h
          cases h
        · rw [if_neg hsmall] at h ⊢
          split at h
          · cases h
          · have hno : ¬ 2 ^ 32 ≤ s.block.toNat + blockSize.toNat := fun hle =>
              hwrap ⟨blockSize, hsize, hle⟩
            dsimp only
            bv_omega
  · rw [if_neg hgo] at h
    cases h

/-- A block does not end the walk well, and one that is walked lies in the image. -/
theorem relocateBlock_spec (image : Image) (delta : U32) (s : Walk) :
    (relocateBlock image delta s).1 ≠ some .ok ∧
      ((relocateBlock image delta s).1 = none → s.block.toNat + 8 ≤ image.size.toNat) := by
  unfold relocateBlock
  cases hpage : rva32 image s.host s.block with
  | none => exact ⟨by simp, fun h => by cases h⟩
  | some page =>
    cases hsize : rva32 image s.host (s.block + 4) with
    | none => exact ⟨by simp, fun h => by cases h⟩
    | some blockSize =>
      have hlo := rva32_bound hpage
      have hhi := rva32_bound hsize
      dsimp only
      refine ⟨?_, fun _ => by bv_omega⟩
      split_ifs
      · simp
      · have hne := relocateEntries_ne_ok image delta page (s.block + blockSize)
          (image.size.toNat + 1) (s.block + 8) s
        split
        · rename_i heq
          rwa [heq] at hne
        · exact (Option.some_ne_none _).symm

/-! ## The walk -/

theorem relocateLoop_succ (rounds : Nat) {s : Walk}
    (h : (relocateLoop image delta relocs rounds s).1 = none) :
    relocateLoop image delta relocs (rounds + 1) s =
      relocateRound image delta relocs (relocateLoop image delta relocs rounds s).2 := by
  induction rounds generalizing s with
  | zero =>
    unfold relocateLoop
    split
    · rename_i hround
      exact hround.symm
    · rename_i hround
      exact hround.symm
  | succ rounds ih =>
    rw [relocateLoop] at h ⊢
    rw [relocateLoop.eq_2 _ _ _ s rounds]
    split at h
    · cases h
    · exact ih h

/-- A walk that has returned stays returned. -/
theorem relocateLoop_add {rounds : Nat} {s : Walk}
    (h : (relocateLoop image delta relocs rounds s).1 ≠ none) (k : Nat) :
    relocateLoop image delta relocs (rounds + k) s = relocateLoop image delta relocs rounds s := by
  induction rounds generalizing s with
  | zero => exact absurd rfl h
  | succ rounds ih =>
    rw [Nat.succ_add]
    rw [relocateLoop] at h ⊢
    rw [relocateLoop.eq_2 _ _ _ s rounds]
    split
    · rfl
    · rename_i hround
      simp only [hround] at h
      exact ih h

theorem relocateLoop_contained (rounds : Nat) {s : Walk} (h : s.Contained image) :
    (relocateLoop image delta relocs rounds s).2.Contained image := by
  induction rounds generalizing s with
  | zero => exact h
  | succ rounds ih =>
    have hround : (relocateRound image delta relocs s).2.Contained image :=
      relocateRound_contained h
    unfold relocateLoop
    split
    · rename_i heq
      rw [heq] at hround
      exact hround
    · rename_i heq
      rw [heq] at hround
      exact ih hround

/-- The walk ends exactly when it wraps finitely often. -/
theorem relocateLoop_ends_iff {s : Walk} :
    (∃ rounds, (relocateLoop image delta relocs rounds s).1 ≠ none) ↔
      ∃ n, ∀ k ≥ n, (relocateLoop image delta relocs k s).1 = none →
        ¬ Wraps image (relocateLoop image delta relocs k s).2 := by
  constructor
  · rintro ⟨rounds, hdone⟩
    refine ⟨rounds, fun k hk hgoing => absurd hgoing ?_⟩
    obtain ⟨j, rfl⟩ := Nat.exists_eq_add_of_le hk
    rwa [relocateLoop_add hdone]
  · rintro ⟨n, hn⟩
    by_contra hnever
    push Not at hnever
    -- past `n` every round moves the cursor up, and there are `2 ^ 32` places for it
    have hup : ∀ j, j ≤ (relocateLoop image delta relocs (n + j) s).2.block.toNat := by
      intro j
      induction j with
      | zero => exact Nat.zero_le _
      | succ j ih =>
        have hstep := relocateLoop_succ (n + j) (hnever (n + j))
        have hmoves := relocateRound_moves (by rw [← hstep]; exact hnever _)
          (hn (n + j) (Nat.le_add_right n j) (hnever _))
        rw [← hstep] at hmoves
        exact Nat.lt_of_le_of_lt ih hmoves
    have := hup (2 ^ 32)
    omega

/-- A walk over no relocations ends at once. -/
theorem relocate_ends_iff (image : Image) (headers : PeHeaders) (h : Host) :
    (∃ rounds, (relocate rounds image headers h).1 ≠ none) ↔
      ∃ n, ∀ k ≥ n, (relocate k image headers h).1 = none →
        ¬ Wraps image (relocate k image headers h).2 := by
  by_cases hsize : (headers.directory dirBaseRelocation).size = 0
  · have hnone : ∀ rounds, relocate rounds image headers h =
        (some .noRelocations, ⟨h, (headers.directory dirBaseRelocation).rva, []⟩) :=
      fun rounds => if_pos hsize
    refine iff_of_true ⟨0, ?_⟩ ⟨0, fun k _ hgoing => ?_⟩
    · rw [hnone]
      exact Option.some_ne_none _
    · rw [hnone] at hgoing
      cases hgoing
  · have hloop : ∀ rounds, relocate rounds image headers h =
        relocateLoop image (image.base - headers.imageBase) (headers.directory dirBaseRelocation)
          rounds ⟨h, (headers.directory dirBaseRelocation).rva, []⟩ := fun rounds => if_neg hsize
    simp only [hloop]
    exact relocateLoop_ends_iff

/-- The walk writes inside the image, and it ends exactly when only finitely many of its blocks
carry the cursor past `2 ^ 32`. -/
theorem relocate_contained_iff (image : Image) (headers : PeHeaders) (h : Host) :
    ((∃ rounds, (relocate rounds image headers h).1 ≠ none) ∧
        ∀ rounds, (relocate rounds image headers h).2.Contained image) ↔
      ∃ n, ∀ k ≥ n, (relocate k image headers h).1 = none →
        ¬ Wraps image (relocate k image headers h).2 := by
  rw [← relocate_ends_iff]
  refine ⟨And.left, fun hends => ⟨hends, fun rounds => ?_⟩⟩
  have hstart : (⟨h, (headers.directory dirBaseRelocation).rva, []⟩ : Walk).Contained image := by
    intro a ha
    cases ha
  unfold relocate
  dsimp only
  split_ifs
  · exact hstart
  · exact relocateLoop_contained rounds hstart

/-- A walk none of whose blocks carries the cursor past `2 ^ 32` ends. -/
theorem relocate_ends {image : Image} {headers : PeHeaders} {h : Host}
    (hno : ∀ k, (relocate k image headers h).1 = none →
      ¬ Wraps image (relocate k image headers h).2) :
    ∃ rounds, (relocate rounds image headers h).1 ≠ none :=
  (relocate_ends_iff image headers h).mpr ⟨0, fun k _ => hno k⟩

/-! ## A table that leads on -/

/-- An image of `0x2000` bytes with two blocks in its directory, the first with an entry. -/
def forwards : Image := ⟨⟨0, 0x10000000, 0x2000, none, none⟩, 0x10000000, 0x2000⟩

def forwardsHeaders : PeHeaders where
  imageBase := 0x400000
  sizeOfImage := 0x2000
  sizeOfHeaders := 0x200
  entryRva := 0x1000
  directories := List.replicate 5 ⟨0, 0⟩ ++ [⟨0x1000, 18⟩]
  sections := []

def forwardsHost : Host where
  bytes x := if x = 0x1004 then 10 else if x = 0x1009 then 0x31 else if x = 0x100E then 8 else 0
  observer := false
  notified := []

theorem not_wraps {s : Walk} (blockSize : U32)
    (hsize : rva32 image s.host (s.block + 4) = some blockSize)
    (hlt : s.block.toNat + blockSize.toNat < 2 ^ 32) : ¬ Wraps image s := by
  rintro ⟨size, hread, hpast⟩
  rw [Option.some.inj (hsize.symm.trans hread)] at hlt
  exact Nat.not_le_of_lt hlt hpast

/-- The word at `0x100` is relocated, and the walk ends behind the second block. -/
theorem forwards_ends :
    (∃ rounds, (relocate rounds forwards forwardsHeaders forwardsHost).1 ≠ none) ∧
      (relocate 3 forwards forwardsHeaders forwardsHost).1 = some .ok ∧
      (relocate 3 forwards forwardsHeaders forwardsHost).2.writes = [0x10000100] := by
  have hdone : (relocate 3 forwards forwardsHeaders forwardsHost).1 = some .ok := by decide +kernel
  have hstays (j : Nat) : (relocate (3 + j) forwards forwardsHeaders forwardsHost).1 = some .ok := by
    have hloop : relocate (3 + j) forwards forwardsHeaders forwardsHost =
        relocate 3 forwards forwardsHeaders forwardsHost :=
      relocateLoop_add (fun hnone => Option.some_ne_none _ (hdone.symm.trans hnone)) j
    rw [hloop, hdone]
  refine ⟨relocate_ends fun k hgoing => ?_, hdone, by decide +kernel⟩
  match k with
  | 0 => exact not_wraps 10 (by decide +kernel) (by decide +kernel)
  | 1 => exact not_wraps 8 (by decide +kernel) (by decide +kernel)
  | 2 => exact not_wraps 0 (by decide +kernel) (by decide +kernel)
  | j + 3 =>
    rw [Nat.add_comm j 3, hstays j] at hgoing
    cases hgoing

/-! ## A table that leads back -/

/-- An image of `0x2000` bytes with the directory at `0x1008`. The block there has the size
`-8`, and the one before it the size 8. -/
def backwards : Image := ⟨⟨0, 0x10000000, 0x2000, none, none⟩, 0x10000000, 0x2000⟩

def backwardsHeaders : PeHeaders where
  imageBase := 0x400000
  sizeOfImage := 0x2000
  sizeOfHeaders := 0x200
  entryRva := 0x1000
  directories := List.replicate 5 ⟨0, 0⟩ ++ [⟨0x1008, 8⟩]
  sections := []

def backwardsHost : Host where
  bytes x := if x = 0x1004 then 8 else if x = 0x100C then 0xF8
    else if 0x100C < x ∧ x < 0x1010 then 0xFF else 0
  observer := false
  notified := []

theorem backwards_never_ends :
    ¬ ((∃ rounds, (relocate rounds backwards backwardsHeaders backwardsHost).1 ≠ none) ∧
      ∀ rounds, (relocate rounds backwards backwardsHeaders backwardsHost).2.Contained
        backwards) := by
  rintro ⟨⟨rounds, hends⟩, -⟩
  have hturn : ∀ block : U32, block = 0x1008 ∨ block = 0x1000 →
      ∃ next : U32, (next = 0x1008 ∨ next = 0x1000) ∧
        relocateRound backwards 0x0FC00000 ⟨0x1008, 8⟩ ⟨backwardsHost, block, []⟩ =
          (none, ⟨backwardsHost, next, []⟩) := by
    rintro block (rfl | rfl)
    · exact ⟨0x1000, Or.inr rfl, rfl⟩
    · exact ⟨0x1008, Or.inl rfl, rfl⟩
  have hloop : ∀ (rounds : Nat) (block : U32), block = 0x1008 ∨ block = 0x1000 →
      (relocateLoop backwards 0x0FC00000 ⟨0x1008, 8⟩ rounds ⟨backwardsHost, block, []⟩).1 =
        none := by
    intro rounds
    induction rounds with
    | zero => exact fun _ _ => rfl
    | succ rounds ih =>
      intro block hblock
      obtain ⟨next, hnext, hround⟩ := hturn block hblock
      rw [relocateLoop, hround]
      exact ih next hnext
  exact hends (hloop rounds 0x1008 (Or.inl rfl))

end X86Port.Pe
