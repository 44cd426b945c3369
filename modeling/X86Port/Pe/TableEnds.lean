import X86Port.Memory.Places
import X86Port.Pe.TableReads

/-!
# The end of the import walk

Every loop over the thunks and the ordinary descriptors comes to an address at which the image
has no four bytes left, whatever it holds. The descriptors of the delay table are 32 bytes apart
in wrapping arithmetic, and can step over that place.

* `Unending`: the sizes and table addresses at which every field of every descriptor is inside.
* `walkImports_ends`: the walk ends unless the table is such a one.
* `walkImports_going`: then there are contents over which it never ends.
-/

namespace X86Port.Pe

open Cpu (Width)
open Lib Lib.Runs Lib.Places
open Memory (Mem Host valueOf memRead)

/-! ## Walks without a loop of their own -/

section Avoids

variable {W : Type} {host : W → Host} {image : Image}

theorem avoids_readImage (rva : U32) (w : Width) :
    Avoids .going (readImage host image rva w) := by
  intro s t h
  unfold readImage at h
  split_ifs at h
  · cases hread : imageRead image (host s.world) rva w <;> rw [hread] at h <;> cases h
  · cases h

theorem avoids_walk32 (rva : U32) : Avoids .going (walk32 host image rva) :=
  avoids_readImage rva .dword

theorem avoids_walk16 (rva : U32) : Avoids .going (walk16 host image rva) :=
  avoids_bind (avoids_readImage rva .word) fun _ => avoids_pure _

theorem avoids_malformed {α : Type} : Avoids .going (malformed : TableWalk W α) :=
  avoids_throw nofun

theorem avoids_notFound {α : Type} : Avoids .going (notFound : TableWalk W α) :=
  avoids_throw nofun

theorem avoids_putChar (i : Nat) : Avoids .going (putChar i : TableWalk W Unit) := fun _ _ => nofun

theorem avoids_rvaString (rva : U32) : Avoids .going (rvaString host image rva) := by
  have hfrom : ∀ n i, Avoids .going (stringFrom host image rva n i) := by
    intro n
    induction n with
    | zero => exact fun _ => avoids_malformed
    | succ n ih =>
      refine fun i => avoids_bind (avoids_readImage _ _) fun byte => ?_
      refine avoids_bind (avoids_putChar i) fun _ => avoids_ite (avoids_pure _) ?_
      exact avoids_bind (ih (i + 1)) fun _ => avoids_pure _
  exact hfrom maxName 0

theorem avoids_thunkName (thunk : U32) : Avoids .going (thunkName host image thunk) :=
  avoids_ite (avoids_pure _) (avoids_bind (avoids_walk16 _) fun _ =>
    avoids_bind (avoids_rvaString _) fun _ => avoids_pure _)

variable (visit : Visitor W)

theorem avoids_thunkRound (walk : ThunkWalk) (i : Nat) :
    Avoids .going (thunkRound host image walk visit i) :=
  avoids_bind (avoids_walk32 _) fun _ => avoids_ite (avoids_pure _)
    (avoids_bind (avoids_thunkName _) fun _ =>
      avoids_bind (fun _ _ => nofun) fun _ => avoids_pure _)

end Avoids

/-! ## The last four bytes -/

/-- Four bytes of an image. -/
def Inside32 (size rva : U32) : Prop := rva ≤ size ∧ size - rva ≥ 4

section Last

variable {W : Type} {host : W → Host} {image : Image}

theorem walk32_outside {rva : U32} (h : ¬ Inside32 image.size rva) (s t : WalkState W) (v : U32) :
    walk32 host image rva s ≠ .ok v t := by
  unfold walk32 readImage
  split_ifs with hin
  · exact absurd hin h
  · nofun

/-- A round whose first read is outside the image asks for no other one. -/
theorem bind_outside {α : Type} {rva : U32} (h : ¬ Inside32 image.size rva)
    (f : U32 → TableWalk W α) (s t : WalkState W) (a : α) :
    (walk32 host image rva >>= f) s ≠ .ok a t := by
  intro hrun
  obtain ⟨v, u, hread, -⟩ := bind_eq_ok hrun
  exact walk32_outside h s u v hread

theorem bind_inside {α : Type} {rva : U32} {f : U32 → TableWalk W α}
    (h : ∀ v s t a, f v s ≠ .ok a t) (s t : WalkState W) (a : α) :
    (walk32 host image rva >>= f) s ≠ .ok a t := by
  intro hrun
  obtain ⟨v, u, -, hrest⟩ := bind_eq_ok hrun
  exact h v u t a hrest

/-- Steps of 4 and of 20 come to the last four addresses of the 32-bit space. -/
theorem exists_outside (size rva : U32) :
    (∃ k < 2 ^ 30, ¬ Inside32 size (rva + BitVec.ofNat 32 k * 4)) ∧
      ∃ k < 2 ^ 30, ¬ Inside32 size (rva + BitVec.ofNat 32 k * 20) := by
  have hlast : ∀ a : U32, 2 ^ 32 - 4 ≤ a.toNat → ¬ Inside32 size a := by
    intro a ha h
    obtain ⟨hle, hroom⟩ := h
    bv_omega
  have hrva := rva.isLt
  set q := (2 ^ 32 - 4 + rva.toNat % 4 - rva.toNat) / 4 with hq
  refine ⟨⟨q, by omega, hlast _ ?_⟩, (q * 214748365) % 2 ^ 30, by omega, hlast _ ?_⟩
  · rw [BitVec.toNat_add, BitVec.toNat_mul, BitVec.toNat_ofNat, show (4 : U32).toNat = 4 from rfl]
    omega
  · rw [BitVec.toNat_add, BitVec.toNat_mul, BitVec.toNat_ofNat, show (20 : U32).toNat = 20 from rfl]
    omega

variable (visit : Visitor W) {rounds : Nat}

theorem avoids_walkThunks (hrounds : 2 ^ 30 ≤ rounds) (walk : ThunkWalk) :
    Avoids .going (walkThunks host image rounds walk visit) := by
  obtain ⟨k, hk, hout⟩ := (exists_outside image.size walk.namesRva).1
  exact avoids_loop (avoids_thunkRound visit walk) (bind_outside hout _ · · _) rounds 0
    (Nat.zero_le k) (by omega)

theorem avoids_descriptorThunks (hrounds : 2 ^ 30 ≤ rounds) (name names slots : U32)
    (delayLoaded : Bool) :
    Avoids .going (descriptorThunks host image rounds visit name names slots delayLoaded) :=
  avoids_bind (avoids_rvaString _) fun _ =>
    avoids_bind (avoids_walkThunks visit hrounds _) fun _ => avoids_pure _

theorem avoids_ordinaryImports (hrounds : 2 ^ 30 ≤ rounds) (imports : PeDataDirectory) :
    Avoids .going (ordinaryImports host image rounds imports visit) := by
  obtain ⟨k, hk, hout⟩ := (exists_outside image.size imports.rva).2
  refine avoids_ite (avoids_pure _) (avoids_loop (fun i => ?_) (bind_outside hout _ · · _) rounds 0
    (Nat.zero_le k) (by omega))
  refine avoids_bind (avoids_walk32 _) fun _ => avoids_bind (avoids_walk32 _) fun _ => ?_
  refine avoids_bind (avoids_walk32 _) fun _ => avoids_ite (avoids_pure _) ?_
  exact avoids_descriptorThunks visit hrounds _ _ _ _

/-! ## The delay table -/

/-- The four fields of a delay descriptor that the walk reads. -/
def DescriptorInside (size d : U32) : Prop :=
  Inside32 size d ∧ Inside32 size (d + 4) ∧ Inside32 size (d + 12) ∧ Inside32 size (d + 16)

theorem avoids_delayImports (hrounds : 2 ^ 30 ≤ rounds) (delayed : PeDataDirectory)
    (imageBase : U32) (h : delayed.size ≠ 0 → ∃ k < rounds,
      ¬ DescriptorInside image.size (delayed.rva + BitVec.ofNat 32 k * 32)) :
    Avoids .going (delayImports host image rounds delayed imageBase visit) := by
  unfold delayImports
  by_cases hsize : delayed.size = 0
  · rw [if_pos hsize]
    exact avoids_pure _
  rw [if_neg hsize]
  obtain ⟨k, hk, hout⟩ := h hsize
  refine avoids_loop (fun i => ?_) (k := k) (fun s t => ?_) rounds 0 (Nat.zero_le k) (by omega)
  · refine avoids_bind (avoids_walk32 _) fun _ => avoids_bind (avoids_walk32 _) fun _ => ?_
    refine avoids_bind (avoids_walk32 _) fun _ => avoids_bind (avoids_walk32 _) fun _ => ?_
    exact avoids_ite (avoids_pure _) (avoids_descriptorThunks visit hrounds _ _ _ _)
  · unfold delayRound
    by_cases h0 : Inside32 image.size (delayed.rva + BitVec.ofNat 32 k * 32)
    swap
    · exact bind_outside h0 _ _ _ _
    refine bind_inside (fun _ s t _ => ?_) _ _ _
    by_cases h4 : Inside32 image.size (delayed.rva + BitVec.ofNat 32 k * 32 + 4)
    swap
    · exact bind_outside h4 _ _ _ _
    refine bind_inside (fun _ s t _ => ?_) _ _ _
    by_cases h12 : Inside32 image.size (delayed.rva + BitVec.ofNat 32 k * 32 + 12)
    swap
    · exact bind_outside h12 _ _ _ _
    refine bind_inside (fun _ s t _ => ?_) _ _ _
    exact bind_outside (fun h16 => hout ⟨h0, h4, h12, h16⟩) _ _ _ _

end Last

/-- The delay tables whose descriptors step over the end of the image. -/
def Unending (size rva : U32) : Prop :=
  rva.toNat % 32 < 12 ∧ 2 ^ 32 - 12 + rva.toNat % 32 ≤ size.toNat ∨
    20 ≤ rva.toNat % 32 ∧ rva.toNat % 32 < 24 ∧ 2 ^ 32 - 24 + rva.toNat % 32 ≤ size.toNat

instance (size rva : U32) : Decidable (Unending size rva) := inferInstanceAs (Decidable (_ ∨ _))

theorem inside32_iff {size a : U32} : Inside32 size a ↔ a.toNat + 4 ≤ size.toNat := by
  unfold Inside32
  bv_omega

theorem toNat_descriptor (rva : U32) (k : Nat) :
    (rva + BitVec.ofNat 32 k * 32).toNat = (rva.toNat + 32 * k) % 2 ^ 32 := by
  rw [BitVec.toNat_add, BitVec.toNat_mul, BitVec.toNat_ofNat, show (32 : U32).toNat = 32 from rfl]
  omega

theorem descriptorInside_iff {size d : U32} : DescriptorInside size d ↔ d.toNat + 4 ≤ size.toNat ∧
    (d.toNat + 4) % 2 ^ 32 + 4 ≤ size.toNat ∧ (d.toNat + 12) % 2 ^ 32 + 4 ≤ size.toNat ∧
      (d.toNat + 16) % 2 ^ 32 + 4 ≤ size.toNat := by
  unfold DescriptorInside
  rw [inside32_iff, inside32_iff, inside32_iff, inside32_iff, BitVec.toNat_add, BitVec.toNat_add,
    BitVec.toNat_add]
  rfl

/-- The last descriptor decides: the others lie below it. -/
theorem unending_iff (size rva : U32) : Unending size rva ↔
    ∀ k : Nat, DescriptorInside size (rva + BitVec.ofNat 32 k * 32) := by
  have hsize := size.isLt
  have hrva := rva.isLt
  refine ⟨fun h k => ?_, fun h => ?_⟩
  · rw [descriptorInside_iff, toNat_descriptor]
    unfold Unending at h
    omega
  · have hlast := h ((2 ^ 32 - 32 + rva.toNat % 32 - rva.toNat) / 32)
    rw [descriptorInside_iff, toNat_descriptor] at hlast
    unfold Unending
    omega

theorem walkImports_ends {W : Type} (host : W → Host) (m : Mem) (base : U32) (headers : PeHeaders)
    (visit : Visitor W) (h : (headers.directory dirDelayImport).size ≠ 0 →
      ¬ Unending headers.sizeOfImage (headers.directory dirDelayImport).rva) :
    ∃ rounds, Avoids .going (walkImports host rounds m base headers visit) := by
  have hlast : ∃ k : Nat, (headers.directory dirDelayImport).size ≠ 0 →
      ¬ DescriptorInside headers.sizeOfImage
        ((headers.directory dirDelayImport).rva + BitVec.ofNat 32 k * 32) := by
    by_cases hsize : (headers.directory dirDelayImport).size = 0
    · exact ⟨0, fun hne => absurd hsize hne⟩
    · have hnot := h hsize
      rw [unending_iff] at hnot
      obtain ⟨k, hk⟩ := not_forall.mp hnot
      exact ⟨k, fun _ => hk⟩
  obtain ⟨k, hk⟩ := hlast
  refine ⟨max (2 ^ 30) (k + 1), ?_⟩
  refine avoids_bind (avoids_ordinaryImports visit (le_max_left _ _) _) fun stop => ?_
  refine avoids_ite (avoids_pure _) (avoids_bind ?_ fun _ => avoids_pure _)
  exact avoids_delayImports visit (le_max_left _ _) _ _
    fun hsize => ⟨k, lt_of_lt_of_le (Nat.lt_succ_self k) (le_max_right _ _), hk hsize⟩

/-! ## Contents without an end -/

/-- A window of an image, from the first host byte on. -/
def flatWindow (base size : U32) : Mem where
  host := 0
  lo := base
  size := size
  sparse := none
  perms := none

theorem imageRead_flat {base size rva : U32} (hfit : base.toNat + size.toNat ≤ 2 ^ 32) {w : Width}
    (hroom : rva.toNat + w.bytes ≤ size.toNat) (h : Host) :
    imageRead ⟨flatWindow base size, base, size⟩ h rva w =
      some (valueOf (Bytes.load h.bytes rva.toNat w.bytes)) := by
  have hw : (BitVec.ofNat 32 w.bytes).toNat = w.bytes := by cases w <;> rfl
  have hpos : 0 < w.bytes := by cases w <;> decide
  have haddr : (base + rva).toNat = base.toNat + rva.toNat := by bv_omega
  have hrun : Places.Run ((flatWindow base size).place memRead) (base + rva).toNat w.bytes
      rva.toNat := by
    intro i hi
    have hgrants : (flatWindow base size).Grants memRead ((base + rva).toNat + i) := by
      refine ⟨?_, ?_, ?_, nofun⟩
      · change base.toNat ≤ _
        omega
      · change _ < base.toNat + size.toNat
        omega
      · omega
    unfold Mem.place
    rw [show (flatWindow base size).sparse = none from rfl]
    dsimp only
    rw [if_pos hgrants]
    unfold Mem.hostOf
    rw [haddr]
    change some (0 + (base.toNat + rva.toNat + i - base.toNat)) = _
    congr 1
    omega
  have hread := @Memory.read_placed (flatWindow base size) (base + rva)
    (Memory.wellFormed_window rfl) h w
  rw [if_pos hrun.placed, gather_run hrun] at hread
  unfold imageRead
  rw [if_pos ⟨by bv_omega, by bv_omega⟩, hread]
  rfl

/-- A descriptor with an empty name and no thunks, once every 32 bytes. -/
def descriptorByte (rva : U32) (i : Nat) : U8 :=
  if i = 0 then 1
  else if i = 4 ∨ i = 16 then BitVec.ofNat 8 (rva.toNat % 32 + 8)
  else 0

def endlessHost (rva : U32) : Host where
  bytes x := descriptorByte rva ((x + 2 ^ 32 - rva.toNat) % 32)
  observer := false
  notified := []

section Endless

variable {base size rva : U32}

theorem endless_dword (hfit : base.toNat + size.toNat ≤ 2 ^ 32) {r : U32}
    (hr : r.toNat + 4 ≤ size.toNat) {o : Nat} (ho : (r.toNat + 2 ^ 32 - rva.toNat) % 32 = o)
    (hle : o + 4 ≤ 32) : rva32 ⟨flatWindow base size, base, size⟩ (endlessHost rva) r =
      some (valueOf [descriptorByte rva o, descriptorByte rva (o + 1), descriptorByte rva (o + 2),
        descriptorByte rva (o + 3)]) := by
  have hread := imageRead_flat hfit (w := .dword) hr (endlessHost rva)
  have hrva := rva.isLt
  have hbyte : ∀ j < 4, (endlessHost rva).bytes (r.toNat + j) = descriptorByte rva (o + j) := by
    intro j hj
    change descriptorByte rva ((r.toNat + j + 2 ^ 32 - rva.toNat) % 32) = _
    rw [show (r.toNat + j + 2 ^ 32 - rva.toNat) % 32 = o + j by omega]
  refine hread.trans (congrArg (fun l => some (valueOf l)) ?_)
  change [(endlessHost rva).bytes (r.toNat + 0), (endlessHost rva).bytes (r.toNat + 1),
    (endlessHost rva).bytes (r.toNat + 2), (endlessHost rva).bytes (r.toNat + 3)] = _
  rw [hbyte 0 (by decide), hbyte 1 (by decide), hbyte 2 (by decide), hbyte 3 (by decide)]
  rfl

theorem valueOf_byte (b : U8) : valueOf [b, 0, 0, 0] = b.setWidth 32 := by
  simp [valueOf]

/-- Where the empty name and the empty list of thunks are. -/
def emptyAt (rva : U32) : U32 := BitVec.ofNat 32 (rva.toNat % 32 + 8)

theorem toNat_emptyAt (rva : U32) : (emptyAt rva).toNat = rva.toNat % 32 + 8 := by
  unfold emptyAt
  rw [BitVec.toNat_ofNat]
  omega

theorem setWidth_emptyAt (rva : U32) :
    (BitVec.ofNat 8 (rva.toNat % 32 + 8)).setWidth 32 = emptyAt rva := by
  refine BitVec.eq_of_toNat_eq ?_
  rw [toNat_emptyAt, BitVec.toNat_setWidth, BitVec.toNat_ofNat]
  omega

/-- The fields of every descriptor, and what they point to. -/
theorem endless_fields (hfit : base.toNat + size.toNat ≤ 2 ^ 32) (h : Unending size rva) (k : Nat) :
    let image : Image := ⟨flatWindow base size, base, size⟩
    let d := rva + BitVec.ofNat 32 k * 32
    rva32 image (endlessHost rva) d = some 1 ∧
      rva32 image (endlessHost rva) (d + 4) = some (emptyAt rva) ∧
      rva32 image (endlessHost rva) (d + 12) = some 0 ∧
      rva32 image (endlessHost rva) (d + 16) = some (emptyAt rva) ∧
      imageRead image (endlessHost rva) (emptyAt rva) .byte = some 0 ∧
      rva32 image (endlessHost rva) (emptyAt rva) = some 0 := by
  intro image d
  have hinside := descriptorInside_iff.mp ((unending_iff size rva).mp h k)
  rw [toNat_descriptor] at hinside
  have hrva := rva.isLt
  have hsize : 64 ≤ size.toNat := by
    unfold Unending at h
    omega
  have hd : d.toNat = (rva.toNat + 32 * k) % 2 ^ 32 := toNat_descriptor rva k
  have hadd : ∀ c : Nat, c < 32 → (d + BitVec.ofNat 32 c).toNat =
      (rva.toNat + 32 * k + c) % 2 ^ 32 := fun c hc => by
    rw [BitVec.toNat_add, hd, BitVec.toNat_ofNat]
    omega
  refine ⟨?_, ?_, ?_, ?_, ?_, ?_⟩
  · rw [endless_dword hfit (o := 0) (by omega) (by omega) (by decide)]
    exact congrArg some (valueOf_byte _)
  · have h4 : (d + 4).toNat = _ := hadd 4 (by decide)
    rw [endless_dword hfit (r := d + 4) (o := 4) (by omega) (by omega) (by decide)]
    exact congrArg some ((valueOf_byte _).trans (setWidth_emptyAt rva))
  · have h12 : (d + 12).toNat = _ := hadd 12 (by decide)
    rw [endless_dword hfit (r := d + 12) (o := 12) (by omega) (by omega) (by decide)]
    exact congrArg some (valueOf_byte _)
  · have h16 : (d + 16).toNat = _ := hadd 16 (by decide)
    rw [endless_dword hfit (r := d + 16) (o := 16) (by omega) (by omega) (by decide)]
    exact congrArg some ((valueOf_byte _).trans (setWidth_emptyAt rva))
  · have hempty := toNat_emptyAt rva
    have hread := @imageRead_flat base size (emptyAt rva) hfit .byte
      (by rw [hempty]; change _ + 1 ≤ _; omega) (endlessHost rva)
    have hzero : (endlessHost rva).bytes ((emptyAt rva).toNat + 0) = 0 := by
      change descriptorByte rva (((emptyAt rva).toNat + 0 + 2 ^ 32 - rva.toNat) % 32) = 0
      rw [hempty, show (rva.toNat % 32 + 8 + 0 + 2 ^ 32 - rva.toNat) % 32 = 8 by omega]
      rfl
    refine hread.trans (congrArg some ?_)
    change valueOf [(endlessHost rva).bytes ((emptyAt rva).toNat + 0)] = 0
    rw [hzero]
    rfl
  · have hempty := toNat_emptyAt rva
    rw [endless_dword hfit (o := 8) (by omega) (by omega) (by decide)]
    exact congrArg some (valueOf_byte _)

theorem readImage_of {W : Type} (host : W → Host) {image : Image} {s : WalkState W} {r v : U32}
    {w : Width} (h : imageRead image (host s.world) r w = some v) :
    ∃ t, readImage host image r w s = .ok v t ∧ t.world = s.world := by
  unfold readImage
  split_ifs with hin
  · rw [h]
    exact ⟨_, rfl, rfl⟩
  · unfold imageRead at h
    rw [if_neg hin] at h
    cases h

section Rounds

variable {W : Type} {host : W → Host} {image : Image} {s : WalkState W}

theorem rvaString_empty {r : U32} (h : imageRead image (host s.world) r .byte = some 0) :
    ∃ t, rvaString host image r s = .ok [] t ∧ t.world = s.world := by
  rw [← show r + BitVec.ofNat 32 0 = r from BitVec.add_zero r] at h
  obtain ⟨t, hread, hw⟩ := readImage_of host h
  exact ⟨_, bind_of_ok hread, hw⟩

theorem walkThunks_empty (walk : ThunkWalk) (h : rva32 image (host s.world) walk.namesRva = some 0)
    (rounds : Nat) (visit : Visitor W) :
    ∃ t, walkThunks host image (rounds + 1) walk visit s = .ok false t ∧ t.world = s.world := by
  have hfirst : walk.namesRva + BitVec.ofNat 32 0 * 4 = walk.namesRva := by
    rw [show (BitVec.ofNat 32 0 : U32) * 4 = 0 from rfl]
    exact BitVec.add_zero _
  rw [← hfirst] at h
  obtain ⟨t, hread, hw⟩ := readImage_of host h
  have hround : thunkRound host image walk visit 0 s = .ok (some false) t := bind_of_ok hread
  exact ⟨t, bind_of_ok hround, hw⟩

theorem descriptorThunks_empty (host : W → Host) {name names : U32}
    (hname : imageRead image (host s.world) name .byte = some 0)
    (hthunk : rva32 image (host s.world) names = some 0) (rounds : Nat) (visit : Visitor W)
    (slots : U32) (delayLoaded : Bool) :
    ∃ t, descriptorThunks host image (rounds + 1) visit name names slots delayLoaded s =
      .ok none t ∧ t.world = s.world := by
  obtain ⟨u, hdll, hu⟩ := rvaString_empty hname
  rw [← hu] at hthunk
  obtain ⟨t, hstop, ht⟩ := walkThunks_empty ⟨[], names, slots, delayLoaded⟩ hthunk
    rounds visit
  exact ⟨t, (bind_of_ok hdll).trans (bind_of_ok hstop), ht.trans hu⟩

end Rounds

/-- Every descriptor is read, and asks for the next one. -/
theorem delayRound_endless (hfit : base.toNat + size.toNat ≤ 2 ^ 32) (h : Unending size rva)
    (rounds k : Nat) (tableSize imageBase : U32) (visit : Visitor Host) (s : WalkState Host)
    (hs : s.world = endlessHost rva) :
    ∃ t, delayRound id ⟨flatWindow base size, base, size⟩ (rounds + 1) ⟨rva, tableSize⟩ imageBase
      visit k s = .ok none t ∧ t.world = endlessHost rva := by
  obtain ⟨h0, h4, h12, h16, hname, hthunk⟩ := endless_fields hfit h k
  obtain ⟨t0, hread0, hw0⟩ := readImage_of id (s := s) (hs ▸ h0)
  obtain ⟨t4, hread4, hw4⟩ := readImage_of id (s := t0) (hw0.trans hs ▸ h4)
  have hs4 := hw4.trans (hw0.trans hs)
  obtain ⟨t12, hread12, hw12⟩ := readImage_of id (s := t4) (hs4 ▸ h12)
  have hs12 := hw12.trans hs4
  obtain ⟨t16, hread16, hw16⟩ := readImage_of id (s := t12) (hs12 ▸ h16)
  have hs16 := hw16.trans hs12
  obtain ⟨t, hrest, ht⟩ := descriptorThunks_empty id (s := t16) (hs16 ▸ hname)
    (hs16 ▸ hthunk) rounds visit 0 true
  refine ⟨t, ?_, ht.trans hs16⟩
  refine (bind_of_ok hread0).trans ((bind_of_ok hread4).trans ((bind_of_ok hread12).trans
    ((bind_of_ok hread16).trans ?_)))
  have hne : emptyAt rva ≠ 0 := by
    intro hzero
    have hempty := toNat_emptyAt rva
    rw [hzero] at hempty
    simp at hempty
  have hless : (if (1 : U32) &&& 1 = 0 then imageBase else 0) = 0 := if_neg (by decide)
  rw [if_neg hne]
  simp only [hless]
  rw [show emptyAt rva - 0 = emptyAt rva from BitVec.sub_zero _]
  exact hrest

/-- With no ordinary imports, these contents keep the walk going for ever. -/
theorem walkImports_going (hfit : base.toNat + size.toNat ≤ 2 ^ 32) (h : Unending size rva)
    (headers : PeHeaders) (hsize : headers.sizeOfImage = size)
    (himports : (headers.directory dirImport).size = 0)
    (hrva : (headers.directory dirDelayImport).rva = rva)
    (hdelay : (headers.directory dirDelayImport).size ≠ 0) (visit : Visitor Host) (rounds : Nat)
    (s : WalkState Host) (hs : s.world = endlessHost rva) :
    ∃ t, walkImports id rounds (flatWindow base size) base headers visit s = .error .going t := by
  have hloop : ∀ rounds, ∃ t, loop .going (delayRound id ⟨flatWindow base size, base, size⟩ rounds
      (headers.directory dirDelayImport) headers.imageBase visit) rounds 0 s = .error .going t := by
    intro rounds
    cases rounds with
    | zero => exact ⟨s, rfl⟩
    | succ rounds =>
      refine loop_going (I := fun s => s.world = endlessHost rva) (fun k s hs => ?_) _ _ _ hs
      rw [← hrva] at hs h ⊢
      exact delayRound_endless hfit h rounds k _ _ visit s hs
  obtain ⟨t, ht⟩ := hloop rounds
  refine ⟨t, ?_⟩
  have hordinary : ordinaryImports id (mappedImage (flatWindow base size) base headers) rounds
      (headers.directory dirImport) visit s = .ok false s := by
    unfold ordinaryImports
    rw [if_pos himports]
    rfl
  refine (bind_of_ok hordinary).trans (bind_of_error ?_)
  unfold delayImports mappedImage
  rw [if_neg hdelay, hsize]
  exact ht

end Endless

end X86Port.Pe
