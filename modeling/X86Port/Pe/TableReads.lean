import Mathlib.Order.Defs.Unbundled
import X86Port.Pe.Tables

/-!
# What the table walks read, and that they end

A walk takes its state along `Steps`: the world moves by the visitor only, and every event of the
log is one that the image or the resource tree allows.

* `stays_walkImports`, `stays_exportByName`, …: every read is of a byte of the image.
* `stays_resource`, `stays_resourceAt`: every read is of a byte of the resource directory.
* `walkImports_ends`: the rounds in which the walk of the imports ends.
-/

namespace X86Port.Pe

open Cpu (Width)
open Lib.Runs
open Memory (Mem Host)

/-! ## Steps -/

/-- The bytes of the image, and the characters of a name buffer. -/
def Event.InImage (image : Image) : Event → Prop
  | .read addr w =>
    image.base.toNat ≤ addr.toNat ∧ addr.toNat + w.bytes ≤ image.base.toNat + image.size.toNat
  | .put i => i < maxName

/-- The bytes that lie in the resource directory, counted from its root. -/
def Event.InTree (image : Image) (tree : ResourceTree) : Event → Prop
  | .read addr w => (addr - image.base - tree.root).toNat + w.bytes ≤ tree.size.toNat
  | .put _ => False

def Event.InResources (image : Image) (tree : ResourceTree) (e : Event) : Prop :=
  e.InImage image ∧ e.InTree image tree

structure Steps {W : Type} (V : W → W → Prop) (P : Event → Prop) (s t : WalkState W) : Prop where
  world : V s.world t.world
  log : ∃ l, t.log = s.log ++ l ∧ ∀ e ∈ l, P e

/-- The world has only been through the visitor. -/
def Visited {W : Type} (visit : Visitor W) (w w' : W) : Prop :=
  ∃ visits : List PeImport, w' = visits.foldl (fun w entry => (visit entry w).2) w

instance {W : Type} (visit : Visitor W) : Std.Refl (Visited visit) := ⟨fun _ => ⟨[], rfl⟩⟩

instance {W : Type} (visit : Visitor W) : IsTrans W (Visited visit) where
  trans := by
    rintro u _ _ ⟨l, rfl⟩ ⟨k, rfl⟩
    exact ⟨l ++ k, (List.foldl_append ..).symm⟩

abbrev Stays {W α : Type} (V : W → W → Prop) (P : Event → Prop) (x : TableWalk W α) : Prop :=
  Moves (Steps V P) x

section Rules

variable {W α β : Type} {V : W → W → Prop} {P : Event → Prop} {host : W → Host} {image : Image}

theorem Stays.mono {Q : Event → Prop} {x : TableWalk W α} (hx : Stays V P x)
    (h : ∀ e, P e → Q e) : Stays V Q x := by
  intro s
  obtain ⟨hworld, l, hlog, hl⟩ := hx s
  exact ⟨hworld, l, hlog, fun e he => h e (hl e he)⟩

theorem steps_trans [IsTrans W V] (s t u : WalkState W) (h : Steps V P s t) (h' : Steps V P t u) :
    Steps V P s u := by
  obtain ⟨l, hl, hP⟩ := h.log
  obtain ⟨k, hk, hP'⟩ := h'.log
  refine ⟨trans_of V h.world h'.world, l ++ k, by rw [hk, hl, List.append_assoc], fun e he => ?_⟩
  exact (List.mem_append.mp he).elim (hP e) (hP' e)

theorem stays_bind [IsTrans W V] {x : TableWalk W α} {f : α → TableWalk W β} (hx : Stays V P x)
    (hf : ∀ a, Stays V P (f a)) : Stays V P (x >>= f) :=
  moves_bind steps_trans hx fun _ a _ _ => hf a

variable [Std.Refl V]

theorem steps_refl (s : WalkState W) : Steps V P s s :=
  ⟨refl_of V s.world, [], (List.append_nil _).symm, fun _ he => absurd he List.not_mem_nil⟩

theorem stays_pure (a : α) : Stays V P (pure a) := moves_pure steps_refl a

theorem stays_throw (e : Halt) : Stays V P (throw e : TableWalk W α) := moves_throw steps_refl e

theorem stays_putChar {i : Nat} (h : P (.put i)) : Stays V P (putChar i : TableWalk W Unit) :=
  fun s => ⟨refl_of V s.world, [.put i], rfl, fun _ he => List.mem_singleton.mp he ▸ h⟩

theorem stays_readImage {rva : U32} {w : Width}
    (h : rva ≤ image.size → image.size - rva ≥ BitVec.ofNat 32 w.bytes →
      P (.read (image.base + rva) w)) : Stays V P (readImage host image rva w) := by
  intro s
  unfold readImage
  by_cases hin : rva ≤ image.size ∧ image.size - rva ≥ BitVec.ofNat 32 w.bytes
  · rw [if_pos hin]
    have hlog : ∀ e ∈ [Event.read (image.base + rva) w], P e := by
      intro e he
      rw [List.mem_singleton.mp he]
      exact h hin.1 hin.2
    cases hread : imageRead image (host s.world) rva w with
    | some v => exact ⟨refl_of V s.world, _, rfl, hlog⟩
    | none => exact ⟨refl_of V s.world, _, rfl, hlog⟩
  · rw [if_neg hin]
    exact steps_refl s

theorem stays_walk32 {rva : U32}
    (h : rva ≤ image.size → image.size - rva ≥ BitVec.ofNat 32 Width.dword.bytes →
      P (.read (image.base + rva) .dword)) : Stays V P (walk32 host image rva) :=
  stays_readImage h

theorem stays_walk16 [IsTrans W V] {rva : U32}
    (h : rva ≤ image.size → image.size - rva ≥ BitVec.ofNat 32 Width.word.bytes →
      P (.read (image.base + rva) .word)) : Stays V P (walk16 host image rva) :=
  stays_bind (stays_readImage h) fun _ => stays_pure _

end Rules

/-! ## Walks of the image -/

section Image

variable {W : Type} {V : W → W → Prop} [Std.Refl V] [IsTrans W V] {host : W → Host}
  {image : Image}

theorem inImage_read (hfit : image.base.toNat + image.size.toNat ≤ 2 ^ 32) {rva : U32} {w : Width}
    (hle : rva ≤ image.size) (hroom : image.size - rva ≥ BitVec.ofNat 32 w.bytes) :
    Event.InImage image (.read (image.base + rva) w) := by
  have hw : (BitVec.ofNat 32 w.bytes).toNat = w.bytes := by cases w <;> rfl
  have hpos : 0 < w.bytes := by cases w <;> decide
  unfold Event.InImage
  bv_omega

variable (hfit : image.base.toNat + image.size.toNat ≤ 2 ^ 32)
include hfit

theorem stays_stringFrom (rva : U32) : ∀ n i, i + n ≤ maxName →
    Stays V (Event.InImage image) (stringFrom host image rva n i) := by
  intro n
  induction n with
  | zero => exact fun i _ => stays_throw _
  | succ n ih =>
    intro i hle
    refine stays_bind (stays_readImage (inImage_read hfit)) fun byte => ?_
    refine stays_bind (stays_putChar (show i < maxName by omega)) fun _ => ?_
    refine moves_ite (fun _ => stays_pure _) fun _ => ?_
    exact stays_bind (ih (i + 1) (by omega)) fun _ => stays_pure _

theorem stays_rvaString (rva : U32) :
    Stays V (Event.InImage image) (rvaString host image rva) :=
  stays_stringFrom hfit rva maxName 0 (by omega)

omit [IsTrans W V] in
theorem stays_read32 (rva : U32) : Stays V (Event.InImage image) (walk32 host image rva) :=
  stays_walk32 (inImage_read hfit)

theorem stays_read16 (rva : U32) : Stays V (Event.InImage image) (walk16 host image rva) :=
  stays_walk16 (inImage_read hfit)

theorem stays_thunkName (thunk : U32) :
    Stays V (Event.InImage image) (thunkName host image thunk) :=
  moves_ite (fun _ => stays_pure _) fun _ =>
    stays_bind (stays_read16 hfit _) fun _ =>
      stays_bind (stays_rvaString hfit _) fun _ => stays_pure _

end Image

section Imports

variable {W : Type} {host : W → Host} {image : Image} (visit : Visitor W)

theorem stays_visitImport {P : Event → Prop} (entry : PeImport) :
    Stays (Visited visit) P (visitImport visit entry) :=
  fun _ => ⟨⟨[entry], rfl⟩, [], (List.append_nil _).symm, fun _ he => absurd he List.not_mem_nil⟩

variable (hfit : image.base.toNat + image.size.toNat ≤ 2 ^ 32)
include hfit

theorem stays_thunkRound (walk : ThunkWalk) (i : Nat) :
    Stays (Visited visit) (Event.InImage image) (thunkRound host image walk visit i) :=
  stays_bind (stays_read32 hfit _) fun _ =>
    moves_ite (fun _ => stays_pure _) fun _ =>
      stays_bind (stays_thunkName hfit _) fun _ =>
        stays_bind (stays_visitImport visit _) fun _ => stays_pure _

theorem stays_descriptorThunks (rounds : Nat) (name names slots : U32) (delayLoaded : Bool) :
    Stays (Visited visit) (Event.InImage image)
      (descriptorThunks host image rounds visit name names slots delayLoaded) :=
  stays_bind (stays_rvaString hfit _) fun _ =>
    stays_bind (moves_loop steps_refl steps_trans (stays_thunkRound visit hfit _) rounds 0)
      fun _ => stays_pure _

theorem stays_importRound (rounds : Nat) (imports : PeDataDirectory) (i : Nat) :
    Stays (Visited visit) (Event.InImage image)
      (importRound host image rounds imports visit i) :=
  stays_bind (stays_read32 hfit _) fun _ => stays_bind (stays_read32 hfit _) fun _ =>
    stays_bind (stays_read32 hfit _) fun _ => moves_ite (fun _ => stays_pure _) fun _ =>
      stays_descriptorThunks visit hfit rounds _ _ _ _

theorem stays_delayRound (rounds : Nat) (delayed : PeDataDirectory) (imageBase : U32) (i : Nat) :
    Stays (Visited visit) (Event.InImage image)
      (delayRound host image rounds delayed imageBase visit i) :=
  stays_bind (stays_read32 hfit _) fun _ => stays_bind (stays_read32 hfit _) fun _ =>
    stays_bind (stays_read32 hfit _) fun _ => stays_bind (stays_read32 hfit _) fun _ =>
      moves_ite (fun _ => stays_pure _) fun _ => stays_descriptorThunks visit hfit rounds _ _ _ _

end Imports

section Tables

variable {W : Type} {host : W → Host} {m : Mem} {base : U32} {headers : PeHeaders}
  (hfit : base.toNat + headers.sizeOfImage.toNat ≤ 2 ^ 32)
include hfit

/-- The imports: the image is read, a name buffer written, and the rest is the visitor's. -/
theorem stays_walkImports (visit : Visitor W) (rounds : Nat) :
    Stays (Visited visit) (Event.InImage (mappedImage m base headers))
      (walkImports host rounds m base headers visit) := by
  refine stays_bind (moves_ite (fun _ => stays_pure _) fun _ => ?_) fun stop => ?_
  · exact moves_loop steps_refl steps_trans (stays_importRound visit hfit rounds _) rounds 0
  refine moves_ite (fun _ => stays_pure _) fun _ => ?_
  refine stays_bind (moves_ite (fun _ => stays_pure _) fun _ => ?_) fun _ => stays_pure _
  exact moves_loop steps_refl steps_trans (stays_delayRound visit hfit rounds _ _) rounds 0

theorem stays_exportTable (exports : PeDataDirectory) :
    Stays Eq (Event.InImage (mappedImage m base headers))
      (exportTable host (mappedImage m base headers) exports) :=
  moves_ite (fun _ => stays_throw _) fun _ =>
    stays_bind (stays_read32 hfit _) fun _ => stays_bind (stays_read32 hfit _) fun _ =>
    stays_bind (stays_read32 hfit _) fun _ => stays_bind (stays_read32 hfit _) fun _ =>
    stays_bind (stays_read32 hfit _) fun _ => stays_bind (stays_read32 hfit _) fun _ => stays_pure _

theorem stays_exportAt (exports : PeDataDirectory) (table : ExportTable) (index : U32) :
    Stays Eq (Event.InImage (mappedImage m base headers))
      (exportAt host (mappedImage m base headers) exports table index) :=
  moves_ite (fun _ => stays_throw _) fun _ => stays_bind (stays_read32 hfit _) fun _ =>
    moves_ite (fun _ => stays_throw _) fun _ =>
      moves_ite (fun _ => stays_bind (stays_rvaString hfit _) fun _ => stays_pure _)
        fun _ => stays_pure _

theorem stays_nameRound (table : ExportTable) (symbol : List U8) (i : Nat) :
    Stays Eq (Event.InImage (mappedImage m base headers))
      (nameRound host (mappedImage m base headers) table symbol i) :=
  stays_bind (stays_read32 hfit _) fun _ => stays_bind (stays_read16 hfit _) fun _ =>
    stays_bind (stays_rvaString hfit _) fun _ => stays_pure _

theorem stays_exportByName (symbol : List U8) :
    Stays Eq (Event.InImage (mappedImage m base headers))
      (exportByName host m base headers symbol) := by
  refine stays_bind (stays_exportTable hfit _) fun table => ?_
  refine stays_bind (moves_scan steps_refl steps_trans
    fun i _ _ => stays_nameRound hfit table symbol i) fun found => ?_
  cases found with
  | none => exact stays_throw _
  | some index => exact stays_exportAt hfit _ _ _

theorem stays_exportByOrdinal (ordinal : U16) :
    Stays Eq (Event.InImage (mappedImage m base headers))
      (exportByOrdinal host m base headers ordinal) :=
  stays_bind (stays_exportTable hfit _) fun _ =>
    moves_ite (fun _ => stays_throw _) fun _ => stays_exportAt hfit _ _ _

theorem stays_tlsDirectory :
    Stays Eq (Event.InImage (mappedImage m base headers)) (tlsDirectory host m base headers) :=
  moves_ite (fun _ => stays_throw _) fun _ =>
    stays_bind (stays_read32 hfit _) fun _ => stays_bind (stays_read32 hfit _) fun _ =>
    stays_bind (stays_read32 hfit _) fun _ => stays_bind (stays_read32 hfit _) fun _ =>
    stays_bind (stays_read32 hfit _) fun _ =>
      moves_ite (fun _ => stays_throw _) fun _ => stays_pure _

end Tables

/-! ## What a walk reads -/

section Values

variable {W : Type} {host : W → Host} {image : Image} {h : Host}

/-- The guest memory is still the one of the start. -/
abbrev Holding (host : W → Host) (h : Host) (s : WalkState W) : Prop := host s.world = h

theorem yields_readImage (rva : U32) (w : Width) :
    Yields (Holding host h) (readImage host image rva w)
      fun v => imageRead image h rva w = some v := by
  intro s v t hs hrun
  unfold readImage at hrun
  split_ifs at hrun with hin
  cases hread : imageRead image (host s.world) rva w with
  | none =>
    rw [hread] at hrun
    cases hrun
  | some value =>
    rw [hread] at hrun
    cases hrun
    exact ⟨hs, hs ▸ hread⟩

theorem yields_walk32 (rva : U32) :
    Yields (Holding host h) (walk32 host image rva) fun v => rva32 image h rva = some v :=
  yields_readImage rva .dword

theorem yields_walk16 (rva : U32) :
    Yields (Holding host h) (walk16 host image rva) fun v => rva16 image h rva = some v := by
  refine yields_bind (yields_readImage rva .word) fun wide hwide => yields_pure ?_
  unfold rva16
  rw [hwide]
  rfl

end Values

/-! ## Walks of the resource tree -/

section Tree

variable {W : Type} {host : W → Host} {image : Image} {tree : ResourceTree} {h : Host}

theorem ResourceTree.holds_iff {rva size : U32} : tree.holds rva size = true ↔
    rva ≥ tree.root ∧ (rva - tree.root).toNat + size.toNat ≤ tree.size.toNat := by
  unfold ResourceTree.holds
  simp only [Bool.and_eq_true, decide_eq_true_eq]
  bv_omega

theorem inTree_read {rva n k : U32} {w : Width} (hin : tree.holds rva n)
    (hk : k.toNat + w.bytes ≤ n.toNat) :
    Event.InTree image tree (.read (image.base + (rva + k)) w) := by
  obtain ⟨hroot, hroom⟩ := ResourceTree.holds_iff.mp hin
  have hlt := tree.size.isLt
  have hpos : 0 < w.bytes := by cases w <;> decide
  unfold Event.InTree
  bv_omega

theorem inTree_first {rva n : U32} {w : Width} (hin : tree.holds rva n) (hw : w.bytes ≤ n.toNat) :
    Event.InTree image tree (.read (image.base + rva) w) := by
  have hfirst := @inTree_read image tree rva n 0 w hin (by simpa using hw)
  rwa [show rva + 0 = rva from BitVec.add_zero rva] at hfirst

/-- The number of entries of a directory, all of which lie in the tree. -/
structure EntryCount (image : Image) (h : Host) (tree : ResourceTree) (dir count : U32) : Prop where
  header : tree.holds dir 16
  entries : tree.holds (dir + 16) (count * 8)
  read : ∃ named ids, rva16 image h (dir + 12) = some named ∧ rva16 image h (dir + 14) = some ids ∧
    count = named.setWidth 32 + ids.setWidth 32

theorem EntryCount.lt {dir count : U32} (hc : EntryCount image h tree dir count) :
    count.toNat < 2 ^ 17 := by
  obtain ⟨named, ids, -, -, rfl⟩ := hc.read
  have hn := named.isLt
  have hi := ids.isLt
  rw [BitVec.toNat_add, BitVec.toNat_setWidth, BitVec.toNat_setWidth]
  omega

theorem yields_resourceEntries (dir : U32) :
    Yields (Holding host h) (resourceEntries host image tree dir)
      fun count => EntryCount image h tree dir count := by
  refine yields_ite (fun _ => yields_throw _) fun hheader => ?_
  refine yields_bind (yields_walk16 _) fun named hnamed => ?_
  refine yields_bind (yields_walk16 _) fun ids hids => ?_
  refine yields_ite (fun _ => yields_throw _) fun hentries => yields_pure ?_
  exact ⟨by simpa using hheader, by simpa using hentries, named, ids, hnamed, hids, rfl⟩

/-- The two fields of an entry lie in the tree. -/
theorem inTree_entry {dir count : U32} (hc : EntryCount image h tree dir count) {i : Nat}
    (hi : i < count.toNat) :
    Event.InTree image tree (.read (image.base + resourceEntry dir i) .dword) ∧
      Event.InTree image tree (.read (image.base + (resourceEntry dir i + 4)) .dword) := by
  have hlt := hc.lt
  have hbytes : (count * 8).toNat = 8 * count.toNat := by
    rw [BitVec.toNat_mul]
    change count.toNat * 8 % 2 ^ 32 = _
    omega
  have hoffset : (BitVec.ofNat 32 i * 8).toNat = 8 * i := by
    rw [BitVec.toNat_mul, BitVec.toNat_ofNat]
    change i % 2 ^ 32 * 8 % 2 ^ 32 = _
    omega
  refine ⟨inTree_read hc.entries ?_, ?_⟩
  · rw [hoffset, hbytes]
    change 8 * i + 4 ≤ _
    omega
  · have hnext : (BitVec.ofNat 32 i * 8 + 4).toNat = 8 * i + 4 := by
      rw [BitVec.toNat_add, hoffset]
      change (8 * i + 4) % 2 ^ 32 = _
      omega
    unfold resourceEntry
    rw [BitVec.add_assoc (dir + 16)]
    refine inTree_read hc.entries ?_
    rw [hnext, hbytes]
    change 8 * i + 4 + 4 ≤ _
    omega

variable (hfit : image.base.toNat + image.size.toNat ≤ 2 ^ 32)
include hfit

theorem stays_tree16 {rva : U32} (hin : Event.InTree image tree (.read (image.base + rva) .word)) :
    Stays Eq (Event.InResources image tree) (walk16 host image rva) :=
  stays_walk16 fun hle hroom => ⟨inImage_read hfit hle hroom, hin⟩

theorem stays_tree32 {rva : U32} (hin : Event.InTree image tree (.read (image.base + rva) .dword)) :
    Stays Eq (Event.InResources image tree) (walk32 host image rva) :=
  stays_walk32 fun hle hroom => ⟨inImage_read hfit hle hroom, hin⟩

theorem stays_resourceEntries (dir : U32) :
    Stays Eq (Event.InResources image tree) (resourceEntries host image tree dir) := by
  refine moves_ite (fun _ => stays_throw _) fun hin => ?_
  have hin : tree.holds dir 16 := by simpa using hin
  refine stays_bind (stays_tree16 hfit (inTree_read hin (by decide))) fun named => ?_
  refine stays_bind (stays_tree16 hfit (inTree_read hin (by decide))) fun ids => ?_
  exact moves_ite (fun _ => stays_throw _) fun _ => stays_pure _

theorem stays_nameUnits (name : ResourceName) {at_ : U32} {length : U16}
    (hin : tree.holds (at_ + 2) (2 * length.setWidth 32)) :
    Stays Eq (Event.InResources image tree) (nameUnits host image name at_ length.toNat) := by
  refine moves_scan steps_refl steps_trans fun i _ hi => ?_
  refine stays_bind (stays_tree16 hfit (inTree_read hin ?_)) fun unit => stays_pure _
  have hlen := length.isLt
  rw [BitVec.toNat_mul, BitVec.toNat_mul, BitVec.toNat_ofNat, BitVec.toNat_setWidth]
  change 2 * (i % 2 ^ 32) % 2 ^ 32 + 2 ≤ 2 * (length.toNat % 2 ^ 32) % 2 ^ 32
  omega

theorem stays_resourceNameMatches (field : U32) (key : PeResourceKey) :
    Stays Eq (Event.InResources image tree) (resourceNameMatches host image tree field key) := by
  refine moves_ite (fun _ => stays_pure _) fun _ => ?_
  cases key.name with
  | none => exact stays_pure _
  | some name =>
    refine moves_ite (fun _ => stays_throw _) fun hin => ?_
    have hin : tree.holds (tree.atOffset field) 2 := by simpa using hin
    refine stays_bind (stays_tree16 hfit (inTree_first hin (by decide))) fun length => ?_
    refine moves_ite (fun _ => stays_throw _) fun hunits => ?_
    have hunits : tree.holds (tree.atOffset field + 2) (2 * length.setWidth 32) := by
      simpa using hunits
    exact stays_bind (stays_nameUnits hfit name hunits) fun _ => stays_pure _

theorem stays_resourceSubtree (dir : U32) (key : PeResourceKey) :
    Stays Eq (Event.InResources image tree) (resourceSubtree host image tree dir key) := by
  refine moves_bind steps_trans (stays_resourceEntries hfit dir) fun s count t hrun => ?_
  have hc := (yields_resourceEntries dir s count t rfl hrun).2
  refine stays_bind (moves_scan steps_refl steps_trans fun i _ hi => ?_) fun found => ?_
  · obtain ⟨hfield, hoffset⟩ := inTree_entry hc (show i < count.toNat by omega)
    refine stays_bind (stays_tree32 hfit hfield) fun field => ?_
    refine stays_bind (stays_tree32 hfit hoffset) fun offset => ?_
    refine stays_bind (stays_resourceNameMatches hfit field key) fun same => ?_
    exact moves_ite (fun _ => stays_pure _) fun _ =>
      moves_ite (fun _ => stays_throw _) fun _ => stays_pure _
  · cases found with
    | none => exact stays_throw _
    | some subtree => exact stays_pure _

theorem stays_resourceLanguage (dir : U32) :
    Stays Eq (Event.InResources image tree) (resourceLanguage host image tree dir) := by
  refine moves_bind steps_trans (stays_resourceEntries hfit dir) fun s count t hrun => ?_
  have hc := (yields_resourceEntries dir s count t rfl hrun).2
  refine stays_bind (moves_fold steps_refl steps_trans (fun i best _ hi => ?_) none) fun best => ?_
  · obtain ⟨hlanguage, hoffset⟩ := inTree_entry hc (show i < count.toNat by omega)
    refine stays_bind (stays_tree32 hfit hlanguage) fun language => ?_
    refine stays_bind (stays_tree32 hfit hoffset) fun offset => ?_
    exact moves_ite (fun _ => stays_throw _) fun _ => stays_pure _
  · cases best with
    | none => exact stays_throw _
    | some b => exact stays_pure _

theorem stays_resourceData (entry : U32) :
    Stays Eq (Event.InResources image tree) (resourceData host image tree entry) := by
  refine moves_ite (fun _ => stays_throw _) fun hin => ?_
  have hin : tree.holds entry 16 := by simpa using hin
  refine stays_bind (stays_tree32 hfit (inTree_first hin (by decide))) fun data => ?_
  refine stays_bind (stays_tree32 hfit (inTree_read hin (by decide))) fun size => ?_
  exact moves_ite (fun _ => stays_throw _) fun _ => stays_pure _

end Tree

section

variable {W : Type} {host : W → Host} {m : Mem} {base : U32} {headers : PeHeaders}
  (hfit : base.toNat + headers.sizeOfImage.toNat ≤ 2 ^ 32)
include hfit

/-- A resource is found by reads of the resource directory, and no name buffer. -/
theorem stays_resource (type name : PeResourceKey) :
    Stays Eq (Event.InResources (mappedImage m base headers) (resourceTree headers))
      (resource host m base headers type name) := by
  refine moves_ite (fun _ => stays_throw _) fun _ => ?_
  refine stays_bind (stays_resourceSubtree hfit _ type) fun types => ?_
  refine stays_bind (stays_resourceSubtree hfit types name) fun languages => ?_
  exact stays_bind (stays_resourceLanguage hfit languages) fun entry =>
    stays_resourceData hfit entry

theorem stays_resourceAt (entry : U32) :
    Stays Eq (Event.InResources (mappedImage m base headers) (resourceTree headers))
      (resourceAt host m base headers entry) :=
  moves_ite (fun _ => stays_throw _) fun _ => stays_resourceData hfit _

end

end X86Port.Pe
