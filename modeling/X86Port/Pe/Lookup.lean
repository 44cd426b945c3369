import X86Port.Pe.TableEnds

/-!
# What the lookups find

The exports and the resources in terms of the tables themselves, without the walk.

* `NamedExport`: the export that the ordinal-table index of the first such name selects.
* `Subtree`, `BestLanguage`, `IsResource`: the entries on the way to a resource.
* `yields_exportByName`, `yields_resource`: the walks find these.
-/

namespace X86Port.Pe

open Cpu (Width)
open Lib.Runs
open Memory (Mem Host)

/-! ## Strings -/

section Strings

variable (image : Image) (h : Host)

/-- The characters from the `i`-th on, and the zero behind them. -/
structure CharsFrom (rva : U32) (i : Nat) (l : List U8) : Prop where
  chars : ∀ j < l.length, ∃ byte, byte ≠ 0 ∧ l[j]? = some (byte.setWidth 8) ∧
    imageRead image h (rva + BitVec.ofNat 32 (i + j)) .byte = some byte
  terminated : imageRead image h (rva + BitVec.ofNat 32 (i + l.length)) .byte = some 0

/-- A string of the image that fits a name buffer. -/
def StringAt (rva : U32) (l : List U8) : Prop := l.length < maxName ∧ CharsFrom image h rva 0 l

end Strings

section

variable {W : Type} {host : W → Host} {image : Image} {h : Host}

theorem yields_stringFrom (rva : U32) : ∀ n i,
    Yields (Holding host h) (stringFrom host image rva n i)
      fun l => l.length < n ∧ CharsFrom image h rva i l := by
  intro n
  induction n with
  | zero => exact fun _ => yields_throw _
  | succ n ih =>
    intro i
    refine yields_bind (yields_readImage _ _) fun byte hbyte => ?_
    refine yields_bind (P := fun _ => True) (fun s a t hs hrun => ?_) fun _ _ => ?_
    · cases hrun
      exact ⟨hs, trivial⟩
    refine yields_ite (fun hzero => yields_pure ?_) fun hne => ?_
    · exact ⟨Nat.zero_lt_succ n, fun j hj => absurd hj (Nat.not_lt_zero j), hzero ▸ hbyte⟩
    · refine yields_bind (ih (i + 1)) fun rest ⟨hlen, hchars⟩ => yields_pure ?_
      refine ⟨Nat.succ_lt_succ hlen, fun j hj => ?_, ?_⟩
      · cases j with
        | zero => exact ⟨byte, hne, rfl, hbyte⟩
        | succ j =>
          have := hchars.chars j (Nat.lt_of_succ_lt_succ hj)
          rwa [Nat.add_assoc, Nat.add_comm 1] at this
      · have := hchars.terminated
        rwa [Nat.add_assoc, Nat.add_comm 1] at this

theorem yields_rvaString (rva : U32) :
    Yields (Holding host h) (rvaString host image rva) (StringAt image h rva) :=
  yields_stringFrom rva maxName 0

end

/-! ## Exports -/

section Exports

variable (image : Image) (h : Host) (exports : PeDataDirectory)

structure ExportTableAt (table : ExportTable) : Prop where
  present : exports.size ≠ 0
  ordinalBase : rva32 image h (exports.rva + 16) = some table.ordinalBase
  functionCount : rva32 image h (exports.rva + 20) = some table.functionCount
  nameCount : rva32 image h (exports.rva + 24) = some table.nameCount
  functions : rva32 image h (exports.rva + 28) = some table.functions
  names : rva32 image h (exports.rva + 32) = some table.names
  ordinals : rva32 image h (exports.rva + 36) = some table.ordinals

/-- The export of an index: a forwarder when its RVA lies in the export directory, and else an
address. -/
structure ExportAt (table : ExportTable) (index : U32) (out : PeExport) : Prop where
  listed : index < table.functionCount
  selected : ∃ rva, rva32 image h (table.functions + index * 4) = some rva ∧ rva ≠ 0 ∧
    if exports.Holds rva then ∃ text, StringAt image h rva text ∧ out = ⟨0, text⟩
    else out = ⟨image.base + rva, []⟩

/-- Name `i` of the table, and its entry in the ordinal table. -/
def NameAt (table : ExportTable) (i : Nat) (name : List U8) (index : U16) : Prop :=
  ∃ nameRva, rva32 image h (table.names + BitVec.ofNat 32 i * 4) = some nameRva ∧
    rva16 image h (table.ordinals + BitVec.ofNat 32 i * 2) = some index ∧
      StringAt image h nameRva name

/-- The export that the ordinal-table index of the first such name selects. -/
def NamedExport (symbol : List U8) (out : PeExport) : Prop :=
  ∃ table, ExportTableAt image h exports table ∧ ∃ i < table.nameCount.toNat, ∃ index,
    NameAt image h table i symbol index ∧
      (∀ j < i, ∃ name index, NameAt image h table j name index ∧ name ≠ symbol) ∧
        ExportAt image h exports table (index.setWidth 32) out

end Exports

section

variable {W : Type} {host : W → Host} {image : Image} {h : Host} {exports : PeDataDirectory}

theorem yields_exportTable :
    Yields (Holding host h) (exportTable host image exports) (ExportTableAt image h exports) := by
  refine yields_ite (fun _ => yields_throw _) fun hsize => ?_
  refine yields_bind (yields_walk32 _) fun _ h16 => yields_bind (yields_walk32 _) fun _ h20 => ?_
  refine yields_bind (yields_walk32 _) fun _ h24 => yields_bind (yields_walk32 _) fun _ h28 => ?_
  refine yields_bind (yields_walk32 _) fun _ h32 => yields_bind (yields_walk32 _) fun _ h36 => ?_
  exact yields_pure ⟨hsize, h16, h20, h24, h28, h32, h36⟩

theorem yields_exportAt (table : ExportTable) (index : U32) :
    Yields (Holding host h) (exportAt host image exports table index)
      (ExportAt image h exports table index) := by
  refine yields_ite (fun _ => yields_throw _) fun hlisted => ?_
  have hlisted : index < table.functionCount := by simpa using hlisted
  refine yields_bind (yields_walk32 _) fun rva hrva => ?_
  refine yields_ite (fun _ => yields_throw _) fun hne => ?_
  refine yields_ite (fun hin => ?_) fun hout => ?_
  · refine yields_bind (yields_rvaString rva) fun text htext => yields_pure ?_
    exact ⟨hlisted, rva, hrva, hne, by rw [if_pos hin]; exact ⟨text, htext, rfl⟩⟩
  · exact yields_pure ⟨hlisted, rva, hrva, hne, by rw [if_neg hout]⟩

theorem yields_nameRound (table : ExportTable) (symbol : List U8) (i : Nat) :
    Yields (Holding host h) (nameRound host image table symbol i) fun found =>
      match found with
      | some index => NameAt image h table i symbol index
      | none => ∃ name index, NameAt image h table i name index ∧ name ≠ symbol := by
  refine yields_bind (yields_walk32 _) fun nameRva hrva => ?_
  refine yields_bind (yields_walk16 _) fun index hindex => ?_
  refine yields_bind (yields_rvaString _) fun name hname => yields_pure ?_
  have hat : NameAt image h table i name index := ⟨nameRva, hrva, hindex, hname⟩
  by_cases heq : name = symbol
  · rw [if_pos heq]
    exact heq ▸ hat
  · rw [if_neg heq]
    exact ⟨name, index, hat, heq⟩

end

theorem yields_exportByName {W : Type} {host : W → Host} {h : Host} (m : Mem) (base : U32)
    (headers : PeHeaders) (symbol : List U8) :
    Yields (Holding host h) (exportByName host m base headers symbol)
      (NamedExport (mappedImage m base headers) h (headers.directory dirExport) symbol) := by
  refine yields_bind yields_exportTable fun table htable => ?_
  refine yields_bind (yields_scan (yields_nameRound table symbol) _ 0) fun found hfound => ?_
  cases found with
  | none => exact yields_throw _
  | some index =>
    obtain ⟨i, hi, hat, hbefore⟩ := hfound
    simp only [Nat.zero_add] at hat hbefore
    exact (yields_exportAt table _).mono fun out hout =>
      ⟨table, htable, i, hi, index, hat, hbefore, hout⟩

theorem yields_exportByOrdinal {W : Type} {host : W → Host} {h : Host} (m : Mem) (base : U32)
    (headers : PeHeaders) (ordinal : U16) :
    Yields (Holding host h) (exportByOrdinal host m base headers ordinal) fun out =>
      ∃ table, ExportTableAt (mappedImage m base headers) h (headers.directory dirExport) table ∧
        table.ordinalBase ≤ ordinal.setWidth 32 ∧
          ExportAt (mappedImage m base headers) h (headers.directory dirExport) table
            (ordinal.setWidth 32 - table.ordinalBase) out := by
  refine yields_bind yields_exportTable fun table htable => ?_
  refine yields_ite (fun _ => yields_throw _) fun hge => ?_
  have hge : table.ordinalBase ≤ ordinal.setWidth 32 := by simpa using hge
  exact (yields_exportAt table _).mono fun out hout => ⟨table, htable, hge, hout⟩

/-! ## Resources -/

section Resources

variable (image : Image) (h : Host) (tree : ResourceTree)

/-- The units of a name in the tree are those of the key, without regard to ASCII case. -/
structure SameUnits (name : ResourceName) (at_ : U32) : Prop where
  length : ∃ length, rva16 image h at_ = some length ∧ length.toNat = name.units.length
  units : ∀ i < name.units.length, ∃ unit,
    rva16 image h (at_ + 2 + 2 * BitVec.ofNat 32 i) = some unit ∧
      asciiUpper (name.units.getD i 0) = asciiUpper unit

/-- A name field of an entry names the key. -/
def NameMatches (field : U32) (key : PeResourceKey) : Prop :=
  match key.name with
  | none => isSubtree field = false ∧ field = key.id.setWidth 32
  | some name => isSubtree field = true ∧ SameUnits image h name (tree.atOffset field)

/-- The name and offset fields of entry `i`. -/
structure EntryAt (dir : U32) (i : Nat) (field offset : U32) : Prop where
  field : rva32 image h (resourceEntry dir i) = some field
  offset : rva32 image h (resourceEntry dir i + 4) = some offset

/-- The subdirectory of the first entry that matches. -/
def Subtree (dir : U32) (key : PeResourceKey) (subtree : U32) : Prop :=
  ∃ count, EntryCount image h tree dir count ∧ ∃ i < count.toNat,
    (∀ j < i, ∃ field offset, EntryAt image h dir j field offset ∧
      ¬ NameMatches image h tree field key) ∧
    ∃ field offset, EntryAt image h dir i field offset ∧ NameMatches image h tree field key ∧
      isSubtree offset = true ∧ subtree = tree.atOffset offset

/-- The first entry of the best rank among the first `n`. -/
def BestOf (dir : U32) (n : Nat) (rank : Nat) (entry : U32) : Prop :=
  ∃ i < n, ∃ language offset, EntryAt image h dir i language offset ∧
    rank = languageRank language ∧ entry = tree.root + offset ∧
    (∀ j < n, ∀ other, rva32 image h (resourceEntry dir j) = some other →
      languageRank other ≤ rank) ∧
    ∀ j < i, ∀ other, rva32 image h (resourceEntry dir j) = some other → languageRank other < rank

/-- The data entry of the best-ranked language, the first one of its rank. -/
def BestLanguage (dir entry : U32) : Prop :=
  ∃ count, EntryCount image h tree dir count ∧
    (∀ j < count.toNat, ∃ language offset, EntryAt image h dir j language offset ∧
      isSubtree offset = false) ∧
    ∃ rank, BestOf image h tree dir count.toNat rank entry

/-- The resource of a data entry of the tree, which lies wholly inside the image. -/
structure DataOf (entry : U32) (out : PeResource) : Prop where
  held : tree.holds entry 16
  fields : ∃ data, rva32 image h entry = some data ∧ rva32 image h (entry + 4) = some out.size ∧
    out.data = image.base + data
  address : out.entry = image.base + entry
  inside : image.base.toNat ≤ out.data.toNat ∧
    out.data.toNat + out.size.toNat ≤ image.base.toNat + image.size.toNat

/-- The data entry that the first type entry, the first name entry and the best language reach. -/
def IsResource (type name : PeResourceKey) (out : PeResource) : Prop :=
  ∃ types languages entry, Subtree image h tree tree.root type types ∧
    Subtree image h tree types name languages ∧ BestLanguage image h tree languages entry ∧
      DataOf image h tree entry out

end Resources

section

variable {W : Type} {host : W → Host} {image : Image} {h : Host} {tree : ResourceTree}

theorem getD_eq_zero (name : ResourceName) (i : Nat) :
    name.units.getD i 0 = 0 ↔ name.units.length ≤ i := by
  refine ⟨fun hzero => ?_, fun hle => ?_⟩
  · by_contra hlt
    have hlt := Nat.lt_of_not_le hlt
    rw [List.getD_eq_getElem _ _ hlt] at hzero
    exact name.nonzero (hzero ▸ List.getElem_mem hlt)
  · rw [List.getD_eq_getElem?_getD, List.getElem?_eq_none hle]
    rfl

/-- The scan stops at the first unit at which the key has ended or differs. -/
theorem yields_nameUnits (name : ResourceName) (at_ : U32) (length : Nat) :
    Yields (Holding host h) (nameUnits host image name at_ length) fun differs =>
      match differs with
      | some _ => ∃ i < length, ∃ unit,
          rva16 image h (at_ + 2 + 2 * BitVec.ofNat 32 i) = some unit ∧
            (name.units.length ≤ i ∨ asciiUpper (name.units.getD i 0) ≠ asciiUpper unit)
      | none => ∀ i < length, ∃ unit,
          rva16 image h (at_ + 2 + 2 * BitVec.ofNat 32 i) = some unit ∧ i < name.units.length ∧
            asciiUpper (name.units.getD i 0) = asciiUpper unit := by
  refine (yields_scan (P := fun i differs => ∃ unit,
    rva16 image h (at_ + 2 + 2 * BitVec.ofNat 32 i) = some unit ∧
      (differs = some () ↔ name.units.length ≤ i ∨
        asciiUpper (name.units.getD i 0) ≠ asciiUpper unit)) (fun i => ?_) length 0).mono
    fun differs hdiffers => ?_
  · refine yields_bind (yields_walk16 _) fun unit hunit => yields_pure ⟨unit, hunit, ?_⟩
    rw [← getD_eq_zero]
    split_ifs with hd
    · simpa using hd
    · simpa using hd
  · cases differs with
    | some u =>
      obtain ⟨i, hi, ⟨unit, hunit, hiff⟩, -⟩ := hdiffers
      rw [Nat.zero_add] at hunit hiff
      exact ⟨i, hi, unit, hunit, hiff.mp rfl⟩
    | none =>
      intro i hi
      obtain ⟨unit, hunit, hiff⟩ := hdiffers i hi
      rw [Nat.zero_add] at hunit hiff
      have hnot := mt hiff.mpr nofun
      push Not at hnot
      exact ⟨unit, hunit, hnot⟩

theorem yields_resourceNameMatches (field : U32) (key : PeResourceKey) :
    Yields (Holding host h) (resourceNameMatches host image tree field key)
      fun same => same = true ↔ NameMatches image h tree field key := by
  unfold NameMatches
  refine yields_ite (fun hid => yields_pure ?_) fun hsub => ?_
  · have hid : isSubtree field = false := by simpa using hid
    cases key.name with
    | none => simp [hid]
    | some name => simp [hid]
  have hsub : isSubtree field = true := by simpa using hsub
  cases key.name with
  | none => exact yields_pure (by simp [hsub])
  | some name =>
    refine yields_ite (fun _ => yields_throw _) fun _ => ?_
    refine yields_bind (yields_walk16 _) fun length hlength => ?_
    refine yields_ite (fun _ => yields_throw _) fun _ => ?_
    refine yields_bind (yields_nameUnits name _ _) fun differs hdiffers => yields_pure ?_
    cases differs with
    | some u =>
      obtain ⟨i, hi, unit, hunit, hd⟩ := hdiffers
      refine iff_of_false (by simp) fun hm => ?_
      obtain ⟨-, ⟨length', hread, hlen⟩, hunits⟩ := hm
      obtain rfl := Option.some.inj (hlength.symm.trans hread)
      obtain ⟨unit', hunit', hsame⟩ := hunits i (by omega)
      obtain rfl := Option.some.inj (hunit.symm.trans hunit')
      obtain hle | hne := hd
      · omega
      · exact hne hsame
    | none =>
      have hends : (name.units.getD length.toNat 0 = 0) ↔ length.toNat = name.units.length := by
        rw [getD_eq_zero]
        refine ⟨fun hle => Nat.le_antisymm ?_ hle, fun heq => heq.ge⟩
        by_contra hlt
        obtain ⟨-, -, hi, -⟩ := hdiffers name.units.length (Nat.lt_of_not_le hlt)
        exact Nat.lt_irrefl _ hi
      simp only [Option.isNone_none, Bool.true_and, decide_eq_true_eq, hends, hsub, true_and]
      refine ⟨fun heq => ⟨⟨length, hlength, heq⟩, fun i hi => ?_⟩, fun hm => ?_⟩
      · obtain ⟨unit, hunit, -, hsame⟩ := hdiffers i (by omega)
        exact ⟨unit, hunit, hsame⟩
      · obtain ⟨⟨length', hread, hlen⟩, -⟩ := hm
        obtain rfl := Option.some.inj (hlength.symm.trans hread)
        exact hlen

/-- The entry `i` of a directory was read, and what it says of the key. -/
def EntrySays (image : Image) (h : Host) (tree : ResourceTree) (dir : U32) (key : PeResourceKey)
    (i : Nat) (found : Option U32) : Prop :=
  ∃ field offset, EntryAt image h dir i field offset ∧
    match found with
    | none => ¬ NameMatches image h tree field key
    | some subtree => NameMatches image h tree field key ∧ isSubtree offset = true ∧
        subtree = tree.atOffset offset

theorem yields_resourceSubtree (dir : U32) (key : PeResourceKey) :
    Yields (Holding host h) (resourceSubtree host image tree dir key)
      (Subtree image h tree dir key) := by
  refine yields_bind (yields_resourceEntries dir) fun count hcount => ?_
  refine yields_bind (yields_scan (P := EntrySays image h tree dir key) (fun i => ?_) _ 0)
    fun found hfound => ?_
  · refine yields_bind (yields_walk32 _) fun field hfield => ?_
    refine yields_bind (yields_walk32 _) fun offset hoffset => ?_
    refine yields_bind (yields_resourceNameMatches field key) fun same hsame => ?_
    refine yields_ite (fun hno => yields_pure ?_) fun hyes => ?_
    · exact ⟨field, offset, ⟨hfield, hoffset⟩, fun hm => by simp [hsame.mpr hm] at hno⟩
    refine yields_ite (fun _ => yields_throw _) fun hsub => yields_pure ?_
    exact ⟨field, offset, ⟨hfield, hoffset⟩, hsame.mp (by simpa using hyes), by simpa using hsub,
      rfl⟩
  · cases found with
    | none => exact yields_throw _
    | some subtree =>
      obtain ⟨i, hi, ⟨field, offset, hat, hm, hsub, heq⟩, hbefore⟩ := hfound
      simp only [Nat.zero_add] at hat hbefore
      exact yields_pure ⟨count, hcount, i, hi, hbefore, field, offset, hat, hm, hsub, heq⟩

/-- The entries read so far, and the best of them. -/
def LanguagesRead (image : Image) (h : Host) (tree : ResourceTree) (dir : U32) (n : Nat)
    (best : Option (Nat × U32)) : Prop :=
  (∀ j < n, ∃ language offset, EntryAt image h dir j language offset ∧ isSubtree offset = false) ∧
    match best with
    | none => n = 0
    | some (rank, entry) => BestOf image h tree dir n rank entry

theorem bestOf_next {dir : U32} {n : Nat} {language offset : U32}
    (hat : EntryAt image h dir n language offset) {best : Option (Nat × U32)}
    (hbest : LanguagesRead image h tree dir n best) :
    if ∀ b ∈ best, languageRank language > b.1 then
      BestOf image h tree dir (n + 1) (languageRank language) (tree.root + offset)
    else ∃ b, best = some b ∧ BestOf image h tree dir (n + 1) b.1 b.2 := by
  have hsame : ∀ other, rva32 image h (resourceEntry dir n) = some other → other = language :=
    fun other hother => Option.some.inj (hother.symm.trans hat.field)
  have hlast : ∀ j < n + 1, j < n ∨ j = n := fun j hj => by omega
  split_ifs with hgt
  · refine ⟨n, Nat.lt_succ_self n, language, offset, hat, rfl, rfl, fun j hj other hother => ?_,
      fun j hj other hother => ?_⟩
    · obtain hj | rfl := hlast j hj
      · cases best with
        | none =>
          have hzero : n = 0 := hbest.2
          omega
        | some b =>
          obtain ⟨-, -, -, -, -, -, -, hle, -⟩ := hbest.2
          exact Nat.le_of_lt (Nat.lt_of_le_of_lt (hle j hj other hother) (hgt b rfl))
      · exact (congrArg languageRank (hsame other hother)).le
    · cases best with
      | none =>
        have hzero : n = 0 := hbest.2
        omega
      | some b =>
        obtain ⟨-, -, -, -, -, -, -, hle, -⟩ := hbest.2
        exact Nat.lt_of_le_of_lt (hle j hj other hother) (hgt b rfl)
  · cases best with
    | none => exact absurd (fun b hb => nomatch hb) hgt
    | some b =>
      obtain ⟨i, hi, first, entry, hfirst, hrank, hentry, hle, hlt⟩ := hbest.2
      refine ⟨b, rfl, i, by omega, first, entry, hfirst, hrank, hentry,
        fun j hj other hother => ?_, hlt⟩
      obtain hj | rfl := hlast j hj
      · exact hle j hj other hother
      · have hnot : ¬ languageRank language > b.1 := fun h => hgt fun c hc => by
          obtain rfl := Option.mem_some_iff.mp hc
          exact h
        rw [hsame other hother]
        omega

theorem yields_resourceLanguage (dir : U32) :
    Yields (Holding host h) (resourceLanguage host image tree dir)
      (BestLanguage image h tree dir) := by
  refine yields_bind (yields_resourceEntries dir) fun count hcount => ?_
  refine yields_bind (yields_fold (P := LanguagesRead image h tree dir) (fun i best hbest => ?_)
    count.toNat 0 ⟨fun j hj => absurd hj (Nat.not_lt_zero j), rfl⟩) fun best hbest => ?_
  · refine yields_bind (yields_walk32 _) fun language hlanguage => ?_
    refine yields_bind (yields_walk32 _) fun offset hoffset => ?_
    refine yields_ite (fun _ => yields_throw _) fun hleaf => yields_pure ?_
    have hat : EntryAt image h dir i language offset := ⟨hlanguage, hoffset⟩
    have hread : ∀ j < i + 1, ∃ language offset, EntryAt image h dir j language offset ∧
        isSubtree offset = false := fun j hj => by
      obtain hj | rfl : j < i ∨ j = i := by omega
      · exact hbest.1 j hj
      · exact ⟨language, offset, hat, by simpa using hleaf⟩
    have hnext := bestOf_next hat hbest
    split_ifs at hnext ⊢ with hgt
    · exact ⟨hread, hnext⟩
    · obtain ⟨b, rfl, hb⟩ := hnext
      exact ⟨hread, hb⟩
  · rw [Nat.zero_add] at hbest
    cases best with
    | none => exact yields_throw _
    | some b => exact yields_pure ⟨count, hcount, hbest.1, b.1, hbest.2⟩

theorem imageHolds_iff {va size : U32} : imageHolds image va size = true ↔
    image.base.toNat ≤ va.toNat ∧
      va.toNat + size.toNat ≤ image.base.toNat + image.size.toNat := by
  unfold imageHolds
  simp only [Bool.and_eq_true, decide_eq_true_eq]
  bv_omega

theorem yields_resourceData (entry : U32) :
    Yields (Holding host h) (resourceData host image tree entry) (DataOf image h tree entry) := by
  refine yields_ite (fun _ => yields_throw _) fun hheld => ?_
  refine yields_bind (yields_walk32 _) fun data hdata => ?_
  refine yields_bind (yields_walk32 _) fun size hsize => ?_
  refine yields_ite (fun _ => yields_throw _) fun hholds => yields_pure ?_
  exact ⟨by simpa using hheld, ⟨data, hdata, hsize, rfl⟩, rfl,
    imageHolds_iff.mp (by simpa using hholds)⟩

end

section

variable {W : Type} {host : W → Host} {h : Host} (m : Mem) (base : U32) (headers : PeHeaders)

theorem yields_resource (type name : PeResourceKey) :
    Yields (Holding host h) (resource host m base headers type name)
      (IsResource (mappedImage m base headers) h (resourceTree headers) type name) := by
  refine yields_ite (fun _ => yields_throw _) fun _ => ?_
  refine yields_bind (yields_resourceSubtree _ _) fun types htypes => ?_
  refine yields_bind (yields_resourceSubtree _ _) fun languages hlanguages => ?_
  refine yields_bind (yields_resourceLanguage _) fun entry hentry => ?_
  exact (yields_resourceData entry).mono fun out hout =>
    ⟨types, languages, entry, htypes, hlanguages, hentry, hout⟩

theorem yields_resourceAt (entry : U32) :
    Yields (Holding host h) (resourceAt host m base headers entry)
      (DataOf (mappedImage m base headers) h (resourceTree headers) (entry - base)) :=
  yields_ite (fun _ => yields_throw _) fun _ => yields_resourceData _

end

/-! ## The lookups end -/

section Ends

variable {W : Type} {host : W → Host} {image : Image}

theorem avoids_exportTable (exports : PeDataDirectory) :
    Avoids .going (exportTable host image exports) :=
  avoids_ite avoids_notFound (avoids_bind (avoids_walk32 _) fun _ =>
    avoids_bind (avoids_walk32 _) fun _ => avoids_bind (avoids_walk32 _) fun _ =>
    avoids_bind (avoids_walk32 _) fun _ => avoids_bind (avoids_walk32 _) fun _ =>
    avoids_bind (avoids_walk32 _) fun _ => avoids_pure _)

theorem avoids_exportAt (exports : PeDataDirectory) (table : ExportTable) (index : U32) :
    Avoids .going (exportAt host image exports table index) :=
  avoids_ite avoids_notFound (avoids_bind (avoids_walk32 _) fun _ =>
    avoids_ite avoids_notFound (avoids_ite
      (avoids_bind (avoids_rvaString _) fun _ => avoids_pure _) (avoids_pure _)))

theorem avoids_resourceNameMatches (tree : ResourceTree) (field : U32) (key : PeResourceKey) :
    Avoids .going (resourceNameMatches host image tree field key) := by
  refine avoids_ite (avoids_pure _) ?_
  cases key.name with
  | none => exact avoids_pure _
  | some name =>
    refine avoids_ite avoids_malformed (avoids_bind (avoids_walk16 _) fun length => ?_)
    refine avoids_ite avoids_malformed (avoids_bind (avoids_scan (fun i => ?_) _ _) fun _ => ?_)
    · exact avoids_bind (avoids_walk16 _) fun _ => avoids_pure _
    · exact avoids_pure _

theorem avoids_resourceEntries (tree : ResourceTree) (dir : U32) :
    Avoids .going (resourceEntries host image tree dir) :=
  avoids_ite avoids_malformed (avoids_bind (avoids_walk16 _) fun _ =>
    avoids_bind (avoids_walk16 _) fun _ => avoids_ite avoids_malformed (avoids_pure _))

theorem avoids_resourceSubtree (tree : ResourceTree) (dir : U32) (key : PeResourceKey) :
    Avoids .going (resourceSubtree host image tree dir key) := by
  refine avoids_bind (avoids_resourceEntries tree dir) fun count => ?_
  refine avoids_bind (avoids_scan (fun i => ?_) _ _) fun found => ?_
  · refine avoids_bind (avoids_walk32 _) fun _ => avoids_bind (avoids_walk32 _) fun _ => ?_
    exact avoids_bind (avoids_resourceNameMatches tree _ key) fun _ =>
      avoids_ite (avoids_pure _) (avoids_ite avoids_malformed (avoids_pure _))
  · cases found with
    | none => exact avoids_notFound
    | some subtree => exact avoids_pure _

theorem avoids_resourceLanguage (tree : ResourceTree) (dir : U32) :
    Avoids .going (resourceLanguage host image tree dir) := by
  refine avoids_bind (avoids_resourceEntries tree dir) fun count => ?_
  refine avoids_bind (avoids_fold (fun i best => ?_) _ _ _) fun best => ?_
  · exact avoids_bind (avoids_walk32 _) fun _ => avoids_bind (avoids_walk32 _) fun _ =>
      avoids_ite avoids_malformed (avoids_pure _)
  · cases best with
    | none => exact avoids_notFound
    | some b => exact avoids_pure _

theorem avoids_resourceData (tree : ResourceTree) (entry : U32) :
    Avoids .going (resourceData host image tree entry) :=
  avoids_ite avoids_malformed (avoids_bind (avoids_walk32 _) fun _ =>
    avoids_bind (avoids_walk32 _) fun _ => avoids_ite avoids_malformed (avoids_pure _))

end Ends

section

variable {W : Type} (host : W → Host) (m : Mem) (base : U32) (headers : PeHeaders)

theorem avoids_exportByName (symbol : List U8) :
    Avoids .going (exportByName host m base headers symbol) := by
  refine avoids_bind (avoids_exportTable _) fun table => ?_
  refine avoids_bind (avoids_scan (fun i => ?_) _ _) fun found => ?_
  · exact avoids_bind (avoids_walk32 _) fun _ => avoids_bind (avoids_walk16 _) fun _ =>
      avoids_bind (avoids_rvaString _) fun _ => avoids_pure _
  · cases found with
    | none => exact avoids_notFound
    | some index => exact avoids_exportAt _ _ _

theorem avoids_exportByOrdinal (ordinal : U16) :
    Avoids .going (exportByOrdinal host m base headers ordinal) :=
  avoids_bind (avoids_exportTable _) fun _ => avoids_ite avoids_notFound (avoids_exportAt _ _ _)

theorem avoids_tlsDirectory : Avoids .going (tlsDirectory host m base headers) :=
  avoids_ite avoids_notFound (avoids_bind (avoids_walk32 _) fun _ =>
    avoids_bind (avoids_walk32 _) fun _ => avoids_bind (avoids_walk32 _) fun _ =>
    avoids_bind (avoids_walk32 _) fun _ => avoids_bind (avoids_walk32 _) fun _ =>
    avoids_ite avoids_malformed (avoids_pure _))

theorem avoids_resource (type name : PeResourceKey) :
    Avoids .going (resource host m base headers type name) :=
  avoids_ite avoids_notFound (avoids_bind (avoids_resourceSubtree _ _ _) fun _ =>
    avoids_bind (avoids_resourceSubtree _ _ _) fun _ =>
    avoids_bind (avoids_resourceLanguage _ _) fun _ => avoids_resourceData _ _)

theorem avoids_resourceAt (entry : U32) : Avoids .going (resourceAt host m base headers entry) :=
  avoids_ite avoids_malformed (avoids_resourceData _ _)

end

end X86Port.Pe
