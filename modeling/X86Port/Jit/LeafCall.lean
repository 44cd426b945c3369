import X86Port.Jit.LeafSites

/-!
# CALLs and their leaves

What the translated code of a CALL reaches outside its registers: its guest CPU's EIP and the
leaf sites at their addresses, the rest of the guest through the read of a target and the push
of a return address, and the functions it calls.

* `SiteHome.cellAt_eip`, `SiteHome.cellAt_field`: what the address of a field names.
* `LeafTransparent`: what a CALL whose callee may have a leaf comes to.
* `call_transparent`: a CALL that finds no leaf, or the one of its target.
-/

namespace X86Port.Jit

/-- A guest state: EIP, and the rest of the CPU with the memory. -/
structure LeafGuest (γ : Type) where
  eip : U32
  rest : γ

/-- The consumer's leaves with its resolver, and the push of a return address, which faults
where the stack does not take it. A leaf runs on the guest alone: it enters no block and changes
no translation. -/
structure LeafHost (γ : Type) (p : Nat) where
  resolve : U32 → BitVec p
  leaf : BitVec p → LeafGuest γ → U32 × LeafGuest γ
  push : U32 → γ → Option γ

/-- One call of a leaf, with the guest it was entered on. -/
structure LeafEntry (γ : Type) (p : Nat) where
  leaf : BitVec p
  guest : LeafGuest γ

/-- What a block's code reaches besides its registers, with the leaves called so far and the
sites filled. -/
structure CallHeap (γ : Type) (p capacity : Nat) where
  guest : LeafGuest γ
  pool : LeafSites p capacity
  entries : List (LeafEntry γ p)
  fills : List (Fin capacity)

/-- How a block was left: the address it leaves for, or nothing at a memory fault. An exit stores
the address in EIP, or its chain enters the block at that address. -/
structure Left (γ : Type) (p capacity : Nat) where
  dest : Option U32
  rest : γ
  pool : LeafSites p capacity
  entries : List (LeafEntry γ p)
  fills : List (Fin capacity)

namespace CallHeap

variable {γ : Type} {p capacity : Nat} (host : LeafHost γ p) (h : CallHeap γ p capacity)

def withEip (eip : U32) : CallHeap γ p capacity := { h with guest := ⟨eip, h.guest.rest⟩ }

def withRest (rest : γ) : CallHeap γ p capacity := { h with guest := ⟨h.guest.eip, rest⟩ }

def callLeaf (leaf : BitVec p) : U32 × CallHeap γ p capacity :=
  ((host.leaf leaf h.guest).1, { h with
    guest := (host.leaf leaf h.guest).2
    entries := ⟨leaf, h.guest⟩ :: h.entries })

def fill (i : Fin capacity) (target : U32) : BitVec p × CallHeap γ p capacity :=
  ((h.pool.siteFill host.resolve i target).1, { h with
    pool := (h.pool.siteFill host.resolve i target).2
    fills := i :: h.fills })

/-- What a translated CALL finds for its target, zero for none. -/
def siteLeaf (i : Fin capacity) (target : U32) : BitVec p × CallHeap γ p capacity :=
  if (h.pool.site i).target = target then ((h.pool.site i).leaf, h)
  else if (h.pool.site i).refills < leafSiteRefills then h.fill host i target
  else (0, h)

def leave (dest : Option U32) : Left γ p capacity :=
  ⟨dest, h.guest.rest, h.pool, h.entries, h.fills⟩

end CallHeap

/-! ## Addresses -/

/-- `offsetof(X86pJitLeafSite, target)`. -/
def targetAt : Nat := 0

def refillsAt : Nat := 4

def leafAt : Nat := 8

/-- `sizeof(X86pJitLeafSite)`: two words, and the pointers to the leaf and to the pool. -/
def siteBytes (p : Nat) : Nat := 8 + 2 * (p / 8)

/-- Where a block's code finds the guest CPU with its EIP, the sites and the fill function, on a
host whose addresses have `p` bits. The CPU and the array of sites are objects of the host. -/
structure SiteHome (p capacity : Nat) where
  cpu : BitVec p
  cpuBytes : Nat
  eip : Nat
  sites : BitVec p
  fill : BitVec p
  wide : 32 ≤ p
  eip_inside : eip + 4 ≤ cpuBytes
  cpu_fits : cpu.toNat + cpuBytes ≤ 2 ^ p
  sites_fit : sites.toNat + capacity * siteBytes p ≤ 2 ^ p
  apart : cpu.toNat + cpuBytes ≤ sites.toNat ∨
    sites.toNat + capacity * siteBytes p ≤ cpu.toNat

/-- What an address of the heap holds. -/
inductive HeapCell (capacity : Nat) where
  | eip
  | target (i : Fin capacity)
  | refills (i : Fin capacity)
  | leaf (i : Fin capacity)

/-- The field of a site at an offset. -/
def fieldAt {capacity : Nat} (i : Fin capacity) (offset : Nat) : Option (HeapCell capacity) :=
  if offset = targetAt then some (.target i)
  else if offset = refillsAt then some (.refills i)
  else if offset = leafAt then some (.leaf i)
  else none

namespace SiteHome

variable {γ : Type} {p capacity : Nat} (H : SiteHome p capacity)

/-- `&s->site[i]`. -/
def siteAddr (i : Fin capacity) : Nat := H.sites.toNat + i.val * siteBytes p

def sitePtr (i : Fin capacity) : BitVec p := BitVec.ofNat p (H.siteAddr i)

def cellAt (a : Nat) : Option (HeapCell capacity) :=
  if a = H.cpu.toNat + H.eip then some .eip
  else if a < H.sites.toNat then none
  else if h : (a - H.sites.toNat) / siteBytes p < capacity then
    fieldAt ⟨(a - H.sites.toNat) / siteBytes p, h⟩ ((a - H.sites.toNat) % siteBytes p)
  else none

def load32 (h : CallHeap γ p capacity) (a : Nat) : Option U32 :=
  match H.cellAt a with
  | some .eip => some h.guest.eip
  | some (.target i) => some (h.pool.site i).target
  | some (.refills i) => some (h.pool.site i).refills
  | _ => none

/-- A load of a pointer. -/
def loadPtr (h : CallHeap γ p capacity) (a : Nat) : Option (BitVec p) :=
  match H.cellAt a with
  | some (.leaf i) => some (h.pool.site i).leaf
  | _ => none

def store32 (h : CallHeap γ p capacity) (a : Nat) (v : U32) : Option (CallHeap γ p capacity) :=
  match H.cellAt a with
  | some .eip => some (h.withEip v)
  | _ => none

/-- The site that a pointer points to. -/
def siteAt (v : BitVec p) : Option (Fin capacity) :=
  match H.cellAt v.toNat with
  | some (.target i) => some i
  | _ => none

variable {H}

theorem leafAt_lt (H : SiteHome p capacity) : leafAt < siteBytes p := by
  have hwide := H.wide
  unfold leafAt siteBytes
  omega

/-- A site ends inside the array. -/
theorem siteAddr_lt (H : SiteHome p capacity) (i : Fin capacity) :
    H.siteAddr i + siteBytes p ≤ 2 ^ p := by
  have hnext : (i.val + 1) * siteBytes p ≤ capacity * siteBytes p :=
    Nat.mul_le_mul_right _ i.isLt
  have hfit := H.sites_fit
  rw [Nat.add_mul, Nat.one_mul] at hnext
  unfold siteAddr
  omega

theorem toNat_sitePtr (H : SiteHome p capacity) (i : Fin capacity) :
    (H.sitePtr i).toNat = H.siteAddr i := by
  have hlt := H.siteAddr_lt i
  have hpos := H.leafAt_lt
  rw [sitePtr, BitVec.toNat_ofNat, Nat.mod_eq_of_lt (by omega)]

/-- A field of an object that does not wrap. -/
theorem toNat_field {v : BitVec p} {offset : Nat} (h : v.toNat + offset < 2 ^ p) :
    (v + BitVec.ofNat p offset).toNat = v.toNat + offset := by
  rw [BitVec.toNat_add, BitVec.toNat_ofNat, Nat.mod_eq_of_lt (a := offset) (by omega),
    Nat.mod_eq_of_lt h]

theorem toNat_eip (H : SiteHome p capacity) :
    (H.cpu + BitVec.ofNat p H.eip).toNat = H.cpu.toNat + H.eip := by
  have hfits := H.cpu_fits
  have hinside := H.eip_inside
  exact toNat_field (by omega)

theorem toNat_siteField (i : Fin capacity) {offset : Nat} (h : offset < siteBytes p) :
    (H.sitePtr i + BitVec.ofNat p offset).toNat = H.siteAddr i + offset := by
  have hlt := H.siteAddr_lt i
  rw [toNat_field (by rw [toNat_sitePtr]; omega), toNat_sitePtr]

@[simp] theorem cellAt_eip (H : SiteHome p capacity) :
    H.cellAt (H.cpu.toNat + H.eip) = some .eip := if_pos rfl

theorem cellAt_field (i : Fin capacity) (offset : Nat) (h : offset < siteBytes p) :
    H.cellAt (H.siteAddr i + offset) = fieldAt i offset := by
  have hpos : 0 < siteBytes p := Nat.zero_lt_of_lt h
  have hnext : (i.val + 1) * siteBytes p ≤ capacity * siteBytes p :=
    Nat.mul_le_mul_right _ i.isLt
  have hapart := H.apart
  have hinside := H.eip_inside
  have hoff : H.siteAddr i + offset - H.sites.toNat = offset + i.val * siteBytes p := by
    unfold siteAddr
    omega
  have hdiv : (offset + i.val * siteBytes p) / siteBytes p = i.val := by
    rw [Nat.add_mul_div_right _ _ hpos, Nat.div_eq_of_lt h, Nat.zero_add]
  have hmod : (offset + i.val * siteBytes p) % siteBytes p = offset := by
    rw [Nat.add_mul_mod_self_right, Nat.mod_eq_of_lt h]
  rw [Nat.add_mul, Nat.one_mul] at hnext
  have hcpu : H.siteAddr i + offset ≠ H.cpu.toNat + H.eip := by
    unfold siteAddr
    omega
  have hlow : ¬ H.siteAddr i + offset < H.sites.toNat := by
    unfold siteAddr
    omega
  unfold cellAt
  rw [if_neg hcpu, if_neg hlow]
  simp only [hoff, hdiv, hmod, i.isLt, dite_true]

/-- The guest CPU is no site. -/
theorem sitePtr_ne_cpu (H : SiteHome p capacity) (i : Fin capacity) : H.sitePtr i ≠ H.cpu := by
  intro hsame
  have haddr := congrArg BitVec.toNat hsame
  have hnext : (i.val + 1) * siteBytes p ≤ capacity * siteBytes p :=
    Nat.mul_le_mul_right _ i.isLt
  have hapart := H.apart
  have hinside := H.eip_inside
  have hpos := H.leafAt_lt
  rw [toNat_sitePtr, siteAddr] at haddr
  rw [Nat.add_mul, Nat.one_mul] at hnext
  omega

theorem siteAt_sitePtr (H : SiteHome p capacity) (i : Fin capacity) :
    H.siteAt (H.sitePtr i) = some i := by
  have hcell : H.cellAt (H.siteAddr i + targetAt) = some (.target i) :=
    cellAt_field i targetAt (Nat.zero_lt_of_lt H.leafAt_lt)
  unfold siteAt
  rewrite [toNat_sitePtr, show H.siteAddr i = H.siteAddr i + targetAt from rfl, hcell]
  rfl

theorem load32_eip (h : CallHeap γ p capacity) :
    H.load32 h (H.cpu.toNat + H.eip) = some h.guest.eip := by
  rewrite [load32, cellAt_eip]
  rfl

theorem store32_eip (h : CallHeap γ p capacity) (v : U32) :
    H.store32 h (H.cpu.toNat + H.eip) v = some (h.withEip v) := by
  rewrite [store32, cellAt_eip]
  rfl

theorem load32_target (h : CallHeap γ p capacity) (i : Fin capacity) :
    H.load32 h (H.siteAddr i + targetAt) = some (h.pool.site i).target := by
  rewrite [load32, cellAt_field i targetAt (Nat.zero_lt_of_lt H.leafAt_lt)]
  rfl

theorem load32_refills (h : CallHeap γ p capacity) (i : Fin capacity) :
    H.load32 h (H.siteAddr i + refillsAt) = some (h.pool.site i).refills := by
  rewrite [load32, cellAt_field i refillsAt (Nat.lt_trans (by decide) H.leafAt_lt)]
  rfl

/-- The leaf's field holds a pointer, which a load of a word does not read. -/
theorem load32_leaf (h : CallHeap γ p capacity) (i : Fin capacity) :
    H.load32 h (H.siteAddr i + leafAt) = none := by
  rewrite [load32, cellAt_field i leafAt H.leafAt_lt]
  rfl

theorem loadPtr_leaf (h : CallHeap γ p capacity) (i : Fin capacity) :
    H.loadPtr h (H.siteAddr i + leafAt) = some (h.pool.site i).leaf := by
  rewrite [loadPtr, cellAt_field i leafAt H.leafAt_lt]
  rfl

end SiteHome

/-! ## What a CALL comes to -/

/-- How a CALL's code looks for a leaf: a direct one by the resolver's answer at translation,
where the block has a resolver, an indirect one through the site it claimed, if any. -/
inductive LeafSearch (capacity : Nat) where
  | direct (leafed : Bool)
  | indirect (claimed : Option (Fin capacity))

section

variable {γ : Type} {p capacity : Nat} (host : LeafHost γ p)

/-- The resolver's answer at translation, zero without a resolver. -/
def LeafHost.directLeaf (leafed : Bool) (target : U32) : BitVec p :=
  if leafed then host.resolve target else 0

/-- The leaf found for a target, zero for none. -/
def LeafSearch.find (target : U32) (h : CallHeap γ p capacity) :
    LeafSearch capacity → BitVec p × CallHeap γ p capacity
  | .direct leafed => (host.directLeaf leafed target, h)
  | .indirect none => (0, h)
  | .indirect (some i) => h.siteLeaf host i target

/-- A leaf in place of its callee, entered as the callee would be. -/
def takeLeaf (leaf : BitVec p) (target ret : U32) (h : CallHeap γ p capacity) :
    Left γ p capacity :=
  if leaf = 0 then h.leave (some target)
  else
    let called := (h.withEip target).callLeaf host leaf
    called.2.leave (some (if called.1 = 0 then target else ret))

/-- The CALL whose operand reads `callee`. -/
def call (callee : γ → Option U32) (search : LeafSearch capacity) (ret : U32)
    (h : CallHeap γ p capacity) : Left γ p capacity :=
  match callee h.guest.rest with
  | none => h.leave none
  | some target =>
    match host.push ret h.guest.rest with
    | none => h.leave none
    | some rest =>
      let found := search.find host target (h.withRest rest)
      takeLeaf host found.1 target ret found.2

/-- A leaf that declines changes nothing. -/
def LeafHost.Declines (leaf : BitVec p) (guest : LeafGuest γ) : Prop :=
  (host.leaf leaf guest).1 = 0 → (host.leaf leaf guest).2 = guest

/-- What a consumer promises of its leaves: one that declines changes nothing, and one that
completes did what its callee and RET would, `Returns`. -/
structure LeafHost.Contract (Returns : LeafGuest γ → LeafGuest γ → Prop) : Prop where
  declines : ∀ target rest, host.resolve target ≠ 0 →
    host.Declines (host.resolve target) ⟨target, rest⟩
  completes : ∀ target ret before rest, host.resolve target ≠ 0 →
    host.push ret before = some rest →
    (host.leaf (host.resolve target) ⟨target, rest⟩).1 ≠ 0 →
    (host.leaf (host.resolve target) ⟨target, rest⟩).2.eip = ret ∧
      Returns ⟨target, rest⟩ (host.leaf (host.resolve target) ⟨target, rest⟩).2

/-- How a CALL from `before` may be left: where to, with what rest of the guest, and which leaf
was called. -/
inductive LeafTransparent (Returns : LeafGuest γ → LeafGuest γ → Prop)
    (callee : γ → Option U32) (ret : U32) (before : γ) : Option U32 → γ → List (LeafEntry γ p) → Prop
  | faulted : ((callee before).bind fun _ => host.push ret before) = none →
      LeafTransparent Returns callee ret before none before []
  | ordinary {target : U32} {rest : γ} :
      callee before = some target → host.push ret before = some rest →
      LeafTransparent Returns callee ret before (some target) rest []
  | declined {target : U32} {rest : γ} :
      callee before = some target → host.push ret before = some rest →
      host.resolve target ≠ 0 → (host.leaf (host.resolve target) ⟨target, rest⟩).1 = 0 →
      LeafTransparent Returns callee ret before (some target) rest
        [⟨host.resolve target, ⟨target, rest⟩⟩]
  | completed {target : U32} {rest after : γ} :
      callee before = some target → host.push ret before = some rest →
      host.resolve target ≠ 0 → (host.leaf (host.resolve target) ⟨target, rest⟩).1 ≠ 0 →
      Returns ⟨target, rest⟩ ⟨ret, after⟩ →
      LeafTransparent Returns callee ret before (some ret) after
        [⟨host.resolve target, ⟨target, rest⟩⟩]

variable {host} {Returns : LeafGuest γ → LeafGuest γ → Prop} {callee : γ → Option U32}
  {ret : U32}

/-- The lookup is the one of the pool. -/
theorem siteLeaf_pool (h : CallHeap γ p capacity) (i : Fin capacity) (target : U32) :
    (h.siteLeaf host i target).1 = (h.pool.siteLeaf host.resolve i target).1 ∧
      (h.siteLeaf host i target).2.pool = (h.pool.siteLeaf host.resolve i target).2 := by
  unfold CallHeap.siteLeaf LeafSites.siteLeaf
  split_ifs
  · exact ⟨rfl, rfl⟩
  · exact ⟨rfl, rfl⟩
  · exact ⟨rfl, rfl⟩

/-- It fills the site that asks, and calls nothing else. -/
theorem siteLeaf_fills (h : CallHeap γ p capacity) (i : Fin capacity) (target : U32) :
    (h.siteLeaf host i target).2.guest = h.guest ∧
      (h.siteLeaf host i target).2.entries = h.entries ∧
      (h.siteLeaf host i target).2.fills =
        if h.pool.Asks i target then i :: h.fills else h.fills := by
  unfold CallHeap.siteLeaf
  split_ifs with hseen hasks hrefills hasks' hasks''
  · exact absurd hseen hasks.1
  · exact ⟨rfl, rfl, rfl⟩
  · exact ⟨rfl, rfl, rfl⟩
  · exact absurd ⟨hseen, hrefills⟩ hasks'
  · exact absurd hasks''.2 hrefills
  · exact ⟨rfl, rfl, rfl⟩

variable (host) in
/-- The search calls nothing but the fill function. -/
theorem find_guest (search : LeafSearch capacity) (target : U32) (h : CallHeap γ p capacity) :
    (search.find host target h).2.guest = h.guest ∧
      (search.find host target h).2.entries = h.entries := by
  rcases search with leafed | _ | i
  · exact ⟨rfl, rfl⟩
  · exact ⟨rfl, rfl⟩
  · exact ⟨(siteLeaf_fills h i target).1, (siteLeaf_fills h i target).2.1⟩

@[simp] theorem takeLeaf_zero (target ret : U32) (h : CallHeap γ p capacity) :
    takeLeaf host 0 target ret h = h.leave (some target) := if_pos rfl

theorem takeLeaf_of_ne {leaf : BitVec p} (hleaf : leaf ≠ 0) (target ret : U32)
    (h : CallHeap γ p capacity) :
    takeLeaf host leaf target ret h =
      ((h.withEip target).callLeaf host leaf).2.leave
        (some (if ((h.withEip target).callLeaf host leaf).1 = 0 then target else ret)) :=
  if_neg hleaf

variable (host) in
/-- A leaf changes neither the pool nor the count of the fills. -/
theorem takeLeaf_pool (leaf : BitVec p) (target ret : U32) (h : CallHeap γ p capacity) :
    (takeLeaf host leaf target ret h).pool = h.pool ∧
      (takeLeaf host leaf target ret h).fills = h.fills := by
  unfold takeLeaf
  split_ifs
  · exact ⟨rfl, rfl⟩
  · exact ⟨rfl, rfl⟩

/-- A CALL that finds no leaf but its target's calls none that changes something and declines. -/
theorem LeafHost.Contract.found (hhost : host.Contract Returns) {target : U32} {leaf : BitVec p}
    (hfind : leaf = 0 ∨ leaf = host.resolve target) (rest : γ) (hleaf : leaf ≠ 0) :
    host.Declines leaf ⟨target, rest⟩ := by
  obtain hnone | hfound := hfind
  · exact absurd hnone hleaf
  · subst hfound
    exact hhost.declines target rest hleaf

/-- The leaf of the actual target keeps its contract. -/
theorem takeLeaf_transparent (hhost : host.Contract Returns) {target : U32} {before rest : γ}
    (hcallee : callee before = some target) (hpush : host.push ret before = some rest)
    {h : CallHeap γ p capacity} (hrest : h.guest.rest = rest) (hentries : h.entries = []) :
    LeafTransparent host Returns callee ret before
      (takeLeaf host (host.resolve target) target ret h).dest
      (takeLeaf host (host.resolve target) target ret h).rest
      (takeLeaf host (host.resolve target) target ret h).entries := by
  subst hrest
  by_cases hnone : host.resolve target = 0
  · rw [hnone, takeLeaf_zero, CallHeap.leave, hentries]
    exact .ordinary hcallee hpush
  · rw [takeLeaf_of_ne hnone]
    simp only [CallHeap.withEip, CallHeap.callLeaf, CallHeap.leave, hentries]
    by_cases hanswer : (host.leaf (host.resolve target) ⟨target, h.guest.rest⟩).1 = 0
    · have hsame := hhost.declines target h.guest.rest hnone hanswer
      rw [if_pos hanswer, hsame]
      exact .declined hcallee hpush hnone hanswer
    · obtain ⟨heip, hreturns⟩ :=
        hhost.completes target ret before h.guest.rest hnone hpush hanswer
      rw [if_neg hanswer]
      refine .completed hcallee hpush hnone hanswer ?_
      rw [← heip]
      exact hreturns

/-- A CALL that finds no leaf, or the one the resolver names for its target. -/
theorem call_transparent (hhost : host.Contract Returns) {search : LeafSearch capacity}
    {h : CallHeap γ p capacity} (hentries : h.entries = [])
    (hfind : ∀ target rest, (search.find host target (h.withRest rest)).1 = 0 ∨
      (search.find host target (h.withRest rest)).1 = host.resolve target) :
    LeafTransparent host Returns callee ret h.guest.rest (call host callee search ret h).dest
      (call host callee search ret h).rest (call host callee search ret h).entries := by
  unfold call
  cases hcallee : callee h.guest.rest with
  | none =>
    rw [CallHeap.leave, hentries]
    exact .faulted (by rw [hcallee]; rfl)
  | some target =>
    cases hpush : host.push ret h.guest.rest with
    | none =>
      rw [CallHeap.leave, hentries]
      exact .faulted (by rw [hcallee]; exact hpush)
    | some rest =>
      dsimp only
      obtain ⟨hguest, hsame⟩ := find_guest host search target (h.withRest rest)
      have hrest : (search.find host target (h.withRest rest)).2.guest.rest = rest := by
        rw [hguest]
        rfl
      obtain hnone | hleaf := hfind target rest
      · rw [hnone, takeLeaf_zero, CallHeap.leave, hrest, hsame, CallHeap.withRest, hentries]
        exact .ordinary hcallee hpush
      · rw [hleaf]
        exact takeLeaf_transparent hhost hcallee hpush hrest (hsame.trans hentries)

end

end X86Port.Jit
