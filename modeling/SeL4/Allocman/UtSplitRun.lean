import SeL4.Allocman.UtSplitFree

/-!
# Runs of the splitting allocator

`utspace_split_tiles` says what holds after any sequence of calls: the free lists are well formed, they
tile the untypeds with what is out, and an allocation that fails gives out nothing. Halves are merged
again when both are free, so in the end the lists hold the untypeds that were added.

This last part has an exception. An allocation that fails after it has split a node leaves the halves in
the lists, and nothing merges them until one of them is allocated and freed
(`failed_alloc_leaves_halves`). `Clean` says that this does not happen.

`calls_return` says that the calls come to an end without a failing assertion.
-/

namespace SeL4.Allocman

open SeL4.Lib SeL4.Object

namespace UtSplit

variable {s s' t : UtSplit} {l : HeadRef → List Word} {h : HeadRef} {p q : Word}
  {F : List Word} {g : Shape} {bits : Nat}

/-! ## Runs -/

variable {cfg : KernelConfig}

/-- A cookie comes back whose object is gone. -/
theorem inv_giveBack {n : Nat} (hi : Inv s s.mem g l) (hlive : (p, n) ∈ s.live)
    (hch : (s.cap (s.node p).ut).map (·.children) = some []) :
    Inv { s with live := s.live.erase (p, n) } s.mem (setState g p .hand) l := by
  obtain ⟨hp, hst, hn⟩ := (hi.live p n).mp hlive
  have hrel : Relinked s { s with live := s.live.erase (p, n) } fun x => (s.node x).head :=
    fun x => ⟨_, _, rfl⟩
  refine ⟨hi.setState nofun (by simp [hst]) hrel (fun x hx => ?_) (fun _ _ _ => rfl) (fun _ => ?_)
    (fun _ _ => rfl) (fun x m => ?_) (hi.live_nodup.erase _) rfl, hi.listed, fun i x => ?_⟩
  · rw [setState_st, hi.head x hx]
    by_cases hxp : x = p
    · simp [hxp, hst]
    · simp [hxp]
  · obtain ⟨c, hc, hu, hb, hcn, -⟩ := hi.cap p hp
    rw [hc] at hch
    exact ⟨c, hc, hu, hb, hcn, Option.some.inj hch⟩
  · rw [hi.live_nodup.mem_erase_iff, hi.live, setState_st]
    by_cases hxp : x = p
    · subst hxp
      simp only [ne_eq, Prod.mk.injEq, true_and]
      constructor
      · rintro ⟨hmn, -, -, hm⟩
        exact absurd (hm.symm.trans hn) hmn
      · rintro ⟨-, hf, -⟩
        cases hf
    · simp [hxp]
  · rw [hi.mem_free, setState_st]
    by_cases hxp : x = p
    · simp [hxp, hst]
    · simp [hxp]

/-- **Freeing** a cookie that is out and whose object is gone. -/
theorem freeEvent_spec {n : Nat} (hi : Inv s s.mem g l) (hn : NoHand s g) (hlive : (p, n) ∈ s.live)
    (hch : (s.cap (s.node p).ut).map (·.children) = some []) :
    ∃ s' g' l', utspaceSplitFree 64 { s with live := s.live.erase (p, n) } p = some s' ∧
      Inv s' s'.mem g' l' ∧ NoHand s' g' ∧ (Merged g 0 → Merged g' 0) := by
  have hst := setState_st g p .hand
  have honly : ∀ q ∈ s.mem, (setState g p .hand).st q = .hand → q = p := by
    intro q hq hqh
    rw [hst] at hqh
    split_ifs at hqh with hqp
    · exact hqp
    · exact absurd hqh (hn q hq)
  obtain ⟨s', g', l', hs', hi', hno, hm⟩ := utspaceSplitFree_spec 64 _ _ l p
    (inv_giveBack hi hlive hch) ((hi.live _ _).mp hlive).1 (by simp [hst]) honly (by omega)
  exact ⟨s', g', l', hs', hi', hno, fun hm0 => hm (hm0.setHand p)⟩

/-- An allocation does not fail after it has split a node, and it does not ask for the end of the address
space. -/
def Clean (cfg : KernelConfig) (s : UtSplit) : SplitEvent → Prop
  | .alloc sizeBits type slot paddr canBeDev env =>
    ({ s with env := env } : UtSplit).AllocClean sizeBits paddr canBeDev ∧
    ∀ s', utspaceSplitAlloc cfg { s with env := env } sizeBits type slot paddr canBeDev = some (none, s') →
      s'.mem.length = s.mem.length
  | _ => True

/-- What holds in every state. -/
def Sound (s : UtSplit) (clean : Prop) : Prop :=
  ∃ g l, Inv s s.mem g l ∧ NoHand s g ∧ (clean → Merged g 0)

theorem inv_env (hi : Inv s s.mem g l) (e : Env) : Inv { s with env := e } s.mem g l :=
  hi.congr (same_env s e _)

/-- One event keeps it. -/
theorem Sound.next {clean : Prop} (h : Sound s clean) {e : SplitEvent} (hs : s.next cfg e = some s') :
    Sound s' (clean ∧ Clean cfg s e) := by
  obtain ⟨g, l, hi, hn, hm⟩ := h
  cases e with
  | addUts utType uts env =>
    cases utType with
    | none =>
      obtain rfl := Option.some.inj hs
      exact ⟨g, l, hi, hn, fun hc => hm hc.1⟩
    | some pool =>
      obtain ⟨⟨ok, s1⟩, hs1, rfl⟩ := Option.map_eq_some_iff.mp hs
      obtain ⟨g', l', hi', hn', hm'⟩ := addUts_spec pool uts _ g l ok s1 (inv_env hi env) hs1
      exact ⟨g', l', hi', hn' hn, fun hc => hm' (hm hc.1)⟩
  | alloc sizeBits type slot paddr canBeDev env =>
    obtain ⟨⟨o, s1⟩, hs1, rfl⟩ := Option.map_eq_some_iff.mp hs
    rcases outcome_alloc cfg (inv_env hi env) sizeBits type slot paddr canBeDev with
      hnone | ⟨o', s2, g', l', hs2, hi', -, hn', hm'⟩
    · exact nomatch hnone.symm.trans hs1
    · obtain ⟨rfl, rfl⟩ : o' = o ∧ s2 = s1 := by simpa using hs2.symm.trans hs1
      refine ⟨g', l', hi', hn' hn, fun hc => hm' hc.2.1 (hm hc.1) fun ho => ?_⟩
      subst ho
      exact hc.2.2 s2 hs1
  | free cookie sizeBits =>
    obtain ⟨⟨hlive, hch⟩, hs⟩ := Option.ite_none_right_eq_some.mp hs
    obtain ⟨s1, g', l', hs1, hi', hno, hm'⟩ := freeEvent_spec hi hn hlive hch
    obtain rfl := Option.mem_unique hs1 hs
    exact ⟨g', l', hi', hno, fun hc => hm' (hm hc.1)⟩
  | delete slot =>
    obtain ⟨hslot, rfl⟩ := Option.ite_some_none_eq_some.mp hs
    have hsame : Same s (s.cnodeDelete slot) s.mem := same_cnodeDelete fun q hq => hi.ut_ne hq hslot
    exact ⟨g, l, hi.congr hsame, hn, fun hc => hm hc.1⟩

theorem sound_create (node : Word → SplitNode) : Sound (create node) True := by
  refine ⟨⟨fun _ => .free, fun _ => 0⟩, fun _ => [], ?_, nofun, fun _ => nofun⟩
  refine ⟨⟨List.nodup_nil, nofun, nofun, nofun, nofun, nofun, nofun, ?_, List.nodup_nil, nofun, nofun, ?_,
    List.nodup_nil⟩, ⟨fun h => ⟨trivial, rfl, rfl⟩, fun _ => List.nodup_nil, nofun, nofun⟩, ?_⟩
  · intro p n
    simp [create]
  · intro u
    simp [create]
  · intro h p
    simp [create]

variable {node : Word → SplitNode} {tr : List SplitEvent}

theorem sound_run (hrun : runFrom (next cfg) (create node) tr = some s) :
    Sound s (EveryStep (next cfg) (Clean cfg) (create node) tr) := by
  refine runFrom_invariant
    (P := fun tr s => Sound s (EveryStep (next cfg) (Clean cfg) (create node) tr)) ?_
    (fun tr s e s' hr ih he => ?_) hrun
  · obtain ⟨g, l, hi, hn, hm⟩ := sound_create node
    exact ⟨g, l, hi, hn, fun _ => hm trivial⟩
  · obtain ⟨g, l, hi, hn, hm⟩ := ih.next he
    exact ⟨g, l, hi, hn, fun hev => hm ((everyStep_snoc hr e).mp hev)⟩

/-! ## Tiling -/

/-- `r` is the node of the untyped `u` that was added. -/
def Root (s : UtSplit) (u : AddedUt) (r : Word) : Prop :=
  r ∈ s.mem ∧ (s.node r).parent = 0 ∧ (s.node r).ut = u.slot

/-- `q` was split off from the untyped `u`. -/
def Of (s : UtSplit) (u : AddedUt) (q : Word) : Prop := ∃ r, s.Root u r ∧ s.Below r q

/-- Byte `x` of the untyped `u` is free. -/
def FreeByte (s : UtSplit) (u : AddedUt) (x : Nat) : Prop := ∃ q, s.IsFree q ∧ s.Of u q ∧ s.Holds q x

theorem Inv.isFree_iff (hi : Inv s s.mem g l) : s.IsFree q ↔ q ∈ s.mem ∧ g.st q = .free := by
  constructor
  · rintro ⟨h, hq⟩
    rw [hi.freeList] at hq
    obtain ⟨hmem, hst, -⟩ := (hi.mem_free h q).mp hq
    exact ⟨hmem, hst⟩
  · rintro ⟨hmem, hst⟩
    refine ⟨(s.node q).originHead, ?_⟩
    rw [hi.freeList]
    exact (hi.mem_free _ q).mpr ⟨hmem, hst, rfl⟩

theorem Forest.isLive_iff (hf : Forest s s.mem g) : s.IsLive q ↔ q ∈ s.mem ∧ g.st q = .live := by
  constructor
  · rintro ⟨n, hq⟩
    obtain ⟨hmem, hst, -⟩ := (hf.live q n).mp hq
    exact ⟨hmem, hst⟩
  · rintro ⟨hmem, hst⟩
    exact ⟨_, (hf.live q _).mpr ⟨hmem, hst, rfl⟩⟩

theorem Forest.holds_iff (hf : Forest s F g) (hq : q ∈ F) (x : Nat) :
    s.Holds q x ↔ (s.buddy g).Contains q x := by
  obtain ⟨c, hc, -, hb, hn, -⟩ := hf.cap q hq
  unfold Buddy.Contains buddy
  dsimp only
  rw [← hb, ← hn]
  constructor
  · rintro ⟨c', hc', hx⟩
    obtain rfl := Option.mem_unique hc hc'
    exact hx
  · intro hx
    exact ⟨c, hc, hx⟩

variable {r : Word}

/-- The parents lead up as the halves lead down. -/
theorem Forest.below_iff (hf : Forest s F g) (hq : q ∈ F) : s.Below r q ↔ (s.buddy g).Under r q := by
  constructor
  · intro hb
    induction hb with
    | refl => exact .refl
    | @child q hpar _ ih =>
      obtain ⟨a, b, hst, hab⟩ := hf.parent q hq hpar
      have hu := ih (hf.split _ a b hst).1
      rcases hab with rfl | rfl
      · exact .left hu (buddy_kids_eq_some.mpr hst)
      · exact .right hu (buddy_kids_eq_some.mpr hst)
  · intro hu
    clear hq
    induction hu with
    | refl => exact .refl
    | left _ hk ih =>
      obtain ⟨hpF, hk⟩ := hf.split _ _ _ (buddy_kids_eq_some.mp hk)
      refine .child ?_ ?_
      · rw [hk.parent_left]
        exact hf.ne_null _ hpF
      · rw [hk.parent_left]
        exact ih
    | right _ hk ih =>
      obtain ⟨hpF, hk⟩ := hf.split _ _ _ (buddy_kids_eq_some.mp hk)
      refine .child ?_ ?_
      · rw [hk.parent_right]
        exact hf.ne_null _ hpF
      · rw [hk.parent_right]
        exact ih

variable {u : AddedUt}

theorem Forest.exists_root (hf : Forest s s.mem g) (hu : u ∈ s.added) :
    ∃ r, s.Root u r ∧ (s.node r).originHead = u.head ∧ g.base r = u.base := by
  obtain ⟨r, hr, hpar, rfl⟩ := (hf.added u).mp hu
  exact ⟨r, ⟨hr, hpar, rfl⟩, rfl, rfl⟩

theorem Forest.of_iff (hf : Forest s s.mem g) (hr : s.Root u r) (hq : q ∈ s.mem) :
    s.Of u q ↔ (s.buddy g).Under r q := by
  rw [← hf.below_iff hq]
  constructor
  · rintro ⟨r', hr', hb⟩
    obtain rfl : r' = r := hf.ut_inj r' hr'.1 r hr.1 (hr'.2.2.trans hr.2.2.symm)
    exact hb
  · intro hb
    exact ⟨r, hr, hb⟩

section

variable (hi : Inv s s.mem g l)
include hi

/-- The nodes in lists and those that are out are the leaves. -/
theorem Inv.tile_iff (hn : NoHand s g) (hr : s.Root u r)
    (x : Nat) : ((s.IsFree q ∨ s.IsLive q) ∧ s.Of u q) ∧ s.Holds q x ↔
      ((s.buddy g).Under r q ∧ (s.buddy g).kids q = none) ∧ (s.buddy g).Contains q x := by
  rw [buddy_kids_eq_none]
  constructor
  · rintro ⟨⟨hfl, hof⟩, hx⟩
    rw [hi.isFree_iff, hi.isLive_iff] at hfl
    have hq : q ∈ s.mem := hfl.elim And.left And.left
    rw [hi.of_iff hr hq] at hof
    rw [hi.holds_iff hq] at hx
    refine ⟨⟨hof, ?_⟩, hx⟩
    rcases hfl with ⟨-, hst⟩ | ⟨-, hst⟩ <;> simp [hst]
  · rintro ⟨⟨hu, hk⟩, hx⟩
    have hq := hi.mem_of_under hr.1 hu
    rw [hi.isFree_iff, hi.isLive_iff, hi.of_iff hr hq, hi.holds_iff hq]
    refine ⟨⟨?_, hu⟩, hx⟩
    cases hst : g.st q with
    | free => exact .inl ⟨hq, rfl⟩
    | live => exact .inr ⟨hq, rfl⟩
    | split a b => exact absurd hst (hk a b)
    | hand => exact absurd hst (hn q hq)

theorem Inv.freeByte_iff (hr : s.Root u r) (x : Nat) :
    s.FreeByte u x ↔ (s.buddy g).Covered (Free g) r x := by
  constructor
  · rintro ⟨q, hfree, hof, hx⟩
    obtain ⟨hq, hst⟩ := hi.isFree_iff.mp hfree
    exact ⟨q, (hi.of_iff hr hq).mp hof, hst, (hi.holds_iff hq x).mp hx⟩
  · rintro ⟨q, hu, hst, hx⟩
    have hq := hi.mem_of_under hr.1 hu
    exact ⟨q, hi.isFree_iff.mpr ⟨hq, hst⟩, (hi.of_iff hr hq).mpr hu, (hi.holds_iff hq x).mpr hx⟩

/-- The free lists, with the sizes of the nodes. -/
structure WellFormed (s : UtSplit) : Prop where
  chain : ∀ h, s.links.Chain 0 (s.freeList h) 0
  head : ∀ h, s.heads h = (s.freeList h).headD 0
  nodup : ∀ h, (s.freeList h).Nodup
  disjoint : ∀ h h' p, p ∈ s.freeList h → p ∈ s.freeList h' → h = h'
  ne_null : ∀ h, 0 ∉ s.freeList h
  size : ∀ h, ∀ p ∈ s.freeList h, ∃ c, s.cap (s.node p).ut = some c ∧ c.untyped = true ∧ c.bits = h.bits

theorem Inv.wellFormed : s.WellFormed := by
  refine ⟨?_, ?_, ?_, ?_, ?_, ?_⟩ <;> simp only [hi.freeList]
  · exact fun h => (hi.listed.isQueue h).chain
  · exact hi.listed.head
  · exact hi.listed.nodup
  · exact hi.listed.disjoint
  · exact hi.listed.null_notMem
  · intro h p hp
    obtain ⟨hmem, -, ho⟩ := (hi.mem_free h p).mp hp
    obtain ⟨c, hc, hu, -, hn, -⟩ := hi.cap p hmem
    exact ⟨c, hc, hu, hn.trans (congrArg HeadRef.bits ho)⟩

/-- The nodes in lists and those that are out tile each untyped that was added. -/
structure Tiled (s : UtSplit) : Prop where
  cover : ∀ u ∈ s.added, ∀ x, u.base ≤ x → x < u.base + 2 ^ u.head.bits →
    ∃! q, ((s.IsFree q ∨ s.IsLive q) ∧ s.Of u q) ∧ s.Holds q x
  inside : ∀ u ∈ s.added, ∀ q x, s.IsFree q ∨ s.IsLive q → s.Of u q → s.Holds q x →
    u.base ≤ x ∧ x < u.base + 2 ^ u.head.bits
  disjoint : ∀ q, ¬ (s.IsFree q ∧ s.IsLive q)
  size : ∀ q n, (q, n) ∈ s.live → ∃ c, s.cap (s.node q).ut = some c ∧ c.untyped = true ∧ c.bits = n
  all : ∀ q, s.IsFree q ∨ s.IsLive q → ∃ u ∈ s.added, s.Of u q

omit hi in
/-- Every node was split off from an untyped that was added. -/
theorem Forest.exists_of (hf : Forest s s.mem g) : ∀ (n : Nat) (q : Word), q ∈ s.mem →
    64 ≤ (s.node q).originHead.bits + n → ∃ u ∈ s.added, s.Of u q := by
  intro n
  induction n with
  | zero =>
    intro q hq hn
    exact absurd (hf.bits_lt q hq) (Nat.not_lt.mpr hn)
  | succ n ih =>
    intro q hq hn
    by_cases hpar : (s.node q).parent = 0
    · exact ⟨_, (hf.added _).mpr ⟨q, hq, hpar, rfl⟩, q, ⟨hq, hpar, rfl⟩, .refl⟩
    · have hpair := hf.pair hq hpar
      obtain ⟨u, hu, r, hr, hb⟩ := ih _ hpair.par_mem (by rw [hpair.bits]; omega)
      exact ⟨u, hu, r, hr, .child hpar hb⟩

theorem Inv.tiled (hn : NoHand s g) : s.Tiled := by
  refine ⟨fun u hu x hx hx' => ?_, fun u hu q x hfl hof hx => ?_, fun q => ?_, fun q n hq => ?_,
    fun q hq => ?_⟩
  · obtain ⟨r, hr, ho, hb⟩ := hi.exists_root hu
    have hcontains : (s.buddy g).Contains r x := by
      unfold Buddy.Contains buddy
      dsimp only
      rw [ho, hb]
      exact ⟨hx, hx'⟩
    simp only [hi.tile_iff hn hr]
    exact Buddy.existsUnique_leaf hi.halves hcontains
  · obtain ⟨r, hr, ho, hb⟩ := hi.exists_root hu
    obtain ⟨⟨hunder, -⟩, hq⟩ := (hi.tile_iff hn hr x).mp ⟨⟨hfl, hof⟩, hx⟩
    have hcontains := hunder.contains hi.halves hq
    unfold Buddy.Contains buddy at hcontains
    dsimp only at hcontains
    rw [ho, hb] at hcontains
    exact hcontains
  · rintro ⟨hfree, hlive⟩
    have hst := (hi.isFree_iff.mp hfree).2
    exact nomatch hst.symm.trans (hi.isLive_iff.mp hlive).2
  · obtain ⟨hmem, -, hbits⟩ := (hi.live q n).mp hq
    obtain ⟨c, hc, hu, -, hcn, -⟩ := hi.cap q hmem
    exact ⟨c, hc, hu, hcn.trans hbits⟩
  · rw [hi.isFree_iff, hi.isLive_iff] at hq
    exact hi.exists_of 64 q (hq.elim And.left And.left) (by omega)

/-- **A failing allocation** leaves the same bytes free. -/
theorem Inv.freeByte_of_failed {g' : Shape} {l' : HeadRef → List Word}
    (hi' : Inv s' s'.mem g' l') (hgrown : Grown s s' g g') (hu : u ∈ s.added) (x : Nat) :
    s'.FreeByte u x ↔ s.FreeByte u x := by
  obtain ⟨r, hr, -, -⟩ := hi.exists_root hu
  have hr' : s'.Root u r :=
    ⟨hgrown.mem r hr.1, (hgrown.parent r hr.1).trans hr.2.1, (hgrown.ut r hr.1).trans hr.2.2⟩
  rw [hi'.freeByte_iff hr', hi.freeByte_iff hr]
  exact hgrown.covered r hr.1 x

/-! ## Merging -/

/-- If nothing is out and no halves are left, then every node is one that was added. -/
theorem Inv.all_roots (hn : NoHand s g) (hm : Merged g 0) (hlive : s.live = []) :
    ∀ p ∈ s.mem, g.st p = .free ∧ (s.node p).parent = 0 := by
  have hleaf : ∀ p, p ∈ s.mem → (s.buddy g).kids p = none → Free g p := by
    intro p hp hk
    rw [buddy_kids_eq_none] at hk
    cases hst : g.st p with
    | free => exact hst
    | live =>
      have hin := (hi.live p _).mpr ⟨hp, hst, rfl⟩
      rw [hlive] at hin
      exact absurd hin List.not_mem_nil
    | split a b => exact absurd hst (hk a b)
    | hand => exact absurd hst (hn p hp)
  have hnone : ∀ p, (s.buddy g).kids p = none := by
    refine Buddy.not_cut_of_merged hi.halves (fun p a b hk => ?_) hleaf fun p a b hk hfree => ?_
    · obtain ⟨-, hk⟩ := hi.split p a b (buddy_kids_eq_some.mp hk)
      exact ⟨hk.left, hk.right⟩
    · have hst := buddy_kids_eq_some.mp hk
      obtain ⟨-, hk⟩ := hi.split p a b hst
      rcases hm p a b hst hfree.1 hfree.2 with h0 | h0
      · exact hi.ne_null a hk.left h0
      · exact hi.ne_null b hk.right h0
  intro p hp
  refine ⟨hleaf p hp (hnone p), ?_⟩
  by_contra hpar
  obtain ⟨a, b, hst, -⟩ := hi.parent p hp hpar
  exact buddy_kids_eq_none.mp (hnone _) a b hst

/-- **Full merging**: the free lists hold what was added. -/
theorem Inv.perm_added (hroots : ∀ p ∈ s.mem, g.st p = .free ∧ (s.node p).parent = 0)
    (h : HeadRef) : ((s.freeList h).map fun p => (s.node p).ut).Perm
      ((s.added.filter (·.head = h)).map (·.slot)) := by
  rw [hi.freeList]
  refine (List.perm_ext_iff_of_nodup ?_ ?_).mpr fun c => ?_
  · refine List.Nodup.map_on (fun p hp q hq hpq => ?_) (hi.listed.nodup h)
    exact hi.ut_inj p ((hi.mem_free h p).mp hp).1 q ((hi.mem_free h q).mp hq).1 hpq
  · refine .map_on (fun u hu v hv huv => ?_) (hi.added_nodup.filter _)
    obtain ⟨p, hp, -, rfl⟩ := (hi.added u).mp (List.mem_filter.mp hu).1
    obtain ⟨q, hq, -, rfl⟩ := (hi.added v).mp (List.mem_filter.mp hv).1
    rw [hi.ut_inj p hp q hq huv]
  · simp only [List.mem_map, List.mem_filter, decide_eq_true_eq]
    constructor
    · rintro ⟨p, hp, rfl⟩
      obtain ⟨hmem, -, ho⟩ := (hi.mem_free h p).mp hp
      exact ⟨_, ⟨(hi.added _).mpr ⟨p, hmem, (hroots p hmem).2, rfl⟩, ho⟩, rfl⟩
    · rintro ⟨u, ⟨hu, rfl⟩, rfl⟩
      obtain ⟨p, hp, -, rfl⟩ := (hi.added u).mp hu
      exact ⟨p, (hi.mem_free _ p).mpr ⟨hp, (hroots p hp).1, rfl⟩, rfl⟩

end

/-- **The splitting allocator.** In every run:

* the free lists are well-formed doubly linked lists of nodes of their size, and with the cookies that are
  out they tile each untyped that was added;
* an allocation that fails leaves the same bytes free;
* if no allocation of the run failed after it had split a node, then once nothing is out the free lists
  hold exactly the untypeds that were added. -/
theorem utspace_split_tiles {node : Word → SplitNode} {tr : List SplitEvent}
    (hrun : runFrom (next cfg) (create node) tr = some s) :
    s.WellFormed ∧ s.Tiled ∧
    (∀ sizeBits type slot paddr canBeDev env s',
      utspaceSplitAlloc cfg { s with env := env } sizeBits type slot paddr canBeDev = some (none, s') →
      s'.live = s.live ∧ s'.added = s.added ∧ s'.WellFormed ∧ s'.Tiled ∧
        ∀ u ∈ s.added, ∀ x, s'.FreeByte u x ↔ s.FreeByte u x) ∧
    (EveryStep (next cfg) (Clean cfg) (create node) tr → s.live = [] →
      ∀ h, ((s.freeList h).map fun p => (s.node p).ut).Perm
        ((s.added.filter (·.head = h)).map (·.slot))) := by
  obtain ⟨g, l, hi, hn, hm⟩ := sound_run hrun
  refine ⟨hi.wellFormed, hi.tiled hn, fun sizeBits type slot paddr canBeDev env s' hs' => ?_,
    fun hclean hlive h => hi.perm_added (hi.all_roots hn (hm hclean) hlive) h⟩
  have hie := inv_env hi env
  rcases outcome_alloc cfg hie sizeBits type slot paddr canBeDev with
    hnone | ⟨o, s₁, g', l', hs₁, hi', hgrown, hn', -⟩
  · exact nomatch hnone.symm.trans hs'
  · obtain ⟨rfl, rfl⟩ : o = none ∧ s₁ = s' := by simpa using hs₁.symm.trans hs'
    have hgrown := (grown_same hi.toForest (same_env s env _) rfl).trans (hgrown rfl)
    exact ⟨hgrown.live, hgrown.added, hi'.wellFormed, hi'.tiled (hn' hn),
      fun u hu x => hi.freeByte_of_failed hi' hgrown hu x⟩

/-! ### One untyped of 16 KiB -/

theorem forall_some_iff {α : Type} {o o' : α} {P : UtSplit → Prop} :
    (∀ t, some (o', s') = some (o, t) → P t) ↔ (o' = o → P s') := by
  constructor
  · intro h ho
    exact h s' (by rw [ho])
  · intro h t ht
    obtain ⟨ho, rfl⟩ : o' = o ∧ s' = t := by simpa using ht
    exact h ho

/-- What a call leaves is decided by making it. -/
instance decidableOnResult {α : Type} [DecidableEq α] {o : α} (P : UtSplit → Prop) [DecidablePred P] :
    (r : Option (α × UtSplit)) → Decidable (∀ s', r = some (o, s') → P s')
  | none => .isTrue nofun
  | some (o', s') => decidable_of_iff (o' = o → P s') forall_some_iff.symm

instance decidableClean (cfg : KernelConfig) (s : UtSplit) : (e : SplitEvent) → Decidable (Clean cfg s e)
  | .alloc sizeBits _ _ paddr canBeDev env =>
    have : Decidable (({ s with env := env } : UtSplit).DevClean sizeBits.toNat) := decidableOnResult _ _
    have : Decidable (({ s with env := env } : UtSplit).AllocClean sizeBits paddr canBeDev) :=
      inferInstanceAs (Decidable (_ ∧ _))
    inferInstanceAs (Decidable (_ ∧ _))
  | .addUts _ _ _ | .free _ _ | .delete _ => .isTrue trivial

/-- Memory that is all zero. -/
def zeroNode : SplitNode := ⟨0, 0, 0, none, ⟨.heads, 0⟩, 0, 0, 0⟩

/-- An untyped in slot 100 is added. -/
def addOne : SplitEvent := .addUts (some .heads) [⟨100, 0x4000, 14, noPaddr⟩] ⟨[some 8], [], []⟩

/-- A page is allocated, one of 32 KiB cannot be had, and the page is freed again. -/
def pageRun : List SplitEvent :=
  [addOne, .alloc 12 (some .smallPage) 200 noPaddr false
      ⟨[some 16, some 24, some 32, some 40], [some 101, some 102, some 103, some 104], []⟩,
    .alloc 15 (some .untyped) 201 noPaddr true ⟨[], [], []⟩, .delete 200, .free 32 12]

/-- The node allocator has room for two nodes only, so an allocation of a page fails after it has split
the untyped once. -/
def shortRun : List SplitEvent :=
  [addOne, .alloc 12 (some .smallPage) 200 noPaddr false ⟨[some 16, some 24], [some 101, some 102], []⟩]

/-- In the end the list of the untyped's size holds the untyped again. -/
theorem utspace_split_tiles_pageRun :
    (runFrom (next benchConfig) (create fun _ => zeroNode) pageRun).isSome = true ∧
    EveryStep (next benchConfig) (Clean benchConfig) (create fun _ => zeroNode) pageRun ∧
    ∀ s, runFrom (next benchConfig) (create fun _ => zeroNode) pageRun = some s →
      s.WellFormed ∧ s.Tiled ∧ s.live = [] ∧
        ((s.freeList ⟨.heads, 14⟩).map fun p => (s.node p).ut).Perm [100] := by
  have hsome : (runFrom (next benchConfig) (create fun _ => zeroNode) pageRun).isSome = true := by
    decide +kernel
  have hclean : EveryStep (next benchConfig) (Clean benchConfig) (create fun _ => zeroNode) pageRun := by
    decide +kernel
  have hend : (runFrom (next benchConfig) (create fun _ => zeroNode) pageRun).map
      (fun s => (s.live, s.added)) = some ([], [⟨100, ⟨.heads, 14⟩, 0x4000⟩]) := by
    decide +kernel
  refine ⟨hsome, hclean, fun s hrun => ?_⟩
  rw [hrun] at hend
  obtain ⟨hlive, hadded⟩ : s.live = [] ∧ s.added = [⟨100, ⟨.heads, 14⟩, 0x4000⟩] := by
    simpa only [Option.map_some, Option.some.injEq, Prod.mk.injEq] using hend
  obtain ⟨hwf, htiled, -, hmerge⟩ := utspace_split_tiles hrun
  have hperm := hmerge hclean hlive ⟨.heads, 14⟩
  rw [hadded] at hperm
  exact ⟨hwf, htiled, hlive, hperm⟩

/-- After an allocation that fails half way nothing is out, but the list of the untyped's size is empty,
and that of the next smaller size holds its two halves. -/
theorem failed_alloc_leaves_halves :
    (runFrom (next benchConfig) (create fun _ => zeroNode) shortRun).map
      (fun s => (s.live, s.added.map (·.slot), s.freeList ⟨.heads, 14⟩,
        (s.freeList ⟨.heads, 13⟩).map fun p => (s.node p).ut)) = some ([], [100], [], [101, 102]) := by
  decide +kernel

end UtSplit

end SeL4.Allocman
