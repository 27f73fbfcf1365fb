import Mathlib.Data.List.Perm.Subperm
import SeL4.Allocman.UtSplitCut

/-!
# Allocating

`_refill_pool` splits nodes until there is one of the wanted size (`refillPoolAux_spec`), and
`_utspace_split_alloc` gives it out (`outcome_alloc`).

* Neither a refill nor an allocation that fails gives out memory: `Grown` says that the same bytes are
  free, perhaps in smaller nodes.
* `Merged g c` says that no two halves of one node are both free, except for the pair of `c`. A refill
  leaves one such pair, and the allocation then takes one of its halves. If it fails instead, the pair
  stays.
-/

namespace SeL4.Allocman

open SeL4.Lib SeL4.Object Function

namespace UtSplit

variable {s s' t : UtSplit} {l : HeadRef → List Word} {h : HeadRef} {p q : Word} {A B : List Word}
  {F : List Word} {g : Shape} {bits : Nat} {pool : Pool} {left right : Word}

/-! ## `_refill_pool` -/

/-- A node is in a free list. -/
def Free (g : Shape) (p : Word) : Prop := g.st p = .free

/-- No node is on its way back. -/
def NoHand (s : UtSplit) (g : Shape) : Prop := ∀ x ∈ s.mem, g.st x ≠ .hand

/-- Splits may have been made from `s` to `s'`, but no memory was given out. -/
structure Grown (s s' : UtSplit) (g g' : Shape) : Prop where
  length : s.mem.length ≤ s'.mem.length
  same : s'.mem.length = s.mem.length → g' = g ∧ s'.mem = s.mem
  live : s'.live = s.live
  added : s'.added = s.added
  mem : ∀ x ∈ s.mem, x ∈ s'.mem
  ut : ∀ x ∈ s.mem, (s'.node x).ut = (s.node x).ut
  parent : ∀ x ∈ s.mem, (s'.node x).parent = (s.node x).parent
  paddr : ∀ x ∈ s.mem, (s'.node x).paddr = (s.node x).paddr
  noHand : NoHand s g → NoHand s' g'
  covered : ∀ r ∈ s.mem, ∀ x, (s'.buddy g').Covered (Free g') r x ↔ (s.buddy g).Covered (Free g) r x

theorem Grown.trans {g' g'' : Shape} (h : Grown s s' g g') (h' : Grown s' t g' g'') : Grown s t g g'' where
  length := h.length.trans h'.length
  same he := by
    have h1 := h.length
    have h2 := h'.length
    obtain ⟨hg, hm⟩ := h.same (by omega)
    obtain ⟨hg', hm'⟩ := h'.same (by omega)
    exact ⟨hg'.trans hg, hm'.trans hm⟩
  live := h'.live.trans h.live
  added := h'.added.trans h.added
  mem x hx := h'.mem x (h.mem x hx)
  ut x hx := (h'.ut x (h.mem x hx)).trans (h.ut x hx)
  parent x hx := (h'.parent x (h.mem x hx)).trans (h.parent x hx)
  paddr x hx := (h'.paddr x (h.mem x hx)).trans (h.paddr x hx)
  noHand hn := h'.noHand (h.noHand hn)
  covered r hr x := (h'.covered r (h.mem r hr) x).trans (h.covered r hr x)

/-- Nothing below a block of the forest is outside it. -/
theorem Forest.mem_of_under (hf : Forest s F g) (hp : p ∈ F) (hu : (s.buddy g).Under p q) : q ∈ F := by
  induction hu with
  | refl => exact hp
  | left _ hk _ => exact (hf.split _ _ _ (buddy_kids_eq_some.mp hk)).2.left
  | right _ hk _ => exact (hf.split _ _ _ (buddy_kids_eq_some.mp hk)).2.right

/-- What is the same for the nodes covers the same memory. -/
theorem grown_same (hf : Forest s s.mem g) (hs : Same s s' s.mem) (hmem : s'.mem = s.mem) :
    Grown s s' g g where
  length := by rw [hmem]
  same _ := ⟨rfl, hmem⟩
  live := hs.live
  added := hs.added
  mem x hx := by
    rw [hmem]
    exact hx
  ut x hx := by rw [hs.node x hx]
  parent x hx := by rw [hs.node x hx]
  paddr x hx := by rw [hs.node x hx]
  noHand hn x hx := by
    rw [hmem] at hx
    exact hn x hx
  covered r hr x := by
    have hf' : Forest s' s.mem g := hf.congr hs
    have hunder : ∀ {t t' : UtSplit} {q}, (t.buddy g).Under r q → (t'.buddy g).Under r q := by
      intro t t' q hu
      induction hu with
      | refl => exact .refl
      | left _ hk ih => exact .left ih hk
      | right _ hk ih => exact .right ih hk
    have hcontains : ∀ {q}, q ∈ s.mem → ((s'.buddy g).Contains q x ↔ (s.buddy g).Contains q x) := by
      intro q hq
      unfold Buddy.Contains buddy
      dsimp only
      rw [hs.node q hq]
    constructor
    · rintro ⟨q, hu, hfree, hx⟩
      exact ⟨q, hunder hu, hfree, (hcontains (hf'.mem_of_under hr hu)).mp hx⟩
    · rintro ⟨q, hu, hfree, hx⟩
      exact ⟨q, hunder hu, hfree, (hcontains (hf.mem_of_under hr hu)).mpr hx⟩

section

variable (hi : Inv s s.mem g l)
include hi

theorem grown_split (hp : p ∈ s.mem) (hst : g.st p = .free)
    (hd : SplitInto s s' pool bits p left right)
    (hf' : Forest s' s'.mem (cutShape g p left right bits)) :
    Grown s s' g (cutShape g p left right bits) where
  length := by
    rw [hd.mem]
    simp only [List.length_cons]
    omega
  same he := by
    rw [hd.mem] at he
    simp only [List.length_cons] at he
    omega
  live := hd.live
  added := hd.added
  mem x hx := by
    rw [hd.mem]
    simp [hx]
  ut := hd.ut
  parent := hd.parent
  paddr := hd.paddr
  noHand hn x hx := by
    rw [hd.mem] at hx
    rcases List.mem_cons.mp hx with rfl | hx
    · simp
    rcases List.mem_cons.mp hx with rfl | hx
    · simp
    rw [(hd.cut hx).1]
    split_ifs
    · simp
    · exact hn x hx
  covered r hr x := by
    refine Buddy.covered_cut (cut_buddy hi.toForest hp hst hd) hf'.halves hr hp hst ?_ cutShape_st_left
      cutShape_st_right (fun q hq hqp => ?_) x
    · simp [Free, hd.cut hp]
    · simp [Free, hd.cut hq, hqp]

/-- No two halves of one node are both free, but for the pair of `c`. -/
def Merged (g : Shape) (c : Word) : Prop :=
  ∀ p a b, g.st p = .split a b → g.st a = .free → g.st b = .free → a = c ∨ b = c

omit hi in
theorem Merged.mono (hm : Merged g 0) (hf : Forest s F g) (c : Word) : Merged g c := by
  intro p a b hst ha hb
  obtain ⟨-, hk⟩ := hf.split p a b hst
  rcases hm p a b hst ha hb with h0 | h0
  · exact absurd h0 (hf.ne_null a hk.left)
  · exact absurd h0 (hf.ne_null b hk.right)

variable {c : Word}

omit hi in
/-- If the node that is split was the only one with a free sibling, the new pair is the only free pair. -/
theorem merged_cut (hf : Forest s s.mem g) (hm : Merged g p) (hp : p ∈ s.mem)
    (hd : SplitInto s s' pool bits p left right) (hc : c = left ∨ c = right) :
    Merged (cutShape g p left right bits) c := by
  intro x a b hx ha hb
  by_cases hxp : x = p
  · subst hxp
    rw [(hd.cut hp).1, if_pos rfl] at hx
    obtain ⟨rfl, rfl⟩ := NodeState.split.inj hx
    exact hc.imp .symm .symm
  · have hg := cutShape_split hxp hx
    obtain ⟨-, hk⟩ := hf.split x a b hg
    rw [(hd.cut hk.left).1] at ha
    rw [(hd.cut hk.right).1] at hb
    split_ifs at ha with hap
    split_ifs at hb with hbp
    exact absurd (hm x a b hg ha hb) (not_or.mpr ⟨hap, hbp⟩)

theorem Inv.freeList (h : HeadRef) : s.freeList h = l h := by
  refine freeList_eq hi.listed ?_
  have hsub : l h ⊆ s.mem := fun x hx => ((hi.mem_free h x).mp hx).1
  exact (List.subperm_of_subset (hi.listed.nodup h) hsub).length_le

/-- What `_refill_pool` finds in a list. -/
theorem Inv.pick_eq (h : HeadRef) (paddr : Word) : s.pick h paddr =
    if paddr = noPaddr then (l h).headD 0
    else ((l h).find? fun p => hasPaddr (s.node p) h.bits paddr).getD 0 := by
  unfold pick
  rw [hi.freeList, hi.listed.head]

/-- A node that `_refill_pool` takes for the one that is wanted. -/
def Found (s : UtSplit) (h : HeadRef) (paddr c : Word) : Prop :=
  if paddr = noPaddr then c = s.heads h else hasPaddr (s.node c) h.bits paddr = true

variable {paddr : Word}

theorem Inv.pick_mem (hp : s.pick h paddr ≠ 0) :
    s.pick h paddr ∈ l h ∧ Found s h paddr (s.pick h paddr) := by
  unfold Found
  rw [hi.pick_eq] at hp ⊢
  split_ifs at hp ⊢ with hno
  · refine ⟨?_, (hi.listed.head h).symm⟩
    cases hl : l h with
    | nil =>
      rw [hl] at hp
      exact absurd rfl hp
    | cons a m => exact .head _
  · cases hfind : (l h).find? fun p => hasPaddr (s.node p) h.bits paddr with
    | none =>
      rw [hfind] at hp
      exact absurd rfl hp
    | some a => exact ⟨List.mem_of_find?_eq_some hfind, by simpa using List.find?_some hfind⟩

/-- Where `_refill_pool` finds nothing, no node has the address. -/
theorem Inv.not_hasPaddr (hp : s.pick h paddr = 0) (hc : c ∈ l h)
    (hno : paddr ≠ noPaddr) : hasPaddr (s.node c) h.bits paddr = false := by
  rw [hi.pick_eq, if_neg hno] at hp
  cases hfind : (l h).find? fun p => hasPaddr (s.node p) h.bits paddr with
  | none => simpa using List.find?_eq_none.mp hfind c hc
  | some a =>
    rw [hfind] at hp
    have ha : a = 0 := hp
    exact absurd (ha ▸ List.mem_of_find?_eq_some hfind) (hi.listed.null_notMem h)

end

/-- An address in a node is in one of its halves. -/
theorem hasPaddr_halves {n : SplitNode} {a b : SplitNode} (hb : 1 ≤ bits)
    (hb' : bits + 1 < 64) (hn : hasPaddr n (bits + 1) paddr = true) (ha : a.paddr = n.paddr)
    (hbp : b.paddr = halfPaddr n.paddr bits) :
    hasPaddr a bits paddr = true ∨ hasPaddr b bits paddr = true := by
  have hlt : (2 : Nat) ^ (bits + 1) < 2 ^ 64 := Nat.pow_lt_pow_right (by omega) hb'
  have htwo : 2 ≤ (2 : Nat) ^ bits := by
    calc 2 = 2 ^ 1 := rfl
      _ ≤ 2 ^ bits := Nat.pow_le_pow_right (by omega) hb
  obtain ⟨hno, hle, hltp⟩ : n.paddr ≠ noPaddr ∧ n.paddr ≤ paddr ∧ paddr < n.paddr + bit (bits + 1) := by
    simpa [hasPaddr] using hn
  rw [BitVec.le_def] at hle
  rw [BitVec.lt_def, BitVec.toNat_add, toNat_bit hb'] at hltp
  -- the sum does not wrap, as it is above the address
  have hsum : (n.paddr + bit bits).toNat = n.paddr.toNat + 2 ^ bits := by
    rw [BitVec.toNat_add, toNat_bit (by omega), Nat.mod_eq_of_lt (by omega)]
  rw [halfPaddr, if_pos hno] at hbp
  by_cases hside : paddr.toNat < n.paddr.toNat + 2 ^ bits
  · left
    simp only [hasPaddr, ha, decide_eq_true_eq, BitVec.lt_def, hsum]
    exact ⟨hno, hle, hside⟩
  · right
    have hsum' : (n.paddr + bit bits + bit bits).toNat = n.paddr.toNat + 2 ^ bits + 2 ^ bits := by
      rw [BitVec.toNat_add, hsum, toNat_bit (by omega), Nat.mod_eq_of_lt (by omega)]
    have hne : n.paddr + bit bits ≠ noPaddr := by
      intro he
      have he' := congrArg BitVec.toNat he
      have hone : noPaddr.toNat = 1 := rfl
      omega
    simp only [hasPaddr, hbp, decide_eq_true_eq, BitVec.le_def, BitVec.lt_def]
    exact ⟨hne, by omega, by omega⟩

theorem splitLists_self :
    splitLists l pool bits A B left right ⟨pool, bits⟩ = left :: right :: l ⟨pool, bits⟩ := update_self _ _ _

section Halves

variable (hi' : Inv s' s'.mem (cutShape g p left right bits) (splitLists l pool bits A B left right))
  (hd : SplitInto s s' pool bits p left right)
include hi' hd

/-- After a split, what `_refill_pool` finds is one of the halves. -/
theorem pick_halves (hb : 1 ≤ bits) (hb' : bits + 1 < 64) (hp : Found s ⟨pool, bits + 1⟩ paddr p) :
    s'.pick ⟨pool, bits⟩ paddr = left ∨ s'.pick ⟨pool, bits⟩ paddr = right := by
  rw [hi'.pick_eq, splitLists_self]
  split_ifs with hno
  · exact .inl rfl
  · rw [Found, if_neg hno] at hp
    by_cases hleft : hasPaddr (s'.node left) bits paddr = true
    · left
      simp [hleft]
    · have hright := (hasPaddr_halves hb hb' hp hd.paddr_left hd.paddr_right).resolve_left hleft
      right
      simp [hleft, hright]

/-- If no node had the address before a split, those found after it are halves. -/
theorem found_halves (hi : Inv s s.mem g l)
    (hnot : ∀ c ∈ l ⟨pool, bits⟩, paddr ≠ noPaddr → hasPaddr (s.node c) bits paddr = false)
    (hc : c ∈ splitLists l pool bits A B left right ⟨pool, bits⟩) (hf : Found s' ⟨pool, bits⟩ paddr c) :
    c = left ∨ c = right := by
  have hhead : s'.heads ⟨pool, bits⟩ = left := (hi'.listed.head _).trans (congrArg (·.headD 0) splitLists_self)
  unfold Found at hf
  split_ifs at hf with hno
  · exact .inl (hf.trans hhead)
  rw [splitLists_self] at hc
  rcases List.mem_cons.mp hc with hc | hc
  · exact .inl hc
  rcases List.mem_cons.mp hc with hc | hc
  · exact .inr hc
  have hcs := ((hi.mem_free _ c).mp hc).1
  have hfalse := hnot c hc hno
  unfold hasPaddr at hf hfalse
  rw [hd.paddr c hcs] at hf
  exact nomatch hfalse.symm.trans hf

end Halves

/-- **`_refill_pool`**: no memory is given out, and where it succeeds there is a node to use. If no halves
were left free before, then the only ones left free are those of the node to use. -/
theorem refillPoolAux_spec (pool : Pool) (paddr : Word) : ∀ (fuel bits : Nat) (s : UtSplit) (g : Shape)
    (l : HeadRef → List Word), Inv s s.mem g l → 1 ≤ bits → bits + fuel < 64 →
    ∃ ok s' g' l', refillPoolAux pool paddr fuel bits s = some (ok, s') ∧ Inv s' s'.mem g' l' ∧
      Grown s s' g g' ∧ (∀ h : HeadRef, h.bits < bits → l' h = l h) ∧
      (ok = true → s'.pick ⟨pool, bits⟩ paddr ≠ 0 ∧ (Merged g 0 →
        ∀ c ∈ l' ⟨pool, bits⟩, Found s' ⟨pool, bits⟩ paddr c → Merged g' c)) := by
  intro fuel
  induction fuel with
  | zero =>
    intro bits s g l hi _ _
    refine ⟨_, s, g, l, rfl, hi, grown_same hi.toForest (Same.refl s _) rfl, fun _ _ => rfl,
      fun hok => ?_⟩
    exact ⟨by simpa using hok, fun hm c _ _ => hm.mono hi.toForest c⟩
  | succ fuel ih =>
    intro bits s g l hi hb hb'
    unfold refillPoolAux
    by_cases hpick : s.pick ⟨pool, bits⟩ paddr = 0
    · rw [if_neg (not_not.mpr hpick)]
      obtain ⟨ok, s1, g1, l1, hs1, hi1, hgrown, hlow, hok⟩ := ih (bits + 1) s g l hi (by omega) (by omega)
      rw [hs1]
      cases ok with
      | false => exact ⟨false, s1, g1, l1, rfl, hi1, hgrown, fun h hh => hlow h (by omega), nofun⟩
      | true =>
        obtain ⟨hpick1, hmerged⟩ := hok rfl
        obtain ⟨hmem, hfound⟩ := hi1.pick_mem hpick1
        dsimp only
        rw [if_neg hpick1]
        generalize s1.pick ⟨pool, bits + 1⟩ paddr = p at hmem hfound ⊢
        obtain ⟨A, B, hAB⟩ := List.append_of_mem hmem
        obtain ⟨hp, hst, -⟩ := (hi1.mem_free _ p).mp hmem
        rcases splitNode_spec hi1 hAB with ⟨s2, hs2, hsame, hlen⟩ | ⟨s2, left, right, hs2, hd, hi2⟩
        · have hi2 := hi1.congr hsame
          rw [← hlen] at hi2
          exact ⟨false, s2, g1, l1, hs2, hi2, hgrown.trans (grown_same hi1.toForest hsame hlen),
            fun h hh => hlow h (by omega), nofun⟩
        · -- the list of this size is still the one in which nothing was found
          have hnot : ∀ c ∈ l1 ⟨pool, bits⟩, paddr ≠ noPaddr → hasPaddr (s1.node c) bits paddr = false := by
            intro c hc hno
            rw [hlow ⟨pool, bits⟩ (Nat.lt_succ_self bits)] at hc
            have hfalse := hi.not_hasPaddr hpick hc hno
            unfold hasPaddr at hfalse ⊢
            rw [hgrown.paddr c ((hi.mem_free _ c).mp hc).1]
            exact hfalse
          refine ⟨true, s2, _, _, hs2, hi2, hgrown.trans (grown_split hi1 hp hst hd hi2.toForest),
            fun h hh => ?_, fun _ => ⟨?_, fun hm c hc hcf => ?_⟩⟩
          · have hne : h ≠ ⟨pool, bits⟩ := by
              rintro rfl
              exact absurd hh (Nat.lt_irrefl bits)
            have hne' : h ≠ ⟨pool, bits + 1⟩ := by
              rintro rfl
              exact absurd hh (Nat.not_lt.mpr (Nat.le_succ bits))
            unfold splitLists
            rw [update_of_ne hne, update_of_ne hne']
            exact hlow h (by omega)
          · have hnull : ∀ x ∈ s2.mem, x ≠ 0 := hi2.ne_null
            rw [hd.mem] at hnull
            rcases pick_halves hi2 hd hb (by omega) hfound with he | he
            · rw [he]
              exact hnull left (by simp)
            · rw [he]
              exact hnull right (by simp)
          · exact merged_cut hi1.toForest (hmerged hm p hmem hfound) hp hd
              (found_halves hi2 hd hi1 hnot hc hcf)
    · rw [if_pos hpick]
      exact ⟨true, s, g, l, rfl, hi, grown_same hi.toForest (Same.refl s _) rfl, fun _ _ => rfl,
        fun _ => ⟨hpick, fun hm c _ _ => hm.mono hi.toForest c⟩⟩

theorem refillPool_spec (pool : Pool) (paddr : Word) (hi : Inv s s.mem g l) (hb : 1 ≤ bits)
    (hb' : bits < 64) :
    ∃ ok s' g' l', s.refillPool pool bits paddr = some (ok, s') ∧ Inv s' s'.mem g' l' ∧
      Grown s s' g g' ∧ (ok = true → s'.pick ⟨pool, bits⟩ paddr ≠ 0 ∧ (Merged g 0 →
        ∀ c ∈ l' ⟨pool, bits⟩, Found s' ⟨pool, bits⟩ paddr c → Merged g' c)) := by
  obtain ⟨ok, s', g', l', hs', hi', hgrown, -, hok⟩ :=
    refillPoolAux_spec pool paddr (62 - bits) bits s g l hi hb (by omega)
  exact ⟨ok, s', g', l', hs', hi', hgrown, hok⟩

/-! ## One node changes its use -/

/-- Node `p` is now used for `st`. -/
def setState (g : Shape) (p : Word) (st : NodeState) : Shape := { g with st := update g.st p st }

theorem setState_split {st : NodeState} (hst : ∀ a b, st ≠ .split a b)
    (hgp : ∀ a b, g.st p ≠ .split a b) (x a b : Word) :
    (setState g p st).st x = .split a b ↔ g.st x = .split a b := by
  unfold setState
  dsimp only
  rw [update_apply]
  split_ifs with hx
  · subst hx
    exact ⟨fun h => absurd h (hst a b), fun h => absurd h (hgp a b)⟩
  · exact .rfl

/-- A leaf of the forest changes its use. -/
theorem Forest.setState (hf : Forest s F g) {st : NodeState} (hst : ∀ a b, st ≠ .split a b)
    (hgp : ∀ a b, g.st p ≠ .split a b) {hd : Word → Option HeadRef} (hr : Relinked s s' hd)
    (hhead : ∀ x ∈ F, hd x = if (setState g p st).st x = .free then none else some (s.node x).originHead)
    (hcap : ∀ x ∈ F, x ≠ p → s'.cap (s.node x).ut = s.cap (s.node x).ut)
    (hcapp : p ∈ F → ∃ c, s'.cap (s.node p).ut = some c ∧ c.untyped = true ∧ c.base = g.base p ∧
      c.bits = (s.node p).originHead.bits ∧ s.ChildrenOk c.children st)
    (hslots : ∀ x ∈ F, s'.slots (s.node x).ut = s.slots (s.node x).ut)
    (hlive : ∀ x n, (x, n) ∈ s'.live ↔ x ∈ F ∧ (setState g p st).st x = .live ∧
      (s.node x).originHead.bits = n)
    (hnodup : s'.live.Nodup) (hadded : s'.added = s.added) : Forest s' F (setState g p st) := by
  obtain ⟨hut, hparent, hsibling, horigin, hhd⟩ := hr.fields
  have hsplit := setState_split hst hgp
  have hok : ∀ x ∈ F, NodeOk s' (UtSplit.setState g p st) x := by
    intro x hx
    refine (hf.nodeOk hx).move (hut x) (hparent x) (horigin x) ((hhd x).trans (hhead x hx))
      ((hslots x hx).trans (hf.slots x hx)) ?_ fun a b hab _ => (hsplit _ a b).mpr hab
    by_cases hxp : x = p
    · subst hxp
      obtain ⟨c, hc, hu, hb, hn, hch⟩ := hcapp hx
      have hstx : (setState g x st).st x = st := update_self _ _ _
      exact ⟨c, hc, hu, hb, hn, hstx.symm ▸ hch.congr hut⟩
    · obtain ⟨c, hc, hu, hb, hn, hch⟩ := hf.cap x hx
      have hstx : (UtSplit.setState g p st).st x = g.st x := update_of_ne hxp _ _
      exact ⟨c, (hcap x hx hxp).trans hc, hu, hb, hn, hstx ▸ hch.congr hut⟩
  refine ⟨hf.nodup, hf.ne_null, fun x hx => (hok x hx).bits_lt, fun x hx y hy hxy => ?_,
    fun x hx => (hok x hx).slots, fun x hx => (hok x hx).head, fun x hx => (hok x hx).cap, fun x n => ?_,
    hnodup, fun x a b hx => ?_, fun x hx => (hok x hx).parent, fun u => ?_, hadded ▸ hf.added_nodup⟩
  · rw [hut, hut] at hxy
    exact hf.ut_inj x hx y hy hxy
  · rw [horigin]
    exact hlive x n
  · obtain ⟨hxF, hk⟩ := hf.split x a b ((hsplit x a b).mp hx)
    exact ⟨hxF, hk.congr hxF (fun _ => id) (fun y _ => hparent y) (fun y _ => hsibling y)
      (fun y _ => horigin y) fun _ _ => rfl⟩
  · simp only [hadded, hf.added, hut, hparent, horigin]
    rfl

/-! ## Allocating -/

theorem setState_st (g : Shape) (p : Word) (st : NodeState) (x : Word) :
    (setState g p st).st x = if x = p then st else g.st x := update_apply _ _ _ _

/-- **The end of `_utspace_split_alloc`**: the node is given out, or everything is as it was. -/
theorem takeNode_spec (hi : Inv s s.mem g l) (hp : p ∈ l h) (untyped : Bool) (slot : Word) :
    (∃ s', s.takeNode h untyped slot p = some (none, s') ∧ Same s s' s.mem ∧ s'.mem = s.mem) ∨
    ∃ s' l', s.takeNode h untyped slot p = some (some p, s') ∧ s'.mem = s.mem ∧
      Inv s' s'.mem (setState g p .live) l' := by
  obtain ⟨hpF, hst, horigin⟩ := (hi.mem_free h p).mp hp
  obtain ⟨A, B, hAB⟩ := List.append_of_mem hp
  unfold takeNode
  rcases s.retype_cases (s.node p).ut slot h.bits untyped with ⟨e, he⟩ | ⟨u, e, hu, hslot, he⟩
  · rw [he]
    exact .inl ⟨_, rfl, same_env s e _, rfl⟩
  rw [he]
  dsimp only
  generalize hv : (⟨untyped, u.base + KernelCap.start u h.bits, h.bits, 0, []⟩ : KernelCap) = v
  generalize hu' : ({ u with
    offset := KernelCap.start u h.bits + 2 ^ h.bits, children := slot :: u.children } : KernelCap) = u'
  obtain ⟨s1, hs1, ho, hlisted, hr⟩ :=
    listed_removeNode (s := s.withCap e (s.node p).ut u' slot v) hi.listed hAB
  rw [hs1]
  refine .inr ⟨{ s1 with live := (p, h.bits) :: s1.live }, update l h (A ++ B), rfl, ho.mem, ?_⟩
  have hmem : s1.mem = s.mem := ho.mem
  have hlive : s1.live = s.live := ho.live
  have hne : ∀ x ∈ s.mem, (s.node x).ut ≠ slot := by
    intro x hx hxs
    obtain ⟨c, hc, -⟩ := hi.cap x hx
    rw [hxs, hslot] at hc
    exact absurd hc (by simp)
  have hrel : Relinked s { s1 with live := (p, h.bits) :: s1.live }
      fun x => if x = p then some h else (s.node x).head := hr
  rw [hmem]
  refine ⟨hi.setState (by simp) (fun a b => ?_) hrel (fun x hx => ?_) (fun x hx hxp => ?_)
    (fun _ => ?_) (fun x _ => ?_) (fun x n => ?_) ?_ ho.added, hlisted, fun i x => ?_⟩
  · rw [hst]
    simp
  · rw [setState_st]
    by_cases hxp : x = p
    · subst hxp
      simp [horigin]
    · simp only [if_neg hxp]
      exact hi.head x hx
  · have hut : (s.node x).ut ≠ (s.node p).ut := fun he => hxp (hi.ut_inj x hx p hpF he)
    rw [ho.cap]
    simp [withCap, hne x hx, hut]
  · obtain ⟨c, hc, huntyped, hbase, hbits, -⟩ := hi.cap p hpF
    obtain rfl : u = c := Option.mem_unique hu hc
    refine ⟨u', ?_, ?_, ?_, ?_, trivial⟩
    · rw [ho.cap]
      simp [withCap, hne p hpF]
    · rw [← hu']
      exact huntyped
    · rw [← hu']
      exact hbase
    · rw [← hu']
      exact hbits
  · exact congrFun ho.slots _
  · rw [hlive, List.mem_cons, hi.live, setState_st]
    by_cases hxp : x = p
    · subst hxp
      simp [hpF, horigin, eq_comm]
    · simp [hxp]
  · rw [hlive, List.nodup_cons, hi.live]
    refine ⟨fun hpl => ?_, hi.live_nodup⟩
    exact absurd (hst.symm.trans hpl.2.1) (by simp)
  · rw [mem_removed hi.listed hAB, hi.mem_free, setState_st, hrel.fields.2.2.2.1]
    by_cases hxp : x = p
    · simp [hxp]
    · simp [hxp]

/-- What an allocation leaves. If it fails, no memory is given out; and under the condition `C` no halves
of one node are both left free, unless it fails and leaves new nodes. -/
def Outcome (C : Prop) (s : UtSplit) (g : Shape) (r : Option (Option Word × UtSplit)) : Prop :=
  ∃ o s' g' l', r = some (o, s') ∧ Inv s' s'.mem g' l' ∧ (o = none → Grown s s' g g') ∧
    (NoHand s g → NoHand s' g') ∧
    (C → Merged g 0 → (o = none → s'.mem.length = s.mem.length) → Merged g' 0)

theorem Merged.setLive (hm : Merged g p) (hst : g.st p = .free) : Merged (setState g p .live) 0 := by
  intro x a b hx ha hb
  have hlive : ∀ a b, NodeState.live ≠ .split a b := nofun
  rw [setState_split hlive (by simp [hst])] at hx
  rw [setState_st] at ha hb
  split_ifs at ha with hap
  split_ifs at hb with hbp
  exact absurd (hm x a b hx ha hb) (not_or.mpr ⟨hap, hbp⟩)

variable {C : Prop}

theorem Outcome.imp {D : Prop} {r : Option (Option Word × UtSplit)} (h : Outcome C s g r) (hDC : D → C) :
    Outcome D s g r := by
  obtain ⟨o, s', g', l', hr, hi, hfail, hn, hm⟩ := h
  exact ⟨o, s', g', l', hr, hi, hfail, hn, fun hD => hm (hDC hD)⟩

/-- A node is taken after a refill. -/
theorem outcome_take {s1 : UtSplit} {g1 : Shape} {l1 : HeadRef → List Word}
    (hi : Inv s1 s1.mem g1 l1) (hgrown : Grown s s1 g g1) (hp : p ∈ l1 h)
    (hm : C → Merged g 0 → Merged g1 p) (untyped : Bool) (slot : Word) :
    Outcome C s g (s1.takeNode h untyped slot p) := by
  rcases takeNode_spec hi hp untyped slot with ⟨s2, hs2, hsame, hlen⟩ | ⟨s2, l2, hs2, hmem, hi2⟩
  · have hi2 := hi.congr hsame
    rw [← hlen] at hi2
    have hgrown2 := hgrown.trans (grown_same hi.toForest hsame hlen)
    refine ⟨none, s2, g1, l1, hs2, hi2, fun _ => hgrown2, hgrown2.noHand, fun _ hm0 hlen0 => ?_⟩
    rw [(hgrown2.same (hlen0 rfl)).1]
    exact hm0
  · refine ⟨some p, s2, _, l2, hs2, hi2, nofun, fun hn x hx => ?_, fun hC hm0 _ => ?_⟩
    · rw [hmem] at hx
      rw [setState_st]
      split_ifs
      · exact nofun
      · exact hgrown.noHand hn x hx
    exact (hm hC hm0).setLive ((hi.mem_free h p).mp hp).2.1

theorem outcome_fail {g' : Shape} {l' : HeadRef → List Word} (hi : Inv s' s'.mem g' l')
    (hgrown : Grown s s' g g') : Outcome C s g (some (none, s')) := by
  refine ⟨none, s', g', l', rfl, hi, fun _ => hgrown, hgrown.noHand, fun _ hm hlen => ?_⟩
  rw [(hgrown.same (hlen rfl)).1]
  exact hm

/-- The first node of a pool is taken after a refill. -/
theorem outcome_allocFrom {s1 : UtSplit} {g1 : Shape} {l1 : HeadRef → List Word}
    (hi : Inv s1 s1.mem g1 l1) (hgrown : Grown s s1 g g1) (hpick : s1.pick ⟨pool, bits⟩ noPaddr ≠ 0)
    (hm : C → Merged g 0 → ∀ c ∈ l1 ⟨pool, bits⟩, Found s1 ⟨pool, bits⟩ noPaddr c → Merged g1 c)
    (untyped : Bool) (slot : Word) : Outcome C s g (s1.allocFrom pool bits untyped slot) := by
  obtain ⟨hmem, hfound⟩ := hi.pick_mem hpick
  exact outcome_take hi hgrown hmem (fun hC hm0 => hm hC hm0 _ hmem hfound) untyped slot

/-- A node that starts at the address has it, if it does not reach the end of the address space. -/
theorem hasPaddr_of_eq {n : SplitNode} (hb' : bits < 64)
    (htop : paddr.toNat + 2 ^ bits < 2 ^ 64) (hno : n.paddr ≠ noPaddr) (he : n.paddr = paddr) :
    hasPaddr n bits paddr = true := by
  have hpos := Nat.two_pow_pos bits
  have hsum : (paddr + bit bits).toNat = paddr.toNat + 2 ^ bits := by
    rw [BitVec.toNat_add, toNat_bit hb', Nat.mod_eq_of_lt htop]
  rw [he] at hno
  simp only [hasPaddr, he, decide_eq_true_eq, BitVec.lt_def]
  exact ⟨hno, Nat.le_refl _, by omega⟩

section

variable (hi : Inv s s.mem g l) (hb : 1 ≤ bits) (hb' : bits < 64) (untyped : Bool) (slot : Word)
include hi hb hb'

theorem outcome_allocKernel : Outcome True s g (s.allocKernel bits untyped slot) := by
  obtain ⟨ok, s1, g1, l1, hs1, hi1, hgrown, hok⟩ := refillPool_spec .heads noPaddr hi hb hb'
  unfold allocKernel
  rw [hs1]
  cases ok with
  | false => exact outcome_fail hi1 hgrown
  | true =>
    obtain ⟨hpick, hm⟩ := hok rfl
    exact outcome_allocFrom hi1 hgrown hpick (fun _ => hm) untyped slot

/-- A refill from device memory that fails leaves no new nodes. -/
def DevClean (s : UtSplit) (bits : Nat) : Prop :=
  ∀ s', s.refillPool .devMemHeads bits noPaddr = some (false, s') → s'.mem.length = s.mem.length

theorem outcome_allocAny (canBeDev : Bool) :
    Outcome (canBeDev = true → s.DevClean bits) s g (s.allocAny bits untyped slot canBeDev) := by
  unfold allocAny
  cases canBeDev with
  | false => exact (outcome_allocKernel hi hb hb' untyped slot).imp fun _ => trivial
  | true =>
    obtain ⟨ok, s1, g1, l1, hs1, hi1, hgrown, hok⟩ := refillPool_spec .devMemHeads noPaddr hi hb hb'
    rw [hs1]
    cases ok with
    | true =>
      obtain ⟨hpick, hm⟩ := hok rfl
      exact outcome_allocFrom hi1 hgrown hpick (fun _ => hm) untyped slot
    | false =>
      obtain ⟨o, s', g', l', hs', hi', hfail, hn, hm⟩ := outcome_allocKernel hi1 hb hb' untyped slot
      refine ⟨o, s', g', l', hs', hi', fun ho => hgrown.trans (hfail ho), fun hn0 => hn (hgrown.noHand hn0),
        fun hC hm0 hlen => ?_⟩
      -- the failing refill has split nothing
      have hlen1 := hC rfl s1 hs1
      rw [← (hgrown.same hlen1).1] at hm0
      exact hm trivial hm0 fun ho => (hlen ho).trans hlen1.symm

/-- At an address the search for the node may fail, which is asserted not to happen. -/
theorem outcome_allocAt (hno : paddr ≠ noPaddr) (canBeDev : Bool) :
    s.allocAt bits untyped slot paddr canBeDev = none ∨
    Outcome (paddr.toNat + 2 ^ bits < 2 ^ 64) s g (s.allocAt bits untyped slot paddr canBeDev) := by
  unfold allocAt
  cases s.poolForPaddr paddr bits canBeDev with
  | none => exact .inr (outcome_fail hi (grown_same hi.toForest (.refl s _) rfl))
  | some pool =>
    obtain ⟨ok, s1, g1, l1, hs1, hi1, hgrown, hok⟩ := refillPool_spec pool paddr hi hb hb'
    dsimp only
    rw [hs1]
    cases ok with
    | false => exact .inr (outcome_fail hi1 hgrown)
    | true =>
      dsimp only
      rw [hi1.freeList]
      cases hfind : (l1 ⟨pool, bits⟩).find? fun p =>
          decide ((s1.node p).paddr ≠ noPaddr ∧ (s1.node p).paddr = paddr) with
      | none => exact .inl rfl
      | some p =>
        have hp := List.mem_of_find?_eq_some hfind
        have hp0 : p ≠ 0 := hi1.listed.ne_null _ p hp
        obtain ⟨hpno, hpeq⟩ : (s1.node p).paddr ≠ noPaddr ∧ (s1.node p).paddr = paddr := by
          simpa using List.find?_some hfind
        right
        rw [Option.getD_some, if_neg hp0]
        refine outcome_take hi1 hgrown hp (fun htop hm => ?_) untyped slot
        refine (hok rfl).2 hm p hp ?_
        rw [Found, if_neg hno]
        exact hasPaddr_of_eq hb' htop hpno hpeq

end

/-- What an allocation must not do for the halves of a node to be merged in the end. -/
def AllocClean (s : UtSplit) (sizeBits paddr : Word) (canBeDev : Bool) : Prop :=
  (paddr ≠ noPaddr → paddr.toNat + 2 ^ sizeBits.toNat < 2 ^ 64) ∧
  (paddr = noPaddr → canBeDev = true → s.DevClean sizeBits.toNat)

theorem one_le_toNat {b : Word} (hb : b ≠ 0) : 1 ≤ b.toNat :=
  Nat.one_le_iff_ne_zero.mpr fun he => hb (BitVec.eq_of_toNat_eq he)

/-- **`_utspace_split_alloc`**. -/
theorem outcome_alloc (cfg : KernelConfig) (hi : Inv s s.mem g l) (sizeBits : Word)
    (type : Option ObjectType) (slot paddr : Word) (canBeDev : Bool) :
    utspaceSplitAlloc cfg s sizeBits type slot paddr canBeDev = none ∨
    Outcome (s.AllocClean sizeBits paddr canBeDev) s g
      (utspaceSplitAlloc cfg s sizeBits type slot paddr canBeDev) := by
  unfold utspaceSplitAlloc
  split_ifs with hsize hlarge hno
  · exact .inr (outcome_fail hi (grown_same hi.toForest (.refl s _) rfl))
  · exact .inl rfl
  · have hb := one_le_toNat fun he => hsize (.inr he)
    refine (outcome_allocAt hi hb (Nat.not_le.mp hlarge) _ slot hno canBeDev).imp id fun h => ?_
    exact h.imp fun hC => hC.1 hno
  · have hb := one_le_toNat fun he => hsize (.inr he)
    refine .inr ((outcome_allocAny hi hb (Nat.not_le.mp hlarge) _ slot canBeDev).imp fun hC => ?_)
    exact hC.2 (not_not.mp hno)

end UtSplit

end SeL4.Allocman
