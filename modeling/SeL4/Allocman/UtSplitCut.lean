import SeL4.Allocman.UtSplitInv

/-!
# Splitting a node

The second half of `_refill_pool` makes two nodes, retypes the halves of an untyped into their slots and
puts them into the free list, or it fails and leaves everything as it was (`splitNode_spec`). In terms of
blocks a split is the cut of a free leaf (`cut_buddy`).
-/

namespace SeL4.Allocman

open SeL4.Lib SeL4.Object Function

namespace UtSplit

variable {s s' : UtSplit} {l : HeadRef → List Word} {h : HeadRef} {p q : Word} {A B : List Word}
  {F : List Word} {g : Shape}

variable {bits : Nat} {left right : Word} {pool : Pool}

/-- Two nodes that are not in the forest, with empty slots. -/
structure Fresh (s : UtSplit) (F : List Word) (left right : Word) : Prop where
  left_ne_null : left ≠ 0
  right_ne_null : right ≠ 0
  left_notMem : left ∉ F
  right_notMem : right ∉ F
  ne : right ≠ left
  ut_left : ∀ q ∈ F, (s.node q).ut ≠ (s.node left).ut
  ut_right : ∀ q ∈ F, (s.node q).ut ≠ (s.node right).ut
  ut_ne : (s.node right).ut ≠ (s.node left).ut
  cap_left : s.cap (s.node left).ut = none
  cap_right : s.cap (s.node right).ut = none
  slots_left : s.slots (s.node left).ut = true
  slots_right : s.slots (s.node right).ut = true
  mem : s.mem = right :: left :: F

/-- Both halves of the untyped of `p` have been made. -/
structure HalvesMade (s s' : UtSplit) (p left right : Word) (base bits : Nat) : Prop where
  node : s'.node = s.node
  heads : s'.heads = s.heads
  mem : s'.mem = s.mem
  slots : s'.slots = s.slots
  live : s'.live = s.live
  added : s'.added = s.added
  cap_parent : ∃ c, s'.cap (s.node p).ut = some c ∧ c.untyped = true ∧ c.base = base ∧
    c.bits = bits + 1 ∧ c.children = [(s.node right).ut, (s.node left).ut]
  cap_left : s'.cap (s.node left).ut = some ⟨true, base, bits, 0, []⟩
  cap_right : s'.cap (s.node right).ut = some ⟨true, base + 2 ^ bits, bits, 0, []⟩
  cap_of_ne : ∀ x, x ≠ (s.node p).ut → x ≠ (s.node left).ut → x ≠ (s.node right).ut → s'.cap x = s.cap x

theorem mem_erase_halves (hfr : Fresh s F left right) : (s.mem.erase left).erase right = F := by
  rw [hfr.mem, List.erase_cons_tail (by simpa using hfr.ne), List.erase_cons_head, List.erase_cons_head]

/-- What a failure of the second retype leaves behind is the capability to the first half, which is
deleted with its node. -/
theorem same_drop_left (hf : Forest s F g) (hfr : Fresh s F left right) (hp : p ∈ F)
    (hst : g.st p = .free) {u v : KernelCap} {o : Nat} (e : Env) (hu : s.cap (s.node p).ut = some u) :
    Same s ((s.withCap e (s.node p).ut { u with offset := o, children := [(s.node left).ut] }
      (s.node left).ut v).cnodeDelete (s.node left).ut) F where
  node _ _ := rfl
  heads := rfl
  slots _ _ := id
  cap q hq c hc := by
    have hdel := same_cnodeDelete hfr.ut_left
    by_cases hqp : q = p
    · subst hqp
      obtain rfl : u = c := Option.mem_unique hu hc
      have hnil : u.children = [] := by
        obtain ⟨c', hc', -, -, -, hch⟩ := hf.cap q hq
        obtain rfl : u = c' := Option.mem_unique hu hc'
        rw [hst] at hch
        exact hch
      refine ⟨{ u with offset := o, children := [] }, ?_, rfl, rfl, rfl, fun _ => rfl, ?_⟩
      · simp [cnodeDelete, withCap, hfr.ut_left q hq]
      · intro a _ b _ he
        exact nomatch hnil.symm.trans he
    · have hne : (s.node q).ut ≠ (s.node p).ut := fun he => hqp (hf.ut_inj q hq p hp he)
      obtain ⟨c', hc', hrest⟩ := hdel.cap q hq c hc
      refine ⟨c', ?_, hrest⟩
      have hleft := hfr.ut_left q hq
      simpa [cnodeDelete, withCap, hleft, hne] using hc'
  live := rfl
  added := rfl

theorem retypeHalves_cases (hf : Forest s F g) (hfr : Fresh s F left right) (hp : p ∈ F)
    (hst : g.st p = .free) (hbits : (s.node p).originHead.bits = bits + 1) :
    (∃ s', s.retypeHalves bits p left right = (false, s') ∧ Same s s' F ∧ s'.mem = F) ∨
    ∃ s', s.retypeHalves bits p left right = (true, s') ∧
      HalvesMade s s' p left right (g.base p) bits := by
  obtain ⟨c, hc, huntyped, hbase, hcbits, hch⟩ := hf.cap p hp
  rw [hst] at hch
  have hnil : c.children = [] := hch
  have hmem := mem_erase_halves hfr
  unfold retypeHalves
  rcases s.retype_cases (s.node p).ut (s.node left).ut bits true with ⟨e, he⟩ | ⟨u, e, hu, -, he⟩
  · rw [he]
    refine .inl ⟨_, rfl, ?_, hmem⟩
    exact ((same_env s e F).trans (same_deleteNode hfr.ut_left)).trans (same_deleteNode hfr.ut_right)
  · rw [he]
    obtain rfl : c = u := Option.mem_unique hc hu
    rw [start_nil bits hnil, hnil, Nat.zero_add]
    -- the untyped of `p` now has the left half as its child, and the right half goes behind it
    dsimp only
    generalize hs1 : s.withCap e (s.node p).ut { c with offset := 2 ^ bits, children := [(s.node left).ut] }
      (s.node left).ut ⟨true, c.base, bits, 0, []⟩ = s1
    have hnode : s1.node = s.node := by
      rw [← hs1]
      rfl
    have hleft := hfr.ut_left p hp
    have hright := hfr.ut_right p hp
    have hcap : s1.cap (s.node p).ut =
        some { c with offset := 2 ^ bits, children := [(s.node left).ut] } := by
      rw [← hs1]
      simp [withCap, hleft]
    rw [hnode]
    rcases s1.retype_cases (s.node p).ut (s.node right).ut bits true with
      ⟨e', he'⟩ | ⟨u', e', hu', -, he'⟩
    · rw [he']
      have hdrop := same_drop_left (o := 2 ^ bits) (v := ⟨true, c.base, bits, 0, []⟩) hf hfr hp hst e hc
      subst hs1
      refine .inl ⟨_, rfl, ?_, hmem⟩
      exact ((hdrop.trans (same_env _ e' F)).trans (same_deleteNode hfr.ut_left)).trans
        (same_deleteNode hfr.ut_right)
    · rw [he']
      obtain rfl := Option.mem_unique hcap hu'
      rw [start_cons bits (by simp) rfl]
      refine .inr ⟨_, rfl, ?_⟩
      subst hs1
      refine ⟨rfl, rfl, rfl, rfl, rfl, rfl, ⟨{ c with
          offset := 2 ^ bits + 2 ^ bits, children := [(s.node right).ut, (s.node left).ut] },
        ?_, huntyped, hbase, hcbits.trans hbits, rfl⟩, ?_, ?_, ?_⟩
      · simp [withCap, hright]
      · simp [withCap, hleft.symm, hfr.ut_ne.symm, hbase]
      · simp [withCap, hbase]
      · intro x hxp hxl hxr
        simp [withCap, hxp, hxl, hxr]

/-- A store that does not touch the links keeps the lists. -/
theorem listed_modify (hq : Listed s l) {f : SplitNode → SplitNode}
    (hf : ∀ m, (f m).next = m.next ∧ (f m).prev = m.prev) : Listed (s.modify p f) l := by
  have hlinks : (s.modify p f).links = s.links := by
    unfold links
    congr 1
    · funext x
      rw [modify_node]
      split_ifs
      · exact (hf _).1
      · rfl
    · funext x
      rw [modify_node]
      split_ifs
      · exact (hf _).2
      · rfl
  unfold Listed
  rw [hlinks]
  exact hq

/-- A node after the end of `_refill_pool`, but for its links. -/
def halved (s : UtSplit) (pool : Pool) (bits : Nat) (p left right x : Word) : SplitNode :=
  if x = left then
    { s.node x with
      parent := p, sibling := right, originHead := ⟨pool, bits⟩, paddr := (s.node p).paddr, head := none }
  else if x = right then
    { s.node x with
      parent := p, sibling := left, originHead := ⟨pool, bits⟩,
      paddr := halfPaddr (s.node p).paddr bits, head := none }
  else if x = p then { s.node x with head := some ⟨pool, bits + 1⟩ }
  else s.node x

/-- The free lists after a split. -/
def splitLists (l : HeadRef → List Word) (pool : Pool) (bits : Nat) (A B : List Word) (left right : Word) :
    HeadRef → List Word :=
  update (update l ⟨pool, bits + 1⟩ (A ++ B)) ⟨pool, bits⟩
    (left :: right :: l ⟨pool, bits⟩)

theorem linkHalves_eq (hq : Listed s l) (hl : l ⟨pool, bits + 1⟩ = A ++ p :: B)
    (hleft : ∀ i, left ∉ l i) (hright : ∀ i, right ∉ l i) (hleft0 : left ≠ 0) (hright0 : right ≠ 0)
    (hne : right ≠ left) : ∃ s', s.linkHalves pool bits p left right = some s' ∧ OnlyNodes s s' ∧
      Listed s' (splitLists l pool bits A B left right) ∧ ∀ x, ∃ next prev, s'.node x =
        { halved s pool bits p left right x with next := next, prev := prev } := by
  have hp : p ∈ l ⟨pool, bits + 1⟩ := hl ▸ List.mem_append_cons_self
  have hpl : p ≠ left := by
    rintro rfl
    exact hleft _ hp
  have hpr : p ≠ right := by
    rintro rfl
    exact hright _ hp
  obtain ⟨s1, hs1, hr1, hq1, hn1⟩ := listed_removeNode hq hl
  have hpaddr : (s1.node p).paddr = (s.node p).paddr := by
    obtain ⟨next, prev, hn⟩ := hn1 p
    rw [hn]
  unfold linkHalves
  rw [hs1]
  dsimp only [Option.map_some]
  rw [hpaddr]
  generalize hs2 : (s1.modify left fun m => { m with
      parent := p, sibling := right, originHead := ⟨pool, bits⟩, paddr := (s.node p).paddr }).modify right
    (fun m => { m with
      parent := p, sibling := left, originHead := ⟨pool, bits⟩,
      paddr := halfPaddr (s.node p).paddr bits }) = s2
  -- the stores to the halves do not touch the lists, as neither half is in one
  have hq2 : Listed s2 (update l ⟨pool, bits + 1⟩ (A ++ B)) := by
    rw [← hs2]
    refine listed_modify ?_ fun _ => ⟨rfl, rfl⟩
    exact listed_modify hq1 fun _ => ⟨rfl, rfl⟩
  have hr2 : OnlyNodes s s2 := by
    rw [← hs2]
    exact (hr1.trans (onlyNodes_modify _ _ _)).trans (onlyNodes_modify _ _ _)
  have hsub : ∀ i x, x ∈ update l ⟨pool, bits + 1⟩ (A ++ B) i → x ∈ l i :=
    fun i x hx => ((mem_removed hq hl i x).mp hx).1
  obtain ⟨hr3, hq3, hn3⟩ := listed_insertNode hq2 (fun i hi => hright i (hsub i right hi)) hright0
  have hleft3 : ∀ i, left ∉ update (update l ⟨pool, bits + 1⟩ (A ++ B)) ⟨pool, bits⟩
      (right :: update l ⟨pool, bits + 1⟩ (A ++ B) ⟨pool, bits⟩) i := by
    intro i hi
    rw [update_apply] at hi
    split_ifs at hi with hih
    · rcases List.mem_cons.mp hi with hi | hi
      · exact hne hi.symm
      · exact hleft _ (hsub _ left hi)
    · exact hleft i (hsub i left hi)
  obtain ⟨hr4, hq4, hn4⟩ := listed_insertNode hq3 hleft3 hleft0
  refine ⟨_, rfl, (hr2.trans hr3).trans hr4, ?_, fun x => ?_⟩
  · have hhead : (⟨pool, bits⟩ : HeadRef) ≠ ⟨pool, bits + 1⟩ := by simp
    rw [update_idem, update_self, update_of_ne hhead] at hq4
    exact hq4
  · obtain ⟨n4, p4, h4⟩ := hn4 x
    obtain ⟨n3, p3, h3⟩ := hn3 x
    obtain ⟨n1, p1, h1⟩ := hn1 x
    refine ⟨n4, p4, ?_⟩
    have h2 : s2.node x = if x = right then { s1.node x with
        parent := p, sibling := left, originHead := ⟨pool, bits⟩,
        paddr := halfPaddr (s.node p).paddr bits }
      else if x = left then { s1.node x with
        parent := p, sibling := right, originHead := ⟨pool, bits⟩, paddr := (s.node p).paddr }
      else s1.node x := by
      rw [← hs2, modify_node, modify_node]
      by_cases hxr : x = right
      · simp [hxr, hne]
      · simp [hxr]
    dsimp only at h1 h3 h4
    rw [h4, h3, h2, h1]
    unfold halved
    by_cases hxl : x = left
    · subst hxl
      simp [hne.symm]
    · by_cases hxr : x = right
      · simp [hxr, hne]
      · by_cases hxp : x = p
        · simp [hxp, hpl, hpr]
        · simp [hxl, hxr, hxp]

/-- The shape after a split. -/
def cutShape (g : Shape) (p left right : Word) (bits : Nat) : Shape where
  st x := if x = left ∨ x = right then .free else if x = p then .split left right else g.st x
  base x := if x = left then g.base p else if x = right then g.base p + 2 ^ bits else g.base x

/-- What a split leaves in the nodes. -/
structure SplitDone (s s' : UtSplit) (F : List Word) (pool : Pool) (bits : Nat) (p left right : Word) :
    Prop where
  ut : ∀ x, (s'.node x).ut = (s.node x).ut
  parent : ∀ x ∈ F, (s'.node x).parent = (s.node x).parent
  sibling : ∀ x ∈ F, (s'.node x).sibling = (s.node x).sibling
  origin : ∀ x ∈ F, (s'.node x).originHead = (s.node x).originHead
  paddr : ∀ x ∈ F, (s'.node x).paddr = (s.node x).paddr
  head : ∀ x ∈ F, x ≠ p → (s'.node x).head = (s.node x).head
  head_parent : (s'.node p).head = some ⟨pool, bits + 1⟩
  at_left : (s'.node left).parent = p ∧ (s'.node left).sibling = right ∧
    (s'.node left).originHead = ⟨pool, bits⟩ ∧ (s'.node left).head = none ∧
    (s'.node left).paddr = (s.node p).paddr
  at_right : (s'.node right).parent = p ∧ (s'.node right).sibling = left ∧
    (s'.node right).originHead = ⟨pool, bits⟩ ∧ (s'.node right).head = none ∧
    (s'.node right).paddr = halfPaddr (s.node p).paddr bits

theorem splitDone_of_halved (hfr : Fresh s F left right) (hp : p ∈ F) (hn : ∀ x, ∃ next prev, s'.node x =
      { halved s pool bits p left right x with next := next, prev := prev }) :
    SplitDone s s' F pool bits p left right := by
  have hF : ∀ x ∈ F, x ≠ left ∧ x ≠ right := fun x hx =>
    ⟨fun he => hfr.left_notMem (he ▸ hx), fun he => hfr.right_notMem (he ▸ hx)⟩
  have hleft := hn left
  have hright := hn right
  simp only [halved, if_neg hfr.ne] at hleft hright
  obtain ⟨_, _, hleft⟩ := hleft
  obtain ⟨_, _, hright⟩ := hright
  have hfields : ∀ x ∈ F, (s'.node x).parent = (s.node x).parent ∧ (s'.node x).sibling = (s.node x).sibling ∧
      (s'.node x).originHead = (s.node x).originHead ∧ (s'.node x).paddr = (s.node x).paddr ∧
      (s'.node x).head = if x = p then some ⟨pool, bits + 1⟩ else (s.node x).head := by
    intro x hx
    obtain ⟨_, _, hx'⟩ := hn x
    rw [hx', halved, if_neg (hF x hx).1, if_neg (hF x hx).2]
    split_ifs <;> exact ⟨rfl, rfl, rfl, rfl, rfl⟩
  refine ⟨fun x => ?_, fun x hx => (hfields x hx).1, fun x hx => (hfields x hx).2.1,
    fun x hx => (hfields x hx).2.2.1, fun x hx => (hfields x hx).2.2.2.1,
    fun x hx hxp => (hfields x hx).2.2.2.2.trans (if_neg hxp), (hfields p hp).2.2.2.2.trans (if_pos rfl), ?_, ?_⟩
  · obtain ⟨_, _, hx⟩ := hn x
    rw [hx]
    unfold halved
    split_ifs <;> rfl
  · rw [hleft]
    exact ⟨rfl, rfl, rfl, rfl, rfl⟩
  · rw [hright]
    exact ⟨rfl, rfl, rfl, rfl, rfl⟩

theorem cutShape_of_mem (hl : left ∉ F) (hr : right ∉ F) (hq : q ∈ F) :
    (cutShape g p left right bits).st q = (if q = p then .split left right else g.st q) ∧
    (cutShape g p left right bits).base q = g.base q := by
  have hql : q ≠ left := fun he => hl (he ▸ hq)
  have hqr : q ≠ right := fun he => hr (he ▸ hq)
  simp [cutShape, hql, hqr]

theorem cutShape_st_of_mem (hfr : Fresh s F left right) (hq : q ∈ F) :
    (cutShape g p left right bits).st q = if q = p then .split left right else g.st q :=
  (cutShape_of_mem hfr.left_notMem hfr.right_notMem hq).1

theorem cutShape_base_of_mem (hfr : Fresh s F left right) (hq : q ∈ F) :
    (cutShape g p left right bits).base q = g.base q :=
  (cutShape_of_mem hfr.left_notMem hfr.right_notMem hq).2

/-- Only the node that is split has new halves. -/
theorem cutShape_split {x a b : Word} (hxp : x ≠ p)
    (hx : (cutShape g p left right bits).st x = .split a b) : g.st x = .split a b := by
  unfold cutShape at hx
  dsimp only at hx
  split_ifs at hx
  exact hx

@[simp] theorem cutShape_st_left : (cutShape g p left right bits).st left = .free := by
  simp [cutShape]

@[simp] theorem cutShape_st_right : (cutShape g p left right bits).st right = .free := by
  simp [cutShape]

@[simp] theorem cutShape_base_left : (cutShape g p left right bits).base left = g.base p := by
  simp [cutShape]

theorem cutShape_base_right (hne : right ≠ left) :
    (cutShape g p left right bits).base right = g.base p + 2 ^ bits := by
  simp [cutShape, hne]

theorem ChildrenOk.congr {children : List Word} {st : NodeState} (h : s.ChildrenOk children st)
    (hut : ∀ x, (s'.node x).ut = (s.node x).ut) : s'.ChildrenOk children st := by
  cases st with
  | split a b =>
    show children = [(s'.node b).ut, (s'.node a).ut]
    rw [hut, hut]
    exact h
  | _ => exact h

theorem inj_cons {f : Word → Word} {a : Word} (hf : ∀ x ∈ F, ∀ y ∈ F, f x = f y → x = y)
    (ha : ∀ x ∈ F, f x ≠ f a) : ∀ x ∈ a :: F, ∀ y ∈ a :: F, f x = f y → x = y := by
  intro x hx y hy hxy
  rcases List.mem_cons.mp hx with hxa | hxF <;> rcases List.mem_cons.mp hy with hya | hyF
  · rw [hxa, hya]
  · rw [hxa] at hxy
    exact absurd hxy.symm (ha y hyF)
  · rw [hya] at hxy
    exact absurd hxy (ha x hxF)
  · exact hf x hxF y hyF hxy

section

variable (hf : Forest s F g) (hfr : Fresh s F left right) (hp : p ∈ F)
  (horigin : (s.node p).originHead = ⟨pool, bits + 1⟩) (hd : SplitDone s s' F pool bits p left right)
include hf hfr hp horigin hd

/-- The halves of other nodes stay, and those of `p` are the new ones. -/
theorem kids_cut (x a b : Word) (hx : (cutShape g p left right bits).st x = .split a b) :
    x ∈ right :: left :: F ∧ Kids s' (right :: left :: F) (cutShape g p left right bits) x a b := by
  by_cases hxp : x = p
  · subst hxp
    rw [cutShape_st_of_mem hfr hp, if_pos rfl] at hx
    obtain ⟨rfl, rfl⟩ := NodeState.split.inj hx
    obtain ⟨hlp, hls, hlo, -, -⟩ := hd.at_left
    obtain ⟨hrp, hrs, hro, -, -⟩ := hd.at_right
    have hxo := hd.origin x hp
    refine ⟨by simp [hp], by simp, by simp, hfr.ne.symm, hlp, hrp, hls, hrs, ?_, ?_, ?_, ?_, ?_⟩
    · rw [hxo, horigin, hlo]
    · rw [hxo, horigin, hlo]
    · rw [hro, hlo]
    · rw [cutShape_base_left, cutShape_base_of_mem hfr hp]
    · rw [cutShape_base_right hfr.ne, cutShape_base_of_mem hfr hp, hlo]
  · obtain ⟨hxF, hk⟩ := hf.split x a b (cutShape_split hxp hx)
    exact ⟨by simp [hxF], hk.congr hxF (fun y hy => by simp [hy]) hd.parent hd.sibling hd.origin
      fun y hy => cutShape_base_of_mem hfr hy⟩

variable {s1 : UtSplit} (hm : HalvesMade s s1 p left right (g.base p) bits)
include hm

theorem cap_cut (hcap : s'.cap = s1.cap) (x : Word) (hx : x ∈ right :: left :: F) :
    ∃ c, s'.cap (s'.node x).ut = some c ∧ c.untyped = true ∧
      c.base = (cutShape g p left right bits).base x ∧ c.bits = (s'.node x).originHead.bits ∧
      s'.ChildrenOk c.children ((cutShape g p left right bits).st x) := by
  rw [hcap, hd.ut]
  rcases List.mem_cons.mp hx with rfl | hx
  · refine ⟨_, hm.cap_right, rfl, ?_, ?_, ?_⟩
    · rw [cutShape_base_right hfr.ne]
    · rw [hd.at_right.2.2.1]
    · rw [cutShape_st_right]
      rfl
  rcases List.mem_cons.mp hx with rfl | hx
  · refine ⟨_, hm.cap_left, rfl, ?_, ?_, ?_⟩
    · rw [cutShape_base_left]
    · rw [hd.at_left.2.2.1]
    · rw [cutShape_st_left]
      rfl
  rw [cutShape_base_of_mem hfr hx, cutShape_st_of_mem hfr hx, hd.origin x hx]
  by_cases hxp : x = p
  · subst hxp
    obtain ⟨c, hc, hu, hb, hn, hch⟩ := hm.cap_parent
    refine ⟨c, hc, hu, hb, ?_, ?_⟩
    · rw [hn, horigin]
    · rw [if_pos rfl]
      show c.children = [(s'.node right).ut, (s'.node left).ut]
      rw [hd.ut, hd.ut]
      exact hch
  · obtain ⟨c, hc, hu, hb, hn, hch⟩ := hf.cap x hx
    have hne : (s.node x).ut ≠ (s.node p).ut := fun he => hxp (hf.ut_inj x hx p hp he)
    rw [hm.cap_of_ne _ hne (hfr.ut_left x hx) (hfr.ut_right x hx), if_neg hxp]
    exact ⟨c, hc, hu, hb, hn, hch.congr hd.ut⟩

/-- **A split** keeps the forest, with two new nodes in it. -/
theorem forest_cut (hst : g.st p = .free) (ho : OnlyNodes s1 s') :
    Forest s' (right :: left :: F) (cutShape g p left right bits) := by
  have hbits : bits < 64 := by
    have hlt := hf.bits_lt p hp
    rw [horigin] at hlt
    exact Nat.lt_of_succ_lt hlt
  obtain ⟨hlp, -, hlo, hlh, -⟩ := hd.at_left
  obtain ⟨hrp, -, hro, hrh, -⟩ := hd.at_right
  have hp0 := hf.ne_null p hp
  have hcap := cap_cut hf hfr hp horigin hd hm ho.cap
  have hslots : s'.slots = s.slots := ho.slots.trans hm.slots
  have hstp : (cutShape g p left right bits).st p = .split left right := by
    rw [cutShape_st_of_mem hfr hp, if_pos rfl]
  have hok : ∀ x ∈ right :: left :: F, NodeOk s' (cutShape g p left right bits) x := by
    intro x hx
    have hcapx := hcap x hx
    simp only [List.mem_cons] at hx
    rcases hx with rfl | rfl | hx
    · refine ⟨hfr.right_ne_null, hro ▸ hbits, ?_, ?_, hcapx, fun _ => ⟨left, x, hrp ▸ hstp, .inr rfl⟩⟩
      · rw [hslots, hd.ut]
        exact hfr.slots_right
      · rw [hrh, cutShape_st_right, if_pos rfl]
    · refine ⟨hfr.left_ne_null, hlo ▸ hbits, ?_, ?_, hcapx, fun _ => ⟨x, right, hlp ▸ hstp, .inl rfl⟩⟩
      · rw [hslots, hd.ut]
        exact hfr.slots_left
      · rw [hlh, cutShape_st_left, if_pos rfl]
    · rw [hd.ut, hd.origin x hx] at hcapx
      refine (hf.nodeOk hx).move (hd.ut x) (hd.parent x hx) (hd.origin x hx) ?_
        (hslots ▸ hf.slots x hx) hcapx fun a b hab _ => ?_
      · rw [cutShape_st_of_mem hfr hx]
        by_cases hxp : x = p
        · subst hxp
          rw [hd.head_parent, if_pos rfl, if_neg nofun, horigin]
        · rw [hd.head x hx hxp, if_neg hxp]
          exact hf.head x hx
      · have hne : (s.node x).parent ≠ p := by
          intro he
          rw [he, hst] at hab
          cases hab
        rw [cutShape_st_of_mem hfr (hf.split _ a b hab).1, if_neg hne]
        exact hab
  refine ⟨?_, fun x hx => (hok x hx).ne_null, fun x hx => (hok x hx).bits_lt, ?_,
    fun x hx => (hok x hx).slots, fun x hx => (hok x hx).head, hcap, ?_, ?_,
    kids_cut hf hfr hp horigin hd, fun x hx => (hok x hx).parent, ?_, ?_⟩
  · simp only [List.nodup_cons, List.mem_cons, not_or]
    exact ⟨⟨hfr.ne, hfr.right_notMem⟩, hfr.left_notMem, hf.nodup⟩
  · intro x hx y hy hxy
    rw [hd.ut, hd.ut] at hxy
    have hleft := inj_cons hf.ut_inj hfr.ut_left
    refine inj_cons hleft (fun z hz => ?_) x hx y hy hxy
    rcases List.mem_cons.mp hz with rfl | hz
    · exact hfr.ut_ne.symm
    · exact hfr.ut_right z hz
  · intro x n
    rw [ho.live, hm.live, hf.live]
    by_cases hxr : x = right
    · simp [hxr, hfr.right_notMem]
    by_cases hxl : x = left
    · simp [hxl, hfr.left_notMem]
    simp only [List.mem_cons, hxr, hxl, false_or]
    refine and_congr_right fun hx => ?_
    rw [cutShape_st_of_mem hfr hx, hd.origin x hx]
    by_cases hxp : x = p
    · simp [hxp, hst]
    · rw [if_neg hxp]
  · rw [ho.live, hm.live]
    exact hf.live_nodup
  · intro u
    simp only [ho.added, hm.added, hf.added, List.mem_cons, or_and_right, exists_or, exists_eq_left, hrp, hlp,
      hp0, false_and, false_or]
    refine exists_congr fun x => and_congr_right fun hx => ?_
    rw [hd.ut, hd.parent x hx, hd.origin x hx, cutShape_base_of_mem hfr hx]
  · rw [ho.added, hm.added]
    exact hf.added_nodup

end

theorem mem_splitLists (hi : Inv s F g l) (hl : l ⟨pool, bits + 1⟩ = A ++ p :: B)
    (hfr : Fresh s F left right) (hd : SplitDone s s' F pool bits p left right)
    (h : HeadRef) (x : Word) : x ∈ splitLists l pool bits A B left right h ↔
      x ∈ right :: left :: F ∧ (cutShape g p left right bits).st x = .free ∧
        (s'.node x).originHead = h := by
  obtain ⟨-, -, hlo, -, -⟩ := hd.at_left
  obtain ⟨-, -, hro, -, -⟩ := hd.at_right
  have hsplit : x ∈ splitLists l pool bits A B left right h ↔
      (x ∈ l h ∧ x ≠ p) ∨ ((x = left ∨ x = right) ∧ h = ⟨pool, bits⟩) := by
    have hne : (⟨pool, bits⟩ : HeadRef) ≠ ⟨pool, bits + 1⟩ := by simp
    have hrem := mem_removed hi.listed hl h x
    unfold splitLists
    rw [update_apply]
    split_ifs with hh
    · subst hh
      rw [update_of_ne hne] at hrem
      rw [List.mem_cons, List.mem_cons]
      tauto
    · rw [hrem]
      simp [hh]
  have hleft : ∀ h, left ∉ l h := fun h hx => hfr.left_notMem ((hi.mem_free h left).mp hx).1
  have hright : ∀ h, right ∉ l h := fun h hx => hfr.right_notMem ((hi.mem_free h right).mp hx).1
  rw [hsplit]
  by_cases hxl : x = left
  · subst hxl
    simp [hleft, hlo, eq_comm]
  by_cases hxr : x = right
  · subst hxr
    simp [hright, hro, eq_comm]
  -- a node that was there stays where it was, but for the one that is split
  rw [hi.mem_free]
  simp only [List.mem_cons, hxl, hxr, false_or, false_and, or_false]
  constructor
  · rintro ⟨⟨hx, hxf, hxo⟩, hxp⟩
    rw [cutShape_st_of_mem hfr hx, if_neg hxp, hd.origin x hx]
    exact ⟨hx, hxf, hxo⟩
  · rintro ⟨hx, hxf, hxo⟩
    rw [cutShape_st_of_mem hfr hx] at hxf
    rw [hd.origin x hx] at hxo
    split_ifs at hxf with hxp
    exact ⟨⟨hx, hxf, hxo⟩, hxp⟩

/-- What a successful split leaves. -/
structure SplitInto (s s' : UtSplit) (pool : Pool) (bits : Nat) (p left right : Word) : Prop where
  left_notMem : left ∉ s.mem
  right_notMem : right ∉ s.mem
  ne : right ≠ left
  mem : s'.mem = right :: left :: s.mem
  live : s'.live = s.live
  added : s'.added = s.added
  ut : ∀ x ∈ s.mem, (s'.node x).ut = (s.node x).ut
  parent : ∀ x ∈ s.mem, (s'.node x).parent = (s.node x).parent
  origin : ∀ x ∈ s.mem, (s'.node x).originHead = (s.node x).originHead
  paddr : ∀ x ∈ s.mem, (s'.node x).paddr = (s.node x).paddr
  paddr_left : (s'.node left).paddr = (s.node p).paddr
  paddr_right : (s'.node right).paddr = halfPaddr (s.node p).paddr bits

theorem SplitInto.cut (hd : SplitInto s s' pool bits p left right) (hq : q ∈ s.mem) :
    (cutShape g p left right bits).st q = (if q = p then .split left right else g.st q) ∧
    (cutShape g p left right bits).base q = g.base q :=
  cutShape_of_mem hd.left_notMem hd.right_notMem hq

/-- Two new nodes. -/
theorem fresh_withNode (hf : Forest s s.mem g) {c c' : Word} {e : Env} (e' : Env)
    (hl0 : left ≠ 0) (hl : left ∉ s.mem) (hc : s.slots c = false) (hcap : s.cap c = none) (hr0 : right ≠ 0)
    (hr : right ∉ (s.withNode e left c).mem) (hc' : (s.withNode e left c).slots c' = false)
    (hcap' : s.cap c' = none) :
    Fresh ((s.withNode e left c).withNode e' right c') s.mem left right := by
  have hne : right ≠ left := fun he => hr (he ▸ (.head _))
  have hcc : c' ≠ c := by
    rintro rfl
    simp [withNode] at hc'
  have hslot : s.slots c' = false := by
    simpa [withNode, hcc] using hc'
  have hrs : right ∉ s.mem := fun he => hr (.tail left he)
  have hql : ∀ q ∈ s.mem, q ≠ left := fun q hq he => hl (he ▸ hq)
  have hqr : ∀ q ∈ s.mem, q ≠ right := fun q hq he => hrs (he ▸ hq)
  refine ⟨hl0, hr0, hl, hrs, hne, fun q hq => ?_, fun q hq => ?_, ?_, ?_, ?_, ?_, ?_, rfl⟩
  · simpa [withNode, hqr q hq, hql q hq, hne.symm] using hf.ut_ne hq hc
  · simpa [withNode, hqr q hq, hql q hq] using hf.ut_ne hq hslot
  · simpa [withNode, hne.symm] using hcc
  · simpa [withNode, hne.symm] using hcap
  · simpa [withNode] using hcap'
  · simp [withNode, hne.symm, hcc.symm]
  · simp [withNode]

/-- **The rest of `_refill_pool`** once there is a node to split: it splits the node, or it leaves
everything as it was. -/
theorem splitNode_spec (hi : Inv s s.mem g l) (hl : l ⟨pool, bits + 1⟩ = A ++ p :: B) :
    (∃ s', s.splitNode pool bits p = some (false, s') ∧ Same s s' s.mem ∧ s'.mem = s.mem) ∨
    ∃ s' left right, s.splitNode pool bits p = some (true, s') ∧
      SplitInto s s' pool bits p left right ∧
      Inv s' s'.mem (cutShape g p left right bits) (splitLists l pool bits A B left right) := by
  have hpl : p ∈ l ⟨pool, bits + 1⟩ := hl ▸ List.mem_append_cons_self
  obtain ⟨hp, hst, horigin⟩ := (hi.mem_free _ p).mp hpl
  unfold splitNode
  rcases s.newNode_cases with ⟨e, he⟩ | ⟨left, c, e, hl0, hlm, hc, hcap, he⟩
  · rw [he]
    exact .inl ⟨_, rfl, same_env s e _, rfl⟩
  rw [he]
  dsimp only
  have hs1 : Same s (s.withNode e left c) s.mem := same_withNode (fun _ => id) e hlm
  rcases (s.withNode e left c).newNode_cases with ⟨e', he'⟩ | ⟨right, c', e', hr0, hrm, hc', hcap', he'⟩
  · rw [he']
    refine .inl ⟨_, rfl, (hs1.trans (same_env _ e' _)).trans (same_deleteNode fun q hq => ?_), ?_⟩
    · have hql : q ≠ left := fun he => hlm (he ▸ hq)
      simpa [withNode, hql] using hi.ut_ne hq hc
    · simp [deleteNode, mspaceFree, cspaceFree, cnodeDelete, withNode]
  rw [he']
  dsimp only
  have hfr := fresh_withNode hi.toForest e' hl0 hlm hc hcap hr0 hrm hc' hcap'
  have hs2 : Same s ((s.withNode e left c).withNode e' right c') s.mem :=
    hs1.trans (same_withNode (fun _ hq => List.mem_cons_of_mem left hq) e' hrm)
  generalize (s.withNode e left c).withNode e' right c' = s2 at hfr hs2 ⊢
  have hi2 := hi.congr hs2
  have horigin2 : (s2.node p).originHead = ⟨pool, bits + 1⟩ := by
    rw [hs2.node p hp]
    exact horigin
  have hbits : (s2.node p).originHead.bits = bits + 1 := congrArg HeadRef.bits horigin2
  rcases retypeHalves_cases hi2.toForest hfr hp hst hbits with
    ⟨s3, hs3, hsame, hmem⟩ | ⟨s3, hs3, hm⟩
  · rw [hs3]
    exact .inl ⟨s3, rfl, hs2.trans hsame, hmem⟩
  rw [hs3]
  dsimp only
  have hlisted : Listed s3 l := by
    have hlinks : s3.links = s2.links := by
      unfold links
      rw [hm.node]
    have hends : s3.ends l = s2.ends l := by
      unfold ends
      rw [hm.heads]
    unfold Listed
    rw [hlinks, hends]
    exact hi2.listed
  obtain ⟨s4, hs4, ho, hlisted4, hn⟩ := linkHalves_eq hlisted hl
    (fun i hx => hfr.left_notMem ((hi.mem_free i left).mp hx).1)
    (fun i hx => hfr.right_notMem ((hi.mem_free i right).mp hx).1)
    hfr.left_ne_null hfr.right_ne_null hfr.ne
  have hd : SplitDone s2 s4 s.mem pool bits p left right := by
    refine splitDone_of_halved hfr hp fun x => ?_
    obtain ⟨next, prev, hx⟩ := hn x
    refine ⟨next, prev, hx.trans ?_⟩
    unfold halved
    rw [hm.node]
  have hmem : s4.mem = right :: left :: s.mem := (ho.mem.trans hm.mem).trans hfr.mem
  rw [hs4]
  refine .inr ⟨s4, left, right, rfl, ?_, ?_⟩
  · refine ⟨hfr.left_notMem, hfr.right_notMem, hfr.ne, hmem, (ho.live.trans hm.live).trans hs2.live,
      (ho.added.trans hm.added).trans hs2.added, fun x hx => ?_, fun x hx => ?_, fun x hx => ?_, fun x hx => ?_, ?_, ?_⟩
    · rw [hd.ut, hs2.node x hx]
    · rw [hd.parent x hx, hs2.node x hx]
    · rw [hd.origin x hx, hs2.node x hx]
    · rw [hd.paddr x hx, hs2.node x hx]
    · rw [hd.at_left.2.2.2.2, hs2.node p hp]
    · rw [hd.at_right.2.2.2.2, hs2.node p hp]
  · rw [hmem]
    exact ⟨forest_cut hi2.toForest hfr hp horigin2 hd hm hst ho, hlisted4, mem_splitLists hi2 hl hfr hd⟩

/-- Where the split of a node is seen as the cut of a block. -/
theorem cut_buddy (hf : Forest s s.mem g) (hp : p ∈ s.mem) (hst : g.st p = .free)
    (hd : SplitInto s s' pool bits p left right) :
    Buddy.Cut (s.buddy g) (s'.buddy (cutShape g p left right bits)) (· ∈ s.mem) p left right := by
  refine ⟨?_, ?_, fun q hq hqp => ?_, fun q c d _ hk => ?_, hd.left_notMem, hd.right_notMem, ?_, ?_,
    fun q hq => ?_, fun q hq => ?_⟩
  · simp [buddy_kids_eq_none, hst]
  · simp [buddy_kids_eq_some, hd.cut hp]
  · simp [buddy, hd.cut hq, hqp]
  · obtain ⟨-, hk'⟩ := hf.split q c d (buddy_kids_eq_some.mp hk)
    exact ⟨hk'.left, hk'.right⟩
  · simp [buddy_kids_eq_none]
  · simp [buddy_kids_eq_none]
  · simp [buddy, hd.cut hq]
  · exact congrArg HeadRef.bits (hd.origin q hq)

end UtSplit

end SeL4.Allocman
