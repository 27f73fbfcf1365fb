import SeL4.Allocman.UtSplit
import SeL4.Lib.Buddy
import SeL4.Lib.Queue

/-!
# The invariant of the splitting allocator

The free lists are well-formed doubly linked lists (`Listed`), which `_remove_node` and `_insert_node`
keep (`listed_removeNode`, `listed_insertNode`). The nodes are the blocks of a buddy system: `Shape` says
what each one is used for and where its memory is, `Forest` how this shows in the pointers of the nodes
and in the capabilities of the kernel, and `Inv` is the two together.

`Same` says that nothing has changed that concerns the nodes. The calls of the node and slot allocators,
and the clean-up after a failure, are of this kind (`same_withNode`, `same_deleteNode`).
-/

namespace SeL4.Allocman

open SeL4.Lib SeL4.Object Function

namespace UtSplit

variable {s s' t : UtSplit} {l : HeadRef → List Word} {h : HeadRef} {p : Word} {A B : List Word}

/-! ## Free lists -/

/-- The links of all nodes. -/
def links (s : UtSplit) : Links Word := ⟨fun p => (s.node p).next, fun p => (s.node p).prev⟩

/-- The two ends of the free lists. -/
def ends (s : UtSplit) (l : HeadRef → List Word) (h : HeadRef) : Queue Word :=
  ⟨s.heads h, (l h).getLastD 0⟩

/-- The free lists hold `l`. -/
def Listed (s : UtSplit) (l : HeadRef → List Word) : Prop := Links.Queues 0 s.links (s.ends l) l

theorem Listed.head (hq : Listed s l) (h : HeadRef) : s.heads h = (l h).headD 0 := (hq.isQueue h).head

/-- Only nodes and heads differ. -/
structure OnlyNodes (s s' : UtSplit) : Prop where
  mem : s'.mem = s.mem
  slots : s'.slots = s.slots
  cap : s'.cap = s.cap
  live : s'.live = s.live
  added : s'.added = s.added

theorem OnlyNodes.refl (s : UtSplit) : OnlyNodes s s := ⟨rfl, rfl, rfl, rfl, rfl⟩

theorem OnlyNodes.trans (h : OnlyNodes s s') (h' : OnlyNodes s' t) : OnlyNodes s t :=
  ⟨h'.mem.trans h.mem, h'.slots.trans h.slots, h'.cap.trans h.cap, h'.live.trans h.live,
    h'.added.trans h.added⟩

/-- Only links and the `head` field of nodes differ. -/
def Relinked (s s' : UtSplit) (hd : Word → Option HeadRef) : Prop :=
  ∀ x, ∃ next prev, s'.node x = { s.node x with next := next, prev := prev, head := hd x }

theorem Relinked.fields {hd : Word → Option HeadRef} (h : Relinked s s' hd) :
    (∀ x, (s'.node x).ut = (s.node x).ut) ∧ (∀ x, (s'.node x).parent = (s.node x).parent) ∧
    (∀ x, (s'.node x).sibling = (s.node x).sibling) ∧
    (∀ x, (s'.node x).originHead = (s.node x).originHead) ∧ ∀ x, (s'.node x).head = hd x := by
  refine ⟨fun x => ?_, fun x => ?_, fun x => ?_, fun x => ?_, fun x => ?_⟩ <;>
  · obtain ⟨next, prev, hx⟩ := h x
    rw [hx]

section

variable (s p) (f : SplitNode → SplitNode)

theorem onlyNodes_modify : OnlyNodes s (s.modify p f) := ⟨rfl, rfl, rfl, rfl, rfl⟩

theorem modify_node (x : Word) : (s.modify p f).node x = if x = p then f (s.node x) else s.node x := by
  by_cases hx : x = p
  · subst hx
    simp [modify]
  · simp [modify, hx]

@[simp] theorem modify_heads :
    (s.modify p f).heads = s.heads := rfl

/-- A store that the code skips for a null pointer. -/
theorem storeUnlessNull :
    OnlyNodes s (if p ≠ 0 then s.modify p f else s) ∧ (if p ≠ 0 then s.modify p f else s).heads = s.heads ∧
      ∀ x, (if p ≠ 0 then s.modify p f else s).node x = if x = p ∧ p ≠ 0 then f (s.node x) else s.node x := by
  by_cases hp : p = 0
  · rw [if_neg (not_not.mpr hp)]
    exact ⟨.refl s, rfl, fun x => (if_neg fun hx => hx.2 hp).symm⟩
  · rw [if_pos hp]
    refine ⟨onlyNodes_modify s p f, rfl, fun x => ?_⟩
    simp only [modify_node, ne_eq, hp, not_false_eq_true, and_true]

end

/-- What `_remove_node` leaves in the nodes. Its assertion holds for the first node of the list. -/
theorem removeNode_eq (hself : p ≠ (s.node p).prev) (hfirst : (s.node p).prev = 0 → s.heads h = p) :
    ∃ s', s.removeNode h p = some s' ∧ OnlyNodes s s' ∧
      (∀ x, s'.node x = { s.node x with
        next := if x = (s.node p).prev ∧ (s.node p).prev ≠ 0 then (s.node p).next else (s.node x).next
        prev := if x = (s.node p).next ∧ (s.node p).next ≠ 0 then (s.node p).prev else (s.node x).prev
        head := if x = p then some h else (s.node x).head }) ∧
      s'.heads = if (s.node p).prev = 0 then update s.heads h (s.node p).next else s.heads := by
  -- what the first store leaves, the node itself unchanged
  obtain ⟨s1, hs1, hr1, hn1, hh1⟩ : ∃ s1, s.unlinkPrev h p = some s1 ∧ OnlyNodes s s1 ∧
      (∀ x, s1.node x = { s.node x with
        next := if x = (s.node p).prev ∧ (s.node p).prev ≠ 0 then (s.node p).next else (s.node x).next }) ∧
      s1.heads = if (s.node p).prev = 0 then update s.heads h (s.node p).next else s.heads := by
    unfold unlinkPrev
    by_cases ha : (s.node p).prev = 0
    · rw [if_neg (not_not.mpr ha), if_pos (hfirst ha), if_pos ha]
      exact ⟨_, rfl, ⟨rfl, rfl, rfl, rfl, rfl⟩, fun x => by rw [if_neg fun hx => hx.2 ha], rfl⟩
    · rw [if_pos ha, if_neg ha]
      refine ⟨_, rfl, onlyNodes_modify _ _ _, fun x => ?_, rfl⟩
      rw [modify_node]
      split_ifs <;> simp_all
  have hp1 : s1.node p = s.node p := by
    rw [hn1, if_neg fun hx => hself hx.1]
  obtain ⟨hr2, hh2, hn2⟩ := storeUnlessNull s1 (s1.node p).next fun m => { m with prev := (s1.node p).prev }
  refine ⟨(s1.unlinkNext p).modify p fun m => { m with head := some h }, by rw [removeNode, hs1]; rfl,
    (hr1.trans hr2).trans (onlyNodes_modify _ _ _), fun x => ?_, hh2.trans hh1⟩
  rw [modify_node, unlinkNext, hn2, hp1, hn1]
  split_ifs <;> rfl

/-- **`_remove_node`** takes a node out of its list. -/
theorem listed_removeNode (hq : Listed s l) (hl : l h = A ++ p :: B) :
    ∃ s', s.removeNode h p = some s' ∧ OnlyNodes s s' ∧ Listed s' (update l h (A ++ B)) ∧
      Relinked s s' fun x => if x = p then some h else (s.node x).head := by
  have hprev : (s.node p).prev = A.getLastD 0 := hq.prev_eq hl
  have hnext : (s.node p).next = B.headD 0 := hq.next_eq hl
  obtain ⟨hA, hp, hB⟩ : (0 : Word) ∉ A ∧ ¬ 0 = p ∧ 0 ∉ B := by simpa [hl] using hq.null_notMem h
  have hhead : s.heads h = (A ++ p :: B).headD 0 := hl ▸ hq.head h
  have hfirst : (s.node p).prev = 0 → s.heads h = p := by
    rw [hprev, getLastD_eq_null_iff hA]
    rintro rfl
    exact hhead
  have hself : p ≠ (s.node p).prev := by
    intro he
    have hlast := (getLast?_eq_some_iff hA).mpr ⟨he.trans hprev, fun h0 => hp (he.trans (hprev.trans h0)).symm⟩
    exact (hq.notMem_sides hl).1 (List.mem_of_getLast? hlast)
  obtain ⟨s', hs', hr, hn, hh⟩ := removeNode_eq hself hfirst
  simp only [hprev, hnext] at hn hh
  refine ⟨s', hs', hr, ?_, fun x => ⟨_, _, hn x⟩⟩
  refine Links.Queues.remove hq hl (fun y _ => ⟨?_, ?_⟩) ?_ ?_ fun j hj => ?_
  · simp only [getLast?_eq_some_iff hA]
    exact congrArg SplitNode.next (hn y)
  · simp only [head?_eq_some_iff hB]
    exact congrArg SplitNode.prev (hn y)
  · show s'.heads h = _
    rw [hh]
    cases A with
    | nil => exact update_self ..
    | cons a A => rw [if_neg (mt (getLastD_eq_null_iff hA).mp (List.cons_ne_nil a A)), hhead]; rfl
  · show (update l h (A ++ B) h).getLastD 0 = _
    rw [update_self]
  · unfold ends
    rw [hh, update_of_ne hj]
    split_ifs
    · rw [update_of_ne hj]
    · rfl

/-- What `_insert_node` leaves in the nodes, for a node that is not in the list. -/
theorem insertNode_eq (hself : p ≠ s.heads h) :
    OnlyNodes s (s.insertNode h p) ∧
      (∀ x, (s.insertNode h p).node x = if x = p then
        { s.node x with next := s.heads h, prev := 0, head := none }
        else { s.node x with prev := if x = s.heads h ∧ s.heads h ≠ 0 then p else (s.node x).prev }) ∧
      (s.insertNode h p).heads = update s.heads h p := by
  obtain ⟨hr, hh, hn⟩ := storeUnlessNull (s.modify p fun m => { m with next := s.heads h, prev := 0 })
    (s.heads h) fun m => { m with prev := p }
  unfold insertNode linkNext
  refine ⟨⟨hr.mem, hr.slots, hr.cap, hr.live, hr.added⟩, fun x => ?_, ?_⟩
  · rw [modify_node]
    rw [modify_heads, hn, modify_node]
    by_cases hx : x = p
    · simp only [if_pos hx, if_neg fun he : x = s.heads h ∧ _ => hself (hx ▸ he.1)]
    · split_ifs <;> rfl
  · exact congrArg (fun hs => update hs h p) hh

/-- **`_insert_node`** puts a node in front of a list. -/
theorem listed_insertNode (hq : Listed s l) (hp : ∀ i, p ∉ l i) (hp0 : p ≠ 0) :
    OnlyNodes s (s.insertNode h p) ∧ Listed (s.insertNode h p) (update l h (p :: l h)) ∧
      Relinked s (s.insertNode h p) fun x => if x = p then none else (s.node x).head := by
  have hfirst := fun x => head?_eq_some_iff (x := x) (hq.null_notMem h)
  simp only [← hq.head h] at hfirst
  have hself : p ≠ s.heads h := fun he =>
    hp h (List.mem_of_mem_head? ((hfirst p).mpr ⟨he, fun h0 => hp0 (he.trans h0)⟩))
  obtain ⟨hr, hn, hh⟩ := insertNode_eq hself
  have hother : ∀ y ≠ p, _ := fun y hy => (hn y).trans (if_neg hy)
  refine ⟨hr, ?_, fun x => ?_⟩
  · refine Links.Queues.insert (A := []) hq rfl hp hp0 ?_ ?_ (fun y hy => ⟨?_, ?_⟩) ?_ ?_ fun j hj => ?_
    · exact congrArg SplitNode.prev ((hn p).trans (if_pos rfl))
    · exact (congrArg SplitNode.next ((hn p).trans (if_pos rfl))).trans (hq.head h)
    · show ((s.insertNode h p).node y).next = _
      rw [hother y hy]
      rfl
    · simp only [hfirst]
      exact congrArg SplitNode.prev (hother y hy)
    · exact (congrFun hh h).trans (update_self ..)
    · show (update l h (p :: l h) h).getLastD 0 = _
      rw [update_self]
    · unfold ends
      rw [hh, update_of_ne hj, update_of_ne hj]
  · rw [hn]
    by_cases hx : x = p
    · simp only [if_pos hx]
      exact ⟨_, _, rfl⟩
    · simp only [if_neg hx]
      exact ⟨_, _, rfl⟩

/-- The lists without the node between `A` and `B`. -/
theorem mem_removed (hq : Listed s l) (hl : l h = A ++ p :: B) (i : HeadRef) (x : Word) :
    x ∈ update l h (A ++ B) i ↔ x ∈ l i ∧ x ≠ p := by
  have hp : p ∈ l h := hl ▸ List.mem_append_cons_self
  rw [update_apply]
  split_ifs with hi
  · subst hi
    obtain ⟨hpA, hpB⟩ := hq.notMem_sides hl
    rw [hl]
    constructor
    · intro hx
      have hxp : x ≠ p := by
        rintro rfl
        exact (List.mem_append.mp hx).elim hpA hpB
      exact ⟨(mem_append_cons_of_ne hxp).mpr hx, hxp⟩
    · rintro ⟨hx, hxp⟩
      exact (mem_append_cons_of_ne hxp).mp hx
  · refine ⟨fun hx => ⟨hx, ?_⟩, And.left⟩
    rintro rfl
    exact hi (hq.disjoint i h x hx hp)

/-- The lists with a node in front of one. -/
theorem mem_inserted (i : HeadRef) (x : Word) :
    x ∈ update l h (p :: l h) i ↔ x ∈ l i ∨ (x = p ∧ i = h) := by
  rw [update_apply]
  split_ifs with hi
  · subst hi
    simp [or_comm]
  · simp [hi]

/-- The loops over a free list see all of it. -/
theorem freeList_eq (hq : Listed s l) (hlen : (l h).length ≤ s.mem.length) : s.freeList h = l h := by
  have hwalk : ∀ (n : Nat) (m : List Word) (q : Word), s.links.Chain q m 0 → (0 : Word) ∉ m →
      m.length ≤ n → s.walk n (m.headD 0) = m := by
    intro n
    induction n with
    | zero =>
      intro m q _ _ hm
      rw [List.eq_nil_of_length_eq_zero (Nat.le_zero.mp hm)]
      rfl
    | succ n ih =>
      intro m q hc h0 hm
      cases m with
      | nil => simp [walk]
      | cons a m =>
        have ha : a ≠ 0 := fun ha => h0 (ha ▸ (.head _))
        have hnext : (s.node a).next = m.headD 0 := hc.2.1
        have hm' : m.length ≤ n := by simpa using hm
        simp only [List.headD_cons, walk, if_neg ha, hnext]
        rw [ih m a hc.2.2 (fun hm => h0 (List.mem_cons_of_mem a hm)) hm']
  have hhead := hq.head h
  unfold freeList
  rw [hhead]
  exact hwalk _ _ _ (hq.isQueue h).chain (hq.null_notMem h) hlen

/-! ## The forest of nodes -/

end UtSplit

/-- What a node is used for: it is in a free list, allocated, split into two nodes, or on its way back
into a free list. -/
inductive NodeState
  | free | live | split (left right : Word) | hand
  deriving DecidableEq

/-- The use of each node, and the address of its memory. -/
structure Shape where
  st : Word → NodeState
  base : Word → Nat

namespace UtSplit

/-- The blocks of memory that the nodes stand for. -/
def buddy (s : UtSplit) (g : Shape) : Buddy Word where
  base := g.base
  bits p := (s.node p).originHead.bits
  kids p :=
    match g.st p with
    | .split a b => some (a, b)
    | _ => none

/-- The children of the capability of a node. -/
def ChildrenOk (s : UtSplit) (children : List Word) : NodeState → Prop
  | .free | .hand => children = []
  | .split a b => children = [(s.node b).ut, (s.node a).ut]
  | .live => True

/-- The halves of a node that is split. -/
structure Kids (s : UtSplit) (F : List Word) (g : Shape) (p a b : Word) : Prop where
  left : a ∈ F
  right : b ∈ F
  ne : a ≠ b
  parent_left : (s.node a).parent = p
  parent_right : (s.node b).parent = p
  sibling_left : (s.node a).sibling = b
  sibling_right : (s.node b).sibling = a
  bits : (s.node p).originHead.bits = (s.node a).originHead.bits + 1
  pool : (s.node p).originHead.pool = (s.node a).originHead.pool
  origin : (s.node b).originHead = (s.node a).originHead
  base_left : g.base a = g.base p
  base_right : g.base b = g.base p + 2 ^ (s.node a).originHead.bits

/-- The nodes `F` are a forest of the shape `g`. -/
structure Forest (s : UtSplit) (F : List Word) (g : Shape) : Prop where
  nodup : F.Nodup
  ne_null : ∀ p ∈ F, p ≠ 0
  bits_lt : ∀ p ∈ F, (s.node p).originHead.bits < 64
  ut_inj : ∀ p ∈ F, ∀ q ∈ F, (s.node p).ut = (s.node q).ut → p = q
  slots : ∀ p ∈ F, s.slots (s.node p).ut = true
  head : ∀ p ∈ F, (s.node p).head = if g.st p = .free then none else some (s.node p).originHead
  cap : ∀ p ∈ F, ∃ c, s.cap (s.node p).ut = some c ∧ c.untyped = true ∧ c.base = g.base p ∧
    c.bits = (s.node p).originHead.bits ∧ s.ChildrenOk c.children (g.st p)
  live : ∀ p n, (p, n) ∈ s.live ↔ p ∈ F ∧ g.st p = .live ∧ (s.node p).originHead.bits = n
  live_nodup : s.live.Nodup
  split : ∀ p a b, g.st p = .split a b → p ∈ F ∧ Kids s F g p a b
  parent : ∀ q ∈ F, (s.node q).parent ≠ 0 → ∃ a b, g.st (s.node q).parent = .split a b ∧ (q = a ∨ q = b)
  added : ∀ u, u ∈ s.added ↔ ∃ p ∈ F, (s.node p).parent = 0 ∧
    u = ⟨(s.node p).ut, (s.node p).originHead, g.base p⟩
  added_nodup : s.added.Nodup

/-- The forest, with the free nodes in the lists `l`. -/
structure Inv (s : UtSplit) (F : List Word) (g : Shape) (l : HeadRef → List Word) : Prop
    extends Forest s F g where
  listed : Listed s l
  mem_free : ∀ h p, p ∈ l h ↔ p ∈ F ∧ g.st p = .free ∧ (s.node p).originHead = h

variable {s s' t : UtSplit} {l : HeadRef → List Word} {h : HeadRef} {p q a b c : Word}
  {F : List Word} {g : Shape}

theorem buddy_kids_eq_some : (s.buddy g).kids p = some (a, b) ↔ g.st p = .split a b := by
  unfold buddy
  dsimp only
  cases g.st p <;> simp

theorem buddy_kids_eq_none : (s.buddy g).kids p = none ↔ ∀ a b, g.st p ≠ .split a b := by
  unfold buddy
  dsimp only
  cases g.st p <;> simp

theorem Forest.halves (hf : Forest s F g) : (s.buddy g).Halves := by
  intro p a b hk
  obtain ⟨-, hkids⟩ := hf.split p a b (buddy_kids_eq_some.mp hk)
  exact ⟨hkids.bits, congrArg HeadRef.bits hkids.origin, hkids.base_left, hkids.base_right⟩

/-- Nothing that concerns the nodes `F` differs, but for how much of their untypeds is used up and what
was made from those that are allocated. -/
structure Same (s s' : UtSplit) (F : List Word) : Prop where
  node : ∀ p ∈ F, s'.node p = s.node p
  heads : s'.heads = s.heads
  slots : ∀ p ∈ F, s.slots (s.node p).ut = true → s'.slots (s.node p).ut = true
  cap : ∀ p ∈ F, ∀ c, s.cap (s.node p).ut = some c → ∃ c', s'.cap (s.node p).ut = some c' ∧
    c'.untyped = c.untyped ∧ c'.base = c.base ∧ c'.bits = c.bits ∧ (c.children = [] → c'.children = []) ∧
    ∀ a ∈ F, ∀ b ∈ F, c.children = [(s.node b).ut, (s.node a).ut] → c'.children = c.children
  live : s'.live = s.live
  added : s'.added = s.added

theorem Same.refl (s : UtSplit) (F : List Word) : Same s s F :=
  ⟨fun _ _ => rfl, rfl, fun _ _ => id, fun _ _ c hc => ⟨c, hc, rfl, rfl, rfl, id, fun _ _ _ _ _ => rfl⟩,
    rfl, rfl⟩

theorem Same.trans (h : Same s s' F) (h' : Same s' t F) : Same s t F where
  node p hp := (h'.node p hp).trans (h.node p hp)
  heads := h'.heads.trans h.heads
  slots p hp hs := by
    have hs' := h'.slots p hp
    rw [h.node p hp] at hs'
    exact hs' (h.slots p hp hs)
  cap p hp c hc := by
    obtain ⟨c', hc', hu, hb, hn, hnil, hsplit⟩ := h.cap p hp c hc
    have hcap := h'.cap p hp c'
    rw [h.node p hp] at hcap
    obtain ⟨c'', hc'', hu', hb', hn', hnil', hsplit'⟩ := hcap hc'
    refine ⟨c'', hc'', hu'.trans hu, hb'.trans hb, hn'.trans hn, fun he => hnil' (hnil he), ?_⟩
    intro a ha b hb'' he
    have he' := hsplit a ha b hb'' he
    have hab := hsplit' a ha b hb''
    rw [h.node a ha, h.node b hb''] at hab
    exact (hab (he'.trans he)).trans he'
  live := h'.live.trans h.live
  added := h'.added.trans h.added

/-- Nodes that keep their place are still the halves. -/
theorem Kids.congr {F' : List Word} {g' : Shape} (h : Kids s F g p a b) (hp : p ∈ F)
    (hF : ∀ x ∈ F, x ∈ F') (hparent : ∀ x ∈ F, (s'.node x).parent = (s.node x).parent)
    (hsibling : ∀ x ∈ F, (s'.node x).sibling = (s.node x).sibling)
    (horigin : ∀ x ∈ F, (s'.node x).originHead = (s.node x).originHead)
    (hbase : ∀ x ∈ F, g'.base x = g.base x) : Kids s' F' g' p a b := by
  have ha := h.left
  have hb := h.right
  refine ⟨hF a ha, hF b hb, h.ne, ?_, ?_, ?_, ?_, ?_, ?_, ?_, ?_, ?_⟩ <;>
    simp only [hparent a ha, hparent b hb, hsibling a ha, hsibling b hb, horigin a ha, horigin b hb,
      horigin p hp, hbase a ha, hbase b hb, hbase p hp]
  exacts [h.parent_left, h.parent_right, h.sibling_left, h.sibling_right, h.bits, h.pool, h.origin,
    h.base_left, h.base_right]

/-- What the forest says about one node. -/
structure NodeOk (s : UtSplit) (g : Shape) (p : Word) : Prop where
  ne_null : p ≠ 0
  bits_lt : (s.node p).originHead.bits < 64
  slots : s.slots (s.node p).ut = true
  head : (s.node p).head = if g.st p = .free then none else some (s.node p).originHead
  cap : ∃ c, s.cap (s.node p).ut = some c ∧ c.untyped = true ∧ c.base = g.base p ∧
    c.bits = (s.node p).originHead.bits ∧ s.ChildrenOk c.children (g.st p)
  parent : (s.node p).parent ≠ 0 → ∃ a b, g.st (s.node p).parent = .split a b ∧ (p = a ∨ p = b)

theorem Forest.nodeOk (hf : Forest s F g) (hp : p ∈ F) : NodeOk s g p :=
  ⟨hf.ne_null p hp, hf.bits_lt p hp, hf.slots p hp, hf.head p hp, hf.cap p hp, hf.parent p hp⟩

/-- A node that keeps its place may change its use. -/
theorem NodeOk.move {g' : Shape} (h : NodeOk s g p) (hut : (s'.node p).ut = (s.node p).ut)
    (hparent : (s'.node p).parent = (s.node p).parent)
    (horigin : (s'.node p).originHead = (s.node p).originHead)
    (hhead : (s'.node p).head = if g'.st p = .free then none else some (s.node p).originHead)
    (hslots : s'.slots (s.node p).ut = true)
    (hcap : ∃ c, s'.cap (s.node p).ut = some c ∧ c.untyped = true ∧ c.base = g'.base p ∧
      c.bits = (s.node p).originHead.bits ∧ s'.ChildrenOk c.children (g'.st p))
    (hsplit : ∀ a b, g.st (s.node p).parent = .split a b → p = a ∨ p = b →
      g'.st (s.node p).parent = .split a b) : NodeOk s' g' p := by
  refine ⟨h.ne_null, ?_, ?_, ?_, ?_, ?_⟩ <;> simp only [hut, hparent, horigin]
  · exact h.bits_lt
  · exact hslots
  · exact hhead
  · exact hcap
  · intro hpar
    obtain ⟨a, b, hab, hp⟩ := h.parent hpar
    exact ⟨a, b, hsplit a b hab hp, hp⟩

/-- A slot that is not in use is that of no node. -/
theorem Forest.ut_ne (hf : Forest s F g) (hq : q ∈ F) (hc : s.slots c = false) :
    (s.node q).ut ≠ c := by
  rintro rfl
  exact nomatch (hf.slots q hq).symm.trans hc

/-- What does not concern the nodes keeps the forest. -/
theorem Forest.congr (hf : Forest s F g) (hs : Same s s' F) : Forest s' F g := by
  have hok : ∀ p ∈ F, NodeOk s' g p := by
    intro p hp
    have hn := hs.node p hp
    refine (hf.nodeOk hp).move (by rw [hn]) (by rw [hn]) (by rw [hn]) (hn ▸ hf.head p hp)
      (hs.slots p hp (hf.slots p hp)) ?_ fun _ _ hab _ => hab
    obtain ⟨c, hc, hu, hb, hn, hch⟩ := hf.cap p hp
    obtain ⟨c', hc', hu', hb', hn', hnil, hsplit⟩ := hs.cap p hp c hc
    refine ⟨c', hc', hu'.trans hu, hb'.trans hb, hn'.trans hn, ?_⟩
    cases hst : g.st p with
    | live => trivial
    | split a b =>
      rw [hst] at hch
      obtain ⟨-, hk⟩ := hf.split p a b hst
      show c'.children = [(s'.node b).ut, (s'.node a).ut]
      rw [hs.node a hk.left, hs.node b hk.right, hsplit a hk.left b hk.right hch]
      exact hch
    | _ =>
      rw [hst] at hch
      exact hnil hch
  refine ⟨hf.nodup, hf.ne_null, fun p hp => (hok p hp).bits_lt, fun p hp q hq hpq => ?_,
    fun p hp => (hok p hp).slots, fun p hp => (hok p hp).head, fun p hp => (hok p hp).cap, fun p n => ?_,
    hs.live ▸ hf.live_nodup, fun p a b hst => ?_, fun p hp => (hok p hp).parent, fun u => ?_,
    hs.added ▸ hf.added_nodup⟩
  · rw [hs.node p hp, hs.node q hq] at hpq
    exact hf.ut_inj p hp q hq hpq
  · rw [hs.live, hf.live]
    exact and_congr_right fun hp => by rw [hs.node p hp]
  · obtain ⟨hp, hk⟩ := hf.split p a b hst
    refine ⟨hp, hk.congr hp (fun _ => id) (fun x hx => ?_) (fun x hx => ?_) (fun x hx => ?_) fun _ _ => rfl⟩
    all_goals rw [hs.node x hx]
  · rw [hs.added, hf.added]
    exact exists_congr fun p => and_congr_right fun hp => by rw [hs.node p hp]

theorem Inv.congr (hi : Inv s F g l) (hs : Same s s' F) : Inv s' F g l where
  toForest := hi.toForest.congr hs
  listed := by
    have hlinks : ∀ h, ∀ x ∈ l h, s'.links.next x = s.links.next x ∧ s'.links.prev x = s.links.prev x := by
      intro h x hx
      have hn := hs.node x ((hi.mem_free h x).mp hx).1
      exact ⟨congrArg SplitNode.next hn, congrArg SplitNode.prev hn⟩
    refine ⟨fun h => ?_, hi.listed.nodup, hi.listed.disjoint, hi.listed.ne_null⟩
    obtain ⟨hc, hhead, htail⟩ := hi.listed.isQueue h
    exact ⟨Links.chain_congr (hlinks h) hc, (congrFun hs.heads h).trans hhead, htail⟩
  mem_free h p := by
    rw [hi.mem_free]
    exact and_congr_right fun hp => by rw [hs.node p hp]

/-! ## The environment -/

/-- `allocman_mspace_alloc` fails or gives an address that is not in use. -/
theorem mspaceAlloc_cases (s : UtSplit) :
    (∃ e, s.mspaceAlloc = (none, { s with env := e })) ∨
    ∃ p e, p ≠ 0 ∧ p ∉ s.mem ∧ s.mspaceAlloc = (some p, { s with env := e, mem := p :: s.mem }) := by
  unfold mspaceAlloc
  cases s.env.mspace.head?.join with
  | none => exact .inl ⟨_, rfl⟩
  | some p =>
    by_cases hp : p ≠ 0 ∧ p ∉ s.mem
    · exact .inr ⟨p, _, hp.1, hp.2, if_pos hp⟩
    · exact .inl ⟨_, if_neg hp⟩

/-- `allocman_cspace_alloc` fails or gives a slot that is not in use. -/
theorem cspaceAlloc_cases (s : UtSplit) :
    (∃ e, s.cspaceAlloc = (none, { s with env := e })) ∨
    ∃ c e, s.slots c = false ∧ s.cap c = none ∧
      s.cspaceAlloc = (some c, { s with env := e, slots := update s.slots c true }) := by
  unfold cspaceAlloc
  cases s.env.cspace.head?.join with
  | none => exact .inl ⟨_, rfl⟩
  | some c =>
    by_cases hc : s.slots c = false ∧ (s.cap c).isNone = true
    · exact .inr ⟨c, _, hc.1, Option.isNone_iff_eq_none.mp hc.2, if_pos hc⟩
    · exact .inl ⟨_, if_neg hc⟩

/-- A node at `p` with the slot `c` is handed out. -/
def withNode (s : UtSplit) (e : Env) (p c : Word) : UtSplit :=
  { s with
    env := e
    mem := p :: s.mem
    slots := update s.slots c true
    node := update s.node p { s.node p with ut := c } }

theorem newNode_cases (s : UtSplit) :
    (∃ e, s.newNode = (none, { s with env := e })) ∨
    ∃ p c e, p ≠ 0 ∧ p ∉ s.mem ∧ s.slots c = false ∧ s.cap c = none ∧
      s.newNode = (some p, s.withNode e p c) := by
  unfold newNode
  rcases s.mspaceAlloc_cases with ⟨e, he⟩ | ⟨p, e, hp0, hp, he⟩
  · rw [he]
    exact .inl ⟨e, rfl⟩
  · rw [he]
    dsimp only
    rcases cspaceAlloc_cases { s with env := e, mem := p :: s.mem } with ⟨e', he'⟩ | ⟨c, e', hs, hc, he'⟩
    · rw [he']
      refine .inl ⟨e', ?_⟩
      simp [mspaceFree]
    · rw [he']
      exact .inr ⟨p, c, e', hp0, hp, hs, hc, rfl⟩

theorem same_env (s : UtSplit) (e : Env) (F : List Word) : Same s { s with env := e } F :=
  ⟨fun _ _ => rfl, rfl, fun _ _ => id, fun _ _ c hc => ⟨c, hc, rfl, rfl, rfl, id, fun _ _ _ _ _ => rfl⟩,
    rfl, rfl⟩

/-- A new node is none of the nodes there are. -/
theorem same_withNode (hF : ∀ q ∈ F, q ∈ s.mem) (e : Env) (hp : p ∉ s.mem) :
    Same s (s.withNode e p c) F where
  node q hq := by
    have hqp : q ≠ p := by
      rintro rfl
      exact hp (hF q hq)
    exact update_of_ne hqp _ _
  heads := rfl
  slots q _ hs := by
    show update s.slots c true (s.node q).ut = true
    rw [update_apply, hs]
    split_ifs <;> rfl
  cap _ _ c hc := ⟨c, hc, rfl, rfl, rfl, id, fun _ _ _ _ _ => rfl⟩
  live := rfl
  added := rfl

theorem filter_pair (ha : a ≠ c) (hb : b ≠ c) : [b, a].filter (· ≠ c) = [b, a] := by
  simp [ha, hb]

theorem same_cnodeDelete (hc : ∀ q ∈ F, (s.node q).ut ≠ c) : Same s (s.cnodeDelete c) F where
  node _ _ := rfl
  heads := rfl
  slots _ _ := id
  cap q hq u hu := by
    refine ⟨{ u with children := u.children.filter (· ≠ c) }, ?_, rfl, rfl, rfl, fun he => ?_, ?_⟩
    · show (if (s.node q).ut = c then none else _) = _
      rw [if_neg (hc q hq), hu]
      rfl
    · rw [he]
      rfl
    · intro a ha b hb he
      rw [he]
      exact filter_pair (hc a ha) (hc b hb)
  live := rfl
  added := rfl

/-- A node that is not one of `F` is deleted. -/
theorem same_deleteNode (hc : ∀ q ∈ F, (s.node q).ut ≠ (s.node p).ut) : Same s (s.deleteNode p) F := by
  have hd := same_cnodeDelete hc
  refine ⟨hd.node, hd.heads, fun q hq hs => ?_, hd.cap, hd.live, hd.added⟩
  show update s.slots (s.node p).ut false (s.node q).ut = true
  rw [update_of_ne (hc q hq)]
  exact hs

/-- The capability `v` is made in `dst` from the one in `src`, which is now `u`. -/
def withCap (s : UtSplit) (e : Env) (src : Word) (u : KernelCap) (dst : Word) (v : KernelCap) : UtSplit :=
  { s with
    env := e
    cap := update (update s.cap src (some u)) dst (some v) }

/-- `seL4_Untyped_Retype` fails, or makes an object where there is room. -/
theorem retype_cases (s : UtSplit) (src dst : Word) (bits : Nat) (untyped : Bool) :
    (∃ e, s.retype src dst bits untyped = (false, { s with env := e })) ∨
    ∃ u e, s.cap src = some u ∧ s.cap dst = none ∧
      s.retype src dst bits untyped = (true, s.withCap e
        src { u with offset := KernelCap.start u bits + 2 ^ bits, children := dst :: u.children }
        dst ⟨untyped, u.base + KernelCap.start u bits, bits, 0, []⟩) := by
  unfold retype
  cases hu : s.cap src with
  | none => exact .inl ⟨_, rfl⟩
  | some u =>
    dsimp only
    split_ifs with hok
    · exact .inr ⟨u, _, rfl, Option.isNone_iff_eq_none.mp hok.2.2.1, rfl⟩
    · exact .inl ⟨_, rfl⟩

/-- An untyped without children is used from its start. -/
theorem start_nil {u : KernelCap} (bits : Nat) (hu : u.children = []) : KernelCap.start u bits = 0 := by
  have hpos : 2 ^ bits - 1 < 2 ^ bits := Nat.sub_lt (Nat.two_pow_pos bits) Nat.one_pos
  simp [KernelCap.start, hu]

/-- Behind one child of the same size. -/
theorem start_cons {u : KernelCap} (bits : Nat) (hu : u.children ≠ []) (ho : u.offset = 2 ^ bits) :
    KernelCap.start u bits = 2 ^ bits := by
  have hpos := Nat.two_pow_pos bits
  have hdiv : (2 ^ bits + 2 ^ bits - 1) / 2 ^ bits = 1 := by
    rw [Nat.div_eq_iff hpos]
    omega
  simp [KernelCap.start, hu, ho, hdiv]

end UtSplit

end SeL4.Allocman
