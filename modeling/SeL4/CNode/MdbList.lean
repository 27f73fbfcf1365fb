import SeL4.Object.Cte

/-!
# The derivation list stays a list

The MDB links of all slots form disjoint doubly linked lists that hold exactly the occupied slots
(`MdbLists`). Every operation of `cnode.c` that writes links is, on the links, one of the edits of
`SeL4.Lib.Links`:

* `links_cteInsert`, `links_insertNewCap`: the new slot goes right behind the source or parent;
* `links_cteMove`: the destination takes the place of the source;
* `links_cteSwap`: the two slots exchange their places, neighbours included;
* `links_emptySlot`: the slot is spliced out.

So each of them takes `MdbLists` to `MdbLists`, with the lists changed accordingly
(`MdbOp.mdbLists`), and `mdb_lists_invariant` says so for every state reachable from boot.
-/

namespace SeL4.Object.CteHeap

open SeL4.Lib

/-! ## What a write leaves -/

section Writes

variable (h : CteHeap) (p v x : Word) (c : Cap) (k : Cte) (n : MdbNode) (b : Bool) {α : Type}

/-- A field of a slot after a write. -/
theorem field_set (g : Cte → α) : g (h.set p k x) = if x = p then g k else g (h x) :=
  apply_ite g (x = p) k (h x)

/-- A write leaves a field alone that the new slot has from the old one. -/
theorem field_set_of_eq (g : Cte → α) {k : Cte} (hk : g k = g (h p)) :
    g (h.set p k x) = g (h x) := by
  rw [field_set h p x k g]
  split_ifs with hx
  · rw [hk, hx]
  · rfl

theorem node_set : (h.set p k x).cteMDBNode = if x = p then k.cteMDBNode else (h x).cteMDBNode :=
  field_set h p x k Cte.cteMDBNode

theorem cap_set : (h.set p k x).cap = if x = p then k.cap else (h x).cap := field_set h p x k Cte.cap

theorem node_setCap : (h.setCap p c x).cteMDBNode = (h x).cteMDBNode :=
  field_set_of_eq h p x Cte.cteMDBNode rfl

theorem cap_setCap : (h.setCap p c x).cap = if x = p then c else (h x).cap := field_set h p x _ Cte.cap

theorem node_setNode : (h.setNode p n x).cteMDBNode = if x = p then n else (h x).cteMDBNode :=
  field_set h p x _ Cte.cteMDBNode

theorem cap_setNode : (h.setNode p n x).cap = (h x).cap := field_set_of_eq h p x Cte.cap rfl

theorem next_setNext : (h.setNext p v x).cteMDBNode.mdbNext =
    if x = p then v else (h x).cteMDBNode.mdbNext :=
  field_set h p x _ fun k => k.cteMDBNode.mdbNext

theorem prev_setNext : (h.setNext p v x).cteMDBNode.mdbPrev = (h x).cteMDBNode.mdbPrev :=
  field_set_of_eq h p x (fun k => k.cteMDBNode.mdbPrev) rfl

variable {h p x} {f : CteHeap → CteHeap} {g : Cte → α}

/-- A guarded write leaves a field alone that the write leaves alone. -/
theorem ifPtr_of_eq (hf : g (f h x) = g (h x)) : g (h.ifPtr p f x) = g (h x) := by
  unfold ifPtr
  split_ifs
  · rfl
  · exact hf

/-- A guarded write of a field. -/
theorem ifPtr_of_ite {a : α} (hf : g (f h x) = if x = p then a else g (h x)) :
    g (h.ifPtr p f x) = if x = p ∧ x ≠ 0 then a else g (h x) := by
  unfold ifPtr
  by_cases hp : p = 0
  · have hx : ¬ (x = p ∧ x ≠ 0) := fun hx => hx.2 (hx.1.trans hp)
    rw [if_pos hp, if_neg hx]
  · rw [if_neg hp, hf]
    by_cases hx : x = p
    · rw [if_pos hx, if_pos ⟨hx, fun he => hp (hx.symm.trans he)⟩]
    · rw [if_neg hx, if_neg fun hx' => hx hx'.1]

end Writes

section Guarded

variable (h : CteHeap) (p v x : Word) (b : Bool)

theorem next_ifPtr_setNext : (h.ifPtr p (setNext p v) x).cteMDBNode.mdbNext =
    if x = p ∧ x ≠ 0 then v else (h x).cteMDBNode.mdbNext :=
  ifPtr_of_ite (g := fun c => c.cteMDBNode.mdbNext) (next_setNext h p v x)

theorem prev_ifPtr_setNext : (h.ifPtr p (setNext p v) x).cteMDBNode.mdbPrev = (h x).cteMDBNode.mdbPrev :=
  ifPtr_of_eq (g := fun c => c.cteMDBNode.mdbPrev) (prev_setNext h p v x)

theorem next_ifPtr_setPrev : (h.ifPtr p (setPrev p v) x).cteMDBNode.mdbNext = (h x).cteMDBNode.mdbNext :=
  ifPtr_of_eq (g := fun c => c.cteMDBNode.mdbNext)
    (field_set_of_eq h p x (fun c => c.cteMDBNode.mdbNext) rfl)

theorem prev_ifPtr_setPrev : (h.ifPtr p (setPrev p v) x).cteMDBNode.mdbPrev =
    if x = p ∧ x ≠ 0 then v else (h x).cteMDBNode.mdbPrev :=
  ifPtr_of_ite (g := fun c => c.cteMDBNode.mdbPrev)
    (field_set h p x _ fun c => c.cteMDBNode.mdbPrev)

theorem next_ifPtr_setFirstBadged :
    (h.ifPtr p (setFirstBadged p b) x).cteMDBNode.mdbNext = (h x).cteMDBNode.mdbNext :=
  ifPtr_of_eq (g := fun c => c.cteMDBNode.mdbNext)
    (field_set_of_eq h p x (fun c => c.cteMDBNode.mdbNext) rfl)

theorem prev_ifPtr_setFirstBadged :
    (h.ifPtr p (setFirstBadged p b) x).cteMDBNode.mdbPrev = (h x).cteMDBNode.mdbPrev :=
  ifPtr_of_eq (g := fun c => c.cteMDBNode.mdbPrev)
    (field_set_of_eq h p x (fun c => c.cteMDBNode.mdbPrev) rfl)

theorem cap_ifPtr_setNext : (h.ifPtr p (setNext p v) x).cap = (h x).cap :=
  ifPtr_of_eq (cap_setNode h p x _)

theorem cap_ifPtr_setPrev : (h.ifPtr p (setPrev p v) x).cap = (h x).cap :=
  ifPtr_of_eq (cap_setNode h p x _)

theorem cap_ifPtr_setFirstBadged : (h.ifPtr p (setFirstBadged p b) x).cap = (h x).cap :=
  ifPtr_of_eq (cap_setNode h p x _)

end Guarded

/-! ## The operations on the links -/

section Links

variable (h : CteHeap)

theorem node_setUntypedCapAsFull (c d : Cap) (s x : Word) :
    (h.setUntypedCapAsFull c d s x).cteMDBNode = (h x).cteMDBNode := by
  unfold setUntypedCapAsFull
  split
  · split_ifs
    · rw [node_setCap]
    · rfl
  · rfl

theorem links_cteInsert (c : Cap) (src dst : Word) :
    (h.cteInsert c src dst).links = h.links.insertAfter 0 src dst := by
  refine Links.ext (funext fun x => ?_) (funext fun x => ?_)
  · simp only [links, cteInsert, next_ifPtr_setPrev, next_setNext, node_set,
      node_setUntypedCapAsFull, Links.insertAfter, apply_ite MdbNode.mdbNext]
  · simp only [links, cteInsert, prev_ifPtr_setPrev, prev_setNext, node_set,
      node_setUntypedCapAsFull, Links.insertAfter, apply_ite MdbNode.mdbPrev]
    rfl

theorem links_insertNewCap (parent slot : Word) (c : Cap) :
    (h.insertNewCap parent slot c).links = h.links.insertAfter 0 parent slot := by
  refine Links.ext (funext fun x => ?_) (funext fun x => ?_)
  · simp only [links, insertNewCap, next_setNext, next_ifPtr_setPrev, node_set,
      Links.insertAfter, apply_ite MdbNode.mdbNext]
  · simp only [links, insertNewCap, prev_setNext, prev_ifPtr_setPrev, node_set,
      Links.insertAfter, apply_ite MdbNode.mdbPrev]
    rfl

theorem links_cteMove (c : Cap) (src dst : Word) :
    (h.cteMove c src dst).links = h.links.moveTo 0 src dst := by
  refine Links.ext (funext fun x => ?_) (funext fun x => ?_)
  · simp only [links, cteMove, next_ifPtr_setPrev, next_ifPtr_setNext, node_set, Links.moveTo, apply_ite MdbNode.mdbNext]
    rfl
  · simp only [links, cteMove, prev_ifPtr_setPrev, prev_ifPtr_setNext, node_set, Links.moveTo, apply_ite MdbNode.mdbPrev]
    rfl

theorem links_cteSwap (c d : Cap) (s t : Word) : (h.cteSwap c s d t).links = h.links.exchange 0 s t := by
  refine Links.ext (funext fun x => ?_) (funext fun x => ?_)
  · simp only [links, cteSwap, next_ifPtr_setPrev, next_ifPtr_setNext, prev_ifPtr_setPrev,
      prev_ifPtr_setNext, node_setNode, node_setCap, Links.exchange, apply_ite MdbNode.mdbNext]
    rfl
  · simp only [links, cteSwap, next_ifPtr_setPrev, next_ifPtr_setNext, prev_ifPtr_setPrev,
      prev_ifPtr_setNext, node_setNode, node_setCap, Links.exchange, apply_ite MdbNode.mdbPrev]
    rfl

theorem links_emptySlot {s : Word} (hs : (h s).cap ≠ .null) :
    (h.emptySlot s).links = h.links.unlink 0 s := by
  have hs' : (h s).cap.isNull ≠ true := fun he => hs (Cap.isNull_iff.mp he)
  refine Links.ext (funext fun x => ?_) (funext fun x => ?_)
  · simp only [links, emptySlot, if_neg hs', next_ifPtr_setFirstBadged, next_ifPtr_setPrev,
      next_ifPtr_setNext, node_set, Links.unlink, apply_ite MdbNode.mdbNext]
    rfl
  · simp only [links, emptySlot, if_neg hs', prev_ifPtr_setFirstBadged, prev_ifPtr_setPrev,
      prev_ifPtr_setNext, node_set, Links.unlink, apply_ite MdbNode.mdbPrev]
    rfl

end Links

/-! ## The operations on the capabilities -/

section Caps

variable (h : CteHeap)

/-- Marking an untyped as full keeps the slot's type. -/
theorem cap_setUntypedCapAsFull (d : Cap) (s x : Word) :
    (h.setUntypedCapAsFull (h s).cap d s x).cap = (h x).cap ∨
      x = s ∧ ∃ i dev n p, (h s).cap = .untyped i dev n p ∧
        (h.setUntypedCapAsFull (h s).cap d s x).cap = .untyped (maxFreeIndex n) dev n p := by
  cases hc : (h s).cap with
  | untyped i dev n p =>
    cases d with
    | untyped i' dev' n' p' =>
      simp only [setUntypedCapAsFull]
      split_ifs with hp
      · rw [cap_setCap]
        split_ifs with hx
        · exact .inr ⟨hx, i, dev, n, p, rfl, rfl⟩
        · exact .inl rfl
      · exact .inl rfl
    | _ => exact .inl rfl
  | _ => exact .inl rfl

theorem cap_cteInsert (c : Cap) (src dst x : Word) : (h.cteInsert c src dst x).cap =
      if x = dst then c else (h.setUntypedCapAsFull (h src).cap c src x).cap := by
  simp only [cteInsert, cap_ifPtr_setPrev, setNext, cap_setNode, cap_set]

theorem cteInsert_isNull {c : Cap} (hc : c ≠ .null) (src dst x : Word) :
    (h.cteInsert c src dst x).cap = .null ↔ x ≠ dst ∧ (h x).cap = .null := by
  rw [cap_cteInsert]
  split_ifs with hx
  · simp [hx, hc]
  · rcases cap_setUntypedCapAsFull h c src x with he | ⟨rfl, i, dev, n, p, hu, he⟩
    · simp [he, hx]
    · rw [he, hu]
      simp

theorem cap_insertNewCap (parent slot : Word) (c : Cap) (x : Word) :
    (h.insertNewCap parent slot c x).cap = if x = slot then c else (h x).cap := by
  simp only [insertNewCap, setNext, cap_setNode, cap_ifPtr_setPrev, cap_set]

theorem cap_cteMove (c : Cap) (src dst x : Word) : (h.cteMove c src dst x).cap =
      if x = src then .null else if x = dst then c else (h x).cap := by
  simp only [cteMove, cap_ifPtr_setPrev, cap_ifPtr_setNext, cap_set]

theorem cap_cteSwap (c d : Cap) (s t x : Word) :
    (h.cteSwap c s d t x).cap = if x = t then c else if x = s then d else (h x).cap := by
  simp only [cteSwap, cap_ifPtr_setPrev, cap_ifPtr_setNext, cap_setNode, cap_setCap]

theorem cap_emptySlot (s x : Word) : (h.emptySlot s x).cap = if x = s then .null else (h x).cap := by
  unfold emptySlot
  split_ifs with hs hx hx
  · rw [hx]
    exact Cap.isNull_iff.mp hs
  · rfl
  · simp only [cap_set, hx, if_true]
  · simp only [cap_set, if_neg hx, cap_ifPtr_setFirstBadged, cap_ifPtr_setPrev, cap_ifPtr_setNext]

end Caps

/-! ## Lists of occupied slots -/

/-- The links form the lists `LL`, and these hold exactly the occupied slots. -/
structure MdbLists (h : CteHeap) (LL : List (List Word)) : Prop where
  lists : Links.Lists 0 h.links LL
  mem_iff : ∀ s, s ∈ LL.flatten ↔ (h s).cap ≠ .null

namespace MdbLists

variable {h : CteHeap} {LL : List (List Word)}

variable {s : Word}

section

variable (hm : MdbLists h LL)
include hm

theorem mem (hs : (h s).cap ≠ .null) : s ∈ LL.flatten := (hm.mem_iff s).mpr hs

theorem notMem (hs : (h s).cap = .null) : s ∉ LL.flatten :=
  fun h' => (hm.mem_iff s).mp h' hs

theorem ne_zero (hs : (h s).cap ≠ .null) : s ≠ 0 := hm.lists.ne_null (hm.mem hs)

/-- An empty slot has null links. -/
theorem links_of_null (hs : (h s).cap = .null) :
    (h s).cteMDBNode.mdbNext = 0 ∧ (h s).cteMDBNode.mdbPrev = 0 :=
  hm.lists.outside s (hm.notMem hs)

variable {t : Word}

omit hm in
theorem ne_of_null (hs : (h s).cap ≠ .null) (ht : (h t).cap = .null) : s ≠ t := by
  rintro rfl
  exact hs ht

variable {c : Cap}

theorem cteInsert {src dst : Word} (hc : c ≠ .null)
    (hs : (h src).cap ≠ .null) (hd : (h dst).cap = .null) (hd0 : dst ≠ 0) :
    MdbLists (h.cteInsert c src dst) (LL.map (Links.listInsertAfter src dst)) := by
  refine ⟨?_, fun x => ?_⟩
  · rw [links_cteInsert]
    exact hm.lists.insertAfter (hm.mem hs) (hm.notMem hd) hd0
  · have hnull := cteInsert_isNull h hc src dst x
    rw [hm.lists.mem_flatten_insertAfter (hm.mem hs), hm.mem_iff]
    tauto

theorem insertNewCap {parent slot : Word} (hc : c ≠ .null)
    (hs : (h parent).cap ≠ .null) (hd : (h slot).cap = .null) (hd0 : slot ≠ 0) :
    MdbLists (h.insertNewCap parent slot c) (LL.map (Links.listInsertAfter parent slot)) := by
  refine ⟨?_, fun x => ?_⟩
  · rw [links_insertNewCap]
    exact hm.lists.insertAfter (hm.mem hs) (hm.notMem hd) hd0
  · rw [hm.lists.mem_flatten_insertAfter (hm.mem hs), hm.mem_iff, cap_insertNewCap]
    by_cases hx : x = slot
    · simp [hx, hc]
    · simp [hx]

omit hm in
/-- Membership after a transposition of slots. -/
theorem mem_map_swap (x : Word) :
    x ∈ (LL.map (List.map (Equiv.swap s t))).flatten ↔ Equiv.swap s t x ∈ LL.flatten := by
  rw [← List.map_flatten, List.mem_map]
  constructor
  · rintro ⟨y, hy, rfl⟩
    rwa [Equiv.swap_apply_self]
  · intro hx
    exact ⟨_, hx, Equiv.swap_apply_self _ _ _⟩

theorem cteMove {src dst : Word} (hc : c ≠ .null)
    (hs : (h src).cap ≠ .null) (hd : (h dst).cap = .null) (hd0 : dst ≠ 0) :
    MdbLists (h.cteMove c src dst) (LL.map (List.map (Equiv.swap src dst))) := by
  have hs0 := hm.ne_zero hs
  have hsd := ne_of_null hs hd
  refine ⟨?_, fun x => ?_⟩
  · rw [links_cteMove, hm.lists.moveTo_eq (hm.mem hs) (hm.notMem hd) hd0]
    exact hm.lists.rename _ (Equiv.swap_apply_of_ne_of_ne hs0.symm hd0.symm)
  · rw [mem_map_swap, hm.mem_iff, cap_cteMove, Equiv.swap_apply_def]
    by_cases hxs : x = src
    · simp [hxs, hd]
    · by_cases hxd : x = dst
      · simp [hxd, hsd.symm, hs, hc]
      · simp [hxs, hxd]

theorem cteSwap {d : Cap} (hst : s ≠ t) (hs : s ≠ 0)
    (ht : t ≠ 0) (hc : c = .null ↔ (h s).cap = .null) (hd : d = .null ↔ (h t).cap = .null) :
    MdbLists (h.cteSwap c s d t) (LL.map (List.map (Equiv.swap s t))) := by
  refine ⟨?_, fun x => ?_⟩
  · rw [links_cteSwap, hm.lists.exchange_eq hst hs ht]
    exact hm.lists.rename _ (Equiv.swap_apply_of_ne_of_ne hs.symm ht.symm)
  · rw [mem_map_swap, hm.mem_iff, cap_cteSwap, Equiv.swap_apply_def]
    by_cases hxs : x = s
    · simp [hxs, hst, hd]
    · by_cases hxt : x = t
      · simp [hxt, hst.symm, hc]
      · simp [hxs, hxt]

theorem emptySlot (s : Word) :
    MdbLists (h.emptySlot s) (LL.map (List.filter (· ≠ s))) := by
  by_cases hs : (h s).cap = .null
  · -- nothing happens, and the slot is in no list
    have hempty : h.emptySlot s = h := by
      unfold CteHeap.emptySlot
      rw [if_pos (Cap.isNull_iff.mpr hs)]
    have hmap : LL.map (List.filter (· ≠ s)) = LL := by
      refine (List.map_congr_left fun l hl => ?_).trans (List.map_id LL)
      exact Links.filter_ne_of_notMem fun hx => hm.notMem hs (Links.Lists.mem_flatten hl hx)
    rw [hempty, hmap]
    exact hm
  · refine ⟨?_, fun x => ?_⟩
    · rw [links_emptySlot h hs]
      exact hm.lists.unlink (hm.mem hs)
    · rw [Links.Lists.mem_flatten_unlink, hm.mem_iff, cap_emptySlot]
      by_cases hx : x = s
      · simp [hx]
      · simp [hx]

end

end MdbLists

/-! ## Runs -/

/-- All slots empty. -/
def emptyHeap : CteHeap := fun _ => ⟨.null, nullMDBNode⟩

/-- `write_slot`: how the boot code fills a slot. -/
def writeSlot (slot : Word) (cap : Cap) (h : CteHeap) : CteHeap :=
  h.set slot ⟨cap, { nullMDBNode with mdbRevocable := true, mdbFirstBadged := true }⟩

/-- The heap that booting leaves, when it fills the given slots. -/
def bootHeap : List (Word × Cap) → CteHeap
  | [] => emptyHeap
  | (slot, cap) :: l => writeSlot slot cap (bootHeap l)

/-- Boot slots are distinct, at real addresses, and filled. -/
structure BootSlots (l : List (Word × Cap)) : Prop where
  nodup : (l.map Prod.fst).Nodup
  ne_zero : ∀ e ∈ l, e.1 ≠ 0
  ne_null : ∀ e ∈ l, e.2 ≠ .null

theorem links_bootHeap (l : List (Word × Cap)) : (bootHeap l).links = ⟨fun _ => 0, fun _ => 0⟩ := by
  induction l with
  | nil => rfl
  | cons e l ih =>
    have hn : ∀ x, ((bootHeap l) x).cteMDBNode.mdbNext = 0 := fun x =>
      congrFun (congrArg Links.next ih) x
    have hp : ∀ x, ((bootHeap l) x).cteMDBNode.mdbPrev = 0 := fun x =>
      congrFun (congrArg Links.prev ih) x
    refine Links.ext (funext fun x => ?_) (funext fun x => ?_)
    · simp only [links, bootHeap, writeSlot, node_set]
      split_ifs
      · rfl
      · exact hn x
    · simp only [links, bootHeap, writeSlot, node_set]
      split_ifs
      · rfl
      · exact hp x

theorem cap_bootHeap {l : List (Word × Cap)} (hb : ∀ e ∈ l, e.2 ≠ Cap.null) (x : Word) :
    (bootHeap l x).cap ≠ .null ↔ x ∈ l.map Prod.fst := by
  induction l with
  | nil => simp [bootHeap, emptyHeap]
  | cons e l ih =>
    have ih' := ih fun e he => hb e (.tail _ he)
    rw [List.map_cons, List.mem_cons, ← ih']
    simp only [bootHeap, writeSlot, cap_set]
    by_cases hx : x = e.1
    · simp [hx, hb e List.mem_cons_self]
    · simp [hx]

/-- At boot every filled slot is a list of its own. -/
theorem mdbLists_bootHeap {l : List (Word × Cap)} (hb : BootSlots l) :
    MdbLists (bootHeap l) (l.map fun e => [e.1]) := by
  have hflat : (l.map fun e => [e.1]).flatten = l.map Prod.fst := by
    clear hb
    induction l with
    | nil => rfl
    | cons e l ih => simpa using ih
  refine ⟨⟨?_, ?_, ?_, fun x _ => ?_⟩, fun x => ?_⟩
  · rw [hflat]
    exact hb.nodup
  · rw [hflat, List.mem_map]
    rintro ⟨e, he, he0⟩
    exact hb.ne_zero e he he0
  · intro l' hl'
    obtain ⟨e, -, rfl⟩ := List.mem_map.mp hl'
    rw [links_bootHeap]
    exact ⟨rfl, rfl, trivial⟩
  · rw [links_bootHeap]
    exact ⟨rfl, rfl⟩
  · rw [hflat, cap_bootHeap hb.ne_null]

/-- One operation on the derivation list. -/
inductive MdbOp
  | insert (newCap : Cap) (srcSlot destSlot : Word)
  | move (newCap : Cap) (srcSlot destSlot : Word)
  | swap (cap1 : Cap) (slot1 : Word) (cap2 : Cap) (slot2 : Word)
  | empty (slot : Word)
  | insertNew (parent slot : Word) (cap : Cap)

namespace MdbOp

def apply : MdbOp → CteHeap → CteHeap
  | insert c src dst, h => h.cteInsert c src dst
  | move c src dst, h => h.cteMove c src dst
  | swap c s d t, h => h.cteSwap c s d t
  | empty s, h => h.emptySlot s
  | insertNew parent slot c, h => h.insertNewCap parent slot c

/-- What the callers check: the source is occupied and the destination empty, the two slots of a
swap are distinct, and no operation makes an occupied slot empty or an empty one occupied by its
choice of capability. -/
def Pre : MdbOp → CteHeap → Prop
  | insert c src dst, h => c ≠ .null ∧ (h src).cap ≠ .null ∧ (h dst).cap = .null ∧ dst ≠ 0
  | move c src dst, h => c ≠ .null ∧ (h src).cap ≠ .null ∧ (h dst).cap = .null ∧ dst ≠ 0
  | swap c s d t, h =>
    s ≠ t ∧ s ≠ 0 ∧ t ≠ 0 ∧ (c = .null ↔ (h s).cap = .null) ∧ (d = .null ↔ (h t).cap = .null)
  | empty _, _ => True
  | insertNew parent slot c, h =>
    c ≠ .null ∧ (h parent).cap ≠ .null ∧ (h slot).cap = .null ∧ slot ≠ 0

/-- What the operation is meant to do to the lists. -/
def onLists : MdbOp → List (List Word) → List (List Word)
  | insert _ src dst, LL => LL.map (Links.listInsertAfter src dst)
  | move _ src dst, LL => LL.map (List.map (Equiv.swap src dst))
  | swap _ s _ t, LL => LL.map (List.map (Equiv.swap s t))
  | empty s, LL => LL.map (List.filter (· ≠ s))
  | insertNew parent slot _, LL => LL.map (Links.listInsertAfter parent slot)

/-- Every operation does to the lists what it is meant to. -/
theorem mdbLists {h : CteHeap} {LL : List (List Word)} (op : MdbOp) (hp : op.Pre h)
    (hm : MdbLists h LL) : MdbLists (op.apply h) (op.onLists LL) := by
  cases op with
  | insert c src dst =>
    obtain ⟨hc, hs, hd, hd0⟩ := hp
    exact hm.cteInsert hc hs hd hd0
  | move c src dst =>
    obtain ⟨hc, hs, hd, hd0⟩ := hp
    exact hm.cteMove hc hs hd hd0
  | swap c s d t =>
    obtain ⟨hst, hs, ht, hc, hd⟩ := hp
    exact hm.cteSwap hst hs ht hc hd
  | empty s => exact hm.emptySlot s
  | insertNew parent slot c =>
    obtain ⟨hc, hs, hd, hd0⟩ := hp
    exact hm.insertNewCap hc hs hd hd0

end MdbOp

/-- The heaps reachable from boot. -/
inductive MdbReach : CteHeap → Prop
  | boot (l : List (Word × Cap)) (hb : BootSlots l) : MdbReach (bootHeap l)
  | step (h : CteHeap) (op : MdbOp) (hr : MdbReach h) (hp : op.Pre h) : MdbReach (op.apply h)

theorem MdbReach.mdbLists {h : CteHeap} (hr : MdbReach h) : ∃ LL, MdbLists h LL := by
  induction hr with
  | boot l hb => exact ⟨_, mdbLists_bootHeap hb⟩
  | step h op _ hp ih =>
    obtain ⟨LL, hm⟩ := ih
    exact ⟨_, op.mdbLists hp hm⟩

/-- **The derivation lists.** In every reachable state `mdbNext` and `mdbPrev` are mutually
inverse, no slot leads back to itself, and an empty slot has null links. The links form disjoint
lists of the occupied slots, and every operation that is called within its precondition changes
these lists as intended: an insertion puts the new slot right behind its source, a move or swap
exchanges the places of the two slots, a deletion splices the slot out. -/
theorem mdb_lists_invariant {h : CteHeap} (hr : MdbReach h) :
    (∀ s t, s ≠ 0 → t ≠ 0 → ((h s).cteMDBNode.mdbNext = t ↔ (h t).cteMDBNode.mdbPrev = s)) ∧
      (∀ s n, (h s).cap ≠ .null → (fun x => (h x).cteMDBNode.mdbNext)^[n + 1] s ≠ s) ∧
      (∀ s, (h s).cap = .null → (h s).cteMDBNode.mdbNext = 0 ∧ (h s).cteMDBNode.mdbPrev = 0) ∧
      ∃ LL, MdbLists h LL ∧ ∀ op : MdbOp, op.Pre h → MdbLists (op.apply h) (op.onLists LL) := by
  obtain ⟨LL, hm⟩ := hr.mdbLists
  refine ⟨fun s t hs ht => hm.lists.next_eq_iff hs ht, fun s n hs => ?_, fun s hs => ?_, LL, hm,
    fun op hp => op.mdbLists hp hm⟩
  · exact hm.lists.iterate_next_ne (hm.mem hs) n
  · exact hm.links_of_null hs

/-- Two boot slots, a copy of the first, and a swap of the copy with its neighbour. -/
theorem mdb_lists_invariant_sample : ∃ h, MdbReach h ∧ (h 0x60).cteMDBNode.mdbNext = 0x20 ∧
      ((h 0x60).cteMDBNode.mdbNext = 0x20 ↔ (h 0x20).cteMDBNode.mdbPrev = 0x60) := by
  have h0 := MdbReach.boot [(0x20, .domain), (0x40, .irqControl)] ⟨by decide, by decide, by decide⟩
  have h1 := MdbReach.step _ (.insert .domain 0x20 0x60) h0 ⟨by decide, by decide, by decide, by decide⟩
  have h2 := MdbReach.step _ (.swap .domain 0x20 .domain 0x60) h1
    ⟨by decide, by decide, by decide, by decide, by decide⟩
  exact ⟨_, h2, by decide, (mdb_lists_invariant h2).1 0x60 0x20 (by decide) (by decide)⟩

end SeL4.Object.CteHeap
