import SeL4.Allocman.UtSplitAlloc

/-!
# Freeing and adding

`_utspace_split_free` puts a node back into its list if its sibling is not free. Otherwise it deletes both
and goes on with their parent, so it leaves no two free halves of one node (`utspaceSplitFree_spec`).
`_utspace_split_add_uts` adds trees of one node each (`addUts_spec`).
-/

namespace SeL4.Allocman

open SeL4.Lib SeL4.Object Function

namespace UtSplit

variable {s s' : UtSplit} {l : HeadRef → List Word} {h : HeadRef} {p q : Word}
  {F : List Word} {g : Shape} {bits : Nat} {pool : Pool}

/-! ## Freeing -/

/-- A node goes back into its list. -/
theorem putBack_spec (hi : Inv s s.mem g l) (hp : p ∈ s.mem) (hst : g.st p = .hand) :
    ∃ s' l', (match (s.node p).head with | some h => some (s.insertNode h p) | none => none) = some s' ∧
      Inv s' s'.mem (setState g p .free) l' ∧ s'.mem = s.mem := by
  have hhead := hi.head p hp
  rw [hst] at hhead
  have hnot : ∀ i, p ∉ l i := fun i hpi => absurd (hst.symm.trans ((hi.mem_free i p).mp hpi).2.1) nofun
  obtain ⟨ho, hlisted, hrel⟩ := listed_insertNode hi.listed hnot (hi.ne_null p hp)
  rw [hhead]
  refine ⟨_, update l (s.node p).originHead (p :: l (s.node p).originHead), rfl, ?_, ho.mem⟩
  rw [ho.mem]
  refine ⟨hi.setState nofun (by simp [hst]) hrel (fun x hx => ?_) (fun x _ _ => ?_) (fun _ => ?_)
    (fun x _ => ?_) (fun x n => ?_) ?_ ho.added, hlisted, fun i x => ?_⟩
  · rw [setState_st]
    by_cases hxp : x = p
    · simp [hxp]
    · simp only [if_neg hxp]
      exact hi.head x hx
  · rw [ho.cap]
  · obtain ⟨c, hc, hu, hb, hn, hch⟩ := hi.cap p hp
    rw [hst] at hch
    rw [ho.cap]
    exact ⟨c, hc, hu, hb, hn, hch⟩
  · rw [ho.slots]
  · rw [ho.live, hi.live, setState_st]
    by_cases hxp : x = p
    · simp [hxp, hst]
    · simp [hxp]
  · rw [ho.live]
    exact hi.live_nodup
  · rw [mem_inserted, hi.mem_free, setState_st, hrel.fields.2.2.2.1]
    by_cases hxp : x = p
    · simp [hxp, hp, eq_comm]
    · simp [hxp]

/-- If its sibling is not free, a node may go back. -/
theorem merged_putBack (hf : Forest s s.mem g) (hst : g.st p = .hand)
    (hsib : (s.node p).parent ≠ 0 → (s.node (s.node p).sibling).head ≠ none) (hm : Merged g 0) :
    Merged (setState g p .free) 0 := by
  intro x a b hx ha hb
  have hfree : ∀ a b, NodeState.free ≠ .split a b := nofun
  rw [setState_split hfree (by simp [hst])] at hx
  obtain ⟨hxF, hk⟩ := hf.split x a b hx
  have hx0 := hf.ne_null x hxF
  rw [setState_st] at ha hb
  split_ifs at ha with hap
  · subst hap
    rw [if_neg hk.ne.symm] at hb
    refine absurd ?_ (hsib (by rw [hk.parent_left]; exact hx0))
    rw [hk.sibling_left, hf.head b hk.right, if_pos hb]
  · split_ifs at hb with hbp
    · subst hbp
      refine absurd ?_ (hsib (by rw [hk.parent_right]; exact hx0))
      rw [hk.sibling_right, hf.head a hk.left, if_pos ha]
    · exact hm x a b hx ha hb

/-- A node with its sibling and their parent. -/
structure Pair (s : UtSplit) (F : List Word) (g : Shape) (p q r : Word) : Prop where
  mem : p ∈ F
  sib_mem : q ∈ F
  par_mem : r ∈ F
  ne : p ≠ q
  parent : (s.node p).parent = r
  sib_parent : (s.node q).parent = r
  sibling : (s.node p).sibling = q
  bits : (s.node r).originHead.bits = (s.node p).originHead.bits + 1
  split : g.st r = .split p q ∨ g.st r = .split q p

theorem Forest.pair (hf : Forest s F g) (hp : p ∈ F) (hpar : (s.node p).parent ≠ 0) :
    Pair s F g p (s.node p).sibling (s.node p).parent := by
  obtain ⟨a, b, hst, hab⟩ := hf.parent p hp hpar
  obtain ⟨hr, hk⟩ := hf.split _ a b hst
  rcases hab with rfl | rfl
  · have hsib := hk.sibling_left
    rw [hsib]
    exact ⟨hp, hk.right, hr, hk.ne, rfl, hk.parent_right, hsib, hk.bits, .inl hst⟩
  · have hsib := hk.sibling_right
    rw [hsib]
    refine ⟨hp, hk.left, hr, hk.ne.symm, rfl, hk.parent_left, hsib, ?_, .inr hst⟩
    rw [hk.origin]
    exact hk.bits

/-- The capabilities after two nodes have been deleted. -/
theorem cap_deleteNode2 {u : KernelCap} {x : Word} (hx : s.cap x = some u) (hq : x ≠ (s.node q).ut)
    (hp : x ≠ (s.node p).ut) : ((s.deleteNode q).deleteNode p).cap x = some { u with
      children := (u.children.filter (· ≠ (s.node q).ut)).filter (· ≠ (s.node p).ut) } := by
  show (if x = (s.node p).ut then none else (if x = (s.node q).ut then none else _).map _) = _
  rw [if_neg hp, if_neg hq, hx]
  rfl

/-- **Two free halves are merged**: the parent is on its way back into its list. -/
theorem forest_merge {r : Word} (hf : Forest s F g) (hpair : Pair s F g p q r) (hst : g.st p = .hand)
    (hsq : g.st q = .free) {hd : Word → Option HeadRef} {s1 : UtSplit} (hr : Relinked s s1 hd)
    (hhead : ∀ x ≠ q, hd x = (s.node x).head) (ho : OnlyNodes s s1) :
    Forest ((s1.deleteNode q).deleteNode p) ((F.erase q).erase p) (setState g r .hand) := by
  have hmem : ∀ x, x ∈ (F.erase q).erase p ↔ x ∈ F ∧ x ≠ q ∧ x ≠ p := by
    intro x
    rw [(hf.nodup.erase q).mem_erase_iff, hf.nodup.mem_erase_iff]
    tauto
  obtain ⟨hut, hparent, hsibling, horigin, hhd⟩ := hr.fields
  -- a node that is split has other halves, unless it is the parent
  have hother : ∀ x a b, g.st x = .split a b → x ≠ r → a ∈ (F.erase q).erase p ∧ b ∈ (F.erase q).erase p := by
    intro x a b hx hxr
    obtain ⟨-, hk⟩ := hf.split x a b hx
    have hne : ∀ y, (s.node y).parent = x → y ≠ q ∧ y ≠ p := by
      intro y hy
      refine ⟨?_, ?_⟩
      · rintro rfl
        exact hxr (hy.symm.trans hpair.sib_parent)
      · rintro rfl
        exact hxr (hy.symm.trans hpair.parent)
    exact ⟨(hmem a).mpr ⟨hk.left, hne a hk.parent_left⟩, (hmem b).mpr ⟨hk.right, hne b hk.parent_right⟩⟩
  have hslot : ∀ x ∈ (F.erase q).erase p, (s.node x).ut ≠ (s.node q).ut ∧ (s.node x).ut ≠ (s.node p).ut := by
    intro x hx
    obtain ⟨hxF, hxq, hxp⟩ := (hmem x).mp hx
    exact ⟨fun he => hxq (hf.ut_inj x hxF q hpair.sib_mem he),
      fun he => hxp (hf.ut_inj x hxF p hpair.mem he)⟩
  have hr0 := hf.ne_null r hpair.par_mem
  have hok : ∀ x ∈ (F.erase q).erase p,
      NodeOk ((s1.deleteNode q).deleteNode p) (setState g r .hand) x := by
    intro x hx
    obtain ⟨hxF, hxq, hxp⟩ := (hmem x).mp hx
    obtain ⟨hsq', hsp'⟩ := hslot x hx
    refine (hf.nodeOk hxF).move (hut x) (hparent x) (horigin x) ?_ ?_ ?_ fun a b hab hxab => ?_
    · refine (hhd x).trans ?_
      rw [hhead x hxq, setState_st, hf.head x hxF]
      by_cases hxr : x = r
      · subst hxr
        rcases hpair.split with hsp | hsp <;> simp [hsp]
      · rw [if_neg hxr]
    · show update (update s1.slots (s1.node q).ut false) (s1.node p).ut false (s.node x).ut = true
      rw [hut, hut, update_of_ne hsp', update_of_ne hsq', ho.slots]
      exact hf.slots x hxF
    · obtain ⟨c, hc, hu, hb, hn, hch⟩ := hf.cap x hxF
      have hcap := cap_deleteNode2 (ho.cap ▸ hc) (hut q ▸ hsq') (hut p ▸ hsp')
      rw [hut, hut] at hcap
      refine ⟨_, hcap, hu, hb, hn, ChildrenOk.congr ?_ hut⟩
      rw [setState_st]
      by_cases hxr : x = r
      · subst hxr
        rw [if_pos rfl]
        show List.filter _ _ = []
        rcases hpair.split with hsp | hsp
        all_goals
          rw [hsp] at hch
          have hch' : c.children = [_, _] := hch
          rw [hch']
          simp
      · rw [if_neg hxr]
        cases hstx : g.st x <;> rw [hstx] at hch
        case live => trivial
        case split a b =>
          obtain ⟨ha, hb⟩ := hother x a b hstx hxr
          have hch' : c.children = [(s.node b).ut, (s.node a).ut] := hch
          show List.filter _ _ = [(s.node b).ut, (s.node a).ut]
          rw [hch', filter_pair (hslot a ha).1 (hslot b hb).1, filter_pair (hslot a ha).2 (hslot b hb).2]
        all_goals
          have hch' : c.children = [] := hch
          rw [hch']
          rfl
    · have hne : (s.node x).parent ≠ r := by
        intro he
        rw [he] at hab
        rcases hpair.split with hsp | hsp <;> obtain ⟨rfl, rfl⟩ := NodeState.split.inj (hsp.symm.trans hab)
        · exact hxab.elim hxp hxq
        · exact hxab.elim hxq hxp
      rw [setState_st, if_neg hne]
      exact hab
  refine ⟨(hf.nodup.erase q).erase p, fun x hx => (hok x hx).ne_null, fun x hx => (hok x hx).bits_lt,
    fun x hx y hy hxy => ?_, fun x hx => (hok x hx).slots, fun x hx => (hok x hx).head,
    fun x hx => (hok x hx).cap, fun x n => ?_, ho.live ▸ hf.live_nodup, fun x a b hx => ?_,
    fun x hx => (hok x hx).parent, fun u => ?_, ho.added ▸ hf.added_nodup⟩
  · have hxy' : (s1.node x).ut = (s1.node y).ut := hxy
    rw [hut, hut] at hxy'
    exact hf.ut_inj x ((hmem x).mp hx).1 y ((hmem y).mp hy).1 hxy'
  · show (x, n) ∈ s1.live ↔ _ ∧ _ ∧ (s1.node x).originHead.bits = n
    rw [ho.live, hf.live, horigin, hmem, setState_st]
    by_cases hxr : x = r
    · rcases hpair.split with hsp | hsp <;> simp [hxr, hsp]
    by_cases hxq : x = q
    · simp [hxq, hsq]
    by_cases hxp : x = p
    · simp [hxp, hst]
    · simp [hxr, hxq, hxp]
  · rw [setState_st] at hx
    split_ifs at hx with hxr
    obtain ⟨hxF, hk⟩ := hf.split x a b hx
    obtain ⟨ha, hb⟩ := hother x a b hx hxr
    have hxq : x ≠ q := by
      rintro rfl
      exact nomatch hsq.symm.trans hx
    have hxp : x ≠ p := by
      rintro rfl
      exact nomatch hst.symm.trans hx
    have hk' : Kids ((s1.deleteNode q).deleteNode p) F (setState g r .hand) x a b :=
      hk.congr hxF (fun _ => id) (fun y _ => hparent y) (fun y _ => hsibling y) (fun y _ => horigin y)
        fun _ _ => rfl
    exact ⟨(hmem x).mpr ⟨hxF, hxq, hxp⟩, { hk' with left := ha, right := hb }⟩
  · show u ∈ s1.added ↔ ∃ x ∈ (F.erase q).erase p, (s1.node x).parent = 0 ∧
      u = ⟨(s1.node x).ut, (s1.node x).originHead, g.base x⟩
    simp only [ho.added, hf.added, hut, hparent, horigin, hmem]
    refine exists_congr fun x => and_congr_left fun ⟨hpar, _⟩ => ⟨fun hx => ⟨hx, ?_, ?_⟩, And.left⟩
    · rintro rfl
      exact hr0 (hpair.sib_parent.symm.trans hpar)
    · rintro rfl
      exact hr0 (hpair.parent.symm.trans hpar)

/-- The free lists after a merge. -/
theorem inv_merge {r : Word} (hi : Inv s s.mem g l) (hpair : Pair s s.mem g p q r) (hst : g.st p = .hand)
    (hsq : g.st q = .free) :
    ∃ s1, s.removeNode (s.node q).originHead q = some s1 ∧
      (∀ x, ((s1.deleteNode q).deleteNode p).node x = s1.node x) ∧
      (∀ x, (s1.node x).originHead = (s.node x).originHead) ∧
      ((s1.deleteNode q).deleteNode p).mem = (s.mem.erase q).erase p ∧
      ∃ l', Inv ((s1.deleteNode q).deleteNode p) ((s1.deleteNode q).deleteNode p).mem
        (setState g r .hand) l' := by
  have hq : q ∈ l (s.node q).originHead := (hi.mem_free _ q).mpr ⟨hpair.sib_mem, hsq, rfl⟩
  obtain ⟨A, B, hAB⟩ := List.append_of_mem hq
  obtain ⟨s1, hs1, ho, hlisted, hrel⟩ := listed_removeNode hi.listed hAB
  have hmem : ((s1.deleteNode q).deleteNode p).mem = (s.mem.erase q).erase p := by
    show (s1.mem.erase q).erase p = _
    rw [ho.mem]
  refine ⟨s1, hs1, fun _ => rfl, hrel.fields.2.2.2.1, hmem,
    update l (s.node q).originHead (A ++ B), ?_⟩
  rw [hmem]
  refine ⟨forest_merge hi.toForest hpair hst hsq hrel (fun x hx => if_neg hx) ho, hlisted, fun i x => ?_⟩
  show _ ↔ _ ∧ _ ∧ (s1.node x).originHead = i
  rw [mem_removed hi.listed hAB, hi.mem_free, setState_st, hrel.fields.2.2.2.1,
    (hi.nodup.erase q).mem_erase_iff, hi.nodup.mem_erase_iff]
  constructor
  · rintro ⟨⟨hx, hxf, hxo⟩, hxq⟩
    have hxr : x ≠ r := by
      rintro rfl
      rcases hpair.split with hsp | hsp <;> exact nomatch hsp.symm.trans hxf
    refine ⟨⟨?_, hxq, hx⟩, ?_, hxo⟩
    · rintro rfl
      exact nomatch hst.symm.trans hxf
    · rw [if_neg hxr]
      exact hxf
  · rintro ⟨⟨-, hxq, hx⟩, hxf, hxo⟩
    split_ifs at hxf
    exact ⟨⟨hx, hxf, hxo⟩, hxq⟩

theorem Merged.setHand (hm : Merged g 0) (r : Word) : Merged (setState g r .hand) 0 := by
  intro x a b hx ha hb
  rw [setState_st] at hx ha hb
  split_ifs at hx ha hb
  exact hm x a b hx ha hb

/-- **`_utspace_split_free`** puts a node back and merges it as far as it goes. -/
theorem utspaceSplitFree_spec : ∀ (fuel : Nat) (s : UtSplit) (g : Shape) (l : HeadRef → List Word)
    (p : Word), Inv s s.mem g l → p ∈ s.mem → g.st p = .hand → (∀ q ∈ s.mem, g.st q = .hand → q = p) →
    64 ≤ (s.node p).originHead.bits + fuel →
    ∃ s' g' l', utspaceSplitFree fuel s p = some s' ∧ Inv s' s'.mem g' l' ∧
      (∀ q ∈ s'.mem, g'.st q ≠ .hand) ∧ (Merged g 0 → Merged g' 0) := by
  intro fuel
  induction fuel with
  | zero =>
    intro s g l p hi hp _ _ hfuel
    exact absurd (hi.bits_lt p hp) (Nat.not_lt.mpr hfuel)
  | succ fuel ih =>
    intro s g l p hi hp hst honly hfuel
    unfold utspaceSplitFree
    dsimp only
    split_ifs with hsib
    · have hpair := hi.pair hp hsib.1
      generalize (s.node p).sibling = q at hpair hsib ⊢
      generalize (s.node p).parent = r at hpair hsib ⊢
      have hsq : g.st q = .free := by
        have hhead := hi.head q hpair.sib_mem
        rw [hsib.2] at hhead
        by_contra hne
        rw [if_neg hne] at hhead
        cases hhead
      obtain ⟨s1, hs1, hnode, horigin, hmem, l1, hi1⟩ := inv_merge hi hpair hst hsq
      rw [hs1]
      have hrmem : r ∈ ((s1.deleteNode q).deleteNode p).mem := by
        rw [hmem, (hi.nodup.erase q).mem_erase_iff, hi.nodup.mem_erase_iff]
        refine ⟨?_, ?_, hpair.par_mem⟩
        · rintro rfl
          rcases hpair.split with hsp | hsp <;> exact nomatch hst.symm.trans hsp
        · rintro rfl
          rcases hpair.split with hsp | hsp <;> exact nomatch hsq.symm.trans hsp
      have honly' : ∀ x ∈ ((s1.deleteNode q).deleteNode p).mem, (setState g r .hand).st x = .hand → x = r := by
        intro x hx hxh
        rw [setState_st] at hxh
        split_ifs at hxh with hxr
        · exact hxr
        · rw [hmem, (hi.nodup.erase q).mem_erase_iff, hi.nodup.mem_erase_iff] at hx
          exact absurd (honly x hx.2.2 hxh) hx.1
      have hfuel' : 64 ≤ (((s1.deleteNode q).deleteNode p).node r).originHead.bits + fuel := by
        rw [hnode, horigin, hpair.bits]
        omega
      obtain ⟨s', g', l', hs', hi', hno, hm⟩ :=
        ih _ _ l1 r hi1 hrmem (by simp [setState_st]) honly' hfuel'
      exact ⟨s', g', l', hs', hi', hno, fun hm0 => hm (hm0.setHand r)⟩
    · obtain ⟨s', l', hs', hi', hmem⟩ := putBack_spec hi hp hst
      refine ⟨s', _, l', hs', hi', fun x hx => ?_, fun hm => ?_⟩
      · rw [setState_st]
        split_ifs with hxp
        · exact nofun
        · rw [hmem] at hx
          exact fun hxh => hxp (honly x hx hxh)
      · exact merged_putBack hi.toForest hst (fun hpar hhead => hsib ⟨hpar, hhead⟩) hm

/-! ## Adding -/

/-- The shape with one more tree. -/
def addShape (g : Shape) (p : Word) (base : Nat) : Shape := ⟨update g.st p .free, update g.base p base⟩

theorem addShape_st (g : Shape) (p : Word) (base : Nat) (x : Word) :
    (addShape g p base).st x = if x = p then .free else g.st x := update_apply _ _ _ _

/-- The state with the capability of an untyped that is about to be added. -/
def offer (s : UtSplit) (u : NewUt) : UtSplit :=
  { s with
    cap := update s.cap u.slot (some ⟨true, u.base, u.bits, 0, []⟩)
    slots := update s.slots u.slot true }

theorem same_offer {u : NewUt} (hcap : s.cap u.slot = none) :
    Same s (s.offer u) F where
  node _ _ := rfl
  heads := rfl
  slots q _ hs := by
    show update s.slots u.slot true (s.node q).ut = true
    rw [update_apply, hs]
    split_ifs <;> rfl
  cap q _ c hc := by
    have hne : (s.node q).ut ≠ u.slot := by
      intro he
      rw [he, hcap] at hc
      cases hc
    refine ⟨c, ?_, rfl, rfl, rfl, id, fun _ _ _ _ _ => rfl⟩
    show update s.cap u.slot _ (s.node q).ut = some c
    rw [update_of_ne hne]
    exact hc
  live := rfl
  added := rfl

/-- What adding one untyped leaves in the nodes. -/
structure RootDone (s s' : UtSplit) (u : NewUt) (pool : Pool) (p : Word) : Prop where
  old : ∀ x ≠ p, (s'.node x).ut = (s.node x).ut ∧ (s'.node x).parent = (s.node x).parent ∧
    (s'.node x).sibling = (s.node x).sibling ∧ (s'.node x).originHead = (s.node x).originHead ∧
    (s'.node x).head = (s.node x).head
  root : (s'.node p).ut = u.slot ∧ (s'.node p).parent = 0 ∧ (s'.node p).originHead = ⟨pool, u.bits⟩ ∧
    (s'.node p).head = none
  mem : s'.mem = p :: s.mem
  cap : s'.cap = update s.cap u.slot (some ⟨true, u.base, u.bits, 0, []⟩)
  slots : s'.slots = update s.slots u.slot true
  live : s'.live = s.live
  added : s'.added = ⟨u.slot, ⟨pool, u.bits⟩, u.base⟩ :: s.added

theorem forest_addRoot {u : NewUt} (hf : Forest s s.mem g) (hslot : s.slots u.slot = false)
    (hbits : u.bits < 64) (hp : p ∉ s.mem) (hp0 : p ≠ 0) (hd : RootDone s s' u pool p) :
    Forest s' (p :: s.mem) (addShape g p u.base) := by
  obtain ⟨hput, hppar, hporig, hphead⟩ := hd.root
  have hne : ∀ x ∈ s.mem, x ≠ p := by
    rintro x hx rfl
    exact hp hx
  have hut : ∀ x ∈ s.mem, (s.node x).ut ≠ u.slot := fun x hx => hf.ut_ne hx hslot
  have hstp : (addShape g p u.base).st p = .free := update_self _ _ _
  have hst : ∀ x ≠ p, (addShape g p u.base).st x = g.st x := fun x hx => update_of_ne hx _ _
  have hbasep : (addShape g p u.base).base p = u.base := update_self _ _ _
  have hbase : ∀ x ≠ p, (addShape g p u.base).base x = g.base x := fun x hx => update_of_ne hx _ _
  have hok : ∀ x ∈ p :: s.mem, NodeOk s' (addShape g p u.base) x := by
    intro x hx
    rcases List.mem_cons.mp hx with rfl | hx
    · refine ⟨hp0, hporig ▸ hbits, ?_, ?_, ?_, fun hpar => absurd hppar hpar⟩
      · rw [hd.slots, hput, update_self]
      · rw [hphead, hstp, if_pos rfl]
      · rw [hd.cap, hput, hporig, hstp, hbasep, update_self]
        exact ⟨_, rfl, rfl, rfl, rfl, rfl⟩
    · have hxp := hne x hx
      obtain ⟨hu', hpar', -, ho, hh⟩ := hd.old x hxp
      refine (hf.nodeOk hx).move hu' hpar' ho ?_ ?_ ?_ fun a b hab _ => ?_
      · rw [hh, hst x hxp]
        exact hf.head x hx
      · rw [hd.slots, update_of_ne (hut x hx)]
        exact hf.slots x hx
      · obtain ⟨c, hc, hu, hb, hn, hch⟩ := hf.cap x hx
        rw [hd.cap, hst x hxp, hbase x hxp, update_of_ne (hut x hx)]
        refine ⟨c, hc, hu, hb, hn, ?_⟩
        cases hstx : g.st x <;> rw [hstx] at hch
        case split a b =>
          obtain ⟨-, hk⟩ := hf.split x a b hstx
          show c.children = [(s'.node b).ut, (s'.node a).ut]
          rw [(hd.old a (hne a hk.left)).1, (hd.old b (hne b hk.right)).1]
          exact hch
        all_goals exact hch
      · rw [hst _ (hne _ (hf.split _ a b hab).1)]
        exact hab
  refine ⟨List.nodup_cons.mpr ⟨hp, hf.nodup⟩, fun x hx => (hok x hx).ne_null,
    fun x hx => (hok x hx).bits_lt, fun x hx y hy hxy => ?_, fun x hx => (hok x hx).slots,
    fun x hx => (hok x hx).head, fun x hx => (hok x hx).cap, fun x n => ?_, hd.live ▸ hf.live_nodup,
    fun x a b hx => ?_, fun x hx => (hok x hx).parent, fun v => ?_, ?_⟩
  · have hinj : ∀ x ∈ s.mem, ∀ y ∈ s.mem, (s'.node x).ut = (s'.node y).ut → x = y := by
      intro x hx y hy hxy
      rw [(hd.old x (hne x hx)).1, (hd.old y (hne y hy)).1] at hxy
      exact hf.ut_inj x hx y hy hxy
    refine inj_cons hinj (fun z hz => ?_) x hx y hy hxy
    rw [(hd.old z (hne z hz)).1, hput]
    exact hut z hz
  · rw [hd.live, hf.live]
    by_cases hxp : x = p
    · simp [hxp, hp, hstp]
    simp only [List.mem_cons, hxp, false_or]
    rw [(hd.old x hxp).2.2.2.1, hst x hxp]
  · have hxp : x ≠ p := by
      rintro rfl
      rw [hstp] at hx
      cases hx
    rw [hst x hxp] at hx
    obtain ⟨hxF, hk⟩ := hf.split x a b hx
    exact ⟨List.mem_cons_of_mem p hxF, hk.congr hxF (fun _ => List.mem_cons_of_mem p)
      (fun y hy => (hd.old y (hne y hy)).2.1) (fun y hy => (hd.old y (hne y hy)).2.2.1)
      (fun y hy => (hd.old y (hne y hy)).2.2.2.1) fun y hy => hbase y (hne y hy)⟩
  · simp only [hd.added, List.mem_cons, or_and_right, exists_or, exists_eq_left, hput, hppar, hporig, hbasep,
      true_and, hf.added]
    refine or_congr_right (exists_congr fun x => and_congr_right fun hx => ?_)
    obtain ⟨hu', hpar', -, ho, -⟩ := hd.old x (hne x hx)
    rw [hu', hpar', ho, hbase x (hne x hx)]
  · rw [hd.added, List.nodup_cons]
    refine ⟨fun hmem => ?_, hf.added_nodup⟩
    obtain ⟨x, hx, -, hv⟩ := (hf.added _).mp hmem
    exact hut x hx (congrArg AddedUt.slot hv).symm

/-- **`_insert_new_node`** for an untyped that is offered: it adds a tree, or nothing has changed. -/
theorem insertNewNode_spec {u : NewUt} (pool : Pool) (hi : Inv s s.mem g l) (hbits : u.bits < 64)
    (hslot : s.slots u.slot = false) (hcap : s.cap u.slot = none) :
    (∃ s', (s.offer u).insertNewNode ⟨pool, u.bits⟩ u.slot u.paddr = (false, s') ∧ Same s s' s.mem ∧
      s'.mem = s.mem) ∨
    ∃ s' p l', (s.offer u).insertNewNode ⟨pool, u.bits⟩ u.slot u.paddr = (true, s') ∧ p ∉ s.mem ∧
      s'.mem = p :: s.mem ∧ s'.live = s.live ∧
      Inv { s' with added := ⟨u.slot, ⟨pool, u.bits⟩, u.base⟩ :: s'.added } (p :: s.mem)
        (addShape g p u.base) l' := by
  unfold insertNewNode
  rcases (s.offer u).mspaceAlloc_cases with ⟨e, he⟩ | ⟨p, e, hp0, hp, he⟩
  · rw [he]
    exact .inl ⟨_, rfl, (same_offer hcap).trans (same_env _ e _), rfl⟩
  rw [he]
  dsimp only
  have hpmem : p ∉ s.mem := hp
  have hnot : ∀ i, p ∉ l i := fun i hpi => hpmem ((hi.mem_free i p).mp hpi).1
  generalize hs1 : ({ s.offer u with env := e, mem := p :: (s.offer u).mem } : UtSplit) = s1
  have hlisted1 : Listed s1 l := by
    rw [← hs1]
    exact hi.listed
  have hnode1 : s1.node = s.node := by
    rw [← hs1]
    rfl
  generalize hs2 : s1.modify p (fun m => { m with
    parent := 0, ut := u.slot, paddr := u.paddr, originHead := ⟨pool, u.bits⟩ }) = s2
  have hlisted2 : Listed s2 l := by
    rw [← hs2]
    exact listed_modify hlisted1 fun _ => ⟨rfl, rfl⟩
  obtain ⟨ho, hlisted, hrel⟩ := listed_insertNode hlisted2 hnot hp0
  have hnode2 : ∀ x, s2.node x = if x = p then { s.node x with
      parent := 0, ut := u.slot, paddr := u.paddr, originHead := ⟨pool, u.bits⟩ } else s.node x := by
    intro x
    rw [← hs2, modify_node, hnode1]
  have ho1 : OnlyNodes s1 (s2.insertNode ⟨pool, u.bits⟩ p) := by
    rw [← hs2] at ho ⊢
    exact (onlyNodes_modify _ _ _).trans ho
  rw [← hs1] at ho1
  have hd : RootDone s { s2.insertNode ⟨pool, u.bits⟩ p with
      added := ⟨u.slot, ⟨pool, u.bits⟩, u.base⟩ :: (s2.insertNode ⟨pool, u.bits⟩ p).added } u pool p := by
    obtain ⟨hu, hpar, hsib, horig, hhead⟩ := hrel.fields
    refine ⟨fun x hx => ?_, ?_, ho1.mem, ho1.cap, ho1.slots, ho1.live, ?_⟩
    · rw [← (hnode2 x).trans (if_neg hx)]
      exact ⟨hu x, hpar x, hsib x, horig x, (hhead x).trans (if_neg hx)⟩
    · refine ⟨(hu p).trans ?_, (hpar p).trans ?_, (horig p).trans ?_, (hhead p).trans (if_pos rfl)⟩ <;>
        rw [hnode2, if_pos rfl]
    · rw [ho1.added]
      rfl
  refine .inr ⟨_, p, _, rfl, hpmem, ho1.mem, ho1.live,
    forest_addRoot hi.toForest hslot hbits hpmem hp0 hd, hlisted, fun i x => ?_⟩
  rw [mem_inserted, hi.mem_free, addShape_st]
  by_cases hxp : x = p
  · subst hxp
    rw [hd.root.2.2.1]
    simp [hpmem, eq_comm]
  · rw [(hd.old x hxp).2.2.2.1]
    simp [hxp]

/-- The shape is none in which a node is on its way back. -/
theorem noHand_addShape (hn : NoHand s g) (base : Nat) (hmem : s'.mem = p :: s.mem) :
    NoHand s' (addShape g p base) := by
  intro x hx
  rw [hmem] at hx
  rw [addShape_st]
  split_ifs with hxp
  · exact nofun
  · exact hn x ((List.mem_cons.mp hx).resolve_left hxp)

theorem merged_addShape (hf : Forest s s.mem g) (hp : p ∉ s.mem) (base : Nat) (hm : Merged g 0) :
    Merged (addShape g p base) 0 := by
  intro x a b hx ha hb
  rw [addShape_st] at hx
  split_ifs at hx
  obtain ⟨-, hk⟩ := hf.split x a b hx
  have hap : a ≠ p := fun he => hp (he ▸ hk.left)
  have hbp : b ≠ p := fun he => hp (he ▸ hk.right)
  rw [addShape_st, if_neg hap] at ha
  rw [addShape_st, if_neg hbp] at hb
  exact hm x a b hx ha hb

/-- **`_utspace_split_add_uts`**. -/
theorem addUts_spec (pool : Pool) : ∀ (uts : List NewUt) (s : UtSplit) (g : Shape)
    (l : HeadRef → List Word) (ok : Bool) (s' : UtSplit), Inv s s.mem g l →
    addUts pool uts s = some (ok, s') → ∃ g' l', Inv s' s'.mem g' l' ∧ (NoHand s g → NoHand s' g') ∧
      (Merged g 0 → Merged g' 0) := by
  intro uts
  induction uts with
  | nil =>
    intro s g l ok s' hi hs
    obtain ⟨rfl, rfl⟩ : true = ok ∧ s = s' := by simpa [addUts] using hs
    exact ⟨g, l, hi, id, id⟩
  | cons u us ih =>
    intro s g l ok s' hi hs
    unfold addUts at hs
    split_ifs at hs with hu
    · obtain ⟨hbits, hslot, hcap⟩ := hu
      dsimp only at hs
      rcases insertNewNode_spec pool hi hbits hslot (Option.isNone_iff_eq_none.mp hcap) with
        ⟨s1, hs1, hsame, hmem⟩ | ⟨s1, p, l1, hs1, hp, hmem, -, hi1⟩
      · rw [offer] at hs1
        rw [hs1] at hs
        obtain ⟨rfl, rfl⟩ : false = ok ∧ s1 = s' := by simpa using hs
        have hi1 := hi.congr hsame
        rw [← hmem] at hi1
        exact ⟨g, l, hi1, fun hn x hx => hn x (hmem ▸ hx), id⟩
      · rw [offer] at hs1
        rw [hs1] at hs
        rw [← hmem] at hi1
        obtain ⟨g', l', hi', hn', hm'⟩ := ih _ _ l1 ok s' hi1 hs
        exact ⟨g', l', hi', fun hn => hn' (noHand_addShape hn u.base hmem),
          fun hm => hm' (merged_addShape hi.toForest hp u.base hm)⟩

end UtSplit

end SeL4.Allocman
