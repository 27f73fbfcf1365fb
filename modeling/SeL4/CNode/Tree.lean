import SeL4.CNode.Derivation
import SeL4.Object.State

/-!
# The derivation list encodes the derivation tree

`isMDBParentOf` decides from two slots whether the second is a descendant of the first: the first is
revocable, its region contains the second's, and if it is a badged endpoint or notification the
second has the same badge and is not the first of its kind. `TreeInv` says that the runs of this test
in the list are the subtrees of the ghost tree `KState.cdt` (`Links.Encodes`), with what the flags
have to satisfy for that:

* `untyped` and `irq_control` capabilities are revocable;
* a badged capability that is not marked `mdbFirstBadged` follows one with its object and badge;
* there is one `irq_control` capability, and interrupts with a handler are active.

Each operation on slots keeps `TreeInv`, given `DerivInv`.
-/

namespace SeL4.Object

open SeL4.Lib Function KState

/-! ## Badges and flags -/

namespace Cap

/-- The badge of an endpoint or notification capability. -/
def badge : Cap → Option Word
  | endpoint b _ _ _ _ _ => some b
  | notification b _ _ _ => some b
  | _ => none

/-- A derived capability of the source's key is revocable if it is untyped or newly badged. -/
theorem isCapRevocable_of_key {c src : Cap} (hk : c.key = src.key) :
    c.isCapRevocable src = true ↔ c.isUntyped = true ∨ c.badge ≠ src.badge := by
  cases c with
  | endpoint => cases src with
    | endpoint => simp [isCapRevocable, isUntyped, badge]
    | _ => cases hk
  | notification => cases src with
    | notification => simp [isCapRevocable, isUntyped, badge]
    | _ => cases hk
  | irqHandler => cases src with
    | irqHandler => simp [isCapRevocable, isIRQControl, isUntyped, badge]
    | _ => cases hk
  | untyped => simp [isCapRevocable, isUntyped]
  | _ => cases src with
    | endpoint | notification => cases hk
    | _ => simp [isCapRevocable, isUntyped, badge]

/-- What a badged capability stands above has a badge too. -/
theorem badge_of_same {cfg : KernelConfig} {a b : Cap} {w : Word} (ha : a.badge = some w)
    (hs : a.sameRegionAs cfg b = true) : ∃ w', b.badge = some w' := by
  have hk : a.key = b.key := by
    refine (sameRegionAs_exact ?_ b).mp hs
    cases a with
    | endpoint | notification => rfl
    | _ => cases ha
  cases a with
  | endpoint => cases b with
    | endpoint => exact ⟨_, rfl⟩
    | _ => cases hk
  | notification => cases b with
    | notification => exact ⟨_, rfl⟩
    | _ => cases hk
  | _ => cases ha

end Cap

namespace Cte

/-- `mdbRevocable` and `mdbFirstBadged`. -/
def flags (c : Cte) : Bool × Bool := (c.cteMDBNode.mdbRevocable, c.cteMDBNode.mdbFirstBadged)

/-- What `isMDBParentOf` reads of a slot; the flags of an empty one do not matter. -/
def face (c : Cte) : Cap × Option Word × Bool × Bool :=
  (c.cap.key, c.cap.badge, !c.cap.isNull && c.flags.1, !c.cap.isNull && c.flags.2)

end Cte

namespace CteHeap

section Flags

variable (h : CteHeap) (p v x : Word) (c : Cap) (k : Cte) (n : MdbNode) (b : Bool)

theorem flags_set : (h.set p k x).flags = if x = p then k.flags else (h x).flags :=
  field_set h p x k Cte.flags

theorem flags_setCap : (h.setCap p c x).flags = (h x).flags := field_set_of_eq h p x Cte.flags rfl

theorem flags_setNext : (h.setNext p v x).flags = (h x).flags := field_set_of_eq h p x Cte.flags rfl

theorem flags_ifPtr_setNext : (h.ifPtr p (setNext p v) x).flags = (h x).flags :=
  ifPtr_of_eq (flags_setNext h p v x)

theorem flags_ifPtr_setPrev : (h.ifPtr p (setPrev p v) x).flags = (h x).flags :=
  ifPtr_of_eq (field_set_of_eq h p x Cte.flags rfl)

theorem flags_ifPtr_setFirstBadged : (h.ifPtr p (setFirstBadged p b) x).flags =
    if x = p ∧ x ≠ 0 then ((h p).flags.1, b) else (h x).flags :=
  ifPtr_of_ite (field_set h p x _ Cte.flags)

theorem flags_setUntypedCapAsFull (d : Cap) (s : Word) :
    (h.setUntypedCapAsFull c d s x).flags = (h x).flags := by
  rw [Cte.flags, node_setUntypedCapAsFull]
  rfl

theorem flags_cteInsert (src dst : Word) : (h.cteInsert c src dst x).flags =
    if x = dst then (c.isCapRevocable (h src).cap, c.isCapRevocable (h src).cap)
      else (h x).flags := by
  simp only [cteInsert, flags_ifPtr_setPrev, flags_setNext, flags_set, flags_setUntypedCapAsFull]
  rfl

theorem flags_insertNewCap (parent slot : Word) : (h.insertNewCap parent slot c x).flags =
    if x = slot then (true, true) else (h x).flags := by
  simp only [insertNewCap, flags_setNext, flags_ifPtr_setPrev, flags_set]
  rfl

theorem flags_cteMove (src dst : Word) : (h.cteMove c src dst x).flags =
    if x = src then (false, false) else if x = dst then (h src).flags else (h x).flags := by
  simp only [cteMove, flags_ifPtr_setPrev, flags_ifPtr_setNext, flags_set]
  rfl

theorem flags_setNode : (h.setNode p n x).flags =
    if x = p then (n.mdbRevocable, n.mdbFirstBadged) else (h x).flags :=
  field_set h p x _ Cte.flags

theorem flags_cteSwap (d : Cap) (s t : Word) : (h.cteSwap c s d t x).flags =
    if x = t then (h s).flags else if x = s then (h t).flags else (h x).flags := by
  have hnode : ∀ (g : CteHeap) (y : Word),
      ((g y).cteMDBNode.mdbRevocable, (g y).cteMDBNode.mdbFirstBadged) = (g y).flags :=
    fun _ _ => rfl
  simp only [cteSwap, flags_ifPtr_setPrev, flags_ifPtr_setNext, flags_setNode, hnode, flags_setCap]

theorem flags_emptySlot {s : Word} (hs : (h s).cap ≠ .null) : (h.emptySlot s x).flags =
    if x = s then (false, false)
    else if x = h.links.next s ∧ x ≠ 0 then ((h x).flags.1, (h x).flags.2 || (h s).flags.2)
    else (h x).flags := by
  have hs' : (h s).cap.isNull ≠ true := fun he => hs (Cap.isNull_iff.mp he)
  have hfb : ∀ (g : CteHeap) (y : Word), (g y).cteMDBNode.mdbFirstBadged = (g y).flags.2 := fun _ _ => rfl
  simp only [emptySlot, if_neg hs', flags_set, flags_ifPtr_setFirstBadged, flags_ifPtr_setPrev,
    flags_ifPtr_setNext, hfb]
  by_cases hx : x = s
  · simp only [if_pos hx]
    rfl
  · simp only [if_neg hx]
    by_cases hxn : x = h.links.next s ∧ x ≠ 0
    · have hxn' : x = (h s).cteMDBNode.mdbNext ∧ x ≠ 0 := hxn
      rw [if_pos hxn, if_pos hxn', ← hxn'.1]
    · have hxn' : ¬ (x = (h s).cteMDBNode.mdbNext ∧ x ≠ 0) := hxn
      rw [if_neg hxn, if_neg hxn']

end Flags

variable (cfg : KernelConfig)

/-- `isMDBParentOf` of two slots. -/
def Par (h : CteHeap) (a b : Word) : Prop := isMDBParentOf cfg (h a) (h b) = true

variable {cfg} {h h' : CteHeap}

/-- The comparison of badges in `isMDBParentOf`. -/
theorem badge_test (badge badge' : Word) (fb : Bool) :
    (if badge = 0 then true else badge == badge' && !fb) = true ↔
      ∀ w, some badge = some w → w ≠ 0 → some badge' = some w ∧ fb = false := by
  split_ifs with h0
  · exact ⟨fun _ w hw hw0 => absurd (Option.some.inj hw ▸ h0) hw0, fun _ => rfl⟩
  · rw [Bool.and_eq_true, beq_iff_eq, Bool.not_eq_true']
    constructor
    · rintro ⟨rfl, hf⟩ w hw -
      exact ⟨hw, hf⟩
    · intro hall
      obtain ⟨h1, h2⟩ := hall badge rfl h0
      exact ⟨(Option.some.inj h1).symm, h2⟩

variable {b a : Word}

/-- `isMDBParentOf`, in the terms of its definition. -/
theorem par_iff : h.Par cfg a b ↔ (h a).flags.1 = true ∧ h.Same cfg a b ∧
      ∀ w, (h a).cap.badge = some w → w ≠ 0 → (h b).cap.badge = some w ∧ (h b).flags.2 = false := by
  unfold Par isMDBParentOf Same
  cases hr : (h a).cteMDBNode.mdbRevocable with
  | false => simp [Cte.flags, hr]
  | true =>
    cases hs : (h a).cap.sameRegionAs cfg (h b).cap with
    | false => simp
    | true =>
      simp only [Cte.flags, hr, true_and, Bool.not_true, Bool.false_eq_true, if_false]
      cases ha : (h a).cap with
      | endpoint badge =>
        rw [ha] at hs
        obtain ⟨w, hw⟩ := Cap.badge_of_same rfl hs
        cases hb : (h b).cap with
        | endpoint badge' => exact badge_test badge badge' _
        | notification => rw [hb] at hs; cases hs
        | _ => rw [hb] at hw; cases hw
      | notification badge =>
        rw [ha] at hs
        obtain ⟨w, hw⟩ := Cap.badge_of_same rfl hs
        cases hb : (h b).cap with
        | notification badge' => exact badge_test badge badge' _
        | endpoint => rw [hb] at hs; cases hs
        | _ => rw [hb] at hw; cases hw
      | _ => simp [Cap.badge]

theorem face_eq {c c' : Cte} (he : c'.face = c.face) : c'.cap.key = c.cap.key ∧
    c'.cap.badge = c.cap.badge ∧ (c.cap ≠ .null → c'.flags = c.flags) := by
  simp only [Cte.face, Prod.mk.injEq] at he
  obtain ⟨hk, hb, h1, h2⟩ := he
  refine ⟨hk, hb, fun hn => ?_⟩
  have hnull : ∀ d : Cte, d.cap.key = c.cap.key → d.cap.isNull = false := by
    intro d hd
    rw [Bool.eq_false_iff]
    intro hd'
    rw [Cap.isNull_iff.mp hd'] at hd
    exact hn (Cap.key_eq_null.mp hd.symm)
  rw [hnull c' hk, hnull c rfl] at h1 h2
  exact Prod.ext h1 h2

theorem Par.of_face {a' b' : Word} (hp : h.Par cfg a b) (ha : (h' a').face = (h a).face)
    (hb : (h' b').face = (h b).face) : h'.Par cfg a' b' := by
  obtain ⟨hka, hba, hfa⟩ := face_eq ha
  obtain ⟨hkb, hbb, hfb⟩ := face_eq hb
  obtain ⟨h1, h2, h3⟩ := par_iff.mp hp
  refine par_iff.mpr ⟨?_, (same_of_keys hka hkb).mpr h2, ?_⟩
  · rw [hfa h2.ne_null_left]
    exact h1
  · rw [hba, hbb, hfb h2.ne_null_right]
    exact h3

/-- The test reads only faces. -/
theorem par_of_face {a' b' : Word} (ha : (h' a').face = (h a).face)
    (hb : (h' b').face = (h b).face) : h'.Par cfg a' b' ↔ h.Par cfg a b :=
  ⟨fun hp => hp.of_face ha.symm hb.symm, fun hp => hp.of_face ha hb⟩

/-- An insertion leaves the other faces. -/
theorem face_cteInsert (h : CteHeap) (c : Cap) (src : Word) {dst x : Word} (hx : x ≠ dst) :
    (h.cteInsert c src dst x).face = (h x).face := by
  have hfl : (h.cteInsert c src dst x).flags = (h x).flags := by
    rw [flags_cteInsert, if_neg hx]
  unfold Cte.face
  rw [hfl, cap_cteInsert, if_neg hx]
  rcases cap_setUntypedCapAsFull h c src x with he | ⟨rfl, i, dev, n, p, hu, he⟩
  · rw [he]
  · rw [he, hu]
    rfl

end CteHeap

/-! ## The invariant -/

namespace Cap

variable {c : Cap}

theorem isNull_of_key {d : Cap} (hk : c.key = d.key) : c.isNull = d.isNull := by
  rw [Bool.eq_iff_iff, isNull_iff, isNull_iff, ← key_eq_null, hk, key_eq_null]

theorem badge_of_isUntyped (h : c.isUntyped = true) : c.badge = none := by
  cases c with
  | untyped => rfl
  | _ => cases h

/-- Capabilities of one key have badges or not together. -/
theorem badge_isSome_of_key {d : Cap} (hk : c.key = d.key) : c.badge = none ↔ d.badge = none := by
  cases c with
  | endpoint => cases d with
    | endpoint => simp [badge]
    | _ => cases hk
  | notification => cases d with
    | notification => simp [badge]
    | _ => cases hk
  | _ => cases d with
    | endpoint | notification => cases hk
    | _ => simp [badge]

end Cap

/-- **The list encodes the tree.** -/
structure TreeInv (cfg : KernelConfig) (s : KState) : Prop where
  badges : ∀ {x w}, (s.cte x).cap.badge = some w → w ≠ 0 → (s.cte x).flags.2 = false →
    ∃ y, s.cte.links.Next 0 y x ∧ (s.cte y).cap.key = (s.cte x).cap.key ∧ (s.cte y).cap.badge = some w
  revocable : ∀ {x}, (s.cte x).cap.isUntyped = true ∨ (s.cte x).cap = .irqControl →
    (s.cte x).flags.1 = true
  one_control : ∀ {x y}, (s.cte x).cap = .irqControl → (s.cte y).cap = .irqControl → x = y
  handler_active : ∀ {x i}, (s.cte x).cap = .irqHandler i → s.irqActive i = true
  encodes : Links.Encodes 0 s.cte.links (s.cte.Par cfg) s.cdt

namespace TreeInv

open CteHeap

variable {cfg : KernelConfig} {s s' : KState} (hd : DerivInv cfg s.cte) (ht : TreeInv cfg s)
include hd ht

/-! ### Exchanging slots and rewriting capabilities -/

/-- Slots are renamed, and each takes its face along. -/
theorem rename (σ : Equiv.Perm Word) (hσ : σ 0 = 0) (hl : s'.cte.links = s.cte.links.rename σ)
    (hf : ∀ x, (s'.cte x).face = (s.cte (σ.symm x)).face)
    (hcdt : s'.cdt = fun x => (s.cdt (σ.symm x)).map σ) (hirq : s'.irqActive = s.irqActive) :
    TreeInv cfg s' := by
  obtain ⟨LL, hm⟩ := hd.lists
  have hkey : ∀ x, (s'.cte x).cap.key = (s.cte (σ.symm x)).cap.key := fun x => (face_eq (hf x)).1
  have hbadge : ∀ x, (s'.cte x).cap.badge = (s.cte (σ.symm x)).cap.badge := fun x => (face_eq (hf x)).2.1
  have hcontrol : ∀ x, (s'.cte x).cap = .irqControl ↔ (s.cte (σ.symm x)).cap = .irqControl := by
    intro x
    rw [← Cap.key_eq_irqControl, hkey, Cap.key_eq_irqControl]
  refine ⟨?_, ?_, ?_, ?_, ?_⟩
  · intro x w hb hw hfb
    rw [hbadge] at hb
    have hne : (s.cte (σ.symm x)).cap ≠ .null := by
      intro hn
      rw [hn] at hb
      cases hb
    rw [(face_eq (hf x)).2.2 hne] at hfb
    obtain ⟨y, hy, hk, hyb⟩ := ht.badges hb hw hfb
    refine ⟨σ y, ?_, ?_, ?_⟩
    · rw [hl, Links.next_rename σ hσ, Equiv.symm_apply_apply]
      exact hy
    · rw [hkey, hkey, Equiv.symm_apply_apply, hk]
    · rw [hbadge, Equiv.symm_apply_apply, hyb]
  · intro x hx
    rw [← Cap.isUntyped_key, hkey, Cap.isUntyped_key, hcontrol] at hx
    have hne : (s.cte (σ.symm x)).cap ≠ .null := by
      intro hn
      rw [hn] at hx
      rcases hx with hx | hx <;> cases hx
    rw [(face_eq (hf x)).2.2 hne]
    exact ht.revocable hx
  · intro x y hx hy
    rw [hcontrol] at hx hy
    exact σ.symm.injective (ht.one_control hx hy)
  · intro x i hx
    rw [← Cap.key_eq_irqHandler, hkey, Cap.key_eq_irqHandler] at hx
    rw [hirq]
    exact ht.handler_active hx
  · rw [hl, hcdt]
    exact ht.encodes.rename hm.lists σ hσ fun a b => par_of_face (hf a) (hf b)

/-- Rewriting capabilities within their faces. -/
theorem recap (hl : s'.cte.links = s.cte.links) (hf : ∀ x, (s'.cte x).face = (s.cte x).face)
    (hcdt : s'.cdt = s.cdt) (hirq : s'.irqActive = s.irqActive) : TreeInv cfg s' := by
  refine ht.rename hd (.refl Word) rfl hl hf ?_ hirq
  rw [hcdt]
  funext x
  exact (Option.map_id').symm

variable {c : Cap} {dst : Word}

theorem cteMove {src : Word} (hs : (s.cte src).cap ≠ .null)
    (hdst : (s.cte dst).cap = .null) (hd0 : dst ≠ 0) (hk : c.key = (s.cte src).cap.key)
    (hb : c.badge = (s.cte src).cap.badge) : TreeInv cfg (s.cteMove c src dst) := by
  obtain ⟨LL, hm⟩ := hd.lists
  have hs0 := hm.ne_zero hs
  refine ht.rename hd (.swap src dst) (Equiv.swap_apply_of_ne_of_ne hs0.symm hd0.symm) ?_
    (fun x => ?_) rfl rfl
  · exact (links_cteMove _ _ _ _).trans (hm.lists.moveTo_eq (hm.mem hs) (hm.notMem hdst) hd0)
  · show (s.cte.cteMove c src dst x).face = _
    unfold Cte.face
    rw [cap_cteMove, flags_cteMove, Equiv.symm_swap, Equiv.swap_apply_def]
    by_cases hxs : x = src
    · simp only [if_pos hxs, hdst]
      rfl
    · by_cases hxd : x = dst
      · simp only [if_neg hxs, if_pos hxd, hk, hb, Cap.isNull_of_key hk]
      · simp only [if_neg hxs, if_neg hxd]

theorem cteSwap {d : Cap} {x y : Word} (hxy : x ≠ y) (hx : x ≠ 0) (hy : y ≠ 0)
    (hkc : c.key = (s.cte x).cap.key) (hbc : c.badge = (s.cte x).cap.badge)
    (hkd : d.key = (s.cte y).cap.key) (hbd : d.badge = (s.cte y).cap.badge) :
    TreeInv cfg (s.cteSwap c x d y) := by
  obtain ⟨LL, hm⟩ := hd.lists
  refine ht.rename hd (.swap x y) (Equiv.swap_apply_of_ne_of_ne hx.symm hy.symm) ?_ (fun z => ?_) rfl rfl
  · exact (links_cteSwap _ _ _ _ _).trans (hm.lists.exchange_eq hxy hx hy)
  · show (s.cte.cteSwap c x d y z).face = _
    unfold Cte.face
    rw [cap_cteSwap, flags_cteSwap, Equiv.symm_swap, Equiv.swap_apply_def]
    by_cases hzx : z = x
    · subst hzx
      simp only [if_neg hxy, if_true, hkd, hbd, Cap.isNull_of_key hkd]
    · by_cases hzy : z = y
      · simp only [if_neg hzx, if_pos hzy, hkc, hbc, Cap.isNull_of_key hkc]
      · simp only [if_neg hzx, if_neg hzy]

/-- A zombie in place of the only capability to a CNode or thread. -/
theorem zombify {slot : Word} (hl : s'.cte.links = s.cte.links)
    (hz : Zombified cfg s.cte s'.cte slot) (hfl : ∀ x, (s'.cte x).flags = (s.cte x).flags)
    (hb : (s.cte slot).cap.badge = none) (hcdt : s'.cdt = s.cdt)
    (hirq : s'.irqActive = s.irqActive) : TreeInv cfg s' := by
  obtain ⟨LL, hm⟩ := hd.lists
  obtain ⟨id, t, hid⟩ := hz.zombie
  have hbadge : ∀ x, (s'.cte x).cap.badge = (s.cte x).cap.badge := by
    intro x
    by_cases hx : x = slot
    · rw [hx, hb, hid]
      rfl
    · rw [hz.off x hx]
  refine ⟨?_, ?_, ?_, ?_, ?_⟩
  · intro x w hxb hw hfb
    rw [hbadge] at hxb
    rw [hfl] at hfb
    have hne : ∀ {y}, (s.cte y).cap.badge = some w → y ≠ slot := by
      rintro y hy rfl
      rw [hb] at hy
      cases hy
    obtain ⟨y, hy, hk, hyb⟩ := ht.badges hxb hw hfb
    refine ⟨y, ?_, ?_, ?_⟩
    · rw [hl]
      exact hy
    · rw [hz.off y (hne hyb), hz.off x (hne hxb), hk]
    · rw [hbadge, hyb]
  · intro x hx
    have hxs : x ≠ slot := by
      rintro rfl
      rw [hid] at hx
      rcases hx with hx | hx <;> cases hx
    rw [hz.off x hxs] at hx
    rw [hfl]
    exact ht.revocable hx
  · have hne : ∀ {x}, (s'.cte x).cap = .irqControl → x ≠ slot := by
      rintro x hx rfl
      rw [hid] at hx
      cases hx
    intro x y hx hy
    rw [hz.off x (hne hx)] at hx
    rw [hz.off y (hne hy)] at hy
    exact ht.one_control hx hy
  · intro x i hx
    have hxs : x ≠ slot := by
      rintro rfl
      rw [hid] at hx
      cases hx
    rw [hz.off x hxs] at hx
    rw [hirq]
    exact ht.handler_active hx
  · rw [hl, hcdt]
    refine ht.encodes.congr hm.lists fun a b hab => ?_
    have hne : a ≠ b := by
      rintro rfl
      exact hm.lists.before_irrefl a hab
    rw [par_iff, par_iff, hfl, hfl, hbadge, hbadge, hd.same_zombify hz hne]

/-! ### Insertions -/

section Insert

variable {u : Word} (hdst : (s.cte dst).cap = .null) (hd0 : dst ≠ 0)
include hdst hd0

/-- A new slot behind `u`. Unless it is marked as the first one with its badge, this is the badge of
`u` (`hbd`); what followed `u` for its badge can follow the new slot (`hub`). -/
theorem insertAfter {q : Option Word} (hu : (s.cte u).cap ≠ .null)
    (hl : s'.cte.links = s.cte.links.insertAfter 0 u dst)
    (hface : ∀ {x}, x ≠ dst → (s'.cte x).face = (s.cte x).face)
    (hflags : ∀ {x}, x ≠ dst → (s'.cte x).flags = (s.cte x).flags)
    (hbd : ∀ w, (s'.cte dst).cap.badge = some w → (s'.cte dst).flags.2 = false →
      (s.cte u).cap.key = (s'.cte dst).cap.key ∧ (s.cte u).cap.badge = some w)
    (hub : ∀ w, (s.cte u).cap.badge = some w → w ≠ 0 →
      (s'.cte dst).cap.key = (s.cte u).cap.key ∧ (s'.cte dst).cap.badge = some w)
    (hrev : (s'.cte dst).cap.isUntyped = true → (s'.cte dst).flags.1 = true)
    (hctl : (s'.cte dst).cap ≠ .irqControl)
    (hirq : ∀ {x i}, (s'.cte x).cap = .irqHandler i → s'.irqActive i = true)
    (hcdt : s'.cdt = update s.cdt dst q) (hup : ∀ a ≠ dst, s.cte.Par cfg a u → s'.cte.Par cfg a dst)
    (hsrc : ∀ x, s.cte.links.Next 0 u x → s.cte.Par cfg u x → s'.cte.Par cfg u dst)
    (hnew : ∀ x ≠ dst, s.cte.links.Next 0 u x → ¬ s'.cte.Par cfg dst x)
    (hq : (s'.cte.Par cfg u dst → q = some u) ∧ (¬ s'.cte.Par cfg u dst → q = s.cdt u)) :
    TreeInv cfg s' := by
  obtain ⟨LL, hm⟩ := hd.lists
  have hud := MdbLists.ne_of_null hu hdst
  have hnext := Links.next_insertAfter (L := s.cte.links) hud hd0
  have hkey : ∀ {x}, x ≠ dst → (s'.cte x).cap.key = (s.cte x).cap.key := fun hx => (face_eq (hface hx)).1
  have hbadge : ∀ {x}, x ≠ dst → (s'.cte x).cap.badge = (s.cte x).cap.badge :=
    fun hx => (face_eq (hface hx)).2.1
  have hcontrol : ∀ {x}, (s'.cte x).cap = .irqControl → (s.cte x).cap = .irqControl := by
    intro x hx
    have hxd : x ≠ dst := fun he => hctl (he ▸ hx)
    rwa [← Cap.key_eq_irqControl, ← hkey hxd, Cap.key_eq_irqControl]
  refine ⟨?_, ?_, fun hx hy => ht.one_control (hcontrol hx) (hcontrol hy), hirq, ?_⟩
  · intro x w hxb hw hfb
    by_cases hx : x = dst
    · subst hx
      obtain ⟨hk, hb⟩ := hbd w hxb hfb
      refine ⟨u, ?_, (hkey hud).trans hk, (hbadge hud).trans hb⟩
      rw [hl, hnext]
      exact .inl ⟨rfl, rfl⟩
    · rw [hbadge hx] at hxb
      rw [hflags hx] at hfb
      obtain ⟨y, hy, hky, hyb⟩ := ht.badges hxb hw hfb
      have hyd : y ≠ dst := by
        rintro rfl
        rw [hdst] at hyb
        cases hyb
      rw [hkey hx, hl]
      by_cases hyu : y = u
      · -- the new slot now stands between the two
        subst hyu
        obtain ⟨hk, hb⟩ := hub w hyb hw
        refine ⟨dst, ?_, hk.trans hky, hb⟩
        rw [hnext]
        exact .inr (.inl ⟨rfl, hy⟩)
      · refine ⟨y, ?_, (hkey hyd).trans hky, (hbadge hyd).trans hyb⟩
        rw [hnext]
        exact .inr (.inr ⟨hyu, hyd, hy⟩)
  · intro x hx
    by_cases hxd : x = dst
    · subst hxd
      exact hrev (hx.resolve_right hctl)
    · rw [← Cap.isUntyped_key, hkey hxd, Cap.isUntyped_key] at hx
      rw [hflags hxd]
      exact ht.revocable (hx.imp_right hcontrol)
  · rw [hl, hcdt]
    refine ht.encodes.insertAfter hm.lists (hm.mem hu) (hm.notMem hdst) hd0
      (fun a x ha hx => par_of_face (hface ha) (hface hx)) (fun a hr => ?_) hsrc (fun x hx => ?_) hq
    · refine hup a ?_ hr.par_self
      rintro rfl
      exact (hd.bef_ne_null hr.before).1 hdst
    · refine hnew x ?_ hx
      rintro rfl
      exact (hd.bef_ne_null hx.before).2 hdst

/-- A derived capability keeps the key of its source, and its badge if there is one. -/
theorem insertCopy {src : Word} (hs : (s.cte src).cap ≠ .null)
    (hz : (s.cte src).cap.isZombie = false) (hctl : (s.cte src).cap ≠ .irqControl)
    (hk : c.key = (s.cte src).cap.key)
    (hb : ∀ w, (s.cte src).cap.badge = some w → w ≠ 0 → c.badge = some w)
    (hch : (s.cte src).cap.isUntyped = true → ∀ x, s.cte.links.Next 0 src x → ¬ s.cte.Same cfg src x) :
    TreeInv cfg (s.cteInsert cfg c src dst) := by
  obtain ⟨LL, hm⟩ := hd.lists
  have hsd := MdbLists.ne_of_null hs hdst
  have hoff : ∀ {x}, x ≠ dst → ((s.cteInsert cfg c src dst).cte x).face = (s.cte x).face :=
    fun hx => face_cteInsert s.cte c src hx
  have hcap : ((s.cteInsert cfg c src dst).cte dst).cap = c :=
    (cap_cteInsert _ _ _ _ _).trans (if_pos rfl)
  have hfl : ((s.cteInsert cfg c src dst).cte dst).flags =
      (c.isCapRevocable (s.cte src).cap, c.isCapRevocable (s.cte src).cap) :=
    (flags_cteInsert _ _ _ _ _).trans (if_pos rfl)
  have hrev := Cap.isCapRevocable_of_key hk
  have hfloff : ∀ {x}, x ≠ dst → ((s.cteInsert cfg c src dst).cte x).flags = (s.cte x).flags :=
    fun hx => (flags_cteInsert _ _ _ _ _).trans (if_neg hx)
  -- where the source has a badge, so has the copy, and it is not marked as first
  have hbadged : ∀ w, (s.cte src).cap.badge = some w → w ≠ 0 →
      c.badge = some w ∧ c.isCapRevocable (s.cte src).cap = false := by
    intro w hw hw0
    refine ⟨hb w hw hw0, ?_⟩
    rw [Bool.eq_false_iff, ne_eq, hrev, hb w hw hw0, hw]
    rintro (hu | hne)
    · have := Cap.badge_of_isUntyped hu
      rw [hb w hw hw0] at this
      cases this
    · exact hne rfl
  have hpar : ∀ {a}, a ≠ dst → (s.cte a).flags.1 = true → s.cte.Same cfg a src →
      (∀ w, (s.cte a).cap.badge = some w → w ≠ 0 → (s.cte src).cap.badge = some w) →
      (s.cteInsert cfg c src dst).cte.Par cfg a dst := by
    intro a ha h1 h2 h3
    refine par_iff.mpr ⟨(congrArg Prod.fst (hfloff ha)).trans h1,
      (same_of_keys (face_eq (hoff ha)).1 (by rw [hcap, hk])).mpr h2, fun w hw hw0 => ?_⟩
    rw [(face_eq (hoff ha)).2.1] at hw
    rw [hcap, hfl]
    exact hbadged w (h3 w hw hw0) hw0
  have hkind : ∀ {d : Cap}, c = d → (s.cte src).cap.key = d.key := fun hc => hk.symm.trans (congrArg _ hc)
  refine ht.insertAfter hd hdst hd0 hs (links_cteInsert _ _ _ _) hoff hfloff ?_ ?_ ?_ ?_ ?_ rfl ?_ ?_ ?_
    ⟨fun hp => if_pos hp, fun hp => if_neg hp⟩
  · intro w hw hf
    rw [hcap] at hw ⊢
    rw [hfl] at hf
    refine ⟨hk.symm, by_contra fun hne => Bool.eq_false_iff.mp hf (hrev.mpr (.inr ?_))⟩
    rw [hw]
    exact fun he => hne he.symm
  · intro w hw hw0
    rw [hcap]
    exact ⟨hk, hb w hw hw0⟩
  · rw [hcap, hfl]
    exact fun hu => hrev.mpr (.inl hu)
  · rw [hcap]
    exact fun hc => hctl (Cap.key_eq_irqControl.mp (hkind hc))
  · intro x i hx
    by_cases hxd : x = dst
    · rw [hxd, hcap] at hx
      exact ht.handler_active (Cap.key_eq_irqHandler.mp (hkind hx))
    · rw [← Cap.key_eq_irqHandler, (face_eq (hoff hxd)).1, Cap.key_eq_irqHandler] at hx
      exact ht.handler_active hx
  · intro a ha hp
    obtain ⟨h1, h2, h3⟩ := par_iff.mp hp
    exact hpar ha h1 h2 fun w hw hw0 => (h3 w hw hw0).1
  · intro x _ hp
    exact hpar hsd (par_iff.mp hp).1 (hd.same_refl hs hz) fun w hw _ => hw
  · -- the copy has no run of its own
    intro x hxd hx hp
    obtain ⟨h1, h2, h3⟩ := par_iff.mp hp
    rw [hfl, hrev] at h1
    have h2' : s.cte.Same cfg src x := (same_of_keys (by rw [hcap, hk]) (face_eq (hoff hxd)).1).mp h2
    rcases h1 with hu | hne
    · refine hch ?_ x hx h2'
      rwa [← Cap.isUntyped_key, ← hk, Cap.isUntyped_key]
    · cases hcb : c.badge with
      | none => exact hne (hcb.trans ((Cap.badge_isSome_of_key hk).mp hcb).symm)
      | some w =>
        have hw0 : w ≠ 0 := by
          rintro rfl
          cases hsb : (s.cte src).cap.badge with
          | none =>
            rw [(Cap.badge_isSome_of_key hk).mpr hsb] at hcb
            cases hcb
          | some v =>
            by_cases hv : v = 0
            · exact hne (by rw [hcb, hsb, hv])
            · rw [hb v hsb hv] at hcb
              exact hv (Option.some.inj hcb)
        rw [hcap, (face_eq (hoff hxd)).2.1, hfloff hxd] at h3
        obtain ⟨hxb, hxf⟩ := h3 w hcb hw0
        obtain ⟨y, hy, -, hyb⟩ := ht.badges hxb hw0 hxf
        rw [hm.lists.next_inj hy hx] at hyb
        exact hne (hcb.trans hyb.symm)

/-- A new slot behind `u` with both flags set becomes a child of `u`, if `u` and what is above it are
untyped or `irq_control`. -/
theorem insertChild (hf : Child cfg s.cte u c)
    (hu : ∀ a, a = u ∨ s.cte.Same cfg a u → (s.cte a).cap.isUntyped = true ∨ (s.cte a).cap = .irqControl)
    (hl : s'.cte.links = s.cte.links.insertAfter 0 u dst)
    (hcap : ∀ x, (s'.cte x).cap = if x = dst then c else (s.cte x).cap)
    (hfl : ∀ x, (s'.cte x).flags = if x = dst then (true, true) else (s.cte x).flags)
    (hctl : c ≠ .irqControl) (hcdt : s'.cte.Par cfg u dst → s'.cdt = update s.cdt dst (some u))
    (hirq : ∀ {x i}, (s'.cte x).cap = .irqHandler i → s'.irqActive i = true) : TreeInv cfg s' := by
  have hnew : (s'.cte dst).cap = c := by rw [hcap, if_pos rfl]
  have hold : ∀ {x}, x ≠ dst → (s'.cte x).cap = (s.cte x).cap := fun hx => by rw [hcap, if_neg hx]
  have hflo : ∀ {x}, x ≠ dst → (s'.cte x).flags = (s.cte x).flags := fun hx => by rw [hfl, if_neg hx]
  have hbadge : ∀ a, a = u ∨ s.cte.Same cfg a u → (s.cte a).cap.badge = none := by
    intro a ha
    rcases hu a ha with hua | hua
    · exact Cap.badge_of_isUntyped hua
    · rw [hua]
      rfl
  have hne : (s.cte u).cap ≠ .null := by
    intro hn
    have := hu u (.inl rfl)
    rw [hn] at this
    rcases this with h | h <;> cases h
  have hpar : ∀ a ≠ dst, a = u ∨ s.cte.Same cfg a u → s'.cte.Par cfg a dst := by
    intro a ha hau
    refine par_iff.mpr ⟨?_, ?_, ?_⟩
    · rw [hflo ha]
      exact ht.revocable (hu a hau)
    · rw [Same, hold ha, hnew]
      exact (hf.above a).mpr hau
    · intro w hw
      rw [hold ha, hbadge a hau] at hw
      cases hw
  have hud := hpar u (MdbLists.ne_of_null hne hdst) (.inl rfl)
  refine ht.insertAfter hd hdst hd0 hne hl (fun hx => ?_) hflo ?_ ?_ ?_ (hnew ▸ hctl) hirq (hcdt hud)
    (fun a ha hp => hpar a ha (.inr (par_iff.mp hp).2.1)) (fun _ _ _ => hud) ?_
    ⟨fun _ => rfl, fun hp => absurd hud hp⟩
  · unfold Cte.face
    rw [hold hx, hflo hx]
  · intro w _ hf
    rw [hfl, if_pos rfl] at hf
    cases hf
  · intro w hw
    rw [hbadge u (.inl rfl)] at hw
    cases hw
  · intro _
    rw [hfl, if_pos rfl]
  · intro x hxd hx hp
    have h2 := (par_iff.mp hp).2.1
    rw [Same, hnew, hold hxd] at h2
    exact hf.behind x hx.before (hf.below x h2)

/-- A capability to a new object becomes a child of the untyped. -/
theorem insertBelow (hf : Fresh cfg s.cte u c)
    (hidx : ∀ {i dev n p}, (s.cte u).cap = .untyped i dev n p → BelowIndex cfg c p i) :
    TreeInv cfg (s.insertNewCap u dst c) := by
  have hcap := cap_insertNewCap s.cte u dst c
  have hnot : ∀ {d : Cap}, d.capIsPhysical = false → c ≠ d := by
    rintro d hp rfl
    rw [hf.physical] at hp
    cases hp
  refine ht.insertChild hd hdst hd0 (hd.child_fresh hf hidx) (fun a ha => .inl ?_)
    (links_insertNewCap _ _ _ _) hcap (fun x => flags_insertNewCap ..) (hnot rfl) (fun _ => rfl) ?_
  · rcases ha with rfl | ha
    · exact hf.isUntyped
    · exact Cap.isUntyped_of_same ha hf.isUntyped
  · intro x i hx
    have hx' := (hcap x).symm.trans hx
    split_ifs at hx'
    · exact absurd hx' (hnot rfl)
    · exact ht.handler_active hx'

/-- `invokeIRQControl`: the new handler becomes a child of the `irq_control` capability. -/
theorem insertHandler {irq ctrl : Word} (hc : (s.cte ctrl).cap = .irqControl)
    (hirq : s.irqActive irq = false) :
    TreeInv cfg (cteInsert cfg (.irqHandler irq) ctrl dst (s.setIRQState .signal irq)) := by
  have hno : ∀ x, (s.cte x).cap ≠ .irqHandler irq := by
    intro x hx
    have := ht.handler_active hx
    rw [hirq] at this
    cases this
  have hcap : ∀ x, (s.cte.cteInsert (.irqHandler irq) ctrl dst x).cap =
      if x = dst then .irqHandler irq else (s.cte x).cap := by
    intro x
    rw [cap_cteInsert, hc]
    rfl
  refine ht.insertChild hd hdst hd0 (hd.child_handler hc hno fun x hx => ht.one_control hx hc)
    (fun a ha => .inr (eq_irqControl_of_above hc ha)) (links_cteInsert _ _ _ _) hcap (fun x => ?_) (by simp)
    (fun hp => congrArg (update s.cdt dst) (if_pos hp)) ?_
  · have hfl := flags_cteInsert s.cte x (.irqHandler irq) ctrl dst
    rwa [hc] at hfl
  · intro x i hx
    have hx' := (hcap x).symm.trans hx
    show (s.setIRQState .signal irq).irqActive i = true
    rw [irqActive_setIRQState]
    by_cases hi : i = irq
    · rw [hi, update_self]
      rfl
    · rw [update_of_ne hi]
      split_ifs at hx'
      · exact absurd (Cap.irqHandler.inj hx').symm hi
      · exact ht.handler_active hx'

end Insert

/-! ### Deletion -/

/-- Emptying a slot gives its children to its parent. An interrupt that becomes inactive has no
other handler. -/
theorem emptySlot {slot : Word} {cleanupInfo : Cap} (hclean : ∀ i, cleanupInfo = .irqHandler i →
      ∀ x ≠ slot, (s.cte x).cap ≠ .irqHandler i) : TreeInv cfg (s.emptySlot slot cleanupInfo) := by
  by_cases hn : (s.cte slot).cap = .null
  · have hs : s.emptySlot slot cleanupInfo = s := if_pos (Cap.isNull_iff.mpr hn)
    rw [hs]
    exact ht
  obtain ⟨LL, hm⟩ := hd.lists
  have hmem := hm.mem hn
  generalize hs' : s.emptySlot slot cleanupInfo = s'
  have hs : s' = postCapDeletion cleanupInfo
      { s with cte := s.cte.emptySlot slot, cdt := Links.eraseParent s.cdt slot } := by
    rw [← hs']
    exact if_neg fun h => hn (Cap.isNull_iff.mp h)
  have hcte : s'.cte = s.cte.emptySlot slot := by
    rw [hs]
    cases cleanupInfo <;> rfl
  have hcdt : s'.cdt = Links.eraseParent s.cdt slot := by
    rw [hs]
    cases cleanupInfo <;> rfl
  have hl : s'.cte.links = s.cte.links.unlink 0 slot := by
    rw [hcte]
    exact links_emptySlot _ hn
  have hcap : ∀ x, (s'.cte x).cap = if x = slot then .null else (s.cte x).cap := by
    intro x
    rw [hcte, cap_emptySlot]
  have hold : ∀ {x}, x ≠ slot → (s'.cte x).cap = (s.cte x).cap := by
    intro x hx
    rw [hcap, if_neg hx]
  have hne : ∀ {x}, (s'.cte x).cap ≠ .null → x ≠ slot := by
    rintro x hx rfl
    rw [hcap, if_pos rfl] at hx
    exact hx rfl
  have hflN : ∀ {x}, x ≠ slot → s.cte.links.Next 0 slot x →
      (s'.cte x).flags = ((s.cte x).flags.1, (s.cte x).flags.2 || (s.cte slot).flags.2) := by
    intro x hx hn'
    rw [hcte, flags_emptySlot _ _ hn, if_neg hx, if_pos ⟨hn'.1.symm, hn'.2⟩]
  have hflO : ∀ {x}, x ≠ slot → ¬ s.cte.links.Next 0 slot x →
      (s'.cte x).flags = (s.cte x).flags := by
    intro x hx hn'
    rw [hcte, flags_emptySlot _ _ hn, if_neg hx, if_neg fun h => hn' ⟨h.1.symm, h.2⟩]
  have hrev : ∀ {x}, x ≠ slot → (s'.cte x).flags.1 = (s.cte x).flags.1 := by
    intro x hx
    by_cases hxn : s.cte.links.Next 0 slot x
    · rw [hflN hx hxn]
    · rw [hflO hx hxn]
  have hsame : ∀ {a b}, a ≠ slot → b ≠ slot → (s'.cte.Same cfg a b ↔ s.cte.Same cfg a b) := by
    intro a b ha hb
    unfold Same
    rw [hold ha, hold hb]
  refine ⟨?_, ?_, ?_, ?_, ?_⟩
  · intro x w hxb hw hfb
    have hx : x ≠ slot := hne fun he => by rw [he] at hxb; cases hxb
    rw [hold hx] at hxb
    -- behind the deleted slot, its predecessor takes its place
    by_cases hxn : s.cte.links.Next 0 slot x
    · rw [hflN hx hxn, Bool.or_eq_false_iff] at hfb
      obtain ⟨y, hy, hky, hyb⟩ := ht.badges hxb hw hfb.1
      rw [hm.lists.next_inj hy hxn] at hky hyb
      obtain ⟨z, hz, hkz, hzb⟩ := ht.badges hyb hw hfb.2
      have hzs : z ≠ slot := by
        rintro rfl
        exact hm.lists.before_irrefl _ hz.before
      refine ⟨z, ?_, ?_, ?_⟩
      · rw [hl, hm.lists.next_unlink hmem]
        exact ⟨hzs, hx, .inr ⟨hz, hxn⟩⟩
      · rw [hold hzs, hold hx, hkz, hky]
      · rw [hold hzs, hzb]
    · rw [hflO hx hxn] at hfb
      obtain ⟨y, hy, hky, hyb⟩ := ht.badges hxb hw hfb
      have hys : y ≠ slot := fun he => hxn (he ▸ hy)
      refine ⟨y, ?_, ?_, ?_⟩
      · rw [hl, hm.lists.next_unlink hmem]
        exact ⟨hys, hx, .inl hy⟩
      · rw [hold hys, hold hx, hky]
      · rw [hold hys, hyb]
  · intro x hx
    have hxs : x ≠ slot := hne fun he => by
      rw [he] at hx
      rcases hx with hx | hx <;> cases hx
    rw [hold hxs] at hx
    rw [hrev hxs]
    exact ht.revocable hx
  · intro x y hx hy
    have hxs : x ≠ slot := hne fun he => by rw [he] at hx; cases hx
    have hys : y ≠ slot := hne fun he => by rw [he] at hy; cases hy
    rw [hold hxs] at hx
    rw [hold hys] at hy
    exact ht.one_control hx hy
  · intro x i hx
    have hxs : x ≠ slot := hne fun he => by rw [he] at hx; cases hx
    rw [hold hxs] at hx
    rw [hs]
    cases hcl : cleanupInfo with
    | irqHandler j =>
      have hij : i ≠ j := by
        rintro rfl
        exact hclean i hcl x hxs hx
      show (setIRQState .inactive j _).irqActive i = true
      rw [irqActive_setIRQState, update_of_ne hij]
      exact ht.handler_active hx
    | _ => exact ht.handler_active hx
  · rw [hl, hcdt]
    refine ht.encodes.unlink hm.lists hmem ?_ ?_ ?_
    · intro a x ha hx hnx
      rw [par_iff, par_iff, hrev ha, hsame ha hx, hold ha, hold hx, hflO hx hnx]
    · intro a X hX haD _ hp
      have ha : a ≠ slot := by
        rintro rfl
        exact hm.lists.before_irrefl _ haD
      have hXs : X ≠ slot := by
        rintro rfl
        exact hm.lists.before_irrefl _ hX.before
      rw [par_iff, hrev ha, hsame ha hXs, hold ha, hold hXs, hflN hXs hX] at hp
      obtain ⟨h1, h2, h3⟩ := hp
      refine ⟨par_iff.mpr ⟨h1, hd.laminar.contiguous haD hX.before h2, fun w hw hw0 => ?_⟩,
        par_iff.mpr ⟨h1, h2, fun w hw hw0 => ?_⟩⟩
      · obtain ⟨hXb, hXf⟩ := h3 w hw hw0
        rw [Bool.or_eq_false_iff] at hXf
        obtain ⟨y, hy, -, hyb⟩ := ht.badges hXb hw0 hXf.1
        rw [hm.lists.next_inj hy hX] at hyb
        exact ⟨hyb, hXf.2⟩
      · obtain ⟨hXb, hXf⟩ := h3 w hw hw0
        exact ⟨hXb, (Bool.or_eq_false_iff.mp hXf).1⟩
    · intro a X hX ha hpD hpX
      have hXs : X ≠ slot := by
        rintro rfl
        exact hm.lists.before_irrefl _ hX.before
      obtain ⟨h1, h2, h3⟩ := par_iff.mp hpX
      obtain ⟨-, -, h4⟩ := par_iff.mp hpD
      rw [par_iff, hrev ha, hsame ha hXs, hold ha, hold hXs, hflN hXs hX]
      refine ⟨h1, h2, fun w hw hw0 => ⟨(h3 w hw hw0).1, ?_⟩⟩
      rw [Bool.or_eq_false_iff]
      exact ⟨(h3 w hw hw0).2, (h4 w hw hw0).2⟩

end TreeInv

end SeL4.Object
