import SeL4.CNode.Tree
import SeL4.Object.Zombie
import SeL4.Object.Delete

/-!
# Deletion keeps the invariants

`SysInv` collects what holds of slots and memory whenever the kernel returns: `DerivInv`, `TreeInv`,
and that the free memory of untypeds is zero (`Zeroed`). This file shows that deletion and
revocation keep it, wherever a preemption stops them: `cteDelete_inv`, `cteRevoke_inv`.

Deletion only does four things to slots. It empties them, exchanges two of them, turns the last
capability to a CNode or thread into a zombie, and lowers the number of a zombie. `DeleteStep` is one
such write. Every run of `cteDelete`, `finaliseSlot` and `reduceZombie` is a sequence of them, so that a
property of single writes is one of all deletions.
-/

namespace SeL4.Object

open SeL4.Lib SeL4.CSpace CteHeap KState

variable {c : Cap} {x : Word}

/-- Memory at and above the free index of an untyped is zero, unless it is device memory. -/
def Zeroed (s : KState) : Prop :=
  ∀ x i n p, (s.cte x).cap = .untyped i false n p → ∀ a : Word,
    p.toNat + 2 ^ minUntypedBits * i ≤ a.toNat → a.toNat < p.toNat + 2 ^ n → s.mem a = 0

/-- Different objects have no memory in common. -/
def ObjectsApart (cfg : KernelConfig) (h : CteHeap) : Prop :=
  ∀ a b, (h a).cap.capIsPhysical = true → (h b).cap.capIsPhysical = true →
    (h a).cap.isUntyped = false → (h b).cap.isUntyped = false → (h a).cap.key ≠ (h b).cap.key →
    Block.Apart ((h a).cap.region cfg) ((h b).cap.region cfg)

/-- **The invariant of slots and memory.** -/
structure SysInv (cfg : KernelConfig) (s : KState) : Prop where
  deriv : DerivInv cfg s.cte
  tree : TreeInv cfg s
  zeroed : Zeroed s
  objects : ObjectsApart cfg s.cte

variable {cfg : KernelConfig} {s s' : KState}

/-- An operation that makes no new untyped and does not write memory keeps `Zeroed`. -/
theorem Zeroed.of_caps (hz : Zeroed s) (hmem : s'.mem = s.mem)
    (hc : ∀ {x i n p}, (s'.cte x).cap = .untyped i false n p →
      ∃ y, (s.cte y).cap = .untyped i false n p) : Zeroed s' := by
  intro x i n p hx a h1 h2
  obtain ⟨y, hy⟩ := hc hx
  rw [hmem]
  exact hz y i n p hy a h1 h2

/-- No operation that only copies, moves or drops capabilities makes objects meet. -/
theorem ObjectsApart.of_keys {h h' : CteHeap} (ho : ObjectsApart cfg h)
    (hk : ∀ x, (h' x).cap.capIsPhysical = false ∨ ∃ y, (h' x).cap.key = (h y).cap.key) :
    ObjectsApart cfg h' := by
  intro a b ha hb hau hbu hne
  obtain ⟨y, hy⟩ := (hk a).resolve_left (ne_false_of_eq_true ha)
  obtain ⟨z, hz⟩ := (hk b).resolve_left (ne_false_of_eq_true hb)
  rw [Cap.region_eq_of_key hy, Cap.region_eq_of_key hz]
  refine ho y z ?_ ?_ ?_ ?_ ?_
  · rw [← Cap.physical_eq_of_key hy]
    exact ha
  · rw [← Cap.physical_eq_of_key hz]
    exact hb
  · rw [← Cap.isUntyped_key, ← hy, Cap.isUntyped_key]
    exact hau
  · rw [← Cap.isUntyped_key, ← hz, Cap.isUntyped_key]
    exact hbu
  · rw [← hy, ← hz]
    exact hne

/-- A zombie has the memory of the object it stands for, which has no other capability. -/
theorem ObjectsApart.zombify {h h' : CteHeap} {slot : Word} (ho : ObjectsApart cfg h)
    (hz : Zombified cfg h h' slot) : ObjectsApart cfg h' := by
  have hunt : (h slot).cap.isUntyped = false := by
    have := hz.exact
    cases hc : (h slot).cap with
    | untyped =>
      rw [hc] at this
      cases this
    | _ => rfl
  -- another object against the zombie
  have hone : ∀ b ≠ slot, (h' b).cap.capIsPhysical = true → (h' b).cap.isUntyped = false →
      Block.Apart ((h' slot).cap.region cfg) ((h' b).cap.region cfg) := by
    intro b hb hbp hbu
    rw [hz.off b hb] at hbp hbu ⊢
    rw [hz.region]
    exact ho slot b hz.physical hbp hunt hbu fun he => hz.sole b hb he.symm
  intro a b ha hb hau hbu hne
  by_cases has : a = slot
  · subst has
    have hba : b ≠ a := by
      rintro rfl
      exact hne rfl
    exact hone b hba hb hbu
  · by_cases hbs : b = slot
    · subst hbs
      exact (hone a has ha hau).symm
    · rw [hz.off a has] at ha hau hne ⊢
      rw [hz.off b hbs] at hb hbu hne ⊢
      exact ho a b ha hb hau hbu hne

/-! ## Rewriting a capability in place -/

namespace KState

section

variable (s : KState) (slot : Word) (c : Cap)

theorem cte_setCap (x : Word) :
    ((s.setCap slot c).cte x).cap = if x = slot then c else (s.cte x).cap :=
  cap_setCap _ _ _ _

theorem links_setCap : (s.setCap slot c).cte.links = s.cte.links := by
  refine Links.ext (funext fun x => ?_) (funext fun x => ?_)
  · exact congrArg MdbNode.mdbNext (node_setCap _ _ _ _)
  · exact congrArg MdbNode.mdbPrev (node_setCap _ _ _ _)

theorem cte_cteMove (src dst x : Word) : ((s.cteMove c src dst).cte x).cap =
    if x = src then .null else if x = dst then c else (s.cte x).cap := cap_cteMove s.cte c src dst x

theorem cte_cteSwap (d : Cap) (x y z : Word) : ((s.cteSwap c x d y).cte z).cap =
    if z = y then c else if z = x then d else (s.cte z).cap := cap_cteSwap s.cte c d x y z

theorem setCap_cap : ((s.setCap slot c).cte slot).cap = c :=
  (s.cte_setCap slot c slot).trans (if_pos rfl)

theorem emptySlot_frame : (s.emptySlot slot c).cte = s.cte.emptySlot slot ∧
      (s.emptySlot slot c).mem = s.mem ∧
      (s.emptySlot slot c).replyBlocked = s.replyBlocked ∧
      (s.emptySlot slot c).preempted = s.preempted := by
  unfold emptySlot
  split_ifs with hn
  · exact ⟨(if_pos hn).symm, rfl, rfl, rfl⟩
  · cases c <;> exact ⟨rfl, rfl, rfl, rfl⟩

theorem cte_emptySlot (x : Word) :
    ((s.emptySlot slot c).cte x).cap = if x = slot then .null else (s.cte x).cap := by
  rw [(s.emptySlot_frame slot c).1, cap_emptySlot]

end

variable {slot : Word}

theorem setCap_self (h : (s.cte slot).cap = c) : s.setCap slot c = s := by
  have hcte : s.cte.setCap slot c = s.cte := by
    funext x
    unfold CteHeap.setCap CteHeap.set
    split_ifs with hx
    · rw [hx, ← h]
    · rfl
  unfold setCap
  rw [hcte]

theorem untyped_setCap (hu : c.isUntyped = false) {x : Word} {i n : Nat} {dev : Bool} {p : Word}
    (hx : ((s.setCap slot c).cte x).cap = .untyped i dev n p) : (s.cte x).cap = .untyped i dev n p := by
  rw [cte_setCap] at hx
  split_ifs at hx
  · rw [hx] at hu
    cases hu
  · exact hx

theorem zombified_setCap {id : Word} {t : Nat} (hw : (Cap.zombie id t).WF cfg)
    (he : (s.cte slot).cap.isExact = true) (hp : (s.cte slot).cap.capIsPhysical = true)
    (hsole : ∀ x ≠ slot, (s.cte x).cap.key ≠ (s.cte slot).cap.key)
    (hr : (Cap.zombie id t).region cfg = (s.cte slot).cap.region cfg) :
    Zombified cfg s.cte (s.setCap slot (.zombie id t)).cte slot := by
  have hself := s.setCap_cap slot (.zombie id t)
  exact ⟨fun x hx => (s.cte_setCap slot _ x).trans (if_neg hx), ⟨id, t, hself⟩, hself.symm ▸ hw, he, hp, hsole,
    hself.symm ▸ hr⟩

theorem key_setCap (hk : c.key = (s.cte slot).cap.key) (x : Word) :
    ((s.setCap slot c).cte x).cap.key = (s.cte x).cap.key := by
  rw [cte_setCap]
  split_ifs with hx
  · rw [hx, hk]
  · rfl

theorem wf_setCap (hw : c.WF cfg) (hs : ∀ x, (s.cte x).cap.WF cfg)
    (x : Word) : ((s.setCap slot c).cte x).cap.WF cfg := by
  rw [cte_setCap]
  split_ifs
  · exact hw
  · exact hs x

theorem face_setCap (hk : c.key = (s.cte slot).cap.key) (hb : c.badge = (s.cte slot).cap.badge) (x : Word) :
    ((s.setCap slot c).cte x).face = (s.cte x).face := by
  have hfl : ((s.setCap slot c).cte x).flags = (s.cte x).flags := flags_setCap _ _ _ _
  unfold Cte.face
  rw [hfl, key_setCap hk x, cte_setCap]
  split_ifs with hx
  · rw [hx, hb, Cap.isNull_of_key hk]
  · rfl

end KState

namespace SysInv

variable (hi : SysInv cfg s)
include hi

variable {slot : Word}

theorem slot_ne_zero (h : (s.cte slot).cap ≠ .null) : slot ≠ 0 := by
  obtain ⟨LL, hm⟩ := hi.deriv.lists
  exact hm.ne_zero h

/-- Thread states and the timing of interrupts do not matter. -/
theorem withTiming (r : Word → Bool) (p : Nat → Bool) :
    SysInv cfg { s with replyBlocked := r, preempted := p } :=
  ⟨hi.deriv, ⟨hi.tree.badges, hi.tree.revocable, hi.tree.one_control, hi.tree.handler_active,
    hi.tree.encodes⟩, hi.zeroed, hi.objects⟩

theorem preemptionPoint : SysInv cfg s.preemptionPoint.2 := hi.withTiming _ _

theorem emptySlot {cleanupInfo : Cap} (hclean : ∀ i, cleanupInfo = .irqHandler i →
      ∀ x ≠ slot, (s.cte x).cap ≠ .irqHandler i) : SysInv cfg (s.emptySlot slot cleanupInfo) := by
  obtain ⟨hcte, hmem, -⟩ := s.emptySlot_frame slot cleanupInfo
  refine ⟨hcte ▸ hi.deriv.emptySlot slot, hi.tree.emptySlot hi.deriv hclean,
    hi.zeroed.of_caps hmem fun {x i n p} hx => ⟨x, ?_⟩, hi.objects.of_keys fun x => ?_⟩
  · rw [cte_emptySlot] at hx
    split_ifs at hx
    exact hx
  · rw [cte_emptySlot]
    split_ifs
    · exact .inl rfl
    · exact .inr ⟨x, rfl⟩

theorem cteSwap {c d : Cap} {x y : Word} (hxy : x ≠ y) (hx : x ≠ 0) (hy : y ≠ 0)
    (hkc : c.key = (s.cte x).cap.key) (hbc : c.badge = (s.cte x).cap.badge)
    (hcw : c.WF cfg) (huc : c.isUntyped = true → c = (s.cte x).cap)
    (hkd : d.key = (s.cte y).cap.key) (hbd : d.badge = (s.cte y).cap.badge)
    (hdw : d.WF cfg) (hud : d.isUntyped = true → d = (s.cte y).cap) :
    SysInv cfg (s.cteSwap c x d y) := by
  have hcap := s.cte_cteSwap c d x y
  refine ⟨hi.deriv.cteSwap hxy hx hy hkc hkd hcw hdw huc hud,
    hi.tree.cteSwap hi.deriv hxy hx hy hkc hbc hkd hbd,
    hi.zeroed.of_caps rfl fun {z i n p} hz => ?_, hi.objects.of_keys fun z => .inr ?_⟩
  · rw [hcap] at hz
    split_ifs at hz with h1 h2
    · exact ⟨x, by rw [← huc (by rw [hz]; rfl), hz]⟩
    · exact ⟨y, by rw [← hud (by rw [hz]; rfl), hz]⟩
    · exact ⟨z, hz⟩
  · rw [hcap]
    split_ifs
    · exact ⟨x, hkc⟩
    · exact ⟨y, hkd⟩
    · exact ⟨z, rfl⟩

theorem capSwapForDelete {x y : Word} (hx : x ≠ 0) (hy : y ≠ 0) : SysInv cfg (s.capSwapForDelete x y) := by
  unfold KState.capSwapForDelete
  split_ifs with hxy
  · exact hi
  · exact hi.cteSwap hxy hx hy rfl rfl (hi.deriv.wf x) (fun _ => rfl) rfl rfl (hi.deriv.wf y) fun _ => rfl

/-- Rewriting a capability that is not untyped within its key and badge. -/
theorem recap (hk : c.key = (s.cte slot).cap.key)
    (hb : c.badge = (s.cte slot).cap.badge) (hw : c.WF cfg) (hu : c.isUntyped = false) :
    SysInv cfg (s.setCap slot c) := by
  have hl := s.links_setCap slot c
  exact ⟨hi.deriv.recap hl (key_setCap hk) (wf_setCap hw hi.deriv.wf)
      fun hab hs hx => hi.deriv.below hab hs (untyped_setCap hu hx),
    hi.tree.recap hi.deriv hl (face_setCap hk hb) rfl rfl,
    hi.zeroed.of_caps rfl fun hx => ⟨_, untyped_setCap hu hx⟩,
    hi.objects.of_keys fun x => .inr ⟨x, key_setCap hk x⟩⟩

theorem sole (hc : (s.cte slot).cap = c) (he : c.isExact = true)
    (hfin : s.cte.isFinalCapability cfg slot = true) : ∀ x ≠ slot, (s.cte x).cap.key ≠ c.key := by
  subst hc
  exact (hi.deriv.isFinalCapability_iff_key he).mp hfin

/-- The last capability to a CNode or thread becomes a zombie over the same memory. -/
theorem zombify {id : Word} {t : Nat} (hc : (s.cte slot).cap = c) (hw : (Cap.zombie id t).WF cfg)
    (he : c.isExact = true) (hp : c.capIsPhysical = true) (hb : c.badge = none)
    (hsole : ∀ x ≠ slot, (s.cte x).cap.key ≠ c.key)
    (hr : (Cap.zombie id t).region cfg = c.region cfg) : SysInv cfg (s.setCap slot (.zombie id t)) := by
  subst hc
  have hl := s.links_setCap slot (.zombie id t)
  have hz := zombified_setCap hw he hp hsole hr
  exact ⟨hi.deriv.zombify hl hz,
    hi.tree.zombify hi.deriv hl hz (fun x => flags_setCap _ _ _ _) hb rfl rfl,
    hi.zeroed.of_caps rfl fun hx => ⟨_, untyped_setCap rfl hx⟩, hi.objects.zombify hz⟩

end SysInv

/-! ## Finalising a capability -/

/-- A capability to handle some interrupt. -/
def Cap.isIrqHandler : Cap → Bool
  | irqHandler _ => true
  | _ => false

theorem Cap.ne_irqHandler (h : c.isIrqHandler = false) (irq : Word) : c ≠ .irqHandler irq := by
  rintro rfl
  cases h

/-- One write of a deletion. -/
inductive DeleteStep (cfg : KernelConfig) : KState → KState → Prop
  /-- A slot is emptied, whose handler is not the last one. -/
  | drop {s : KState} (slot : Word) :
      (∀ irq, s.cap slot = .irqHandler irq → ∃ x, x ≠ slot ∧ s.cap x = .irqHandler irq) →
      DeleteStep cfg s (s.emptySlot slot .null)
  /-- The last handler is removed. The slot of the interrupt is empty by then. -/
  | clear {s : KState} (slot irq : Word) :
      s.cap slot = .irqHandler irq → (∀ x ≠ slot, s.cap x ≠ .irqHandler irq) →
      s.cap (cteAt cfg.irqNode irq) = .null →
      DeleteStep cfg s (s.emptySlot slot (.irqHandler irq))
  /-- A zombie takes the slot of what it stands for. -/
  | zombie {s : KState} (slot id : Word) (type : Nat) :
      (s.cap slot).isIrqHandler = false → DeleteStep cfg s (s.setCap slot (.zombie id type))
  | swap {s : KState} (x y : Word) : DeleteStep cfg s (s.capSwapForDelete x y)
  | timing {s : KState} (r : Word → Bool) (p : Nat → Bool) :
      DeleteStep cfg s { s with replyBlocked := r, preempted := p }

/-- A sequence of such writes. -/
abbrev DeleteSteps (cfg : KernelConfig) : KState → KState → Prop :=
  Relation.ReflTransGen (DeleteStep cfg)

namespace KState

variable {slot : Word}

section

variable (h : s.cteDeleteOne slot = .ok s')
include h

/-- `cteDeleteOne` leaves the state or empties the slot, which is of a type that is finalised at
once. -/
theorem cteDeleteOne_cases :
    s' = s ∨ finalisedAtOnce (s.cte slot).cap = true ∧ s' = s.emptySlot slot .null := by
  unfold cteDeleteOne at h
  split_ifs at h with hn
  · exact .inl (Except.ok.inj h).symm
  · obtain ⟨ret, hret, h⟩ := bind_eq_ok h
    unfold finaliseCapExposed at hret
    split_ifs at hret with hf
    obtain ⟨b, -, -, -, h⟩ := bind2_eq_ok h
    exact .inr ⟨hf, (Except.ok.inj h).symm⟩

/-- After `cteDeleteOne` a slot is empty. -/
theorem null_of_cteDeleteOne : (s'.cte slot).cap = .null := by
  unfold cteDeleteOne at h
  split_ifs at h with hn
  · cases h
    exact Cap.isNull_iff.mp hn
  · obtain ⟨_, -, _, -, h⟩ := bind2_eq_ok h
    obtain ⟨_, -, h⟩ := bind_eq_ok h
    cases h
    rw [cte_emptySlot, if_pos rfl]

/-- The other slots are as they were. -/
theorem cteDeleteOne_off (hx : x ≠ slot) :
    (s'.cte x).cap = (s.cte x).cap := by
  rcases cteDeleteOne_cases h with rfl | ⟨-, rfl⟩
  · rfl
  · rw [cte_emptySlot, if_neg hx]

end

/-- Slots only lose capabilities, and only of types that are finalised at once. -/
def Loses (s s' : KState) : Prop :=
  ∀ x, (s'.cte x).cap = (s.cte x).cap ∨ finalisedAtOnce (s.cte x).cap = true ∧ (s'.cte x).cap = .null

theorem Loses.refl (s : KState) : Loses s s := fun _ => .inl rfl

theorem loses_emptySlot (hf : finalisedAtOnce (s.cte slot).cap = true) :
    Loses s (s.emptySlot slot .null) := by
  intro x
  rw [cte_emptySlot]
  split_ifs with hx
  · rw [hx]
    exact .inr ⟨hf, rfl⟩
  · exact .inl rfl

theorem Loses.keeps (hl : Loses s s') (hx : finalisedAtOnce (s.cte x).cap = false) :
    (s'.cte x).cap = (s.cte x).cap := by
  rcases hl x with h | ⟨h, -⟩
  · exact h
  · rw [hx] at h
    cases h

theorem Loses.keeps_eq (hl : Loses s s') {c : Cap} (hx : (s.cte x).cap = c)
    (hc : finalisedAtOnce c = false) : (s'.cte x).cap = c :=
  (hl.keeps (hx ▸ hc)).trans hx

/-- A capability whose key no other slot has is still alone. -/
theorem Loses.sole (hl : Loses s s') {k : Cap} (h : ∀ x ≠ slot, (s.cte x).cap.key ≠ k)
    (hk : k ≠ .null) : ∀ x ≠ slot, (s'.cte x).cap.key ≠ k := by
  intro x hx
  rcases hl x with he | ⟨-, he⟩
  · rw [he]
    exact h x hx
  · rw [he]
    exact hk.symm

theorem not_isIrqHandler_of_finalisedAtOnce (h : finalisedAtOnce c = true) :
    c.isIrqHandler = false := by
  cases c with
  | irqHandler => cases h
  | _ => rfl

theorem drop_of_not_isIrqHandler (h : (s.cap slot).isIrqHandler = false) :
    DeleteStep cfg s (s.emptySlot slot .null) :=
  .drop slot fun irq he => absurd he (Cap.ne_irqHandler h irq)

theorem cteDeleteOne_steps (h : s.cteDeleteOne slot = .ok s') : DeleteSteps cfg s s' := by
  rcases cteDeleteOne_cases h with rfl | ⟨hf, rfl⟩
  · exact .refl
  · exact .single (drop_of_not_isIrqHandler (not_isIrqHandler_of_finalisedAtOnce hf))

section

variable (hi : SysInv cfg s)
include hi

theorem cteDeleteOne_inv (h : s.cteDeleteOne slot = .ok s') :
    SysInv cfg s' ∧ Loses s s' := by
  rcases cteDeleteOne_cases h with rfl | ⟨hf, rfl⟩
  · exact ⟨hi, .refl _⟩
  · exact ⟨hi.emptySlot nofun, loses_emptySlot hf⟩

theorem suspend_inv {t : Word} (h : s.suspend cfg t = .ok s') :
    SysInv cfg s' ∧ Loses s s' ∧ DeleteSteps cfg s s' := by
  obtain ⟨s1, h1, h2⟩ := bind_eq_ok h
  have hs1 : SysInv cfg s1 ∧ Loses s s1 ∧ DeleteSteps cfg s s1 := by
    unfold cancelIPC at h1
    simp only at h1
    split_ifs at h1
    · exact ⟨(cteDeleteOne_inv hi h1).1, (cteDeleteOne_inv hi h1).2, cteDeleteOne_steps h1⟩
    · cases h1
      exact ⟨hi, .refl _, .refl⟩
  cases h2
  exact ⟨hs1.1.withTiming _ _, hs1.2.1, hs1.2.2.tail (.timing _ _)⟩

/-- What remains to be done after `finaliseCap`: the slot can be emptied with the clean-up that was
returned, or a zombie takes it. -/
def Finishes (cfg : KernelConfig) (slot : Word) (fc : FinaliseCapRet) (s : KState) : Prop :=
  (fc.remainder = .null ∧ DeleteStep cfg s (s.emptySlot slot fc.cleanupInfo)) ∨
    (fc.cleanupInfo = .null ∧ ∃ id type, fc.remainder = .zombie id type) ∧
      (s.cap slot).isIrqHandler = false

/-- **What finalising the capability of a slot leaves**: what is to be cleaned up has no other
capability, and a remainder can take the slot. -/
structure FinaliseCapInv (cfg : KernelConfig) (slot : Word) (fc : FinaliseCapRet) (s s' : KState) : Prop where
  inv : SysInv cfg s'
  cleanup : ∀ i, fc.cleanupInfo = .irqHandler i → ∀ x ≠ slot, (s'.cte x).cap ≠ .irqHandler i
  remainder : fc.remainder = .null ∨ SysInv cfg (s'.setCap slot fc.remainder)
  steps : DeleteSteps cfg s s'
  finishes : Finishes cfg slot fc s'

/-- The last handler of an interrupt: its notification is deleted before anything else. -/
theorem finaliseHandler_inv {irq : Word} (hc : (s.cte slot).cap = .irqHandler irq) (hfin : s.cte.isFinalCapability cfg slot = true)
    (h : s.deletingIRQHandler cfg irq = .ok s') : (∀ x ≠ slot, (s'.cte x).cap ≠ .irqHandler irq) ∧
      DeleteStep cfg s' (s'.emptySlot slot (.irqHandler irq)) := by
  have hempty : (s'.cte (cteAt cfg.irqNode irq)).cap = .null := null_of_cteDeleteOne h
  have hne : slot ≠ cteAt cfg.irqNode irq := by
    -- `cteDeleteOne` fails on a handler
    rintro rfl
    rcases cteDeleteOne_cases h with rfl | ⟨hf, -⟩
    · cases hc.symm.trans hempty
    · rw [hc] at hf
      cases hf
  have hsole : ∀ x ≠ slot, (s'.cte x).cap ≠ .irqHandler irq := by
    intro x hx he
    refine (cteDeleteOne_inv hi h).2.sole (hi.sole hc rfl hfin) nofun x hx ?_
    rw [he]
  exact ⟨hsole, .clear slot irq ((cteDeleteOne_off h hne).trans hc) hsole hempty⟩

theorem finaliseCap_inv {fc : FinaliseCapRet}
    (h : s.finaliseCap cfg (s.cap slot) (s.cte.isFinalCapability cfg slot) = .ok (fc, s')) :
    FinaliseCapInv cfg slot fc s s' := by
  have hdone : ∀ {r : FinaliseCapRet}, (s.cap slot).isIrqHandler = false →
      (Except.ok (FinaliseCapRet.done, s) : Checked (FinaliseCapRet × KState)) = .ok (r, s') →
      FinaliseCapInv cfg slot r s s' := by
    rintro r hno ⟨⟩
    exact ⟨hi, nofun, .inl rfl, .refl, .inl ⟨rfl, drop_of_not_isIrqHandler hno⟩⟩
  have hwf := hi.deriv.wf slot
  unfold finaliseCap at h
  split at h
  · exact hdone (not_isIrqHandler_of_finalisedAtOnce ‹_›) h
  rename_i hf
  cases hc : s.cap slot with
  | cnode r g gd p =>
    have hcs : (s.cte slot).cap = .cnode r g gd p := hc
    rw [hc] at h hdone
    split_ifs at h with hfin
    · cases h
      rw [hcs] at hwf
      obtain ⟨id, hz, hp, -⟩ := Cap.zombieNew_cnode hwf
      obtain ⟨hr, hzw⟩ := Cap.zombie_cnode hwf hp
      refine ⟨hi, nofun, .inr ?_, .refl, .inr ⟨⟨rfl, _, _, rfl⟩, ?_⟩⟩
      · rw [hz]
        exact hi.zombify hcs hzw rfl rfl rfl (hi.sole hcs rfl hfin) hr
      · rw [hc]
        rfl
    · exact hdone rfl h
  | thread p =>
    have hcs : (s.cte slot).cap = .thread p := hc
    rw [hc] at h hdone
    split_ifs at h with hfin
    · obtain ⟨s1, h1, h2⟩ := bind_eq_ok h
      cases h2
      obtain ⟨hi', hl, hsteps⟩ := suspend_inv hi h1
      have hkeep : (s'.cte slot).cap = .thread p := hl.keeps_eq hcs rfl
      have hwf' := hi'.deriv.wf slot
      rw [hkeep] at hwf'
      obtain ⟨id, hz, hp, -⟩ := Cap.zombieNew_thread hwf'
      obtain ⟨hr, hzw⟩ := Cap.zombie_thread hwf' hp
      refine ⟨hi', nofun, .inr ?_, hsteps, .inr ⟨⟨rfl, _, _, rfl⟩, ?_⟩⟩
      · rw [hz]
        exact hi'.zombify hkeep hzw rfl rfl rfl (hl.sole (hi.sole hcs rfl hfin) nofun) hr
      · rw [show s'.cap slot = _ from hkeep]
        rfl
    · exact hdone rfl h
  | zombie id t =>
    have hcs : (s.cte slot).cap = .zombie id t := hc
    rw [hc] at h
    cases h
    rw [hcs] at hwf
    refine ⟨hi, nofun, .inr ?_, .refl, .inr ⟨⟨rfl, _, _, rfl⟩, ?_⟩⟩
    · exact hi.recap (by rw [hcs]) (by rw [hcs]) hwf rfl
    · rw [hc]
      rfl
  | irqHandler irq =>
    have hcs : (s.cte slot).cap = .irqHandler irq := hc
    rw [hc] at h
    split_ifs at h with hfin
    · obtain ⟨s1, h1, h⟩ := bind_eq_ok h
      cases h
      obtain ⟨hsole, hstep⟩ := finaliseHandler_inv hi hcs hfin h1
      refine ⟨(cteDeleteOne_inv hi h1).1, ?_, .inl rfl, cteDeleteOne_steps h1, .inl ⟨rfl, hstep⟩⟩
      rintro i he
      cases he
      exact hsole
    · cases h
      refine ⟨hi, nofun, .inl rfl, .refl, .inl ⟨rfl, .drop slot fun i hi' => ?_⟩⟩
      -- not final: some other slot has a handler of this interrupt
      cases hc.symm.trans hi'
      have hex : (s.cte slot).cap.isExact = true := by rw [hcs]; rfl
      by_contra hno
      refine hfin ((hi.deriv.isFinalCapability_iff_key hex).mpr fun x hx hk => hno ⟨x, hx, ?_⟩)
      rw [hcs] at hk
      exact Cap.key_eq_irqHandler.mp hk
  | _ =>
    rw [hc] at h hdone
    exact hdone rfl h

/-! ## Runs -/

theorem shrinkZombie_inv {ptr n : Word} {t : Nat} {endSlot : Word}
    (h : s.shrinkZombie slot ptr n t endSlot = .ok s') : SysInv cfg s' ∧ DeleteSteps cfg s s' := by
  unfold shrinkZombie at h
  cases hc : s.cap slot with
  | null =>
    rw [hc] at h
    cases h
    exact ⟨hi, .refl⟩
  | zombie id t' =>
    rw [hc] at h
    simp only at h
    have hcs : (s.cte slot).cap = .zombie id t' := hc
    split_ifs at h
    · obtain ⟨-, -, h⟩ := bind_eq_ok h
      cases h
      have hwf := hi.deriv.wf slot
      rw [hcs] at hwf
      refine ⟨hi.recap ?_ ?_ (hwf.zombieSetNumber _) rfl, .single (.zombie slot _ _ ?_)⟩
      · rw [hcs]
        exact Cap.key_zombieSetNumber _ _ _
      · rw [hcs]
        rfl
      · rw [hc]
        rfl
    · obtain ⟨-, -, h⟩ := bind_eq_ok h
      cases h
      exact ⟨hi, .refl⟩
  | _ =>
    rw [hc] at h
    cases h

theorem moveZombieAside_inv {ptr : Word} (hs : slot ≠ 0) (hp : ptr ≠ 0)
    (h : s.moveZombieAside slot ptr = .ok s') : SysInv cfg s' ∧ DeleteSteps cfg s s' := by
  obtain ⟨-, -, -, -, h⟩ := bind2_eq_ok h
  cases h
  exact ⟨hi.capSwapForDelete hp hs, .single (.swap _ _)⟩

end

/-- What a call of `finaliseSlot` leaves, if it returns. -/
def FinalisedInv (cfg : KernelConfig) (slot : Word) (ret : FinaliseSlotRet) (s' : KState) : Prop :=
  SysInv cfg s' ∧ ∀ i, ret.cleanupInfo = .irqHandler i → ∀ x ≠ slot, (s'.cte x).cap ≠ .irqHandler i

/-- After `finaliseSlot` has succeeded, the slot can be emptied with the clean-up it returned. It
only fails to bring a slot there without an exception when it is not to be exposed. -/
def FinishesSlot (cfg : KernelConfig) (slot : Word) (immediate : Bool) (ret : FinaliseSlotRet)
    (s : KState) : Prop :=
  ret.status = .none →
    if ret.success then DeleteStep cfg s (s.emptySlot slot ret.cleanupInfo) else immediate = false

/-- The three functions keep the invariant and only make such steps, by induction on the bound on their
calls. -/
theorem delete_inv (fuel : Nat) :
    (∀ slot exposed s e s', SysInv cfg s → cteDelete cfg fuel slot exposed s = .ok (e, s') →
      SysInv cfg s' ∧ DeleteSteps cfg s s') ∧ (∀ slot immediate s ret s', SysInv cfg s →
      finaliseSlot cfg fuel slot immediate s = .ok (ret, s') →
      FinalisedInv cfg slot ret s' ∧ DeleteSteps cfg s s' ∧ FinishesSlot cfg slot immediate ret s') ∧
    (∀ slot immediate s e s', SysInv cfg s →
      reduceZombie cfg fuel slot immediate s = .ok (e, s') → SysInv cfg s' ∧ DeleteSteps cfg s s') := by
  induction fuel with
  | zero =>
    refine ⟨fun slot exposed s e s' _ h => ?_, fun slot immediate s ret s' _ h => ?_,
      fun slot immediate s e s' _ h => ?_⟩ <;> cases h
  | succ fuel ih =>
    obtain ⟨ihD, ihF, ihR⟩ := ih
    refine ⟨fun slot exposed s e s' hi h => ?_, fun slot immediate s ret s' hi h => ?_,
      fun slot immediate s e s' hi h => ?_⟩
    · -- `cteDelete`
      obtain ⟨⟨ret, s1⟩, h1, h⟩ := bind_eq_ok h
      obtain ⟨⟨hi1, hclean⟩, hs, hfin⟩ := ihF slot exposed s ret s1 hi h1
      simp only at h
      split_ifs at h with hst hgo
      · cases h
        exact ⟨hi1, hs⟩
      · cases h
        refine ⟨hi1.emptySlot hclean, ?_⟩
        have hend := hfin (not_not.mp hst)
        cases hsu : ret.success with
        | true =>
          rw [hsu] at hend
          exact hs.tail hend
        | false =>
          rw [hsu] at hend
          rw [hsu, hend] at hgo
          cases hgo
      · cases h
        exact ⟨hi1, hs⟩
    · -- `finaliseSlot`
      unfold finaliseSlot at h
      split_ifs at h with hn
      · cases h
        refine ⟨⟨hi, nofun⟩, .refl, fun _ => drop_of_not_isIrqHandler ?_⟩
        rw [Cap.isNull_iff.mp hn]
        rfl
      obtain ⟨⟨fc, s1⟩, h1, h⟩ := bind_eq_ok h
      obtain ⟨hi1, hclean, hrem, hs1, hfin⟩ := finaliseCap_inv hi h1
      obtain ⟨b, hb, h⟩ := bind_eq_ok h
      cases b with
      | true =>
        cases h
        refine ⟨⟨hi1, hclean⟩, hs1, fun _ => ?_⟩
        rcases hfin with ⟨-, hstep⟩ | ⟨⟨hnull, -⟩, hno⟩
        · exact hstep
        · rw [hnull]
          exact drop_of_not_isIrqHandler hno
      | false =>
        -- a zombie takes the slot
        rcases hfin with ⟨hnull, -⟩ | ⟨⟨-, id, type, hz⟩, hno⟩
        · rw [hnull] at hb
          cases hb
        have hi2 : SysInv cfg (s1.setCap slot fc.remainder) := by
          rcases hrem with hnull | hi2
          · cases hz.symm.trans hnull
          · exact hi2
        have hs2 : DeleteSteps cfg s (s1.setCap slot fc.remainder) := by
          rw [hz]
          exact hs1.tail (.zombie slot id type hno)
        simp only [Bool.false_eq_true, if_false] at h
        split_ifs at h with hcyc
        · cases h
          refine ⟨⟨hi2, fun i hc x hx => ?_⟩, hs2, fun _ => ?_⟩
          · rw [cte_setCap, if_neg hx]
            exact hclean i hc x hx
          · rw [Bool.and_eq_true, Bool.not_eq_true'] at hcyc
            exact hcyc.1
        · obtain ⟨⟨e, s2⟩, h2, h⟩ := bind_eq_ok h
          obtain ⟨hi3, hsteps⟩ := ihR slot immediate _ e s2 hi2 h2
          have hs3 := hs2.trans hsteps
          split_ifs at h with hne hne'
          · cases h
            exact ⟨⟨hi3, nofun⟩, hs3, fun he => absurd he hne⟩
          · cases h
            exact ⟨⟨hi3.preemptionPoint, nofun⟩, hs3.tail (.timing _ _),
              fun he => absurd he hne'⟩
          · obtain ⟨hinv, hs4, hfin⟩ := ihF slot immediate _ ret s' hi3.preemptionPoint h
            exact ⟨hinv, (hs3.tail (.timing _ _)).trans hs4, hfin⟩
    · -- `reduceZombie`
      unfold reduceZombie at h
      cases hc : s.cap slot with
      | zombie id t =>
        rw [hc] at h
        obtain ⟨-, -, h⟩ := bind_eq_ok h
        split_ifs at h
        · obtain ⟨⟨e1, s1⟩, h1, h⟩ := bind_eq_ok h
          obtain ⟨hi1, hs1⟩ := ihD _ false s e1 s1 hi h1
          simp only at h
          split_ifs at h
          · cases h
            exact ⟨hi1, hs1⟩
          · obtain ⟨s2, h2, h⟩ := bind_eq_ok h
            cases h
            obtain ⟨hi2, hs2⟩ := shrinkZombie_inv hi1 h2
            exact ⟨hi2, hs1.trans hs2⟩
        · obtain ⟨s1, h1, h⟩ := bind_eq_ok h
          cases h
          have hcs : (s.cte slot).cap = .zombie id t := hc
          have hwf := hi.deriv.wf slot
          rw [hcs] at hwf
          refine moveZombieAside_inv hi (hi.slot_ne_zero ?_) (hwf.zombie rfl).2 h1
          rw [hcs]
          exact nofun
      | _ =>
        rw [hc] at h
        cases h

/-- **Deletion keeps the invariant**, also when it is preempted. -/
theorem cteDelete_inv {fuel : Nat} {exposed : Bool} {e : Exception}
    (hi : SysInv cfg s) (h : cteDelete cfg fuel slot exposed s = .ok (e, s')) :
    SysInv cfg s' ∧ DeleteSteps cfg s s' :=
  (delete_inv fuel).1 slot exposed s e s' hi h

/-- **Revocation keeps the invariant**; if it is not preempted, the right neighbour of the slot is
not a child any more. -/
theorem cteRevoke_inv {fuel : Nat} {e : Exception} (hi : SysInv cfg s)
    (h : cteRevoke cfg fuel slot s = .ok (e, s')) :
    SysInv cfg s' ∧ (e = .none → ∀ x, s'.cte.links.Next 0 slot x → ¬ s'.cte.Par cfg slot x) ∧
      DeleteSteps cfg s s' := by
  induction fuel generalizing s with
  | zero => cases h
  | succ fuel ih =>
    unfold cteRevoke at h
    simp only at h
    split_ifs at h with hn
    · obtain ⟨⟨e1, s1⟩, h1, h⟩ := bind_eq_ok h
      obtain ⟨hi1, hs1⟩ := cteDelete_inv hi h1
      split_ifs at h with he he'
      · cases h
        exact ⟨hi1, fun hne => absurd hne he, hs1⟩
      · cases h
        exact ⟨hi1.preemptionPoint, fun hne => absurd hne he', hs1.tail (.timing _ _)⟩
      · obtain ⟨hi2, hnone, hs2⟩ := ih hi1.preemptionPoint h
        exact ⟨hi2, hnone, (hs1.tail (.timing _ _)).trans hs2⟩
    · cases h
      refine ⟨hi, fun _ x hx hp => hn ?_, .refl⟩
      have hxn : (s'.cte slot).cteMDBNode.mdbNext = x := hx.1
      rw [hxn]
      exact ⟨hx.2, hp⟩

end KState

end SeL4.Object
