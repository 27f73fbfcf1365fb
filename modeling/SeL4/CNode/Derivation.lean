import SeL4.CNode.MdbList
import SeL4.Object.Region
import SeL4.Lib.Laminar

/-!
# The derivation list keeps related capabilities together

`sameRegionAs` relates the capabilities of two slots: the second stands for the same object as the
first, or for something inside its memory. `DerivInv` says how the derivation list and the memory
behind the capabilities fit together:

* what is below a slot stands in one run behind it (`Links.Laminar`);
* what is below an untyped lies below its free index;
* physical capabilities with memory in common are related.

Each operation that writes slots keeps `DerivInv`: inserting a derived capability (`insertCopy`) or
one to a new object (`insertBelow`, `insertHandler`), emptying a slot (`emptySlot`), exchanging slots
(`rename`), and rewriting a capability in place (`recap`, `zombify`).

From it follows `isFinalCapability_iff`: the test of the two neighbours finds every other
capability to an object.
-/

namespace SeL4.Object

open SeL4.Lib

variable {c : Cap} {u : Word}

/-! ## Keys -/

namespace Cap

variable {cfg : KernelConfig}

theorem key_eq_null : c.key = null ↔ c = null := by
  cases c <;> simp [key]

theorem key_eq_irqControl : c.key = irqControl ↔ c = irqControl := by
  cases c <;> simp [key]

theorem key_eq_irqHandler {i : Word} : c.key = irqHandler i ↔ c = irqHandler i := by
  cases c <;> simp [key]

theorem sameRegionAs_null_right (a : Cap) : a.sameRegionAs cfg null = false := by
  cases a <;> rfl

theorem sameRegionAs_null_left (b : Cap) : null.sameRegionAs cfg b = false := rfl

theorem isZombie_key (c : Cap) : c.key.isZombie = c.isZombie := by
  cases c <;> rfl

theorem isUntyped_key (c : Cap) : c.key.isUntyped = c.isUntyped := by
  cases c <;> rfl

variable {a : Cap}

/-- Nothing but untyped capabilities stands above a zombie. -/
theorem isUntyped_of_same_zombie {id : Word} {t : Nat}
    (h : a.sameRegionAs cfg (zombie id t) = true) : a.isUntyped = true := by
  by_cases he : a.isExact = true
  · have hk := (sameRegionAs_exact he _).mp h
    have := isExact_key a
    rw [hk, he] at this
    cases this
  · cases a with
    | untyped => rfl
    | null | zombie | irqControl | frame => cases h
    | _ => exact absurd rfl he

variable {b : Cap}

/-- An untyped capability stands above everything that lies in its memory. -/
theorem same_iff_of_isUntyped (ha : a.WF cfg) (hb : b.WF cfg) (hu : a.isUntyped = true) :
    a.sameRegionAs cfg b = true ↔ b.capIsPhysical = true ∧ b.region cfg ≤ a.region cfg := by
  cases a with
  | untyped => exact same_untyped_iff ha hb
  | _ => cases hu

/-- What stands above an object compared by keys: untypeds, and capabilities with its key. -/
theorem above_exact (he : b.isExact = true) (hp : b.capIsPhysical = true)
    (h : a.sameRegionAs cfg b = true) : a.isUntyped = true ∨ a.key = b.key := by
  by_cases hae : a.isExact = true
  · exact .inr ((sameRegionAs_exact hae b).mp h)
  · cases a with
    | untyped => exact .inl rfl
    | null | zombie => cases h
    | irqControl =>
      rcases (sameRegionAs_irqControl b).mp h with rfl | ⟨i, rfl⟩
      · cases hp
      · cases hp
    | frame =>
      obtain ⟨_, _, _, _, _, _, rfl⟩ := isFrame_of_same h
      cases he
    | _ => exact absurd rfl hae

/-- Only `irq_control` stands above itself. -/
theorem eq_of_same_irqControl (h : a.sameRegionAs cfg irqControl = true) : a = irqControl := by
  cases a with
  | irqControl => rfl
  | _ => cases h

theorem eq_of_same_irqHandler {i : Word}
    (h : a.sameRegionAs cfg (irqHandler i) = true) : a = irqControl ∨ a = irqHandler i := by
  cases a with
  | irqControl => exact .inl rfl
  | irqHandler j =>
    have hk := (sameRegionAs_exact rfl _).mp h
    exact .inr hk
  | _ => cases h

theorem physical_of_isUntyped (h : a.isUntyped = true) : a.capIsPhysical = true := by
  cases a with
  | untyped => rfl
  | _ => cases h

theorem wf_null : null.WF cfg := ⟨nofun, nofun, nofun, nofun, nofun, nofun⟩

/-- Another free index. -/
theorem WF.setIndex {i j : Nat} {dev : Bool} {n : Nat} {p : Word} (h : (Cap.untyped i dev n p).WF cfg)
    (hj : j ≤ CteHeap.maxFreeIndex n) : (Cap.untyped j dev n p).WF cfg where
  aligned := h.aligned
  bits_le := h.bits_le
  untyped := by
    rintro _ _ _ _ ⟨⟩
    exact ⟨(h.untyped rfl).1, hj, (h.untyped rfl).2.2⟩
  cnode h := (nomatch h)
  thread h := (nomatch h)
  zombie h := (nomatch h)

theorem wf_irqHandler (i : Word) : (irqHandler i).WF cfg := ⟨nofun, nofun, nofun, nofun, nofun, nofun⟩

/-- Where the first argument is not compared by region, `sameObjectAs` compares keys. -/
theorem sameObjectAs_exact (ha : a.isExact = true) (b : Cap) :
    a.sameObjectAs cfg b = true ↔ a.key = b.key := by
  rw [← (sameRegionAs_exact ha b : a.sameRegionAs cfg b = true ↔ _)]
  cases a with
  | null | untyped | zombie | irqControl | frame => cases ha
  | pageTable | vspace | asidControl | asidPool | vcpu => cases b <;> rfl
  | _ => rfl

/-- The same for the second argument. -/
theorem sameObjectAs_exact_right (hb : b.isExact = true) (a : Cap) :
    a.sameObjectAs cfg b = true ↔ a.key = b.key := by
  by_cases ha : a.isExact = true
  · exact sameObjectAs_exact ha b
  · have hk : a.key ≠ b.key := by
      intro he
      have := isExact_key a
      rw [he, isExact_key, hb] at this
      exact ha this.symm
    refine ⟨fun h => ?_, fun h => absurd h hk⟩
    cases a with
    | null | untyped | zombie | irqControl => cases h
    | frame =>
      cases b with
      | null | untyped | zombie | irqControl | frame => cases hb
      | _ => cases h
    | _ => exact absurd rfl ha

end Cap

namespace CteHeap

variable (cfg : KernelConfig)

/-- `sameRegionAs` of the capabilities in two slots. -/
def Same (h : CteHeap) (a b : Word) : Prop := (h a).cap.sameRegionAs cfg (h b).cap = true

/-- `a` is before `b` in the derivation list. -/
def Bef (h : CteHeap) (a b : Word) : Prop := h.links.Before 0 a b

/-- The memory of `c` is below offset `16 * i` of the untyped at `p`. -/
def BelowIndex (c : Cap) (p : Word) (i : Nat) : Prop :=
  (c.region cfg).top ≤ p.toNat + 2 ^ minUntypedBits * i

/-- **The derivation list and the memory behind the capabilities fit together.** -/
structure DerivInv (h : CteHeap) : Prop where
  lists : ∃ LL, MdbLists h LL
  wf : ∀ x, (h x).cap.WF cfg
  laminar : Links.Laminar 0 h.links (h.Same cfg)
  below : ∀ {a b i dev n p}, h.Bef a b → h.Same cfg a b → (h a).cap = .untyped i dev n p →
    BelowIndex cfg (h b).cap p i
  meets : ∀ {a b}, a ≠ b → (h a).cap.capIsPhysical = true → (h b).cap.capIsPhysical = true →
    ¬ Block.Apart ((h a).cap.region cfg) ((h b).cap.region cfg) → h.Same cfg a b ∨ h.Same cfg b a

variable {cfg} {h h' : CteHeap}

variable {a b : Word}

theorem Same.ne_null_left (hs : h.Same cfg a b) : (h a).cap ≠ .null := by
  intro he
  rw [Same, he] at hs
  cases hs

theorem Same.ne_null_right (hs : h.Same cfg a b) : (h b).cap ≠ .null := by
  intro he
  rw [Same, he, Cap.sameRegionAs_null_right] at hs
  cases hs

theorem eq_irqControl_of_above (hb : (h b).cap = .irqControl) (ha : a = b ∨ h.Same cfg a b) :
    (h a).cap = .irqControl := by
  rcases ha with rfl | hs
  · exact hb
  · rw [Same, hb] at hs
    exact Cap.eq_of_same_irqControl hs

theorem same_of_keys {a' b' : Word} (ha : (h' a').cap.key = (h a).cap.key)
    (hb : (h' b').cap.key = (h b).cap.key) : h'.Same cfg a' b' ↔ h.Same cfg a b := by
  unfold Same
  rw [Cap.same_congr ha hb]

theorem two_pow_mul_maxFreeIndex {n : Nat} (hn : minUntypedBits ≤ n) :
    2 ^ minUntypedBits * maxFreeIndex n = 2 ^ n := by
  rw [maxFreeIndex, ← Nat.pow_add, Nat.add_sub_cancel' hn]

/-- `h'` has a zombie in `slot` where `h` has the only capability to an object. -/
structure Zombified (cfg : KernelConfig) (h h' : CteHeap) (slot : Word) : Prop where
  off : ∀ x ≠ slot, (h' x).cap = (h x).cap
  zombie : ∃ id t, (h' slot).cap = .zombie id t
  wf : (h' slot).cap.WF cfg
  exact : (h slot).cap.isExact = true
  physical : (h slot).cap.capIsPhysical = true
  sole : ∀ x ≠ slot, (h x).cap.key ≠ (h slot).cap.key
  region : (h' slot).cap.region cfg = (h slot).cap.region cfg

namespace Zombified

variable {slot : Word} (hz : Zombified cfg h h' slot)
include hz

theorem physical_eq : (h' slot).cap.capIsPhysical = (h slot).cap.capIsPhysical := by
  obtain ⟨id, t, hid⟩ := hz.zombie
  rw [hz.physical, hid]
  rfl

theorem null_iff (x : Word) : (h' x).cap = .null ↔ (h x).cap = .null := by
  by_cases hx : x = slot
  · subst hx
    obtain ⟨id, t, hid⟩ := hz.zombie
    rw [hid]
    refine ⟨nofun, fun hn => ?_⟩
    have := hz.exact
    rw [hn] at this
    cases this
  · rw [hz.off x hx]

end Zombified

/-- The untyped in `u` has free memory for an object with capability `c`. -/
structure Fresh (cfg : KernelConfig) (h : CteHeap) (u : Word) (c : Cap) : Prop where
  isUntyped : (h u).cap.isUntyped = true
  wf : c.WF cfg
  physical : c.capIsPhysical = true
  le : c.region cfg ≤ (h u).cap.region cfg
  apart : ∀ x, h.Bef u x → h.Same cfg u x → Block.Apart ((h x).cap.region cfg) (c.region cfg)

theorem Fresh.ne_null (hf : Fresh cfg h u c) : (h u).cap ≠ .null := by
  intro hn
  have := hf.isUntyped
  rw [hn] at this
  cases this

/-- `c` belongs right behind the slot `u`: it is related to `u` and what is above `u`, and to nothing
else. -/
structure Child (cfg : KernelConfig) (h : CteHeap) (u : Word) (c : Cap) : Prop where
  wf : c.WF cfg
  above : ∀ x, (h x).cap.sameRegionAs cfg c = true ↔ x = u ∨ h.Same cfg x u
  below : ∀ x, c.sameRegionAs cfg (h x).cap = true → x = u ∨ h.Same cfg x u
  behind : ∀ x, h.Bef u x → ¬ (x = u ∨ h.Same cfg x u)
  index : ∀ {x i dev n p}, x = u ∨ h.Bef x u ∧ h.Same cfg x u → (h x).cap = .untyped i dev n p →
    BelowIndex cfg c p i
  meets : c.capIsPhysical = true → ∀ x, (h x).cap.capIsPhysical = true →
    ¬ Block.Apart ((h x).cap.region cfg) (c.region cfg) → x = u ∨ h.Same cfg x u

namespace DerivInv

variable (hi : DerivInv cfg h)
include hi

theorem bef_irrefl (a : Word) : ¬ h.Bef a a := by
  obtain ⟨LL, hm⟩ := hi.lists
  exact hm.lists.before_irrefl a

theorem bef_ne_null (hab : h.Bef a b) : (h a).cap ≠ .null ∧ (h b).cap ≠ .null := by
  obtain ⟨LL, hm⟩ := hi.lists
  exact ⟨(hm.mem_iff a).mp (hm.lists.mem_left hab), (hm.mem_iff b).mp (hm.lists.mem_right hab)⟩

theorem same_refl (hn : (h a).cap ≠ .null) (hz : (h a).cap.isZombie = false) : h.Same cfg a a :=
  Cap.sameRegionAs_refl (hi.wf a) hn hz

/-- Memory of what is below a slot. -/
theorem region_le (hab : h.Same cfg a b) (hp : (h a).cap.capIsPhysical = true) :
    (h b).cap.region cfg ≤ (h a).cap.region cfg :=
  (Cap.region_le_of_same (hi.wf a) (hi.wf b) hab hp).2

/-- An untyped whose right neighbour is not below it has nothing below it behind it. -/
theorem no_children (hn : ∀ x, h.links.Next 0 a x → ¬ h.Same cfg a x)
    (hab : h.Bef a b) : ¬ h.Same cfg a b :=
  hi.laminar.not_of_next hn hab

/-! ## Exchanging slots and rewriting capabilities -/

/-- Slots are renamed. Each takes its links, its memory and its relations to other slots along. -/
theorem rename (σ : Equiv.Perm Word) (hσ : σ 0 = 0) (hm' : ∃ LL, MdbLists h' LL)
    (hl : h'.links = h.links.rename σ) (hwf : ∀ x, (h' x).cap.WF cfg)
    (hsame : ∀ a b, a ≠ b → (h'.Same cfg a b ↔ h.Same cfg (σ.symm a) (σ.symm b)))
    (hreg : ∀ x, (h' x).cap.region cfg = (h (σ.symm x)).cap.region cfg)
    (hphys : ∀ x, (h' x).cap.capIsPhysical = (h (σ.symm x)).cap.capIsPhysical)
    (hb : ∀ {a b i dev n p}, h.Bef (σ.symm a) (σ.symm b) → h.Same cfg (σ.symm a) (σ.symm b) →
      (h' a).cap = .untyped i dev n p → BelowIndex cfg (h (σ.symm b)).cap p i) : DerivInv cfg h' := by
  obtain ⟨LL, hm⟩ := hi.lists
  refine ⟨hm', hwf, ?_, ?_, ?_⟩
  · rw [hl]
    exact hi.laminar.rename hm.lists σ hσ hsame
  · intro a b i dev n p hab hs hu
    rw [Bef, hl, Links.before_rename σ hσ] at hab
    have hne : a ≠ b := by
      rintro rfl
      exact hi.bef_irrefl _ hab
    have := hb hab ((hsame a b hne).mp hs) hu
    rwa [BelowIndex, hreg b]
  · intro a b hne ha hb hmeet
    rw [hsame a b hne, hsame b a hne.symm]
    rw [hphys] at ha hb
    rw [hreg, hreg] at hmeet
    exact hi.meets (fun he => hne (σ.symm.injective he)) ha hb hmeet

/-- Slots are renamed, and each takes its key along. -/
theorem renameKeys (σ : Equiv.Perm Word) (hσ : σ 0 = 0) (hm' : ∃ LL, MdbLists h' LL)
    (hl : h'.links = h.links.rename σ)
    (hk : ∀ x, (h' x).cap.key = (h (σ.symm x)).cap.key) (hwf : ∀ x, (h' x).cap.WF cfg)
    (hu : ∀ {x i dev n p}, (h' x).cap = .untyped i dev n p →
      (h (σ.symm x)).cap = .untyped i dev n p) : DerivInv cfg h' :=
  hi.rename σ hσ hm' hl hwf (fun a b _ => same_of_keys (hk a) (hk b))
    (fun x => Cap.region_eq_of_key (hk x)) (fun x => Cap.physical_eq_of_key (hk x))
    fun hab hs he => hi.below hab hs (hu he)

/-- Rewriting capabilities within their keys: only free indices matter. -/
theorem recap (hl : h'.links = h.links) (hk : ∀ x, (h' x).cap.key = (h x).cap.key)
    (hwf : ∀ x, (h' x).cap.WF cfg)
    (hb : ∀ {a b i dev n p}, h.Bef a b → h.Same cfg a b → (h' a).cap = .untyped i dev n p →
      BelowIndex cfg (h b).cap p i) : DerivInv cfg h' := by
  obtain ⟨LL, hm⟩ := hi.lists
  refine hi.rename (.refl Word) rfl ⟨LL, ?_, fun x => ?_⟩ hl hwf (fun a b _ => same_of_keys (hk a) (hk b))
    (fun x => Cap.region_eq_of_key (hk x)) (fun x => Cap.physical_eq_of_key (hk x)) hb
  · rw [hl]
    exact hm.lists
  · rw [hm.mem_iff, ne_eq, ← Cap.key_eq_null, ← hk, Cap.key_eq_null]

variable {slot : Word}

/-- A zombie in place of the only capability to its object is related to the other slots as that
capability was: untypeds are above both, and nothing is below either. -/
theorem same_zombify (hz : Zombified cfg h h' slot) (hab : a ≠ b) : h'.Same cfg a b ↔ h.Same cfg a b := by
  by_cases ha : a = slot
  · subst ha
    obtain ⟨id, t, hid⟩ := hz.zombie
    constructor
    · intro hs
      rw [Same, hid] at hs
      cases hs
    · intro hs
      exact absurd ((Cap.sameRegionAs_exact hz.exact _).mp hs).symm (hz.sole b hab.symm)
  · by_cases hb : b = slot
    · subst hb
      by_cases hu : (h a).cap.isUntyped = true
      · unfold Same
        rw [hz.off a ha, Cap.same_iff_of_isUntyped (hi.wf a) hz.wf hu,
          Cap.same_iff_of_isUntyped (hi.wf a) (hi.wf b) hu, hz.physical_eq, hz.region]
      · constructor
        · intro hs
          obtain ⟨id, t, hid⟩ := hz.zombie
          rw [Same, hid, hz.off a ha] at hs
          exact absurd (Cap.isUntyped_of_same_zombie hs) hu
        · intro hs
          rcases Cap.above_exact hz.exact hz.physical hs with hu' | hk
          · exact absurd hu' hu
          · exact absurd hk (hz.sole a ha)
    · unfold Same
      rw [hz.off a ha, hz.off b hb]

/-- Turning the only capability to a CNode or thread into a zombie over the same memory. -/
theorem zombify (hl : h'.links = h.links) (hz : Zombified cfg h h' slot) : DerivInv cfg h' := by
  obtain ⟨LL, hm⟩ := hi.lists
  refine hi.rename (.refl Word) rfl ⟨LL, ?_, fun x => ?_⟩ hl (fun x => ?_)
    (fun a b hab => hi.same_zombify hz hab) (fun x => ?_) (fun x => ?_) ?_
  · rw [hl]
    exact hm.lists
  · rw [hm.mem_iff, ne_eq, ne_eq, hz.null_iff]
  · by_cases hx : x = slot
    · exact hx ▸ hz.wf
    · exact hz.off x hx ▸ hi.wf x
  · by_cases hx : x = slot
    · exact hx ▸ hz.region
    · rw [hz.off x hx]
      rfl
  · by_cases hx : x = slot
    · exact hx ▸ hz.physical_eq
    · rw [hz.off x hx]
      rfl
  · intro a b i dev n p hab hs hu
    have ha : a ≠ slot := by
      rintro rfl
      obtain ⟨id, t, hid⟩ := hz.zombie
      rw [hid] at hu
      cases hu
    rw [hz.off a ha] at hu
    exact hi.below hab hs hu

variable {dst : Word}

theorem cteMove {src : Word} (hs : (h src).cap ≠ .null) (hd : (h dst).cap = .null)
    (hd0 : dst ≠ 0) (hk : c.key = (h src).cap.key) (hwf : c.WF cfg)
    (hu : c.isUntyped = true → c = (h src).cap) : DerivInv cfg (h.cteMove c src dst) := by
  obtain ⟨LL, hm⟩ := hi.lists
  have hc : c ≠ .null := by
    rwa [ne_eq, ← Cap.key_eq_null, hk, Cap.key_eq_null]
  have hsd := MdbLists.ne_of_null hs hd
  have hs0 := hm.ne_zero hs
  have hcap : ∀ x, (h.cteMove c src dst x).cap =
      if x = dst then c else (h (Equiv.swap src dst x)).cap := by
    intro x
    rw [cap_cteMove, Equiv.swap_apply_def]
    by_cases hxs : x = src
    · subst hxs
      rw [if_pos rfl, if_neg hsd, if_pos rfl, hd]
    · split_ifs with hxd
      · rfl
      · rfl
  have hswap : Equiv.swap src dst dst = src := Equiv.swap_apply_right src dst
  refine hi.renameKeys (Equiv.swap src dst) (Equiv.swap_apply_of_ne_of_ne hs0.symm hd0.symm)
    ⟨_, hm.cteMove hc hs hd hd0⟩ ?_ (fun x => ?_) (fun x => ?_) ?_
  · rw [links_cteMove, hm.lists.moveTo_eq (hm.mem hs) (hm.notMem hd) hd0]
  · rw [hcap, Equiv.symm_swap]
    split_ifs with hx
    · rw [hk, hx, hswap]
    · rfl
  · rw [hcap]
    split_ifs
    · exact hwf
    · exact hi.wf _
  · intro x i dev n p
    rw [hcap, Equiv.symm_swap]
    split_ifs with hx
    · intro he
      rw [hx, hswap, ← hu (by rw [he]; rfl), he]
    · exact id

theorem cteSwap {d : Cap} {s t : Word} (hst : s ≠ t) (hs : s ≠ 0) (ht : t ≠ 0)
    (hkc : c.key = (h s).cap.key) (hkd : d.key = (h t).cap.key) (hcw : c.WF cfg) (hdw : d.WF cfg)
    (huc : c.isUntyped = true → c = (h s).cap) (hud : d.isUntyped = true → d = (h t).cap) :
    DerivInv cfg (h.cteSwap c s d t) := by
  obtain ⟨LL, hm⟩ := hi.lists
  have hc : c = .null ↔ (h s).cap = .null := by
    rw [← Cap.key_eq_null, hkc, Cap.key_eq_null]
  have hd : d = .null ↔ (h t).cap = .null := by
    rw [← Cap.key_eq_null, hkd, Cap.key_eq_null]
  refine hi.renameKeys (.swap s t) (Equiv.swap_apply_of_ne_of_ne hs.symm ht.symm)
    ⟨_, hm.cteSwap hst hs ht hc hd⟩ ?_ (fun x => ?_) (fun x => ?_) ?_
  · rw [links_cteSwap, hm.lists.exchange_eq hst hs ht]
  · rw [cap_cteSwap, Equiv.symm_swap]
    split_ifs with hxt hxs
    · rw [hxt, Equiv.swap_apply_right, hkc]
    · rw [hxs, Equiv.swap_apply_left, hkd]
    · rw [Equiv.swap_apply_of_ne_of_ne hxs hxt]
  · rw [cap_cteSwap]
    split_ifs
    · exact hcw
    · exact hdw
    · exact hi.wf x
  · intro x i dev n p
    rw [cap_cteSwap, Equiv.symm_swap]
    split_ifs with hxt hxs
    · intro he
      rw [hxt, Equiv.swap_apply_right, ← huc (by rw [he]; rfl), he]
    · intro he
      rw [hxs, Equiv.swap_apply_left, ← hud (by rw [he]; rfl), he]
    · rw [Equiv.swap_apply_of_ne_of_ne hxs hxt]
      exact id

/-! ## Emptying a slot -/

theorem emptySlot (s : Word) : DerivInv cfg (h.emptySlot s) := by
  obtain ⟨LL, hm⟩ := hi.lists
  by_cases hs : (h s).cap = .null
  · have hempty : h.emptySlot s = h := by
      unfold CteHeap.emptySlot
      rw [if_pos (Cap.isNull_iff.mpr hs)]
    rw [hempty]
    exact hi
  have hmem := hm.mem hs
  have hcap := h.cap_emptySlot s
  have hsame : ∀ a b, (h.emptySlot s).Same cfg a b ↔ a ≠ s ∧ b ≠ s ∧ h.Same cfg a b := by
    intro a b
    unfold Same
    rw [hcap, hcap]
    split_ifs with ha hb hb
    · simp [ha, Cap.sameRegionAs_null_left]
    · simp [ha, Cap.sameRegionAs_null_left]
    · simp [hb, Cap.sameRegionAs_null_right]
    · simp [ha, hb]
  refine ⟨⟨_, hm.emptySlot s⟩, fun x => ?_, ?_, ?_, ?_⟩
  · rw [hcap]
    split_ifs
    · exact Cap.wf_null
    · exact hi.wf x
  · rw [links_emptySlot h hs]
    exact hi.laminar.unlink hm.lists hmem hsame
  · intro a b i dev n p hab hsab hu
    obtain ⟨ha, hb, hsab'⟩ := (hsame a b).mp hsab
    rw [Bef, links_emptySlot h hs, hm.lists.before_unlink hmem] at hab
    rw [hcap, if_neg ha] at hu
    rw [hcap, if_neg hb]
    exact hi.below hab.2.2 hsab' hu
  · intro a b hne ha hb hmeet
    rw [hcap] at ha hb hmeet
    rw [hcap] at hmeet
    have has : a ≠ s := by
      rintro rfl
      rw [if_pos rfl] at ha
      cases ha
    have hbs : b ≠ s := by
      rintro rfl
      rw [if_pos rfl] at hb
      cases hb
    rw [if_neg has] at ha hmeet
    rw [if_neg hbs] at hb hmeet
    rw [hsame, hsame]
    exact (hi.meets hne ha hb hmeet).imp (fun h => ⟨has, hbs, h⟩) fun h => ⟨hbs, has, h⟩

/-! ## Inserting a derived capability -/

/-- A derived capability has the key of its source, and marks an untyped source as full. -/
theorem insertCopy {src : Word} (hs : (h src).cap ≠ .null)
    (hz : (h src).cap.isZombie = false) (hd : (h dst).cap = .null) (hd0 : dst ≠ 0)
    (hk : c.key = (h src).cap.key) (hwf : c.WF cfg)
    (hch : (h src).cap.isUntyped = true → ∀ x, h.links.Next 0 src x → ¬ h.Same cfg src x) :
    DerivInv cfg (h.cteInsert c src dst) := by
  obtain ⟨LL, hm⟩ := hi.lists
  have hc : c ≠ .null := by
    rwa [ne_eq, ← Cap.key_eq_null, hk, Cap.key_eq_null]
  have hsd := MdbLists.ne_of_null hs hd
  have hord := hm.lists.before_insertAfter (hm.mem hs) (hm.notMem hd) hd0
  have hbd : ∀ x, ¬ h.Bef x dst := fun x =>
    (hm.lists.not_before_of_notMem (hm.notMem hd) x).2
  have hfull := h.cap_setUntypedCapAsFull c src
  have hcap := h.cap_cteInsert c src dst
  have hkey : ∀ x, (h.cteInsert c src dst x).cap.key =
      (h (if x = dst then src else x)).cap.key := by
    intro x
    rw [hcap]
    split_ifs with hx
    · exact hk
    · rcases hfull x with he | ⟨rfl, i, dev, n, p, hu, he⟩
      · rw [he]
      · rw [he, hu]
        rfl
  have hsame : ∀ a b, (h.cteInsert c src dst).Same cfg a b ↔
      h.Same cfg (if a = dst then src else a) (if b = dst then src else b) :=
    fun a b => same_of_keys (hkey a) (hkey b)
  refine ⟨⟨_, hm.cteInsert hc hs hd hd0⟩, fun x => ?_, ?_, ?_, ?_⟩
  · rw [hcap]
    split_ifs with hx
    · exact hwf
    · rcases hfull x with he | ⟨rfl, i, dev, n, p, hu, he⟩
      · rw [he]
        exact hi.wf x
      · rw [he]
        exact .setIndex (hu ▸ hi.wf x) le_rfl
  · rw [links_cteInsert]
    exact hi.laminar.insert_copy hm.lists (hm.mem hs) (hm.notMem hd) hd0 (hi.same_refl hs hz) hsame
  · intro a b i dev n p hab hsab hu
    have hsab' := (hsame a b).mp hsab
    rw [Bef, links_cteInsert, hord] at hab
    have hreg : _ = (h (if b = dst then src else b)).cap.region cfg := Cap.region_eq_of_key (hkey b)
    by_cases had : a = dst
    · -- a copy of an untyped has nothing below it
      have hua : (h src).cap.isUntyped = true := by
        rw [hcap, if_pos had] at hu
        rw [← Cap.isUntyped_key, ← hk, hu]
        rfl
      rcases hab with ⟨he, -⟩ | ⟨rfl, rfl | hab⟩ | ⟨-, hab⟩
      · exact absurd had he
      · exact absurd had hsd
      · exact absurd (had ▸ hab) ((hm.lists.not_before_of_notMem (hm.notMem hd) src).1)
      · have hb : b ≠ dst := fun he => hbd src (he ▸ hab)
        rw [if_pos had, if_neg hb] at hsab'
        exact absurd hsab' (hi.no_children (hch hua) hab)
    · rw [if_neg had] at hsab'
      rw [hcap, if_neg had] at hu
      by_cases has : a = src
      · -- the source is full
        subst has
        have hua : (h a).cap.isUntyped = true := by
          rcases hfull a with he | ⟨-, i', dev', n', p', hu', -⟩
          · rw [← he, hu]
            rfl
          · rw [hu']
            rfl
        obtain ⟨i', dev', n', p', hu', rfl, rfl⟩ :
            ∃ i' dev' n', ∃ p' : Word, (h a).cap = .untyped i' dev' n' p' ∧ p' = p ∧
              i = maxFreeIndex n' := by
          cases hca : (h a).cap with
          | untyped i' dev' n' p' =>
            refine ⟨i', dev', n', p', rfl, ?_⟩
            rw [hca] at hk
            cases c with
            | untyped i2 dev2 n2 p2 =>
              simp only [Cap.key, Cap.untyped.injEq, true_and] at hk
              rw [hca, setUntypedCapAsFull, if_pos ⟨hk.2.symm, hk.1⟩, cap_setCap, if_pos rfl] at hu
              cases hu
              exact ⟨rfl, rfl⟩
            | _ => cases hk
          | _ => rw [hca] at hua; cases hua
        have hle := hi.region_le hsab' (by rw [hu']; rfl)
        have hn : minUntypedBits ≤ n' := ((hi.wf a).untyped hu').1
        rw [BelowIndex, two_pow_mul_maxFreeIndex hn, hreg]
        rw [hu'] at hle
        exact hle.2
      · have hold : (h a).cap = .untyped i dev n p := by
          rcases hfull a with he | ⟨he, -⟩
          · rw [← he, hu]
          · exact absurd he has
        rw [BelowIndex, hreg]
        rcases hab with ⟨-, hb, hab⟩ | ⟨hb, he | hab⟩ | ⟨he, -⟩
        · rw [if_neg hb] at hsab' ⊢
          exact hi.below hab hsab' hold
        · exact absurd he has
        · rw [if_pos hb] at hsab' ⊢
          exact hi.below hab hsab' hold
        · exact absurd he had
  · intro a b hne ha hb hmeet
    rw [hsame, hsame]
    rw [Cap.physical_eq_of_key (hkey _)] at ha hb
    rw [Cap.region_eq_of_key (hkey a), Cap.region_eq_of_key (hkey b)] at hmeet
    by_cases he : (if a = dst then src else a) = (if b = dst then src else b)
    · have hsrc : (if b = dst then src else b) = src := by
        by_cases hbd' : b = dst
        · rw [if_pos hbd']
        · by_cases had : a = dst
          · rw [if_pos had] at he
            exact he.symm
          · rw [if_neg had, if_neg hbd'] at he
            exact absurd he hne
      rw [he, hsrc]
      exact .inl (hi.same_refl hs hz)
    · exact hi.meets he ha hb hmeet

/-! ## Inserting a capability to a new object -/

section Fresh

variable (hf : Fresh cfg h u c)
include hf

variable {x : Word}

/-- What meets the memory of a new object is `u`, or above `u`. -/
theorem above_of_meets (hx : (h x).cap.capIsPhysical = true)
    (hmeet : ¬ Block.Apart ((h x).cap.region cfg) (c.region cfg)) : x = u ∨ h.Same cfg x u := by
  by_cases hxu : x = u
  · exact .inl hxu
  have hup : (h u).cap.capIsPhysical = true := Cap.physical_of_isUntyped hf.isUntyped
  have hmeet' : ¬ Block.Apart ((h x).cap.region cfg) ((h u).cap.region cfg) :=
    fun ha => hmeet (ha.symm.of_le hf.le).symm
  rcases hi.meets hxu hx hup hmeet' with hxu' | hux
  · exact .inr hxu'
  · rcases hi.laminar.related (.symm hxu) hux with hb | hb
    · exact absurd (hf.apart x hb hux) hmeet
    · exact .inr (hi.laminar.ordered hb hux)

/-- A new object is below exactly `u` and what is above `u`. -/
theorem above_fresh : (h x).cap.sameRegionAs cfg c = true ↔ x = u ∨ h.Same cfg x u := by
  have hu : (h u).cap.sameRegionAs cfg c = true :=
    (Cap.same_iff_of_isUntyped (hi.wf u) hf.wf hf.isUntyped).mpr ⟨hf.physical, hf.le⟩
  constructor
  · intro hx
    have hxp := Cap.physical_of_same hx hf.physical
    refine hi.above_of_meets hf hxp fun ha => ?_
    exact Block.not_apart_of_le (Cap.region_le_of_same (hi.wf x) hf.wf hx hxp).2 ha.symm
  · rintro (rfl | hx)
    · exact hu
    · exact Cap.sameRegionAs_trans (hi.wf x) (hi.wf u) hf.wf hx hu

/-- What is below a new object is also above it. -/
theorem above_of_below_fresh (hx : c.sameRegionAs cfg (h x).cap = true) : x = u ∨ h.Same cfg x u := by
  obtain ⟨hxp, hxle⟩ := Cap.region_le_of_same hf.wf (hi.wf x) hx hf.physical
  exact hi.above_of_meets hf hxp (Block.not_apart_of_le hxle)

/-- Nothing behind `u` is related to a new object. -/
theorem not_above_of_bef (hux : h.Bef u x) : ¬ (x = u ∨ h.Same cfg x u) := by
  intro hx
  have hsux : h.Same cfg u x := by
    rcases hx with rfl | hx
    · exact absurd hux (hi.bef_irrefl _)
    · exact hi.laminar.ordered hux hx
  have hup : (h u).cap.capIsPhysical = true := Cap.physical_of_isUntyped hf.isUntyped
  have hxp := (Cap.region_le_of_same (hi.wf u) (hi.wf x) hsux hup).1
  have hcx := (Cap.region_le_of_same (hi.wf x) hf.wf ((hi.above_fresh hf).mpr hx) hxp).2
  exact Block.not_apart_of_le hcx (hf.apart x hux hsux).symm

end Fresh

/-- A new capability behind the slot `u`. -/
theorem insertChild (hf : Child cfg h u c) (hu : (h u).cap ≠ .null) (hd : (h dst).cap = .null)
    (hd0 : dst ≠ 0) (hm' : ∃ LL, MdbLists h' LL) (hl : h'.links = h.links.insertAfter 0 u dst)
    (hcap : ∀ x, (h' x).cap = if x = dst then c else (h x).cap) : DerivInv cfg h' := by
  obtain ⟨LL, hm⟩ := hi.lists
  have hud := MdbLists.ne_of_null hu hd
  have hnew : (h' dst).cap = c := by rw [hcap, if_pos rfl]
  have hold : ∀ x ≠ dst, (h' x).cap = (h x).cap := fun x hx => by rw [hcap, if_neg hx]
  have hsame : ∀ a b, a ≠ dst → b ≠ dst → (h'.Same cfg a b ↔ h.Same cfg a b) := by
    intro a b ha hb
    unfold Same
    rw [hold a ha, hold b hb]
  have hup : ∀ x ≠ dst, (h'.Same cfg x dst ↔ x = u ∨ h.Same cfg x u) := by
    intro x hx
    rw [Same, hold x hx, hnew, hf.above]
  have hdown : ∀ x ≠ dst, h'.Same cfg dst x → x = u ∨ h.Same cfg x u := by
    intro x hx hs
    rw [Same, hnew, hold x hx] at hs
    exact hf.below x hs
  have hbef : ∀ {a b}, h.Bef a b → a ≠ dst ∧ b ≠ dst := fun hab =>
    ⟨MdbLists.ne_of_null (hi.bef_ne_null hab).1 hd, MdbLists.ne_of_null (hi.bef_ne_null hab).2 hd⟩
  refine ⟨hm', fun x => ?_, ?_, ?_, ?_⟩
  · rw [hcap]
    split_ifs
    · exact hf.wf
    · exact hi.wf x
  · rw [hl]
    exact hi.laminar.insert_below hm.lists (hm.mem hu) (hm.notMem hd) hd0 hsame ((hup u hud).mpr (.inl rfl))
      (fun a ha hau => (hup a ha).mpr (.inr hau)) (fun a ha => (hup a ha).mp)
      (fun a ha hda => (hup a ha).mpr (hdown a ha hda))
      fun a hua _ had => hf.behind a hua ((hup a (hbef hua).2).mp had)
  · intro a b i dev n p hab hsab hua
    rw [Bef, hl, hm.lists.before_insertAfter (hm.mem hu) (hm.notMem hd) hd0] at hab
    rcases hab with ⟨ha, hb, hab⟩ | ⟨rfl, hab⟩ | ⟨rfl, hab⟩
    · rw [hold a ha] at hua
      rw [hold b hb]
      exact hi.below hab ((hsame a b ha hb).mp hsab) hua
    · have ha : a ≠ b := hab.elim (fun he => he ▸ hud) fun hab => (hbef hab).1
      rw [hold a ha] at hua
      rw [hnew]
      rcases hab with he | hab
      · exact hf.index (.inl he) hua
      · exact hf.index (((hup a ha).mp hsab).imp_right fun hs => ⟨hab, hs⟩) hua
    · exact absurd (hdown b (hbef hab).2 hsab) (hf.behind b hab)
  · intro a b hne ha hb hmeet
    by_cases had : a = dst
    · subst had
      rw [hnew] at ha hmeet
      rw [hold b hne.symm] at hb hmeet
      exact .inr ((hup b hne.symm).mpr (hf.meets ha b hb fun h => hmeet h.symm))
    by_cases hbd : b = dst
    · subst hbd
      rw [hnew] at hb hmeet
      rw [hold a hne] at ha hmeet
      exact .inl ((hup a hne).mpr (hf.meets hb a ha hmeet))
    · rw [hold a had] at ha hmeet
      rw [hold b hbd] at hb hmeet
      rw [hsame a b had hbd, hsame b a hbd had]
      exact hi.meets hne ha hb hmeet

theorem child_fresh (hf : Fresh cfg h u c)
    (hidx : ∀ {i dev n p}, (h u).cap = .untyped i dev n p → BelowIndex cfg c p i) : Child cfg h u c where
  wf := hf.wf
  above _ := hi.above_fresh hf
  below _ := hi.above_of_below_fresh hf
  behind _ := hi.not_above_of_bef hf
  index := by
    rintro x i dev n p (rfl | ⟨hab, hau⟩) hua
    · exact hidx hua
    · exact hf.le.2.trans (hi.below hab hau hua)
  meets _ _ := hi.above_of_meets hf

/-- A new object in the free memory of the untyped `u`. -/
theorem insertBelow (hf : Fresh cfg h u c) (hd : (h dst).cap = .null) (hd0 : dst ≠ 0)
    (hidx : ∀ {i dev n p}, (h u).cap = .untyped i dev n p → BelowIndex cfg c p i) :
    DerivInv cfg (h.insertNewCap u dst c) := by
  obtain ⟨LL, hm⟩ := hi.lists
  have hc : c ≠ .null := by
    rintro rfl
    cases hf.physical
  exact hi.insertChild (hi.child_fresh hf hidx) hf.ne_null hd hd0 ⟨_, hm.insertNewCap hc hf.ne_null hd hd0⟩
    (links_insertNewCap ..) (h.cap_insertNewCap u dst c)

/-- A handler for an interrupt that has none belongs behind the only `irq_control` capability. -/
theorem child_handler {irq ctrl : Word} (hc : (h ctrl).cap = .irqControl)
    (hno : ∀ x, (h x).cap ≠ .irqHandler irq) (hone : ∀ x, (h x).cap = .irqControl → x = ctrl) :
    Child cfg h ctrl (.irqHandler irq) where
  wf := Cap.wf_irqHandler irq
  above x := by
    constructor
    · intro hx
      rcases Cap.eq_of_same_irqHandler hx with he | he
      · exact .inl (hone x he)
      · exact absurd he (hno x)
    · intro hx
      rw [eq_irqControl_of_above hc hx]
      rfl
  below x hx := by
    have hk := (Cap.sameRegionAs_exact rfl _).mp hx
    exact absurd (Cap.key_eq_irqHandler.mp hk.symm) (hno x)
  behind x hx hor := by
    rw [hone x (eq_irqControl_of_above hc hor)] at hx
    exact hi.bef_irrefl _ hx
  index := by
    intro x i dev n p hx hu
    rw [eq_irqControl_of_above hc (hx.imp_right (·.2))] at hu
    cases hu
  meets hp := (nomatch hp)

theorem insertHandler {irq ctrl : Word} (hc : (h ctrl).cap = .irqControl)
    (hd : (h dst).cap = .null) (hd0 : dst ≠ 0) (hno : ∀ x, (h x).cap ≠ .irqHandler irq)
    (hone : ∀ x, (h x).cap = .irqControl → x = ctrl) :
    DerivInv cfg (h.cteInsert (.irqHandler irq) ctrl dst) := by
  obtain ⟨LL, hm⟩ := hi.lists
  have hs : (h ctrl).cap ≠ .null := by simp [hc]
  refine hi.insertChild (hi.child_handler hc hno hone) hs hd hd0 ⟨_, hm.cteInsert (by simp) hs hd hd0⟩
    (links_cteInsert ..) fun x => ?_
  rw [cap_cteInsert, hc]
  rfl

/-! ## Finality -/

/-- What `isFinalCapability` tests: the two neighbours, where there are any. -/
theorem isFinalCapability_local (he : (h slot).cap.isExact = true) :
    h.isFinalCapability cfg slot = true ↔
      (∀ x, h.links.Next 0 x slot → (h x).cap.key ≠ (h slot).cap.key) ∧
        ∀ x, h.links.Next 0 slot x → (h x).cap.key ≠ (h slot).cap.key := by
  obtain ⟨LL, hm⟩ := hi.lists
  have hne : (h slot).cap ≠ .null := by
    intro hn
    rw [hn] at he
    cases he
  have hs0 := hm.ne_zero hne
  have hprev : (∀ x, h.links.Next 0 x slot → (h x).cap.key ≠ (h slot).cap.key) ↔
      (h.links.prev slot = 0 ∨ (h (h.links.prev slot)).cap.key ≠ (h slot).cap.key) := by
    constructor
    · intro hall
      by_cases hp : h.links.prev slot = 0
      · exact .inl hp
      · exact .inr (hall _ ⟨(hm.lists.next_eq_iff hp hs0).mpr rfl, hs0⟩)
    · rintro hor x ⟨hx, -⟩
      have hx0 : x ≠ 0 := by
        rintro rfl
        exact hs0 (hx.symm.trans hm.lists.null_links.1)
      have hxp : h.links.prev slot = x := (hm.lists.next_eq_iff hx0 hs0).mp hx
      rw [hxp] at hor
      exact hor.resolve_left hx0
  have hnext : (∀ x, h.links.Next 0 slot x → (h x).cap.key ≠ (h slot).cap.key) ↔
      (h.links.next slot = 0 ∨ (h (h.links.next slot)).cap.key ≠ (h slot).cap.key) := by
    constructor
    · intro hall
      by_cases hn : h.links.next slot = 0
      · exact .inl hn
      · exact .inr (hall _ ⟨rfl, hn⟩)
    · rintro hor x ⟨rfl, hx⟩
      exact hor.resolve_left hx
  have hso : (h slot).cap.sameObjectAs cfg (h (h.links.next slot)).cap = true ↔ _ :=
    Cap.sameObjectAs_exact he _
  have hso' : (h (h.links.prev slot)).cap.sameObjectAs cfg (h slot).cap = true ↔ _ :=
    Cap.sameObjectAs_exact_right he _
  rw [hprev, hnext, ne_eq, ← hso', ne_eq, eq_comm (b := (h slot).cap.key), ← hso]
  show (if (if h.links.prev slot = 0 then false
      else (h (h.links.prev slot)).cap.sameObjectAs cfg (h slot).cap) = true then false
    else if h.links.next slot = 0 then true
    else !(h slot).cap.sameObjectAs cfg (h (h.links.next slot)).cap) = true ↔ _
  generalize (h (h.links.prev slot)).cap.sameObjectAs cfg (h slot).cap = b1
  generalize (h slot).cap.sameObjectAs cfg (h (h.links.next slot)).cap = b2
  by_cases hp : h.links.prev slot = 0 <;> by_cases hn : h.links.next slot = 0 <;>
    cases b1 <;> cases b2 <;> simp

/-- The two neighbours tell whether any other slot holds a capability to the same object. -/
theorem isFinalCapability_iff_key (he : (h slot).cap.isExact = true) :
    h.isFinalCapability cfg slot = true ↔ ∀ x ≠ slot, (h x).cap.key ≠ (h slot).cap.key := by
  rw [hi.isFinalCapability_local he]
  constructor
  · rintro ⟨hprev, hnext⟩ x hx hk
    have hsx : h.Same cfg slot x := (Cap.sameRegionAs_exact he _).mpr hk.symm
    have hxe : (h x).cap.isExact = true := by
      rw [← Cap.isExact_key, hk, Cap.isExact_key, he]
    rcases hi.laminar.related hx.symm hsx with hb | hb
    · refine hi.no_children (fun y hy hsy => ?_) hb hsx
      exact hnext y hy ((Cap.sameRegionAs_exact he _).mp hsy).symm
    · obtain ⟨y, hxy, hy⟩ := Relation.TransGen.tail'_iff.mp hb
      rcases Relation.reflTransGen_iff_eq_or_transGen.mp hxy with rfl | hxy
      · exact hprev _ hy hk
      · have hsxs : h.Same cfg x slot := (Cap.sameRegionAs_exact hxe _).mpr hk
        have hsxy := hi.laminar.contiguous hxy hy.before hsxs
        have hky := (Cap.sameRegionAs_exact hxe _).mp hsxy
        exact hprev y hy (hky.symm.trans hk)
  · intro hall
    refine ⟨fun x hx => hall x ?_, fun x hx => hall x ?_⟩
    · rintro rfl
      exact hi.bef_irrefl x hx.before
    · rintro rfl
      exact hi.bef_irrefl x hx.before

end DerivInv

end CteHeap

end SeL4.Object
