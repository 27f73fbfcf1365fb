import SeL4.Object.Cte
import SeL4.Lib.Block

/-!
# Regions of capabilities

What `sameRegionAs` says about the memory behind two capabilities.

* `key` erases what a copy may change: badges, rights, guards, free indices, mapping data and the
  count of a zombie. `sameRegionAs` only depends on keys (`sameRegionAs_key`).
* For most types `sameRegionAs` is equality of keys (`sameRegionAs_exact`). The exceptions are
  untyped and frame capabilities, which compare regions, `irq_control`, which stands above all
  handlers, and null and zombie capabilities, which are related to nothing.
* On well-formed capabilities (`WF`: regions are aligned blocks) it is transitive
  (`sameRegionAs_trans`), reflexive except on null and zombie capabilities, and implies that the
  second region lies in the first (`region_le_of_same`).
-/

namespace SeL4.Object.Cap

open SeL4.Lib

variable (cfg : KernelConfig)

/-- The memory behind a capability. -/
def region (c : Cap) : Block := ⟨(c.capPtr cfg).toNat, c.capSizeBits cfg⟩

/-- What all capabilities to one object have in common. -/
def key : Cap → Cap
  | null => null
  | untyped _ _ n p => untyped 0 false n p
  | endpoint _ _ _ _ _ p => endpoint 0 false false false false p
  | notification _ _ _ p => notification 0 false false p
  | reply _ _ p => reply false false p
  | replyObject p _ => replyObject p false
  | cnode r _ _ p => cnode r 0 0 p
  | thread p => thread p
  | irqControl => irqControl
  | irqHandler i => irqHandler i
  | zombie id type => zombie (zombiePtr id type) type
  | domain => domain
  | schedContext p n => schedContext p n
  | schedControl _ => schedControl 0
  | frame _ p n _ _ _ => frame 0 p n 0 .kernelOnly false
  | pageTable _ p _ _ => pageTable 0 p false 0
  | vspace _ p _ => vspace 0 p false
  | asidControl => asidControl
  | asidPool _ p => asidPool 0 p
  | vcpu p => vcpu p

/-- The types for which `sameRegionAs` compares objects only. -/
def isExact : Cap → Bool
  | null | untyped .. | zombie .. | irqControl | frame .. => false
  | _ => true

theorem zombiePtr_idem (id : Word) (type : Nat) :
    zombiePtr (zombiePtr id type) type = zombiePtr id type := by
  unfold zombiePtr
  rw [BitVec.and_assoc, BitVec.and_self]

@[simp] theorem capIsPhysical_key (c : Cap) : c.key.capIsPhysical = c.capIsPhysical := by
  cases c <;> rfl

@[simp] theorem capSizeBits_key (c : Cap) : c.key.capSizeBits cfg = c.capSizeBits cfg := by
  cases c <;> rfl

@[simp] theorem capPtr_key (c : Cap) : c.key.capPtr cfg = c.capPtr cfg := by
  cases c with
  | zombie id type => exact zombiePtr_idem id type
  | _ => rfl

@[simp] theorem region_key (c : Cap) : c.key.region cfg = c.region cfg := by
  unfold region
  rw [capPtr_key, capSizeBits_key]

variable {cfg}

variable {a b : Cap}

theorem region_eq_of_key (h : a.key = b.key) : a.region cfg = b.region cfg := by
  rw [← region_key, h, region_key]

theorem physical_eq_of_key (h : a.key = b.key) : a.capIsPhysical = b.capIsPhysical := by
  rw [← capIsPhysical_key, h, capIsPhysical_key]

/-- Apart from regions, `sameRegionAs` compares keys. -/
theorem sameRegionAs_exact (h : a.isExact = true) (b : Cap) :
    a.sameRegionAs cfg b = true ↔ a.key = b.key := by
  cases a with
  | null | untyped | zombie | irqControl | frame => cases h
  -- two capabilities of one type are compared field by field, and others never match
  | domain | schedControl | asidControl => cases b <;> first | exact ⟨fun _ => rfl, fun _ => rfl⟩ | simp [key]; rfl
  | _ =>
    cases b <;> first
      | exact iff_of_false (by rintro ⟨⟩) (by rintro ⟨⟩)
      | (show (_ == _) = true ↔ _; simp [key])
      | (show (_ == _ && _ == _) = true ↔ _; simp [key, and_comm])

theorem sameRegionAs_untyped (i : Nat) (dev : Bool) (n : Nat) (p : Word) (b : Cap) :
    (untyped i dev n p).sameRegionAs cfg b =
      (b.capIsPhysical && (decide (p ≤ b.capPtr cfg) &&
        decide (b.capPtr cfg + mask (b.capSizeBits cfg) ≤ p + mask n) &&
        decide (b.capPtr cfg ≤ b.capPtr cfg + mask (b.capSizeBits cfg)))) := by
  show (if b.capIsPhysical then _ else false) = _
  cases b.capIsPhysical <;> rfl

theorem sameRegionAs_irqControl (b : Cap) :
    irqControl.sameRegionAs cfg b = true ↔ b = irqControl ∨ ∃ i, b = irqHandler i := by
  cases b with
  | irqControl => exact ⟨fun _ => .inl rfl, fun _ => rfl⟩
  | irqHandler i => exact ⟨fun _ => .inr ⟨i, rfl⟩, fun _ => rfl⟩
  | _ => exact ⟨nofun, by rintro (h | ⟨i, h⟩) <;> cases h⟩

variable {p : Word} {dev : Bool}

/-- A frame is only compared with frames. -/
theorem isFrame_of_same {asid : Word} {n : PageSize} {addr : Word} {r : VMRights}
    (h : (frame asid p n addr r dev).sameRegionAs cfg b = true) :
    ∃ asid' q m addr' r' dev', b = frame asid' q m addr' r' dev' := by
  cases b with
  | frame asid' q m addr' r' dev' => exact ⟨_, _, _, _, _, _, rfl⟩
  | _ => cases h

@[simp] theorem key_key (c : Cap) : c.key.key = c.key := by
  cases c with
  | zombie id type =>
    show zombie (zombiePtr (zombiePtr id type) type) type = zombie (zombiePtr id type) type
    rw [zombiePtr_idem]
  | _ => rfl

@[simp] theorem isExact_key (c : Cap) : c.key.isExact = c.isExact := by
  cases c <;> rfl

/-- `sameRegionAs` only depends on keys. -/
theorem sameRegionAs_key (a b : Cap) : a.key.sameRegionAs cfg b.key = a.sameRegionAs cfg b := by
  by_cases he : a.isExact = true
  · rw [Bool.eq_iff_iff, sameRegionAs_exact he, sameRegionAs_exact (by rwa [isExact_key]), key_key,
      key_key]
  · cases a with
    | untyped i dev n p =>
      show (untyped 0 false n p).sameRegionAs cfg b.key = _
      rw [sameRegionAs_untyped, sameRegionAs_untyped, capIsPhysical_key, capPtr_key, capSizeBits_key]
    | null | zombie => rfl
    | irqControl => cases b <;> rfl
    | frame => cases b <;> rfl
    | _ => exact absurd rfl he

theorem same_congr {a' b' : Cap} (ha : a.key = a'.key) (hb : b.key = b'.key) :
    a.sameRegionAs cfg b = a'.sameRegionAs cfg b' := by
  rw [← sameRegionAs_key, ha, hb, sameRegionAs_key]

/-! ## Well-formed capabilities -/

variable (cfg)

/-- Well-formed: memory is an aligned block of at most `seL4_MaxUntypedBits`, and the fields of the
capability fit its type. -/
structure WF (c : Cap) : Prop where
  aligned : c.capIsPhysical = true → (c.region cfg).Aligned
  bits_le : c.capIsPhysical = true → c.capSizeBits cfg ≤ maxUntypedBits
  untyped : ∀ {i dev n p}, c = untyped i dev n p →
    minUntypedBits ≤ n ∧ i ≤ CteHeap.maxFreeIndex n ∧ (dev = false → p ≠ 0)
  cnode : ∀ {r g gd p}, c = cnode r g gd p → 1 ≤ r ∧ r + g ≤ wordBits ∧ gd.toNat < 2 ^ g ∧ p ≠ 0
  thread : ∀ {p}, c = thread p → p = tcbCTEPtr cfg p + bit (cfg.tcbBits - 1) ∧ tcbCTEPtr cfg p ≠ 0
  zombie : ∀ {id t}, c = zombie id t → (t = zombieTCB ∨ 1 ≤ t ∧ t < zombieTCB) ∧ zombiePtr id t ≠ 0

variable {cfg}

/-- Every block of a well-formed capability has fewer than 64 bits. -/
theorem WF.bits_le_64 {c : Cap} (h : c.WF cfg) (hp : c.capIsPhysical = true) : c.capSizeBits cfg ≤ 64 :=
  (h.bits_le hp).trans (by decide)

/-- An untyped capability stands above everything that lies in its memory. -/
theorem same_untyped_iff {i : Nat} {n : Nat} (ha : (untyped i dev n p).WF cfg) (hb : b.WF cfg) :
    (untyped i dev n p).sameRegionAs cfg b = true ↔
      b.capIsPhysical = true ∧ b.region cfg ≤ (untyped i dev n p).region cfg := by
  rw [sameRegionAs_untyped, Bool.and_eq_true]
  refine and_congr_right fun hp => ?_
  exact Block.le_iff_words (ha.aligned rfl) (ha.bits_le_64 rfl) (hb.aligned hp) (hb.bits_le_64 hp)

theorem same_frame_iff {asid : Word} {n : PageSize} {addr : Word} {r : VMRights}
    {asid' q : Word} {m : PageSize} {addr' : Word} {r' : VMRights} {dev' : Bool}
    (ha : (frame asid p n addr r dev).WF cfg) (hb : (frame asid' q m addr' r' dev').WF cfg) :
    (frame asid p n addr r dev).sameRegionAs cfg (frame asid' q m addr' r' dev') = true ↔
      (frame asid' q m addr' r' dev').region cfg ≤ (frame asid p n addr r dev).region cfg :=
  Block.le_iff_words (ha.aligned rfl) (ha.bits_le_64 rfl) (hb.aligned rfl) (hb.bits_le_64 rfl)

/-- `sameRegionAs` of physical capabilities is about nested regions. -/
theorem region_le_of_same (ha : a.WF cfg) (hb : b.WF cfg)
    (h : a.sameRegionAs cfg b = true) (hp : a.capIsPhysical = true) :
    b.capIsPhysical = true ∧ b.region cfg ≤ a.region cfg := by
  by_cases he : a.isExact = true
  · have hk := (sameRegionAs_exact he b).mp h
    rw [← physical_eq_of_key hk, region_eq_of_key hk]
    exact ⟨hp, Block.le_refl _⟩
  · cases a with
    | untyped i dev n p => exact (same_untyped_iff ha hb).mp h
    | null | zombie => cases h
    | irqControl => cases hp
    | frame =>
      obtain ⟨_, _, _, _, _, _, rfl⟩ := isFrame_of_same h
      exact ⟨rfl, (same_frame_iff ha hb).mp h⟩
    | _ => exact absurd rfl he

/-- Capabilities without memory are only related to others without memory. -/
theorem physical_of_same (h : a.sameRegionAs cfg b = true)
    (hp : b.capIsPhysical = true) : a.capIsPhysical = true := by
  by_cases he : a.isExact = true
  · rw [physical_eq_of_key ((sameRegionAs_exact he b).mp h)]
    exact hp
  · cases a with
    | untyped | frame => rfl
    | null | zombie => cases h
    | irqControl =>
      rcases (sameRegionAs_irqControl b).mp h with rfl | ⟨i, rfl⟩ <;> cases hp
    | _ => exact absurd rfl he

/-- Only an untyped capability stands above an untyped one. -/
theorem isUntyped_of_same (h : a.sameRegionAs cfg b = true)
    (hb : b.isUntyped = true) : a.isUntyped = true := by
  cases b with
  | untyped i dev n p =>
    by_cases he : a.isExact = true
    · have hk := (sameRegionAs_exact he _).mp h
      have := isExact_key a
      rw [hk, he] at this
      cases this
    · cases a with
      | untyped => rfl
      | null | zombie | irqControl => cases h
      | frame => cases h
      | _ => exact absurd rfl he
  | _ => cases hb

/-- `sameRegionAs` is transitive on well-formed capabilities. -/
theorem sameRegionAs_trans {c : Cap} (ha : a.WF cfg) (hb : b.WF cfg) (hc : c.WF cfg)
    (hab : a.sameRegionAs cfg b = true) (hbc : b.sameRegionAs cfg c = true) :
    a.sameRegionAs cfg c = true := by
  by_cases he : a.isExact = true
  · have hk := (sameRegionAs_exact he b).mp hab
    rw [← sameRegionAs_key, hk, sameRegionAs_key]
    exact hbc
  · cases a with
    | untyped i dev n p =>
      obtain ⟨hbp, hble⟩ := (same_untyped_iff ha hb).mp hab
      obtain ⟨hcp, hcle⟩ := region_le_of_same hb hc hbc hbp
      exact (same_untyped_iff ha hc).mpr ⟨hcp, Block.le_trans hcle hble⟩
    | null | zombie => cases hab
    | irqControl =>
      rw [sameRegionAs_irqControl] at hab ⊢
      rcases hab with rfl | ⟨i, rfl⟩
      · exact (sameRegionAs_irqControl c).mp hbc
      · have hk := (sameRegionAs_exact rfl c).mp hbc
        cases c with
        | irqHandler j => exact .inr ⟨j, rfl⟩
        | _ => cases hk
    | frame =>
      obtain ⟨_, _, _, _, _, _, rfl⟩ := isFrame_of_same hab
      obtain ⟨_, _, _, _, _, _, rfl⟩ := isFrame_of_same hbc
      rw [same_frame_iff ha hc]
      exact Block.le_trans ((same_frame_iff hb hc).mp hbc) ((same_frame_iff ha hb).mp hab)
    | _ => exact absurd rfl he

/-- A capability that can be copied is related to itself. -/
theorem sameRegionAs_refl (ha : a.WF cfg) (hn : a ≠ null) (hz : a.isZombie = false) :
    a.sameRegionAs cfg a = true := by
  by_cases he : a.isExact = true
  · exact (sameRegionAs_exact he a).mpr rfl
  · cases a with
    | untyped i dev n p => exact (same_untyped_iff ha ha).mpr ⟨rfl, Block.le_refl _⟩
    | null => exact absurd rfl hn
    | zombie => cases hz
    | irqControl => rfl
    | frame => exact (same_frame_iff ha ha).mpr (Block.le_refl _)
    | _ => exact absurd rfl he

end SeL4.Object.Cap
