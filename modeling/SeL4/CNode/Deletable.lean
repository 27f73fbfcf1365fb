import Mathlib.Data.Set.Card
import SeL4.CNode.DeleteInv

/-!
# States that deletion works on

`Deletable` collects what deletion relies on without a test: finitely many capabilities, memory and
derivation lists in order, zombies that describe slots of their object, and the two slots that
finalising an object deletes from, `intStateIRQNode` of an interrupt and the reply capability of a
thread.

* Two zombies never overlap, and nothing but an untyped overlaps a zombie
  (`Deletable.zombie_alone`).
* The operations that deletion makes keep it: emptying a slot (`emptySlot`), a zombie in the place of
  the last capability to an object (`zombify`), and moving a zombie to its own first slot (`swap`).
* In such a state `finaliseCap` always works, and leaves nothing or a zombie (`finaliseCap_ok`).
-/

namespace SeL4.Object

open SeL4.Lib SeL4.CSpace CteHeap KState

variable {x y id : Word} {t : Nat}

/-! ## States that deletion works on -/

namespace Cap

/-- The objects that consist of slots. -/
def hasSlots : Cap → Bool
  | cnode .. | thread _ | zombie .. => true
  | _ => false

def isReply : Cap → Bool
  | reply .. => true
  | _ => false

/-- The number of slots of the object that a zombie of this type stands for. -/
def zombieSlots (type : Nat) : Nat := if type = zombieTCB then tcbCNodeEntries else 2 ^ type

theorem physical_of_hasSlots {c : Cap} (h : c.hasSlots = true) : c.capIsPhysical = true := by
  cases c <;> first | rfl | cases h

theorem isUntyped_of_hasSlots {c : Cap} (h : c.hasSlots = true) : c.isUntyped = false := by
  cases c <;> first | rfl | cases h

end Cap

/-- A thread's slot for its reply capability. -/
def replySlot (cfg : KernelConfig) (t : Word) : Word := cteAt (Cap.tcbCTEPtr cfg t) tcbReply

/-- **A state that deletion works on.** There are finitely many capabilities, the derivation lists and the
memory behind capabilities are in order (so that different CNodes, threads and zombies occupy
disjoint ranges of slots), and the number of a zombie is within its object. The next five are about the
two slots that finalising an object deletes from: the slot of an interrupt, which is kernel memory
and holds a notification, and the reply capability of a thread that waits for a reply. Last,
`preemptionPoint` always returns `EXCEPTION_NONE`. -/
structure Deletable (cfg : KernelConfig) (s : KState) : Prop where
  deriv : DerivInv cfg s.cte
  finite : {x | (s.cte x).cap ≠ .null}.Finite
  number : ∀ {x id t}, (s.cte x).cap = .zombie id t → (Cap.zombieNumber id t).toNat ≤ Cap.zombieSlots t
  irq : ∀ {x i}, (s.cte x).cap = .irqHandler i → finalisedAtOnce (s.cte (cteAt cfg.irqNode i)).cap = true
  irq_off : ∀ {x i y}, (s.cte x).cap = .irqHandler i → (s.cte y).cap.hasSlots = true →
    ¬ ((s.cte y).cap.region cfg).Has (cteAt cfg.irqNode i).toNat
  thread : cfg.mcs = false → ∀ {t}, s.replyBlocked t = true → ∃ x, (s.cte x).cap = .thread t
  reply : cfg.mcs = false → ∀ {t}, s.replyBlocked t = true →
    (s.cte (replySlot cfg t)).cap = .null ∨ (s.cte (replySlot cfg t)).cap.isReply = true
  replies : ∀ {x y}, s.cte.links.Next 0 x y → (s.cte x).cap.isReply = true → (s.cte y).cap.isReply = true
  awake : ∀ n, s.preempted n = false

/-- The slots that hold something other than a zombie of an object that starts there. -/
def restless (s : KState) : Set Word :=
  {x | (s.cte x).cap ≠ .null ∧ capCyclicZombie (s.cte x).cap x = false}

variable {cfg : KernelConfig} {s s' : KState}

/-- Only capabilities are lost. -/
theorem restless_of_loses (hl : KState.Loses s s') : restless s' ⊆ restless s := by
  rintro x ⟨hn, hc⟩
  rcases hl x with he | ⟨-, he⟩
  · rw [he] at hn hc
    exact ⟨hn, hc⟩
  · exact absurd he hn

namespace Deletable

variable (hv : Deletable cfg s)
include hv

theorem restless_finite : (restless s).Finite := hv.finite.subset fun _ hx => hx.1

/-- Nothing that has slots overlaps a zombie in another slot. -/
theorem zombie_alone (hx : (s.cte x).cap = .zombie id t)
    (hxy : x ≠ y) (hy : (s.cte y).cap.hasSlots = true) :
    Block.Apart ((s.cte x).cap.region cfg) ((s.cte y).cap.region cfg) := by
  by_contra hmeet
  have hxp : (s.cte x).cap.capIsPhysical = true := by
    rw [hx]
    rfl
  rcases hv.deriv.meets hxy hxp (Cap.physical_of_hasSlots hy) hmeet with h | h
  · rw [Same, hx] at h
    cases h
  · rw [Same, hx] at h
    have := Cap.isUntyped_of_same_zombie h
    rw [Cap.isUntyped_of_hasSlots hy] at this
    cases this

/-- A slot inside the object of a zombie is not the first slot of another object. -/
theorem zombie_unique {x y z : Word} (hx : (s.cte x).cap = .zombie id t)
    (hxy : x ≠ y) (hy : (s.cte y).cap.hasSlots = true) (hz : ((s.cte x).cap.region cfg).Has z.toNat) :
    ((s.cte y).cap.region cfg).base ≠ z.toNat := by
  intro he
  refine Block.not_apart_of_has hz ⟨he.le, ?_⟩ (hv.zombie_alone hx hxy hy)
  rw [← he]
  exact Block.base_lt_top _

end Deletable

/-- The slots of an object lie in its memory. -/
theorem slot_has {ptr i : Word} {n : Nat} (htop : ptr.toNat + 2 ^ n ≤ 2 ^ 64)
    (hi : i.toNat * 2 ^ slotBits < 2 ^ n) :
    Block.Has ⟨ptr.toNat, n⟩ (cteAt ptr i).toNat ∧
      (cteAt ptr i).toNat = ptr.toNat + i.toNat * 2 ^ slotBits := by
  have haddr := toNat_cteAt_of_lt (p := ptr) (i := i) (by omega)
  refine ⟨⟨?_, ?_⟩, haddr⟩
  · rw [haddr]
    exact Nat.le_add_right _ _
  · rw [haddr]
    exact Nat.add_lt_add_left hi _

/-- The slots of a zombie lie in its memory. -/
theorem Cap.zombie_has (hwf : (Cap.zombie id t).WF cfg) {i : Word} (hi : i.toNat < zombieSlots t) :
    ((Cap.zombie id t).region cfg).Has (cteAt (zombiePtr id t) i).toNat ∧
      (cteAt (zombiePtr id t) i).toNat = (zombiePtr id t).toNat + i.toNat * 2 ^ slotBits := by
  have hbits : ((Cap.zombie id t).region cfg).bits ≤ 47 := hwf.bits_le rfl
  have hal : Block.Aligned ((Cap.zombie id t).region cfg) := hwf.aligned rfl
  have htop : (zombiePtr id t).toNat + 2 ^ ((Cap.zombie id t).region cfg).bits ≤ 2 ^ 64 :=
    Block.top_le_of_aligned hal (by omega)
  have hsize : i.toNat * 2 ^ slotBits + 2 ^ slotBits ≤ 2 ^ ((Cap.zombie id t).region cfg).bits := by
    have hslot : i.toNat * 2 ^ slotBits + 2 ^ slotBits = (i.toNat + 1) * 2 ^ slotBits := by ring
    rw [hslot, Cap.region_zombie]
    unfold zombieSlots at hi
    split_ifs at hi ⊢ with ht
    · have h5 : tcbCNodeEntries = 5 := rfl
      calc (i.toNat + 1) * 2 ^ slotBits ≤ 2 ^ 6 * 2 ^ slotBits :=
            Nat.mul_le_mul_right _ (by omega)
        _ = 2 ^ 11 := rfl
        _ ≤ 2 ^ cfg.tcbBits := Nat.pow_le_pow_right (by decide)
            (by rcases cfg.tcbBits_cases with h | h <;> omega)
    · have hlt : t < 2 ^ wordRadix := ((hwf.zombie rfl).1.resolve_left ht).2
      rw [Nat.mod_eq_of_lt hlt, Nat.pow_add]
      exact Nat.mul_le_mul_right _ hi
  exact slot_has htop ((Nat.lt_add_of_pos_right (Nat.two_pow_pos slotBits)).trans_le hsize)

/-- A thread's reply slot lies in its memory. -/
theorem Cap.replySlot_has {t : Word} (hwf : (Cap.thread t).WF cfg) :
    ((Cap.thread t).region cfg).Has (replySlot cfg t).toNat := by
  have htcb := cfg.tcbBits_cases
  have htop : (tcbCTEPtr cfg t).toNat + 2 ^ cfg.tcbBits ≤ 2 ^ 64 :=
    Block.top_le_of_aligned (hwf.aligned rfl) (by omega)
  have hpow : 2 ^ 11 ≤ 2 ^ cfg.tcbBits := Nat.pow_le_pow_right (by decide) (by omega)
  have h64 : tcbReply.toNat * 2 ^ slotBits < 2 ^ 11 := by decide
  exact (slot_has htop (h64.trans_le hpow)).1

/-! ## Operations on slots -/

variable {c : Cap}

section

variable (h : c.hasSlots = true)
include h

theorem Cap.ne_null_of_hasSlots : c ≠ .null := by
  rintro rfl
  cases h

theorem Cap.isReply_of_hasSlots : c.isReply = false := by
  cases c <;> first | rfl | cases h

theorem Cap.finalisedAtOnce_of_hasSlots : finalisedAtOnce c = false := by
  cases c <;> first | rfl | cases h

end

theorem Cap.eq_thread_of_key {t : Word} (h : c.key = (Cap.thread t).key) : c = .thread t := by
  cases c with
  | thread => exact h
  | _ => cases h

/-- If the slot holds a capability to a thread, then so does another one. -/
def KState.CanEmpty (slot : Word) (s : KState) : Prop :=
  ∀ t, (s.cte slot).cap = .thread t → ∃ x, x ≠ slot ∧ (s.cte x).cap = .thread t

theorem KState.cap_capSwapForDelete (s : KState) (a b x : Word) :
    ((s.capSwapForDelete a b).cte x).cap = (s.cte (Equiv.swap a b x)).cap := by
  unfold capSwapForDelete
  split_ifs with hab
  · rw [hab, Equiv.swap_self]
    rfl
  · refine (cap_cteSwap s.cte (s.cap a) (s.cap b) a b x).trans ?_
    rw [Equiv.swap_apply_def]
    split_ifs with h1 h2 h3
    · exact absurd (h2.symm.trans h1) hab
    · rfl
    · rfl
    · rfl

namespace Deletable

/-- States with the same slots, in which no further thread waits for a reply. -/
theorem of_cte (hv : Deletable cfg s) (hc : s'.cte = s.cte) (hp : s'.preempted = s.preempted)
    (hr : ∀ t, s'.replyBlocked t = true → s.replyBlocked t = true) : Deletable cfg s' where
  deriv := hc ▸ hv.deriv
  finite := hc ▸ hv.finite
  number := hc ▸ hv.number
  irq := hc ▸ hv.irq
  irq_off := hc ▸ hv.irq_off
  thread hm t ht := hc ▸ hv.thread hm (hr t ht)
  reply hm t ht := hc ▸ hv.reply hm (hr t ht)
  replies := hc ▸ hv.replies
  awake := hp ▸ hv.awake

variable (hv : Deletable cfg s)
include hv

variable {slot : Word}

/-- The slot of an interrupt does not hold anything with slots. -/
theorem irq_ne {x i : Word} (hx : (s.cte x).cap = .irqHandler i)
    (hs : (s.cte slot).cap.hasSlots = true) : cteAt cfg.irqNode i ≠ slot := by
  rintro rfl
  have := hv.irq hx
  rw [Cap.finalisedAtOnce_of_hasSlots hs] at this
  cases this

/-- The reply slot of a waiting thread does not hold anything with slots. -/
theorem reply_ne (hm : cfg.mcs = false) {t : Word} (ht : s.replyBlocked t = true)
    (hs : (s.cte slot).cap.hasSlots = true) : replySlot cfg t ≠ slot := by
  rintro rfl
  rcases hv.reply hm ht with h | h
  · exact Cap.ne_null_of_hasSlots hs h
  · rw [Cap.isReply_of_hasSlots hs] at h
    cases h

theorem next_emptySlot (hn : (s.cte slot).cap ≠ .null) (h : (s.cte.emptySlot slot).links.Next 0 x y) :
    x ≠ slot ∧ y ≠ slot ∧ (s.cte.links.Next 0 x y ∨
      s.cte.links.Next 0 x slot ∧ s.cte.links.Next 0 slot y) := by
  obtain ⟨LL, hm⟩ := hv.deriv.lists
  rw [links_emptySlot _ hn] at h
  exact (hm.lists.next_unlink (hm.mem hn) x y).mp h

theorem emptySlot {cleanupInfo : Cap} (he : s.CanEmpty slot) :
    Deletable cfg (s.emptySlot slot cleanupInfo) := by
  by_cases hn : (s.cap slot).isNull = true
  · rw [KState.emptySlot, if_pos hn]
    exact hv
  have hne : (s.cte slot).cap ≠ .null := fun h => hn (Cap.isNull_iff.mpr h)
  obtain ⟨hcte, -, hblock, hawake⟩ := s.emptySlot_frame slot cleanupInfo
  have hcap := s.cte_emptySlot slot cleanupInfo
  -- what is left was there before
  have hold : ∀ {x c}, ((s.emptySlot slot cleanupInfo).cte x).cap = c → c ≠ .null →
      (s.cte x).cap = c := by
    intro x c hx hc
    rw [hcap] at hx
    split_ifs at hx
    · exact absurd hx.symm hc
    · exact hx
  have hnull : ∀ {x}, (s.cte x).cap = .null →
      ((s.emptySlot slot cleanupInfo).cte x).cap = .null := by
    intro x hx
    rw [hcap, hx, ite_self]
  constructor
  · exact hcte ▸ hv.deriv.emptySlot slot
  · refine hv.finite.subset fun x hx h => hx (hnull h)
  · exact fun hx => hv.number (hold hx (by simp))
  · intro x i hx
    rw [hcap]
    split_ifs
    · rfl
    · exact hv.irq (hold hx (by simp))
  · intro x i y hx hy
    rw [hcap] at hy ⊢
    split_ifs at hy ⊢
    · cases hy
    · exact hv.irq_off (hold hx (by simp)) hy
  · intro hm t ht
    rw [hblock] at ht
    obtain ⟨x, hx⟩ := hv.thread hm ht
    by_cases hxs : x = slot
    · obtain ⟨y, hys, hy⟩ := he t (hxs ▸ hx)
      exact ⟨y, by rw [hcap, if_neg hys, hy]⟩
    · exact ⟨x, by rw [hcap, if_neg hxs, hx]⟩
  · intro hm t ht
    rw [hblock] at ht
    rw [hcap]
    split_ifs
    · exact .inl rfl
    · exact hv.reply hm ht
  · intro x y hxy hx
    rw [hcte] at hxy
    obtain ⟨hxs, hys, hor⟩ := hv.next_emptySlot hne hxy
    rw [hcap, if_neg hxs] at hx
    rw [hcap, if_neg hys]
    rcases hor with h | ⟨h1, h2⟩
    · exact hv.replies h hx
    · exact hv.replies h2 (hv.replies h1 hx)
  · exact hawake ▸ hv.awake

section

variable (hs : (s.cte slot).cap.hasSlots = true)
  (hreg : (Cap.zombie id t).region cfg = (s.cte slot).cap.region cfg)
  (hnum : (Cap.zombieNumber id t).toNat ≤ Cap.zombieSlots t)
  (hthread : ∀ p, (s.cte slot).cap = .thread p → s.replyBlocked p = false)
include hs hreg hnum hthread

/-- A zombie takes the place of what has the same memory. -/
theorem setZombie (hd : DerivInv cfg (s.setCap slot (.zombie id t)).cte) :
    Deletable cfg (s.setCap slot (.zombie id t)) := by
  have hcap := s.cte_setCap slot (.zombie id t)
  have hold : ∀ {x i}, ((s.setCap slot (.zombie id t)).cte x).cap = .irqHandler i →
      (s.cte x).cap = .irqHandler i := by
    intro x i hx
    rw [hcap] at hx
    split_ifs at hx
    exact hx
  constructor
  · exact hd
  · refine hv.finite.subset fun x hx h => hx ?_
    rw [hcap, if_neg, h]
    rintro rfl
    exact Cap.ne_null_of_hasSlots hs h
  · intro x id' t' hx
    rw [hcap] at hx
    split_ifs at hx
    · cases hx
      exact hnum
    · exact hv.number hx
  · intro x i hx
    rw [hcap, if_neg (hv.irq_ne (hold hx) hs)]
    exact hv.irq (hold hx)
  · intro x i y hx hy
    rw [hcap] at hy ⊢
    split_ifs at hy ⊢ with hys
    · rw [hreg]
      exact hv.irq_off (hold hx) hs
    · exact hv.irq_off (hold hx) hy
  · intro hm p hp
    obtain ⟨x, hx⟩ := hv.thread hm hp
    refine ⟨x, ?_⟩
    rw [hcap, if_neg, hx]
    rintro rfl
    exact absurd hp (ne_true_of_eq_false (hthread p hx))
  · intro hm p hp
    rw [hcap, if_neg (hv.reply_ne hm hp hs)]
    exact hv.reply hm hp
  · intro x y hxy hx
    rw [links_setCap] at hxy
    have hxs : x ≠ slot := by
      rintro rfl
      rw [hcap, if_pos rfl] at hx
      cases hx
    rw [hcap, if_neg hxs] at hx
    have hy := hv.replies hxy hx
    have hys : y ≠ slot := by
      rintro rfl
      rw [Cap.isReply_of_hasSlots hs] at hy
      cases hy
    rw [hcap, if_neg hys]
    exact hy
  · exact hv.awake

/-- The last capability to a CNode or thread becomes a zombie. -/
theorem zombify (he : (s.cte slot).cap.isExact = true)
    (hsole : ∀ x ≠ slot, (s.cte x).cap.key ≠ (s.cte slot).cap.key) (hw : (Cap.zombie id t).WF cfg) :
    Deletable cfg (s.setCap slot (.zombie id t)) := by
  have hz := zombified_setCap hw he (Cap.physical_of_hasSlots hs) hsole hreg
  exact hv.setZombie hs hreg hnum hthread (hv.deriv.zombify (s.links_setCap slot _) hz)

end

/-- A zombie goes to the first slot of its object, and what was there takes its place. -/
theorem swap (hz : (s.cte slot).cap = .zombie id t) (hne : Cap.zombiePtr id t ≠ slot) :
    Deletable cfg (s.capSwapForDelete (Cap.zombiePtr id t) slot) := by
  obtain ⟨LL, hmdb⟩ := hv.deriv.lists
  have hslots : (s.cte slot).cap.hasSlots = true := by
    rw [hz]
    rfl
  have hwf := hv.deriv.wf slot
  rw [hz] at hwf
  have hp0 := (hwf.zombie rfl).2
  have hs0 := hmdb.ne_zero (Cap.ne_null_of_hasSlots hslots)
  have hhas : ((s.cte slot).cap.region cfg).Has (Cap.zombiePtr id t).toNat := by
    rw [hz]
    exact ⟨le_rfl, Block.base_lt_top ((Cap.zombie id t).region cfg)⟩
  revert hne hp0 hhas
  generalize Cap.zombiePtr id t = ptr
  intro hne hp0 hhas
  have hcap : ∀ x, ((s.capSwapForDelete ptr slot).cte x).cap =
      (s.cte (Equiv.swap ptr slot x)).cap := s.cap_capSwapForDelete ptr slot
  have hoff : ∀ {x}, x ≠ ptr → x ≠ slot →
      ((s.capSwapForDelete ptr slot).cte x).cap = (s.cte x).cap := by
    intro x h1 h2
    rw [hcap, Equiv.swap_apply_of_ne_of_ne h1 h2]
  have hstate : s.capSwapForDelete ptr slot = s.cteSwap (s.cap ptr) ptr (s.cap slot) slot := by
    rw [KState.capSwapForDelete, if_neg hne]
  constructor
  · rw [hstate]
    exact hv.deriv.cteSwap hne hp0 hs0 rfl rfl (hv.deriv.wf _) (hv.deriv.wf _) (fun _ => rfl) fun _ => rfl
  · refine ((hv.finite.insert slot).insert ptr).subset fun x hx => ?_
    by_contra hnot
    simp only [Set.mem_insert_iff, not_or] at hnot
    obtain ⟨h1, h2, h3⟩ := hnot
    exact h3 fun h => hx ((hoff h1 h2).trans h)
  · intro x id' t' hx
    rw [hcap] at hx
    exact hv.number hx
  · intro x i hx
    rw [hcap] at hx
    rw [hoff _ (hv.irq_ne hx hslots)]
    · exact hv.irq hx
    · rintro h
      exact hv.irq_off hx hslots (h ▸ hhas)
  · intro x i y hx hy
    rw [hcap] at hx hy ⊢
    exact hv.irq_off hx hy
  · intro hm p hp
    have hp' : s.replyBlocked p = true := by
      rw [hstate] at hp
      exact hp
    obtain ⟨x, hx⟩ := hv.thread hm hp'
    refine ⟨Equiv.swap ptr slot x, ?_⟩
    rw [hcap, Equiv.swap_apply_self, hx]
  · intro hm p hp
    have hp' : s.replyBlocked p = true := by
      rw [hstate] at hp
      exact hp
    rw [hoff _ (hv.reply_ne hm hp' hslots)]
    · exact hv.reply hm hp'
    · -- the first slot of the zombie is not a slot of a thread that exists
      rintro h
      obtain ⟨x, hx⟩ := hv.thread hm hp'
      have hxw := hv.deriv.wf x
      rw [hx] at hxw
      have hxslots : (s.cte x).cap.hasSlots = true := by
        rw [hx]
        rfl
      have hxne : slot ≠ x := by
        rintro rfl
        rw [hz] at hx
        cases hx
      refine Block.not_apart_of_has hhas ?_ (hv.zombie_alone hz hxne hxslots)
      rw [hx, ← h]
      exact Cap.replySlot_has hxw
  · intro x y hxy hx
    have hlinks : (s.capSwapForDelete ptr slot).cte.links =
        s.cte.links.rename (Equiv.swap ptr slot) := by
      rw [hstate]
      exact (links_cteSwap _ _ _ _ _).trans (hmdb.lists.exchange_eq hne hp0 hs0)
    rw [hlinks, Links.next_rename _ (Equiv.swap_apply_of_ne_of_ne hp0.symm hs0.symm),
      Equiv.symm_swap] at hxy
    rw [hcap] at hx ⊢
    exact hv.replies hxy hx
  · rw [hstate]
    exact hv.awake

end Deletable

/-! ## Finalising a capability -/

namespace KState

variable {slot : Word}

theorem cteDeleteOne_ok (hf : finalisedAtOnce (s.cte slot).cap = true) :
    s.cteDeleteOne slot = .ok (s.emptySlot slot .null) := by
  unfold cteDeleteOne
  split_ifs with hn
  · rw [emptySlot, if_pos hn]
  · have hret : finaliseCapExposed (s.cap slot) = .ok .done := if_pos hf
    rw [hret]
    rfl

theorem canEmpty_of_finalisedAtOnce (hf : finalisedAtOnce (s.cte slot).cap = true) : s.CanEmpty slot := by
  intro t ht
  rw [ht] at hf
  cases hf

theorem isZombie_of_finalisedAtOnce (hf : finalisedAtOnce c = true) : c.isZombie = false := by
  cases c <;> first | rfl | cases hf

theorem ne_null_of_not_finalisedAtOnce (hf : ¬ finalisedAtOnce c = true) : c ≠ .null := by
  rintro rfl
  exact hf rfl

/-- The capability behind the reply capability of a waiting thread is one to reply, too. -/
theorem cancelIPC_ok (hv : Deletable cfg s) (t : Word) :
    ∃ s', s.cancelIPC cfg t = .ok s' ∧ Deletable cfg s' ∧ Loses s s' := by
  unfold cancelIPC
  dsimp only
  split_ifs with hc
  · simp only [Bool.and_eq_true, Bool.not_eq_true', bne_iff_ne] at hc
    obtain ⟨⟨hm, ht⟩, h0⟩ := hc
    obtain ⟨LL, hmdb⟩ := hv.deriv.lists
    have hreply : (s.cte (replySlot cfg t)).cap.isReply = true := by
      refine (hv.reply hm ht).resolve_left fun hn => h0 ?_
      exact (hmdb.links_of_null hn).1
    have hnext := hv.replies ⟨rfl, h0⟩ hreply
    have hf : finalisedAtOnce (s.cte (s.cte (replySlot cfg t)).cteMDBNode.mdbNext).cap = true := by
      revert hnext
      show Cap.isReply (s.cte (s.cte (replySlot cfg t)).cteMDBNode.mdbNext).cap = true → _
      cases (s.cte (s.cte (replySlot cfg t)).cteMDBNode.mdbNext).cap with
      | reply => exact fun _ => rfl
      | _ => exact nofun
    exact ⟨_, cteDeleteOne_ok hf, hv.emptySlot (canEmpty_of_finalisedAtOnce hf), loses_emptySlot hf⟩
  · exact ⟨s, rfl, hv, .refl s⟩

theorem suspend_ok (hv : Deletable cfg s) (t : Word) :
    ∃ s', s.suspend cfg t = .ok s' ∧ Deletable cfg s' ∧ Loses s s' ∧ s'.replyBlocked t = false := by
  obtain ⟨s1, h1, hv1, hl⟩ := cancelIPC_ok hv t
  refine ⟨{ s1 with replyBlocked := Function.update s1.replyBlocked t false }, ?_, ?_, hl, ?_⟩
  · unfold suspend
    rw [h1, ok_bind]
  · refine hv1.of_cte rfl rfl fun x hx => ?_
    dsimp only at hx
    rw [Function.update_apply] at hx
    split_ifs at hx
    exact hx
  · exact Function.update_self ..

/-- What finalising leaves in the slot: a zombie that was there, or the zombie of an object that has
lost its last capability. -/
structure Remains (cfg : KernelConfig) (slot id : Word) (t : Nat) (s s' : KState) : Prop where
  deletable : Deletable cfg (s'.setCap slot (.zombie id t))
  loses : Loses s s'
  kept : (s'.cte slot).cap = (s.cte slot).cap
  ne_null : (s.cte slot).cap ≠ .null
  zombie : (s.cte slot).cap = .zombie id t ∧ s' = s ∨
    (s.cte slot).cap.isZombie = false ∧ 2 ≤ (Cap.zombieNumber id t).toNat

/-- The outcomes of finalising the capability of a slot: the slot can be emptied, or a zombie takes
it. -/
def Finalised (cfg : KernelConfig) (slot : Word) (fc : FinaliseCapRet) (s s' : KState) : Prop :=
  fc.remainder = .null ∧ (s.cte slot).cap.isZombie = false ∧ Deletable cfg s' ∧ Loses s s' ∧
      s'.CanEmpty slot ∨
    ∃ id t, fc.remainder = .zombie id t ∧ Remains cfg slot id t s s'

/-- **Finalising a capability always works.** -/
theorem finaliseCap_ok (hv : Deletable cfg s) (slot : Word) :
    ∃ fc s', s.finaliseCap cfg (s.cap slot) (s.cte.isFinalCapability cfg slot) = .ok (fc, s') ∧
      Finalised cfg slot fc s s' := by
  have hcs : (s.cte slot).cap = s.cap slot := rfl
  have hwf := hv.deriv.wf slot
  unfold finaliseCap
  split
  · rename_i hf
    exact ⟨_, s, rfl, .inl ⟨rfl, isZombie_of_finalisedAtOnce hf, hv, .refl s,
      canEmpty_of_finalisedAtOnce hf⟩⟩
  rename_i hf
  -- the capability goes, and it is not to a thread
  have hdone : (∀ t, s.cap slot ≠ .thread t) → (s.cap slot).isZombie = false → ∃ fc s',
      (.ok (.done, s) : Checked (FinaliseCapRet × KState)) = .ok (fc, s') ∧
        Finalised cfg slot fc s s' := fun hth hz =>
    ⟨_, s, rfl, .inl ⟨rfl, hz, hv, .refl s, fun t ht => absurd ht (hth t)⟩⟩
  have hrem : ∀ {id t}, 2 ≤ (Cap.zombieNumber id t).toNat → ∀ {s'}, Loses s s' →
      (s.cte slot).cap.isZombie = false → Deletable cfg (s'.setCap slot (.zombie id t)) →
      ∃ fc s'', (.ok (⟨.zombie id t, .null⟩, s') : Checked (FinaliseCapRet × KState)) =
        .ok (fc, s'') ∧ Finalised cfg slot fc s s'' := fun h2 _ hl hz hd =>
    ⟨_, _, rfl, .inr ⟨_, _, rfl, hd, hl, hl.keeps (Bool.eq_false_of_not_eq_true hf),
      ne_null_of_not_finalisedAtOnce hf, .inr ⟨hz, h2⟩⟩⟩
  cases hc : s.cap slot with
  | cnode r g gd p =>
    rw [hcs, hc] at hwf
    dsimp only
    split_ifs with hfin
    · obtain ⟨id, hz, hp, hn⟩ := Cap.zombieNew_cnode hwf
      obtain ⟨hr, hzw⟩ := Cap.zombie_cnode hwf hp
      obtain ⟨h1, hbits, -⟩ := hwf.cnode_radix
      have hcap : (s.cte slot).cap = .cnode r g gd p := hc
      have hnum : (Cap.zombieNumber id r).toNat = 2 ^ r := by
        rw [hn, toNat_bit (by have : r + 5 ≤ 47 := hbits; omega)]
      rw [hz]
      have he : (s.cte slot).cap.isExact = true := by rw [hcap]; rfl
      refine hrem ?_ (Loses.refl s) (by rw [hcap]; rfl) (hv.zombify (by rw [hcap]; rfl) (by rw [hcap, hr]) ?_
        (fun t h => (nomatch hcap.symm.trans h)) he ((hv.deriv.isFinalCapability_iff_key he).mp hfin) hzw)
      · rw [hnum]
        exact Nat.pow_le_pow_right (n := 2) (by decide) h1
      · have hne : r ≠ Cap.zombieTCB := by
          have : r + 5 ≤ 47 := hbits
          have : Cap.zombieTCB = 64 := rfl
          omega
        rw [hnum, Cap.zombieSlots, if_neg hne]
    · exact hdone (fun t h => (nomatch hc.symm.trans h)) (by rw [hc]; rfl)
  | thread p =>
    have hcap : (s.cte slot).cap = .thread p := hc
    have he : (s.cte slot).cap.isExact = true := by rw [hcap]; rfl
    dsimp only
    split_ifs with hfin
    · have hsole := (hv.deriv.isFinalCapability_iff_key he).mp hfin
      obtain ⟨s1, h1, hv1, hl, hawake⟩ := suspend_ok hv p
      have hkeep : (s1.cte slot).cap = .thread p := hl.keeps_eq hcap rfl
      rw [hcap] at hwf hsole
      obtain ⟨id, hz, hp, hn⟩ := Cap.zombieNew_thread hwf
      obtain ⟨hr, hzw⟩ := Cap.zombie_thread hwf hp
      rw [h1, hz]
      refine hrem ?_ hl (by rw [hcap]; rfl) (hv1.zombify (by rw [hkeep]; rfl) (by rw [hkeep, hr]) ?_ ?_
        (by rw [hkeep]; rfl) ?_ hzw)
      · rw [hn]
        decide
      · rw [hn]
        decide
      · intro p' hp'
        cases hkeep.symm.trans hp'
        exact hawake
      · rw [hkeep]
        exact hl.sole hsole nofun
    · -- another slot holds the thread
      refine ⟨_, s, rfl, .inl ⟨rfl, by rw [hcap]; rfl, hv, .refl s, fun t ht => ?_⟩⟩
      rw [hv.deriv.isFinalCapability_iff_key he] at hfin
      push Not at hfin
      obtain ⟨x, hx, hk⟩ := hfin
      rw [ht] at hk
      exact ⟨x, hx, Cap.eq_thread_of_key hk⟩
  | zombie id t =>
    have hcap : (s.cte slot).cap = .zombie id t := hc
    refine ⟨_, s, rfl, .inr ⟨id, t, rfl, ?_, .refl s, rfl,
      ne_null_of_not_finalisedAtOnce hf, .inl ⟨hcap, rfl⟩⟩⟩
    rw [setCap_self hcap]
    exact hv
  | irqHandler irq =>
    have hcap : (s.cte slot).cap = .irqHandler irq := hc
    dsimp only
    split_ifs with hfin
    · have hf := hv.irq hcap
      have hl := loses_emptySlot hf
      have hdel : s.deletingIRQHandler cfg irq = .ok _ := cteDeleteOne_ok hf
      rw [hdel]
      refine ⟨_, _, rfl, .inl ⟨rfl, by rw [hcap]; rfl,
        hv.emptySlot (canEmpty_of_finalisedAtOnce hf), hl, ?_⟩⟩
      intro t ht
      cases (hl.keeps_eq hcap rfl).symm.trans ht
    · exact hdone (fun t h => (nomatch hc.symm.trans h)) (by rw [hc]; rfl)
  | _ => exact hdone (fun t h => (nomatch hc.symm.trans h)) (by rw [hc]; rfl)

end KState

end SeL4.Object
