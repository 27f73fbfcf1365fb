import SeL4.CNode.Deletable
import SeL4.CNode.System
import Mathlib.Order.CompletePartialOrder

/-!
# Deletion terminates

`cteDelete` with `exposed` set empties a slot whatever is in it: CNodes that hold capabilities to
themselves or to each other, and zombies of objects that are half deleted (`cteDelete_terminates`).

Why it ends. Call a slot restless if it holds a capability that is not a zombie of an object
starting at that very slot. No step of a deletion makes a slot restless. The calls with `exposed`
clear do not call each other: each round of their loop moves a zombie to the first slot of its own
object, which leaves one restless slot less (`restless_swap`). A round of the loop with `exposed` set
ends with an empty slot, or with the zombie one slot shorter, or the zombie was exchanged for another
one on the way, and then there is one restless slot less (`reduceZombie_exposed`).

Why no assertion fails. Nothing with slots overlaps a zombie. So there is no zombie at the first slot
of an object that already has one elsewhere, and the last slot of a zombie is empty after its
deletion, if the zombie is still there.
-/

namespace SeL4.Object

open SeL4.Lib SeL4.CSpace CteHeap KState

variable {cfg : KernelConfig} {s s' : KState}

namespace KState

/-! ## One round -/

theorem preemptionPoint_eq (hv : Deletable cfg s) : s.preemptionPoint = (.none, s) := by
  have hp : (fun n => s.preempted (n + 1)) = s.preempted := by
    funext n
    rw [hv.awake, hv.awake]
  unfold preemptionPoint
  rw [hp, hv.awake 0]
  rfl

variable {slot : Word}

theorem finaliseSlot_null (imm : Bool) (h : (s.cte slot).cap = .null) :
    Returns (fun fuel => finaliseSlot cfg fuel slot imm s) (⟨.none, true, .null⟩, s) := by
  refine .leaf fun fuel => ?_
  have hn : (s.cap slot).isNull = true := Cap.isNull_iff.mpr h
  rw [finaliseSlot, if_pos hn]

section Round

variable {imm : Bool} {fc : FinaliseCapRet} {s1 s2 : KState}
  (hn : (s.cte slot).cap ≠ .null)
  (hfc : s.finaliseCap cfg (s.cap slot) (s.cte.isFinalCapability cfg slot) = .ok (fc, s1))
include hn hfc

/-- The loop ends where nothing is left to reduce. -/
theorem finaliseSlot_removable (hr : capRemovable fc.remainder slot = .ok true) :
    Returns (fun fuel => finaliseSlot cfg fuel slot imm s) (⟨.none, true, fc.cleanupInfo⟩, s1) := by
  refine .leaf fun fuel => ?_
  have hn' : ¬ (s.cap slot).isNull = true := fun h => hn (Cap.isNull_iff.mp h)
  rw [finaliseSlot, if_neg hn']
  dsimp only
  rw [hfc, ok_bind, hr]
  rfl

/-- With `immediate` clear it also ends at a zombie that has reached its own first slot. -/
theorem finaliseSlot_cyclic (hr : capRemovable fc.remainder slot = .ok false)
    (hc : capCyclicZombie fc.remainder slot = true) :
    Returns (fun fuel => finaliseSlot cfg fuel slot false s)
      (⟨.none, false, fc.cleanupInfo⟩, s1.setCap slot fc.remainder) := by
  refine .leaf fun fuel => ?_
  have hn' : ¬ (s.cap slot).isNull = true := fun h => hn (Cap.isNull_iff.mp h)
  rw [finaliseSlot, if_neg hn']
  dsimp only
  rw [hfc, ok_bind, hr, hc]
  rfl

/-- Otherwise the zombie is reduced, and the loop goes on. -/
theorem finaliseSlot_loop (hr : capRemovable fc.remainder slot = .ok false)
    (hc : (!imm && capCyclicZombie fc.remainder slot) = false) (hv2 : Deletable cfg s2)
    {r : FinaliseSlotRet × KState}
    (hred : Returns (fun fuel => reduceZombie cfg fuel slot imm (s1.setCap slot fc.remainder))
      (.none, s2)) (hloop : Returns (fun fuel => finaliseSlot cfg fuel slot imm s2) r) :
    Returns (fun fuel => finaliseSlot cfg fuel slot imm s) r := by
  refine .call2 hred hloop fun fuel h1 h2 => ?_
  have hn' : ¬ (s.cap slot).isNull = true := fun h => hn (Cap.isNull_iff.mp h)
  rw [finaliseSlot, if_neg hn']
  dsimp only at h1 h2 ⊢
  rw [hfc, ok_bind, hr, ok_bind]
  rw [hc, h1, ok_bind, preemptionPoint_eq hv2]
  exact h2

end Round

variable {t : Nat} {id : Word}

/-- The restless slots do not change if a zombie takes the place of what has slots, and a zombie
keeps its address. -/
theorem restless_setZombie (hn : (s.cte slot).cap ≠ .null)
    (hz : capCyclicZombie (s.cte slot).cap slot = true → capCyclicZombie (.zombie id t) slot = true) :
    restless (s.setCap slot (.zombie id t)) ⊆ restless s := by
  rintro x ⟨hxn, hxc⟩
  rw [cte_setCap] at hxn hxc
  split_ifs at hxn hxc with hx
  · subst hx
    refine ⟨hn, ?_⟩
    by_contra hcyc
    rw [hz (by simpa using hcyc)] at hxc
    cases hxc
  · exact ⟨hxn, hxc⟩

/-- Inside the object of a zombie there is no other zombie at its own first slot. -/
theorem not_cyclic_inside (hv : Deletable cfg s) {x z : Word}
    (hx : (s.cte x).cap = .zombie id t) (hxz : x ≠ z)
    (hz : ((s.cte x).cap.region cfg).Has z.toNat) : capCyclicZombie (s.cte z).cap z = false := by
  cases hc : (s.cte z).cap with
  | zombie id' t' =>
    have hslots : (s.cte z).cap.hasSlots = true := by
      rw [hc]
      rfl
    have hne := hv.zombie_unique hx hxz hslots hz
    rw [hc] at hne
    refine beq_eq_false_iff_ne.mpr fun he => hne ?_
    exact congrArg BitVec.toNat he
  | _ => rfl

theorem zombie_has_ptr : ((Cap.zombie id t).region cfg).Has (Cap.zombiePtr id t).toNat :=
  ⟨le_rfl, Block.base_lt_top ((Cap.zombie id t).region cfg)⟩

/-- Moving a zombie to its own first slot leaves fewer restless slots. -/
theorem restless_swap (hv : Deletable cfg s)
    (hz : (s.cte slot).cap = .zombie id t) (hne : Cap.zombiePtr id t ≠ slot) :
    restless (s.capSwapForDelete (Cap.zombiePtr id t) slot) ⊂ restless s := by
  have hcap := s.cap_capSwapForDelete (Cap.zombiePtr id t) slot
  have hslot : slot ∈ restless s := by
    refine ⟨?_, ?_⟩ <;> rw [hz]
    · exact nofun
    · exact beq_eq_false_iff_ne.mpr hne
  -- the zombie rests at its first slot
  have hptr : Cap.zombiePtr id t ∉ restless (s.capSwapForDelete (Cap.zombiePtr id t) slot) := by
    rintro ⟨-, hc⟩
    rw [hcap, Equiv.swap_apply_left, hz] at hc
    exact beq_eq_false_iff_ne.mp hc rfl
  refine ⟨?_, fun hsub => ?_⟩
  · intro x hx
    by_cases hxp : x = Cap.zombiePtr id t
    · exact absurd (hxp ▸ hx) hptr
    · by_cases hxs : x = slot
      · rw [hxs]
        exact hslot
      · obtain ⟨hn, hc⟩ := hx
        rw [hcap, Equiv.swap_apply_of_ne_of_ne hxp hxs] at hn hc
        exact ⟨hn, hc⟩
  · by_cases hnull : (s.cte (Cap.zombiePtr id t)).cap = .null
    · obtain ⟨hn, -⟩ := hsub hslot
      rw [hcap, Equiv.swap_apply_right] at hn
      exact hn hnull
    · have hno := not_cyclic_inside hv hz hne.symm (hz ▸ zombie_has_ptr)
      exact hptr (hsub ⟨hnull, hno⟩)

/-- What a deletion with `exposed` clear has done to the other slots: a zombie is where it was, or
it was exchanged for one that starts there. -/
structure Progress (cfg : KernelConfig) (slot : Word) (s s' : KState) : Prop where
  deletable : Deletable cfg s'
  subset : restless s' ⊆ restless s
  others : ∀ {x id t}, x ≠ slot → (s.cte x).cap = .zombie id t →
    (s'.cte x).cap = .zombie id t ∨
      capCyclicZombie (s'.cte x).cap x = true ∧ Cap.zombiePtr id t ≠ x ∧ restless s' ⊂ restless s
  moved : ∀ {id t}, (s.cte slot).cap = .zombie id t → capRemovable (.zombie id t) slot = .ok false →
    capCyclicZombie (.zombie id t) slot = false → restless s' ⊂ restless s

theorem Progress.emptySlot (hp : Progress cfg slot s s') (he : s'.CanEmpty slot)
    (c : Cap) : Progress cfg slot s (s'.emptySlot slot c) := by
  have hsub : restless (s'.emptySlot slot c) ⊆ restless s' := by
    rintro x ⟨hn, hc⟩
    rw [cte_emptySlot] at hn hc
    split_ifs at hn hc
    · exact absurd rfl hn
    · exact ⟨hn, hc⟩
  refine ⟨hp.deletable.emptySlot he, hsub.trans hp.subset, fun {x id t} hx hz => ?_,
    fun hz hr hc => hsub.trans_ssubset (hp.moved hz hr hc)⟩
  rw [cte_emptySlot, if_neg hx]
  exact (hp.others hx hz).imp_right fun ⟨h1, h2, h3⟩ => ⟨h1, h2, hsub.trans_ssubset h3⟩

/-- A zombie that cannot be removed has slots left. -/
theorem number_ne_zero (hr : capRemovable (.zombie id t) slot = .ok false) :
    (Cap.zombieNumber id t != 0) = true := by
  have hb := Except.ok.inj hr
  rw [Bool.or_eq_false_iff] at hb
  rw [bne, hb.1]
  rfl

theorem toNat_pred {n : Word} (hn : n ≠ 0) : (n - 1).toNat + 1 = n.toNat := by
  have hpos : n.toNat ≠ 0 := fun h => hn (BitVec.eq_of_toNat_eq h)
  have h1 : (1 : Word).toNat = 1 := rfl
  rw [BitVec.toNat_sub]
  omega

section

variable (hv : Deletable cfg s) (hz : (s.cte slot).cap = .zombie id t) (hne : Cap.zombiePtr id t ≠ slot)
include hv hz hne

/-- Moving the zombie aside is progress, if what follows is. -/
theorem Progress.of_swap (hp : Progress cfg slot (s.capSwapForDelete (Cap.zombiePtr id t) slot) s') :
    Progress cfg slot s s' := by
  have hlt := restless_swap hv hz hne
  refine ⟨hp.deletable, hp.subset.trans hlt.subset, fun {x id' t'} hx hx' => ?_,
    fun _ _ _ => hp.subset.trans_ssubset hlt⟩
  have hcap := s.cap_capSwapForDelete (Cap.zombiePtr id t) slot x
  by_cases hxp : x = Cap.zombiePtr id t
  · subst hxp
    rw [Equiv.swap_apply_left, hz] at hcap
    have hno := not_cyclic_inside hv hz hx.symm (hz ▸ zombie_has_ptr)
    rw [hx'] at hno
    have hstay := (hp.others hx hcap).resolve_right fun h => h.2.1 rfl
    refine .inr ⟨?_, beq_eq_false_iff_ne.mp hno, hp.subset.trans_ssubset hlt⟩
    rw [hstay]
    exact beq_self_eq_true _
  · rw [Equiv.swap_apply_of_ne_of_ne hxp hx, hx'] at hcap
    exact (hp.others hx hcap).imp_right fun ⟨h1, h2, h3⟩ => ⟨h1, h2, h3.trans hlt⟩

theorem moveZombieAside_ok : s.moveZombieAside slot (Cap.zombiePtr id t) =
      .ok (s.capSwapForDelete (Cap.zombiePtr id t) slot) := by
  have hno : capCyclicZombie (s.cap (Cap.zombiePtr id t)) (Cap.zombiePtr id t) = false :=
    not_cyclic_inside hv hz hne.symm (hz ▸ zombie_has_ptr)
  unfold moveZombieAside
  rw [require_ok (bne_iff_ne.mpr hne), ok_bind, hno, Bool.not_false, require_ok rfl, ok_bind]

theorem reduceZombie_unexposed (hr : capRemovable (.zombie id t) slot = .ok false) :
    Returns (fun fuel => reduceZombie cfg fuel slot false s)
      (.none, s.capSwapForDelete (Cap.zombiePtr id t) slot) := by
  refine .leaf fun fuel => ?_
  have hz' : s.cap slot = .zombie id t := hz
  unfold reduceZombie
  rw [hz']
  dsimp only
  rw [require_ok (number_ne_zero hr), ok_bind, if_neg Bool.false_ne_true, moveZombieAside_ok hv hz hne, ok_bind]

end

/-! ## Deletion with `exposed` clear -/

variable {s1 : KState}

section

variable (hR : Remains cfg slot id t s s1)
include hR

theorem Remains.subset :
    restless (s1.setCap slot (.zombie id t)) ⊆ restless s := by
  refine (restless_setZombie (hR.kept ▸ hR.ne_null) fun hcyc => ?_).trans (restless_of_loses hR.loses)
  rw [hR.kept] at hcyc
  rcases hR.zombie with ⟨hz, -⟩ | ⟨hz, -⟩
  · rwa [hz] at hcyc
  · cases hc : (s.cte slot).cap with
    | zombie =>
      rw [hc] at hz
      cases hz
    | _ =>
      rw [hc] at hcyc
      cases hcyc

/-- After a finalisation that leaves a zombie. -/
theorem Remains.progress
    (hp : Progress cfg slot (s1.setCap slot (.zombie id t)) s') :
    Progress cfg slot s s' := by
  have hsub := hR.subset
  have hself := s1.setCap_cap slot (.zombie id t)
  refine ⟨hp.deletable, hp.subset.trans hsub, fun {x id' t'} hx hx' => ?_, fun {id' t'} hz' hr hc => ?_⟩
  · have hcap : ((s1.setCap slot (.zombie id t)).cte x).cap = .zombie id' t' := by
      rw [cte_setCap, if_neg hx, hR.loses.keeps_eq hx' rfl]
    exact (hp.others hx hcap).imp_right fun ⟨h1, h2, h3⟩ => ⟨h1, h2, h3.trans_subset hsub⟩
  · rcases hR.zombie with ⟨hz, -⟩ | ⟨hz, -⟩
    · cases hz.symm.trans hz'
      exact (hp.moved hself hr hc).trans_subset hsub
    · rw [hz'] at hz
      cases hz

/-- A new zombie cannot be removed at once; if one can, then nothing has happened yet. -/
theorem Remains.removable
    (hr : capRemovable (.zombie id t) slot = .ok true) :
    s1 = s ∧ (s.cte slot).cap = .zombie id t := by
  rcases hR.zombie with ⟨hz, rfl⟩ | ⟨-, h2⟩
  · exact ⟨rfl, hz⟩
  · have hb := Except.ok.inj hr
    simp only [Bool.or_eq_true, Bool.and_eq_true, beq_iff_eq] at hb
    rcases hb with h | ⟨h, -⟩ <;>
    · rw [h] at h2
      exact absurd h2 (by decide)

end

theorem capRemovable_zombie (slot id : Word) (t : Nat) :
    capRemovable (.zombie id t) slot = .ok true ∨ capRemovable (.zombie id t) slot = .ok false := by
  unfold capRemovable
  dsimp only
  cases (Cap.zombieNumber id t == 0 || (Cap.zombieNumber id t == 1 && slot == Cap.zombiePtr id t)) with
  | true => exact .inl rfl
  | false => exact .inr rfl

/-- **Finalising with `immediate` clear ends**: the slot can be emptied, or holds a zombie that
starts there. The induction is on the number of restless slots. -/
theorem finaliseSlot_unexposed (slot : Word) : ∀ (n : Nat) {s : KState}, (restless s).ncard = n →
    Deletable cfg s → ∃ ret s', Returns (fun fuel => finaliseSlot cfg fuel slot false s) (ret, s') ∧
      ret.status = .none ∧ Progress cfg slot s s' ∧ (ret.success = true ∧ s'.CanEmpty slot ∨
        ret.success = false ∧ capCyclicZombie (s'.cte slot).cap slot = true) := by
  intro n
  induction n using Nat.strong_induction_on with
  | _ n ih =>
  intro s hcard hv
  have hstay : ∀ {s'}, Deletable cfg s' → Loses s s' → ¬ (s.cte slot).cap.isZombie = true →
      Progress cfg slot s s' := by
    intro s' hv' hl hz
    refine ⟨hv', restless_of_loses hl, fun _ hx => .inl (hl.keeps_eq hx rfl), fun {id t} hz' => ?_⟩
    rw [hz'] at hz
    exact absurd rfl hz
  by_cases hn : (s.cte slot).cap = .null
  · refine ⟨_, s, finaliseSlot_null false hn, rfl, hstay hv (Loses.refl s) ?_, .inl ⟨rfl, ?_⟩⟩
    · rw [hn]
      exact Bool.false_ne_true
    · intro t ht
      rw [hn] at ht
      cases ht
  obtain ⟨fc, s1, hfc, ⟨hnull, hz, hv1, hl, he⟩ | ⟨id, t, hrem, hR⟩⟩ := finaliseCap_ok hv slot
  · refine ⟨_, s1, finaliseSlot_removable hn hfc (by rw [hnull]; rfl), rfl,
      hstay hv1 hl (by rw [hz]; exact Bool.false_ne_true), .inl ⟨rfl, he⟩⟩
  have hself := s1.setCap_cap slot (.zombie id t)
  rcases capRemovable_zombie slot id t with hr | hr
  · obtain ⟨rfl, hz⟩ := hR.removable hr
    refine ⟨_, s1, finaliseSlot_removable hn hfc (by rw [hrem]; exact hr), rfl,
      ⟨hv, subset_rfl, fun _ hx => .inl hx, fun {id' t'} hz' hr' => ?_⟩, .inl ⟨rfl, ?_⟩⟩
    · cases hz.symm.trans hz'
      cases hr.symm.trans hr'
    · intro p hp
      cases hz.symm.trans hp
  by_cases hc : capCyclicZombie (.zombie id t) slot = true
  · refine ⟨_, _, finaliseSlot_cyclic hn hfc (by rw [hrem]; exact hr) (by rw [hrem]; exact hc), rfl,
      ?_, .inr ⟨rfl, ?_⟩⟩
    · rw [hrem]
      refine hR.progress ⟨hR.deletable, subset_rfl, fun _ hx => .inl hx, fun {id' t'} hz' _ hc' => ?_⟩
      cases hself.symm.trans hz'
      rw [hc] at hc'
      cases hc'
    · rw [hrem, hself]
      exact hc
  · -- the zombie moves to its first slot, and the loop goes on with what was there
    have hc' : capCyclicZombie (.zombie id t) slot = false := Bool.eq_false_of_not_eq_true hc
    have hne : Cap.zombiePtr id t ≠ slot := beq_eq_false_iff_ne.mp hc'
    have hv3 := hR.deletable.swap hself hne
    have hlt := restless_swap hR.deletable hself hne
    have hdec : (restless ((s1.setCap slot (.zombie id t)).capSwapForDelete
        (Cap.zombiePtr id t) slot)).ncard < n := by
      rw [← hcard]
      exact Set.ncard_lt_ncard (hlt.trans_subset hR.subset) hv.restless_finite
    obtain ⟨ret, s', hret, hst, hp, hout⟩ := ih _ hdec rfl hv3
    refine ⟨ret, s', finaliseSlot_loop hn hfc (by rw [hrem]; exact hr) ?_ hv3 ?_ hret, hst,
      hR.progress (hp.of_swap hR.deletable hself hne), hout⟩
    · rw [hrem, hc', Bool.and_false]
    · rw [hrem]
      exact reduceZombie_unexposed hR.deletable hself hne hr

theorem cteDelete_unexposed (hv : Deletable cfg s) (slot : Word) :
    ∃ s', Returns (fun fuel => cteDelete cfg fuel slot false s) (.none, s') ∧
      Progress cfg slot s s' ∧
      ((s'.cte slot).cap = .null ∨ capCyclicZombie (s'.cte slot).cap slot = true) := by
  obtain ⟨ret, s1, hret, hst, hp, ⟨hsucc, he⟩ | ⟨hsucc, hcyc⟩⟩ := finaliseSlot_unexposed slot _ rfl hv
  · refine ⟨s1.emptySlot slot ret.cleanupInfo, hret.call fun fuel h => ?_, hp.emptySlot he _, .inl ?_⟩
    · unfold cteDelete
      dsimp only at h ⊢
      rw [h, ok_bind, if_neg (not_not_intro hst), hsucc]
      rfl
    · rw [cte_emptySlot, if_pos rfl]
  · refine ⟨s1, hret.call fun fuel h => ?_, hp, .inr hcyc⟩
    unfold cteDelete
    dsimp only at h ⊢
    rw [h, ok_bind, if_neg (not_not_intro hst), hsucc]
    rfl

/-! ## Deletion with `exposed` set -/

/-- The number of a zombie; other capabilities count as more than any zombie. -/
def slotsLeft : Cap → Nat
  | .zombie id t => (Cap.zombieNumber id t).toNat
  | _ => 2 ^ 64

/-- Lowering the number of a zombie. -/
theorem setNumber_ok (hv : Deletable cfg s)
    (hz : (s.cte slot).cap = .zombie id t) (hn : Cap.zombieNumber id t ≠ 0) :
    Deletable cfg (s.setCap slot (Cap.zombieSetNumber id t (Cap.zombieNumber id t - 1))) ∧
      restless (s.setCap slot (Cap.zombieSetNumber id t (Cap.zombieNumber id t - 1))) ⊆ restless s ∧
      slotsLeft (Cap.zombieSetNumber id t (Cap.zombieNumber id t - 1)) <
        (Cap.zombieNumber id t).toNat := by
  have hwf := hv.deriv.wf slot
  rw [hz] at hwf
  have hnum := hv.number hz
  have hpred := toNat_pred hn
  have hslots : Cap.zombieSlots t ≤ 2 ^ (Cap.zombieBits t + 1) := by
    unfold Cap.zombieSlots
    split_ifs with ht
    · rw [ht]
      decide
    · have hlt := ((hwf.zombie rfl).1.resolve_left ht).2
      rw [Cap.zombieBits_of_lt hlt]
      exact Nat.pow_le_pow_right (by decide) (Nat.le_succ t)
  have hpack : ∃ id', Cap.zombieSetNumber id t (Cap.zombieNumber id t - 1) = .zombie id' t ∧
      Cap.zombiePtr id' t = Cap.zombiePtr id t ∧
      Cap.zombieNumber id' t = Cap.zombieNumber id t - 1 :=
    Cap.zombieNumber_zombieSetNumber (by omega)
  obtain ⟨id', heq, hptr, hnum'⟩ := hpack
  have hkey : (Cap.zombie id' t).key = (s.cte slot).cap.key := by
    rw [hz, ← heq]
    exact Cap.key_zombieSetNumber _ _ _
  have hwf' : (Cap.zombie id' t).WF cfg := by
    rw [← heq]
    exact hwf.zombieSetNumber _
  have hslot : (s.cte slot).cap.hasSlots = true := by
    rw [hz]
    rfl
  rw [heq]
  refine ⟨hv.setZombie hslot ?_ ?_ ?_ ?_, restless_setZombie ?_ ?_, ?_⟩
  · exact Cap.region_eq_of_key hkey
  · rw [hnum']
    omega
  · intro p hp
    cases hz.symm.trans hp
  · exact hv.deriv.recap (s.links_setCap slot _) (key_setCap hkey) (wf_setCap hwf' hv.deriv.wf)
      fun hab hs hx => hv.deriv.below hab hs (untyped_setCap rfl hx)
  · rw [hz]
    exact nofun
  · rw [hz]
    show (Cap.zombiePtr id t == slot) = true → (Cap.zombiePtr id' t == slot) = true
    rw [hptr]
    exact fun h => h
  · show (Cap.zombieNumber id' t).toNat < _
    rw [hnum']
    omega

/-- The last slot of a zombie that cannot be removed lies in its memory, and is not the first slot
if the zombie is there. -/
theorem endSlot_spec (hv : Deletable cfg s)
    (hz : (s.cte slot).cap = .zombie id t) (hr : capRemovable (.zombie id t) slot = .ok false) :
    ((s.cte slot).cap.region cfg).Has
        (cteAt (Cap.zombiePtr id t) (Cap.zombieNumber id t - 1)).toNat ∧
      (cteAt (Cap.zombiePtr id t) (Cap.zombieNumber id t - 1) = slot → Cap.zombiePtr id t ≠ slot) := by
  have hwf := hv.deriv.wf slot
  rw [hz] at hwf ⊢
  have hn0 : Cap.zombieNumber id t ≠ 0 := bne_iff_ne.mp (number_ne_zero hr)
  have hpred := toNat_pred hn0
  have hnum := hv.number hz
  obtain ⟨hhas, haddr⟩ := Cap.zombie_has hwf (i := Cap.zombieNumber id t - 1) (by omega)
  refine ⟨hhas, fun hend hptr => ?_⟩
  -- the zombie would be at its own first slot with one slot left
  rw [hend, ← hptr] at haddr
  have hzero : (Cap.zombieNumber id t - 1).toNat = 0 := by
    have hpos := Nat.two_pow_pos slotBits
    have hmul : (Cap.zombieNumber id t - 1).toNat * 2 ^ slotBits = 0 := by omega
    exact (Nat.mul_eq_zero.mp hmul).resolve_right (Nat.ne_of_gt hpos)
  have hone : Cap.zombieNumber id t = 1 := by
    refine BitVec.eq_of_toNat_eq ?_
    show _ = 1
    omega
  have hb := Except.ok.inj hr
  rw [hone, hptr] at hb
  simp at hb

section Shrink

variable {ptr n endSlot : Word}

theorem shrinkZombie_null (h : (s.cte slot).cap = .null) : s.shrinkZombie slot ptr n t endSlot = .ok s := by
  have h' : s.cap slot = .null := h
  unfold shrinkZombie
  rw [h']

/-- The zombie was exchanged for one that starts in the slot. -/
theorem shrinkZombie_cyclic (hc : capCyclicZombie (s.cte slot).cap slot = true) (hne : ptr ≠ slot) :
    s.shrinkZombie slot ptr n t endSlot = .ok s := by
  cases hcap : (s.cte slot).cap with
  | zombie id2 t2 =>
    rw [hcap] at hc
    have hptr2 : Cap.zombiePtr id2 t2 = slot := beq_iff_eq.mp hc
    have hcap' : s.cap slot = .zombie id2 t2 := hcap
    unfold shrinkZombie
    rw [hcap']
    dsimp only
    rw [if_neg fun h => hne (h.1.trans hptr2), hptr2, require_ok, ok_bind]
    rw [beq_self_eq_true]
    exact bne_iff_ne.mpr hne
  | _ =>
    rw [hcap] at hc
    cases hc

theorem shrinkZombie_same {id : Word} (h : (s.cte slot).cap = .zombie id t)
    (hend : (s.cte endSlot).cap = .null) :
    s.shrinkZombie slot (Cap.zombiePtr id t) (Cap.zombieNumber id t) t endSlot =
      .ok (s.setCap slot (Cap.zombieSetNumber id t (Cap.zombieNumber id t - 1))) := by
  have h' : s.cap slot = .zombie id t := h
  have hend' : (s.cap endSlot).isNull = true := Cap.isNull_iff.mpr hend
  unfold shrinkZombie
  rw [h']
  dsimp only
  rw [if_pos ⟨rfl, rfl, rfl⟩, require_ok hend', ok_bind]

end Shrink

/-- **A round with `immediate` set** lowers the number of the zombie, or else leaves fewer restless
slots. -/
theorem reduceZombie_exposed (hv : Deletable cfg s)
    (hz : (s.cte slot).cap = .zombie id t) (hr : capRemovable (.zombie id t) slot = .ok false) :
    ∃ s', Returns (fun fuel => reduceZombie cfg fuel slot true s) (.none, s') ∧ Deletable cfg s' ∧
      (restless s' ⊂ restless s ∨ restless s' ⊆ restless s ∧
        slotsLeft (s'.cte slot).cap < (Cap.zombieNumber id t).toNat) := by
  obtain ⟨hhas, hfirst⟩ := endSlot_spec hv hz hr
  have hn0 : Cap.zombieNumber id t ≠ 0 := bne_iff_ne.mp (number_ne_zero hr)
  obtain ⟨s1, hdel, hp, hend⟩ :=
    cteDelete_unexposed hv (cteAt (Cap.zombiePtr id t) (Cap.zombieNumber id t - 1))
  have hround : ∀ {s'}, s1.shrinkZombie slot (Cap.zombiePtr id t) (Cap.zombieNumber id t) t
      (cteAt (Cap.zombiePtr id t) (Cap.zombieNumber id t - 1)) = .ok s' →
      Returns (fun fuel => reduceZombie cfg fuel slot true s) (.none, s') := by
    intro s' hshrink
    refine hdel.call fun fuel h => ?_
    have hz' : s.cap slot = .zombie id t := hz
    unfold reduceZombie
    rw [hz']
    dsimp only
    rw [require_ok (number_ne_zero hr), ok_bind, if_pos rfl, h, ok_bind,
      if_neg (not_not_intro rfl), hshrink, ok_bind]
  by_cases hes : cteAt (Cap.zombiePtr id t) (Cap.zombieNumber id t - 1) = slot
  · -- the zombie is in its own last slot: the deletion has moved it to the first
    have hne := hfirst hes
    rw [hes] at hp hend
    have hlt := hp.moved hz hr (beq_eq_false_iff_ne.mpr hne)
    rcases hend with hnull | hc
    · exact ⟨s1, hround (shrinkZombie_null hnull), hp.deletable, .inl hlt⟩
    · exact ⟨s1, hround (shrinkZombie_cyclic hc hne), hp.deletable, .inl hlt⟩
  · rcases hp.others (Ne.symm hes) hz with hkeep | ⟨hc, hne, hlt⟩
    · have hempty : (s1.cte (cteAt (Cap.zombiePtr id t) (Cap.zombieNumber id t - 1))).cap = .null := by
        refine hend.resolve_right fun hc => ?_
        have hno := not_cyclic_inside hp.deletable hkeep (Ne.symm hes) (by rw [hkeep, ← hz]; exact hhas)
        rw [hno] at hc
        cases hc
      obtain ⟨hv2, hsub, hless⟩ := setNumber_ok hp.deletable hkeep hn0
      refine ⟨_, hround (shrinkZombie_same hkeep hempty), hv2, .inr ⟨hsub.trans hp.subset, ?_⟩⟩
      rw [setCap_cap]
      exact hless
    · exact ⟨s1, hround (shrinkZombie_cyclic hc hne), hp.deletable, .inl hlt⟩

/-- A zombie that finalising leaves has no more slots than what was there. -/
theorem Remains.slotsLeft_le (hR : Remains cfg slot id t s s1) :
    (Cap.zombieNumber id t).toNat ≤ slotsLeft (s.cte slot).cap := by
  rcases hR.zombie with ⟨hz, -⟩ | ⟨hz, -⟩
  · rw [hz]
    exact le_rfl
  · cases hc : (s.cte slot).cap with
    | zombie =>
      rw [hc] at hz
      cases hz
    | _ => exact (Cap.zombieNumber id t).isLt.le

/-- **Finalising with `immediate` set ends** with a slot that can be emptied. The induction is on
the number of restless slots, and then on the number of the zombie in the slot. -/
theorem finaliseSlot_exposed (slot : Word) : ∀ (n m : Nat) {s : KState},
    (restless s).ncard = n → slotsLeft (s.cte slot).cap = m → Deletable cfg s →
    ∃ ret s', Returns (fun fuel => finaliseSlot cfg fuel slot true s) (ret, s') ∧
      ret.status = .none ∧ Deletable cfg s' ∧ s'.CanEmpty slot := by
  intro n
  induction n using Nat.strong_induction_on with
  | _ n ihn =>
  intro m
  induction m using Nat.strong_induction_on with
  | _ m ihm =>
  intro s hcard hleft hv
  by_cases hn : (s.cte slot).cap = .null
  · refine ⟨_, s, finaliseSlot_null true hn, rfl, hv, fun t ht => ?_⟩
    cases hn.symm.trans ht
  obtain ⟨fc, s1, hfc, ⟨hnull, -, hv1, -, he⟩ | ⟨id, t, hrem, hR⟩⟩ := finaliseCap_ok hv slot
  · exact ⟨_, s1, finaliseSlot_removable hn hfc (by rw [hnull]; rfl), rfl, hv1, he⟩
  have hself := s1.setCap_cap slot (.zombie id t)
  rcases capRemovable_zombie slot id t with hr | hr
  · obtain ⟨rfl, hz⟩ := hR.removable hr
    refine ⟨_, s1, finaliseSlot_removable hn hfc (by rw [hrem]; exact hr), rfl, hv, fun p hp => ?_⟩
    cases hz.symm.trans hp
  · obtain ⟨s2, hred, hv2, hdec⟩ := reduceZombie_exposed hR.deletable hself hr
    have hrest : ∃ ret s', Returns (fun fuel => finaliseSlot cfg fuel slot true s2) (ret, s') ∧
        ret.status = .none ∧ Deletable cfg s' ∧ s'.CanEmpty slot := by
      have hfin := hv.restless_finite
      rcases hdec with hlt | ⟨hsub, hless⟩
      · refine ihn _ ?_ _ rfl rfl hv2
        rw [← hcard]
        exact Set.ncard_lt_ncard (hlt.trans_subset hR.subset) hfin
      · have hle : (restless s2).ncard ≤ n := by
          rw [← hcard]
          exact Set.ncard_le_ncard (hsub.trans hR.subset) hfin
        rcases hle.lt_or_eq with hlt | heq
        · exact ihn _ hlt _ rfl rfl hv2
        · refine ihm _ ?_ heq rfl hv2
          rw [← hleft]
          exact hless.trans_le hR.slotsLeft_le
    obtain ⟨ret, s', hret, hst, hv', he⟩ := hrest
    refine ⟨ret, s', finaliseSlot_loop hn hfc (by rw [hrem]; exact hr) rfl hv2 ?_ hret, hst, hv', he⟩
    rw [hrem]
    exact hred

end KState

/-- **Deletion ends and empties the slot.** In a state that deletion works on, whatever the slot
holds, `cteDelete` with `exposed` set returns `EXCEPTION_NONE` once the bound on its calls is large
enough; no assertion fails on the way, the slot is empty and in no list, and the state is again one
that deletion works on. -/
theorem cteDelete_terminates (hv : Deletable cfg s) (slot : Word) :
    ∃ s', Returns (fun fuel => s.cteDelete cfg fuel slot true) (.none, s') ∧ Deletable cfg s' ∧
      (s'.cte slot).cap = .null ∧ (s'.cte slot).cteMDBNode.mdbNext = 0 ∧
      (s'.cte slot).cteMDBNode.mdbPrev = 0 := by
  obtain ⟨ret, s1, hret, hst, hv1, he⟩ := finaliseSlot_exposed slot _ _ rfl rfl hv
  have hv2 : Deletable cfg (s1.emptySlot slot ret.cleanupInfo) := hv1.emptySlot he
  have hnull : ((s1.emptySlot slot ret.cleanupInfo).cte slot).cap = .null := by
    rw [cte_emptySlot, if_pos rfl]
  obtain ⟨LL, hm⟩ := hv2.deriv.lists
  refine ⟨_, hret.call fun fuel h => ?_, hv2, hnull, hm.links_of_null hnull⟩
  unfold cteDelete
  dsimp only at h ⊢
  rw [h, ok_bind, if_neg (not_not_intro hst)]
  rfl

/-- A CNode that holds the only capability to itself. -/
theorem cteDelete_terminates_sample :
    (sampleBoot.cte 0x10020).cap = .cnode 8 0 0 0x10000 ∧ Deletable benchConfig sampleBoot ∧
      ∃ s', Returns (fun fuel => sampleBoot.cteDelete benchConfig fuel 0x10020 true) (.none, s') ∧
        (s'.cte 0x10020).cap = .null := by
  have hcaps : ∀ {x}, (sampleBoot.cte x).cap ≠ .null →
      (sampleBoot.cte x).cap = .cnode 8 0 0 0x10000 ∨
        (sampleBoot.cte x).cap = .untyped 0 false 16 0x20000 ∨
        (sampleBoot.cte x).cap = .irqControl := by
    intro x hx
    have hmem := (mem_bootHeap hx).1
    simp only [List.mem_cons, Prod.mk.injEq, List.not_mem_nil, or_false] at hmem
    exact hmem.imp And.right (Or.imp And.right And.right)
  have hnot : ∀ {x c}, (sampleBoot.cte x).cap = c → c.isExact = false ∨ c.hasSlots = false →
      c ≠ .null → c = .untyped 0 false 16 0x20000 ∨ c = .irqControl := by
    rintro x _ rfl hc hn
    rcases hcaps hn with h | h
    · rw [h] at hc
      exact absurd hc (by decide)
    · exact h
  have hv : Deletable benchConfig sampleBoot :=
    { deriv := boot_sampleBoot.inv.deriv
      finite := by
        refine (Set.toFinite {0x10020, 0x10040, 0x10060}).subset fun x hx => ?_
        have hmem := (mem_bootHeap hx).1
        simp only [List.mem_cons, Prod.mk.injEq, List.not_mem_nil, or_false] at hmem
        exact hmem.imp And.left (Or.imp And.left And.left)
      number := fun h => by
        rcases hnot h (.inl rfl) nofun with h | h <;> cases h
      irq := fun h => by
        rcases hnot h (.inr rfl) nofun with h | h <;> cases h
      irq_off := fun h => by
        rcases hnot h (.inr rfl) nofun with h | h <;> cases h
      thread := nofun
      reply := nofun
      replies := fun {x y} _ hx => by
        have hn : (sampleBoot.cte x).cap ≠ .null := by
          intro h
          rw [h] at hx
          cases hx
        rcases hcaps hn with h | h | h <;>
        · rw [h] at hx
          cases hx
      awake := fun _ => rfl }
  obtain ⟨s', hret, -, hnull, -⟩ := cteDelete_terminates hv 0x10020
  exact ⟨rfl, hv, s', hret, hnull⟩

end SeL4.Object
