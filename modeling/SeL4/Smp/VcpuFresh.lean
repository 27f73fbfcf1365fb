import SeL4.Smp.VcpuLoaded

/-!
# When a loaded VCPU is never stale

The proof that `Fresh` holds all along a run of `VcpuState.next` if and only if every step is `Local`
(`loaded_vcpu_fresh_iff`).

* `VcpuInv` is what holds in any case: `tcbVCPU` and `vcpuTCB` are inverses, bindings are between things
  that exist, and the current thread of a core has its affinity.
* `Unbinds s s' me R` is what `dissociateVCPUTCB` does: the bindings of `R` are gone, and what they
  concern is unloaded from core `me` only. What another core has loaded then is stale (`Unbinds.fresh_iff`).
* `OpSpec s s' P` is the specification of an operation, one lemma each: `VcpuInv` is kept, and `Fresh`
  exactly if `P`.
* `deleted_vcpu_still_loaded` is a run of two cores in which a VCPU is deleted by one core while it is
  loaded on the other, which then saves registers into it.
-/

namespace SeL4.Smp

open SeL4.Lib Function

namespace VcpuState

variable {n : Nat}

/-! ## What the functions change -/

/-- Only what is loaded differs. -/
structure LoadFrame (s s' : VcpuState n) : Prop where
  cur : s'.ksCurThread = s.ksCurThread
  tcbVCPU : s'.tcbVCPU = s.tcbVCPU
  vcpuTCB : s'.vcpuTCB = s.vcpuTCB
  affinity : s'.tcbAffinity = s.tcbAffinity
  liveTcb : s'.liveTcb = s.liveTcb
  liveVcpu : s'.liveVcpu = s.liveVcpu
  holder : s'.holder = s.holder
  mustSwitch : s'.mustSwitch = s.mustSwitch
  failed : s'.failed = s.failed

variable {s s' s'' : VcpuState n} {c me : Fin n} {t v : Word}

section

variable (s c)

theorem frame_vcpuSwitch (o : Option Word) : LoadFrame s (s.vcpuSwitch c o) := by
  cases o with
  | none =>
    unfold vcpuSwitch vcpuSwitchNull
    dsimp only
    split
    · split_ifs <;> exact ⟨rfl, rfl, rfl, rfl, rfl, rfl, rfl, rfl, rfl⟩
    · exact ⟨rfl, rfl, rfl, rfl, rfl, rfl, rfl, rfl, rfl⟩
  | some v =>
    unfold vcpuSwitch vcpuSwitchTo
    dsimp only
    split_ifs
    · split <;> exact ⟨rfl, rfl, rfl, rfl, rfl, rfl, rfl, rfl, rfl⟩
    · exact ⟨rfl, rfl, rfl, rfl, rfl, rfl, rfl, rfl, rfl⟩

theorem vcpuSwitch_none_loaded : (s.vcpuSwitch c none).armHSCurVCPU = s.armHSCurVCPU := by
  unfold vcpuSwitch vcpuSwitchNull
  dsimp only
  split
  · split_ifs <;> rfl
  · rfl

theorem vcpuSwitch_some_loaded (v : Word) :
    (s.vcpuSwitch c (some v)).armHSCurVCPU = update s.armHSCurVCPU c (some v) := by
  unfold vcpuSwitch vcpuSwitchTo
  dsimp only
  split_ifs with h
  · split <;> rfl
  · rw [← not_not.mp h, update_eq_self]
    rfl

/-- A switch saves registers only into the VCPU that is loaded. -/
theorem vcpuSwitch_savedDeleted (o : Option Word)
    (h : ∀ u, s.armHSCurVCPU c = some u → s.liveVcpu u = true) :
    (s.vcpuSwitch c o).savedDeleted = s.savedDeleted := by
  cases o with
  | none =>
    unfold vcpuSwitch vcpuSwitchNull
    dsimp only
    split
    · next u hu => split_ifs <;> simp [saveTo, setActive, h u hu]
    · rfl
  | some v =>
    unfold vcpuSwitch vcpuSwitchTo
    dsimp only
    split_ifs
    · split
      · next u hu => simp [saveTo, setActive, setCurVCPU, h u hu]
      · rfl
    · rfl

end

/-- The bindings of `R` are given up by core `me`, and what they concern is unloaded there. -/
structure Unbinds (s s' : VcpuState n) (me : Fin n) (R : Word → Word → Prop) : Prop where
  cur : s'.ksCurThread = s.ksCurThread
  affinity : s'.tcbAffinity = s.tcbAffinity
  liveTcb : s'.liveTcb = s.liveTcb
  liveVcpu : s'.liveVcpu = s.liveVcpu
  holder : s'.holder = s.holder
  mustSwitch : s'.mustSwitch = s.mustSwitch
  savedDeleted : s'.savedDeleted = s.savedDeleted
  failed : s'.failed = s.failed
  tcb : ∀ t u, s'.tcbVCPU t = some u ↔ s.tcbVCPU t = some u ∧ ¬ R t u
  vcpu : ∀ t u, s'.vcpuTCB u = some t ↔ s.vcpuTCB u = some t ∧ ¬ R t u
  loaded : ∀ c u, s'.armHSCurVCPU c = some u ↔
    s.armHSCurVCPU c = some u ∧ ¬ (c = me ∧ ∃ t, R t u ∧ s.tcbVCPU t = some u)

variable {R : Word → Word → Prop}

theorem Unbinds.comp {R' : Word → Word → Prop} (h : Unbinds s s' me R) (h' : Unbinds s' s'' me R') :
    Unbinds s s'' me fun t u => R t u ∨ R' t u := by
  refine ⟨h'.cur.trans h.cur, h'.affinity.trans h.affinity, h'.liveTcb.trans h.liveTcb,
    h'.liveVcpu.trans h.liveVcpu, h'.holder.trans h.holder, h'.mustSwitch.trans h.mustSwitch,
    h'.savedDeleted.trans h.savedDeleted, h'.failed.trans h.failed, fun t u => ?_, fun t u => ?_,
    fun c u => ?_⟩
  · rw [h'.tcb, h.tcb, not_or, and_assoc]
  · rw [h'.vcpu, h.vcpu, not_or, and_assoc]
  · rw [h'.loaded, h.loaded, and_assoc]
    refine and_congr_right fun _ => ⟨?_, fun hn => ⟨?_, ?_⟩⟩
    · rintro ⟨hR, hR'⟩ ⟨hc, t, htu, ht⟩
      by_cases hRtu : R t u
      · exact hR ⟨hc, t, hRtu, ht⟩
      · exact hR' ⟨hc, t, htu.resolve_left hRtu, (h.tcb t u).mpr ⟨ht, hRtu⟩⟩
    · rintro ⟨hc, t, hRtu, ht⟩
      exact hn ⟨hc, t, .inl hRtu, ht⟩
    · rintro ⟨hc, t, hRtu, ht⟩
      exact hn ⟨hc, t, .inr hRtu, ((h.tcb t u).mp ht).1⟩

/-- `tcbVCPU` and `vcpuTCB` are inverses. -/
def Inverse (s : VcpuState n) : Prop := ∀ t v, s.tcbVCPU t = some v ↔ s.vcpuTCB v = some t

theorem update_none_iff {α β : Type*} [DecidableEq α] {f : α → Option β} {a x : α} {b y : β} (h : f a = some b) :
    update f a none x = some y ↔ f x = some y ∧ ¬ (x = a ∧ y = b) := by
  by_cases hx : x = a
  · simp [hx, h, eq_comm]
  · simp [hx]

/-- `dissociateVCPUTCB` of a bound pair gives up this binding. -/
theorem unbinds_dissociate (h : s.Inverse) (hb : s.tcbVCPU t = some v) (me : Fin n) :
    Unbinds s (s.dissociateVCPUTCB me v t) me fun t' u => t' = t ∧ u = v := by
  have hb' := (h t v).mp hb
  have hfail : ¬ (s.tcbVCPU t ≠ some v ∨ s.vcpuTCB v ≠ some t) := by simp [hb, hb']
  unfold dissociateVCPUTCB
  dsimp only
  have hvcpu : ∀ t' u, update s.vcpuTCB v none u = some t' ↔
      s.vcpuTCB u = some t' ∧ ¬ (t' = t ∧ u = v) := by
    intro t' u
    rw [update_none_iff hb', and_comm (a := u = v)]
  have hR : ∀ u, (∃ t', (t' = t ∧ u = v) ∧ s.tcbVCPU t' = some u) ↔ u = v := by
    intro u
    constructor
    · rintro ⟨_, ⟨-, hu⟩, -⟩
      exact hu
    · rintro rfl
      exact ⟨t, ⟨rfl, rfl⟩, hb⟩
  split_ifs with hl
  · refine ⟨rfl, rfl, rfl, rfl, rfl, rfl, rfl, rfl, fun _ _ => update_none_iff hb, hvcpu, fun c u => ?_⟩
    rw [hR]
    exact update_none_iff hl
  · refine ⟨rfl, rfl, rfl, rfl, rfl, rfl, rfl, rfl, fun _ _ => update_none_iff hb, hvcpu, fun c u => ?_⟩
    rw [hR]
    refine ⟨fun hc => ⟨hc, ?_⟩, And.left⟩
    rintro ⟨rfl, rfl⟩
    exact hl hc

theorem Unbinds.congr {R' : Word → Word → Prop} (h : Unbinds s s' me R)
    (hR : ∀ t u, s.tcbVCPU t = some u → (R t u ↔ R' t u)) (hi : s.Inverse) : Unbinds s s' me R' := by
  refine ⟨h.cur, h.affinity, h.liveTcb, h.liveVcpu, h.holder, h.mustSwitch, h.savedDeleted, h.failed,
    fun t u => ?_, fun t u => ?_, fun c u => ?_⟩
  · rw [h.tcb]
    exact and_congr_right fun ht => not_congr (hR t u ht)
  · rw [h.vcpu]
    exact and_congr_right fun hu => not_congr (hR t u ((hi t u).mpr hu))
  · rw [h.loaded]
    refine and_congr_right fun _ => not_congr (and_congr_right fun _ => ?_)
    exact exists_congr fun t => and_congr_left fun ht => hR t u ht

/-- Nothing is given up where nothing is bound. -/
theorem Unbinds.of_none (hR : ∀ t u, s.tcbVCPU t = some u → ¬ R t u)
    (hi : s.Inverse) : Unbinds s s me R := by
  have h : Unbinds s s me fun _ _ => False := by
    refine ⟨rfl, rfl, rfl, rfl, rfl, rfl, rfl, rfl, ?_, ?_, ?_⟩ <;> simp
  exact h.congr (fun t u ht => iff_of_false id (hR t u ht)) hi

/-- A thread gives up its VCPU. -/
theorem unbinds_dissociateTcb (h : s.Inverse) (me : Fin n) (t : Word) :
    Unbinds s (s.dissociateTcb me t) me fun t' _ => t' = t := by
  unfold dissociateTcb
  cases hb : s.tcbVCPU t with
  | none =>
    refine .of_none ?_ h
    rintro t' u ht' rfl
    exact nomatch hb.symm.trans ht'
  | some v =>
    refine (unbinds_dissociate h hb me).congr (fun t' u ht' => ⟨And.left, fun htt => ⟨htt, ?_⟩⟩) h
    subst htt
    exact Option.mem_unique ht' hb

/-- A VCPU gives up its thread. -/
theorem unbinds_dissociateVcpu (h : s.Inverse) (me : Fin n) (v : Word) :
    Unbinds s (s.dissociateVcpu me v) me fun _ u => u = v := by
  unfold dissociateVcpu
  cases hb : s.vcpuTCB v with
  | none =>
    refine .of_none ?_ h
    rintro t' u ht' rfl
    exact absurd (hb.symm.trans ((h t' u).mp ht')) nofun
  | some t =>
    have hb' := (h t v).mpr hb
    refine (unbinds_dissociate h hb' me).congr (fun t' u ht' => ⟨And.right, fun huv => ⟨?_, huv⟩⟩) h
    subst huv
    exact Option.some.inj (((h t' u).mp ht').symm.trans hb)

theorem Unbinds.inverse (hu : Unbinds s s' me R) (h : s.Inverse) : s'.Inverse := by
  intro t v
  rw [hu.tcb, hu.vcpu, h t v]

/-- What is unbound on core `me` stays fresh if it was loaded on no other core. -/
theorem Unbinds.fresh_iff (hu : Unbinds s s' me R) (h : s.Inverse) (hf : s.Fresh) : s'.Fresh ↔
      ∀ t u c, s.tcbVCPU t = some u → R t u → c ≠ me → s.armHSCurVCPU c ≠ some u := by
  constructor
  · intro hf' t u c htu hR hc hl
    obtain ⟨-, t', ht', -⟩ := hf' c u ((hu.loaded c u).mpr ⟨hl, fun hm => hc hm.1⟩)
    obtain ⟨ht', hnR⟩ := (hu.vcpu t' u).mp ht'
    obtain rfl : t = t' := Option.some.inj (((h t u).mp htu).symm.trans ht')
    exact hnR hR
  · intro hloc c u hc
    obtain ⟨hl, hnme⟩ := (hu.loaded c u).mp hc
    obtain ⟨hlive, t, ht, haff⟩ := hf c u hl
    have htu := (h t u).mpr ht
    refine ⟨by rw [hu.liveVcpu]; exact hlive, t, (hu.vcpu t u).mpr ⟨ht, fun hR => ?_⟩,
      by rw [hu.affinity]; exact haff⟩
    by_cases hcm : c = me
    · exact hnme ⟨hcm, t, hR, htu⟩
    · exact hloc t u c htu hR hcm hl

/-! ## The invariant -/

/-- The holder of the lock has to switch before it returns to user mode. -/
def Switching (s : VcpuState n) (c : Fin n) : Prop := s.holder = some c ∧ s.mustSwitch = true

/-- What holds in any case: bindings are mutual and between things that exist, and the current thread of
a core belongs to it. -/
structure VcpuInv (s : VcpuState n) : Prop where
  inverse : s.Inverse
  liveTcb : ∀ {t v}, s.tcbVCPU t = some v → s.liveTcb t = true
  liveVcpu : ∀ {t v}, s.tcbVCPU t = some v → s.liveVcpu v = true
  cur : ∀ {c t}, s.ksCurThread c = some t → ¬ s.Switching c → s.liveTcb t = true ∧ s.tcbAffinity t = c
  notFailed : s.failed = false

theorem LoadFrame.inv (hf : LoadFrame s s') (h : VcpuInv s) : VcpuInv s' := by
  have hsw : ∀ {c}, ¬ s'.Switching c → ¬ s.Switching c := by
    intro c hn hs
    exact hn ⟨hf.holder.trans hs.1, hf.mustSwitch.trans hs.2⟩
  refine ⟨?_, ?_, ?_, fun hc hn => ?_, hf.failed.trans h.notFailed⟩
  · unfold Inverse
    rw [hf.tcbVCPU, hf.vcpuTCB]
    exact h.inverse
  · rw [hf.tcbVCPU, hf.liveTcb]
    exact h.liveTcb
  · rw [hf.tcbVCPU, hf.liveVcpu]
    exact h.liveVcpu
  · rw [hf.cur] at hc
    rw [hf.liveTcb, hf.affinity]
    exact h.cur hc (hsw hn)

theorem LoadFrame.fresh_iff (hf : LoadFrame s s') : s'.Fresh ↔ ∀ c v, s'.armHSCurVCPU c = some v →
    s.liveVcpu v = true ∧ ∃ t, s.vcpuTCB v = some t ∧ s.tcbAffinity t = c := by
  unfold Fresh
  rw [hf.liveVcpu, hf.vcpuTCB, hf.affinity]

theorem Unbinds.inv (hu : Unbinds s s' me R) (h : VcpuInv s) : VcpuInv s' := by
  have hsw : ∀ {c}, ¬ s'.Switching c → ¬ s.Switching c := by
    intro c hn hs
    exact hn ⟨hu.holder.trans hs.1, hu.mustSwitch.trans hs.2⟩
  refine ⟨hu.inverse h.inverse, fun {t v} ht => ?_, fun {t v} ht => ?_, fun hc hn => ?_,
    hu.failed.trans h.notFailed⟩
  · rw [hu.liveTcb]
    exact h.liveTcb ((hu.tcb t v).mp ht).1
  · rw [hu.liveVcpu]
    exact h.liveVcpu ((hu.tcb t v).mp ht).1
  · rw [hu.cur] at hc
    rw [hu.liveTcb, hu.affinity]
    exact h.cur hc (hsw hn)

section

variable (h : VcpuInv s)
include h

/-- A core other than the holder switches to its idle thread, or the holder to any of its threads. -/
theorem VcpuInv.setCurThread {o : Option Word}
    (ho : ∀ t, o = some t → s.liveTcb t = true ∧ s.tcbAffinity t = c) : VcpuInv (s.setCurThread c o) := by
  refine ⟨h.inverse, h.liveTcb, h.liveVcpu, fun {d t} hd hn => ?_, h.notFailed⟩
  by_cases hdc : d = c
  · subst hdc
    have hot : o = some t := by simpa [setCurThread] using hd
    exact ho t hot
  · have hcur : s.ksCurThread d = some t := by simpa [VcpuState.setCurThread, hdc] using hd
    exact h.cur hcur hn

theorem VcpuInv.switchToIdleThread (c : Fin n) : VcpuInv (s.switchToIdleThread c) :=
  ((frame_vcpuSwitch s c none).inv h).setCurThread fun _ ht => absurd ht nofun

/-- The obligation to switch is over, once the current thread is one that may be returned to. -/
theorem VcpuInv.switched
    (hm : ∀ c t, s.Switching c → s.ksCurThread c = some t → s.liveTcb t = true ∧ s.tcbAffinity t = c) :
    VcpuInv { s with mustSwitch := false } := by
  refine ⟨h.inverse, h.liveTcb, h.liveVcpu, fun {c t} hc _ => ?_, h.notFailed⟩
  by_cases hs : s.Switching c
  · exact hm c t hs hc
  · exact h.cur hc hs

theorem VcpuInv.remoteTCBStall (hh : s.holder = some me) (t : Word) :
    VcpuInv (s.remoteTCBStall me t) ∧ ∀ c ≠ me, (s.remoteTCBStall me t).ksCurThread c ≠ some t := by
  have haff : ∀ c ≠ me, s.ksCurThread c = some t → s.tcbAffinity t = c := by
    intro c hc hcur
    exact (h.cur hcur fun hs => hc (Option.some.inj (hs.1.symm.trans hh))).2
  unfold VcpuState.remoteTCBStall
  split_ifs with hst
  · refine ⟨h.switchToIdleThread _, fun c hc hcur => ?_⟩
    have hcur' := (frame_vcpuSwitch s (s.tcbAffinity t) none).cur
    by_cases hca : c = s.tcbAffinity t
    · simp [VcpuState.switchToIdleThread, VcpuState.setCurThread, hca] at hcur
    · have hcur : s.ksCurThread c = some t := by
        simpa [VcpuState.switchToIdleThread, VcpuState.setCurThread, hca, hcur'] using hcur
      exact hca (haff c hc hcur).symm
  · refine ⟨h, fun c hc hcur => hst ?_⟩
    have hca := haff c hc hcur
    exact ⟨hca ▸ hc, by rw [hca]; exact hcur⟩

end

/-- Nothing but the current thread of another core changes by a stall. -/
structure StallFrame (s s' : VcpuState n) (me : Fin n) : Prop where
  cur : s'.ksCurThread me = s.ksCurThread me
  loaded : s'.armHSCurVCPU = s.armHSCurVCPU
  tcbVCPU : s'.tcbVCPU = s.tcbVCPU
  vcpuTCB : s'.vcpuTCB = s.vcpuTCB
  affinity : s'.tcbAffinity = s.tcbAffinity
  liveTcb : s'.liveTcb = s.liveTcb
  liveVcpu : s'.liveVcpu = s.liveVcpu
  holder : s'.holder = s.holder
  mustSwitch : s'.mustSwitch = s.mustSwitch

theorem frame_switchToIdleThread (s : VcpuState n) (hc : c ≠ me) :
    StallFrame s (s.switchToIdleThread c) me := by
  have hf := frame_vcpuSwitch s c none
  refine ⟨?_, vcpuSwitch_none_loaded s c, hf.tcbVCPU, hf.vcpuTCB, hf.affinity, hf.liveTcb, hf.liveVcpu,
    hf.holder, hf.mustSwitch⟩
  simp [switchToIdleThread, setCurThread, hc.symm, hf.cur]

theorem frame_remoteTCBStall (s : VcpuState n) (me : Fin n) (t : Word) :
    StallFrame s (s.remoteTCBStall me t) me := by
  unfold remoteTCBStall
  split_ifs with h
  · exact frame_switchToIdleThread s h.1
  · exact ⟨rfl, rfl, rfl, rfl, rfl, rfl, rfl, rfl, rfl⟩

theorem StallFrame.fresh_iff (hf : StallFrame s s' me) : s'.Fresh ↔ s.Fresh := by
  unfold Fresh
  rw [hf.loaded, hf.liveVcpu, hf.vcpuTCB, hf.affinity]

theorem remoteTCBStall_savedDeleted (hf : s.Fresh) (me : Fin n) (t : Word) :
    (s.remoteTCBStall me t).savedDeleted = s.savedDeleted := by
  unfold remoteTCBStall
  split_ifs with h
  · exact vcpuSwitch_savedDeleted s _ none fun u hu => (hf _ u hu).1
  · rfl

/-! ## Operations -/

/-- What an operation from `s` to `s'` does: it keeps what holds in any case, and what is loaded stays
fresh exactly if `P`. -/
structure OpSpec (s s' : VcpuState n) (P : Prop) : Prop where
  inv : VcpuInv s'
  fresh : s.Fresh → (s'.Fresh ↔ P)
  saved : s.Fresh → s'.savedDeleted = s.savedDeleted

section

variable (h : VcpuInv s) (hh : s.holder = some me)
include h hh

theorem opSpec_switchToThread (hlive : s.liveTcb t = true)
    (haff : s.tcbAffinity t = me) : OpSpec s (s.switchToThread me t) True := by
  have hf := frame_vcpuSwitch s me (s.tcbVCPU t)
  have hinv : VcpuInv ((s.vcpuSwitch me (s.tcbVCPU t)).setCurThread me (some t)) := by
    refine (hf.inv h).setCurThread fun u hu => ?_
    obtain rfl := Option.some.inj hu
    rw [hf.liveTcb, hf.affinity]
    exact ⟨hlive, haff⟩
  refine ⟨hinv.switched fun c u hc hu => ?_,
    fun hfr => iff_of_true (hf.fresh_iff.mpr fun c v hc => ?_) trivial,
    fun hfr => vcpuSwitch_savedDeleted s me _ fun u hu => (hfr me u hu).1⟩
  · obtain rfl : me = c := Option.some.inj ((hf.holder.trans hh).symm.trans hc.1)
    obtain rfl : t = u := by simpa [setCurThread] using hu
    exact ⟨(congrFun hf.liveTcb t).trans hlive, (congrFun hf.affinity t).trans haff⟩
  · cases hb : s.tcbVCPU t with
    | none =>
      rw [hb, vcpuSwitch_none_loaded] at hc
      exact hfr c v hc
    | some w =>
      rw [hb, vcpuSwitch_some_loaded] at hc
      by_cases hcm : c = me
      · subst hcm
        obtain rfl : w = v := by simpa using hc
        exact ⟨h.liveVcpu hb, t, (h.inverse t w).mp hb, haff⟩
      · rw [update_of_ne hcm] at hc
        exact hfr c v hc

theorem opSpec_switchToIdleThread : OpSpec s { s.switchToIdleThread me with mustSwitch := false } True := by
  have hf := frame_vcpuSwitch s me none
  refine ⟨(h.switchToIdleThread me).switched fun c u hc hu => ?_,
    fun hfr => iff_of_true (hf.fresh_iff.mpr fun c v hc => ?_) trivial,
    fun hfr => vcpuSwitch_savedDeleted s me none fun u hu => (hfr me u hu).1⟩
  · obtain rfl : me = c := Option.some.inj ((hf.holder.trans hh).symm.trans hc.1)
    simp [switchToIdleThread, setCurThread] at hu
  · rw [vcpuSwitch_none_loaded] at hc
    exact hfr c v hc

theorem opSpec_remoteTCBStall (t : Word) : OpSpec s (s.remoteTCBStall me t) True :=
  ⟨(h.remoteTCBStall hh t).1, fun hfr => iff_of_true ((frame_remoteTCBStall s me t).fresh_iff.mpr hfr) trivial,
    fun hfr => remoteTCBStall_savedDeleted hfr me t⟩

end

/-- A thread is moved: its VCPU must not be loaded where it comes from. -/
theorem fresh_migrateTCB_iff (hi : s.Inverse) (hf : s.Fresh) (t : Word) (newCore : Fin n) :
    (s.migrateTCB t newCore).Fresh ↔
      ∀ v ∈ s.tcbVCPU t, ∀ c, s.armHSCurVCPU c = some v → newCore = c := by
  constructor
  · intro hf' v hb c hc
    obtain ⟨-, u, hu, haff⟩ := hf' c v hc
    obtain rfl : t = u := Option.some.inj (((hi t v).mp hb).symm.trans hu)
    simpa [migrateTCB] using haff
  · intro hloc c v hc
    obtain ⟨hlive, u, hu, haff⟩ := hf c v hc
    refine ⟨hlive, u, hu, ?_⟩
    by_cases hut : u = t
    · subst hut
      simpa [migrateTCB] using hloc v ((hi u v).mpr hu) c hc
    · simpa [migrateTCB, hut] using haff

theorem VcpuInv.migrateTCB (h : VcpuInv s) (hsw : ∀ c, s.ksCurThread c = some t → s.Switching c)
    (newCore : Fin n) : VcpuInv (s.migrateTCB t newCore) := by
  refine ⟨h.inverse, h.liveTcb, h.liveVcpu, fun {c u} hc hn => ?_, h.notFailed⟩
  have hut : u ≠ t := fun hut => hn (hsw c (hut ▸ hc))
  obtain ⟨hlive, haff⟩ := h.cur hc hn
  exact ⟨hlive, by simpa [VcpuState.migrateTCB, hut] using haff⟩

theorem VcpuInv.rescheduleIfCurrent (h : VcpuInv s) (me : Fin n) (t : Word) :
    VcpuInv (s.rescheduleIfCurrent me t) := by
  unfold VcpuState.rescheduleIfCurrent
  split_ifs
  · exact ⟨h.inverse, h.liveTcb, h.liveVcpu, fun hc hn => h.cur hc fun hs => hn ⟨hs.1, rfl⟩, h.notFailed⟩
  · exact h

/-- The stall and `rescheduleRequired` before a thread is moved or deleted: nothing that is loaded or bound
changes, and no core has to return to the thread. -/
structure Stalled (s s' : VcpuState n) (t : Word) : Prop where
  inv : VcpuInv s'
  loaded : s'.armHSCurVCPU = s.armHSCurVCPU
  tcbVCPU : s'.tcbVCPU = s.tcbVCPU
  fresh : s.Fresh → s'.Fresh
  saved : s.Fresh → s'.savedDeleted = s.savedDeleted
  switching : ∀ c, s'.ksCurThread c = some t → s'.Switching c

theorem stalled (h : VcpuInv s) (hh : s.holder = some me) (t : Word) :
    Stalled s ((s.remoteTCBStall me t).rescheduleIfCurrent me t) t := by
  have hst := frame_remoteTCBStall s me t
  obtain ⟨hinv, hcur⟩ := h.remoteTCBStall hh t
  have hsd := fun hf => remoteTCBStall_savedDeleted (s := s) hf me t
  have hinv' := hinv.rescheduleIfCurrent me t
  unfold rescheduleIfCurrent at hinv' ⊢
  split_ifs at hinv' ⊢ with hme
  · refine ⟨hinv', hst.loaded, hst.tcbVCPU, hst.fresh_iff.mpr, hsd, fun c hc => ?_⟩
    obtain rfl : c = me := by
      by_contra hne
      exact hcur c hne hc
    exact ⟨hst.holder.trans hh, rfl⟩
  · refine ⟨hinv', hst.loaded, hst.tcbVCPU, hst.fresh_iff.mpr, hsd, fun c hc => ?_⟩
    by_cases hcm : c = me
    · exact absurd (hcm ▸ hc) hme
    · exact absurd hc (hcur c hcm)

theorem rescheduleIfCurrent_migrateTCB (s : VcpuState n) (me : Fin n) (t : Word) (newCore : Fin n) :
    (s.migrateTCB t newCore).rescheduleIfCurrent me t = (s.rescheduleIfCurrent me t).migrateTCB t newCore := by
  have hcur : (s.migrateTCB t newCore).ksCurThread = s.ksCurThread := rfl
  unfold rescheduleIfCurrent
  rw [hcur]
  split_ifs <;> rfl

section

variable (h : VcpuInv s)
include h

section

variable (hh : s.holder = some me)
include hh

theorem opSpec_setAffinity (t : Word) (newCore : Fin n) :
    OpSpec s (s.setAffinity me t newCore) (s.LocalOp me (.setAffinity t newCore)) := by
  have hst := stalled h hh t
  unfold setAffinity
  rw [rescheduleIfCurrent_migrateTCB]
  refine ⟨hst.inv.migrateTCB hst.switching newCore, fun hf => ?_, hst.saved⟩
  rw [fresh_migrateTCB_iff hst.inv.inverse (hst.fresh hf), hst.loaded, hst.tcbVCPU]
  exact .rfl

theorem opSpec_donate (hother : ∀ c ≠ me, s.ksCurThread c ≠ some t)
    (hme : s.ksCurThread me = some t → s.mustSwitch = true) (newCore : Fin n) :
    OpSpec s (s.migrateTCB t newCore) (s.LocalOp me (.donate t newCore)) := by
  refine ⟨h.migrateTCB (fun c hc => ?_) newCore, fun hf => fresh_migrateTCB_iff h.inverse hf t newCore,
    fun _ => rfl⟩
  obtain rfl : c = me := by
    by_contra hne
    exact hother c hne hc
  exact ⟨hh, hme hc⟩

theorem opSpec_deleteTcb (t : Word) :
    OpSpec s (s.deleteTcb me t) (s.LocalOp me (.deleteTcb t)) := by
  have hst := stalled h hh t
  have hu := unbinds_dissociateTcb hst.inv.inverse me t
  have hui := hu.inv hst.inv
  refine ⟨⟨hui.inverse, fun {t' v} hb' => ?_, hui.liveVcpu, fun {c u} hc hn => ?_, hui.notFailed⟩,
    fun hf => ?_, fun hf => hu.savedDeleted.trans (hst.saved hf)⟩
  · have hne : t' ≠ t := ((hu.tcb t' v).mp hb').2
    exact (update_of_ne hne _ _).trans (hui.liveTcb hb')
  · have hne : u ≠ t := by
      rintro rfl
      have hs := hst.switching c ((congrFun hu.cur c).symm.trans hc)
      exact hn ⟨hu.holder.trans hs.1, hu.mustSwitch.trans hs.2⟩
    obtain ⟨hlive, haff⟩ := hui.cur hc hn
    exact ⟨(update_of_ne hne _ _).trans hlive, haff⟩
  · have hiff := hu.fresh_iff hst.inv.inverse (hst.fresh hf)
    rw [hst.loaded, hst.tcbVCPU] at hiff
    refine .trans hiff ⟨fun hloc v hb' c hc => hloc t v c hb' rfl hc, ?_⟩
    rintro hloc t' v c hb' rfl hc
    exact hloc v hb' c hc

end

theorem opSpec_deleteVcpu (v : Word) (me : Fin n) :
    OpSpec s (s.deleteVcpu me v) (s.LocalOp me (.deleteVcpu v)) := by
  have hu := unbinds_dissociateVcpu h.inverse me v
  have hui := hu.inv h
  refine ⟨⟨hui.inverse, hui.liveTcb, fun {t u} hb => ?_, hui.cur, hui.notFailed⟩, fun hf => ⟨?_, ?_⟩,
    fun _ => hu.savedDeleted⟩
  · have hne : u ≠ v := ((hu.tcb t u).mp hb).2
    exact (update_of_ne hne _ _).trans (hui.liveVcpu hb)
  · intro hf' c hc hl
    obtain ⟨hlive, -⟩ := hf' c v ((hu.loaded c v).mpr ⟨hl, fun hm => hc hm.1⟩)
    simp [deleteVcpu] at hlive
  · intro hloc c u hc
    have hfu : (s.dissociateVcpu me v).Fresh := by
      refine (hu.fresh_iff h.inverse hf).mpr ?_
      rintro t w c' - rfl hc'
      exact hloc c' hc'
    obtain ⟨hlive, t, ht, haff⟩ := hfu c u hc
    have hne : u ≠ v := ((hu.vcpu t u).mp ht).2
    exact ⟨(update_of_ne hne _ _).trans hlive, t, ht, haff⟩

/-- A thread and a VCPU that are both free are bound to each other. -/
theorem VcpuInv.bind (ht : s.tcbVCPU t = none) (hv : s.vcpuTCB v = none)
    (hlt : s.liveTcb t = true) (hlv : s.liveVcpu v = true) : VcpuInv (s.bind v t) := by
  have hpair : ∀ {t' u}, (s.bind v t).tcbVCPU t' = some u →
      (t' = t ∧ u = v) ∨ s.tcbVCPU t' = some u := by
    intro t' u hb
    by_cases htt : t' = t
    · subst htt
      obtain rfl : v = u := by simpa [bind] using hb
      exact .inl ⟨rfl, rfl⟩
    · exact .inr (by simpa [VcpuState.bind, htt] using hb)
  refine ⟨fun t' u => ?_, fun hb => ?_, fun hb => ?_, h.cur, h.notFailed⟩
  · by_cases htt : t' = t <;> by_cases huv : u = v
    · simp [VcpuState.bind, htt, huv]
    · have hn : s.vcpuTCB u ≠ some t := fun hu => absurd (ht.symm.trans ((h.inverse t u).mpr hu)) nofun
      simp [VcpuState.bind, htt, huv, hn, Ne.symm huv]
    · have hn : s.tcbVCPU t' ≠ some v := fun hu => absurd (hv.symm.trans ((h.inverse t' v).mp hu)) nofun
      simp [VcpuState.bind, htt, huv, hn, Ne.symm htt]
    · simpa [VcpuState.bind, htt, huv] using h.inverse t' u
  · rcases hpair hb with ⟨rfl, -⟩ | hb
    · exact hlt
    · exact h.liveTcb hb
  · rcases hpair hb with ⟨-, rfl⟩ | hb
    · exact hlv
    · exact h.liveVcpu hb

/-- `associateVCPUTCB` up to the switch: old bindings of both sides are given up first. -/
theorem fresh_bind_iff (hf : s.Fresh) (hlv : s.liveVcpu v = true)
    (hu : Unbinds s s' me fun t' u => t' = t ∨ u = v) :
    (s'.bind v t).Fresh ↔ s.LocalOp me (.setTCB v t) := by
  constructor
  · intro hf' c hc
    have hl : ∀ {u}, s.armHSCurVCPU c = some u → (s'.bind v t).armHSCurVCPU c = some u :=
      fun {u} hcu => (hu.loaded c u).mpr ⟨hcu, fun hm => hc hm.1⟩
    refine ⟨fun hcv => ?_, fun v' hb hne hcv => ?_⟩
    · obtain ⟨-, t', ht', haff⟩ := hf' c v (hl hcv)
      obtain rfl : t = t' := by simpa [bind] using ht'
      rw [← hu.affinity]
      exact haff
    · obtain ⟨-, t', ht', -⟩ := hf' c v' (hl hcv)
      have ht' : s'.vcpuTCB v' = some t' := by simpa [bind, hne] using ht'
      obtain ⟨ht', hnR⟩ := (hu.vcpu t' v').mp ht'
      exact hnR (.inl (Option.some.inj (ht'.symm.trans ((h.inverse t v').mp hb))))
  · intro hloc c u hcu'
    obtain ⟨hcu, hnme⟩ := (hu.loaded c u).mp hcu'
    obtain ⟨hlive, t0, ht0, haff⟩ := hf c u hcu
    have hb0 := (h.inverse t0 u).mpr ht0
    refine ⟨(congrFun hu.liveVcpu u).trans hlive, ?_⟩
    show ∃ t', update s'.vcpuTCB v (some t) u = some t' ∧ s'.tcbAffinity t' = c
    rw [hu.affinity]
    by_cases huv : u = v
    · -- loaded on another core, and now bound to a thread of that core
      subst huv
      have hcm : c ≠ me := fun hcm => hnme ⟨hcm, t0, .inr rfl, hb0⟩
      exact ⟨t, update_self _ _ _, (hloc c hcm).1 hcu⟩
    · have hne : t0 ≠ t := by
        rintro rfl
        by_cases hcm : c = me
        · exact hnme ⟨hcm, t0, .inl rfl, hb0⟩
        · exact (hloc c hcm).2 u hb0 huv hcu
      refine ⟨t0, ?_, haff⟩
      rw [update_of_ne huv]
      exact (hu.vcpu t0 u).mpr ⟨ht0, fun hR => hR.elim hne huv⟩

theorem opSpec_setTCB (hh : s.holder = some me) (hlv : s.liveVcpu v = true)
    (hlt : s.liveTcb t = true) (hmust : s.mustSwitch = false) :
    OpSpec s (s.associateVCPUTCB me v t) (s.LocalOp me (.setTCB v t)) := by
  have hu1 := unbinds_dissociateTcb h.inverse me t
  have hu := hu1.comp (unbinds_dissociateVcpu (hu1.inverse h.inverse) me v)
  have hnt : ((s.dissociateTcb me t).dissociateVcpu me v).tcbVCPU t = none :=
    Option.eq_none_iff_forall_ne_some.mpr fun u hb => ((hu.tcb t u).mp hb).2 (.inl rfl)
  have hnv : ((s.dissociateTcb me t).dissociateVcpu me v).vcpuTCB v = none :=
    Option.eq_none_iff_forall_ne_some.mpr fun t' hb => ((hu.vcpu t' v).mp hb).2 (.inr rfl)
  have hinv := (hu.inv h).bind hnt hnv ((congrFun hu.liveTcb t).trans hlt)
    ((congrFun hu.liveVcpu v).trans hlv)
  unfold associateVCPUTCB
  dsimp only
  split_ifs with hcur
  · have hcur : s.ksCurThread me = some t := (congrFun hu.cur me).symm.trans hcur
    have haff := (h.cur hcur fun hs => absurd (hmust.symm.trans hs.2) nofun).2
    have hf' := frame_vcpuSwitch (((s.dissociateTcb me t).dissociateVcpu me v).bind v t) me (some v)
    refine ⟨hf'.inv hinv, fun hf => .trans ?_ (fresh_bind_iff h hf hlv hu), fun hf => ?_⟩
    · -- the core of the thread loads its VCPU, and all other cores keep what they have
      rw [hf'.fresh_iff, vcpuSwitch_some_loaded]
      have haff' : (((s.dissociateTcb me t).dissociateVcpu me v).bind v t).tcbAffinity t = me :=
        (congrFun hu.affinity t).trans haff
      constructor
      · intro hfr c u hc
        by_cases hcm : c = me
        · subst hcm
          obtain ⟨hcu, hnme⟩ := (hu.loaded c u).mp hc
          obtain ⟨hlive, t0, ht0, haff0⟩ := hf c u hcu
          have hnR : ¬ (t0 = t ∨ u = v) := fun hR => hnme ⟨rfl, t0, hR, (h.inverse t0 u).mpr ht0⟩
          refine ⟨(congrFun hu.liveVcpu u).trans hlive, t0, ?_, (congrFun hu.affinity t0).trans haff0⟩
          exact (update_of_ne (fun huv => hnR (.inr huv)) _ _).trans ((hu.vcpu t0 u).mpr ⟨ht0, hnR⟩)
        · exact hfr c u (by rw [update_of_ne hcm]; exact hc)
      · intro hfr c u hc
        by_cases hcm : c = me
        · subst hcm
          obtain rfl : v = u := by simpa using hc
          exact ⟨(congrFun hu.liveVcpu v).trans hlv, t, update_self _ _ _, haff'⟩
        · rw [update_of_ne hcm] at hc
          exact hfr c u hc
    · refine (vcpuSwitch_savedDeleted _ me (some v) fun u hcu => ?_).trans hu.savedDeleted
      exact (congrFun hu.liveVcpu u).trans (hf me u ((hu.loaded me u).mp hcu).1).1
  · exact ⟨hinv, fun hf => fresh_bind_iff h hf hlv hu, fun _ => hu.savedDeleted⟩

theorem opSpec_createTcb (ht : s.liveTcb t = false) (me affinity : Fin n) :
    OpSpec s { s with liveTcb := update s.liveTcb t true,
                      tcbAffinity := update s.tcbAffinity t affinity }
      (s.LocalOp me (.createTcb t affinity)) := by
  have hne : ∀ {t' v}, s.tcbVCPU t' = some v → t' ≠ t := by
    rintro t' v hb rfl
    exact nomatch ht.symm.trans (h.liveTcb hb)
  refine ⟨⟨h.inverse, fun hb => ?_, h.liveVcpu, fun {c u} hc hn => ?_, h.notFailed⟩,
    fun hf => iff_of_true (fun c v hc => ?_) trivial, fun _ => rfl⟩
  · exact (update_of_ne (hne hb) _ _).trans (h.liveTcb hb)
  · obtain ⟨hlive, haff⟩ := h.cur hc hn
    have hut : u ≠ t := by
      rintro rfl
      exact nomatch ht.symm.trans hlive
    exact ⟨(update_of_ne hut _ _).trans hlive, (update_of_ne hut _ _).trans haff⟩
  · obtain ⟨hlive, u, hu, haff⟩ := hf c v hc
    have hut := hne ((h.inverse u v).mpr hu)
    exact ⟨hlive, u, hu, (update_of_ne hut _ _).trans haff⟩

theorem opSpec_createVcpu (me : Fin n) (v : Word) :
    OpSpec s { s with liveVcpu := update s.liveVcpu v true }
      (s.LocalOp me (.createVcpu v)) := by
  have hmono : ∀ u, s.liveVcpu u = true → update s.liveVcpu v true u = true := by
    intro u hu
    by_cases huv : u = v
    · simp [huv]
    · simpa [huv] using hu
  exact ⟨⟨h.inverse, h.liveTcb, fun hb => hmono _ (h.liveVcpu hb), h.cur, h.notFailed⟩,
    fun hf => iff_of_true (fun c u hc => ⟨hmono u (hf c u hc).1, (hf c u hc).2⟩) trivial, fun _ => rfl⟩

/-! ## Runs -/

/-- Every operation of the holder. -/
theorem opSpec_kernel (hh : s.holder = some me) {o : VcpuOp n}
    (hk : s.kernel me o = some s') : OpSpec s s' (s.LocalOp me o) := by
  cases o with
  | switchToThread t =>
    obtain ⟨⟨hlive, haff⟩, rfl⟩ := Option.ite_some_none_eq_some.mp hk
    exact opSpec_switchToThread h hh hlive haff
  | switchToIdleThread =>
    obtain rfl := Option.some.inj hk
    exact opSpec_switchToIdleThread h hh
  | remoteTCBStall t =>
    obtain rfl := Option.some.inj hk
    exact opSpec_remoteTCBStall h hh t
  | setAffinity t newCore =>
    obtain ⟨-, rfl⟩ := Option.ite_some_none_eq_some.mp hk
    exact opSpec_setAffinity h hh t newCore
  | donate t newCore =>
    obtain ⟨⟨-, hother, hme⟩, rfl⟩ := Option.ite_some_none_eq_some.mp hk
    exact opSpec_donate h hh hother hme newCore
  | setTCB v t =>
    obtain ⟨⟨hlv, hlt, hmust⟩, rfl⟩ := Option.ite_some_none_eq_some.mp hk
    exact opSpec_setTCB h hh hlv hlt hmust
  | deleteTcb t =>
    obtain ⟨-, rfl⟩ := Option.ite_some_none_eq_some.mp hk
    exact opSpec_deleteTcb h hh t
  | deleteVcpu v =>
    obtain ⟨-, rfl⟩ := Option.ite_some_none_eq_some.mp hk
    exact opSpec_deleteVcpu h v me
  | createTcb t affinity =>
    obtain ⟨ht, ⟨⟩⟩ := Option.ite_none_left_eq_some.mp hk
    exact opSpec_createTcb h (Bool.eq_false_iff.mpr ht) me affinity
  | createVcpu v =>
    obtain ⟨-, ⟨⟩⟩ := Option.ite_none_left_eq_some.mp hk
    exact opSpec_createVcpu h me v

/-- Every event. -/
theorem opSpec_next {e : VcpuEvent n} (hn : s.next e = some s') : OpSpec s s' (s.Local e) := by
  cases e with
  | enter c =>
    obtain ⟨hh, rfl⟩ := Option.ite_some_none_eq_some.mp hn
    refine ⟨⟨h.inverse, h.liveTcb, h.liveVcpu, fun hc _ => h.cur hc fun hs => ?_, h.notFailed⟩,
      fun hf => iff_of_true hf trivial, fun _ => rfl⟩
    exact nomatch hh.symm.trans hs.1
  | op o =>
    unfold next at hn
    cases hh : s.holder with
    | none =>
      rw [hh] at hn
      cases hn
    | some me =>
      rw [hh] at hn
      have hop := opSpec_kernel h hh hn
      refine ⟨hop.inv, fun hf => (hop.fresh hf).trans ⟨fun hl me' hm => ?_, fun hl => hl me hh⟩, hop.saved⟩
      exact Option.mem_unique hh hm ▸ hl
  | exit =>
    obtain ⟨⟨-, hmust⟩, rfl⟩ := Option.ite_some_none_eq_some.mp hn
    refine ⟨⟨h.inverse, h.liveTcb, h.liveVcpu, fun hc _ => h.cur hc fun hs => ?_, h.notFailed⟩,
      fun hf => iff_of_true hf trivial, fun _ => rfl⟩
    exact nomatch hmust.symm.trans hs.2

end

theorem boot_inv (tcbAffinity : Word → Fin n) (liveTcb liveVcpu : Word → Bool) :
    VcpuInv (boot tcbAffinity liveTcb liveVcpu) :=
  ⟨fun _ _ => iff_of_false nofun nofun, fun h => absurd h nofun, fun h => absurd h nofun,
    fun h => absurd h nofun, rfl⟩

/-- What is fresh is loaded on one core only. -/
theorem Fresh.unique (hf : s.Fresh) {d : Fin n} (hc : s.armHSCurVCPU c = some v)
    (hd : s.armHSCurVCPU d = some v) : c = d := by
  obtain ⟨-, t, ht, hct⟩ := hf c v hc
  obtain ⟨-, u, hu, hdu⟩ := hf d v hd
  obtain rfl : t = u := Option.mem_unique ht hu
  exact hct.symm.trans hdu

/-- As long as what is loaded is fresh, nothing is saved into a deleted VCPU. -/
theorem savedDeleted_of_always (h : VcpuInv s) {tr : List (VcpuEvent n)}
    (hr : runFrom next s tr = some s') (ha : Always next Fresh s tr) :
    s'.savedDeleted = s.savedDeleted := by
  induction tr generalizing s with
  | nil => exact congrArg savedDeleted (Option.some.inj hr).symm
  | cons e tr ih =>
    obtain ⟨s1, hn, hr1⟩ := runFrom_cons hr
    have hop := opSpec_next h hn
    exact (ih hop.inv hr1 (ha.2 s1 hn)).trans (hop.saved ha.head)

/-- **When a loaded VCPU is never stale.** What is loaded stays fresh all along a run if and only if
every step is local. Then a VCPU is loaded on at most one core, and nothing is saved into a deleted one.
In any case `tcbVCPU` and `vcpuTCB` are inverses, so that `dissociateVCPUTCB` never fails. -/
theorem loaded_vcpu_fresh_iff (tcbAffinity : Word → Fin n) (liveTcb liveVcpu : Word → Bool)
    {tr : List (VcpuEvent n)} {s : VcpuState n}
    (h : runFrom next (boot tcbAffinity liveTcb liveVcpu) tr = some s) :
    (Always next Fresh (boot tcbAffinity liveTcb liveVcpu) tr ↔
      EveryStep next Local (boot tcbAffinity liveTcb liveVcpu) tr) ∧
    (Always next Fresh (boot tcbAffinity liveTcb liveVcpu) tr →
      (∀ c d v, s.armHSCurVCPU c = some v → s.armHSCurVCPU d = some v → c = d) ∧
      s.savedDeleted = false) ∧
    (∀ t v, s.tcbVCPU t = some v ↔ s.vcpuTCB v = some t) ∧ s.failed = false := by
  have hboot := boot_inv tcbAffinity liveTcb liveVcpu
  have hinv : VcpuInv s :=
    runFrom_invariant (P := fun _ s => VcpuInv s) hboot (fun _ _ _ _ _ hs hn => (opSpec_next hs hn).inv) h
  refine ⟨?_, fun ha => ⟨fun c d v hc hd => (ha.last h).unique hc hd, savedDeleted_of_always hboot h ha⟩,
    hinv.inverse, hinv.notFailed⟩
  exact always_iff_everyStep (fun _ _ _ hs hn => (opSpec_next hs hn).inv)
    (fun _ _ _ hs hf hn => (opSpec_next hs hn).fresh hf) h hboot (fun _ _ hc => absurd hc nofun)

local instance : NeZero 2 := ⟨two_ne_zero⟩

/-- Two cores, with thread 1 on core 1 and VCPU 16. -/
def dualBoot : VcpuState 2 := boot (fun _ => 1) (fun t => t == 1) (fun v => v == 16)

/-- Core 1 loads the VCPU of its thread and deletes it. -/
def localRun : List (VcpuEvent 2) :=
  [.enter 0, .op (.setTCB 16 1), .exit, .enter 1, .op (.switchToThread 1), .op (.deleteVcpu 16), .exit]

theorem loaded_vcpu_fresh_iff_localRun :
    (runFrom next dualBoot localRun).isSome = true ∧ EveryStep next Local dualBoot localRun ∧
      Always next Fresh dualBoot localRun := by
  have hsome : (runFrom next dualBoot localRun).isSome = true := by decide +kernel
  obtain ⟨s, hs⟩ := Option.isSome_iff_exists.mp hsome
  have hloc : EveryStep next Local dualBoot localRun := by decide +kernel
  exact ⟨hsome, hloc, (loaded_vcpu_fresh_iff _ _ _ hs).1.mpr hloc⟩

/-- Core 0 deletes the VCPU while core 1 has it loaded; core 1 then switches to its idle thread. -/
def remoteRun : List (VcpuEvent 2) :=
  [.enter 0, .op (.setTCB 16 1), .exit, .enter 1, .op (.switchToThread 1), .exit,
    .enter 0, .op (.deleteVcpu 16), .exit, .enter 1, .op .switchToIdleThread, .exit]

/-- **A deleted VCPU stays loaded on another core**, and that core saves registers into it. -/
theorem deleted_vcpu_still_loaded : (runFrom next dualBoot remoteRun).map
      (fun s => (s.armHSCurVCPU 1, s.liveVcpu 16, s.vcpuTCB 16, s.savedDeleted)) =
      some (some 16, false, none, true) ∧ ¬ Always next Fresh dualBoot remoteRun := by
  have hmap : (runFrom next dualBoot remoteRun).map
      (fun s => (s.armHSCurVCPU 1, s.liveVcpu 16, s.vcpuTCB 16, s.savedDeleted)) =
      some (some 16, false, none, true) := by decide +kernel
  refine ⟨hmap, fun ha => ?_⟩
  obtain ⟨s, hs, hproj⟩ := Option.map_eq_some_iff.mp hmap
  obtain ⟨hl, hlive, -, -⟩ : s.armHSCurVCPU 1 = some 16 ∧ s.liveVcpu 16 = false ∧
      s.vcpuTCB 16 = none ∧ s.savedDeleted = true := by
    simpa only [Prod.mk.injEq] using hproj
  exact absurd (((ha.last hs) 1 16 hl).1.symm.trans hlive) nofun

end VcpuState

end SeL4.Smp
