import SeL4.Smp.Fpu

/-!
# Isolation of FPU state

A thread that may use the FPU finds in it, whenever it runs, exactly the values it left there, and a
thread that may not use it traps: `fpu_isolated`, for every run of `FpuState.next`.

`FpuInv s E` is the invariant. It says where the values of each thread are (`Banks.Coherent`), which
threads can be owners, and that the current thread of a core finds the FPU as it needs it (`Placed`).
The cores of `E` are left out of the last part: the holder between the moment where its current
thread is taken away from it and the switch to another (`Switching`).

* `FpuInv.flush`: a core may lose its owner if its current thread does not use the FPU.
* `FpuInv.fpuRelease`: so a thread that no core runs can be made to own no FPU;
* `FpuInv.update_thread`: after which its affinity, flags and life may change.
* `FpuInv.lazyFPURestore`: what makes the FPU ready for a thread that is switched to.
-/

namespace SeL4.Smp

open SeL4.Lib Function

namespace FpuState

variable {cfg : FpuConfig}

/-! ## What the functions of `fpu.c` leave alone -/

/-- Only the FPU of core `c` and saved values differ. -/
structure FpuFrame (c : Fin cfg.numCores) (s s' : FpuState cfg) : Prop where
  cur : s'.ksCurThread = s.ksCurThread
  affinity : s'.tcbAffinity = s.tcbAffinity
  flags : s'.tcbFlags = s.tcbFlags
  domain : s'.ksCurDomain = s.ksCurDomain
  live : s'.live = s.live
  holder : s'.holder = s.holder
  mustSwitch : s'.mustSwitch = s.mustSwitch
  left : s'.left = s.left
  owner : ∀ d ≠ c, s'.ksCurFPUOwner d = s.ksCurFPUOwner d
  traps : ∀ d ≠ c, s'.traps d = s.traps d

variable {s s' : FpuState cfg} {c me : Fin cfg.numCores} {t : Word}

theorem FpuFrame.fpuDisabled (h : FpuFrame c s s') (t : Word) : s'.fpuDisabled t = s.fpuDisabled t := by
  simp only [FpuState.fpuDisabled, h.flags]

theorem FpuFrame.trans {s'' : FpuState cfg} (h : FpuFrame c s s') (h' : FpuFrame c s' s'') :
    FpuFrame c s s'' :=
  ⟨h'.cur.trans h.cur, h'.affinity.trans h.affinity, h'.flags.trans h.flags, h'.domain.trans h.domain,
    h'.live.trans h.live, h'.holder.trans h.holder, h'.mustSwitch.trans h.mustSwitch,
    h'.left.trans h.left, fun d hd => (h'.owner d hd).trans (h.owner d hd),
    fun d hd => (h'.traps d hd).trans (h.traps d hd)⟩

section

variable (s c)

theorem traps_update_of_ne {c d : Fin cfg.numCores} (h : d ≠ c) (r : FpuControl) :
    ({ s with control := update s.control c r } : FpuState cfg).traps d = s.traps d := by
  simp [traps, h]

theorem frame_enableFpu : FpuFrame c s (s.enableFpu c) :=
  ⟨rfl, rfl, rfl, rfl, rfl, rfl, rfl, rfl, fun _ _ => rfl, fun _ hd => traps_update_of_ne s hd _⟩

theorem frame_disableFpu : FpuFrame c s (s.disableFpu c) :=
  ⟨rfl, rfl, rfl, rfl, rfl, rfl, rfl, rfl, fun _ _ => rfl, fun _ hd => traps_update_of_ne s hd _⟩

@[simp] theorem traps_enableFpu : (s.enableFpu c).traps c = false := by
  simp [traps, enableFpu]

@[simp] theorem traps_disableFpu : (s.disableFpu c).traps c = true := by
  simp [traps, disableFpu]

theorem frame_saveFpuState (t : Word) : FpuFrame c s (s.saveFpuState c t) :=
  ⟨rfl, rfl, rfl, rfl, rfl, rfl, rfl, rfl, fun _ _ => rfl, fun _ _ => rfl⟩

theorem frame_loadFpuState (t : Word) : FpuFrame c s (s.loadFpuState c t) :=
  ⟨rfl, rfl, rfl, rfl, rfl, rfl, rfl, rfl, fun _ _ => rfl, fun _ _ => rfl⟩

theorem frame_setOwner (o : Option Word) : FpuFrame c s (s.setOwner c o) :=
  ⟨rfl, rfl, rfl, rfl, rfl, rfl, rfl, rfl, fun d hd => by simp [setOwner, hd], fun _ _ => rfl⟩

theorem frame_saveOwner : FpuFrame c s (s.saveOwner c) := by
  unfold saveOwner
  split
  · exact frame_saveFpuState s c _
  · exact ⟨rfl, rfl, rfl, rfl, rfl, rfl, rfl, rfl, fun _ _ => rfl, fun _ _ => rfl⟩

theorem frame_loadOwner (o : Option Word) : FpuFrame c s (s.loadOwner c o) := by
  cases o with
  | none => exact frame_disableFpu s c
  | some t => exact frame_loadFpuState s c t

theorem frame_switchLocalFpuOwner (o : Option Word) : FpuFrame c s (s.switchLocalFpuOwner c o) :=
  (((frame_enableFpu s c).trans (frame_saveOwner _ c)).trans (frame_loadOwner _ c o)).trans
    (frame_setOwner _ c o)

theorem banks_saveOwner : (s.saveOwner c).banks = s.banks.save c := by
  cases h : s.ksCurFPUOwner c <;> simp [saveOwner, Banks.save, banks, saveFpuState, h]

/-- A switch of the owner is a switch of the bank. -/
theorem banks_switchLocalFpuOwner (o : Option Word) :
    (s.switchLocalFpuOwner c o).banks = s.banks.switch c o := by
  have hload : ∀ s' : FpuState cfg, ((s'.loadOwner c o).setOwner c o).banks = s'.banks.load c o := by
    intro s'
    cases o <;> rfl
  exact (hload _).trans (congrArg (Banks.load · c o) (banks_saveOwner (s.enableFpu c) c))

theorem switchLocalFpuOwner_owner (o : Option Word) : (s.switchLocalFpuOwner c o).ksCurFPUOwner c = o := by
  simp [switchLocalFpuOwner, setOwner]

theorem traps_switchLocalFpuOwner_none : (s.switchLocalFpuOwner c none).traps c = true :=
  traps_disableFpu _ c

theorem traps_switchLocalFpuOwner_some (t : Word) : (s.switchLocalFpuOwner c (some t)).traps c = false := by
  have hsave : ((s.enableFpu c).saveOwner c).traps c = (s.enableFpu c).traps c := by
    unfold saveOwner
    cases (s.enableFpu c).ksCurFPUOwner c <;> rfl
  exact hsave.trans (traps_enableFpu s c)

end

theorem switchFpuOwner_eq (s : FpuState cfg) (me cpu : Fin cfg.numCores) (o : Option Word) :
    s.switchFpuOwner me o cpu = s.switchLocalFpuOwner cpu o := by
  unfold switchFpuOwner
  split_ifs with h
  · rfl
  · rw [not_not.mp h]

/-! ## The invariant -/

/-- Core `c` is as its current thread `t` needs it. -/
structure Placed (s : FpuState cfg) (c : Fin cfg.numCores) (t : Word) : Prop where
  live : s.live t = true
  affinity : s.tcbAffinity t = c
  owner : s.fpuDisabled t = false → s.ksCurFPUOwner c = some t
  traps : s.traps c = s.fpuDisabled t

/-- The invariant, but for the current threads of the cores of `E`. -/
structure FpuInv (s : FpuState cfg) (E : Fin cfg.numCores → Prop) : Prop where
  coherent : s.banks.Coherent s.left
  affinity : ∀ {c t}, s.ksCurFPUOwner c = some t → s.tcbAffinity t = c
  enabled : ∀ {c t}, s.ksCurFPUOwner c = some t → s.fpuDisabled t = false
  live : ∀ {c t}, s.ksCurFPUOwner c = some t → s.live t = true
  placed : ∀ {c t}, s.ksCurThread c = some t → ¬ E c → s.Placed c t
  domain : s.ksCurDomain < cfg.numDomains

/-- The holder of the lock has to switch before it returns to user mode. -/
def Switching (s : FpuState cfg) (c : Fin cfg.numCores) : Prop := s.holder = some c ∧ s.mustSwitch = true

variable {E E' : Fin cfg.numCores → Prop}

section

variable (h : FpuInv s E)
include h

theorem FpuInv.mono (hE : ∀ c t, s.ksCurThread c = some t → E c → E' c) : FpuInv s E' :=
  ⟨h.coherent, h.affinity, h.enabled, h.live,
    fun {c t} hc hn => h.placed hc fun he => hn (hE c t hc he), h.domain⟩

/-- The current threads, the lock and the domain may change, if each current thread is in place. -/
theorem FpuInv.resume {cur : Fin cfg.numCores → Option Word}
    {holder : Option (Fin cfg.numCores)} {must : Bool} {dom : Nat} {tcbDomain : Word → Nat}
    (hdom : dom < cfg.numDomains) (hp : ∀ {c t}, cur c = some t → ¬ E' c → s.Placed c t) :
    FpuInv { s with
      ksCurThread := cur, holder := holder, mustSwitch := must, ksCurDomain := dom, tcbDomain := tcbDomain } E' :=
  ⟨h.coherent, h.affinity, h.enabled, h.live, fun hc hn =>
    ⟨(hp hc hn).live, (hp hc hn).affinity, (hp hc hn).owner, (hp hc hn).traps⟩, hdom⟩

omit h in
theorem Placed.of_frame {d : Fin cfg.numCores} (h : s.Placed d t) (hf : FpuFrame c s s') (hd : d ≠ c) :
    s'.Placed d t :=
  ⟨by rw [hf.live]; exact h.live, by rw [hf.affinity]; exact h.affinity,
    fun he => by rw [hf.owner d hd]; exact h.owner (hf.fpuDisabled t ▸ he),
    by rw [hf.traps d hd, hf.fpuDisabled]; exact h.traps⟩

/-- The owner of core `c` changes to one that may own it. -/
theorem FpuInv.switchLocalFpuOwner {o : Option Word}
    (ho : ∀ t, o = some t → s.tcbAffinity t = c ∧ s.fpuDisabled t = false ∧ s.live t = true)
    (hc : ∀ t, s.ksCurThread c = some t → ¬ E c → (s.switchLocalFpuOwner c o).Placed c t) :
    FpuInv (s.switchLocalFpuOwner c o) E := by
  have hf := frame_switchLocalFpuOwner s c o
  have howner : ∀ {d t}, (s.switchLocalFpuOwner c o).ksCurFPUOwner d = some t →
      s.ksCurFPUOwner d = some t ∨ d = c ∧ o = some t := by
    intro d t hd
    by_cases hdc : d = c
    · rw [hdc, switchLocalFpuOwner_owner] at hd
      exact .inr ⟨hdc, hd⟩
    · rw [hf.owner d hdc] at hd
      exact .inl hd
  refine ⟨?_, fun {d t} hd => ?_, fun {d t} hd => ?_, fun {d t} hd => ?_, fun {d t} hd hn => ?_, ?_⟩
  · rw [banks_switchLocalFpuOwner, hf.left]
    refine h.coherent.switch fun t ht d hdc hd => hdc ?_
    exact (h.affinity hd).symm.trans (ho t ht).1
  · rw [hf.affinity]
    rcases howner hd with hd | ⟨rfl, ht⟩
    · exact h.affinity hd
    · exact (ho t ht).1
  · rw [hf.fpuDisabled]
    rcases howner hd with hd | ⟨rfl, ht⟩
    · exact h.enabled hd
    · exact (ho t ht).2.1
  · rw [hf.live]
    rcases howner hd with hd | ⟨rfl, ht⟩
    · exact h.live hd
    · exact (ho t ht).2.2
  · rw [hf.cur] at hd
    by_cases hdc : d = c
    · subst hdc
      exact hc t hd hn
    · exact (h.placed hd hn).of_frame hf hdc
  · rw [hf.domain]
    exact h.domain

/-- A core may lose its owner if its current thread does not use the FPU. -/
theorem FpuInv.flush
    (hc : ∀ t, s.ksCurThread c = some t → ¬ E c → s.fpuDisabled t = true) :
    FpuInv (s.switchLocalFpuOwner c none) E := by
  refine h.switchLocalFpuOwner (fun t ht => absurd ht nofun) fun t ht hn => ?_
  have hf := frame_switchLocalFpuOwner s c none
  have hp := h.placed ht hn
  have hd : (s.switchLocalFpuOwner c none).fpuDisabled t = true := (hf.fpuDisabled t).trans (hc t ht hn)
  exact ⟨by rw [hf.live]; exact hp.live, by rw [hf.affinity]; exact hp.affinity,
    fun he => absurd (hd.symm.trans he) nofun, (traps_switchLocalFpuOwner_none s c).trans hd.symm⟩

omit h in
theorem nativeThreadUsingFPU_iff (s : FpuState cfg) (t : Word) :
    s.nativeThreadUsingFPU t = true ↔ s.ksCurFPUOwner (s.tcbAffinity t) = some t := by
  simp [nativeThreadUsingFPU]

/-- A thread that is not `nativeThreadUsingFPU` owns no FPU at all. -/
theorem FpuInv.not_owner (ht : s.nativeThreadUsingFPU t = false)
    (c : Fin cfg.numCores) : s.ksCurFPUOwner c ≠ some t := by
  intro hc
  have hn := (nativeThreadUsingFPU_iff s t).mpr (h.affinity hc ▸ hc)
  exact nomatch ht.symm.trans hn

end

theorem frame_fpuRelease (s : FpuState cfg) (me : Fin cfg.numCores) (t : Word) :
    FpuFrame (s.tcbAffinity t) s (s.fpuRelease me t) := by
  unfold fpuRelease
  split_ifs
  · rw [switchFpuOwner_eq]
    exact frame_switchLocalFpuOwner s _ none
  · exact ⟨rfl, rfl, rfl, rfl, rfl, rfl, rfl, rfl, fun _ _ => rfl, fun _ _ => rfl⟩

section

variable (h : FpuInv s E)
include h

/-- **`fpuRelease`** of a thread that no core has to return to. -/
theorem FpuInv.fpuRelease (me : Fin cfg.numCores) (hE : ∀ c, s.ksCurThread c = some t → E c) :
    FpuInv (s.fpuRelease me t) E ∧ ∀ c, (s.fpuRelease me t).ksCurFPUOwner c ≠ some t := by
  have hinv : FpuInv (s.fpuRelease me t) E := by
    unfold FpuState.fpuRelease
    split_ifs with hn
    · rw [switchFpuOwner_eq]
      refine h.flush fun u hu hEu => ?_
      -- a thread that uses the FPU of this core would own it, and so be the one that gives it up
      by_contra hdis
      have hown := (h.placed hu hEu).owner (Bool.eq_false_iff.mpr hdis)
      obtain rfl : t = u := Option.some.inj (((nativeThreadUsingFPU_iff s t).mp hn).symm.trans hown)
      exact hEu (hE _ hu)
    · exact h
  refine ⟨hinv, hinv.not_owner ?_⟩
  unfold nativeThreadUsingFPU
  rw [(frame_fpuRelease s me t).affinity]
  unfold FpuState.fpuRelease
  split_ifs with hn
  · simp [switchFpuOwner_eq, switchLocalFpuOwner_owner]
  · exact Bool.eq_false_iff.mpr hn

/-- What a thread is may change if it owns no FPU and no core has to return to it. -/
theorem FpuInv.update_thread (hn : ∀ c, s.ksCurFPUOwner c ≠ some t)
    (hE : ∀ c, s.ksCurThread c = some t → E c)
    (hcur : s'.ksCurThread = s.ksCurThread) (howner : s'.ksCurFPUOwner = s.ksCurFPUOwner)
    (hcontrol : s'.control = s.control) (hb : s'.banks.Coherent s'.left)
    (hdom : s'.ksCurDomain < cfg.numDomains)
    (hu : ∀ u ≠ t, s'.tcbAffinity u = s.tcbAffinity u ∧ s'.tcbFlags u = s.tcbFlags u ∧
      s'.live u = s.live u) : FpuInv s' E := by
  have hne : ∀ {c u}, s'.ksCurFPUOwner c = some u → s.ksCurFPUOwner c = some u ∧ u ≠ t := by
    intro c u hc
    rw [howner] at hc
    exact ⟨hc, fun hut => hn c (hut ▸ hc)⟩
  have hflag : ∀ u ≠ t, s'.fpuDisabled u = s.fpuDisabled u := by
    intro u hut
    simp only [fpuDisabled, (hu u hut).2.1]
  refine ⟨hb, fun {c u} hc => ?_, fun {c u} hc => ?_, fun {c u} hc => ?_, fun {c u} hc hEc => ?_, hdom⟩
  · obtain ⟨hc, hut⟩ := hne hc
    rw [(hu u hut).1]
    exact h.affinity hc
  · obtain ⟨hc, hut⟩ := hne hc
    rw [hflag u hut]
    exact h.enabled hc
  · obtain ⟨hc, hut⟩ := hne hc
    rw [(hu u hut).2.2]
    exact h.live hc
  · rw [hcur] at hc
    have hut : u ≠ t := fun hut => hEc (hE c (hut ▸ hc))
    have hp := h.placed hc hEc
    have htraps : s'.traps c = s.traps c := by simp only [traps, hcontrol]
    exact ⟨(hu u hut).2.2 ▸ hp.live, (hu u hut).1 ▸ hp.affinity,
      fun he => by rw [howner]; exact hp.owner (hflag u hut ▸ he),
      by rw [htraps, hflag u hut]; exact hp.traps⟩

/-- Only what decides about traps on core `c` differs. -/
theorem FpuInv.control (hf : FpuFrame c s s') (hb : s'.banks = s.banks) (hE : E c) : FpuInv s' E := by
  have howner : s'.ksCurFPUOwner = s.ksCurFPUOwner := congrArg Banks.owner hb
  refine ⟨by rw [hb, hf.left]; exact h.coherent, ?_, ?_, ?_, fun {d t} hd hn => ?_, ?_⟩
  · rw [howner, hf.affinity]
    exact h.affinity
  · intro d t hd
    rw [howner] at hd
    rw [hf.fpuDisabled]
    exact h.enabled hd
  · rw [howner, hf.live]
    exact h.live
  · rw [hf.cur] at hd
    have hdc : d ≠ c := fun hdc => hn (hdc ▸ hE)
    exact (h.placed hd hn).of_frame hf hdc
  · rw [hf.domain]
    exact h.domain

/-- **`lazyFPURestore`** makes the FPU of a core ready for a thread of its affinity. -/
theorem FpuInv.lazyFPURestore (hlive : s.live t = true) (haff : s.tcbAffinity t = me)
    (hE : E me) : FpuInv (s.lazyFPURestore me t) E ∧ (s.lazyFPURestore me t).Placed me t ∧
      FpuFrame me s (s.lazyFPURestore me t) := by
  unfold FpuState.lazyFPURestore
  split_ifs with hdis hnat
  · have hf := frame_disableFpu s me
    refine ⟨h.control hf rfl hE, ⟨hlive, haff, fun he => ?_, ?_⟩, hf⟩
    · exact nomatch hdis.symm.trans he
    · exact (traps_disableFpu s me).trans hdis.symm
  · have hf := frame_enableFpu s me
    have hown := (nativeThreadUsingFPU_iff s t).mp hnat
    rw [haff] at hown
    refine ⟨h.control hf rfl hE, ⟨hlive, haff, fun _ => hown, ?_⟩, hf⟩
    exact (traps_enableFpu s me).trans (Bool.eq_false_iff.mpr hdis).symm
  · have hf := frame_switchLocalFpuOwner s me (some t)
    have hdis := Bool.eq_false_iff.mpr hdis
    refine ⟨h.switchLocalFpuOwner ?_ fun u _ hn => absurd hE hn, ⟨?_, ?_, ?_, ?_⟩, hf⟩
    · intro u hu
      obtain rfl : t = u := Option.some.inj hu
      exact ⟨haff, hdis, hlive⟩
    · rw [hf.live]
      exact hlive
    · rw [hf.affinity]
      exact haff
    · exact fun _ => switchLocalFpuOwner_owner s me (some t)
    · rw [traps_switchLocalFpuOwner_some, hf.fpuDisabled, hdis]

/-! ## Operations -/

/-- The current thread of one core changes to none. -/
theorem FpuInv.setCurThread_none (c : Fin cfg.numCores) : FpuInv (s.setCurThread c none) E := by
  refine h.resume h.domain fun {d t} hd hn => ?_
  have hdc : d ≠ c := by
    rintro rfl
    simp at hd
  have hcur : s.ksCurThread d = some t := by simpa [hdc] using hd
  exact h.placed hcur hn

/-- **`remoteTCBStall`**: afterwards no other core runs the thread. -/
theorem FpuInv.remoteTCBStall (hE : ∀ c, E c → c = me) (t : Word) :
    FpuInv (s.remoteTCBStall me t) E ∧ ∀ c ≠ me, (s.remoteTCBStall me t).ksCurThread c ≠ some t := by
  unfold FpuState.remoteTCBStall
  have hplace : ∀ c ≠ me, s.ksCurThread c = some t → s.tcbAffinity t = c :=
    fun c hc hcur => (h.placed hcur fun he => hc (hE c he)).affinity
  split_ifs with hst
  · refine ⟨h.setCurThread_none _, fun c hc hcur => ?_⟩
    by_cases hca : c = s.tcbAffinity t
    · simp [setCurThread, hca] at hcur
    · have hcur : s.ksCurThread c = some t := by simpa [setCurThread, hca] using hcur
      exact hca (hplace c hc hcur).symm
  · refine ⟨h, fun c hc hcur => hst ?_⟩
    have hca := hplace c hc hcur
    exact ⟨hca ▸ hc, by rw [hca]; exact hcur⟩

end

theorem remoteTCBStall_fields (s : FpuState cfg) (me : Fin cfg.numCores) (t : Word) :
    (s.remoteTCBStall me t).holder = s.holder ∧ (s.remoteTCBStall me t).mustSwitch = s.mustSwitch := by
  unfold remoteTCBStall
  split_ifs <;> exact ⟨rfl, rfl⟩

/-- **`migrateTCB`** of a thread that no core has to return to. -/
theorem FpuInv.migrateTCB (h : FpuInv s E) (hE : ∀ c, s.ksCurThread c = some t → E c)
    (me newCore : Fin cfg.numCores) : FpuInv (s.migrateTCB me t newCore) E := by
  obtain ⟨hr, hn⟩ := h.fpuRelease me hE
  have hcur := (frame_fpuRelease s me t).cur
  refine hr.update_thread hn ?_ rfl rfl rfl hr.coherent hr.domain ?_
  · intro c hc
    rw [hcur] at hc
    exact hE c hc
  · intro u hu
    exact ⟨update_of_ne hu _ _, rfl, rfl⟩

/-- Core `me` holds the lock. -/
structure Holding (s : FpuState cfg) (me : Fin cfg.numCores) : Prop where
  holder : s.holder = some me
  inv : FpuInv s s.Switching

theorem Switching.eq (hs : s.holder = some me) (h : s.Switching c) : c = me :=
  Option.some.inj (h.1.symm.trans hs)

/-- Where the kernel reschedules if `t` is the current thread, `t` counts as taken away. -/
theorem Holding.rescheduleIfCurrent (hs : s.holder = some me)
    (h : FpuInv s fun c => s.Switching c ∨ c = me ∧ s.ksCurThread me = some t) :
    (s.rescheduleIfCurrent me t).Holding me := by
  unfold FpuState.rescheduleIfCurrent
  split_ifs with hc
  · have hi : FpuInv s fun c => c = me := h.mono fun c _ _ he => he.elim (·.eq hs) (·.1)
    exact ⟨hs, hi.resume hi.domain fun hd hn => hi.placed hd fun he => hn ⟨he ▸ hs, rfl⟩⟩
  · exact ⟨hs, h.mono fun c u _ he => he.resolve_right fun h' => hc h'.2⟩

section

variable (h : s.Holding me)
include h

/-- Threads that no core runs except as one that is to be replaced. -/
theorem Holding.weaken (t : Word) :
    FpuInv s fun c => s.Switching c ∨ c = me ∧ s.ksCurThread me = some t :=
  h.inv.mono fun _ _ _ => .inl

theorem Holding.switchToThread (hlive : s.live t = true)
    (haff : s.tcbAffinity t = me) : (s.switchToThread me t).Holding me := by
  have hi : FpuInv s fun c => c = me := h.inv.mono fun c _ _ he => he.eq h.holder
  obtain ⟨hr, hp, hf⟩ := hi.lazyFPURestore hlive haff rfl
  refine ⟨hf.holder.trans h.holder, hr.resume hr.domain fun {d u} hd _ => ?_⟩
  by_cases hdm : d = me
  · subst hdm
    obtain rfl : t = u := by simpa [setCurThread] using hd
    exact hp
  · have hcur : (s.lazyFPURestore me t).ksCurThread d = some u := by simpa [setCurThread, hdm] using hd
    exact hr.placed hcur hdm

theorem Holding.switchToIdleThread : (s.switchToIdleThread me).Holding me := by
  have hi : FpuInv (s.setCurThread me none) fun c => c = me :=
    (h.inv.setCurThread_none me).mono fun c _ _ he => he.eq h.holder
  refine ⟨h.holder, hi.resume hi.domain fun {d u} hd _ => hi.placed hd ?_⟩
  rintro rfl
  simp [setCurThread] at hd

theorem Holding.remoteTCBStall (t : Word) : (s.remoteTCBStall me t).Holding me := by
  obtain ⟨hold, hmust⟩ := remoteTCBStall_fields s me t
  refine ⟨hold.trans h.holder, (h.inv.remoteTCBStall (fun c he => he.eq h.holder) t).1.mono ?_⟩
  intro c _ _ he
  exact ⟨hold.trans he.1, hmust.trans he.2⟩

/-- After the stall only this core can still run the thread. -/
theorem Holding.stalled (t : Word) (hc : (s.remoteTCBStall me t).ksCurThread c = some t) :
    c = me ∧ (s.remoteTCBStall me t).ksCurThread me = some t := by
  have hst := (h.inv.remoteTCBStall (fun c he => he.eq h.holder) t).2
  have hcm : c = me := by
    by_contra hne
    exact hst c hne hc
  exact ⟨hcm, hcm ▸ hc⟩

end

theorem migrateTCB_fields (s : FpuState cfg) (me : Fin cfg.numCores) (t : Word) (newCore : Fin cfg.numCores) :
    (s.migrateTCB me t newCore).holder = s.holder ∧
      (s.migrateTCB me t newCore).mustSwitch = s.mustSwitch ∧
      (s.migrateTCB me t newCore).ksCurThread = s.ksCurThread :=
  ⟨(frame_fpuRelease s me t).holder, (frame_fpuRelease s me t).mustSwitch, (frame_fpuRelease s me t).cur⟩

section

variable (h : s.Holding me)
include h

theorem Holding.setAffinity (t : Word) (newCore : Fin cfg.numCores) :
    (s.setAffinity me t newCore).Holding me := by
  have hst := h.remoteTCBStall t
  obtain ⟨hold, hmust, hcur⟩ := migrateTCB_fields (s.remoteTCBStall me t) me t newCore
  have hm := (hst.weaken t).migrateTCB (fun c hc => .inr (h.stalled t hc)) me newCore
  refine .rescheduleIfCurrent (hold.trans hst.holder) (hm.mono fun c _ _ he => ?_)
  rw [hcur]
  exact he.imp_left fun he => ⟨hold.trans he.1, hmust.trans he.2⟩

theorem Holding.donate (hother : ∀ c ≠ me, s.ksCurThread c ≠ some t)
    (hme : s.ksCurThread me = some t → s.mustSwitch = true) (newCore : Fin cfg.numCores) :
    (s.migrateTCB me t newCore).Holding me := by
  obtain ⟨hold, hmust, -⟩ := migrateTCB_fields s me t newCore
  refine ⟨hold.trans h.holder, (h.inv.migrateTCB (fun c hc => ?_) me newCore).mono fun c _ _ he => ?_⟩
  · have hcm : c = me := by
      by_contra hne
      exact hother c hne hc
    subst hcm
    exact ⟨h.holder, hme hc⟩
  · exact ⟨hold.trans he.1, hmust.trans he.2⟩

theorem Holding.donateFp (hcur : ∀ c, s.ksCurThread c ≠ some t)
    (hn : s.nativeThreadUsingFPU t = false) (newCore : Fin cfg.numCores) :
    (s.maybeDonateSchedContextFp t newCore).Holding me := by
  refine ⟨h.holder, h.inv.update_thread (h.inv.not_owner hn) (fun c hc => absurd hc (hcur c)) rfl rfl rfl
    h.inv.coherent h.inv.domain fun u hu => ?_⟩
  exact ⟨update_of_ne hu _ _, rfl, rfl⟩

theorem Holding.deleteThread (t : Word) : (s.deleteThread me t).Holding me := by
  have hst := (h.remoteTCBStall t)
  have hre := Holding.rescheduleIfCurrent hst.holder (hst.weaken t)
  have hE : ∀ c, ((s.remoteTCBStall me t).rescheduleIfCurrent me t).ksCurThread c = some t →
      ((s.remoteTCBStall me t).rescheduleIfCurrent me t).Switching c := by
    intro c hc
    have hcur : ((s.remoteTCBStall me t).rescheduleIfCurrent me t).ksCurThread =
        (s.remoteTCBStall me t).ksCurThread := by
      unfold FpuState.rescheduleIfCurrent
      split_ifs <;> rfl
    rw [hcur] at hc
    obtain ⟨rfl, hme⟩ := h.stalled t hc
    refine ⟨hre.holder, ?_⟩
    unfold FpuState.rescheduleIfCurrent
    rw [if_pos hme]
  obtain ⟨hr, hn⟩ := hre.inv.fpuRelease me hE
  have hf := frame_fpuRelease ((s.remoteTCBStall me t).rescheduleIfCurrent me t) me t
  refine ⟨hf.holder.trans hre.holder, ?_⟩
  have hu : FpuInv (s.deleteThread me t) _ :=
    hr.update_thread hn (fun c hc => hE c (hf.cur ▸ hc)) rfl rfl rfl hr.coherent hr.domain
      fun u hu => ⟨rfl, rfl, update_of_ne hu _ _⟩
  exact hu.mono fun c _ _ he => ⟨hf.holder.trans he.1, hf.mustSwitch.trans he.2⟩

theorem Holding.createThread (ht : s.live t = false) (affinity : Fin cfg.numCores) :
    (s.createThread t affinity).Holding me := by
  have hn : ∀ c, s.ksCurFPUOwner c ≠ some t := fun c hc => absurd (ht.symm.trans (h.inv.live hc)) nofun
  refine ⟨h.holder, h.inv.update_thread hn (fun c hc => ?_) rfl rfl rfl (h.inv.coherent.reset hn _)
    h.inv.domain fun u hu => ?_⟩
  · by_contra hE
    exact nomatch ht.symm.trans (h.inv.placed hc hE).live
  · exact ⟨update_of_ne hu _ _, update_of_ne hu _ _, update_of_ne hu _ _⟩

theorem Holding.setDomain (t : Word) {dom : Nat} (hdom : dom < cfg.numDomains) :
    (s.setDomain me t dom).Holding me := by
  have hinv : FpuInv s fun c => s.Switching c ∨ c = me ∧ s.ksCurThread me = some t := h.weaken t
  unfold FpuState.setDomain
  by_cases hne : s.ksCurDomain = dom
  · rw [if_neg (not_not.mpr hne)]
    exact .rescheduleIfCurrent h.holder (hinv.resume hinv.domain hinv.placed)
  · rw [if_pos hne]
    -- there is a second domain, so that this is the only core
    have hone : ∀ c : Fin cfg.numCores, c = me := by
      intro c
      have hcur := h.inv.domain
      have hsmp := cfg.smp_domains
      apply Fin.ext
      omega
    have hf := frame_fpuRelease s me t
    obtain ⟨hr, -⟩ := hinv.fpuRelease me fun c hc => .inr ⟨hone c, hone c ▸ hc⟩
    refine Holding.rescheduleIfCurrent (hf.holder.trans h.holder)
      (hr.resume hr.domain fun {d u} hd hn => hr.placed hd fun he => hn (he.imp ?_ ?_))
    · exact fun hs => ⟨hf.holder.trans hs.1, hf.mustSwitch.trans hs.2⟩
    · exact fun hm => ⟨hm.1, (congrFun hf.cur me).trans hm.2⟩

theorem Holding.nextDomain {dom : Nat} (hdom : dom < cfg.numDomains) :
    (s.nextDomain me dom).Holding me := by
  have hf := frame_switchLocalFpuOwner s me none
  have hi : FpuInv s fun c => c = me := h.inv.mono fun c _ _ he => he.eq h.holder
  have hr := hi.flush fun u _ hn => absurd rfl hn
  refine ⟨hf.holder.trans h.holder, hr.resume hdom fun hd hn => hr.placed hd fun he => hn ?_⟩
  exact ⟨he ▸ hf.holder.trans h.holder, rfl⟩

end

/-! ### `invokeSetFlags` -/

/-- The assignment to `tcbFlags`. -/
def withFlags (s : FpuState cfg) (t flags : Word) : FpuState cfg :=
  { s with tcbFlags := update s.tcbFlags t flags }

theorem switchLocalFpuOwner_withFlags (s : FpuState cfg) (c : Fin cfg.numCores) (o : Option Word)
    (t flags : Word) :
    (s.withFlags t flags).switchLocalFpuOwner c o = (s.switchLocalFpuOwner c o).withFlags t flags := by
  have hsave : ∀ s' : FpuState cfg, (s'.withFlags t flags).saveOwner c = (s'.saveOwner c).withFlags t flags := by
    intro s'
    cases hs : s'.ksCurFPUOwner c <;> simp [saveOwner, withFlags, saveFpuState, hs]
  unfold switchLocalFpuOwner
  dsimp only
  have henable : (s.withFlags t flags).enableFpu c = (s.enableFpu c).withFlags t flags := rfl
  rw [henable, hsave]
  cases o <;> rfl

theorem fpuRelease_withFlags (s : FpuState cfg) (me : Fin cfg.numCores) (t flags : Word) :
    (s.withFlags t flags).fpuRelease me t = (s.fpuRelease me t).withFlags t flags := by
  have hnat : (s.withFlags t flags).nativeThreadUsingFPU t = s.nativeThreadUsingFPU t := rfl
  unfold fpuRelease
  rw [hnat]
  simp only [switchFpuOwner_eq, switchLocalFpuOwner_withFlags]
  split_ifs <;> rfl

/-- The FPU may be allowed to a thread that no core has to return to. -/
theorem FpuInv.withFlags (h : FpuInv s E) {flags : Word} (hE : ∀ c, s.ksCurThread c = some t → E c)
    (hflags : (s.withFlags t flags).fpuDisabled t = false) : FpuInv (s.withFlags t flags) E := by
  by_cases hold : s.fpuDisabled t
  · refine h.update_thread (fun c hc => ?_) hE rfl rfl rfl h.coherent h.domain fun u hu => ?_
    · exact nomatch hold.symm.trans (h.enabled hc)
    · exact ⟨rfl, update_of_ne hu _ _, rfl⟩
  · have hsame : ∀ u, (s.withFlags t flags).fpuDisabled u = s.fpuDisabled u := by
      intro u
      by_cases hu : u = t
      · rw [hu, hflags, Bool.eq_false_iff.mpr hold]
      · simp [FpuState.withFlags, fpuDisabled, hu]
    refine ⟨h.coherent, h.affinity, fun {c u} hc => ?_, h.live, fun {c u} hc hn => ?_, h.domain⟩
    · rw [hsame]
      exact h.enabled hc
    · have hp := h.placed hc hn
      exact ⟨hp.live, hp.affinity, fun he => hp.owner (hsame u ▸ he), by rw [hsame]; exact hp.traps⟩

/-- With a thread that is released first, the flag may be set as well. -/
theorem FpuInv.release_withFlags (h : FpuInv s E) (hE : ∀ c, s.ksCurThread c = some t → E c)
    (me : Fin cfg.numCores) (flags : Word) : FpuInv ((s.withFlags t flags).fpuRelease me t) E := by
  obtain ⟨hr, hn⟩ := h.fpuRelease me hE
  have hcur := (frame_fpuRelease s me t).cur
  rw [fpuRelease_withFlags]
  refine hr.update_thread hn (fun c hc => hE c (hcur ▸ hc)) rfl rfl rfl hr.coherent hr.domain
    fun u hu => ?_
  exact ⟨rfl, update_of_ne hu _ _, rfl⟩

/-- The current thread of a core that was left out is in place. -/
theorem FpuInv.of_placed (h : FpuInv s fun c => c = me)
    (hp : ∀ u, s.ksCurThread me = some u → s.Placed me u) : FpuInv s E := by
  refine ⟨h.coherent, h.affinity, h.enabled, h.live, fun {c u} hc _ => ?_, h.domain⟩
  by_cases hcm : c = me
  · subst hcm
    exact hp u hc
  · exact h.placed hc hcm

theorem traps_fpuRelease (hp : s.Placed me t) : (s.fpuRelease me t).traps me = true := by
  unfold fpuRelease
  split_ifs with hn
  · rw [switchFpuOwner_eq, hp.affinity]
    exact traps_switchLocalFpuOwner_none s me
  · rw [hp.traps]
    by_contra hdis
    have hown := hp.owner (Bool.eq_false_iff.mpr hdis)
    exact hn ((nativeThreadUsingFPU_iff s t).mpr (hp.affinity ▸ hown))

/-- **`invokeSetFlags`.** If the thread is the current one then it is not switched to, and the FPU is
made ready for it here. -/
theorem Holding.setFlags (h : s.Holding me) (hmust : s.mustSwitch = false) (t clear set : Word) :
    (s.setFlags me t clear set).Holding me := by
  have hst := h.remoteTCBStall t
  obtain ⟨-, hm⟩ := remoteTCBStall_fields s me t
  have hno : ∀ c, ¬ (s.remoteTCBStall me t).Switching c :=
    fun c he => absurd ((hm.trans hmust).symm.trans he.2) nofun
  unfold FpuState.setFlags
  dsimp only
  generalize (_ ||| _ : Word) = flags
  by_cases hcur : (s.remoteTCBStall me t).ksCurThread me = some t
  · have hp := hst.inv.placed hcur (hno me)
    have hi : FpuInv (s.remoteTCBStall me t) fun c => c = me :=
      hst.inv.mono fun c _ _ he => absurd he (hno c)
    have hE : ∀ c, (s.remoteTCBStall me t).ksCurThread c = some t → c = me :=
      fun c hc => (h.stalled t hc).1
    split_ifs with hdis
    · have hr := hi.release_withFlags hE me flags
      have hf := frame_fpuRelease ((s.remoteTCBStall me t).withFlags t flags) me t
      refine ⟨hf.holder.trans hst.holder, hr.of_placed fun u hu => ?_⟩
      rw [hf.cur] at hu
      obtain rfl : t = u := Option.mem_unique hcur hu
      have hd := (hf.fpuDisabled t).trans hdis
      refine ⟨by rw [hf.live]; exact hp.live, by rw [hf.affinity]; exact hp.affinity,
        fun he => absurd (hd.symm.trans he) nofun, ?_⟩
      rw [hd, fpuRelease_withFlags]
      exact traps_fpuRelease hp
    · have hw := hi.withFlags hE (Bool.eq_false_iff.mpr hdis)
      obtain ⟨hr, hpl, hf⟩ := hw.lazyFPURestore hp.live hp.affinity rfl
      refine ⟨hf.holder.trans hst.holder, hr.of_placed fun u hu => ?_⟩
      rw [hf.cur] at hu
      obtain rfl : t = u := Option.mem_unique hcur hu
      exact hpl
  · have hE : ∀ c, (s.remoteTCBStall me t).ksCurThread c = some t →
        (s.remoteTCBStall me t).Switching c := fun c hc => absurd (h.stalled t hc).2 hcur
    split_ifs with hdis
    · have hf := frame_fpuRelease ((s.remoteTCBStall me t).withFlags t flags) me t
      refine ⟨hf.holder.trans hst.holder, (hst.inv.release_withFlags hE me flags).mono ?_⟩
      exact fun c _ _ he => absurd he (hno c)
    · exact ⟨hst.holder, hst.inv.withFlags hE (Bool.eq_false_iff.mpr hdis)⟩

/-! ## Runs -/

/-- Every operation of the holder keeps the invariant. -/
theorem Holding.kernel (h : s.Holding me) {o : FpuOp cfg} (hk : s.kernel me o = some s') :
    s'.Holding me := by
  cases o with
  | switchToThread t =>
    obtain ⟨⟨hlive, haff⟩, rfl⟩ := Option.ite_some_none_eq_some.mp hk
    exact h.switchToThread hlive haff
  | switchToIdleThread =>
    obtain rfl := Option.some.inj hk
    exact h.switchToIdleThread
  | remoteTCBStall t =>
    obtain rfl := Option.some.inj hk
    exact h.remoteTCBStall t
  | setAffinity t newCore =>
    obtain ⟨-, rfl⟩ := Option.ite_some_none_eq_some.mp hk
    exact h.setAffinity t newCore
  | donate t newCore =>
    obtain ⟨⟨-, hother, hme⟩, rfl⟩ := Option.ite_some_none_eq_some.mp hk
    exact h.donate hother hme newCore
  | donateFp t newCore =>
    obtain ⟨⟨-, hcur, hn⟩, rfl⟩ := Option.ite_some_none_eq_some.mp hk
    exact h.donateFp hcur hn newCore
  | setFlags t clear set =>
    obtain ⟨⟨-, hmust⟩, rfl⟩ := Option.ite_some_none_eq_some.mp hk
    exact h.setFlags hmust t clear set
  | setDomain t dom =>
    obtain ⟨⟨-, hdom⟩, rfl⟩ := Option.ite_some_none_eq_some.mp hk
    exact h.setDomain t hdom
  | nextDomain dom =>
    obtain ⟨hdom, rfl⟩ := Option.ite_some_none_eq_some.mp hk
    exact h.nextDomain hdom
  | deleteThread t =>
    obtain ⟨-, rfl⟩ := Option.ite_some_none_eq_some.mp hk
    exact h.deleteThread t
  | createThread t affinity =>
    obtain ⟨ht, ⟨⟩⟩ := Option.ite_none_left_eq_some.mp hk
    exact h.createThread (Bool.eq_false_iff.mpr ht) affinity

/-- The lock changes hands while no core has to switch. -/
theorem FpuInv.holder (h : FpuInv s s.Switching) (hno : ∀ c, ¬ s.Switching c)
    (holder : Option (Fin cfg.numCores)) (must : Bool) :
    FpuInv { s with holder := holder, mustSwitch := must } E :=
  h.resume h.domain fun hc _ => h.placed hc (hno _)

/-- A thread in user mode writes to the FPU that it owns. -/
theorem FpuInv.access (h : FpuInv s E) (hc : s.ksCurThread c = some t) (hE : ¬ E c)
    (htr : s.traps c = false) (v : UserFpuState) :
    FpuInv { s with fpu := update s.fpu c v, left := update s.left t v } E := by
  have hp := h.placed hc hE
  have hown := hp.owner (hp.traps.symm.trans htr)
  refine ⟨h.coherent.write hown v, h.affinity, h.enabled, h.live, fun hd hn => ?_, h.domain⟩
  have hq := h.placed hd hn
  exact ⟨hq.live, hq.affinity, hq.owner, hq.traps⟩

/-- One event keeps the invariant. -/
theorem FpuInv.next (h : FpuInv s s.Switching) {e : FpuEvent cfg} (hn : s.next e = some s') :
    FpuInv s' s'.Switching := by
  cases e with
  | enter c =>
    obtain ⟨hh, rfl⟩ := Option.ite_some_none_eq_some.mp hn
    exact h.holder (fun d hd => absurd (hh.symm.trans hd.1) nofun) (some c) false
  | op o =>
    unfold FpuState.next at hn
    cases hh : s.holder with
    | none =>
      rw [hh] at hn
      cases hn
    | some me =>
      rw [hh] at hn
      exact (Holding.kernel ⟨hh, h⟩ hn).inv
  | exit =>
    obtain ⟨⟨-, hmust⟩, rfl⟩ := Option.ite_some_none_eq_some.mp hn
    exact h.holder (fun d hd => absurd (hmust.symm.trans hd.2) nofun) none s.mustSwitch
  | access c v =>
    unfold FpuState.next at hn
    cases hc : s.ksCurThread c with
    | none =>
      simp only [hc] at hn
      cases hn
    | some t =>
      simp only [hc] at hn
      obtain ⟨⟨hh, htr⟩, rfl⟩ := Option.ite_some_none_eq_some.mp hn
      exact h.access hc (fun hs => hh hs.1) htr v

theorem boot_inv (fpu : Fin cfg.numCores → UserFpuState)
    (control : Fin cfg.numCores → FpuControl) (fpuState : Word → UserFpuState)
    (tcbAffinity : Word → Fin cfg.numCores) (tcbFlags : Word → Word) (tcbDomain : Word → Nat)
    (live : Word → Bool) (ksCurDomain : Fin cfg.numDomains) :
    FpuInv (boot cfg fpu control fpuState tcbAffinity tcbFlags tcbDomain live ksCurDomain) E := by
  refine ⟨⟨fun h => absurd h nofun, fun h => absurd h nofun, fun _ => rfl⟩, fun h => absurd h nofun,
    fun h => absurd h nofun, fun h => absurd h nofun, fun h => absurd h nofun, ksCurDomain.isLt⟩

/-- **Isolation of FPU state.** In every state that the cores can reach, an owner of an FPU owns only
this one, has the affinity of its core, may use it and is not deleted; a thread that runs in user mode
finds the FPU enabled with the values it left, if it may use it, and traps if it may not. -/
theorem fpu_isolated (cfg : FpuConfig) (fpu : Fin cfg.numCores → UserFpuState)
    (control : Fin cfg.numCores → FpuControl) (fpuState : Word → UserFpuState)
    (tcbAffinity : Word → Fin cfg.numCores) (tcbFlags : Word → Word) (tcbDomain : Word → Nat)
    (live : Word → Bool) (ksCurDomain : Fin cfg.numDomains) {tr : List (FpuEvent cfg)}
    {s : FpuState cfg}
    (h : runFrom next (boot cfg fpu control fpuState tcbAffinity tcbFlags tcbDomain live ksCurDomain) tr =
      some s) : (∀ c d t, s.ksCurFPUOwner c = some t → s.ksCurFPUOwner d = some t → c = d) ∧
      (∀ c t, s.ksCurFPUOwner c = some t →
        s.tcbAffinity t = c ∧ s.fpuDisabled t = false ∧ s.live t = true) ∧
      (∀ c t, s.InUserMode c t → s.fpuDisabled t = false → s.traps c = false ∧ s.fpu c = s.left t) ∧
      (∀ c t, s.InUserMode c t → s.fpuDisabled t = true → s.traps c = true) := by
  have hi : FpuInv s s.Switching :=
    runFrom_invariant (P := fun _ s => FpuInv s s.Switching) (boot_inv ..)
      (fun _ _ _ _ _ hs hn => hs.next hn) h
  have hplaced : ∀ {c t}, s.InUserMode c t → s.Placed c t := fun hu => hi.placed hu.2 fun hs => hu.1 hs.1
  refine ⟨fun c d t hc hd => hi.coherent.excl hc hd, fun c t hc => ⟨hi.affinity hc, hi.enabled hc, hi.live hc⟩,
    fun c t hu hdis => ?_, fun c t hu hdis => (hplaced hu).traps.trans hdis⟩
  have hp := hplaced hu
  exact ⟨hp.traps.trans hdis, hi.coherent.held (hp.owner hdis)⟩

/-- Two cores, one domain, no hypervisor. -/
def dualCore : FpuConfig := ⟨2, 1, false, fun _ => rfl⟩

def core0 : Fin dualCore.numCores := ⟨0, by decide⟩

def core1 : Fin dualCore.numCores := ⟨1, by decide⟩

/-- Threads 1 and 2 are on core 0 and may use the FPU. -/
def dualBoot : FpuState dualCore :=
  boot dualCore (fun _ => ⟨Vector.replicate 64 0, 0, 0⟩) (fun _ => ⟨0, 0⟩)
    (fun _ => ⟨Vector.replicate 64 0, 0, 0⟩) (fun _ => core0) (fun _ => 0) (fun _ => 0)
    (fun t => t == 1 || t == 2) ⟨0, by decide⟩

/-- Thread 1 uses the FPU of core 0 and gives way to thread 2, which does so as well. Core 1 takes
thread 1 and then thread 2, whose values are in the registers of core 0 until then. -/
def dualRun : List (FpuEvent dualCore) :=
  [.enter core0, .op (.switchToThread 1), .exit, .access core0 ⟨Vector.replicate 64 7, 1, 2⟩,
    .enter core0, .op (.switchToThread 2), .exit, .access core0 ⟨Vector.replicate 64 9, 3, 4⟩,
    .enter core1, .op (.setAffinity 1 core1), .op (.switchToThread 1), .exit,
    .enter core1, .op (.setAffinity 2 core1), .op (.switchToThread 2), .exit]

/-- After the migration core 1 runs thread 2 with the values it had on core 0. -/
theorem fpu_isolated_migrated :
    ∃ s, runFrom next dualBoot dualRun = some s ∧ s.InUserMode core1 2 ∧ s.ksCurThread core0 = none ∧
      s.traps core1 = false ∧ s.fpu core1 = ⟨Vector.replicate 64 9, 3, 4⟩ := by
  have hsome : (runFrom next dualBoot dualRun).isSome := by decide +kernel
  obtain ⟨s, hs⟩ := Option.isSome_iff_exists.mp hsome
  have hmap : (runFrom next dualBoot dualRun).map
      (fun s => (s.holder, s.ksCurThread core1, s.ksCurThread core0, s.fpuDisabled 2, s.left 2)) =
      some (none, some 2, none, false, ⟨.replicate 64 9, 3, 4⟩) := by decide +kernel
  rw [hs] at hmap
  obtain ⟨hh, hc1, hc0, hdis, hleft⟩ : s.holder = none ∧ s.ksCurThread core1 = some 2 ∧
      s.ksCurThread core0 = none ∧ s.fpuDisabled 2 = false ∧
      s.left 2 = ⟨.replicate 64 9, 3, 4⟩ := by
    simpa only [Option.map_some, Option.some.injEq, Prod.mk.injEq] using hmap
  have hu : s.InUserMode core1 2 := ⟨by rw [hh]; exact nofun, hc1⟩
  obtain ⟨htraps, hfpu⟩ := (fpu_isolated dualCore _ _ _ _ _ _ _ _ hs).2.2.1 core1 2 hu hdis
  exact ⟨s, hs, hu, hc0, htraps, hfpu.trans hleft⟩

end FpuState

end SeL4.Smp
