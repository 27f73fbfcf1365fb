import SeL4.Smp.RemoteCall

/-!
# Exact execution of remote calls

The runs of `Smp/RemoteCall.lean` against the specification `RemoteOp`.

An operation goes through three phases (`IpiState.Sim`). While the caller **sets it up** no flag is set,
so no core looks at the call but one whose interrupt came late. While it is **active** its targets fall
into those whose flag is not set yet, those that have not executed the call, those that have and are on
their way to the barrier, and those that have arrived there; the counter is the number of arrivals
(`IpiState.Active`). The last to arrive **releases** the others, and from then on nothing of the operation
is left but cores that have not noticed yet, who are no part of the next one.

Results:
* `Sim.step`: one step keeps the phase or goes on to the next as the specification does, unless a core
  executes what it read before the operation was set up.
* **`remote_calls_exact_iff`**: a run is exact if and only if no such stale execution happens. Only the
  way by the interrupt can be stale; a core that notices the call by its flag never is.
* `late_ipi_executes_old_call`: a run of two cores in which it happens.
-/

namespace SeL4.Smp

open SeL4.Lib Function

variable {b b' : Barrier} {ctx : Ctx} {ls : Word}

/-- Before the atomic increment of `count`. -/
def Barrier.Arriving : Barrier → Bool
  | .start | .sense _ | .add _ _ => true
  | _ => false

/-- Not between the execution of a call and the barrier, nor busy inside the barrier. -/
def CorePc.Quiet {n : Nat} : CorePc n → Bool
  | .clearing _ => false
  | .barrier (.spin _) _ => true
  | .barrier _ _ => false
  | _ => true

/-- In `doRemoteMaskOp`. -/
def CorePc.Calling {n : Nat} : CorePc n → Bool
  | .holding => false
  | p => p.Holds

namespace IpiState

variable {n : Nat}

/-- No operation is under way: no flag, nobody on the way to the barrier, nobody in it but those who
have not noticed their release. -/
structure Rest (s : IpiState n) : Prop where
  ipi : ∀ t, s.ipi t = false
  count : s.count = 0
  quiet : ∀ t, (s.pc t).Quiet = true

/-- Before the atomic increment of `count`, with what was read so far as it is now. -/
def Early (s : IpiState n) : Barrier → Prop
  | .start => True
  | .sense cores => cores = s.totalCoreBarrier
  | .add cores localsense => cores = s.totalCoreBarrier ∧ localsense = s.globalsense
  | _ => False

/-- Ahead of the increment of `globalsense`, as the last to arrive. -/
def Last (s : IpiState n) : Barrier → Prop
  | .reset localsense => localsense = s.globalsense
  | .bump localsense => localsense = s.globalsense ∧ s.count = 0
  | .bumped localsense v => localsense = s.globalsense ∧ v = s.globalsense ∧ s.count = 0
  | _ => False

/-- Core `t` is at `b` of the barrier, as the caller `c` or as a handler. -/
def InBarrier (s : IpiState n) (c t : Fin n) (b : Barrier) : Prop :=
  ∃ k, s.pc t = .barrier b k ∧ (k = .caller ↔ t = c)

/-- The cores of `A` have arrived at the barrier: the counter is their number and all wait for the
release, or all have arrived and one of them, the last, is about to release the others. -/
def Gathered (s : IpiState n) (c : Fin n) (T A : Finset (Fin n)) : Prop :=
  (A ≠ insert c T ∧ s.count = A.card ∧ ∀ t ∈ A, s.InBarrier c t (.spin s.globalsense)) ∨
    (A = insert c T ∧ ∃ l ∈ A, (∃ b, s.Last b ∧ s.InBarrier c l b) ∧
      ∀ t ∈ A, t ≠ l → s.InBarrier c t (.spin s.globalsense))

/-- An operation of core `c` with call `d` and targets `T` is active: the flags of `U` are not set yet,
the cores of `D` have executed the call and those of `A` have arrived at the barrier. -/
structure Active (s : IpiState n) (c : Fin n) (d : CallData) (T U D A : Finset (Fin n)) : Prop where
  notSelf : c ∉ T
  call : s.call = d
  total : s.totalCoreBarrier = T.card
  unset : U ⊆ T
  done : ∀ t ∈ D, t ∈ T ∧ t ∉ U
  arrivedSub : A ⊆ insert c D
  ipi : ∀ t, s.ipi t = true ↔ t ∈ T ∧ t ∉ U ∧ (t ∈ D → ∃ ctx, s.pc t = .clearing ctx)
  calling : c ∉ A → s.pc c = .flagging U T ∨
    (U = ∅ ∧ ((∃ rest, s.pc c = .sending rest) ∨ ∃ b, s.Early b ∧ s.pc c = .barrier b .caller))
  other : ∀ t ≠ c, t ∉ D → (s.pc t).Quiet = true
  working : ∀ t ∈ D, t ∉ A → (∃ ctx, s.pc t = .clearing ctx) ∨
    ∃ b ctx, s.Early b ∧ s.pc t = .barrier b (.handler ctx)
  barrier : s.Gathered c T A

/-- What the state has to do with the operation that the specification knows of. -/
inductive Sim (s : IpiState n) : RemoteOp n → Prop
  | idle : s.Rest → (∀ t, (s.pc t).Calling = false) → Sim s .idle
  | setup {c : Fin n} {d : CallData} {T : Finset (Fin n)} {rest : List Field} : s.Rest →
    s.pc c = .storing rest d T → (∀ f, f ∉ rest → CallData.Same f s.call d) → c ∉ T →
    Sim s (.running c d T)
  | active {c : Fin n} {d : CallData} {T U D A : Finset (Fin n)} : s.Active c d T U D A →
    Sim s (.running c d (T \ D))
  | released {c : Fin n} {d : CallData} {ls : Word} : s.Rest →
    s.pc c = .barrier (.spin ls) .caller → ls ≠ s.globalsense → Sim s (.running c d ∅)

/-- What holds in every phase: one holder of the lock, and a core that came by its flag finds the words
it has read unchanged. -/
structure Common (s : IpiState n) : Prop where
  holder : ∀ c d, (s.pc c).Holds = true → (s.pc d).Holds = true → c = d
  loaded : ∀ t rest ctx, s.pc t = .loading rest ctx → ctx ≠ .irq →
    s.ipi t = true ∧ ∀ f, f ∉ rest → CallData.Same f (s.regs t) s.call

section Goto

variable {s : IpiState n} {c d : Fin n} {p : CorePc n}

theorem goto_pc_self : (s.goto c p).pc c = p := update_self ..

theorem goto_pc_ne (h : d ≠ c) : (s.goto c p).pc d = s.pc d := update_of_ne h ..

end Goto

/-! ## Steps outside the operation -/

/-- Core `t` has no part in the operation: it is not on the way to the barrier and does not wait in it
for the release that is still to come. -/
def Outside (s : IpiState n) (t : Fin n) : Prop :=
  (∀ ctx, s.pc t ≠ .clearing ctx) ∧
    ∀ b k, s.pc t = .barrier b k → ∃ ls, b = .spin ls ∧ ls ≠ s.globalsense

/-- Core `t` moves, and nothing that cores share changes. -/
structure MovesAlone (t : Fin n) (s s' : IpiState n) : Prop where
  call : s'.call = s.call
  total : s'.totalCoreBarrier = s.totalCoreBarrier
  count : s'.count = s.count
  sense : s'.globalsense = s.globalsense
  ipi : s'.ipi = s.ipi
  pc : ∀ u ≠ t, s'.pc u = s.pc u

theorem movesAlone_goto (s : IpiState n) (t : Fin n) (p : CorePc n) : MovesAlone t s (s.goto t p) :=
  ⟨rfl, rfl, rfl, rfl, rfl, fun _ hu => goto_pc_ne hu⟩

section Active

variable {s s' : IpiState n} {c t : Fin n} {d : CallData} {T U D A : Finset (Fin n)} {k : Cont}

theorem early_congr (ht : s'.totalCoreBarrier = s.totalCoreBarrier)
    (hg : s'.globalsense = s.globalsense) (b : Barrier) : s'.Early b ↔ s.Early b := by
  cases b <;> simp only [Early, ht, hg]

theorem last_congr (hc : s'.count = s.count) (hg : s'.globalsense = s.globalsense)
    (b : Barrier) : s'.Last b ↔ s.Last b := by
  cases b <;> simp only [Last, hc, hg]

theorem InBarrier.congr (h : s.InBarrier c t b) (hp : s'.pc t = s.pc t) : s'.InBarrier c t b := by
  obtain ⟨k, hk, hself⟩ := h
  exact ⟨k, hp.trans hk, hself⟩

theorem InBarrier.eq (h : s.InBarrier c t b') (hp : s.pc t = .barrier b k) : b = b' ∧ (k = .caller ↔ t = c) := by
  obtain ⟨k', hk, hself⟩ := h
  rw [hp] at hk
  injection hk with h1 h2
  exact ⟨h1, h2 ▸ hself⟩

theorem Gathered.congr (h : s.Gathered c T A) (hc : s'.count = s.count)
    (hg : s'.globalsense = s.globalsense) (hp : ∀ u ∈ A, s'.pc u = s.pc u) : s'.Gathered c T A := by
  unfold Gathered
  rw [hc, hg]
  rcases h with ⟨hne, hcount, hb⟩ | ⟨heq, l, hl, ⟨b, hlast, hb⟩, hother⟩
  · exact .inl ⟨hne, hcount, fun u hu => (hb u hu).congr (hp u hu)⟩
  · exact .inr ⟨heq, l, hl, ⟨b, (last_congr hc hg b).mpr hlast, hb.congr (hp l hl)⟩,
      fun u hu hul => (hother u hu hul).congr (hp u hu)⟩

/-- Core `t` is where the operation counts it. -/
structure Stands (s : IpiState n) (c : Fin n) (T U D A : Finset (Fin n)) (t : Fin n) : Prop where
  done : t ∈ D → t ∈ T ∧ t ∉ U
  arrived : t ∈ A → t ∈ insert c D
  ipi : s.ipi t = true ↔ t ∈ T ∧ t ∉ U ∧ (t ∈ D → ∃ ctx, s.pc t = .clearing ctx)
  calling : t = c → t ∉ A → s.pc t = .flagging U T ∨
    (U = ∅ ∧ ((∃ rest, s.pc t = .sending rest) ∨ ∃ b, s.Early b ∧ s.pc t = .barrier b .caller))
  other : t ≠ c → t ∉ D → (s.pc t).Quiet = true
  working : t ∈ D → t ∉ A → (∃ ctx, s.pc t = .clearing ctx) ∨
    ∃ b ctx, s.Early b ∧ s.pc t = .barrier b (.handler ctx)

theorem not_last_of_arriving (hb : b.Arriving = true) : ¬ s.Last b := by
  cases b <;> first | exact id | cases hb

theorem not_quiet_of_arriving (hb : b.Arriving = true) : (CorePc.barrier (n := n) b k).Quiet = false := by
  cases b <;> first | rfl | cases hb

variable (h : s.Active c d T U D A)
include h

theorem Active.inBarrier (ht : t ∈ A) :
    ∃ b, s.InBarrier c t b ∧ (b = .spin s.globalsense ∨ s.Last b) := by
  rcases h.barrier with ⟨-, -, hb⟩ | ⟨-, l, -, ⟨b, hl, hb⟩, hother⟩
  · exact ⟨_, hb t ht, .inl rfl⟩
  · by_cases htl : t = l
    · exact ⟨b, htl ▸ hb, .inr hl⟩
    · exact ⟨_, hother t ht htl, .inl rfl⟩

theorem Active.caller_calling : (s.pc c).Calling = true := by
  by_cases hc : c ∈ A
  · obtain ⟨b, ⟨k, hk, hself⟩, -⟩ := h.inBarrier hc
    rw [hk, hself.mpr rfl]
    rfl
  · rcases h.calling hc with hp | ⟨-, ⟨r, hp⟩ | ⟨b, -, hp⟩⟩ <;> rw [hp] <;> rfl

/-- The core that only waits for a release finds itself where the operation counts it. -/
theorem Active.outside (ho : s.Outside t) : t ∉ A ∧ t ∉ D := by
  have hA : t ∉ A := by
    intro ht
    obtain ⟨b, ⟨k, hk, -⟩, hb⟩ := h.inBarrier ht
    obtain ⟨ls, rfl, hls⟩ := ho.2 b k hk
    rcases hb with hb | hb
    · exact hls (by injection hb)
    · exact hb
  refine ⟨hA, fun ht => ?_⟩
  rcases h.working t ht hA with ⟨ctx, hp⟩ | ⟨b, ctx, hb, hp⟩
  · exact ho.1 ctx hp
  · obtain ⟨ls, rfl, -⟩ := ho.2 b _ hp
    exact hb

theorem Active.stands (t : Fin n) : s.Stands c T U D A t :=
  ⟨h.done t, fun ht => h.arrivedSub ht, h.ipi t, fun he => he ▸ h.calling, h.other t, h.working t⟩

/-- One core moves. All others are counted as before. -/
theorem Active.move {D' A' : Finset (Fin n)} (hcall : s'.call = s.call)
    (htotal : s'.totalCoreBarrier = s.totalCoreBarrier) (hsense : s'.globalsense = s.globalsense)
    (hothers : ∀ u ≠ t, s'.pc u = s.pc u ∧ s'.ipi u = s.ipi u ∧ (u ∈ D' ↔ u ∈ D) ∧ (u ∈ A' ↔ u ∈ A))
    (ht : s'.Stands c T U D' A' t) (hb : s'.Gathered c T A') : s'.Active c d T U D' A' := by
  have hall : ∀ u, s'.Stands c T U D' A' u := by
    intro u
    by_cases hu : u = t
    · exact hu ▸ ht
    · obtain ⟨hpc, hipi, hD, hA⟩ := hothers u hu
      obtain ⟨h1, h2, h3, h4, h5, h6⟩ := h.stands u
      rw [Finset.mem_insert] at h2
      constructor <;> simpa only [Finset.mem_insert, hpc, hipi, hD, hA, early_congr htotal hsense]
  exact ⟨h.notSelf, hcall.trans h.call, htotal.trans h.total, h.unset, fun u => (hall u).done,
    fun u => (hall u).arrived, fun u => (hall u).ipi, (hall c).calling rfl, fun u => (hall u).other,
    fun u => (hall u).working, hb⟩

/-- A core without a part in the operation moves. -/
theorem Active.frame (hm : MovesAlone t s s') (htc : t ≠ c)
    (htD : t ∉ D) (hq : (s'.pc t).Quiet = true) : s'.Active c d T U D A := by
  have htA : t ∉ A := fun ht => (Finset.mem_insert.mp (h.arrivedSub ht)).elim htc htD
  refine h.move hm.call hm.total hm.sense (fun u hu => ⟨hm.pc u hu, congrFun hm.ipi u, .rfl, .rfl⟩) ?_
    (h.barrier.congr hm.count hm.sense fun u hu => hm.pc u fun he => htA (he ▸ hu))
  refine ⟨h.done t, fun ht => h.arrivedSub ht, ?_, fun he => absurd he htc, fun _ _ => hq,
    fun ht => absurd ht htD⟩
  rw [hm.ipi, h.ipi t]
  simp only [htD, false_implies]

/-! ## Steps of the targets -/

theorem Active.mem_of_ipi (hi : s.ipi t = true)
    (hp : ∀ ctx, s.pc t ≠ .clearing ctx) : t ∈ T ∧ t ∉ U ∧ t ∉ D := by
  obtain ⟨hT, hU, hD⟩ := (h.ipi t).mp hi
  refine ⟨hT, hU, fun ht => ?_⟩
  obtain ⟨ctx, hc⟩ := hD ht
  exact hp ctx hc

/-- A target finds its flag set and executes the call. -/
theorem Active.exec (hp : s.pc t = .loading [] ctx)
    (hi : s.ipi t = true) (ctx' : Ctx) :
    t ∈ T \ D ∧ (s.goto t (.clearing ctx')).Active c d T U (insert t D) A := by
  obtain ⟨hT, hU, hD⟩ := h.mem_of_ipi hi (by rw [hp]; nofun)
  have htc : t ≠ c := fun he => h.notSelf (he ▸ hT)
  have htA : t ∉ A := fun ht => (Finset.mem_insert.mp (h.arrivedSub ht)).elim htc hD
  refine ⟨Finset.mem_sdiff.mpr ⟨hT, hD⟩, h.move rfl rfl rfl
    (fun u hu => ⟨goto_pc_ne hu, rfl, by simp [hu], .rfl⟩) ?_
    (h.barrier.congr rfl rfl fun u hu => goto_pc_ne fun he => htA (he ▸ hu))⟩
  exact ⟨fun _ => ⟨hT, hU⟩, fun ht => absurd ht htA,
    ⟨fun _ => ⟨hT, hU, fun _ => ⟨ctx', goto_pc_self⟩⟩, fun _ => hi⟩, fun he => absurd he htc,
    fun _ hn => absurd (Finset.mem_insert_self t D) hn, fun _ _ => .inl ⟨ctx', goto_pc_self⟩⟩

/-- A target clears its flag and enters the barrier. -/
theorem Active.clear (hp : s.pc t = .clearing ctx) :
    ((s.setIpi t false).goto t (.barrier .start (.handler ctx))).Active c d T U D A := by
  have htA : t ∉ A := by
    intro ht
    obtain ⟨b, ⟨k, hk, -⟩, -⟩ := h.inBarrier ht
    exact nomatch hp.symm.trans hk
  have htc : t ≠ c := by
    rintro rfl
    have := h.caller_calling
    rw [hp] at this
    cases this
  have htD : t ∈ D := by
    by_contra hD
    have := h.other t htc hD
    rw [hp] at this
    cases this
  refine h.move rfl rfl rfl (fun u hu => ⟨goto_pc_ne hu, update_of_ne hu .., .rfl, .rfl⟩) ?_
    (h.barrier.congr rfl rfl fun u hu => goto_pc_ne fun he => htA (he ▸ hu))
  refine ⟨h.done t, fun ht => absurd ht htA, ?_, fun he => absurd he htc, fun _ hD => absurd htD hD,
    fun _ _ => .inr ⟨.start, ctx, trivial, goto_pc_self⟩⟩
  rw [goto_pc_self]
  exact iff_of_false (by simp [goto, setIpi]) fun hu => nomatch (hu.2.2 htD).choose_spec

/-! ## The barrier -/

section Barrier

variable (hp : s.pc t = .barrier b k)
include hp

/-- Whoever is busy in the barrier and has not arrived is before the increment of `count`. -/
theorem Active.early (hb : (CorePc.barrier (n := n) b k).Quiet = false) (htA : t ∉ A) :
    s.Early b ∧ (k = .caller ↔ t = c) ∧ (t = c ∧ U = ∅ ∨ t ≠ c ∧ t ∈ D) := by
  by_cases htc : t = c
  · subst htc
    rcases h.calling htA with hc | ⟨hU, ⟨r, hc⟩ | ⟨b', he, hc⟩⟩
    · exact nomatch hp.symm.trans hc
    · exact nomatch hp.symm.trans hc
    · rw [hp] at hc
      injection hc with h1 h2
      exact ⟨h1 ▸ he, ⟨fun _ => rfl, fun _ => h2⟩, .inl ⟨rfl, hU⟩⟩
  · have htD : t ∈ D := by
      by_contra hD
      have hq := h.other t htc hD
      rw [hp, hb] at hq
      cases hq
    rcases h.working t htD htA with ⟨ctx, hc⟩ | ⟨b', ctx, he, hc⟩
    · exact nomatch hp.symm.trans hc
    · rw [hp] at hc
      injection hc with h1 h2
      exact ⟨h1 ▸ he, ⟨fun hk => absurd (h2.symm.trans hk) nofun, fun he => absurd he htc⟩, .inr ⟨htc, htD⟩⟩

/-- Whoever is before the increment of `count` belongs to the operation and has not arrived. -/
theorem Active.arriving (hb : b.Arriving = true) :
    t ∉ A ∧ s.Early b ∧ (k = .caller ↔ t = c) ∧ (t = c ∧ U = ∅ ∨ t ≠ c ∧ t ∈ D) := by
  have htA : t ∉ A := by
    intro ht
    obtain ⟨b', hin, hb'⟩ := h.inBarrier ht
    obtain ⟨rfl, -⟩ := hin.eq hp
    rcases hb' with rfl | hlast
    · cases hb
    · exact not_last_of_arriving hb hlast
  exact ⟨htA, h.early hp (not_quiet_of_arriving hb) htA⟩

/-- Nothing of the flags depends on where in the barrier a core is. -/
theorem Active.ipi_barrier {s' : IpiState n} (hp' : s'.pc t = .barrier b' k) :
    s.ipi t = true ↔ t ∈ T ∧ t ∉ U ∧ (t ∈ D → ∃ ctx, s'.pc t = .clearing ctx) := by
  rw [h.ipi t, hp, hp']
  simp

/-- On the way to the increment, a core reads what is there. -/
theorem Active.approach (hb : b.Arriving = true) (hb' : s.Early b') :
    (s.goto t (.barrier b' k)).Active c d T U D A := by
  obtain ⟨htA, -, hk, hwho⟩ := h.arriving hp hb
  refine h.move rfl rfl rfl (fun u hu => ⟨goto_pc_ne hu, rfl, .rfl, .rfl⟩) ?_
    (h.barrier.congr rfl rfl fun u hu => goto_pc_ne fun he => htA (he ▸ hu))
  refine ⟨h.done t, fun ht => absurd ht htA, h.ipi_barrier hp goto_pc_self, fun he _ => ?_, fun htc htD => ?_, fun hD _ => ?_⟩
  · exact .inr ⟨hwho.elim (·.2) fun hne => absurd he hne.1, .inr ⟨b', hb', hk.mpr he ▸ goto_pc_self⟩⟩
  · exact hwho.elim (fun he => absurd he.1 htc) fun hne => absurd hne.2 htD
  · have hne : t ≠ c := fun he => h.notSelf (he ▸ (h.done t hD).1)
    cases k with
    | caller => exact absurd (hk.mp rfl) hne
    | handler ctx => exact .inr ⟨b', ctx, hb', goto_pc_self⟩

/-- Whoever is between the increments of `count` and `globalsense` is the last, and all have arrived. -/
theorem Active.last (hb : (CorePc.barrier (n := n) b k).Quiet = false) (hb' : b.Arriving = false) :
    A = insert c T ∧ t ∈ A ∧ s.Last b ∧ (k = .caller ↔ t = c) ∧
      ∀ u ∈ A, u ≠ t → s.InBarrier c u (.spin s.globalsense) := by
  have hA : t ∈ A := by
    by_contra htA
    have he := (h.early hp hb htA).1
    cases b <;> first | exact he | cases hb'
  rcases h.barrier with ⟨-, -, hspin⟩ | ⟨heq, l, hl, ⟨b', hlast, hbl⟩, hother⟩
  · obtain ⟨rfl, -⟩ := (hspin t hA).eq hp
    cases hb
  · by_cases htl : t = l
    · subst htl
      obtain ⟨rfl, hk⟩ := hbl.eq hp
      exact ⟨heq, hA, hlast, hk, hother⟩
    · obtain ⟨rfl, -⟩ := (hother t hA htl).eq hp
      cases hb

/-- The last core goes on inside the barrier, before the release. -/
theorem Active.lastMoves (hb : (CorePc.barrier (n := n) b k).Quiet = false) (hb' : b.Arriving = false)
    {m : Nat} {b1 : Barrier} (hlast : ({ s with count := m } : IpiState n).Last b1) :
    (({ s with count := m }).goto t (.barrier b1 k)).Active c d T U D A := by
  obtain ⟨heq, htA, -, hk, hother⟩ := h.last hp hb hb'
  have hmem := h.arrivedSub htA
  refine h.move rfl rfl rfl (fun u hu => ⟨goto_pc_ne hu, rfl, .rfl, .rfl⟩) ?_
    (.inr ⟨heq, t, htA, ⟨b1, hlast, k, goto_pc_self, hk⟩,
      fun u hu hut => (hother u hu hut).congr (goto_pc_ne hut)⟩)
  exact ⟨h.done t, fun _ => hmem, h.ipi_barrier hp goto_pc_self, fun _ hn => absurd htA hn,
    fun htc htD => ((Finset.mem_insert.mp hmem).elim htc htD).elim, fun _ hn => absurd htA hn⟩

end Barrier

theorem Active.arrived_subset : insert c D ⊆ insert c T :=
  Finset.insert_subset_insert c fun t ht => (h.done t ht).1

/-- A core increments the counter. If all others have done so, it is the last. -/
theorem Active.arrive {cores : Nat} (hp : s.pc t = .barrier (.add cores ls) k) :
    (({ s with count := s.count + 1 }).goto t
      (.barrier (if s.count = cores then .reset ls else .spin ls) k)).Active c d T U D (insert t A) := by
  obtain ⟨htA, ⟨rfl, rfl⟩, hk, hwho⟩ := h.arriving hp rfl
  have hmem : t ∈ insert c D := by
    rcases hwho with ⟨rfl, -⟩ | ⟨-, hD⟩
    · exact Finset.mem_insert_self ..
    · exact Finset.mem_insert_of_mem hD
  have hsub : insert t A ⊆ insert c T := (Finset.insert_subset hmem h.arrivedSub).trans h.arrived_subset
  have hcard : (insert t A).card = A.card + 1 := Finset.card_insert_of_notMem htA
  have hall : (insert c T).card = T.card + 1 := Finset.card_insert_of_notMem h.notSelf
  obtain ⟨-, hcount, hspin⟩ : A ≠ insert c T ∧ s.count = A.card ∧
      ∀ u ∈ A, s.InBarrier c u (.spin s.globalsense) := by
    rcases h.barrier with hb | ⟨heq, -⟩
    · exact hb
    · exact absurd (heq ▸ h.arrived_subset hmem) htA
  refine h.move rfl rfl rfl (fun u hu => ⟨goto_pc_ne hu, rfl, .rfl, by simp [hu]⟩) ?_ ?_
  · refine ⟨h.done t, fun _ => hmem, h.ipi_barrier hp goto_pc_self, ?_, fun htc htD => ?_, ?_⟩
    · exact fun _ hn => absurd (Finset.mem_insert_self t A) hn
    · exact ((Finset.mem_insert.mp hmem).elim htc htD).elim
    · exact fun _ hn => absurd (Finset.mem_insert_self t A) hn
  · -- the counter was the number of those who had arrived before
    split_ifs with hl
    · have heq : insert t A = insert c T :=
        Finset.eq_of_subset_of_card_le hsub (by rw [hcard, hall, ← h.total, ← hl, hcount])
      exact .inr ⟨heq, t, Finset.mem_insert_self t A, ⟨.reset s.globalsense, rfl, k, goto_pc_self, hk⟩,
        fun u hu hut => (hspin u (Finset.mem_of_mem_insert_of_ne hu hut)).congr (goto_pc_ne hut)⟩
    · refine .inl ⟨fun heq => hl ?_, (congrArg (· + 1) hcount).trans hcard.symm, fun u hu => ?_⟩
      · rw [heq, hall] at hcard
        rw [hcount, h.total]
        exact (Nat.succ.inj hcard).symm
      · by_cases hut : u = t
        · exact ⟨k, hut ▸ goto_pc_self, hut ▸ hk⟩
        · exact (hspin u (Finset.mem_of_mem_insert_of_ne hu hut)).congr (goto_pc_ne hut)

/-- The last core releases the others: the operation is done but for the return of the caller. -/
theorem Active.release {ls v : Word} (hp : s.pc t = .barrier (.bumped ls v) k) :
    (({ s with globalsense := v + 1 }).goto t (.barrier (.spin ls) k)).Sim (.running c d (T \ D)) := by
  obtain ⟨heq, htA, ⟨rfl, rfl, hcount⟩, hk, hother⟩ := h.last hp rfl rfl
  have hTD : T ⊆ D := by
    intro u hu
    have huA : u ∈ insert c D := h.arrivedSub (heq ▸ Finset.mem_insert_of_mem hu)
    exact Finset.mem_of_mem_insert_of_ne huA fun he => h.notSelf (he ▸ hu)
  have hspin : ∀ u ∈ A, (({ s with globalsense := s.globalsense + 1 }).goto t
      (.barrier (.spin s.globalsense) k)).InBarrier c u (.spin s.globalsense) := by
    intro u hu
    by_cases hut : u = t
    · subst hut
      exact ⟨k, goto_pc_self, hk⟩
    · exact (hother u hu hut).congr (goto_pc_ne hut)
  rw [Finset.sdiff_eq_empty_iff_subset.mpr hTD]
  obtain ⟨kc, hkc, hself⟩ := hspin c (heq ▸ Finset.mem_insert_self c T)
  rw [hself.mpr rfl] at hkc
  refine .released ⟨fun u => ?_, hcount, fun u => ?_⟩ hkc ?_
  · -- a flag that is set belongs to a core that has not come to the barrier
    show s.ipi u = false
    rw [← Bool.not_eq_true, h.ipi u]
    rintro ⟨huT, -, hc⟩
    obtain ⟨ctx, hc⟩ := hc (hTD huT)
    obtain ⟨b', ⟨k', hk', -⟩, -⟩ := h.inBarrier (heq ▸ Finset.mem_insert_of_mem huT : u ∈ A)
    exact nomatch hc.symm.trans hk'
  · by_cases huA : u ∈ A
    · obtain ⟨k', hk', -⟩ := hspin u huA
      rw [hk']
      rfl
    · have hut : u ≠ t := fun he => huA (he ▸ htA)
      have hu : u ∉ insert c D := fun hm => huA (heq ▸ h.arrived_subset hm)
      rw [Finset.mem_insert, not_or] at hu
      rw [goto_pc_ne hut]
      exact h.other u hu.1 hu.2
  · exact fun he => absurd (BitVec.self_eq_add_right.mp he) (by decide)

/-! ## Steps of the caller -/

theorem Active.not_arrived (hp : ∀ b k, s.pc c ≠ .barrier b k) : c ∉ A := by
  intro hc
  obtain ⟨b, ⟨k, hk, -⟩, -⟩ := h.inBarrier hc
  exact hp b k hk

theorem Active.unset_of_sending {rest : Finset (Fin n)} (hp : s.pc c = .sending rest) : U = ∅ := by
  rcases h.calling (h.not_arrived (by rw [hp]; nofun)) with hq | ⟨hU, -⟩
  · exact nomatch hp.symm.trans hq
  · exact hU

/-- The caller goes on to send interrupts or enter the barrier. -/
theorem Active.callerMoves (hm : MovesAlone c s s') (hA : c ∉ A)
    (hcall : U = ∅ ∧ ((∃ rest, s'.pc c = .sending rest) ∨
      ∃ b, s'.Early b ∧ s'.pc c = .barrier b .caller)) : s'.Active c d T U D A := by
  have hcD : c ∉ D := fun hc => h.notSelf (h.done c hc).1
  refine h.move hm.call hm.total hm.sense (fun u hu => ⟨hm.pc u hu, congrFun hm.ipi u, .rfl, .rfl⟩) ?_
    (h.barrier.congr hm.count hm.sense fun u hu => hm.pc u fun he => hA (he ▸ hu))
  refine ⟨h.done c, fun hc => absurd hc hA, ?_, fun _ _ => .inr hcall, fun hn => absurd rfl hn,
    fun hc => absurd hc hcD⟩
  rw [hm.ipi, h.ipi c]
  simp only [hcD, false_implies]

theorem Active.flagging {rest mask : Finset (Fin n)} (hp : s.pc c = .flagging rest mask) :
    rest = U ∧ mask = T := by
  rcases h.calling (h.not_arrived (by rw [hp]; nofun)) with hc | ⟨-, ⟨r, hc⟩ | ⟨b, -, hc⟩⟩
  · rw [hp] at hc
    injection hc with h1 h2
    exact ⟨h1, h2⟩
  · exact nomatch hp.symm.trans hc
  · exact nomatch hp.symm.trans hc

/-- The caller sets one more flag. -/
theorem Active.setFlag {i : Fin n} {rest mask : Finset (Fin n)}
    (hp : s.pc c = .flagging rest mask) (hi : i ∈ rest) :
    ((s.setIpi i true).goto c (.flagging (rest.erase i) mask)).Active c d T (U.erase i) D A := by
  have hA : c ∉ A := h.not_arrived (by rw [hp]; nofun)
  obtain ⟨rfl, rfl⟩ := h.flagging hp
  have hcD : c ∉ D := fun hc => h.notSelf (h.done c hc).1
  have hpc : ∀ u ≠ c, ((s.setIpi i true).goto c (.flagging (rest.erase i) mask)).pc u = s.pc u :=
    fun u hu => goto_pc_ne hu
  refine ⟨h.notSelf, h.call, h.total, (Finset.erase_subset i rest).trans h.unset, ?_, h.arrivedSub, ?_,
    fun _ => .inl goto_pc_self, ?_, ?_, ?_⟩
  · exact fun t ht => ⟨(h.done t ht).1, fun hm => (h.done t ht).2 (Finset.mem_of_mem_erase hm)⟩
  · intro u
    show update s.ipi i true u = true ↔ _
    by_cases hui : u = i
    · rw [hui, update_self]
      exact ⟨fun _ => ⟨h.unset hi, Finset.notMem_erase i rest, fun hD => absurd hi (h.done i hD).2⟩,
        fun _ => rfl⟩
    · rw [update_of_ne hui, Finset.mem_erase, not_and, forall_prop_of_true hui]
      refine (h.ipi u).trans (and_congr_right fun _ => and_congr_right fun _ => ?_)
      exact forall_congr' fun hu => by rw [hpc u fun he => hcD (he ▸ hu)]
  · intro u huc huD
    rw [hpc u huc]
    exact h.other u huc huD
  · intro u hu huA
    rw [hpc u fun he => hcD (he ▸ hu)]
    exact h.working u hu huA
  · exact h.barrier.congr rfl rfl fun u hu => hpc u fun he => hA (he ▸ hu)

omit h in
/-- The set-up is complete: no flag is set yet. -/
theorem Rest.activate (h : s.Rest) (hcall : s.call = d) (hc : c ∉ T) :
    (({ s with totalCoreBarrier := T.card }).goto c (.flagging T T)).Active c d T T ∅ ∅ := by
  refine ⟨hc, hcall, rfl, Finset.Subset.refl T, fun t ht => absurd ht (Finset.notMem_empty t),
    Finset.empty_subset _, ?_, fun _ => .inl goto_pc_self, ?_,
    fun t ht => absurd ht (Finset.notMem_empty t), ?_⟩
  · intro u
    show s.ipi u = true ↔ _
    rw [h.ipi u]
    exact ⟨nofun, fun hu => absurd hu.1 hu.2.1⟩
  · intro u huc _
    rw [goto_pc_ne huc]
    exact h.quiet u
  · exact .inl ⟨(Finset.insert_ne_empty c T).symm, h.count, fun u hu => absurd hu (Finset.notMem_empty u)⟩

end Active

section Frame

variable {s s' : IpiState n} {t : Fin n} {op : RemoteOp n}

theorem Sim.caller_calling {c : Fin n} {d : CallData} {todo : Finset (Fin n)}
    (h : s.Sim (.running c d todo)) : (s.pc c).Calling = true := by
  cases h with
  | setup _ hp => rw [hp]; rfl
  | active ha => exact ha.caller_calling
  | released _ hp => rw [hp]; rfl

theorem holds_of_calling {p : CorePc n} (h : p.Calling = true) : p.Holds = true := by
  cases p
  case holding => rfl
  all_goals exact h

theorem Rest.frame (h : s.Rest) (hm : MovesAlone t s s') (hq : (s'.pc t).Quiet = true) : s'.Rest := by
  refine ⟨fun u => hm.ipi ▸ h.ipi u, hm.count.trans h.count, fun u => ?_⟩
  by_cases hu : u = t
  · exact hu ▸ hq
  · exact hm.pc u hu ▸ h.quiet u

/-- A step of a core outside the operation is none of the operation's business. -/
theorem Sim.frame (h : s.Sim op) (hm : MovesAlone t s s') (ho : s.Outside t)
    (hh : (s.pc t).Holds = false) (hq : (s'.pc t).Quiet = true) (hc : (s'.pc t).Calling = false) :
    s'.Sim op := by
  have hne : ∀ c, (s.pc c).Calling = true → t ≠ c := by
    rintro c hcall rfl
    rw [holds_of_calling hcall] at hh
    cases hh
  cases h with
  | idle hrest hcall =>
    refine .idle (hrest.frame hm hq) fun u => ?_
    by_cases hu : u = t
    · exact hu ▸ hc
    · exact hm.pc u hu ▸ hcall u
  | setup hrest hpc hsame hnot =>
    have htc := hne _ (by rw [hpc]; rfl)
    exact .setup (hrest.frame hm hq) ((hm.pc _ htc.symm).trans hpc) (hm.call ▸ hsame) hnot
  | active ha =>
    exact .active (ha.frame hm (hne _ ha.caller_calling) (ha.outside ho).2 hq)
  | released hrest hpc hls =>
    have htc := hne _ (by rw [hpc]; rfl)
    exact .released (hrest.frame hm hq) ((hm.pc _ htc.symm).trans hpc) (hm.sense ▸ hls)

theorem Sim.goto (h : s.Sim op) (ho : s.Outside t) (hh : (s.pc t).Holds = false) {p : CorePc n}
    (hq : p.Quiet = true) (hc : p.Calling = false) : (s.goto t p).Sim op :=
  h.frame (movesAlone_goto s t p) ho hh (goto_pc_self ▸ hq) (goto_pc_self ▸ hc)

end Frame

/-! ## One step -/

section Step

variable {s s' : IpiState n} {c : Fin n} {a : IpiAction n} {op : RemoteOp n}

theorem resume_pc (ctx : Ctx) : (ctx.resume : CorePc n).Quiet = true ∧
    (ctx.resume : CorePc n).Holds = false ∧ (ctx.resume : CorePc n).Calling = false ∧
    (∀ rest ctx', (ctx.resume : CorePc n) ≠ .loading rest ctx') ∧
    (∀ ctx', (ctx.resume : CorePc n) ≠ .clearing ctx') ∧
    ∀ b k, (ctx.resume : CorePc n) ≠ .barrier b k := by
  cases ctx <;> exact ⟨rfl, rfl, rfl, nofun, nofun, nofun⟩

theorem ipiWait_frame (h : s.ipiWait b = some (s', b')) :
    s'.call = s.call ∧ s'.ipi = s.ipi ∧ s'.regs = s.regs ∧ s'.pc = s.pc := by
  cases b <;> first | (cases h; exact ⟨rfl, rfl, rfl, rfl⟩) | cases h

section

variable (h : s.Sim op) (hc : s.Common)
include h hc

/-- A core in `doRemoteMaskOp` is the one whose operation it is. -/
theorem Sim.caller_eq (hp : (s.pc c).Calling = true) : ∃ d todo, op = .running c d todo := by
  cases h with
  | idle _ hcall => exact nomatch hp.symm.trans (hcall c)
  | setup hrest hpc hsame hnot | released hrest hpc hls =>
    obtain rfl := hc.holder _ _ (holds_of_calling hp) (by rw [hpc]; rfl)
    exact ⟨_, _, rfl⟩
  | active ha =>
    obtain rfl := hc.holder _ _ (holds_of_calling hp) (holds_of_calling ha.caller_calling)
    exact ⟨_, _, rfl⟩

/-- A core that holds the lock and is not in `doRemoteMaskOp` is in no operation. -/
theorem Sim.idle_of_holding (hp : s.pc c = .holding) : op = .idle := by
  cases op with
  | idle => rfl
  | running c' d todo =>
    have hcall := h.caller_calling
    obtain rfl := hc.holder c c' (by rw [hp]; rfl) (holds_of_calling hcall)
    rw [hp] at hcall
    cases hcall

/-- The call is written only while no flag is set. -/
theorem Sim.storing {rest : List Field} {d : CallData}
    {T : Finset (Fin n)} (hp : s.pc c = .storing rest d T) :
    s.Rest ∧ op = .running c d T ∧ (∀ f, f ∉ rest → CallData.Same f s.call d) ∧ c ∉ T := by
  obtain ⟨d', todo, rfl⟩ := h.caller_eq hc (by rw [hp]; rfl)
  cases h with
  | setup hrest hpc hsame hnot =>
    rw [hp] at hpc
    injection hpc with h1 h2 h3
    subst h1 h2 h3
    exact ⟨hrest, rfl, hsame, hnot⟩
  | active ha =>
    rcases ha.calling (ha.not_arrived (by rw [hp]; nofun)) with hq | ⟨-, ⟨r, hq⟩ | ⟨b, -, hq⟩⟩ <;>
      exact nomatch hp.symm.trans hq
  | released hrest hpc hls => exact nomatch hp.symm.trans hpc

/-- The operation of a core that sets flags or sends interrupts is active. -/
theorem Sim.sending (hp : (∃ rest mask, s.pc c = .flagging rest mask) ∨ ∃ rest, s.pc c = .sending rest) :
    ∃ d T U D A, op = .running c d (T \ D) ∧ s.Active c d T U D A := by
  obtain ⟨d', todo, rfl⟩ := h.caller_eq hc (by rcases hp with ⟨_, _, hp⟩ | ⟨_, hp⟩ <;> rw [hp] <;> rfl)
  cases h with
  | setup hrest hpc hsame hnot | released hrest hpc hls =>
    rcases hp with ⟨_, _, hp⟩ | ⟨_, hp⟩ <;> exact nomatch hp.symm.trans hpc
  | active ha => exact ⟨_, _, _, _, _, rfl, ha⟩

end

/-- A step of core `c` keeps what holds in every phase, if it makes `c` the only holder of the lock
when it makes it one, clears no other flag, and writes the call only while no flag is set. -/
theorem Common.goto (h : s.Common) {s1 : IpiState n} {p : CorePc n} (hpc : s1.pc = s.pc)
    (hh : p.Holds = true → ∀ u, (s.pc u).Holds = true → u = c)
    (hipi : ∀ u ≠ c, s.ipi u = true → s1.ipi u = true)
    (hregs : ∀ u ≠ c, s1.regs u = s.regs u) (hcall : s1.call = s.call ∨ ∀ u, s.ipi u = false)
    (hload : ∀ rest ctx, p = .loading rest ctx → ctx ≠ .irq →
      s1.ipi c = true ∧ ∀ f, f ∉ rest → CallData.Same f (s1.regs c) s1.call) : (s1.goto c p).Common := by
  have hself : (s1.goto c p).pc c = p := goto_pc_self
  have hp : ∀ u ≠ c, (s1.goto c p).pc u = s.pc u := fun u hu => (goto_pc_ne hu).trans (congrFun hpc u)
  constructor
  · have hkey : ∀ u ≠ c, ((s1.goto c p).pc u).Holds = true → ((s1.goto c p).pc c).Holds = true → False :=
      fun u hu hhu hc => hu (hh (hself ▸ hc) u (hp u hu ▸ hhu))
    intro u v hu hv
    by_cases huc : u = c <;> by_cases hvc : v = c
    · rw [huc, hvc]
    · exact absurd (hkey v hvc hv (huc ▸ hu)) id
    · exact absurd (hkey u huc hu (hvc ▸ hv)) id
    · exact h.holder u v (hp u huc ▸ hu) (hp v hvc ▸ hv)
  · intro u rest ctx hu hctx
    by_cases huc : u = c
    · exact huc ▸ hload rest ctx (hself.symm.trans (huc ▸ hu)) hctx
    · obtain ⟨hi, hs⟩ := h.loaded u rest ctx (hp u huc ▸ hu) hctx
      rcases hcall with hcall | hcall
      · exact ⟨hipi u huc hi, hregs u huc ▸ hcall ▸ hs⟩
      · exact nomatch hi.symm.trans (hcall u)

theorem Common.goes (h : s.Common) {p : CorePc n} (hh : p.Holds = true → ∀ u, (s.pc u).Holds = true → u = c)
    (hload : ∀ rest ctx, p = .loading rest ctx → ctx ≠ .irq →
      s.ipi c = true ∧ ∀ f, f ∉ rest → CallData.Same f (s.regs c) s.call) : (s.goto c p).Common :=
  h.goto rfl hh (fun _ _ hi => hi) (fun _ _ => rfl) (.inl rfl) hload

theorem holds_barrier (b b' : Barrier) (k : Cont) :
    (CorePc.barrier (n := n) b k).Holds = (CorePc.barrier (n := n) b' k).Holds := by
  cases k <;> rfl

theorem Common.step (h : s.Common) (hsim : s.Sim op) (hs : s.Step c a s') : s'.Common := by
  have hkeep : ∀ {p : CorePc n}, (s.pc c).Holds = true → p.Holds = true →
      ∀ u, (s.pc u).Holds = true → u = c := fun hc _ u hu => h.holder u c hu hc
  cases hs with
  | enter hp => exact h.goes nofun nofun
  | acquire hp hfree => exact h.goes (fun _ u hu => absurd (hu.symm.trans (hfree u)) nofun) nofun
  | release hp => exact h.goes nofun nofun
  | takeIpi hp =>
    refine h.goto rfl nofun (fun _ _ hi => hi) (fun _ _ => rfl) (.inl rfl) fun rest ctx hl hctx => ?_
    injection hl with _ h2
    exact absurd h2.symm hctx
  | notice hp hctx hi =>
    refine h.goes nofun fun rest ctx hl _ => ⟨hi, fun f hf => ?_⟩
    injection hl with h1 _
    exact absurd (mem_allFields f) (h1 ▸ hf)
  | load hp =>
    refine h.goto rfl nofun (fun _ _ hi => hi) (fun _ hu => update_of_ne hu ..) (.inl rfl)
      fun rest ctx hl hctx => ?_
    injection hl with h1 h2
    subst h1 h2
    obtain ⟨hi, hsame⟩ := h.loaded c _ _ hp hctx
    refine ⟨hi, fun g hg => ?_⟩
    show CallData.Same g (update s.regs c _ c) s.call
    rw [update_self]
    rename_i f _ _
    by_cases hgf : g = f
    · exact hgf ▸ CallData.same_copy g s.call (s.regs c)
    · exact CallData.same_copy_of_ne hgf (hsame g (List.not_mem_cons_of_ne_of_not_mem hgf hg))
  | exec hp hi => exact h.goes nofun nofun
  | spurious hp hi | leave hp hls =>
    obtain ⟨-, hh, -, hl, -⟩ := resume_pc (n := n) _
    exact h.goes (fun hp => absurd (hp.symm.trans hh) nofun) fun rest ctx hp => absurd hp (hl rest ctx)
  | clear hp =>
    exact h.goto rfl nofun (fun u hu hi => (update_of_ne hu ..).trans hi) (fun _ _ => rfl) (.inl rfl) nofun
  | wait hp hw =>
    obtain ⟨h1, h2, h3, h4⟩ := ipiWait_frame hw
    refine h.goto h4 (fun hh u hu => h.holder u c hu ?_) (fun u _ hi => (congrFun h2 u).trans hi)
      (fun u _ => congrFun h3 u) (.inl h1) nofun
    rw [hp, holds_barrier]
    exact hh
  | ret hp hls => exact h.goes (hkeep (p := .holding) (by rw [hp]; rfl)) nofun
  | callNone hp hm => exact h
  | call hp hm | flagsSet hp | sent hp => exact h.goes (hkeep (by rw [hp]; rfl)) nofun
  | store hp =>
    exact h.goto rfl (hkeep (by rw [hp]; rfl)) (fun _ _ hi => hi) (fun _ _ => rfl)
      (.inr (hsim.storing h hp).1.ipi) nofun
  | storeTotal hp | send hp =>
    exact h.goto rfl (hkeep (by rw [hp]; rfl)) (fun _ _ hi => hi) (fun _ _ => rfl) (.inl rfl) nofun
  | setFlag hp hi =>
    refine h.goto rfl (hkeep (by rw [hp]; rfl)) (fun u _ hu => ?_) (fun _ _ => rfl) (.inl rfl) nofun
    show update s.ipi _ true u = true
    rw [update_apply]
    split
    · rfl
    · exact hu

theorem outside_of_free {p : CorePc n} (hp : s.pc c = p) (h1 : ∀ ctx, p ≠ .clearing ctx)
    (h2 : ∀ b k, p ≠ .barrier b k) : s.Outside c :=
  ⟨fun ctx hc => h1 ctx (hp.symm.trans hc), fun b k hb => absurd (hp.symm.trans hb) (h2 b k)⟩

section

variable (h : s.Sim op)
include h

/-- A target executes what is there, unless its interrupt came late. -/
theorem Sim.exec (hc : s.Common) (hp : s.pc c = .loading [] ctx)
    (hi : s.ipi c = true) (hfresh : ¬ s.ExecutesStale (c, .exec (s.regs c))) (ctx' : Ctx) :
    ∃ op', (s.goto c (.clearing ctx')).Sim op' ∧ op.next (.exec c (s.regs c)) = some op' := by
  have hregs : s.regs c = s.call := by
    by_cases hctx : ctx = .irq
    · by_contra hne
      exact hfresh ⟨hctx ▸ hp, hne⟩
    · exact CallData.eq_of_same fun f => (hc.loaded c [] ctx hp hctx).2 f List.not_mem_nil
  cases h with
  | idle hrest _ | setup hrest _ _ _ | released hrest _ _ => exact nomatch hi.symm.trans (hrest.ipi c)
  | active ha =>
    obtain ⟨hmem, ha'⟩ := ha.exec hp hi ctx'
    refine ⟨_, .active ha', ?_⟩
    show (if _ then _ else _) = _
    rw [if_pos ⟨hmem, hregs.trans ha.call⟩, Finset.sdiff_insert]

/-- Where a core is on its way to the barrier or busy inside it, an operation is active. -/
theorem Sim.active_of_busy (hq : (s.pc c).Quiet = false) :
    ∃ c' d T U D A, op = .running c' d (T \ D) ∧ s.Active c' d T U D A := by
  have hrest : ¬ s.Rest := fun hr => nomatch hq.symm.trans (hr.quiet c)
  cases h with
  | idle hr _ => exact absurd hr hrest
  | setup hr _ _ _ => exact absurd hr hrest
  | released hr _ _ => exact absurd hr hrest
  | active ha => exact ⟨_, _, _, _, _, _, rfl, ha⟩

/-- A core goes on in the barrier. -/
theorem Sim.wait {k : Cont} (hp : s.pc c = .barrier b k)
    (hw : s.ipiWait b = some (s', b')) : (s'.goto c (.barrier b' k)).Sim op := by
  have hq : (s.pc c).Quiet = false := by
    rw [hp]
    cases b <;> first | rfl | cases hw
  obtain ⟨c', d, T, U, D, A, rfl, ha⟩ := h.active_of_busy hq
  cases b with
  | start => cases hw; exact .active (ha.approach hp rfl rfl)
  | sense cores =>
    have hcores : cores = s.totalCoreBarrier := (ha.arriving hp rfl).2.1
    cases hw
    exact .active (ha.approach hp rfl ⟨hcores, rfl⟩)
  | add cores ls => cases hw; exact .active (ha.arrive hp)
  | reset ls =>
    have hls : ls = s.globalsense := (ha.last hp rfl rfl).2.2.1
    cases hw
    exact .active (ha.lastMoves hp rfl rfl ⟨hls, rfl⟩)
  | bump ls =>
    have hls : ls = s.globalsense ∧ s.count = 0 := (ha.last hp rfl rfl).2.2.1
    cases hw
    exact .active (ha.lastMoves hp rfl rfl ⟨hls.1, rfl, hls.2⟩)
  | bumped ls v => cases hw; exact ha.release hp
  | spin ls => cases hw

/-- The caller is released: everybody has executed its call. -/
theorem Sim.ret (hc : s.Common) (hp : s.pc c = .barrier (.spin ls) .caller)
    (hls : ls ≠ s.globalsense) : (s.goto c .holding).Sim .idle ∧ op.next (.ret c) = some .idle := by
  obtain ⟨d, todo, rfl⟩ := h.caller_eq hc (by rw [hp]; rfl)
  cases h with
  | setup _ hpc _ _ => exact nomatch hp.symm.trans hpc
  | active ha =>
    -- the caller would be outside its own operation
    have ho : s.Outside c := by
      refine ⟨by rw [hp]; nofun, fun b k hb => ?_⟩
      rw [hp] at hb
      injection hb with h1 _
      exact ⟨ls, h1.symm, hls⟩
    rcases ha.calling (ha.outside ho).1 with hq | ⟨-, ⟨r, hq⟩ | ⟨b, he, hq⟩⟩
    · exact nomatch hp.symm.trans hq
    · exact nomatch hp.symm.trans hq
    · rw [hp] at hq
      injection hq with h1 _
      subst h1
      exact absurd he id
  | released hr hpc _ =>
    have hcall : ∀ u, ((s.goto c .holding).pc u).Calling = false := by
      refine (forall_update_iff s.pc fun _ p => p.Calling = false).mpr ⟨rfl, fun u hu => ?_⟩
      rw [← Bool.not_eq_true]
      exact fun hcu => hu (hc.holder u c (holds_of_calling hcu) (by rw [hp]; rfl))
    refine ⟨.idle (hr.frame (movesAlone_goto s c .holding) (by rw [goto_pc_self]; rfl)) hcall, ?_⟩
    show (if _ then _ else _) = _
    rw [if_pos ⟨rfl, rfl⟩]

/-- **One step** keeps the phase of the operation or goes on to the next, as the specification does. -/
theorem Sim.step (hc : s.Common) (hs : s.Step c a s') (hfresh : ¬ s.ExecutesStale (c, a)) :
    ∃ op', s'.Sim op' ∧ runFrom RemoteOp.next op (observed [(c, a)]) = some op' := by
  cases hs with
  | enter hp =>
    exact ⟨op, h.goto (outside_of_free hp nofun nofun) (by rw [hp]; rfl) rfl rfl, rfl⟩
  | acquire hp hfree =>
    refine ⟨op, h.goto ?_ (hfree c) rfl rfl, rfl⟩
    rcases hp with ⟨b, hp⟩ | hp <;> exact outside_of_free hp nofun nofun
  | release hp =>
    obtain rfl := h.idle_of_holding hc hp
    cases h with
    | idle hr hcall =>
      refine ⟨.idle, .idle (hr.frame (movesAlone_goto s c .user) (goto_pc_self ▸ rfl)) ?_, rfl⟩
      exact (forall_update_iff s.pc fun _ p => p.Calling = false).mpr ⟨rfl, fun u _ => hcall u⟩
  | takeIpi hp | load hp =>
    refine ⟨op, h.frame ⟨rfl, rfl, rfl, rfl, rfl, fun _ hu => goto_pc_ne hu⟩
      (outside_of_free hp nofun nofun) (by rw [hp]; rfl) ?_ ?_, rfl⟩ <;> rw [goto_pc_self] <;> rfl
  | notice hp hctx hi =>
    obtain ⟨-, hh, -, -, h1, h2⟩ := resume_pc _
    exact ⟨op, h.goto (outside_of_free hp h1 h2) (hp ▸ hh) rfl rfl, rfl⟩
  | exec hp hi =>
    obtain ⟨op', hsim, hn⟩ := h.exec hc hp hi hfresh _
    exact ⟨op', hsim, (runFrom_singleton op _).trans hn⟩
  | spurious hp hi =>
    obtain ⟨hq, -, hcall, -⟩ := resume_pc _
    exact ⟨op, h.goto (outside_of_free hp nofun nofun) (by rw [hp]; rfl) hq hcall, rfl⟩
  | clear hp =>
    obtain ⟨c', d, T, U, D, A, rfl, ha⟩ := h.active_of_busy (by rw [hp]; rfl)
    exact ⟨_, .active (ha.clear hp), rfl⟩
  | wait hp hw => exact ⟨op, h.wait hp hw, rfl⟩
  | leave hp hls =>
    obtain ⟨hq, -, hcall, -⟩ := resume_pc _
    refine ⟨op, h.goto ⟨by rw [hp]; nofun, fun b k hb => ?_⟩ (by rw [hp]; rfl) hq hcall, rfl⟩
    rw [hp] at hb
    injection hb with h1 _
    exact ⟨_, h1.symm, hls⟩
  | ret hp hls =>
    obtain ⟨hsim, hn⟩ := h.ret hc hp hls
    exact ⟨.idle, hsim, (runFrom_singleton op _).trans hn⟩
  | callNone hp hm =>
    obtain rfl := h.idle_of_holding hc hp
    refine ⟨.idle, h, (runFrom_singleton _ _).trans ?_⟩
    show some (if _ then _ else _) = _
    rw [if_pos hm]
  | call hp hm =>
    obtain rfl := h.idle_of_holding hc hp
    cases h with
    | idle hr hcall =>
      refine ⟨_, .setup (hr.frame (movesAlone_goto s c _) ?_) goto_pc_self
        (fun f hf => absurd (mem_allFields f) hf) (Finset.notMem_erase c _),
        (runFrom_singleton _ _).trans ?_⟩
      · rw [goto_pc_self]
        rfl
      · show some (if _ then _ else _) = _
        rw [if_neg hm]
  | store hp =>
    obtain ⟨hr, rfl, hsame, hnot⟩ := h.storing hc hp
    refine ⟨_, .setup ⟨hr.ipi, hr.count, ?_⟩ goto_pc_self (fun g hg => ?_) hnot, rfl⟩
    · exact (forall_update_iff s.pc fun _ p => p.Quiet = true).mpr ⟨rfl, fun u _ => hr.quiet u⟩
    · rename_i f _ _ _
      by_cases hgf : g = f
      · exact hgf ▸ CallData.same_copy g _ s.call
      · exact CallData.same_copy_of_ne hgf (hsame g (List.not_mem_cons_of_ne_of_not_mem hgf hg))
  | storeTotal hp =>
    obtain ⟨hr, rfl, hsame, hnot⟩ := h.storing hc hp
    have ha := hr.activate (CallData.eq_of_same fun f => hsame f List.not_mem_nil) hnot
    refine ⟨_, .active ha, ?_⟩
    rw [Finset.sdiff_empty]
    rfl
  | setFlag hp hi =>
    obtain ⟨d, T, U, D, A, rfl, ha⟩ := h.sending hc (.inl ⟨_, _, hp⟩)
    exact ⟨_, .active (ha.setFlag hp hi), rfl⟩
  | flagsSet hp =>
    obtain ⟨d, T, U, D, A, rfl, ha⟩ := h.sending hc (.inl ⟨_, _, hp⟩)
    have hA := ha.not_arrived (by rw [hp]; nofun)
    exact ⟨_, .active (ha.callerMoves (movesAlone_goto s c _) hA
      ⟨(ha.flagging hp).1.symm, .inl ⟨_, goto_pc_self⟩⟩), rfl⟩
  | send hp =>
    obtain ⟨d, T, U, D, A, rfl, ha⟩ := h.sending hc (.inr ⟨_, hp⟩)
    have hA := ha.not_arrived (by rw [hp]; nofun)
    refine ⟨_, .active (ha.callerMoves ⟨rfl, rfl, rfl, rfl, rfl, fun _ hu => goto_pc_ne hu⟩ hA
      ⟨ha.unset_of_sending hp, .inl ⟨_, goto_pc_self⟩⟩), rfl⟩
  | sent hp =>
    obtain ⟨d, T, U, D, A, rfl, ha⟩ := h.sending hc (.inr ⟨_, hp⟩)
    have hA := ha.not_arrived (by rw [hp]; nofun)
    exact ⟨_, .active (ha.callerMoves (movesAlone_goto s c _) hA
      ⟨ha.unset_of_sending hp, .inr ⟨.start, trivial, goto_pc_self⟩⟩), rfl⟩

end

end Step

/-! ## Runs -/

theorem sim_initial (n : Nat) : (initial n).Sim .idle :=
  .idle ⟨fun _ => rfl, rfl, fun _ => rfl⟩ fun _ => rfl

theorem common_initial (n : Nat) : (initial n).Common :=
  ⟨fun _ _ hc => absurd hc nofun, fun _ _ _ hp => absurd hp nofun⟩

theorem observed_snoc (tr : List (Fin n × IpiAction n)) (e : Fin n × IpiAction n) :
    observed (tr ++ [e]) = observed tr ++ observed [e] := List.filterMap_append ..

/-- A stale execution is not the call that was asked for. -/
theorem Sim.refuses_stale {s s' : IpiState n} {t : Fin n} {a : IpiAction n} {op : RemoteOp n}
    (h : s.Sim op) (hs : s.Step t a s') (hstale : s.ExecutesStale (t, a)) :
    runFrom RemoteOp.next op (observed [(t, a)]) = none := by
  cases hs with
  | exec hp hi =>
    have hne : s.regs t ≠ s.call := hstale.2
    refine (runFrom_singleton op _).trans ?_
    cases h with
    | idle hrest _ => rfl
    | setup hrest _ _ _ | released hrest _ _ => exact nomatch hi.symm.trans (hrest.ipi t)
    | active ha =>
      show (if _ then _ else _) = none
      rw [if_neg fun hc => hne (hc.2.trans ha.call.symm)]
  | _ => exact absurd hstale id

/-- No core executes what it read before the operation was set up. -/
def Fresh (tr : List (Fin n × IpiAction n)) : Prop :=
  EveryStep next (fun s e => ¬ s.ExecutesStale e) (initial n) tr

/-- A run that is fresh is exact and ends in a phase of the operation the specification has come to; a
run that the specification accepts is fresh. -/
abbrev SimRun (tr : List (Fin n × IpiAction n)) (s : IpiState n) : Prop :=
  (Fresh tr → Exact tr ∧ s.Common ∧
    ∃ op, runFrom RemoteOp.next .idle (observed tr) = some op ∧ s.Sim op) ∧
  ((runFrom RemoteOp.next .idle (observed tr)).isSome = true → Fresh tr)

theorem run_sim {tr} {s : IpiState n} (h : runFrom next (initial n) tr = some s) : SimRun tr s := by
  refine runFrom_invariant (P := SimRun) ?_ ?_ h
  · exact ⟨fun _ => ⟨⟨rfl, trivial⟩, common_initial n, .idle, rfl, sim_initial n⟩, fun _ => trivial⟩
  · rintro tr s ⟨c, a⟩ s' hr ⟨hsim, hacc⟩ hn
    have hstep := next_step hn
    have hsplit : ∀ op, runFrom RemoteOp.next .idle (observed tr) = some op →
        runFrom RemoteOp.next .idle (observed (tr ++ [(c, a)])) =
          runFrom RemoteOp.next op (observed [(c, a)]) := by
      intro op hop
      rw [observed_snoc, runFrom_append, hop]
      rfl
    constructor
    · intro hf
      obtain ⟨hf, hnew⟩ := (everyStep_snoc hr (c, a)).mp hf
      obtain ⟨⟨-, hcount⟩, hc, op, hop, hs⟩ := hsim hf
      obtain ⟨op', hs', hop'⟩ := hs.step hc hstep hnew
      rw [← hsplit op hop] at hop'
      refine ⟨⟨by rw [hop']; rfl, (everyStep_snoc hr (c, a)).mpr ⟨hcount, ?_⟩⟩, hc.step hs hstep, op', hop', hs'⟩
      -- an operation starts where none is under way
      rintro d mask rfl
      have hidle : op = .idle := by
        cases hstep with
        | callNone hp _ => exact hs.idle_of_holding hc hp
        | call hp _ => exact hs.idle_of_holding hc hp
      subst hidle
      cases hs with
      | idle hrest _ => exact hrest.count
    · intro hsome
      have hprev : (runFrom RemoteOp.next .idle (observed tr)).isSome = true := by
        rw [observed_snoc, runFrom_append] at hsome
        exact Option.isSome_of_isSome_bind hsome
      have hf := hacc hprev
      refine (everyStep_snoc hr (c, a)).mpr ⟨hf, fun hstale => ?_⟩
      obtain ⟨-, -, op, hop, hs⟩ := hsim hf
      rw [hsplit op hop, hs.refuses_stale hstep hstale] at hsome
      cases hsome

/-- **Remote calls are executed exactly if and only if no late interrupt makes a core execute what it
read before the operation was set up.** In an exact run, between the call of an operation and its return
each core of the mask other than the caller executes exactly the requested call, once, and no other core
executes anything. -/
theorem remote_calls_exact_iff {tr : List (Fin n × IpiAction n)} {s : IpiState n}
    (h : runFrom next (initial n) tr = some s) : (Exact tr ↔ Fresh tr) ∧
    (Exact tr → ∀ pre c d mask mid post,
      observed tr = pre ++ .call c d mask :: (mid ++ .ret c :: post) → mask.erase c ≠ ∅ →
      (∀ c', .ret c' ∉ mid) →
      ∀ t, RemoteOp.executedBy t mid = if t ∈ mask.erase c then [d] else []) := by
  obtain ⟨hfresh, hacc⟩ := run_sim h
  refine ⟨⟨fun he => hacc he.1, fun hf => (hfresh hf).1⟩, ?_⟩
  intro he pre c d mask mid post htr hne hret t
  obtain ⟨op, hop⟩ := Option.isSome_iff_exists.mp he.1
  rw [htr] at hop
  exact RemoteOp.executed_of_accepted hop hne hret t

section Sample

local instance : NeZero 2 := ⟨two_ne_zero⟩

/-- `IpiRemoteCall_InvalidateTranslationASID` of two hardware ASIDs. -/
def firstCall : CallData := ⟨.invalidateTranslationASID, 1, 0, 0⟩

@[inherit_doc firstCall]
def secondCall : CallData := ⟨.invalidateTranslationASID, 2, 0, 0⟩

/-- Core 0 has core 1 execute the first call, which core 1 notices by its flag while it waits for the
lock. The interrupt that core 0 sends is still on its way at the end. -/
def servedByFlag : List (Fin 2 × IpiAction 2) :=
  [(0, .enter false), (0, .acquire), (1, .enter false), (0, .call firstCall {0, 1}), (0, .store),
    (0, .store), (0, .store), (0, .store), (0, .storeTotal), (0, .setFlag 1), (0, .flagsSet),
    (0, .send 1), (0, .sent), (1, .notice), (1, .load), (1, .load), (1, .load), (1, .load),
    (1, .exec firstCall), (1, .clear), (1, .wait), (1, .wait), (1, .wait), (0, .wait), (0, .wait),
    (0, .wait), (0, .wait), (0, .wait), (0, .wait), (0, .ret), (1, .leave), (0, .release)]

/-- Core 1 gets the lock, returns to user mode and takes the late interrupt. It has read the call when
core 0 sets up the second operation, and tests its flag afterwards. -/
def lateIpi : List (Fin 2 × IpiAction 2) :=
  servedByFlag ++
  [(1, .acquire), (1, .release), (1, .takeIpi), (1, .load), (1, .load), (1, .load), (1, .load),
    (0, .enter false), (0, .acquire), (0, .call secondCall {1}), (0, .store), (0, .store), (0, .store),
    (0, .store), (0, .storeTotal), (0, .setFlag 1), (1, .exec firstCall)]

theorem remote_calls_exact_iff_servedByFlag :
    (∃ s, runFrom next (initial 2) servedByFlag = some s) ∧ Fresh servedByFlag ∧ Exact servedByFlag := by
  obtain ⟨s, hs⟩ := Option.isSome_iff_exists.mp
    (by decide +kernel : (runFrom next (initial 2) servedByFlag).isSome = true)
  have hf : Fresh servedByFlag := (run_sim hs).2 (by decide +kernel)
  exact ⟨⟨s, hs⟩, hf, (remote_calls_exact_iff hs).1.mpr hf⟩

/-- **A late interrupt makes a core execute an old call.** Core 1 executes the first call again, where
the second was asked for. -/
theorem late_ipi_executes_old_call : (∃ s, runFrom next (initial 2) lateIpi = some s) ∧
    observed lateIpi = [.call 0 firstCall {0, 1}, .exec 1 firstCall, .ret 0, .call 0 secondCall {1},
      .exec 1 firstCall] ∧ ¬ Exact lateIpi := by
  refine ⟨Option.isSome_iff_exists.mp (by decide +kernel), by decide +kernel, fun he => ?_⟩
  have hnone : (runFrom RemoteOp.next .idle (observed lateIpi)).isSome = false := by decide +kernel
  exact nomatch he.1.symm.trans hnone

end Sample

end IpiState

end SeL4.Smp
