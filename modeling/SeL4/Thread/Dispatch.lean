import SeL4.Thread.Endpoint
import SeL4.Thread.ReadyInv

/-!
# The scheduler runs the highest priority

The scheduler without MCS. `SchedOk` is what holds while the kernel works, between the operation that
it was entered for and `schedule`: it depends on what the operation has asked of the scheduler
(`ksSchedulerAction`).

* The current thread goes on: no thread in a ready queue of the current domain has a higher priority.
* A candidate is to run: none but the candidate has a higher priority than the current thread, so the
  candidate may run without a look at the bitmap unless its priority is lower.
* A new thread is to be chosen: nothing, as the bitmap is searched.

Results:
* `SchedOk.schedule`: after `schedule` no thread in a ready queue of the current domain has a higher
  priority than the current thread, and if that is the idle thread these queues are empty
  (`SysState.dominates_iff_strict`);
* `SchedOk.setThreadState`, `SchedOk.possibleSwitchTo`, `SchedOk.tcbSchedDequeue`,
  `SchedBase.rescheduleRequired`: the ways in which operations use the scheduler keep `SchedOk`.
-/

namespace SeL4.Thread

open SeL4.Lib SeL4.Object Links Function SysState

namespace SysState

/-- `t` is in the ready queue with index `i`. -/
def InReadyQueue (s : SysState) (i : Nat) (t : Word) : Prop :=
  ∃ l, IsQueue 0 s.tcbSched (s.ksReadyQueues i) l ∧ 0 ∉ l ∧ t ∈ l

/-- **Strict priorities**: no thread in a ready queue of the current domain has a higher priority than
the current thread, and if that is the idle thread then these queues are empty. -/
def Strict (cfg : SysConfig) (s : SysState) : Prop :=
  ∀ prio < numPriorities, ∀ i, readyQueuesIndex cfg s.ksCurDomain prio = .ok i →
    (∀ t, s.InReadyQueue i t → s.tcbPriority t ≤ s.tcbPriority s.ksCurThread) ∧
    (s.ksCurThread = s.ksIdleThread → tcbQueueEmpty (s.ksReadyQueues i) = true)

/-- `t` is queued in the current domain. -/
def Rival (s : SysState) (t : Word) : Prop := s.tcbQueued t = true ∧ s.tcbDomain t = s.ksCurDomain

/-- The current thread has no rival of a higher priority, and the idle thread has none. -/
def Dominates (s : SysState) : Prop :=
  ∀ t, s.Rival t → s.ksCurThread ≠ s.ksIdleThread ∧ s.tcbPriority t ≤ s.tcbPriority s.ksCurThread

end SysState

variable {cfg : SysConfig} {s s' : SysState} {i t : Word}

/-- A ready queue holds the queued threads of its domain and priority. -/
theorem SchedInv.mem_ready {p : ThreadParams} {q : SchedQueues} {l : SchedIdx → List Word}
    {d prio : Nat} (h : SchedInv cfg p q l) (hp : prio < numPriorities) :
    t ∈ l (.ready (readyIdx d prio)) ↔
      q.tcbQueued t = true ∧ p.tcbDomain t = d ∧ p.tcbPriority t = prio := by
  rw [h.ready t]
  unfold ThreadParams.idx
  rw [SchedIdx.ready.injEq]
  exact and_congr_right' (readyIdx_inj (h.bounded t).1 hp)

namespace ReadyOnly

variable {d prio : Nat}

variable (h : ReadyOnly cfg s)
include h

theorem bounded (t : Word) : s.tcbPriority t < numPriorities ∧ s.tcbDomain t < cfg.numDomains := by
  obtain ⟨l, hinv, -⟩ := h
  exact hinv.bounded t

/-- What is in a ready queue. -/
theorem inReadyQueue_iff (hp : prio < numPriorities) : s.InReadyQueue (readyIdx d prio) t ↔
      s.tcbQueued t = true ∧ s.tcbDomain t = d ∧ s.tcbPriority t = prio := by
  obtain ⟨l, hinv, -⟩ := h
  have hqueue := hinv.queues.isQueue (.ready (readyIdx d prio))
  have hnull := hinv.queues.null_notMem (.ready (readyIdx d prio))
  rw [← hinv.mem_ready hp]
  constructor
  · rintro ⟨l', hl', hnull', ht⟩
    have heq := hl'.unique hqueue hnull' hnull
    rwa [heq] at ht
  · intro ht
    exact ⟨_, hqueue, hnull, ht⟩

/-- A ready queue is empty if no thread is in it. -/
theorem empty_iff (hp : prio < numPriorities) :
    tcbQueueEmpty (s.ksReadyQueues (readyIdx d prio)) = true ↔
      ∀ t, ¬ (s.tcbQueued t = true ∧ s.tcbDomain t = d ∧ s.tcbPriority t = prio) := by
  obtain ⟨l, hinv, -⟩ := h
  refine (tcbQueueEmpty_iff hinv.queues (.ready (readyIdx d prio))).trans ?_
  rw [List.eq_nil_iff_forall_not_mem]
  exact forall_congr' fun t => not_congr (hinv.mem_ready hp)

/-- A domain with a thread has a bit set in the first level. -/
theorem l1Bitmap_ne_zero (hq : s.tcbQueued t = true) : s.ksReadyQueuesL1Bitmap (s.tcbDomain t) ≠ 0 := by
  obtain ⟨l, hinv, -⟩ := h
  obtain ⟨hprio, hdom⟩ := hinv.bounded t
  have hbusy : l (.ready (readyIdx (s.tcbDomain t) (s.tcbPriority t))) ≠ [] :=
    List.ne_nil_of_mem ((hinv.mem_ready hprio).mpr ⟨hq, rfl, rfl⟩)
  exact ne_zero_of_getLsbD ((hinv.bitmap.l1 _ hdom _).mpr ⟨_, hprio, rfl, hbusy⟩)

/-- The search finds the head of the queue with the highest priority. -/
theorem highest (hd : d < cfg.numDomains) (hne : s.ksReadyQueuesL1Bitmap d ≠ 0) :
    ∃ r, s.getHighestPrio d = .ok r ∧
      s.tcbPriority (s.ksReadyQueues (readyIdx d r)).head = r ∧
      ∀ t, s.tcbQueued t = true → s.tcbDomain t = d → s.tcbPriority t ≤ r := by
  obtain ⟨l, hinv, -⟩ := h
  obtain ⟨r, hr, hlt, hbusy, hmax⟩ := hinv.bitmap.getHighestPrio hd hne
  refine ⟨r, hr, ?_, fun t hq hdt => ?_⟩
  · have hhead : (s.ksReadyQueues (readyIdx d r)).head ≠ 0 := fun he =>
      hbusy ((hinv.queues.head_eq_null_iff (.ready (readyIdx d r))).mp he)
    obtain ⟨B, hB⟩ := hinv.queues.exists_cons (i := SchedIdx.ready (readyIdx d r)) hhead
    have hmem : (s.ksReadyQueues (readyIdx d r)).head ∈ l (.ready (readyIdx d r)) := by
      rw [hB]
      exact .head _
    exact ((hinv.mem_ready hlt).mp hmem).2.2
  · refine hmax _ (hinv.bounded t).1 (List.ne_nil_of_mem (a := t) ?_)
    exact (hinv.mem_ready (hinv.bounded t).1).mpr ⟨hq, hdt, rfl⟩

/-- `isHighestPrio` says that no thread of the domain has a higher priority. -/
theorem isHighestPrio (hd : d < cfg.numDomains)
    (hhigh : s.isHighestPrio d prio = .ok true) (hq : s.tcbQueued t = true)
    (hdt : s.tcbDomain t = d) : s.tcbPriority t ≤ prio := by
  have hne : s.ksReadyQueuesL1Bitmap d ≠ 0 := hdt ▸ h.l1Bitmap_ne_zero hq
  obtain ⟨r, hr, -, hmax⟩ := h.highest hd hne
  unfold SchedQueues.isHighestPrio at hhigh
  rw [if_neg hne, hr] at hhigh
  have hle : r ≤ prio := of_decide_eq_true (Except.ok.inj hhigh)
  exact (hmax t hq hdt).trans hle

end ReadyOnly

namespace SysState

/-- The ready queues of the current domain hold its rivals. -/
theorem dominates_iff_strict (h : ReadyOnly cfg s) (hd : s.ksCurDomain < cfg.numDomains) :
    s.Dominates ↔ s.Strict cfg := by
  have hbound := fun t => (h.bounded t).1
  constructor
  · intro hdom prio hp i hi
    rw [readyQueuesIndex_ok hd] at hi
    cases hi
    refine ⟨fun t ht => ?_, fun hidle => ?_⟩
    · obtain ⟨hq, hdt, -⟩ := (h.inReadyQueue_iff hp).mp ht
      exact (hdom t ⟨hq, hdt⟩).2
    · rw [h.empty_iff hp]
      rintro t ⟨hq, hdt, -⟩
      exact (hdom t ⟨hq, hdt⟩).1 hidle
  · rintro hstrict t ⟨hq, hdt⟩
    obtain ⟨hle, hempty⟩ := hstrict _ (hbound t) _ (readyQueuesIndex_ok hd _)
    refine ⟨fun hidle => ?_, hle t ((h.inReadyQueue_iff (hbound t)).mpr ⟨hq, hdt, rfl⟩)⟩
    exact (h.empty_iff (hbound t)).mp (hempty hidle) t ⟨hq, hdt, rfl⟩

end SysState

/-! ## What holds while the kernel works -/

/-- The queues are right, and the idle thread `i` is never runnable. -/
structure SchedBase (cfg : SysConfig) (i : Word) (s : SysState) : Prop where
  ready : ReadyOnly cfg s
  cur : s.ksCurThread ≠ 0
  idleThread : s.ksIdleThread = i
  idle : i ≠ 0
  idleState : s.tsType i = .idleThreadState
  domain : s.ksCurDomain < cfg.numDomains
  candidate : ∀ c, s.ksSchedulerAction = .switchTo c → c ≠ 0

/-- The request to the scheduler is enough to restore strict priorities. -/
structure SchedOk (cfg : SysConfig) (i : Word) (s : SysState) : Prop extends SchedBase cfg i s where
  resume : s.ksSchedulerAction = .resumeCurrentThread →
    s.Dominates ∧ (s.ksCurThread = s.ksIdleThread ∨ s.isRunnable s.ksCurThread = true)
  switch : ∀ c, s.ksSchedulerAction = .switchTo c → s.ksCurThread ≠ s.ksIdleThread →
    ∀ t, s.Rival t → t = c ∨ s.tcbPriority t ≤ s.tcbPriority s.ksCurThread

/-- Queues, priorities, thread states and scheduler variables stay as they are. -/
structure SchedSame (s s' : SysState) : Prop where
  queues : s'.toSchedQueues = s.toSchedQueues
  params : s'.toThreadParams = s.toThreadParams
  node : s'.toNodeState = s.toNodeState
  states : s'.tsType = s.tsType

namespace SchedSame

theorem trans {s'' : SysState} (h : SchedSame s s') (h' : SchedSame s' s'') : SchedSame s s'' :=
  ⟨h'.queues.trans h.queues, h'.params.trans h.params, h'.node.trans h.node, h'.states.trans h.states⟩

theorem isRunnable (h : SchedSame s s') (t : Word) : s'.isRunnable t = s.isRunnable t := by
  unfold SysState.isRunnable
  rw [h.states]

end SchedSame

namespace SchedBase

variable (h : SchedBase cfg i s)
include h

/-- The state of a thread other than the idle thread is written. -/
theorem congr (hq : s'.toSchedQueues = s.toSchedQueues)
    (hp : s'.toThreadParams = s.toThreadParams) (hn : s'.toNodeState = s.toNodeState)
    (hi : s'.tsType i = s.tsType i) : SchedBase cfg i s' := by
  refine ⟨?_, ?_, ?_, h.idle, ?_, ?_, ?_⟩
  · obtain ⟨l, hinv, hrel⟩ := h.ready
    exact ⟨l, by rw [hq, hp]; exact hinv, hrel⟩
  · rw [hn]
    exact h.cur
  · rw [hn]
    exact h.idleThread
  · rw [hi]
    exact h.idleState
  · rw [hn]
    exact h.domain
  · rw [hn]
    exact h.candidate

theorem same (hs : SchedSame s s') : SchedBase cfg i s' :=
  h.congr hs.queues hs.params hs.node (by rw [hs.states])

/-- The idle thread is not runnable. -/
theorem ne_idle (ht : s.isRunnable t = true) : t ≠ i := by
  rintro rfl
  unfold isRunnable at ht
  rw [h.idleState] at ht
  cases ht

/-- The queues change. -/
theorem requeued {f : Word → Bool} (hs : Requeued cfg f s s') : SchedBase cfg i s' := by
  obtain ⟨q, rfl⟩ := hs.eq
  exact ⟨hs.ready, h.cur, h.idleThread, h.idle, h.idleState, h.domain, h.candidate⟩

/-- A new request is made. -/
theorem setAction {a : SchedulerAction} (ha : ∀ c, a = .switchTo c → c ≠ 0) :
    SchedBase cfg i { s with ksSchedulerAction := a } :=
  ⟨h.ready, h.cur, h.idleThread, h.idle, h.idleState, h.domain, ha⟩

/-- What `rescheduleRequired` does. -/
theorem rescheduleRequired_eq (hs : s.rescheduleRequired cfg = .ok s') :
    ∃ s1 f, Requeued cfg f s s1 ∧ s' = { s1 with ksSchedulerAction := .chooseNewThread } := by
  obtain ⟨s1, h1, hs⟩ := bind_eq_ok hs
  cases hs
  have hsame : Requeued cfg s.tcbQueued s s := ⟨h.ready, rfl, s.toSchedQueues, rfl⟩
  unfold enqueueCandidate at h1
  cases hact : s.ksSchedulerAction <;> rw [hact] at h1
  case switchTo c =>
    rcases runIf_cases h1 with ⟨-, h1⟩ | ⟨-, rfl⟩
    · obtain ⟨_, -, _, -, h1⟩ := bind2_eq_ok h1
      exact ⟨s1, _, h.ready.enqueued (h.candidate c hact) h1, rfl⟩
    · exact ⟨_, _, hsame, rfl⟩
  all_goals
    cases h1
    exact ⟨_, _, hsame, rfl⟩

/-- **After `rescheduleRequired` nothing has to hold about priorities.** -/
theorem rescheduleRequired (hs : s.rescheduleRequired cfg = .ok s') : SchedOk cfg i s' := by
  obtain ⟨s1, f, hr, rfl⟩ := h.rescheduleRequired_eq hs
  exact ⟨(h.requeued hr).setAction nofun, nofun, nofun⟩

end SchedBase

namespace SchedOk

section

variable (h : SchedOk cfg i s)
include h

/-- The state of a thread is written; the current thread stays runnable if it is to go on. -/
theorem congr (hq : s'.toSchedQueues = s.toSchedQueues)
    (hp : s'.toThreadParams = s.toThreadParams) (hn : s'.toNodeState = s.toNodeState)
    (hi : s'.tsType i = s.tsType i) (hrun : s.ksSchedulerAction = .resumeCurrentThread →
      s.ksCurThread = s.ksIdleThread ∨ s'.isRunnable s.ksCurThread = true) : SchedOk cfg i s' := by
  have hrival : ∀ t, s'.Rival t → s.Rival t := by
    intro t ht
    unfold SysState.Rival at ht
    rwa [hq, hp, hn] at ht
  refine ⟨h.toSchedBase.congr hq hp hn hi, fun ha => ?_, fun c ha hc t ht => ?_⟩
  · rw [hn] at ha ⊢
    refine ⟨fun t ht => ?_, hrun ha⟩
    rw [hp, hn]
    exact (h.resume ha).1 t (hrival t ht)
  · rw [hn] at ha hc
    rw [hp, hn]
    exact h.switch c ha hc t (hrival t ht)

theorem same (hs : SchedSame s s') : SchedOk cfg i s' := by
  refine h.congr hs.queues hs.params hs.node (by rw [hs.states]) fun ha => ?_
  rw [hs.isRunnable]
  exact (h.resume ha).2

/-- The queues change, and the current thread gets no new rival. -/
theorem requeued {f : Word → Bool} (hs : Requeued cfg f s s')
    (hf : ∀ u, f u = true → s.tcbDomain u = s.ksCurDomain → s.tcbQueued u = true) :
    SchedOk cfg i s' := by
  have hb := h.toSchedBase.requeued hs
  obtain ⟨q, rfl⟩ := hs.eq
  have hrival : ∀ t, SysState.Rival { s with toSchedQueues := q } t → s.Rival t := by
    rintro t ⟨hq, hd⟩
    rw [hs.queued] at hq
    exact ⟨hf t hq hd, hd⟩
  refine ⟨hb, fun ha => ⟨fun t ht => ?_, (h.resume ha).2⟩, fun c ha hc t ht => ?_⟩
  · exact (h.resume ha).1 t (hrival t ht)
  · exact h.switch c ha hc t (hrival t ht)

theorem tcbSchedDequeue (hs : s.tcbSchedDequeue cfg t = .ok s') : SchedOk cfg i s' := by
  refine h.requeued (h.ready.dequeued hs) fun u hu _ => ?_
  rw [update_apply] at hu
  split_ifs at hu with he
  exact hu

/-- A thread of another domain is no rival. -/
theorem enqueueOther (ht : t ≠ 0) (hd : s.ksCurDomain ≠ s.tcbDomain t)
    (hs : s.tcbSchedEnqueue cfg t = .ok s') : SchedOk cfg i s' := by
  refine h.requeued (h.ready.enqueued ht hs) fun u hu hdu => ?_
  rw [update_apply] at hu
  split_ifs at hu with he
  · exact absurd (he ▸ hdu).symm hd
  · exact hu

end

section NonMcs

variable (hm : cfg.mcs = false)
include hm

/-- `scheduleTCB`, after the state of a thread was written. -/
theorem scheduleTCB (h : SchedOk cfg i s) (s1 : SysState) (ht : t ≠ i)
    (hq : s1.toSchedQueues = s.toSchedQueues) (hp : s1.toThreadParams = s.toThreadParams)
    (hn : s1.toNodeState = s.toNodeState) (hst : ∀ u ≠ t, s1.tsType u = s.tsType u)
    (hs : s1.scheduleTCB cfg t = .ok s') : SchedOk cfg i s' := by
  have hi := hst i ht.symm
  rcases runIf_cases hs with ⟨-, hs⟩ | ⟨hc, rfl⟩
  · exact (h.toSchedBase.congr hq hp hn hi).rescheduleRequired hs
  · refine h.congr hq hp hn hi fun ha => ?_
    by_cases hcur : t = s.ksCurThread
    · -- otherwise `scheduleTCB` had asked for another thread
      refine .inr (Bool.not_eq_false _ ▸ fun hrun => hc ⟨hn ▸ hcur, hn ▸ ha, ?_⟩)
      unfold isSchedulable
      rw [hm, hcur]
      exact hrun
    · refine (h.resume ha).2.imp_right fun hrun => ?_
      unfold isRunnable at hrun ⊢
      rwa [hst _ (Ne.symm hcur)]

theorem setThreadState {ts : ThreadState} (h : SchedOk cfg i s) (ht : t ≠ i)
    (hs : s.setThreadState cfg t ts = .ok s') : SchedOk cfg i s' :=
  h.scheduleTCB hm (s.setTsType t ts) ht rfl rfl rfl
    (fun u hu => (setTsType_tsType t u ts s).trans (if_neg hu)) hs

/-- `possibleSwitchTo` for a thread that may be in its queue already. -/
theorem possibleSwitchTo_of_base (hb : SchedBase cfg i s) (ht : t ≠ 0)
    (hother : s.ksCurDomain ≠ s.tcbDomain t → SchedOk cfg i s)
    (hrival : s.ksSchedulerAction = .resumeCurrentThread → s.ksCurThread ≠ s.ksIdleThread →
      ∀ u, s.Rival u → u = t ∨ s.tcbPriority u ≤ s.tcbPriority s.ksCurThread)
    (hs : s.possibleSwitchTo cfg t = .ok s') : SchedOk cfg i s' := by
  unfold possibleSwitchTo at hs
  rw [hm, Bool.not_false, runIf_pos (Bool.true_or _)] at hs
  split_ifs at hs with hd ha
  · exact (hother hd).enqueueOther ht hd hs
  · obtain ⟨s1, h1, hs⟩ := bind_eq_ok hs
    have hok := hb.rescheduleRequired h1
    have hact : s1.ksSchedulerAction = .chooseNewThread := by
      obtain ⟨_, _, -, rfl⟩ := hb.rescheduleRequired_eq h1
      rfl
    have hr := hok.ready.enqueued ht hs
    have hb := hok.toSchedBase.requeued hr
    obtain ⟨q, rfl⟩ := hr.eq
    refine ⟨hb, fun hh => ?_, fun c hh => ?_⟩
    · rw [hact] at hh
      cases hh
    · rw [hact] at hh
      cases hh
  · cases hs
    refine ⟨hb.setAction fun c hc => ?_, nofun, fun c hc hidle u hu => ?_⟩
    · cases hc
      exact ht
    · cases hc
      exact hrival (not_not.mp ha) hidle u hu

/-- **`possibleSwitchTo` makes the thread the candidate**, or puts it where it is not overlooked. -/
theorem possibleSwitchTo (h : SchedOk cfg i s) (ht : t ≠ 0)
    (hs : s.possibleSwitchTo cfg t = .ok s') : SchedOk cfg i s' :=
  possibleSwitchTo_of_base hm h.toSchedBase ht (fun _ => h)
    (fun ha _ u hu => .inr ((h.resume ha).1 u hu).2) hs

/-- The thread is both put into its queue and made the candidate. -/
theorem enqueueSwitchTo {s1 : SysState} (h : SchedOk cfg i s) (ht : t ≠ 0)
    (h1 : s.tcbSchedEnqueue cfg t = .ok s1) (hs : s1.possibleSwitchTo cfg t = .ok s') :
    SchedOk cfg i s' := by
  have hr := h.ready.enqueued ht h1
  have hb := h.toSchedBase.requeued hr
  have hother := fun hd => h.enqueueOther ht hd h1
  obtain ⟨q, rfl⟩ := hr.eq
  have hqueued : q.tcbQueued = update s.tcbQueued t true := hr.queued
  refine possibleSwitchTo_of_base hm hb ht hother (fun ha _ u hu => ?_) hs
  have hq : q.tcbQueued u = true := hu.1
  rw [hqueued, update_apply] at hq
  split_ifs at hq with he
  · exact .inl he
  · exact .inr ((h.resume ha).1 u ⟨hq, hu.2⟩).2

end NonMcs

end SchedOk

/-! ## Choosing a thread -/

/-- The outcome of `schedule`, before the request is cleared. -/
structure Dispatched (cfg : SysConfig) (i : Word) (s : SysState) : Prop extends SchedBase cfg i s where
  dominates : s.Dominates
  runnable : s.ksCurThread = s.ksIdleThread ∨ s.isRunnable s.ksCurThread = true

namespace SchedBase

variable (hm : cfg.mcs = false)
include hm

/-- **A thread that no other one has a higher priority than is switched to.** -/
theorem switchToThread (h : SchedBase cfg i s) (ht0 : t ≠ 0) (hrun : s.isRunnable t = true)
    (hmax : ∀ u, s.Rival u → u = t ∨ s.tcbPriority u ≤ s.tcbPriority t)
    (hs : s.switchToThread cfg t = .ok s') : Dispatched cfg i s' := by
  obtain ⟨_, -, _, -, hs⟩ := bind2_eq_ok hs
  obtain ⟨_, -, _, -, hs⟩ := bind2_eq_ok hs
  obtain ⟨s1, h1, hs⟩ := bind_eq_ok hs
  cases hs
  have hr := h.ready.dequeued h1
  have hb := h.requeued hr
  have hidle : t ≠ s.ksIdleThread := h.idleThread ▸ h.ne_idle hrun
  obtain ⟨q, rfl⟩ := hr.eq
  refine ⟨⟨hb.ready, ht0, hb.idleThread, hb.idle, hb.idleState, hb.domain, hb.candidate⟩, ?_, .inr hrun⟩
  rintro u ⟨hq, hd⟩
  have hqueued : q.tcbQueued = update s.tcbQueued t false := hr.queued
  have hq' : q.tcbQueued u = true := hq
  rw [hqueued, update_apply] at hq'
  split_ifs at hq' with he
  exact ⟨hidle, (hmax u ⟨hq', hd⟩).resolve_left he⟩

/-- **`chooseThread` switches to a thread of the highest priority.** -/
theorem chooseThread (h : SchedBase cfg i s) (hs : s.chooseThread cfg = .ok s') : Dispatched cfg i s' := by
  have hdom : s.schedDomain cfg = s.ksCurDomain := by
    unfold schedDomain
    split_ifs with hn
    · rfl
    · have := h.domain
      omega
  unfold SysState.chooseThread at hs
  rw [hdom] at hs
  dsimp only at hs
  split_ifs at hs with hne
  · obtain ⟨r, hr, hhead, hmax⟩ := h.ready.highest h.domain hne
    rw [hr, ok_bind, readyQueuesIndex_ok h.domain, ok_bind] at hs
    obtain ⟨_, h0, _, hsched, hs⟩ := bind2_eq_ok hs
    obtain ⟨_, -, _, -, hs⟩ := bind2_eq_ok hs
    have hsched := require_cases hsched
    unfold isSchedulable at hsched
    rw [hm] at hsched
    refine h.switchToThread hm (bne_iff_ne.mp (require_cases h0)) hsched (fun u hu => ?_) hs
    rw [hhead]
    exact .inr (hmax u hu.1 hu.2)
  · cases hs
    have hidle : s.ksIdleThread ≠ 0 := h.idleThread ▸ h.idle
    refine ⟨⟨h.ready, hidle, h.idleThread, h.idle, h.idleState, h.domain, h.candidate⟩, ?_, .inl rfl⟩
    rintro u ⟨hq, hd⟩
    have hd' : s.tcbDomain u = s.ksCurDomain := hd
    have := h.ready.l1Bitmap_ne_zero hq
    rw [hd'] at this
    exact absurd this hne

theorem scheduleChooseNewThread (h : SchedBase cfg i s)
    (hs : s.scheduleChooseNewThread cfg = .ok s') : Dispatched cfg i s' := by
  refine chooseThread hm ?_ hs
  split_ifs
  · exact ⟨h.ready, h.cur, h.idleThread, h.idle, h.idleState, cfg.domSchedule_lt _, h.candidate⟩
  · exact h

end SchedBase

/-- The current thread goes to its queue, if it is runnable. -/
theorem SchedBase.enqueueCurrent {b : Bool} (h : SchedBase cfg i s)
    (hs : runIf b (SysState.tcbSchedEnqueue cfg s.ksCurThread) s = .ok s') :
    ∃ f, Requeued cfg f s s' ∧ ∀ u, f u = true → u = s.ksCurThread ∨ s.tcbQueued u = true := by
  rcases runIf_cases hs with ⟨-, hs⟩ | ⟨-, rfl⟩
  · refine ⟨_, h.ready.enqueued h.cur hs, fun u hu => ?_⟩
    rw [update_apply] at hu
    split_ifs at hu with he
    · exact .inl he
    · exact .inr hu
  · exact ⟨_, ⟨h.ready, rfl, s'.toSchedQueues, rfl⟩, fun u hu => .inr hu⟩

/-- What the test of a candidate has found, if it does not fail. -/
theorem ReadyOnly.candidateFails {c : Word} (h : ReadyOnly cfg s)
    (hd : s.ksCurDomain < cfg.numDomains) (hs : s.candidateFails c = .ok false) :
    (s.ksCurThread ≠ s.ksIdleThread ∧ s.tcbPriority s.ksCurThread ≤ s.tcbPriority c) ∨
      ∀ u, s.Rival u → s.tcbPriority u ≤ s.tcbPriority c := by
  unfold SysState.candidateFails at hs
  split_ifs at hs with hff
  · refine .inr fun u hu => h.isHighestPrio hd ?_ hu.1 hu.2
    cases hx : s.isHighestPrio s.ksCurDomain (s.tcbPriority c) with
    | error e =>
      rw [hx] at hs
      cases hs
    | ok b =>
      rw [hx] at hs
      cases b with
      | true => rfl
      | false => cases hs
  · unfold fastfail at hff
    rw [Bool.or_eq_true, beq_iff_eq, decide_eq_true_iff, not_or, not_lt] at hff
    exact .inl hff

section NonMcs

variable (hm : cfg.mcs = false)
include hm

/-- **What becomes of a candidate**, after the current thread went to its queue. -/
theorem SchedBase.scheduleCandidate {c : Word} {b : Bool} (h : SchedBase cfg i s) (hc : c ≠ 0)
    (hrival : s.ksCurThread ≠ s.ksIdleThread → ∀ t, s.Rival t →
      t = c ∨ s.tcbPriority t ≤ s.tcbPriority s.ksCurThread)
    (hs : s.scheduleCandidate cfg c b = .ok s') : Dispatched cfg i s' := by
  obtain ⟨_, hsched, fails, hfails, hs⟩ := bind2_eq_ok hs
  have hrun : s.isRunnable c = true := by
    have hsched := require_cases hsched
    unfold SysState.isSchedulable at hsched
    rwa [hm, if_neg nofun] at hsched
  have hchoose : ∀ {s1 : SysState} {f : Word → Bool}, Requeued cfg f s s1 →
      SysState.scheduleChooseNewThread cfg { s1 with ksSchedulerAction := .chooseNewThread } =
        .ok s' → Dispatched cfg i s' := by
    intro s1 f hr hs
    have hb : SchedBase cfg i { s1 with ksSchedulerAction := .chooseNewThread } :=
      (h.requeued hr).setAction nofun
    exact hb.scheduleChooseNewThread hm hs
  split_ifs at hs with hf he
  · obtain ⟨s1, h1, hs⟩ := bind_eq_ok hs
    exact hchoose (h.ready.enqueued hc h1) hs
  · obtain ⟨s1, h1, hs⟩ := bind_eq_ok hs
    exact hchoose (h.ready.appended hc h1) hs
  · obtain ⟨_, -, hs⟩ := bind_eq_ok hs
    rw [Bool.eq_false_iff.mpr hf] at hfails
    refine h.switchToThread hm hc hrun (fun u hu => ?_) hs
    rcases h.ready.candidateFails h.domain hfails with ⟨hidle, hle⟩ | hmax
    · exact (hrival hidle u hu).imp_right fun hu => hu.trans hle
    · exact .inr (hmax u hu)

theorem SchedOk.scheduleAction (h : SchedOk cfg i s) (hs : s.scheduleAction cfg = .ok s') :
    Dispatched cfg i s' := by
  unfold SysState.scheduleAction at hs
  cases hact : s.ksSchedulerAction <;> rw [hact] at hs
  case resumeCurrentThread =>
    cases hs
    obtain ⟨hdom, hrun⟩ := h.resume hact
    exact ⟨h.toSchedBase, hdom, hrun⟩
  case switchTo c =>
    obtain ⟨s1, h1, hs⟩ := bind_eq_ok hs
    obtain ⟨f, hr, hf⟩ := h.toSchedBase.enqueueCurrent h1
    have hb := h.toSchedBase.requeued hr
    obtain ⟨q, rfl⟩ := hr.eq
    refine hb.scheduleCandidate hm (h.candidate c hact) (fun hidle t ht => ?_) hs
    have hq : q.tcbQueued t = true := ht.1
    have hqueued : q.tcbQueued = f := hr.queued
    rw [hqueued] at hq
    rcases hf t hq with he | hq
    · exact .inr (he ▸ le_rfl)
    · exact h.switch c hact hidle t ⟨hq, ht.2⟩
  case chooseNewThread =>
    obtain ⟨s1, h1, hs⟩ := bind_eq_ok hs
    obtain ⟨f, hr, -⟩ := h.toSchedBase.enqueueCurrent h1
    exact SchedBase.scheduleChooseNewThread hm (h.toSchedBase.requeued hr) hs

/-- **`schedule` restores strict priorities.** -/
theorem SchedOk.schedule (h : SchedOk cfg i s) (hs : s.schedule cfg = .ok s') :
    SchedOk cfg i s' ∧ s'.ksSchedulerAction = .resumeCurrentThread := by
  unfold SysState.schedule at hs
  rw [hm, runIf_neg nofun, ok_bind] at hs
  obtain ⟨s1, h1, hs⟩ := bind_eq_ok hs
  cases hs
  have hd := h.scheduleAction hm h1
  exact ⟨⟨hd.setAction nofun, fun _ => ⟨hd.dominates, hd.runnable⟩, nofun⟩, rfl⟩

end NonMcs

end SeL4.Thread
