import SeL4.Thread.Dispatch
import SeL4.Thread.WaitRun

/-!
# Strict priorities over whole runs

Without MCS, after each kernel entry no thread in the ready queues of the current domain has a higher
priority than the current thread (`SysState.Strict`). The operations of an entry (`Entry`) rely on the
current thread being at the top when the kernel is entered, and all of them keep `SchedOk`, with one
exception: `setDomain` puts a thread into the ready queues of its new domain and asks the scheduler
for nothing, unless the thread is the current one.

* `SchedOk.sendIPC`, `SchedOk.receiveIPC`, `SchedOk.sendSignal`, `SchedOk.suspend`, `SchedOk.restart`,
  `SchedOk.cancelAllIPC`, `SchedOk.cancelBadgedSends`, `SchedOk.setPriority`, `SchedOk.timerTick`,
  `SchedOk.handleYield`: the operations that are right;
* `Entry.Overtakes`: the calls of `setDomain` that are not;
* `strict_priority_iff`: a run is strict throughout exactly if it has no such call;
* `set_domain_overtakes`: a run with such a call.

The idle thread is in no queue, as no thread waits that is not blocked (`WaitInv`), and is therefore
never woken.
-/

namespace SeL4.Thread

open SeL4.Lib SeL4.Object Links Function SysState

variable {cfg : SysConfig} {s s' : SysState} {i t p : Word} {R : Word → Word → Prop}
  {l : WaitObj → List Word}

variable {badge : Word}

/-! ## Operations -/

theorem SchedSame.of_transfer (h : TransferFrame s s') : SchedSame s s' := by
  obtain ⟨_, _, rfl⟩ := h
  exact ⟨rfl, rfl, rfl, rfl⟩

theorem SchedSame.of_cteDeleteReply {x : Word} (hs : s.cteDeleteReply x = .ok s') : SchedSame s s' := by
  obtain ⟨_, -, k, -, hs⟩ := bind2_eq_ok hs
  cases hs
  exact ⟨rfl, rfl, rfl, rfl⟩

section

variable (h : SchedBase cfg i s)
include h

/-- The idle thread does not wait. -/
theorem SchedBase.ne_of_waiting (ht : (s.tsType t).queued = true) : t ≠ i := by
  rintro rfl
  rw [h.idleState] at ht
  cases ht

/-- A thread in a queue is not the idle thread. -/
theorem SchedBase.mem_ne_idle (hl : WaitInv s.toIpcState [] R l) {o : WaitObj}
    (ht : t ∈ l o) : t ≠ i := by
  refine h.ne_of_waiting ?_
  rw [← Bool.not_eq_false]
  exact fun hnot => hl.notMem (IpcState.waitsFor_eq_none.mpr hnot) o ht

theorem SchedBase.head_ne_idle (hl : WaitInv s.toIpcState [] R l) {o : WaitObj}
    (ht : (s.toIpcState.queue o).head ≠ 0) : (s.toIpcState.queue o).head ≠ i :=
  h.mem_ne_idle hl (hl.head_mem ht)

end

namespace SchedOk

section NonMcs

variable (hm : cfg.mcs = false)
include hm

variable (h : SchedOk cfg i s)
include h

theorem cancelSignal (ht : t ≠ i) (hs : s.cancelSignal cfg t p = .ok s') : SchedOk cfg i s' := by
  obtain ⟨_, -, hs⟩ := bind_eq_ok hs
  have hsame : SchedSame s (s.ntfnDequeue p t) := ⟨rfl, rfl, rfl, rfl⟩
  exact (h.same hsame).setThreadState hm ht hs

/-- **`cancelIPC`**: the thread is stopped, if it waits. -/
theorem cancelIPC (hs : s.cancelIPC cfg t = .ok s') : SchedOk cfg i s' := by
  unfold SysState.cancelIPC at hs
  rw [hm, if_neg nofun] at hs
  dsimp only at hs
  have hne : (s.tsType t).queued = true → t ≠ i := h.ne_of_waiting
  have hep : (s.tsType t).queued = true → s.blockedIPCCancel cfg t = .ok s' → SchedOk cfg i s' := by
    intro hq hs
    obtain ⟨_, -, s1, h1, hs⟩ := bind2_eq_ok hs
    rw [hm] at h1
    cases h1
    have hsame : SchedSame s (s.epDequeue (s.blockingObject t) t) := ⟨rfl, rfl, rfl, rfl⟩
    exact (h.same hsame).setThreadState hm (hne hq) hs
  cases hst : s.tsType t <;> rw [hst] at hs hep hne
  case blockedOnSend => exact hep rfl hs
  case blockedOnReceive => exact hep rfl hs
  case blockedOnNotification => exact h.cancelSignal hm (hne rfl) hs
  case blockedOnReply =>
    unfold replyIPCCancel at hs
    rw [hm] at hs
    have hclear : SchedSame s (s.clearFault t) := ⟨rfl, rfl, rfl, rfl⟩
    rcases runIf_cases hs with ⟨-, hs⟩ | ⟨-, rfl⟩
    · exact h.same (hclear.trans (.of_cteDeleteReply hs))
    · exact h.same hclear
  all_goals
    cases hs
    exact h

theorem setupCallerCap {r : Word} {g : Bool} (ht : t ≠ i)
    (hs : s.setupCallerCap cfg t r g = .ok s') : SchedOk cfg i s' := by
  obtain ⟨s1, h1, _, -, hs⟩ := bind2_eq_ok hs
  obtain ⟨_, -, hs⟩ := bind_eq_ok hs
  have hsame := SchedSame.of_transfer (onSlots_frame hs)
  exact (h.setThreadState hm ht h1).same hsame

/-- A thread is woken. -/
theorem wake {ts : ThreadState} {s1 : SysState} (ht0 : t ≠ 0) (ht : t ≠ i)
    (h1 : s.setThreadState cfg t ts = .ok s1) (hs : s1.possibleSwitchTo cfg t = .ok s') :
    SchedOk cfg i s' :=
  (h.setThreadState hm ht h1).possibleSwitchTo hm ht0 hs

section

variable (hl : WaitInv s.toIpcState [] R l)
include hl

omit hm in
/-- The first thread of the queue of an endpoint leaves it for a transfer. -/
theorem dequeueTransfer {s1 : SysState} {u : Unit} {a r : Word} {g : Bool}
    (hd0 : require ((s.epQueue p).head != 0) = .ok u)
    (h1 : (s.epDequeue p (s.epQueue p).head).doIPCTransfer cfg a p badge g r = .ok s1) :
    (s.epQueue p).head ≠ 0 ∧ (s.epQueue p).head ≠ i ∧ SchedOk cfg i s1 := by
  have hd0 : (s.epQueue p).head ≠ 0 := bne_iff_ne.mp (require_cases hd0)
  have hdeq : SchedSame s (s.epDequeue p (s.epQueue p).head) := ⟨rfl, rfl, rfl, rfl⟩
  exact ⟨hd0, h.head_ne_idle hl (o := .ep p) hd0,
    h.same (hdeq.trans (.of_transfer (doIPCTransfer_frame h1)))⟩

/-- **`sendIPC`** by a thread other than the idle thread. -/
theorem sendIPC {b c g gr d : Bool} (ht : t ≠ i)
    (hs : s.sendIPC cfg b c badge g gr d t p = .ok s') : SchedOk cfg i s' := by
  unfold SysState.sendIPC at hs
  cases hep : s.epState p <;> rw [hep] at hs
  case recv =>
    obtain ⟨_, hd0, s1, h1, hs⟩ := bind2_eq_ok hs
    obtain ⟨hd0, hdi, hok⟩ := h.dequeueTransfer hl hd0 h1
    rw [hm] at hs
    obtain ⟨s2, h2, s3, h3, hs⟩ := bind2_eq_ok hs
    have hok := hok.wake hm hd0 hdi h2 h3
    rcases runIf_cases hs with ⟨-, hs⟩ | ⟨-, rfl⟩
    · split_ifs at hs
      · exact hok.setupCallerCap hm ht hs
      · exact hok.setThreadState hm ht hs
    · exact hok
  all_goals
    rcases runIf_cases hs with ⟨-, hs⟩ | ⟨-, rfl⟩
    · obtain ⟨s1, h1, r, -, hs⟩ := bind2_eq_ok hs
      cases hs
      have hok := h.scheduleTCB hm (s.blockOnSend t p badge g gr c) ht rfl rfl rfl
        (fun u hu => (setTsType_tsType t u .blockedOnSend s).trans (if_neg hu)) h1
      exact hok.same ⟨rfl, rfl, rfl, rfl⟩
    · exact h

/-- **`receiveMessage`** by a thread other than the idle thread. -/
theorem receiveMessage {g b : Bool} {r : Word} (ht : t ≠ i)
    (hs : s.receiveMessage cfg t p g b r = .ok s') : SchedOk cfg i s' := by
  unfold SysState.receiveMessage at hs
  cases hep : s.epState p <;> rw [hep] at hs <;> dsimp only at hs
  case send =>
    obtain ⟨_, hd0, s1, h1, hs⟩ := bind2_eq_ok hs
    obtain ⟨hd0, hdi, hok⟩ := h.dequeueTransfer hl hd0 h1
    rw [hm, if_neg nofun] at hs
    unfold receiveReplyCap at hs
    split_ifs at hs
    · exact hok.setupCallerCap hm hdi hs
    · exact hok.setThreadState hm hdi hs
    · obtain ⟨s2, h2, hs⟩ := bind_eq_ok hs
      exact hok.wake hm hd0 hdi h2 hs
  all_goals
    split_ifs at hs with hb
    · obtain ⟨s1, h1, q, -, hs⟩ := bind2_eq_ok hs
      cases hs
      obtain ⟨hq, hp, hn, hts⟩ : (s.blockOnReceive cfg t p r g).toSchedQueues = s.toSchedQueues ∧
          (s.blockOnReceive cfg t p r g).toThreadParams = s.toThreadParams ∧
          (s.blockOnReceive cfg t p r g).toNodeState = s.toNodeState ∧
          (s.blockOnReceive cfg t p r g).tsType = update s.tsType t .blockedOnReceive := by
        unfold blockOnReceive
        split_ifs <;> exact ⟨rfl, rfl, rfl, rfl⟩
      have hok := h.scheduleTCB hm _ ht hq hp hn (fun u hu => by rw [hts, update_of_ne hu]) h1
      exact hok.same ⟨rfl, rfl, rfl, rfl⟩
    · cases hs
      exact h.same ⟨rfl, rfl, rfl, rfl⟩

/-- **`receiveIPC`** by a thread other than the idle thread. -/
theorem receiveIPC {cap replyCap : Cap} {b : Bool} (ht : t ≠ i)
    (hs : s.receiveIPC cfg t cap b replyCap = .ok s') : SchedOk cfg i s' := by
  unfold SysState.receiveIPC at hs
  split at hs
  · have hreply : replyPtrOf cfg replyCap = 0 := by
      unfold replyPtrOf
      rw [hm]
    rw [hreply] at hs
    dsimp only at hs
    rw [runIf_neg fun hh => hh.1 rfl, ok_bind] at hs
    split_ifs at hs with hn
    · obtain ⟨_, -, hs⟩ := bind_eq_ok hs
      rw [hm] at hs
      cases hs
      exact h.same ⟨rfl, rfl, rfl, rfl⟩
    · rw [hm] at hs
      exact h.receiveMessage hm hl ht hs
  · cases hs

/-- **`sendSignal`** -/
theorem sendSignal (hs : s.sendSignal cfg p badge = .ok s') : SchedOk cfg i s' := by
  have hwake : ∀ {t : Word} {s s1 : SysState}, SchedOk cfg i s → t ≠ 0 → t ≠ i →
      s.setThreadState cfg t .running = .ok s1 →
      (s1.setRegister t badgeRegister badge).wakeSignalled cfg t p = .ok s' → SchedOk cfg i s' := by
    intro t s s1 h ht0 ht h1 hs
    unfold wakeSignalled at hs
    rw [hm] at hs
    have hreg : SchedSame s1 (s1.setRegister t badgeRegister badge) := ⟨rfl, rfl, rfl, rfl⟩
    exact ((h.setThreadState hm ht h1).same hreg).possibleSwitchTo hm ht0 hs
  unfold SysState.sendSignal at hs
  cases hst : s.ntfnState p <;> rw [hst] at hs <;> dsimp only at hs
  case idle =>
    split_ifs at hs with hb
    · obtain ⟨s1, h1, s2, h2, hs⟩ := bind2_eq_ok hs
      have hbi : s.ntfnBoundTCB p ≠ i := h.ne_of_waiting (by rw [hb.2]; rfl)
      exact hwake (h.cancelIPC hm h1) hb.1 hbi h2 hs
    · cases hs
      exact h.same ⟨rfl, rfl, rfl, rfl⟩
  case waiting =>
    obtain ⟨_, hd0, s2, h2, hs⟩ := bind2_eq_ok hs
    have hd0 : (s.ntfnQueue p).head ≠ 0 := bne_iff_ne.mp (require_cases hd0)
    have hdi := h.head_ne_idle hl (o := .ntfn p) hd0
    have hdeq : SchedSame s (s.ntfnDequeue p (s.ntfnQueue p).head) := ⟨rfl, rfl, rfl, rfl⟩
    exact hwake (h.same hdeq) hd0 hdi h2 hs
  case active =>
    cases hs
    exact h.same ⟨rfl, rfl, rfl, rfl⟩

end

/-- **`suspend`** -/
theorem suspend (ht : t ≠ i) (hs : s.suspend cfg t = .ok s') : SchedOk cfg i s' := by
  obtain ⟨s1, h1, s2, h2, hs⟩ := bind2_eq_ok hs
  obtain ⟨s3, h3, hs⟩ := bind_eq_ok hs
  rw [hm] at hs
  cases hs
  have hpc : SchedSame s1 (if s1.tsType t = .running then s1.updateRestartPC t else s1) := by
    split_ifs <;> exact ⟨rfl, rfl, rfl, rfl⟩
  exact (((h.cancelIPC hm h1).same hpc).setThreadState hm ht h2).tcbSchedDequeue h3

/-- **`restart`** -/
theorem restart (ht0 : t ≠ 0) (ht : t ≠ i) (hs : s.restart cfg t = .ok s') : SchedOk cfg i s' := by
  rcases runIf_cases hs with ⟨-, hs⟩ | ⟨-, rfl⟩
  · obtain ⟨s1, h1, hs⟩ := bind_eq_ok hs
    rw [hm] at hs
    obtain ⟨s2, h2, s3, h3, hs⟩ := bind2_eq_ok hs
    have hmaster : SchedSame s1 (s1.setupReplyMaster cfg t) := by
      unfold setupReplyMaster
      dsimp only
      split_ifs <;> exact ⟨rfl, rfl, rfl, rfl⟩
    have hok := ((h.cancelIPC hm h1).same hmaster).setThreadState hm ht h2
    exact hok.enqueueSwitchTo hm ht0 h3 hs
  · exact h

end NonMcs

end SchedOk

/-! ## Whole queues -/

/-- A thread becomes runnable and goes to its queue; the scheduler is asked later. -/
theorem SchedBase.restartEnqueue (h : SchedBase cfg i s) (ht0 : t ≠ 0) (ht : t ≠ i)
    (hs : s.restartEnqueue cfg t = .ok s') : SchedBase cfg i s' := by
  obtain ⟨s1, h1, hs⟩ := bind_eq_ok hs
  have hset : SchedBase cfg i (s.setTsType t .restart) :=
    h.congr rfl rfl rfl ((setTsType_tsType t i .restart s).trans (if_neg ht.symm))
  have h1 : SchedBase cfg i s1 := by
    rcases runIf_cases h1 with ⟨-, h1⟩ | ⟨-, rfl⟩
    · exact (hset.rescheduleRequired h1).toSchedBase
    · exact hset
  exact h1.requeued (h1.ready.enqueued ht0 hs)

namespace SchedOk

section NonMcs

variable (hm : cfg.mcs = false)
include hm

/-- **`cancelAllIPC`** -/
theorem cancelAllIPC (h : SchedOk cfg i s) (hl : WaitInv s.toIpcState [] R l)
    (hs : s.cancelAllIPC cfg p = .ok s') : SchedOk cfg i s' := by
  obtain ⟨hchain, hhead, -⟩ := hl.queues.isQueue (.ep p)
  have hhead' : (s.epQueue p).head = (l (.ep p)).headD 0 := hhead
  rcases cancelAllIPC_cases hs with rfl | ⟨s1, h1, hs⟩
  · exact h
  · rw [hhead'] at h1
    have hreset : SchedSame s (s.epReset p) := ⟨rfl, rfl, rfl, rfl⟩
    obtain ⟨hbase, -⟩ := forEachWaiting_inv (J := fun B s => SchedBase cfg i s ∧ ∀ t ∈ B, t ≠ i)
      (fun {t _ _ _} ht0 ⟨hj, hB⟩ hb => by
        refine ⟨⟨?_, fun u hu => hB u (.tail t hu)⟩, (cancelWaiting_unqueues hb).1.links⟩
        unfold cancelWaiting at hb
        rw [hm] at hb
        exact hj.restartEnqueue ht0 (hB t (.head _)) hb)
      (l (.ep p)) (s := s.epReset p) hchain (hl.queues.null_notMem _)
      ⟨h.toSchedBase.same hreset, fun t ht => h.toSchedBase.mem_ne_idle hl ht⟩ h1
    exact hbase.rescheduleRequired hs

/-- **`cancelBadgedSends`** -/
theorem cancelBadgedSends (h : SchedOk cfg i s) (hl : WaitInv s.toIpcState [] R l)
    (hs : s.cancelBadgedSends cfg p badge = .ok s') : SchedOk cfg i s' := by
  unfold SysState.cancelBadgedSends at hs
  cases hep : s.epState p <;> rw [hep] at hs
  case send =>
    obtain ⟨⟨queue, s1⟩, h1, hs⟩ := bind_eq_ok hs
    obtain ⟨-, hhead, -⟩ := hl.queues.isQueue (.ep p)
    have hhead' : (s.epQueue p).head = (l (.ep p)).headD 0 := hhead
    rw [hhead'] at h1
    have hreset : SchedSame s (s.epReset p) := ⟨rfl, rfl, rfl, rfl⟩
    obtain ⟨-, -, -, hbase⟩ := WaitInv.cancelBadgedLoop
      (fun ht0 hq hj hc => by
        unfold cancelSend at hc
        rw [hm] at hc
        have hj' := hj.restartEnqueue ht0 (hj.ne_of_waiting hq) hc
        exact hj'.same ⟨rfl, rfl, rfl, rfl⟩)
      (l (.ep p)) (A := []) ((hl.withQueue_epReset hep).symm ▸ hl) (h.toSchedBase.same hreset) rfl h1
    have hsame : SchedSame s1 { s1 with
        epQueue := update s1.epQueue p queue
        epState := if queue.head ≠ 0 then update s1.epState p .send else s1.epState } :=
      ⟨rfl, rfl, rfl, rfl⟩
    exact (hbase.same hsame).rescheduleRequired hs
  all_goals
    cases hs
    exact h

end NonMcs

end SchedOk

/-! ## Priorities, domains and time -/

section SetParams

variable (hb : SchedBase cfg i s) (h : SchedOk cfg i s) (p : ThreadParams) (ht : s.tcbQueued t = false)
  (hprio : ∀ u ≠ t, p.tcbPriority u = s.tcbPriority u) (hdom : ∀ u ≠ t, p.tcbDomain u = s.tcbDomain u)
  (hbound : p.tcbPriority t < numPriorities ∧ p.tcbDomain t < cfg.numDomains)
include ht hprio hdom hbound

include hb in
/-- Priority and domain of a thread that is in no ready queue are set. -/
theorem SchedBase.setParams : SchedBase cfg i { s with toThreadParams := p } := by
  refine ⟨hb.ready.holds.congr rfl (fun u => ?_) fun u hu => ?_, hb.cur, hb.idleThread, hb.idle,
    hb.idleState, hb.domain, hb.candidate⟩
  · by_cases hut : u = t
    · rw [hut]
      exact hbound
    · rw [hprio u hut, hdom u hut]
      exact hb.ready.bounded u
  · have hut : u ≠ t := by
      rintro rfl
      rw [ht] at hu
      cases hu
    exact ⟨hprio u hut, hdom u hut⟩

include h in
/-- The current thread stays at the top if its priority stays. -/
theorem SchedOk.setParams (ha : s.ksSchedulerAction = .resumeCurrentThread)
    (hcur : s.ksCurThread ≠ s.ksIdleThread → p.tcbPriority s.ksCurThread = s.tcbPriority s.ksCurThread) :
    SchedOk cfg i { s with toThreadParams := p } := by
  obtain ⟨hd, hrun⟩ := h.resume ha
  refine ⟨h.toSchedBase.setParams p ht hprio hdom hbound, fun _ => ⟨?_, hrun⟩, fun c hc => ?_⟩
  · rintro u ⟨hq, hdu⟩
    have hut : u ≠ t := by
      rintro rfl
      rw [ht] at hq
      cases hq
    obtain ⟨hidle, hle⟩ := hd u ⟨hq, (hdom u hut).symm.trans hdu⟩
    refine ⟨hidle, ?_⟩
    rwa [hprio u hut, hcur hidle]
  · rw [ha] at hc
    cases hc

end SetParams

namespace SchedOk

/-- **`timerTick`** -/
theorem timerTick (h : SchedOk cfg i s) (hs : s.timerTick cfg = .ok s') : SchedOk cfg i s' := by
  obtain ⟨s1, h1, hs⟩ := bind_eq_ok hs
  have h1 : SchedOk cfg i s1 := by
    rcases runIf_cases h1 with ⟨-, h1⟩ | ⟨-, rfl⟩
    · split_ifs at h1 with hslice
      · cases h1
        exact ⟨⟨h.ready, h.cur, h.idleThread, h.idle, h.idleState, h.domain, h.candidate⟩, h.resume,
          h.switch⟩
      · obtain ⟨s2, h2, h1⟩ := bind_eq_ok h1
        have hb : SchedBase cfg i { s with
            tcbTimeSlice := update s.tcbTimeSlice s.ksCurThread cfg.timeSlice } :=
          ⟨h.ready, h.cur, h.idleThread, h.idle, h.idleState, h.domain, h.candidate⟩
        exact (hb.requeued (hb.ready.appended h.cur h2)).rescheduleRequired h1
    · exact h
  rcases runIf_cases hs with ⟨-, hs⟩ | ⟨-, rfl⟩
  · have hok : SchedOk cfg i { s1 with ksDomainTime := s1.ksDomainTime - 1 } :=
      ⟨⟨h1.ready, h1.cur, h1.idleThread, h1.idle, h1.idleState, h1.domain, h1.candidate⟩, h1.resume,
        h1.switch⟩
    rcases runIf_cases hs with ⟨-, hs⟩ | ⟨-, rfl⟩
    · exact hok.rescheduleRequired hs
    · exact hok
  · exact h1

/-- **`handleYield`** -/
theorem handleYield (h : SchedOk cfg i s) (hs : s.handleYield cfg = .ok s') : SchedOk cfg i s' := by
  obtain ⟨s1, h1, s2, h2, hs⟩ := bind2_eq_ok hs
  have hb := (h.tcbSchedDequeue h1).toSchedBase
  exact (hb.requeued (hb.ready.appended hb.cur h2)).rescheduleRequired hs

section NonMcs

variable (hm : cfg.mcs = false)
include hm

variable (h : SchedOk cfg i s) (ha : s.ksSchedulerAction = .resumeCurrentThread) (ht0 : t ≠ 0)
include h ha ht0

/-- **`setPriority`** -/
theorem setPriority {v : Nat} (hv : v < numPriorities)
    (hs : s.setPriority cfg t v = .ok s') : SchedOk cfg i s' := by
  unfold SysState.setPriority at hs
  rw [hm] at hs
  obtain ⟨s1, h1, hs⟩ := bind_eq_ok hs
  have hdeq := h.ready.dequeued h1
  have hok := h.tcbSchedDequeue h1
  obtain ⟨q, rfl⟩ := hdeq.eq
  have hqt : q.tcbQueued t = false := by
    have hqueued : q.tcbQueued = update s.tcbQueued t false := hdeq.queued
    rw [hqueued, update_self]
  let params : ThreadParams := { s.toThreadParams with tcbPriority := update s.tcbPriority t v }
  have hprio : ∀ u ≠ t, update s.tcbPriority t v u = s.tcbPriority u := fun u hu => update_of_ne hu ..
  have hbound : update s.tcbPriority t v t < numPriorities ∧
      s.tcbDomain t < cfg.numDomains := by
    rw [update_self]
    exact ⟨hv, (h.ready.bounded t).2⟩
  rcases runIf_cases hs with ⟨hrun, hs⟩ | ⟨hrun, rfl⟩
  · split_ifs at hs with hcur
    · exact (hok.toSchedBase.setParams params hqt hprio (fun _ _ => rfl) hbound).rescheduleRequired hs
    · refine .possibleSwitchTo hm ?_ ht0 hs
      exact hok.setParams params hqt hprio (fun _ _ => rfl) hbound ha fun _ => hprio _ (.symm hcur)
  · -- the current thread is runnable, so this is another one
    refine hok.setParams params hqt hprio (fun _ _ => rfl) hbound ha fun hidle => hprio _ ?_
    rintro rfl
    exact hrun ((h.resume ha).2.resolve_left hidle)

omit ha in
/-- `setDomain`, up to the request for another thread: the thread has its new domain, and is in the
ready queue there if it is runnable. -/
theorem setDomain_eq {d : Nat} (hd : d < cfg.numDomains) (hs : s.setDomain cfg t d = .ok s') :
    ∃ s1 q, s1 = { s with
        toSchedQueues := q, tcbDomain := update s.tcbDomain t d } ∧
      SchedBase cfg i s1 ∧ q.tcbQueued = update s.tcbQueued t (s.isRunnable t) ∧
      runIf (t = s.ksCurThread) (rescheduleRequired cfg) s1 = .ok s' := by
  obtain ⟨s1, h1, s2, h2, hs⟩ := bind2_eq_ok hs
  have hdeq := h.ready.dequeued h1
  have hok := h.tcbSchedDequeue h1
  obtain ⟨q, rfl⟩ := hdeq.eq
  have hqueued : q.tcbQueued = update s.tcbQueued t false := hdeq.queued
  have hbase := hok.toSchedBase.setParams
    { s.toThreadParams with tcbDomain := update s.tcbDomain t d }
    (by dsimp only; rw [hqueued, update_self]) (fun _ _ => rfl)
    (fun u hu => update_of_ne hu ..)
    ⟨(h.ready.bounded t).1, by dsimp only; rw [update_self]; exact hd⟩
  unfold isSchedulable at h2
  rw [hm] at h2
  rcases runIf_cases h2 with ⟨hrun, h2⟩ | ⟨hrun, rfl⟩
  · have hrun : s.isRunnable t = true := hrun
    have henq := hbase.ready.enqueued ht0 h2
    have hb := hbase.requeued henq
    obtain ⟨q', rfl⟩ := henq.eq
    have hqueued' : q'.tcbQueued = update q.tcbQueued t true := henq.queued
    refine ⟨_, q', rfl, hb, ?_, hs⟩
    rw [hqueued', hqueued, hrun, update_idem]
  · have hrun : s.isRunnable t = false := Bool.eq_false_iff.mpr hrun
    exact ⟨_, q, rfl, hbase, by rw [hrun]; exact hqueued, hs⟩

/-- **`setDomain`** is right, unless the thread overtakes the current one. -/
theorem setDomain {d : Nat} (hd : d < cfg.numDomains)
    (hle : t ≠ s.ksCurThread → s.isRunnable t = true → d = s.ksCurDomain →
      s.ksCurThread ≠ s.ksIdleThread ∧ s.tcbPriority t ≤ s.tcbPriority s.ksCurThread)
    (hs : s.setDomain cfg t d = .ok s') : SchedOk cfg i s' := by
  obtain ⟨s1, q, rfl, hb, hqueued, hs⟩ := h.setDomain_eq hm ht0 hd hs
  rcases runIf_cases hs with ⟨-, hs⟩ | ⟨hcur, rfl⟩
  · exact hb.rescheduleRequired hs
  · obtain ⟨hdom, hrun⟩ := h.resume ha
    refine ⟨hb, fun _ => ⟨?_, hrun⟩, fun c hc => ?_⟩
    · rintro u ⟨hq, hdu⟩
      have hdu : update s.tcbDomain t d u = s.ksCurDomain := hdu
      rw [hqueued, update_apply] at hq
      rw [update_apply] at hdu
      split_ifs at hq hdu with hut
      · exact hut ▸ hle hcur hq hdu
      · exact hdom u ⟨hq, hdu⟩
    · rw [ha] at hc
      cases hc

end NonMcs

end SchedOk

/-! ## Waiting threads -/

namespace WaitInv

/-- Any order of the queues will do here. -/
theorem admits_true (prio : Word → Nat) : Admits cfg prio (fun _ _ => True) t :=
  fun _ _ _ _ _ => ⟨fun _ _ => trivial, fun _ _ => trivial⟩

section

variable (h : WaitInv s.toIpcState [] R l)
include h

theorem setThreadState {ts : ThreadState}
    (hw : s.waitsFor t = none) (hts : ts.queued = false)
    (hs : s.setThreadState cfg t ts = .ok s') : WaitInv s'.toIpcState [] R l :=
  (h.setTsType hw ts hts).of_ipc (setThreadState_ipc hs).ipc

theorem suspend (hm : cfg.mcs = false)
    (hs : s.suspend cfg t = .ok s') : ∃ l', WaitInv s'.toIpcState [] R l' := by
  obtain ⟨s1, h1, s2, h2, hs⟩ := bind2_eq_ok hs
  obtain ⟨s3, h3, hs⟩ := bind_eq_ok hs
  rw [hm] at hs
  cases hs
  obtain ⟨h', -, hw, -⟩ := h.cancelIPC h1
  have hpc : (if s1.tsType t = .running then s1.updateRestartPC t else s1).toIpcState =
      s1.toIpcState := by
    split_ifs <;> rfl
  have h2 := (h'.of_ipc hpc).setThreadState (by rw [hpc]; exact hw) rfl h2
  exact ⟨_, h2.of_ipc (tcbSchedDequeue_frame h3).ipcFrame.ipc⟩

theorem restart (hm : cfg.mcs = false)
    (hs : s.restart cfg t = .ok s') : ∃ l', WaitInv s'.toIpcState [] R l' := by
  rcases runIf_cases hs with ⟨-, hs⟩ | ⟨-, rfl⟩
  · obtain ⟨s1, h1, hs⟩ := bind_eq_ok hs
    rw [hm] at hs
    obtain ⟨s2, h2, s3, h3, hs⟩ := bind2_eq_ok hs
    obtain ⟨h', -, hw, -⟩ := h.cancelIPC h1
    have hmaster : (s1.setupReplyMaster cfg t).toIpcState = s1.toIpcState := by
      unfold setupReplyMaster
      dsimp only
      split_ifs <;> rfl
    have h2 := (h'.of_ipc hmaster).setThreadState (by rw [hmaster]; exact hw) rfl h2
    have hf := ((tcbSchedEnqueue_frame h3).trans (possibleSwitchTo_frame hs)).ipcFrame
    exact ⟨_, h2.of_ipc hf.ipc⟩
  · exact ⟨l, h⟩

end

end WaitInv

/-! ## Kernel entries -/

/-- What the kernel is entered for. -/
inductive Entry
  | setThreadState (tptr : Word) (ts : ThreadState)
  | suspend (target : Word)
  | restart (target : Word)
  | sendIPC (blocking doCall : Bool) (badge : Word) (canGrant canGrantReply : Bool)
      (thread epptr : Word)
  | receiveIPC (thread : Word) (cap : Cap) (isBlocking : Bool)
  | sendSignal (ntfnPtr badge : Word)
  | cancelAllIPC (epptr : Word)
  | cancelBadgedSends (epptr badge : Word)
  | setPriority (tptr : Word) (prio : Nat)
  | setDomain (tptr : Word) (dom : Nat)
  | handleYield
  | timerTick

namespace Entry

/-- The operation runs. -/
def run (cfg : SysConfig) : Entry → SysState → Checked SysState
  | setThreadState tptr ts => SysState.setThreadState cfg tptr ts
  | suspend target => SysState.suspend cfg target
  | restart target => SysState.restart cfg target
  | sendIPC b c badge g gr thread epptr => SysState.sendIPC cfg b c badge g gr false thread epptr
  | receiveIPC thread cap b => SysState.receiveIPC cfg thread cap b .null
  | sendSignal ntfnPtr badge => SysState.sendSignal cfg ntfnPtr badge
  | cancelAllIPC epptr => SysState.cancelAllIPC cfg epptr
  | cancelBadgedSends epptr badge => SysState.cancelBadgedSends cfg epptr badge
  | setPriority tptr prio => SysState.setPriority cfg tptr prio
  | setDomain tptr dom => SysState.setDomain cfg tptr dom
  | handleYield => SysState.handleYield cfg
  | timerTick => SysState.timerTick cfg

/-- When the operation is called: for threads other than the idle thread, which no capability leads
to; for a thread that does not wait already; with a priority and a domain that exist. -/
def Called (cfg : SysConfig) (s : SysState) : Entry → Prop
  | setThreadState tptr ts =>
    tptr ≠ s.ksIdleThread ∧ s.waitsFor tptr = none ∧ ts.queued = false
  | suspend target => target ≠ s.ksIdleThread
  | restart target => target ≠ 0 ∧ target ≠ s.ksIdleThread
  | sendIPC _ _ _ _ _ thread _ => thread ≠ 0 ∧ thread ≠ s.ksIdleThread ∧ s.waitsFor thread = none
  | receiveIPC thread _ _ => thread ≠ 0 ∧ thread ≠ s.ksIdleThread ∧ s.waitsFor thread = none
  | setPriority tptr prio => tptr ≠ 0 ∧ prio < numPriorities
  | setDomain tptr dom => tptr ≠ 0 ∧ dom < cfg.numDomains
  | _ => True

/-- A runnable thread other than the current one is moved to the current domain with a higher priority
than the current thread has, or while the idle thread runs. -/
def Overtakes (s : SysState) : Entry → Prop
  | setDomain tptr dom =>
    tptr ≠ s.ksCurThread ∧ s.isRunnable tptr = true ∧ dom = s.ksCurDomain ∧
      (s.ksCurThread = s.ksIdleThread ∨ s.tcbPriority s.ksCurThread < s.tcbPriority tptr)
  | _ => False

end Entry

/-- What holds between kernel entries. -/
structure EntryInv (cfg : SysConfig) (s : SysState) : Prop where
  sched : SchedOk cfg s.ksIdleThread s
  action : s.ksSchedulerAction = .resumeCurrentThread
  wait : ∃ l, WaitInv s.toIpcState [] (fun _ _ => True) l

namespace EntryInv

section NonMcs

variable (hm : cfg.mcs = false)
include hm

variable (h : EntryInv cfg s) (e : Entry) (hc : e.Called cfg s)
include h hc

/-- **The operations leave enough to the scheduler.** -/
theorem sched_run (hno : ¬ e.Overtakes s) (hs : e.run cfg s = .ok s') : SchedOk cfg s.ksIdleThread s' := by
  obtain ⟨l, hl⟩ := h.wait
  cases e with
  | setThreadState t ts => exact h.sched.setThreadState hm hc.1 hs
  | suspend t => exact h.sched.suspend hm hc hs
  | restart t => exact h.sched.restart hm hc.1 hc.2 hs
  | sendIPC b c badge g gr t p => exact h.sched.sendIPC hm hl hc.2.1 hs
  | receiveIPC t cap b => exact h.sched.receiveIPC hm hl hc.2.1 hs
  | sendSignal p badge => exact h.sched.sendSignal hm hl hs
  | cancelAllIPC p => exact h.sched.cancelAllIPC hm hl hs
  | cancelBadgedSends p badge => exact h.sched.cancelBadgedSends hm hl hs
  | setPriority t v => exact h.sched.setPriority hm h.action hc.1 hc.2 hs
  | setDomain t d =>
    refine h.sched.setDomain hm h.action hc.1 hc.2 (fun hcur hrun hd => ?_) hs
    by_contra hnot
    rw [not_and_or, not_not, not_le] at hnot
    exact hno ⟨hcur, hrun, hd, hnot⟩
  | handleYield => exact h.sched.handleYield hs
  | timerTick => exact h.sched.timerTick hs

/-- The operations keep the threads where they wait. -/
theorem wait_run (hs : e.run cfg s = .ok s') : ∃ l, WaitInv s'.toIpcState [] (fun _ _ => True) l := by
  obtain ⟨l, hl⟩ := h.wait
  cases e with
  | setThreadState t ts => exact ⟨l, hl.setThreadState hc.2.1 hc.2.2 hs⟩
  | suspend t => exact hl.suspend hm hs
  | restart t => exact hl.restart hm hs
  | sendIPC b c badge g gr t p =>
    obtain ⟨l', h', -⟩ := hl.message hc.1 hc.2.2 (WaitInv.admits_true _) (sendIPC_step hs)
    exact ⟨l', h'⟩
  | receiveIPC t cap b =>
    obtain ⟨l', h', -⟩ := hl.receiveIPC hc.1 hc.2.2 (WaitInv.admits_true _) hs
    exact ⟨l', h'⟩
  | sendSignal p badge => exact ⟨_, (hl.sendSignal hs).1⟩
  | cancelAllIPC p =>
    obtain ⟨l', h', -⟩ := hl.cancelAllIPC hs
    exact ⟨l', h'⟩
  | cancelBadgedSends p badge =>
    obtain ⟨l', h', -⟩ := hl.cancelBadgedSends hs
    exact ⟨l', h'⟩
  | setPriority t v =>
    obtain ⟨l', h', -⟩ := hl.setPriority (fun _ _ _ _ _ => trivial) (fun _ _ _ => trivial)
      (WaitInv.admits_true _) hs
    exact ⟨l', h'⟩
  | setDomain t d => exact ⟨l, hl.of_ipc (setDomain_ipc hs)⟩
  | handleYield => exact ⟨l, hl.of_ipc (handleYield_frame hs).ipcFrame.ipc⟩
  | timerTick => exact ⟨l, hl.of_ipc (timerTick_frame hs).ipcFrame.ipc⟩

/-- **A kernel entry that overtakes nobody keeps the invariant.** -/
theorem entry (hno : ¬ e.Overtakes s) (hs : (e.run cfg s >>= schedule cfg) = .ok s') : EntryInv cfg s' := by
  obtain ⟨s1, h1, hs⟩ := bind_eq_ok hs
  obtain ⟨hok, hact⟩ := (h.sched_run hm e hc hno h1).schedule hm hs
  obtain ⟨l, hl⟩ := h.wait_run hm e hc h1
  refine ⟨?_, hact, l, hl.of_ipc (schedule_frame hm hs).ipcFrame.ipc⟩
  rw [hok.idleThread]
  exact hok

/-- **A thread that overtakes the current one is left in the ready queue.** -/
theorem not_strict_of_overtakes
    (ho : e.Overtakes s) (hs : (e.run cfg s >>= SysState.schedule cfg) = .ok s') : ¬ s'.Strict cfg := by
  obtain ⟨s1, h1, hs⟩ := bind_eq_ok hs
  cases e with
  | setDomain t d =>
    obtain ⟨hcur, hrun, rfl, hover⟩ := ho
    obtain ⟨s2, q, rfl, hb, hqueued, h1⟩ := h.sched.setDomain_eq hm hc.1 hc.2 h1
    rw [runIf_neg hcur] at h1
    cases h1
    -- no request was made, so `schedule` goes on with the current thread
    unfold schedule scheduleAction at hs
    rw [hm, runIf_neg nofun, ok_bind] at hs
    rw [h.action] at hs
    cases hs
    have hb' := hb.setAction (a := .resumeCurrentThread) nofun
    rw [← dominates_iff_strict hb'.ready hb'.domain]
    intro hdom
    obtain ⟨hidle, hle⟩ := hdom t ⟨by dsimp only; rw [hqueued, update_self, hrun], update_self ..⟩
    rcases hover with hh | hh
    · exact hidle hh
    · exact absurd hle (not_le.mpr hh)
  | _ => exact ho.elim

end NonMcs

end EntryInv

/-! ## Runs -/

/-- A state to start from: no thread is queued or waits, and the current thread is runnable or the
idle thread. -/
structure Booted (cfg : SysConfig) (s : SysState) : Prop where
  empty : s.toSchedQueues.Empty
  bounded : s.toThreadParams.Bounded cfg
  quiet : Quiet s
  cur : s.ksCurThread ≠ 0
  idle : s.ksIdleThread ≠ 0
  idleState : s.tsType s.ksIdleThread = .idleThreadState
  domain : s.ksCurDomain < cfg.numDomains
  action : s.ksSchedulerAction = .resumeCurrentThread
  runnable : s.ksCurThread = s.ksIdleThread ∨ s.isRunnable s.ksCurThread = true

/-- The runs, with the kernel entries and the states before and after each. -/
inductive EntryRun (cfg : SysConfig) : SysState → List (SysState × Entry × SysState) → Prop
  | init {s : SysState} (h : Booted cfg s) : EntryRun cfg s []
  | entry {s s' : SysState} {tr : List (SysState × Entry × SysState)} (e : Entry)
      (h : EntryRun cfg s tr) (hc : e.Called cfg s)
      (hs : (e.run cfg s >>= schedule cfg) = .ok s') :
      EntryRun cfg s' (tr ++ [(s, e, s')])
  | other {s s' : SysState} {tr : List (SysState × Entry × SysState)} (h : EntryRun cfg s tr)
      (hs : SchedSame s s') (hi : s'.toIpcState = s.toIpcState) : EntryRun cfg s' tr

theorem EntryInv.init (h : Booted cfg s) : EntryInv cfg s := by
  have hq : ∀ t, s.tcbQueued t = false := h.empty.queued
  refine ⟨⟨⟨⟨_, h.empty.inv h.bounded, rfl⟩, h.cur, rfl, h.idle, h.idleState, h.domain, ?_⟩, ?_, ?_⟩,
    h.action, ?_⟩
  · intro c hc
    rw [h.action] at hc
    cases hc
  · refine fun _ => ⟨fun t ht => ?_, h.runnable⟩
    rw [SysState.Rival, hq t] at ht
    cases ht.1
  · intro c hc
    rw [h.action] at hc
    cases hc
  · have hinit : RunInv cfg s (fun _ => 0) 1 := .init h.quiet
    obtain ⟨⟨l, hl⟩, -⟩ := hinit
    exact ⟨l, hl.reorder fun _ _ _ _ _ _ => trivial⟩

theorem EntryInv.other (h : EntryInv cfg s) (hs : SchedSame s s')
    (hi : s'.toIpcState = s.toIpcState) : EntryInv cfg s' := by
  obtain ⟨l, hl⟩ := h.wait
  refine ⟨?_, ?_, l, hl.of_ipc hi⟩
  · rw [hs.node]
    exact h.sched.same hs
  · rw [hs.node]
    exact h.action

theorem EntryInv.strict (h : EntryInv cfg s) : s.Strict cfg :=
  (dominates_iff_strict h.sched.ready h.sched.domain).mp (h.sched.resume h.action).1

/-- What a run without overtaking keeps. -/
theorem EntryInv.reach {tr : List (SysState × Entry × SysState)} (hm : cfg.mcs = false)
    (h : EntryRun cfg s tr) (hno : ∀ x ∈ tr, ¬ x.2.1.Overtakes x.1) :
    EntryInv cfg s ∧ ∀ x ∈ tr, x.2.2.Strict cfg := by
  induction h with
  | init h => exact ⟨EntryInv.init h, fun x hx => absurd hx List.not_mem_nil⟩
  | entry e _ hc hs ih =>
    obtain ⟨hinv, hstrict⟩ := ih fun x hx => hno x (List.mem_append_left _ hx)
    have hinv' := hinv.entry hm e hc (hno _ (List.mem_append_right _ (List.mem_singleton_self _))) hs
    refine ⟨hinv', fun x hx => ?_⟩
    rcases List.mem_append.mp hx with hx | hx
    · exact hstrict x hx
    · rw [List.mem_singleton.mp hx]
      exact hinv'.strict
  | other _ hs hi ih =>
    obtain ⟨hinv, hstrict⟩ := ih hno
    exact ⟨hinv.other hs hi, hstrict⟩

/-- **Priorities are strict exactly without overtaking.** In every run of the kernel without MCS, no
thread in the ready queues of the current domain has a higher priority than the current thread after
any kernel entry, and these queues are empty if that is the idle thread, exactly if no entry of the run
is a `setDomain` that moves a runnable thread of a higher priority to the current domain. -/
theorem strict_priority_iff (cfg : SysConfig) (hm : cfg.mcs = false) (s : SysState)
    (tr : List (SysState × Entry × SysState)) (h : EntryRun cfg s tr) :
    (∀ x ∈ tr, x.2.2.Strict cfg) ↔ ∀ x ∈ tr, ¬ x.2.1.Overtakes x.1 := by
  refine ⟨fun hstrict => ?_, fun hno => (EntryInv.reach hm h hno).2⟩
  induction h with
  | init h => exact fun x hx => absurd hx List.not_mem_nil
  | entry e hrun hc hs ih =>
    have hno := ih fun x hx => hstrict x (List.mem_append_left _ hx)
    intro x hx
    rcases List.mem_append.mp hx with hx | hx
    · exact hno x hx
    · have hx' := List.mem_singleton.mp hx
      rw [hx']
      intro ho
      refine (EntryInv.reach hm hrun hno).1.not_strict_of_overtakes hm e hc ho hs ?_
      have := hstrict x (List.mem_append_right _ hx)
      rwa [hx'] at this
  | other _ _ _ ih => exact ih hstrict

/-- A build with two domains. -/
def twoDomains : SysConfig :=
  { benchSysConfig with
    numDomains := 2
    ksDomSchedule := fun i => if i = 0 then ⟨0, 10⟩ else ⟨1, 10⟩
    ksDomScheduleLength := 2
    numDomains_pos := Nat.two_pos
    domSchedule_lt := fun i => by split_ifs <;> decide }

/-- Thread 16 of domain 0 and priority 100 runs; thread 32 of domain 1 and priority 200 is stopped. -/
def sampleDomains : SysState :=
  { zero with
    tsType := fun t => if t = 8 then .idleThreadState else if t = 16 then .running else .inactive
    tcbPriority := fun t => if t = 32 then 200 else 100
    tcbDomain := fun t => if t = 32 then 1 else 0
    ksCurThread := 16
    ksIdleThread := 8
    ksDomainTime := 10 }

theorem sampleDomains_booted : Booted twoDomains sampleDomains where
  empty := ⟨fun _ => ⟨rfl, rfl⟩, fun _ => rfl, fun _ => rfl, fun j => by cases j <;> rfl, fun _ => rfl,
    fun _ _ => rfl⟩
  bounded t := by
    show (if t = 32 then 200 else 100) < 256 ∧ (if t = 32 then 1 else 0) < 2
    split_ifs <;> decide
  quiet := by
    refine ⟨fun t => ?_, fun _ => ⟨rfl, rfl⟩, fun _ => ⟨nofun, rfl⟩⟩
    rw [IpcState.waitsFor_eq_none]
    show (if t = 8 then ThreadState.idleThreadState
      else if t = 16 then .running else .inactive).queued = false
    split_ifs <;> rfl
  cur := by decide
  idle := by decide
  idleState := rfl
  domain := Nat.two_pos
  action := rfl
  runnable := Or.inr rfl

/-- Thread 32 is started in its domain, and then moved to the current one. -/
theorem sampleDomains_run : ∃ s1 s2,
    ((Entry.restart 32).run twoDomains sampleDomains >>= SysState.schedule twoDomains) = .ok s1 ∧
    ((Entry.setDomain 32 0).run twoDomains s1 >>= SysState.schedule twoDomains) = .ok s2 ∧
    s1.tcbQueued 32 = true ∧ s1.ksCurThread = 16 ∧ s1.isRunnable 32 = true ∧
    s1.ksCurDomain = 0 ∧ s1.tcbPriority 16 = 100 ∧ s1.tcbPriority 32 = 200 ∧
    s2.ksCurThread = 16 ∧ s2.ksCurDomain = 0 ∧ s2.ksReadyQueues 200 = ⟨32, 32⟩ ∧
    s2.tcbPriority 16 = 100 ∧ s2.tcbPriority 32 = 200 :=
  exists_of_run (by decide +kernel)

theorem strict_priority_iff_sample :
    ∃ s, EntryRun twoDomains s [(sampleDomains, .restart 32, s)] ∧ s.tcbQueued 32 = true ∧
      s.Strict twoDomains := by
  obtain ⟨s₁, -, h₁, -, hq, -⟩ := sampleDomains_run
  have hreach := EntryRun.entry (.restart 32) (EntryRun.init sampleDomains_booted)
    ⟨by decide, by decide⟩ h₁
  have hstrict := (strict_priority_iff twoDomains rfl s₁ _ hreach).mpr fun x hx ho => by
    rw [List.mem_singleton.mp hx] at ho
    exact ho
  exact ⟨s₁, hreach, hq, hstrict (sampleDomains, .restart 32, s₁) (List.mem_singleton_self _)⟩

/-- **`setDomain` lets a thread of a higher priority wait.** Thread 16 of priority 100 is current after
the kernel entry, and thread 32 of priority 200 is in the ready queue of the current domain. -/
theorem set_domain_overtakes :
    ∃ s s₁ s₂, EntryRun twoDomains s₂ [(s, .restart 32, s₁), (s₁, .setDomain 32 0, s₂)] ∧
      s₂.ksCurThread = 16 ∧ s₂.ksCurDomain = 0 ∧ s₂.ksReadyQueues 200 = ⟨32, 32⟩ ∧
      s₂.tcbPriority 16 = 100 ∧ s₂.tcbPriority 32 = 200 ∧ ¬ s₂.Strict twoDomains := by
  obtain ⟨s₁, s₂, h₁, h₂, -, hcur, hrun, hdom, hp, hp', hfacts⟩ := sampleDomains_run
  have hinit := EntryRun.init sampleDomains_booted
  have hreach := EntryRun.entry (.restart 32) hinit ⟨by decide, by decide⟩ h₁
  have hinv : EntryInv twoDomains s₁ := (EntryInv.init sampleDomains_booted).entry rfl (.restart 32)
    ⟨by decide, by decide⟩ id h₁
  have hcalled : (Entry.setDomain 32 0).Called twoDomains s₁ := ⟨by decide, Nat.two_pos⟩
  refine ⟨sampleDomains, s₁, s₂, EntryRun.entry (.setDomain 32 0) hreach hcalled h₂, hfacts.1,
    hfacts.2.1, hfacts.2.2.1, hfacts.2.2.2.1, hfacts.2.2.2.2, ?_⟩
  refine hinv.not_strict_of_overtakes rfl (.setDomain 32 0) hcalled ⟨?_, hrun, hdom.symm, .inr ?_⟩ h₂
  · rw [hcur]
    decide
  · rw [hcur, hp, hp']
    decide

end SeL4.Thread
