import SeL4.Thread.ReadyInv
import SeL4.Thread.Frame

/-!
# Requests to the scheduler

`rescheduleRequired`, `possibleSwitchTo` and `setThreadState` decide what `schedule` will do. A thread
is `Asked` for if it is in a ready queue or is the candidate that the scheduler is to switch to.

* `SchedSound.rescheduleRequired`, `SchedSound.possibleSwitchTo`, `SchedSound.setThreadState`: a call that returns
  keeps the queues right, changes them and the decision only, and drops no thread that can be
  scheduled (`Requested`).
* `SchedReady.rescheduleRequired`, `SchedReady.possibleSwitchTo`, `SchedReady.setThreadState`: it returns. On MCS
  `tcbSchedEnqueue` asserts that a thread can be scheduled and has budget, so the candidate must
  have budget if it can be scheduled; this too is kept.
-/

namespace SeL4.Thread

open SeL4.Lib SeL4.Object Function SysState

variable {cfg : SysConfig} {lr : List Word} {s s' s'' : SysState} {t u : Word}

/-- Only the ready queues and the scheduler's decision have changed. -/
def ActionFrame (s s' : SysState) : Prop :=
  ∃ q a, s' = { s with toSchedQueues := q, ksSchedulerAction := a } ∧
    q.tcbInReleaseQueue = s.tcbInReleaseQueue

namespace ActionFrame

theorem refl (s : SysState) : ActionFrame s s := ⟨_, _, rfl, rfl⟩

section

variable (h : ActionFrame s s')
include h

theorem trans (h' : ActionFrame s' s'') : ActionFrame s s'' := by
  obtain ⟨q, a, rfl, hq⟩ := h
  obtain ⟨q', a', rfl, hq'⟩ := h'
  exact ⟨q', a', rfl, hq'.trans hq⟩

theorem isSchedulable (t : Word) :
    s'.isSchedulable cfg t = s.isSchedulable cfg t := by
  obtain ⟨q, a, rfl, hq⟩ := h
  unfold isSchedulable isRunnable scActive
  rw [hq]

theorem refills (cfg : SysConfig) (x : Word) :
    s'.refillSufficient cfg x 0 = s.refillSufficient cfg x 0 ∧ s'.refillReady x = s.refillReady x := by
  obtain ⟨q, a, rfl, -⟩ := h
  exact ⟨rfl, rfl⟩

theorem tcbSchedContext : s'.tcbSchedContext = s.tcbSchedContext := by
  obtain ⟨q, a, rfl, -⟩ := h
  rfl

end

end ActionFrame

theorem Relinked.frame {f : Word → Bool} (h : Relinked cfg lr f s s') (hs : SchedHolds cfg lr s) :
    ActionFrame s s' := by
  have hflags : s'.tcbInReleaseQueue = s.tcbInReleaseQueue := by
    funext t
    rw [Bool.eq_iff_iff, ← h.holds.mem_iff, hs.mem_iff]
  obtain ⟨q, rfl⟩ := h.eq
  exact ⟨q, s.ksSchedulerAction, rfl, hflags⟩

namespace SysState

/-- The refill at the head of a context can be used now. -/
def HasBudget (cfg : SysConfig) (s : SysState) (t : Word) : Prop :=
  s.refillSufficient cfg (s.tcbSchedContext t) 0 = true ∧ s.refillReady (s.tcbSchedContext t) = true

/-- The scheduler will find the thread. -/
def Asked (s : SysState) (t : Word) : Prop := s.tcbQueued t = true ∨ s.ksSchedulerAction = .switchTo t

end SysState

theorem ActionFrame.hasBudget (h : ActionFrame s s') : s'.HasBudget cfg t ↔ s.HasBudget cfg t := by
  unfold SysState.HasBudget
  obtain ⟨hsuff, hready⟩ := h.refills cfg (s.tcbSchedContext t)
  rw [h.tcbSchedContext, hsuff, hready]

/-- What holds between requests: the queues are right, with `lr` in the release queue, which only MCS
has, and a candidate is a thread. -/
structure SchedSound (cfg : SysConfig) (lr : List Word) (s : SysState) : Prop where
  holds : SchedHolds cfg lr s
  release : cfg.mcs = false → lr = []
  candidate_ne : ∀ c, s.ksSchedulerAction = .switchTo c → c ≠ 0

/-- What a request has done. -/
structure Requested (cfg : SysConfig) (lr : List Word) (s s' : SysState) : Prop where
  sound : SchedSound cfg lr s'
  frame : ActionFrame s s'
  asked : ∀ u, s.Asked u → s.isSchedulable cfg u = true → s'.Asked u

theorem Requested.trans (h : Requested cfg lr s s') (h' : Requested cfg lr s' s'') :
    Requested cfg lr s s'' := by
  refine ⟨h'.sound, h.frame.trans h'.frame, fun u hu hs => ?_⟩
  exact h'.asked u (h.asked u hu hs) ((h.frame.isSchedulable u).trans hs)

namespace SchedSound

variable (h : SchedSound cfg lr s)
include h

theorem refl : Requested cfg lr s s := ⟨h, .refl s, fun _ hu _ => hu⟩

/-- The queues, the parameters of threads and the decision are as they were. -/
theorem congr (hq : s'.toSchedQueues = s.toSchedQueues)
    (hp : s'.toThreadParams = s.toThreadParams) (ha : s'.ksSchedulerAction = s.ksSchedulerAction) :
    SchedSound cfg lr s' := by
  obtain ⟨l, hinv, hrel⟩ := h.holds
  refine ⟨⟨l, ?_, hrel⟩, h.release, fun c hac => h.candidate_ne c (ha ▸ hac)⟩
  rw [hq, hp]
  exact hinv

theorem setAction {a : SchedulerAction} (ha : ∀ c, a = .switchTo c → c ≠ 0) :
    SchedSound cfg lr { s with ksSchedulerAction := a } :=
  ⟨h.holds, h.release, ha⟩

/-- A change of the ready queues. -/
theorem relinked {f : Word → Bool} (hr : Relinked cfg lr f s s') :
    SchedSound cfg lr s' ∧ s'.ksSchedulerAction = s.ksSchedulerAction := by
  have hact : s'.ksSchedulerAction = s.ksSchedulerAction := by
    obtain ⟨q, rfl⟩ := hr.eq
    rfl
  exact ⟨⟨hr.holds, h.release, fun c hac => h.candidate_ne c (hact ▸ hac)⟩, hact⟩

theorem tcbSchedEnqueue (ht : t ≠ 0) (heq : s.tcbSchedEnqueue cfg t = .ok s') :
    Requested cfg lr s s' ∧ s'.tcbQueued = update s.tcbQueued t true ∧
      s'.ksSchedulerAction = s.ksSchedulerAction := by
  have hr := h.holds.enqueued h.release ht heq
  obtain ⟨hsound, hact⟩ := h.relinked hr
  refine ⟨⟨hsound, hr.frame h.holds, fun u hu _ => ?_⟩, hr.queued, hact⟩
  unfold SysState.Asked
  rw [hr.queued, hact, update_apply]
  rcases hu with hu | hu
  · rw [hu, ite_self]
    exact .inl rfl
  · exact .inr hu

/-- `rescheduleRequired` puts the candidate, if it can be scheduled, into its ready queue. -/
theorem enqueueCandidate (heq : s.enqueueCandidate cfg = .ok s') :
    Requested cfg lr s s' ∧ ∀ u, s.Asked u → s.isSchedulable cfg u = true → s'.tcbQueued u = true := by
  unfold SysState.enqueueCandidate at heq
  split at heq
  · rename_i c hact
    rcases runIf_cases heq with ⟨-, heq⟩ | ⟨hc, rfl⟩
    · obtain ⟨_, -, _, -, heq⟩ := bind2_eq_ok heq
      obtain ⟨hr, hq, -⟩ := h.tcbSchedEnqueue (h.candidate_ne c hact) heq
      refine ⟨hr, fun u hu _ => ?_⟩
      rw [hq, update_apply]
      rcases hu with hu | hu
      · rw [hu, ite_self]
      · rw [hact] at hu
        cases hu
        exact if_pos rfl
    · refine ⟨h.refl, fun u hu hs => ?_⟩
      rcases hu with hu | hu
      · exact hu
      · rw [hact] at hu
        cases hu
        rw [hs, Bool.or_true] at hc
        exact absurd rfl hc
  · rename_i hact
    cases heq
    refine ⟨h.refl, fun u hu _ => ?_⟩
    rcases hu with hu | hu
    · exact hu
    · exact absurd hu (hact u)

/-- **`rescheduleRequired`** leaves no candidate. -/
theorem rescheduleRequired (heq : s.rescheduleRequired cfg = .ok s') :
    Requested cfg lr s s' ∧ s'.ksSchedulerAction = .chooseNewThread := by
  obtain ⟨s1, heq1, heq⟩ := bind_eq_ok heq
  cases heq
  obtain ⟨hr, hq⟩ := h.enqueueCandidate heq1
  refine ⟨⟨hr.sound.setAction nofun, hr.frame.trans ⟨_, _, rfl, rfl⟩, ?_⟩, rfl⟩
  exact fun u hu hs => .inl (hq u hu hs)

/-- **`possibleSwitchTo`** sees to it that the scheduler finds the thread. -/
theorem possibleSwitchTo (ht : t ≠ 0) (heq : s.possibleSwitchTo cfg t = .ok s') :
    Requested cfg lr s s' ∧ (s.isSchedulable cfg t = true → s'.Asked t) := by
  rcases runIf_cases heq with ⟨-, heq⟩ | ⟨hc, rfl⟩
  · split_ifs at heq with hdom hact
    · obtain ⟨hr, hq, -⟩ := h.tcbSchedEnqueue ht heq
      refine ⟨hr, fun _ => .inl ?_⟩
      rw [hq, update_self]
    · obtain ⟨s1, heq1, heq⟩ := bind_eq_ok heq
      obtain ⟨hr1, -⟩ := h.rescheduleRequired heq1
      obtain ⟨hr, hq, -⟩ := hr1.sound.tcbSchedEnqueue ht heq
      refine ⟨hr1.trans hr, fun _ => .inl ?_⟩
      rw [hq, update_self]
    · cases heq
      rw [not_not] at hact
      refine ⟨⟨h.setAction fun c hc => ?_, ⟨_, _, rfl, rfl⟩, fun u hu _ => ?_⟩, fun _ => .inr rfl⟩
      · cases hc
        exact ht
      · rcases hu with hu | hu
        · exact .inl hu
        · rw [hact] at hu
          cases hu
  · refine ⟨h.refl, fun hs => absurd ?_ hc⟩
    -- a thread that can be scheduled has a context and is not in the release queue
    cases hm : cfg.mcs with
    | false => rfl
    | true =>
      unfold isSchedulable at hs
      rw [hm, if_pos rfl, Bool.and_eq_true, Bool.and_eq_true, Bool.and_eq_true] at hs
      rw [hs.1.1.2, hs.2]
      rfl

/-- **`setThreadState`** asks for another thread if the current one can no longer run. -/
theorem setThreadState {ts : ThreadState}
    (heq : s.setThreadState cfg t ts = .ok s') : Requested cfg lr (s.setTsType t ts) s' := by
  have h1 : SchedSound cfg lr (s.setTsType t ts) := h.congr rfl rfl rfl
  rcases runIf_cases heq with ⟨-, heq⟩ | ⟨-, rfl⟩
  · exact (h1.rescheduleRequired heq).1
  · exact h1.refl

end SchedSound

/-! ## That they return -/

/-- The candidate has budget, if it can be scheduled. -/
structure SchedReady (cfg : SysConfig) (lr : List Word) (s : SysState) : Prop
    extends SchedSound cfg lr s where
  candidate : ∀ c, s.ksSchedulerAction = .switchTo c → cfg.mcs = true →
    s.isSchedulable cfg c = true → s.HasBudget cfg c

namespace SchedReady

variable (h : SchedReady cfg lr s)
include h

theorem congr (hq : s'.toSchedQueues = s.toSchedQueues)
    (hp : s'.toThreadParams = s.toThreadParams) (ha : s'.ksSchedulerAction = s.ksSchedulerAction)
    (hc : ∀ c, s.ksSchedulerAction = .switchTo c → cfg.mcs = true →
      s'.isSchedulable cfg c = true → s'.HasBudget cfg c) : SchedReady cfg lr s' :=
  ⟨h.toSchedSound.congr hq hp ha, fun c hac => hc c (ha ▸ hac)⟩

/-- A request that leaves the candidate, or one that has budget. -/
theorem of_requested (hr : Requested cfg lr s s')
    (ha : ∀ c, s'.ksSchedulerAction = .switchTo c → s.ksSchedulerAction = .switchTo c ∨
      (cfg.mcs = true → s.HasBudget cfg c)) : SchedReady cfg lr s' := by
  refine ⟨hr.sound, fun c hac hm hs => hr.frame.hasBudget.mpr ?_⟩
  rcases ha c hac with hc | hb
  · exact h.candidate c hc hm ((hr.frame.isSchedulable c).symm.trans hs)
  · exact hb hm

theorem tcbSchedEnqueue (ht : t ≠ 0)
    (hmcs : cfg.mcs = true → s.isSchedulable cfg t = true ∧ s.HasBudget cfg t) :
    ∃ s', s.tcbSchedEnqueue cfg t = .ok s' ∧ SchedReady cfg lr s' := by
  obtain ⟨s', heq, -⟩ := h.holds.tcbSchedEnqueue ht (h.holds.notMem h.release fun hm => (hmcs hm).1)
    fun hm => ⟨(hmcs hm).1, (hmcs hm).2.1⟩
  obtain ⟨hr, -, hact⟩ := h.toSchedSound.tcbSchedEnqueue ht heq
  exact ⟨s', heq, h.of_requested hr fun c hc => .inl (hact ▸ hc)⟩

theorem rescheduleRequired : ∃ s', s.rescheduleRequired cfg = .ok s' ∧ SchedReady cfg lr s' := by
  obtain ⟨s1, heq⟩ : ∃ s1, s.enqueueCandidate cfg = .ok s1 := by
    unfold enqueueCandidate
    split
    · rename_i c hact
      by_cases hc : (!cfg.mcs || s.isSchedulable cfg c) = true
      · have hsched : cfg.mcs = true → s.isSchedulable cfg c = true ∧ s.HasBudget cfg c := by
          intro hm
          rw [hm] at hc
          exact ⟨hc, h.candidate c hact hm hc⟩
        obtain ⟨s', heq, -⟩ := h.tcbSchedEnqueue (h.candidate_ne c hact) hsched
        rw [runIf_pos hc, require_ok (by cases hm : cfg.mcs; rfl; exact (hsched hm).2.1), ok_bind,
          require_ok (by cases hm : cfg.mcs; rfl; exact (hsched hm).2.2), ok_bind]
        exact ⟨s', heq⟩
      · exact ⟨s, runIf_neg hc⟩
    · exact ⟨s, rfl⟩
  have hok : s.rescheduleRequired cfg = .ok { s1 with ksSchedulerAction := .chooseNewThread } := by
    unfold SysState.rescheduleRequired
    rw [heq, ok_bind]
  obtain ⟨hr, -⟩ := h.toSchedSound.rescheduleRequired hok
  exact ⟨_, hok, h.of_requested hr nofun⟩

/-- A thread with a context must have budget, unless it is in the release queue. -/
theorem possibleSwitchTo (ht : t ≠ 0)
    (hmcs : cfg.mcs = true → s.tcbSchedContext t ≠ 0 → s.tcbInReleaseQueue t = false →
      s.isSchedulable cfg t = true ∧ s.HasBudget cfg t) :
    ∃ s', s.possibleSwitchTo cfg t = .ok s' ∧ SchedReady cfg lr s' := by
  by_cases hc : (!cfg.mcs || s.tcbSchedContext t != 0 && !s.tcbInReleaseQueue t) = true
  · have hready : cfg.mcs = true → s.isSchedulable cfg t = true ∧ s.HasBudget cfg t := by
      intro hm
      rw [hm, Bool.not_true, Bool.false_or, Bool.and_eq_true, bne_iff_ne, Bool.not_eq_true'] at hc
      exact hmcs hm hc.1 hc.2
    by_cases hdom : s.ksCurDomain ≠ s.tcbDomain t
    · unfold SysState.possibleSwitchTo
      rw [runIf_pos hc, if_pos hdom]
      exact h.tcbSchedEnqueue ht hready
    · by_cases hact : s.ksSchedulerAction ≠ .resumeCurrentThread
      · obtain ⟨s1, heq1, h1⟩ := h.rescheduleRequired
        have hf := (h.toSchedSound.rescheduleRequired heq1).1.frame
        unfold SysState.possibleSwitchTo
        rw [runIf_pos hc, if_neg hdom, if_pos hact, heq1]
        refine h1.tcbSchedEnqueue ht fun hm => ?_
        rw [hf.isSchedulable, hf.hasBudget]
        exact hready hm
      · have hok : s.possibleSwitchTo cfg t = .ok { s with ksSchedulerAction := .switchTo t } := by
          unfold SysState.possibleSwitchTo
          rw [runIf_pos hc, if_neg hdom, if_neg hact]
        obtain ⟨hr, -⟩ := h.toSchedSound.possibleSwitchTo ht hok
        refine ⟨_, hok, h.of_requested hr fun c hc => .inr fun hm => ?_⟩
        cases hc
        exact (hready hm).2
  · exact ⟨s, runIf_neg hc, h⟩

/-- If the thread can be scheduled in its new state it must have budget. -/
theorem setThreadState (ts : ThreadState)
    (ht : cfg.mcs = true → (s.setTsType t ts).isSchedulable cfg t = true → s.HasBudget cfg t) :
    ∃ s', s.setThreadState cfg t ts = .ok s' ∧ SchedReady cfg lr s' := by
  have h1 : SchedReady cfg lr (s.setTsType t ts) := by
    refine h.congr rfl rfl rfl fun c hc hm hs => ?_
    by_cases hct : c = t
    · rw [hct] at hs ⊢
      exact ht hm hs
    · refine h.candidate c hc hm ?_
      unfold isSchedulable isRunnable at hs ⊢
      rwa [setTsType_tsType, if_neg hct] at hs
  unfold SysState.setThreadState scheduleTCB runIf
  split_ifs
  · exact h1.rescheduleRequired
  · exact ⟨_, rfl, h1⟩

end SchedReady

end SeL4.Thread
