import SeL4.Mcs.RefillRun
import SeL4.Thread.Requests
import SeL4.Thread.WaitRun

/-!
# Cancelling the senders with a badge

`cancelBadgedSends` of `endpoint.c` walks along the queue of an endpoint while it takes threads out of it, and
wakes each of them, which runs scheduler code, with the endpoint marked idle.

* `SysState.cancelSend_frame`, `SchedSound.cancelSend`: what is done to one thread.
* `cancelBadgedLoop_spec`: what the loop does, by induction on the part of the queue that is still to
  come.
* `cancel_badged_sends_exact`: exactly the threads with the badge leave, the others stay in order,
  and those that can be scheduled are in a ready queue at the end. The call returns if the
  assertions about budgets hold, which on MCS say that a blocked thread's context is released.
-/

namespace SeL4.Thread

open SeL4.Lib SeL4.Object Links Function SysState

variable {cfg : SysConfig} {lr : List Word} {s s' s'' : SysState} {t u p badge : Word}

/-! ## One thread -/

/-- What wakes a thread keeps: the queues of the scheduler are right, the same threads can be
scheduled, and none of those that were asked for is forgotten. -/
structure Keeps (cfg : SysConfig) (lr : List Word) (s s' : SysState) : Prop where
  sound : SchedSound cfg lr s'
  schedulable : ∀ u, s'.isSchedulable cfg u = s.isSchedulable cfg u
  asked : ∀ u, s.Asked u → s.isSchedulable cfg u = true → s'.Asked u

theorem Requested.keeps (h : Requested cfg lr s s') : Keeps cfg lr s s' :=
  ⟨h.sound, h.frame.isSchedulable, h.asked⟩

theorem Keeps.trans (h : Keeps cfg lr s s') (h' : Keeps cfg lr s' s'') : Keeps cfg lr s s'' :=
  ⟨h'.sound, fun u => (h'.schedulable u).trans (h.schedulable u), fun u hu hs =>
    h'.asked u (h.asked u hu hs) ((h.schedulable u).trans hs)⟩

namespace SysState

/-- New refills for a context with the same parameters do not change who can be scheduled. -/
theorem isSchedulable_setSc {x : Word} {c : Mcs.SchedContext}
    (hc : c.scRefillMax = (s.sc x).scRefillMax) (r : Bool) (u : Word) :
    isSchedulable cfg u { s with sc := update s.sc x c, ksReprogram := r } = s.isSchedulable cfg u := by
  have hactive : ∀ y, scActive y { s with sc := update s.sc x c, ksReprogram := r } =
      s.scActive y := by
    intro y
    refine decide_eq_decide.mpr ?_
    dsimp only
    rw [update_apply]
    split_ifs with hy
    · rw [hc, hy]
    · rfl
  unfold isSchedulable
  rw [hactive]
  rfl

/-- The state of a thread whose send has been cancelled. -/
def cancelledState (cfg : SysConfig) (s : SysState) (t : Word) : ThreadState :=
  if cfg.mcs = true ∧ s.tcbFault t ≠ .nullFault then .inactive else .restart

/-- A cancelled sender gets a new state; the rest is up to the scheduler. -/
theorem cancelSend_frame (h : s.cancelSend cfg t = .ok s') :
    SchedFrame (s.setTsType t (s.cancelledState cfg t)) s' := by
  unfold cancelSend at h
  unfold cancelledState
  split_ifs at h with hm
  · unfold restartThreadIfNoFault at h
    split_ifs at h with hf
    · rw [if_neg fun hh => hh.2 hf]
      obtain ⟨s1, h1, s2, h2, h⟩ := bind2_eq_ok h
      exact ((setThreadState_frame h1).sched.trans (unblockSporadicOther_frame h2)).trans
        (possibleSwitchTo_frame h).sched
    · rw [if_pos ⟨hm, hf⟩]
      exact (setThreadState_frame h).sched
  · rw [if_neg fun hh => hm hh.1]
    obtain ⟨s1, h1, h⟩ := bind_eq_ok h
    exact ((setThreadState_frame h1).trans (tcbSchedEnqueue_frame h)).sched

end SysState

namespace SchedSound

theorem unblockSporadicOther {x : Word} (h : SchedSound cfg lr s)
    (heq : s.unblockSporadicOther cfg x = .ok s') : Keeps cfg lr s s' := by
  obtain ⟨b, -, heq⟩ := bind_eq_ok heq
  rcases runIf_cases heq with ⟨-, heq⟩ | ⟨-, rfl⟩
  · obtain ⟨_, -, c, hc, heq⟩ := bind2_eq_ok heq
    cases heq
    exact ⟨h.congr rfl rfl rfl,
      isSchedulable_setSc (Mcs.SameParams.refillUnblockCheck hc).max _, fun _ hu _ => hu⟩
  · exact h.refl.keeps

/-- A cancelled sender is asked for if it can be scheduled. -/
theorem cancelSend (h : SchedSound cfg lr s) (ht : t ≠ 0) (heq : s.cancelSend cfg t = .ok s') :
    Keeps cfg lr (s.setTsType t (s.cancelledState cfg t)) s' ∧
      (s'.isSchedulable cfg t = true → s'.Asked t) := by
  unfold SysState.cancelSend at heq
  unfold cancelledState
  split_ifs at heq with hm
  · unfold restartThreadIfNoFault at heq
    split_ifs at heq with hf
    · rw [if_neg fun hh => hh.2 hf]
      obtain ⟨s1, heq1, s2, heq2, heq⟩ := bind2_eq_ok heq
      have hk1 := (h.setThreadState heq1).keeps
      have hk2 := hk1.trans (hk1.sound.unblockSporadicOther heq2)
      obtain ⟨hr, hasked⟩ := hk2.sound.possibleSwitchTo ht heq
      exact ⟨hk2.trans hr.keeps, fun hs => hasked ((hr.frame.isSchedulable t).symm.trans hs)⟩
    · rw [if_pos ⟨hm, hf⟩]
      have hk := (h.setThreadState heq).keeps
      refine ⟨hk, fun hs => ?_⟩
      rw [hk.schedulable] at hs
      unfold isSchedulable isRunnable at hs
      simp [hm] at hs
  · rw [if_neg fun hh => hm hh.1]
    obtain ⟨s1, heq1, heq⟩ := bind_eq_ok heq
    have hk1 := (h.setThreadState heq1).keeps
    obtain ⟨hr, hq, -⟩ := hk1.sound.tcbSchedEnqueue ht heq
    refine ⟨hk1.trans hr.keeps, fun _ => .inl ?_⟩
    rw [hq, update_self]

end SchedSound

/-! ## The loop -/

/-- The threads of `T` have a new state; apart from that, links and the scheduler's state may have
changed. -/
def CancelFrame (cfg : SysConfig) (T : List Word) (s s' : SysState) : Prop :=
  ∃ L q n c, s' = { s with
    tsType := fun t => if t ∈ T then s.cancelledState cfg t else s.tsType t
    tcbEP := L
    toSchedQueues := q
    toNodeState := n
    sc := c }

namespace CancelFrame

theorem refl (s : SysState) : CancelFrame cfg [] s s := by
  refine ⟨s.tcbEP, s.toSchedQueues, s.toNodeState, s.sc, ?_⟩
  simp

/-- One more thread at the front. -/
theorem cons {T : List Word} {L : Links Word} (h : SchedFrame (s.setTsType t (s.cancelledState cfg t)) s')
    (h' : CancelFrame cfg T { s' with tcbEP := L } s'') : CancelFrame cfg (t :: T) s s'' := by
  obtain ⟨q, n, c, rfl⟩ := h
  obtain ⟨L', q', n', c', rfl⟩ := h'
  refine ⟨L', q', n', c', ?_⟩
  have hstate : (fun u => if u ∈ T then s.cancelledState cfg u
      else (s.setTsType t (s.cancelledState cfg t)).tsType u) =
        fun u => if u ∈ t :: T then s.cancelledState cfg u else s.tsType u := by
    funext u
    by_cases hut : u = t
    · simp [hut]
    · simp [hut]
  rw [← hstate]
  rfl

end CancelFrame

/-- The sender has the badge. -/
def SysState.hasBadge (s : SysState) (badge t : Word) : Bool := s.blockingIPCBadge t == badge

variable {R : Word → Word → Prop}

/-- The loop of `cancelBadgedSends`, from the thread in front of `B` on: it takes the threads with the
badge out of `B`, and asks for them, as for those of `Q`, which were taken out before. -/
theorem cancelBadgedLoop_spec : ∀ (B : List Word) {A : List Word} {rounds : Nat}
    {queue queue' : TcbQueue} {l : WaitObj → List Word} {s s' : SysState} {Q : Word → Prop},
    WaitInv (s.withQueue p queue) [] R l → l (.ep p) = A ++ B → SchedSound cfg lr s →
    (∀ t, Q t → s.isSchedulable cfg t = true → s.Asked t) →
    cancelBadgedLoop cfg badge rounds (B.headD 0) queue s = .ok (queue', s') →
    WaitInv (s'.withQueue p queue') [] R
        (update l (.ep p) (A ++ B.filter fun t => !s.hasBadge badge t)) ∧
      CancelFrame cfg (B.filter (s.hasBadge badge)) s s' ∧ SchedSound cfg lr s' ∧
      ∀ t, Q t ∨ t ∈ B.filter (s.hasBadge badge) → s'.isSchedulable cfg t = true → s'.Asked t
  | _, _, 0, _, _, _, _, _, _, _, _, _, _, heq => by cases heq
  | [], A, rounds + 1, queue, queue', l, s, s', Q, h, hl, hs, hq, heq => by
    cases heq
    have hl' : update l (.ep p) (A ++ []) = l := by
      rw [← hl, update_eq_self]
    refine ⟨?_, CancelFrame.refl s, hs, fun t ht => hq t (ht.resolve_right (by simp))⟩
    rw [List.filter_nil, hl']
    exact h
  | t :: B, A, rounds + 1, queue, queue', l, s, s', Q, h, hl, hs, hq, heq => by
    have hmem : t ∈ l (.ep p) := hl ▸ List.mem_append_cons_self
    have ht0 := h.queues.ne_null _ t hmem
    have hnext : s.tcbEP.next t = B.headD 0 := h.queues.next_eq hl
    rw [cancelBadgedLoop, List.headD_cons, if_neg ht0] at heq
    obtain ⟨-, -, heq⟩ := bind_eq_ok heq
    rw [hnext] at heq
    split_ifs at heq with hb
    · have hbt : s.hasBadge badge t = true := beq_iff_eq.mpr hb
      obtain ⟨s1, heq1, heq⟩ := bind_eq_ok heq
      obtain ⟨hk, hasked⟩ := hs.cancelSend ht0 heq1
      have hf := cancelSend_frame heq1
      have hbadge : s1.blockingIPCBadge = s.blockingIPCBadge := by
        obtain ⟨q, n, c, rfl⟩ := hf
        rfl
      have hbadge' : s1.hasBadge badge = s.hasBadge badge := by
        unfold hasBadge
        rw [hbadge]
      -- a thread that was taken out before is still asked for
      have hq1 : ∀ u, Q u ∨ u = t → s1.isSchedulable cfg u = true → s1.Asked u := by
        intro u hu hsched
        by_cases hut : u = t
        · rw [hut] at hsched ⊢
          exact hasked hsched
        · have hsched0 : (s.setTsType t (s.cancelledState cfg t)).isSchedulable cfg u = true :=
            (hk.schedulable u).symm.trans hsched
          refine hk.asked u (hq u (hu.resolve_right hut) ?_) hsched0
          unfold isSchedulable isRunnable at hsched0 ⊢
          rwa [setTsType_tsType, if_neg hut] at hsched0
      obtain ⟨hw', hf', hs', hq'⟩ := cancelBadgedLoop_spec B (h.cancelSend hl heq1)
        (update_self ..) (hk.sound.congr rfl rfl rfl) (fun u hu => hq1 u hu) heq
      rw [update_idem] at hw'
      change WaitInv _ [] R (update l (.ep p) (A ++ B.filter fun t => !s1.hasBadge badge t)) at hw'
      change CancelFrame cfg (B.filter (s1.hasBadge badge)) _ s' at hf'
      change ∀ u, _ ∨ u ∈ B.filter (s1.hasBadge badge) → _ at hq'
      rw [hbadge'] at hw' hf' hq'
      rw [List.filter_cons_of_pos hbt, List.filter_cons_of_neg (by rw [hbt]; exact Bool.false_ne_true)]
      refine ⟨hw', CancelFrame.cons hf hf', hs', fun u hu => hq' u ?_⟩
      rw [List.mem_cons, ← or_assoc] at hu
      exact hu
    · have hbt : s.hasBadge badge t = false := beq_eq_false_iff_ne.mpr hb
      have hl' : l (.ep p) = (A ++ [t]) ++ B := by
        rw [hl, List.append_assoc, List.singleton_append]
      obtain ⟨hw', hf', hs', hq'⟩ := cancelBadgedLoop_spec B h hl' hs hq heq
      have hout : (t :: B).filter (s.hasBadge badge) = B.filter (s.hasBadge badge) :=
        List.filter_cons_of_neg (by rw [hbt]; exact Bool.false_ne_true)
      have hstays : (t :: B).filter (fun t => !s.hasBadge badge t) =
          t :: B.filter fun t => !s.hasBadge badge t :=
        List.filter_cons_of_pos (by rw [hbt]; rfl)
      rw [hout, hstays]
      rw [List.append_assoc] at hw'
      exact ⟨hw', hf', hs', hq'⟩

/-! ## The whole function -/

/-- The senders with the badge are cancelled; `l` are the queues before. -/
structure SendsCancelled (cfg : SysConfig) (p badge : Word) (R : Word → Word → Prop)
    (l : WaitObj → List Word) (s s' : SysState) : Prop where
  /-- The others remain, in order, and all queues are right. -/
  waiting : WaitInv s'.toIpcState [] R
    (update l (.ep p) ((l (.ep p)).filter fun t => !s.hasBadge badge t))
  /-- The queue of the endpoint is well linked. -/
  queue : IsQueue 0 s'.tcbEP (s'.epQueue p) ((l (.ep p)).filter fun t => !s.hasBadge badge t)
  /-- The endpoint is idle if none remain. -/
  state : s'.epState p =
    if (l (.ep p)).filter (fun t => !s.hasBadge badge t) = [] then .idle else .send
  /-- The cancelled threads can restart, and no other thread has a new state. -/
  threads : ∀ t, s'.tsType t =
    if t ∈ l (.ep p) ∧ s.hasBadge badge t = true then s.cancelledState cfg t else s.tsType t
  /-- Nothing else changes but links and the state of the scheduler. -/
  rest : ∃ f L Q e q n c, s' = { s with
    tsType := f
    tcbEP := L
    epQueue := update s.epQueue p Q
    epState := update s.epState p e
    toSchedQueues := q
    toNodeState := n
    sc := c }
  /-- The cancelled threads that can be scheduled are in a ready queue. -/
  scheduled : ∀ t ∈ l (.ep p), s.hasBadge badge t = true → s'.isSchedulable cfg t = true →
    s'.tcbQueued t = true

/-- The local queue of `cancelBadgedSends` becomes that of the endpoint again. -/
def SysState.epStore (p : Word) (queue : TcbQueue) (s : SysState) : SysState :=
  { s with
    epQueue := update s.epQueue p queue
    epState := if queue.head ≠ 0 then update s.epState p .send else s.epState }

theorem SysState.cancelBadgedSends_eq (hep : s.epState p = .send) :
    s.cancelBadgedSends cfg p badge = (do
      let r ← cancelBadgedLoop cfg badge loopBound (s.epQueue p).head (s.epQueue p) (s.epReset p)
      (r.2.epStore p r.1).rescheduleRequired cfg) := by
  unfold cancelBadgedSends
  rw [hep]
  rfl

/-- What is left of the loop and the request after it. -/
theorem CancelFrame.rest {T : List Word} {queue : TcbQueue} (h : CancelFrame cfg T (s.epReset p) s')
    (h' : QueueFrame (s'.epStore p queue) s'') :
    ∃ f L Q e q n c, s'' = { s with
      tsType := f
      tcbEP := L
      epQueue := update s.epQueue p Q
      epState := update s.epState p e
      toSchedQueues := q
      toNodeState := n
      sc := c } ∧ f = fun t => if t ∈ T then s.cancelledState cfg t else s.tsType t := by
  obtain ⟨L, q, n, c, rfl⟩ := h
  obtain ⟨q', n', rfl⟩ := h'
  refine ⟨_, L, queue, if queue.head = 0 then .idle else .send, q', n', c, ?_, rfl⟩
  have hq : update (s.epReset p).epQueue p queue = update s.epQueue p queue := update_idem ..
  have he : (if queue.head ≠ 0 then update (s.epReset p).epState p .send
      else (s.epReset p).epState) = update s.epState p (if queue.head = 0 then .idle else .send) := by
    by_cases hh : queue.head = 0
    · rw [if_neg (not_not_intro hh), if_pos hh]
      rfl
    · rw [if_pos hh, if_neg hh]
      exact update_idem ..
  unfold epStore
  rw [hq, he]
  rfl

/-- **`cancelBadgedSends` takes out exactly the senders with the badge.** -/
theorem sendsCancelled_of_ok {l : WaitObj → List Word} (hw : WaitInv s.toIpcState [] R l)
    (hs : SchedSound cfg lr s) (hep : s.epState p = .send)
    (heq : s.cancelBadgedSends cfg p badge = .ok s') : SendsCancelled cfg p badge R l s s' := by
  rw [cancelBadgedSends_eq hep] at heq
  obtain ⟨⟨queue, s1⟩, heq1, heq⟩ := bind_eq_ok heq
  have hhead : (s.epQueue p).head = (l (.ep p)).headD 0 := (hw.queues.isQueue (.ep p)).head
  rw [hhead] at heq1
  have hw0 : WaitInv ((s.epReset p).toIpcState.withQueue p (s.epQueue p)) [] R l := by
    rw [hw.withQueue_epReset hep]
    exact hw
  have hs0 : SchedSound cfg lr (s.epReset p) := hs.congr rfl rfl rfl
  obtain ⟨hw1, hf1, hs1, hq1⟩ := cancelBadgedLoop_spec (l (.ep p)) (A := [])
    (Q := fun _ => False) hw0 rfl hs0 (fun _ hu => hu.elim) heq1
  change CancelFrame cfg ((l (.ep p)).filter (s.hasBadge badge)) (s.epReset p) s1 at hf1
  change WaitInv _ [] R (update l (.ep p) ([] ++ (l (.ep p)).filter fun t =>
    !s.hasBadge badge t)) at hw1
  have hidle : s1.epState p = .idle := by
    obtain ⟨L, q, n, c, rfl⟩ := hf1
    exact update_self ..
  have hstore : (s1.epStore p queue).toIpcState = s1.toIpcState.withQueue p queue :=
    WaitInv.withQueue_store hidle
  rw [← hstore] at hw1
  have hs2 : SchedSound cfg lr (s1.epStore p queue) := hs1.congr rfl rfl rfl
  obtain ⟨hr, hact⟩ := hs2.rescheduleRequired heq
  have hframe := rescheduleRequired_frame heq
  have hipc := hframe.sched.ipcFrame.ipc
  have hwait := WaitInv.of_ipc hw1 hipc
  have hqueue := hwait.queues.isQueue (.ep p)
  rw [update_self] at hqueue
  obtain ⟨f, L, Q, e, q, n, c, hrest, hf⟩ := hf1.rest hframe
  refine ⟨hwait, hqueue, ?_, fun t => ?_, ⟨f, L, Q, e, q, n, c, hrest⟩, fun t ht hb hsched => ?_⟩
  · have hiff := hw1.queues.head_eq_null_iff (.ep p)
    rw [update_self] at hiff
    have hstate : s'.epState p = if queue.head = 0 then .idle else .send := by
      rw [hipc, hstore]
      exact update_self ..
    have hlocal : (s1.epStore p queue).toIpcState.queue (.ep p) = queue := update_self ..
    rw [hlocal] at hiff
    rw [hstate]
    exact if_congr hiff rfl rfl
  · simp only [hrest, hf, List.mem_filter]
  · have hsched2 : (s1.epStore p queue).isSchedulable cfg t = true :=
      (hr.frame.isSchedulable t).symm.trans hsched
    have hasked : (s1.epStore p queue).Asked t := hq1 t (.inr (List.mem_filter.mpr ⟨ht, hb⟩)) hsched2
    refine (hr.asked t hasked hsched2).resolve_right fun hsw => ?_
    rw [hact] at hsw
    cases hsw

/-! ## That it returns -/

/-- The context of a blocked thread is its own and is released, and its refills are well formed if
`refill_unblock_check` is going to merge them. -/
structure SysState.Released (cfg : SysConfig) (s : SysState) (t : Word) : Prop where
  own : ∀ u, s.tcbSchedContext u = s.tcbSchedContext t → u = t
  active : s.scActive (s.tcbSchedContext t) = true
  budget : s.HasBudget cfg t
  sporadic : (s.sc (s.tcbSchedContext t)).scSporadic = true →
    s.tcbSchedContext t ≠ s.ksCurSC ∧ s.ksCurTime < cfg.timer.maxReleaseTime ∧
      (Mcs.isRoundRobin (s.sc (s.tcbSchedContext t)) = true ∨
        ∃ budget, Mcs.Configured cfg.timer (s.sc (s.tcbSchedContext t)) budget)

/-- The clock stands, and only the context `x` may have new refills. -/
structure OnlyContext (x : Word) (s s' : SysState) : Prop where
  curSC : s'.ksCurSC = s.ksCurSC
  curTime : s'.ksCurTime = s.ksCurTime
  sc : ∀ y ≠ x, s'.sc y = s.sc y
  bound : s'.tcbSchedContext = s.tcbSchedContext

theorem OnlyContext.refl (x : Word) (s : SysState) : OnlyContext x s s := ⟨rfl, rfl, fun _ _ => rfl, rfl⟩

theorem OnlyContext.trans {x : Word} (h : OnlyContext x s s') (h' : OnlyContext x s' s'') :
    OnlyContext x s s'' :=
  ⟨h'.curSC.trans h.curSC, h'.curTime.trans h.curTime, fun y hy => (h'.sc y hy).trans (h.sc y hy),
    h'.bound.trans h.bound⟩

theorem ActionFrame.onlyContext (h : ActionFrame s s') (x : Word) : OnlyContext x s s' := by
  obtain ⟨q, a, rfl, -⟩ := h
  exact ⟨rfl, rfl, fun _ _ => rfl, rfl⟩

/-- Another thread's context is still released. -/
theorem OnlyContext.released (h : OnlyContext (s.tcbSchedContext t) s s') (hut : u ≠ t)
    (hu : s.Released cfg u) : s'.Released cfg u := by
  have hsc : s'.sc (s.tcbSchedContext u) = s.sc (s.tcbSchedContext u) :=
    h.sc _ fun he => hut (hu.own t he.symm).symm
  obtain ⟨hown, hactive, ⟨hsuff, hready⟩, hsp⟩ := hu
  refine ⟨?_, ?_, ⟨?_, ?_⟩, ?_⟩
  · rw [h.bound]
    exact hown
  · unfold scActive at hactive ⊢
    rwa [h.bound, hsc]
  · unfold refillSufficient at hsuff ⊢
    rwa [h.bound, hsc]
  · unfold refillReady at hready ⊢
    rwa [h.bound, hsc, h.curTime]
  · rw [h.bound, hsc, h.curTime, h.curSC]
    exact hsp

/-- `refill_unblock_check` on a released context returns, and the context stays released. -/
theorem Released.refillUnblockCheck (h : s.Released cfg t)
    (hsp : (s.sc (s.tcbSchedContext t)).scSporadic = true) :
    ∃ c, Mcs.refillUnblockCheck cfg.timer s.ksCurTime (s.sc (s.tcbSchedContext t)) = .ok c ∧
      Mcs.refillReady c s.ksCurTime = true ∧ Mcs.refillSufficient cfg.timer c 0 = true := by
  obtain ⟨-, hnow, hrr | ⟨budget, hc⟩⟩ := h.sporadic hsp
  · refine ⟨_, ?_, h.budget.2, h.budget.1⟩
    unfold Mcs.refillUnblockCheck
    rw [if_pos hrr]
    rfl
  · exact hc.unblockCheck_ready hnow h.budget.2

namespace SchedReady

section

variable {s1 : SysState} (h : SchedReady cfg lr s)
include h

/-- New refills for the context of a thread, with which it has budget. -/
theorem setRefills {c : Mcs.SchedContext} {r : Bool}
    (hs1 : s1 = { s with sc := update s.sc (s.tcbSchedContext t) c, ksReprogram := r })
    (hown : ∀ u, s.tcbSchedContext u = s.tcbSchedContext t → u = t)
    (hmax : c.scRefillMax = (s.sc (s.tcbSchedContext t)).scRefillMax)
    (hready : Mcs.refillReady c s.ksCurTime = true) (hsuff : Mcs.refillSufficient cfg.timer c 0 = true) :
    SchedReady cfg lr s1 ∧ s1.HasBudget cfg t := by
  have hbudget : s1.HasBudget cfg t := by
    subst hs1
    unfold SysState.HasBudget refillSufficient refillReady
    dsimp only
    rw [update_self]
    exact ⟨hsuff, hready⟩
  subst hs1
  refine ⟨h.congr rfl rfl rfl fun u hu hm hs => ?_, hbudget⟩
  by_cases hut : u = t
  · rw [hut]
    exact hbudget
  · rw [isSchedulable_setSc hmax] at hs
    have hne : s.tcbSchedContext u ≠ s.tcbSchedContext t := fun he => hut (hown u he)
    have hold := h.candidate u hu hm hs
    unfold SysState.HasBudget refillSufficient refillReady at hold ⊢
    dsimp only
    rwa [update_of_ne hne]

theorem unblockSporadicOther (ht : s.tcbSchedContext t ≠ 0 → s.Released cfg t) :
    ∃ s', s.unblockSporadicOther cfg (s.tcbSchedContext t) = .ok s' ∧ SchedReady cfg lr s' ∧
      OnlyContext (s.tcbSchedContext t) s s' ∧ (s.tcbSchedContext t ≠ 0 → s'.HasBudget cfg t) := by
  unfold SysState.unblockSporadicOther scSporadic
  by_cases hx : s.tcbSchedContext t = 0
  · rw [hx]
    exact ⟨s, rfl, h, OnlyContext.refl _ s, fun hne => absurd rfl hne⟩
  · have hrel := ht hx
    rw [require_ok (by rw [hrel.active, Bool.or_true]), ok_bind, ok_bind, bne_iff_ne.mpr hx,
      Bool.true_and]
    by_cases hsp : (s.sc (s.tcbSchedContext t)).scSporadic = true
    · obtain ⟨c, hc, hready, hsuff⟩ := Released.refillUnblockCheck hrel hsp
      have hmax := (Mcs.SameParams.refillUnblockCheck hc).max
      rw [runIf_pos hsp, require_ok (bne_iff_ne.mpr (hrel.sporadic hsp).1)]
      unfold refillUnblockCheck
      rw [hc]
      obtain ⟨hs', hb'⟩ := h.setRefills rfl hrel.own hmax hready hsuff
      exact ⟨_, rfl, hs', ⟨rfl, rfl, fun y hy => update_of_ne hy _ _, rfl⟩, fun _ => hb'⟩
    · rw [runIf_neg hsp]
      exact ⟨s, rfl, h, .refl _ s, fun _ => hrel.budget⟩

/-- A thread that restarts with an active context, outside the release queue, can be scheduled. -/
theorem isSchedulable_restart (hm : cfg.mcs = true) (hr : t ∉ lr)
    (hx : s.tcbSchedContext t ≠ 0) (hactive : s.scActive (s.tcbSchedContext t) = true) :
    (s.setTsType t .restart).isSchedulable cfg t = true := by
  have hrun : (s.setTsType t .restart).isRunnable t = true := by
    unfold isRunnable
    rw [setTsType_tsType, if_pos rfl]
  have hflag := h.holds.not_released hr
  unfold isSchedulable
  rw [hm, hrun]
  exact Bool.and_eq_true_iff.mpr ⟨Bool.and_eq_true_iff.mpr ⟨bne_iff_ne.mpr hx, hactive⟩,
    Bool.not_eq_true' _ ▸ hflag⟩

theorem setThreadState_onlyContext {ts : ThreadState} (heq : s.setThreadState cfg t ts = .ok s1) :
    OnlyContext (s.tcbSchedContext t) s s1 := by
  obtain ⟨q, a, rfl, -⟩ := (h.toSchedSound.setThreadState heq).frame
  exact ⟨rfl, rfl, fun _ _ => rfl, rfl⟩

/-- `restart_thread_if_no_fault` of a thread whose context is released returns. -/
theorem restartThreadIfNoFault (hm : cfg.mcs = true) (ht : t ≠ 0)
    (hrel : s.tcbFault t = .nullFault → s.tcbSchedContext t ≠ 0 → s.Released cfg t) :
    ∃ s', s.restartThreadIfNoFault cfg t = .ok s' ∧ SchedReady cfg lr s' ∧
      OnlyContext (s.tcbSchedContext t) s s' := by
  unfold SysState.restartThreadIfNoFault
  by_cases hf : s.tcbFault t = .nullFault
  · have hrel := hrel hf
    have hbudget : (s.setTsType t .restart).isSchedulable cfg t = true → s.HasBudget cfg t := by
      intro hs
      unfold isSchedulable at hs
      rw [hm, if_pos rfl, Bool.and_eq_true, Bool.and_eq_true, Bool.and_eq_true] at hs
      exact (hrel (bne_iff_ne.mp hs.1.1.2)).budget
    obtain ⟨s1, heq1, h1⟩ := h.setThreadState .restart fun _ => hbudget
    have hr1 := h.toSchedSound.setThreadState heq1
    have hrel1 : s1.tcbSchedContext t ≠ 0 → s1.Released cfg t := by
      obtain ⟨q, a, rfl, -⟩ := hr1.frame
      intro hx
      obtain ⟨hown, hactive, hbudget, hsp⟩ := hrel hx
      exact ⟨hown, hactive, hbudget, hsp⟩
    have hctx1 : s1.tcbSchedContext t = s.tcbSchedContext t := congrFun hr1.frame.tcbSchedContext t
    obtain ⟨s2, heq2, h2, hc2, hb2⟩ := h1.unblockSporadicOther hrel1
    have hk := hr1.keeps.trans (h1.toSchedSound.unblockSporadicOther heq2)
    have hready : cfg.mcs = true → s2.tcbSchedContext t ≠ 0 → s2.tcbInReleaseQueue t = false →
        s2.isSchedulable cfg t = true ∧ s2.HasBudget cfg t := by
      intro _ hx hrq
      rw [hc2.bound] at hx
      have hnot : t ∉ lr := by
        rw [h2.holds.mem_iff, hrq]
        exact Bool.false_ne_true
      rw [hk.schedulable]
      exact ⟨h.isSchedulable_restart hm hnot (hctx1 ▸ hx) (hrel (hctx1 ▸ hx)).active, hb2 hx⟩
    obtain ⟨s', heq, h'⟩ := h2.possibleSwitchTo ht hready
    rw [if_pos hf, heq1, ok_bind, heq2]
    refine ⟨s', heq, h', OnlyContext.trans ?_ ((h2.toSchedSound.possibleSwitchTo ht heq).1.frame.onlyContext _)⟩
    rw [hctx1] at hc2
    exact (h.setThreadState_onlyContext heq1).trans hc2
  · have hidle : (s.setTsType t .inactive).isSchedulable cfg t = true → s.HasBudget cfg t := by
      intro hs
      unfold isSchedulable isRunnable at hs
      simp [hm] at hs
    obtain ⟨s1, heq1, h1⟩ := h.setThreadState .inactive fun _ => hidle
    rw [if_neg hf]
    exact ⟨s1, heq1, h1, h.setThreadState_onlyContext heq1⟩

/-- Waking a sender returns. -/
theorem cancelSend (ht : t ≠ 0)
    (hrel : cfg.mcs = true → s.tcbFault t = .nullFault → s.tcbSchedContext t ≠ 0 → s.Released cfg t) :
    ∃ s', s.cancelSend cfg t = .ok s' ∧ SchedReady cfg lr s' ∧
      OnlyContext (s.tcbSchedContext t) s s' := by
  unfold SysState.cancelSend
  split_ifs with hm
  · exact h.restartThreadIfNoFault hm ht (hrel hm)
  · obtain ⟨s1, heq1, h1⟩ := h.setThreadState .restart fun hm' => absurd hm' hm
    obtain ⟨s', heq, h'⟩ := h1.tcbSchedEnqueue ht fun hm' => absurd hm' hm
    have hc := (h1.toSchedSound.tcbSchedEnqueue ht heq).1.frame.onlyContext (s.tcbSchedContext t)
    unfold restartEnqueue
    rw [heq1]
    exact ⟨s', heq, h', (h.setThreadState_onlyContext heq1).trans hc⟩

end

/-- The loop returns. -/
theorem cancelBadgedLoop : ∀ (B : List Word) {A : List Word} {rounds : Nat} {queue : TcbQueue}
    {l : WaitObj → List Word} {s : SysState},
    WaitInv (s.withQueue p queue) [] R l → l (.ep p) = A ++ B → SchedReady cfg lr s →
    B.length < rounds → (cfg.mcs = true → ∀ t ∈ B, s.tsType t = .blockedOnSend) →
    (cfg.mcs = true → ∀ t ∈ B, s.hasBadge badge t = true → s.tcbFault t = .nullFault →
      s.tcbSchedContext t ≠ 0 → s.Released cfg t) →
    ∃ queue' s', cancelBadgedLoop cfg badge rounds (B.headD 0) queue s = .ok (queue', s') ∧
      SchedReady cfg lr s'
  | _, _, 0, _, _, _, _, _, _, hlt, _, _ => absurd hlt (Nat.not_lt_zero _)
  | [], _, rounds + 1, queue, _, s, _, _, hs, _, _, _ => by
    exact ⟨queue, s, rfl, hs⟩
  | t :: B, A, rounds + 1, queue, l, s, h, hl, hs, hlt, hst, hrel => by
    have hmem : t ∈ l (.ep p) := hl ▸ List.mem_append_cons_self
    have ht0 := h.queues.ne_null _ t hmem
    have htB := (h.queues.notMem_sides hl).2
    have hnext : s.tcbEP.next t = B.headD 0 := h.queues.next_eq hl
    have hassert : (!cfg.mcs || s.tsType t == .blockedOnSend) = true := by
      cases hm : cfg.mcs
      · rfl
      · rw [hst hm t List.mem_cons_self]
        rfl
    rw [SysState.cancelBadgedLoop, List.headD_cons, if_neg ht0]
    rw [require_ok hassert, ok_bind, hnext]
    by_cases hb : s.blockingIPCBadge t = badge
    · obtain ⟨s1, heq1, h1, hc⟩ := hs.cancelSend ht0 fun hm =>
        hrel hm t (.head _) (beq_iff_eq.mpr hb)
      have hf := cancelSend_frame heq1
      rw [if_pos hb, heq1]
      refine cancelBadgedLoop B (h.cancelSend hl heq1) (update_self ..)
        (h1.congr rfl rfl rfl h1.candidate) (Nat.lt_of_succ_lt_succ hlt) (fun hm u hu => ?_)
        fun hm u hu hub huf hux => ?_
      · obtain ⟨q, n, c, rfl⟩ := hf
        rw [setTsType_tsType, if_neg (ne_of_mem_of_not_mem hu htB)]
        exact hst hm u (.tail t hu)
      · have hrelu := hrel hm u (.tail t hu)
        have hut := ne_of_mem_of_not_mem hu htB
        obtain ⟨q, n, c, rfl⟩ := hf
        have hu' := hc.released hut (hrelu hub huf hux)
        exact ⟨hu'.own, hu'.active, hu'.budget, hu'.sporadic⟩
    · have hl' : l (.ep p) = (A ++ [t]) ++ B := by
        rw [hl, List.append_assoc, List.singleton_append]
      rw [if_neg hb]
      exact cancelBadgedLoop B h hl' hs (Nat.lt_of_succ_lt_succ hlt)
        (fun hm u hu => hst hm u (.tail t hu))
        fun hm u hu => hrel hm u (.tail t hu)

end SchedReady

/-- **`cancelBadgedSends` is exact.** An endpoint that is idle or has receivers is left alone. Otherwise
exactly the senders with the badge leave the queue and can restart, the others stay in order, and no
other thread's state changes; and the call returns, if on MCS the contexts of the cancelled threads
are released and the candidate of the scheduler, if any, has budget. -/
theorem cancel_badged_sends_exact (cfg : SysConfig) (s : SysState) (p badge : Word)
    (R : Word → Word → Prop) (l : WaitObj → List Word) (lr : List Word)
    (hw : WaitInv s.toIpcState [] R l) (hs : SchedSound cfg lr s) :
    (s.epState p ≠ .send → s.cancelBadgedSends cfg p badge = .ok s) ∧
      (s.epState p = .send →
        (∀ s', s.cancelBadgedSends cfg p badge = .ok s' → SendsCancelled cfg p badge R l s s') ∧
        ((cfg.mcs = true → ∀ t ∈ l (.ep p), s.hasBadge badge t = true →
            s.tcbFault t = .nullFault → s.tcbSchedContext t ≠ 0 → s.Released cfg t) →
          (∀ c, s.ksSchedulerAction = .switchTo c → cfg.mcs = true →
            s.isSchedulable cfg c = true → s.HasBudget cfg c) →
          ∃ s', s.cancelBadgedSends cfg p badge = .ok s')) := by
  refine ⟨fun hep => ?_, fun hep => ⟨fun s' => sendsCancelled_of_ok hw hs hep, fun hrel hcand => ?_⟩⟩
  · unfold cancelBadgedSends
    cases he : s.epState p with
    | idle => rfl
    | recv => rfl
    | send => exact absurd he hep
  · have hhead : (s.epQueue p).head = (l (.ep p)).headD 0 := (hw.queues.isQueue (.ep p)).head
    have hw₀ : WaitInv ((s.epReset p).withQueue p (s.epQueue p)) [] R l := by
      rw [hw.withQueue_epReset hep]
      exact hw
    have hblocked : ∀ t ∈ l (.ep p), s.tsType t = .blockedOnSend := by
      intro t ht
      have hk := hw.kind p t ht
      rw [hep] at hk
      exact (Option.some.inj hk).symm
    have hr₀ : SchedReady cfg lr (s.epReset p) := ⟨hs.congr rfl rfl rfl, hcand⟩
    obtain ⟨queue, s₁, heq₁, h₁⟩ := hr₀.cancelBadgedLoop (l (.ep p)) (A := []) hw₀ rfl
      (SchedInv.length_lt_loopBound hw.queues (.ep p)) (fun _ => hblocked)
      (fun hm t ht hb hf hx => by
        obtain ⟨hown, hactive, hbudget, hsp⟩ := hrel hm t ht hb hf hx
        exact ⟨hown, hactive, hbudget, hsp⟩)
    have hr₁ : SchedReady cfg lr (s₁.epStore p queue) := h₁.congr rfl rfl rfl h₁.candidate
    obtain ⟨s', heq, -⟩ := hr₁.rescheduleRequired
    rw [cancelBadgedSends_eq hep, hhead, heq₁]
    exact ⟨s', heq⟩

/-- Threads 16, 32 and 48 send to endpoint 4096, thread 32 with another badge than the others. -/
def sampleBadged : SysState :=
  { zero with
    tsType := fun t => if t ∈ [16, 32, 48] then .blockedOnSend else .running
    blockingObject := fun _ => 4096
    blockingIPCBadge := fun t => if t = 32 then 7 else 5
    tcbEP :=
      { next := fun t => if t = 16 then 32 else if t = 32 then 48 else 0
        prev := fun t => if t = 48 then 32 else if t = 32 then 16 else 0 }
    epState := fun p => if p = 4096 then .send else .idle
    epQueue := fun p => if p = 4096 then ⟨16, 48⟩ else ⟨0, 0⟩ }

/-- The queue of endpoint 4096. -/
def sampleBadgedLists (o : WaitObj) : List Word := if o = .ep 4096 then [16, 32, 48] else []

theorem mem_sampleBadgedLists {o : WaitObj} :
    t ∈ sampleBadgedLists o ↔ o = .ep 4096 ∧ t ∈ [16, 32, 48] := by
  unfold sampleBadgedLists
  split_ifs with ho
  · rw [and_iff_right ho]
  · exact ⟨nofun, fun hh => absurd hh.1 ho⟩

theorem sampleBadged_waitInv : WaitInv sampleBadged.toIpcState [] (fun _ _ => True) sampleBadgedLists := by
  have hwaits : ∀ t, sampleBadged.toIpcState.waitsFor t =
      if t ∈ [16, 32, 48] then some (.ep 4096) else none := by
    intro t
    unfold IpcState.waitsFor sampleBadged
    dsimp only
    split_ifs <;> rfl
  refine ⟨⟨⟨fun o => ?_, fun o => ?_, fun o o' x hx hx' => ?_, fun o x hx => ?_⟩, fun t _ o => ?_,
    nofun, fun o => ?_⟩, fun p => ?_, fun p t ht => ?_, fun p => ?_⟩
  · by_cases ho : o = .ep 4096
    · subst ho
      exact ⟨⟨rfl, rfl, rfl, rfl, rfl, rfl, trivial⟩, rfl, rfl⟩
    · have hq : sampleBadged.toIpcState.queue o = ⟨0, 0⟩ := by
        cases o with
        | ep p => exact if_neg fun he => ho (congrArg WaitObj.ep he)
        | ntfn p => rfl
      unfold sampleBadgedLists
      rw [if_neg ho, hq]
      exact ⟨trivial, rfl, rfl⟩
  · unfold sampleBadgedLists
    split_ifs <;> decide
  · exact (mem_sampleBadgedLists.mp hx).1.trans (mem_sampleBadgedLists.mp hx').1.symm
  · rintro rfl
    exact absurd (mem_sampleBadgedLists.mp hx).2 (by decide)
  · rw [hwaits, mem_sampleBadgedLists]
    split_ifs with hm
    · exact ⟨fun hh => congrArg some hh.1.symm, fun he => ⟨(Option.some.inj he).symm, hm⟩⟩
    · exact ⟨fun hh => absurd hh.2 hm, nofun⟩
  · exact List.pairwise_of_forall fun _ _ => trivial
  · unfold sampleBadged sampleBadgedLists
    by_cases hp : p = 4096 <;> simp [hp]
  · obtain ⟨ho, hmem⟩ := mem_sampleBadgedLists.mp ht
    cases ho
    unfold sampleBadged
    dsimp only
    rw [if_pos hmem]
    rfl
  · unfold sampleBadgedLists
    exact ⟨nofun, fun hh => absurd rfl hh⟩

theorem sampleBadged_sound : SchedSound benchSysConfig [] sampleBadged := by
  refine ⟨⟨fun _ => [], SchedQueues.Empty.inv ⟨fun _ => ⟨rfl, rfl⟩, fun _ => rfl, fun _ => rfl,
    fun j => ?_, fun _ => rfl, fun _ _ => rfl⟩ fun _ => ⟨Nat.two_pow_pos 8, Nat.one_pos⟩, rfl⟩,
    fun _ => rfl, nofun⟩
  cases j <;> rfl

theorem cancel_badged_sends_exact_sample :
    ∃ s, sampleBadged.cancelBadgedSends benchSysConfig 4096 5 = .ok s ∧
      s.epQueue 4096 = ⟨32, 32⟩ ∧ s.tcbQueued 16 = true ∧ s.tcbQueued 48 = true ∧
      SendsCancelled benchSysConfig 4096 5 (fun _ _ => True) sampleBadgedLists sampleBadged s := by
  obtain ⟨-, hsend⟩ := cancel_badged_sends_exact benchSysConfig sampleBadged 4096 5 _ _ _
    sampleBadged_waitInv sampleBadged_sound
  obtain ⟨hexact, hreturns⟩ := hsend rfl
  obtain ⟨s, hs⟩ := hreturns nofun nofun
  obtain ⟨hq, h16, h48⟩ := of_run hs (P := fun s => s.epQueue 4096 = ⟨32, 32⟩ ∧
    s.tcbQueued 16 = true ∧ s.tcbQueued 48 = true) (by decide +kernel)
  exact ⟨s, hs, hq, h16, h48, hexact s hs⟩

end SeL4.Thread
