import SeL4.Thread.WaitOps

/-!
# Queues of waiting threads over whole runs

The operations that work on a whole queue (`cancelAllIPC`, `cancelAllSignals`, `cancelBadgedSends`) and the
one that changes a thread's place in it (`setPriority`) keep `WaitInv`, and with them every run does.

A run (`IpcRun`) numbers its steps. `arr t` is the number of the last step that could put `t` into a
queue or set its priority, so while `t` waits it is the time since which `t` has its place.

Results:
* `wait_queues_well_formed`: after every run an endpoint is idle, and a notification is not waiting,
  exactly if its queue is empty; the queue is a well-formed list of the threads whose state names
  the object, each once; and on MCS it is sorted by priority, and by `arr` among equals.
* `set_priority_moves_back`: setting the priority that a thread already has still moves it behind
  its equals.
-/

namespace SeL4.Thread

open SeL4.Lib SeL4.Object Links Function SysState IpcState

variable {cfg : SysConfig} {s s' : SysState} {t x p : Word} {X : List Word}
  {R R' : Word → Word → Prop} {l : WaitObj → List Word}

/-! ## Whole queues -/

namespace SysState

theorem restartThreadIfNoFault_unqueues (h : s.restartThreadIfNoFault cfg t = .ok s') : Stops [t] t s s' := by
  unfold restartThreadIfNoFault at h
  split_ifs at h with hf
  · obtain ⟨s1, h1, s2, h2, h⟩ := bind2_eq_ok h
    have hf := ((unblockSporadicOther_frame h2).trans (possibleSwitchTo_frame h).sched).ipcFrame
    exact Unqueues.stop h1 hf (.head _) rfl
  · exact Unqueues.stop h (.refl _) (.head _) rfl

theorem restartEnqueue_unqueues (h : s.restartEnqueue cfg t = .ok s') : Stops [t] t s s' := by
  obtain ⟨s1, h1, h⟩ := bind_eq_ok h
  exact Unqueues.stop h1 (tcbSchedEnqueue_frame h).ipcFrame (.head _) rfl

theorem cancelSend_unqueues (h : s.cancelSend cfg t = .ok s') : Stops [t] t s s' := by
  unfold cancelSend at h
  split_ifs at h with hm
  · exact restartThreadIfNoFault_unqueues h
  · exact restartEnqueue_unqueues h

theorem cancelWaiting_unqueues (h : s.cancelWaiting cfg t = .ok s') : Stops [t] t s s' := by
  unfold cancelWaiting at h
  split_ifs at h with hm
  · obtain ⟨s1, h1, h⟩ := bind_eq_ok h
    refine Unqueues.trans_stopped (.runIf h1 fun h1 => Unqueues.runIf h1 fun h1 => ?_)
      (restartThreadIfNoFault_unqueues h)
    exact replyUnlink_unqueues h1 (.head _)
  · exact restartEnqueue_unqueues h

theorem cancelWaitingSignal_unqueues (h : s.cancelWaitingSignal cfg t = .ok s') : Stops [t] t s s' := by
  obtain ⟨s1, h1, h⟩ := bind_eq_ok h
  refine Unqueues.stop h1 ?_ (.head _) rfl
  split_ifs at h with hm
  · obtain ⟨s2, h2, h⟩ := bind_eq_ok h
    exact ((unblockSporadicOther_frame h2).trans (possibleSwitchTo_frame h).sched).ipcFrame
  · exact (tcbSchedEnqueue_frame h).ipcFrame

/-- The loop over a former queue, where `J B` holds while the threads of `B` are left. -/
theorem forEachWaiting_inv {body : Word → SysState → Checked SysState} {J : List Word → SysState → Prop}
    (hbody : ∀ {t B s s'}, t ≠ 0 → J (t :: B) s → body t s = .ok s' → J B s' ∧ s'.tcbEP = s.tcbEP) :
    ∀ (B : List Word) {x : Word} {rounds : Nat} {s s' : SysState}, s.tcbEP.Chain x B 0 → 0 ∉ B → J B s →
      forEachWaiting body rounds (B.headD 0) s = .ok s' → J [] s'
  | _, _, 0, _, _, _, _, _, hs => nomatch hs
  | [], _, rounds + 1, s, s', _, _, hj, hs => by
    cases hs
    exact hj
  | t :: B, _, rounds + 1, s, s', ⟨_, hnext, hc⟩, h0, hj, hs => by
    have ht0 : t ≠ 0 := fun he => h0 (he ▸ (.head _))
    rw [forEachWaiting, List.headD_cons, if_neg ht0] at hs
    obtain ⟨s1, h1, hs⟩ := bind_eq_ok hs
    obtain ⟨hj1, hlinks⟩ := hbody ht0 hj h1
    rw [hlinks, hnext] at hs
    exact forEachWaiting_inv hbody B (hlinks ▸ hc) (List.not_mem_of_not_mem_cons h0) hj1 hs

theorem cancelAllIPC_cases (hs : s.cancelAllIPC cfg p = .ok s') : s' = s ∨
    ∃ s1, forEachWaiting (cancelWaiting cfg) loopBound (s.epQueue p).head (s.epReset p) = .ok s1 ∧
      s1.rescheduleRequired cfg = .ok s' := by
  unfold cancelAllIPC at hs
  split at hs
  · cases hs
    exact .inl rfl
  · exact .inr (bind_eq_ok hs)

end SysState

namespace WaitInv

/-- The loop over a former queue settles its threads one by one. -/
theorem forEachWaiting {body : Word → SysState → Checked SysState}
    (hbody : ∀ {t s s'}, body t s = .ok s' → Stops [t] t s s')
    {o : WaitObj} {l' : WaitObj → List Word} {rounds : Nat} {s0 s1 : SysState}
    (h : WaitInv s.toIpcState [] R l) (h0 : WaitInv s0.toIpcState (l o) R l')
    (hL : s0.tcbEP = s.tcbEP) (hp : s0.toThreadParams = s.toThreadParams)
    (h1 : forEachWaiting body rounds (s.toIpcState.queue o).head s0 = .ok s1)
    (hs : s1.rescheduleRequired cfg = .ok s') :
    WaitInv s'.toIpcState [] R l' ∧ s'.toThreadParams = s.toThreadParams := by
  obtain ⟨hchain, hhead, -⟩ := h.queues.isQueue o
  rw [hhead] at h1
  have hloop := forEachWaiting_inv
    (J := fun B s1 => WaitInv s1.toIpcState B R l' ∧ s1.toThreadParams = s.toThreadParams)
    (fun {t _ _ _} _ ⟨h, hp⟩ h1 => ?_) (l o) (hL ▸ hchain) (h.queues.null_notMem _) ⟨h0, hp⟩ h1
  · have hf := (rescheduleRequired_frame hs).ipcFrame
    exact ⟨hloop.1.of_frame hf, hf.params.trans hloop.2⟩
  · obtain ⟨hu, hst⟩ := hbody h1
    have h' := h.unqueues hu fun u hu => .inl (List.mem_singleton.mp hu ▸ (.head _))
    exact ⟨⟨h'.settled hst, hu.params.trans hp⟩, hu.links⟩

/-- **`cancelAllIPC` keeps the invariant.** -/
theorem cancelAllIPC (h : WaitInv s.toIpcState [] R l) (hs : s.cancelAllIPC cfg p = .ok s') :
    KeepsWaiting R s s' := by
  rcases cancelAllIPC_cases hs with rfl | ⟨s1, h1, hs⟩
  · exact ⟨l, h, rfl⟩
  · exact ⟨_, h.forEachWaiting cancelWaiting_unqueues (h.epReset p) rfl rfl h1 hs⟩

/-- **`cancelAllSignals` keeps the invariant.** -/
theorem cancelAllSignals (h : WaitInv s.toIpcState [] R l) (hs : s.cancelAllSignals cfg p = .ok s') :
    KeepsWaiting R s s' := by
  rcases runIf_cases hs with ⟨-, hs⟩ | ⟨-, rfl⟩
  · obtain ⟨s1, h1, hs⟩ := bind_eq_ok hs
    exact ⟨_, h.forEachWaiting cancelWaitingSignal_unqueues (h.ntfnReset p) rfl rfl h1 hs⟩
  · exact ⟨l, h, rfl⟩

end WaitInv

/-! ## Senders with a badge -/

/-- The endpoint as if the local variable `queue` of `cancelBadgedSends` were its queue. -/
def IpcState.withQueue (p : Word) (queue : TcbQueue) (i : IpcState) : IpcState :=
  { i with
    epQueue := update i.epQueue p queue
    epState := update i.epState p (if queue.head = 0 then .idle else .send) }

namespace WaitInv

/-- A thread is woken and taken out of the local queue. -/
theorem cancelSend {queue : TcbQueue} {A B : List Word}
    (h : WaitInv (s.withQueue p queue) [] R l) (hl : l (.ep p) = A ++ t :: B)
    (hc : s.cancelSend cfg t = .ok s') :
    WaitInv ({ s' with
      tcbEP := (tcbEPDequeue t queue s'.tcbEP).2 : SysState }.withQueue p
        (tcbEPDequeue t queue s'.tcbEP).1) [] R (update l (.ep p) (A ++ B)) := by
  obtain ⟨hu, hst⟩ := cancelSend_unqueues hc
  have hmem : t ∈ l (.ep p) := hl ▸ List.mem_append_cons_self
  -- the same as taking it out of the queue of the endpoint first
  let s0 : SysState := { s with toIpcState := s.withQueue p queue }
  have h0 : WaitInv s0.toIpcState [] R l := h
  have hq0 : s0.epQueue p = queue := update_self ..
  have hd := h0.epDequeue hmem
  have herase : (l (.ep p)).erase t = A ++ B := by
    rw [hl, List.erase_append_right _ (h0.queues.notMem_sides hl).1, List.erase_cons_head]
  have hne : queue.head ≠ 0 := by
    intro hh
    have hidle : s0.epState p = .idle := by
      show update s.epState p _ p = .idle
      rw [update_self, if_pos hh]
    rw [(h0.ep_idle p).mp hidle] at hmem
    exact (nomatch hmem)
  have hst0 : s0.epState = update s.epState p .send := by
    show update s.epState p _ = _
    rw [if_neg hne]
  rw [herase] at hd
  have hlinks : s'.tcbEP = s0.tcbEP := hu.links
  have hepq : s'.epQueue = s.epQueue := funext fun p' => congrFun hu.queue (.ep p')
  rw [hlinks]
  refine settle (.congr hd ?_ ?_ ?_ (fun p' => ?_) fun u hX => ?_) (waitsFor_eq_none.mpr hst)
  · show _ = (tcbEPDequeue t (s0.epQueue p) s0.tcbEP).2
    rw [hq0]
    rfl
  · funext o
    cases o with
    | ep p' =>
      show update s'.epQueue p _ p' = update (update s.epQueue p queue) p
        (tcbEPDequeue t (s0.epQueue p) s0.tcbEP).1 p'
      rw [hq0, hepq, update_idem]
    | ntfn p' => exact congrFun hu.queue (.ntfn p')
  · show update s'.epState p _ =
      if (tcbEPDequeue t (s0.epQueue p) s0.tcbEP).1.head = 0 then update s0.epState p .idle
      else s0.epState
    rw [hq0, hu.epState, hst0]
    split_ifs
    · rw [update_idem]
    · rfl
  · show s'.ntfnState p' = .waiting ↔ s.ntfnState p' = .waiting
    rw [hu.ntfnState]
  · refine .inl ⟨(hu.state u).resolve_right fun hh => hX hh.1, ?_⟩
    exact congrFun hu.object u

/-- The loop of `cancelBadgedSends`, from the thread in front of `B` on. It keeps what waking a thread
that waits keeps. -/
theorem cancelBadgedLoop {badge : Word} {J : SysState → Prop}
    (hJ : ∀ {t s s' L}, t ≠ 0 → (s.tsType t).queued = true → J s → s.cancelSend cfg t = .ok s' →
      J { s' with tcbEP := L }) :
    ∀ (B : List Word) {A : List Word} {rounds : Nat} {queue queue' : TcbQueue}
      {l : WaitObj → List Word} {s s' : SysState},
      WaitInv (s.withQueue p queue) [] R l → J s → l (.ep p) = A ++ B →
      cancelBadgedLoop cfg badge rounds (B.headD 0) queue s = .ok (queue', s') →
      (∃ l', WaitInv (s'.withQueue p queue') [] R l') ∧
        s'.toThreadParams = s.toThreadParams ∧ s'.epState = s.epState ∧ J s'
  | _, _, 0, _, _, _, _, _, _, _, _, hs => nomatch hs
  | [], A, rounds + 1, queue, queue', l, s, s', h, hj, hl, hs => by
    cases hs
    exact ⟨⟨l, h⟩, rfl, rfl, hj⟩
  | t :: B, A, rounds + 1, queue, queue', l, s, s', h, hj, hl, hs => by
    have hmem : t ∈ l (.ep p) := hl ▸ List.mem_append_cons_self
    have ht0 := h.queues.ne_null _ t hmem
    have hnext : s.tcbEP.next t = B.headD 0 := h.queues.next_eq hl
    have hqueued : (s.tsType t).queued = true := by
      rw [← Bool.not_eq_false]
      intro hnot
      exact h.notMem (waitsFor_eq_none.mpr hnot) _ hmem
    rw [SysState.cancelBadgedLoop, List.headD_cons, if_neg ht0] at hs
    obtain ⟨-, -, hs⟩ := bind_eq_ok hs
    rw [hnext] at hs
    split_ifs at hs with hb
    · obtain ⟨s1, h1, hs⟩ := bind_eq_ok hs
      obtain ⟨hu, -⟩ := cancelSend_unqueues h1
      obtain ⟨hl', hp, he, hj'⟩ := cancelBadgedLoop hJ B (h.cancelSend hl h1)
        (hJ ht0 hqueued hj h1) (update_self ..) hs
      exact ⟨hl', hp.trans hu.params, he.trans hu.epState, hj'⟩
    · refine cancelBadgedLoop hJ B h hj (A := A ++ [t]) ?_ hs
      rw [hl, List.append_assoc, List.singleton_append]

/-- The endpoint at the start of the loop is the endpoint as it was. -/
theorem withQueue_epReset (h : WaitInv s.toIpcState X R l) (hep : s.epState p = .send) :
    (s.epReset p).withQueue p (s.epQueue p) = s.toIpcState := by
  have hne : (s.epQueue p).head ≠ 0 := by
    intro hh
    have hnil := (h.ep_idle p).mpr ((h.queues.head_eq_null_iff (.ep p)).mp hh)
    rw [hep] at hnil
    exact (nomatch hnil)
  unfold withQueue SysState.epReset
  rw [if_neg hne, update_idem, update_idem, update_eq_self, ← hep, update_eq_self]

/-- The endpoint after the loop holds the local queue. -/
theorem withQueue_store {queue : TcbQueue} (hidle : s.epState p = .idle) :
    ({ s with
      epQueue := update s.epQueue p queue
      epState := if queue.head ≠ 0 then update s.epState p .send else s.epState } :
      SysState).toIpcState = s.withQueue p queue := by
  unfold withQueue
  by_cases hq : queue.head = 0
  · rw [if_neg (not_not_intro hq), if_pos hq, ← hidle, update_eq_self]
  · rw [if_pos hq, if_neg hq]

/-- **`cancelBadgedSends` keeps the invariant.** -/
theorem cancelBadgedSends {badge : Word} (h : WaitInv s.toIpcState [] R l)
    (hs : s.cancelBadgedSends cfg p badge = .ok s') : KeepsWaiting R s s' := by
  unfold SysState.cancelBadgedSends at hs
  cases hep : s.epState p <;> rw [hep] at hs
  case send =>
    obtain ⟨⟨queue, s1⟩, h1, hs⟩ := bind_eq_ok hs
    obtain ⟨-, hhead, -⟩ := h.queues.isQueue (.ep p)
    have hhead' : (s.epQueue p).head = (l (.ep p)).headD 0 := hhead
    rw [hhead'] at h1
    obtain ⟨⟨l', h'⟩, hp, he, -⟩ := cancelBadgedLoop (J := fun _ => True) (fun _ _ _ _ => trivial)
      (l (.ep p)) (A := []) ((h.withQueue_epReset hep).symm ▸ h) trivial rfl h1
    have hidle : s1.epState p = .idle := by
      rw [he]
      exact update_self ..
    rw [← withQueue_store hidle] at h'
    have hf := (rescheduleRequired_frame hs).ipcFrame
    exact ⟨l', .of_ipc h' hf.ipc, hf.params.trans hp⟩
  all_goals
    cases hs
    exact ⟨l, h, rfl⟩

/-! ## Priorities -/

theorem setTcbPriority_frame {v : Nat} (h : IpcFrame s s') :
    IpcFrame (s.setTcbPriority t v) (s'.setTcbPriority t v) :=
  ⟨h.ipc, by simp only [setTcbPriority, h.params], h.registers⟩

/-- Another order, where the one thread that it is different at is in no queue. -/
theorem reorder_moved {i : IpcState} {X : List Word} (h : WaitInv i (t :: X) R l)
    (hR : ∀ a b, a ≠ t → b ≠ t → R a b → R' a b) : WaitInv i (t :: X) R' l :=
  h.reorder fun o a ha b hb => hR a b (fun he => h.apart t (.head _) o (he ▸ ha))
    fun he => h.apart t (.head _) o (he ▸ hb)

theorem reorderEP_eq (s : SysState) (p t : Word) :
    s.reorderEP cfg p t = (s.epDequeue p t).epAppend cfg p t (s.epState p) := by
  have hq : (s.epDequeue p t).epQueue = update s.epQueue p (tcbEPDequeue t (s.epQueue p) s.tcbEP).1 := rfl
  simp only [reorderEP, SysState.epAppend, hq, epState_epDequeue, update_self, update_idem,
    update_eq_self]
  rfl

theorem reorderNTFN_eq (t : Word) (hw : s.ntfnState p = .waiting) :
    s.reorderNTFN cfg p t = (s.ntfnDequeue p t).ntfnAppend cfg p t := by
  have hq : (s.ntfnDequeue p t).ntfnQueue = update s.ntfnQueue p (tcbEPDequeue t (s.ntfnQueue p) s.tcbEP).1 :=
    rfl
  simp only [reorderNTFN, SysState.ntfnAppend, hq, ntfnState_ntfnDequeue, update_self, update_idem,
    ← hw, update_eq_self]
  rfl

variable (h : WaitInv s.toIpcState [] R l) (hR : ∀ a b, a ≠ t → b ≠ t → R a b → R' a b)
include h hR

/-- A thread leaves its queue and joins it again, under another order. -/
theorem reorderEP (hw : s.waitsFor t = some (.ep p)) (hadm : Admits cfg s.tcbPriority R' t)
    (hs : s.reorderEP cfg p t = .ok s') : KeepsWaiting R' s s' := by
  have hmem : t ∈ l (.ep p) := (h.waits t List.not_mem_nil _).mpr hw
  have ht0 := h.queues.ne_null _ t hmem
  have hd := (h.epDequeue hmem).reorder_moved hR
  have hep : (s.epDequeue p t).epState p = .idle ∨ (s.epDequeue p t).epState p = s.epState p := by
    rw [epState_epDequeue, update_self]
    exact ite_eq_or_eq ..
  rw [reorderEP_eq] at hs
  obtain ⟨m, h', hp⟩ := hd.epAppend ht0 hw (h.kind p t hmem) hep hadm hs
  exact ⟨_, h', hp⟩

/-- The same for the queue of a notification. -/
theorem reorderNTFN (hw : s.waitsFor t = some (.ntfn p)) (hadm : Admits cfg s.tcbPriority R' t)
    (hs : s.reorderNTFN cfg p t = .ok s') : KeepsWaiting R' s s' := by
  have hmem : t ∈ l (.ntfn p) := (h.waits t List.not_mem_nil _).mpr hw
  have ht0 := h.queues.ne_null _ t hmem
  have hwait : s.ntfnState p = .waiting := (h.ntfn_waiting p).mpr (List.ne_nil_of_mem hmem)
  have hd := (h.ntfnDequeue hmem).reorder_moved hR
  rw [reorderNTFN_eq t hwait] at hs
  obtain ⟨m, h', hp⟩ := hd.ntfnAppend ht0 hw hadm hs
  exact ⟨_, h', hp⟩

/-- The order changes at a thread that is in no queue. -/
theorem reorder_of_waitsFor (ht : s.waitsFor t = none) : WaitInv s.toIpcState [] R' l := by
  refine h.reorder fun o a ha b hb => hR a b ?_ ?_
  · exact fun he => h.notMem ht o (he ▸ ha)
  · exact fun he => h.notMem ht o (he ▸ hb)

/-- **`setPriority` keeps the invariant**, under the order that the new priority gives. -/
theorem setPriority {v : Nat} (hR0 : cfg.mcs = false → ∀ a b, R' a b)
    (hadm : Admits cfg (update s.tcbPriority t v) R' t) (hs : s.setPriority cfg t v = .ok s') :
    KeepsWaiting R' (s.setTcbPriority t v) s' := by
  unfold SysState.setPriority at hs
  cases hm : cfg.mcs <;> rw [hm] at hs
  · -- without MCS the queues of waiting threads are not sorted
    obtain ⟨s1, h1, hs⟩ := bind_eq_ok hs
    have hf1 := (tcbSchedDequeue_frame h1).ipcFrame
    have hf : IpcFrame (s1.setTcbPriority t v) s' := by
      refine .runIf hs fun hs => ?_
      split_ifs at hs with hcur
      · exact (rescheduleRequired_frame hs).ipcFrame
      · exact (possibleSwitchTo_frame hs).ipcFrame
    have hf := (setTcbPriority_frame hf1).trans hf
    exact ⟨l, (h.reorder fun _ a _ b _ _ => hR0 hm a b).of_ipc hf.ipc, hf.params⟩
  · have hnone : (s.tsType t).queued = false → IpcFrame (s.setTcbPriority t v) s' →
        KeepsWaiting R' (s.setTcbPriority t v) s' := fun hq hf =>
      ⟨l, (h.reorder_of_waitsFor hR (waitsFor_eq_none.mpr hq)).of_ipc hf.ipc, hf.params⟩
    have hrun : (s.tsType t).queued = false →
        (if s.tcbQueued t ∨ t = s.ksCurThread then do
          let s ← s.tcbSchedDequeue cfg t
          let s := s.setTcbPriority t v
          let s ← s.tcbSchedEnqueue cfg t
          s.rescheduleRequired cfg
        else .ok (s.setTcbPriority t v)) = .ok s' → KeepsWaiting R' (s.setTcbPriority t v) s' := by
      intro hq hs
      split_ifs at hs with hc
      · obtain ⟨s1, h1, s2, h2, hs⟩ := bind2_eq_ok hs
        have hf1 := (tcbSchedDequeue_frame h1).ipcFrame
        have hf2 := ((tcbSchedEnqueue_frame h2).trans (rescheduleRequired_frame hs)).ipcFrame
        exact hnone hq ((setTcbPriority_frame hf1).trans hf2)
      · cases hs
        exact hnone hq (.refl _)
    have hep : s.waitsFor t = some (.ep (s.blockingObject t)) →
        (s.setTcbPriority t v).reorderEP cfg (s.blockingObject t) t = .ok s' →
        KeepsWaiting R' (s.setTcbPriority t v) s' := fun hw => reorderEP h hR hw hadm
    cases hst : s.tsType t <;> rw [hst] at hs hrun hnone
    case running => exact hrun rfl hs
    case restart => exact hrun rfl hs
    case blockedOnReceive => exact hep (waitsFor_eq_ep.mpr ⟨.inr hst, rfl⟩) hs
    case blockedOnSend => exact hep (waitsFor_eq_ep.mpr ⟨.inl hst, rfl⟩) hs
    case blockedOnNotification =>
      exact reorderNTFN h hR (waitsFor_eq_ntfn.mpr ⟨hst, rfl⟩) hadm hs
    all_goals
      cases hs
      exact hnone rfl (.refl _)

end WaitInv

/-! ## Runs -/

/-- An operation on queues of waiting threads. -/
inductive IpcOp
  | sendIPC (blocking doCall : Bool) (badge : Word) (canGrant canGrantReply canDonate : Bool)
      (thread epptr : Word)
  | receiveIPC (thread : Word) (cap : Cap) (isBlocking : Bool) (replyCap : Cap)
  | sendSignal (ntfnPtr badge : Word)
  | receiveSignal (thread : Word) (cap : Cap) (isBlocking : Bool)
  | cancelIPC (tptr : Word)
  | cancelSignal (threadPtr ntfnPtr : Word)
  | cancelAllIPC (epptr : Word)
  | cancelAllSignals (ntfnPtr : Word)
  | cancelBadgedSends (epptr badge : Word)
  | setPriority (tptr : Word) (prio : Nat)

namespace IpcOp

/-- The operation runs. -/
def run (cfg : SysConfig) : IpcOp → SysState → Checked SysState
  | sendIPC b c badge g gr d thread epptr => SysState.sendIPC cfg b c badge g gr d thread epptr
  | receiveIPC thread cap b replyCap => SysState.receiveIPC cfg thread cap b replyCap
  | sendSignal ntfnPtr badge => SysState.sendSignal cfg ntfnPtr badge
  | receiveSignal thread cap b => SysState.receiveSignal cfg thread cap b
  | cancelIPC tptr => SysState.cancelIPC cfg tptr
  | cancelSignal threadPtr ntfnPtr => SysState.cancelSignal cfg threadPtr ntfnPtr
  | cancelAllIPC epptr => SysState.cancelAllIPC cfg epptr
  | cancelAllSignals ntfnPtr => SysState.cancelAllSignals cfg ntfnPtr
  | cancelBadgedSends epptr badge => SysState.cancelBadgedSends cfg epptr badge
  | setPriority tptr prio => SysState.setPriority cfg tptr prio

/-- The thread that the operation may give a place in a queue. -/
def placed : IpcOp → Option Word
  | sendIPC _ _ _ _ _ _ thread _ => some thread
  | receiveIPC thread _ _ _ => some thread
  | receiveSignal thread _ _ => some thread
  | setPriority tptr _ => some tptr
  | _ => none

/-- When the operation is called: a thread that sends or receives is not waiting already, and
`cancelSignal` is called for a thread that waits for the notification. -/
def Called (s : SysState) : IpcOp → Prop
  | sendIPC _ _ _ _ _ _ thread _ => thread ≠ 0 ∧ s.waitsFor thread = none
  | receiveIPC thread _ _ _ => thread ≠ 0 ∧ s.waitsFor thread = none
  | receiveSignal thread _ _ => thread ≠ 0 ∧ s.waitsFor thread = none
  | cancelSignal threadPtr ntfnPtr => s.waitsFor threadPtr = some (.ntfn ntfnPtr)
  | _ => True

end IpcOp

/-- No thread waits, and all queues are empty. -/
structure Quiet (s : SysState) : Prop where
  waits : ∀ t, s.waitsFor t = none
  ep : ∀ p, s.epState p = .idle ∧ s.epQueue p = ⟨0, 0⟩
  ntfn : ∀ p, s.ntfnState p ≠ .waiting ∧ s.ntfnQueue p = ⟨0, 0⟩

/-- Other activity of the kernel: threads that wait, and what they wait for, stay as they are. -/
structure WaitsKept (s s' : SysState) : Prop where
  links : s'.tcbEP = s.tcbEP
  ep : s'.epState = s.epState ∧ s'.epQueue = s.epQueue
  ntfn : s'.ntfnState = s.ntfnState ∧ s'.ntfnQueue = s.ntfnQueue
  waits : ∀ t, s'.waitsFor t = s.waitsFor t
  params : ∀ t, s.waitsFor t ≠ none → s'.tsType t = s.tsType t ∧ s'.tcbPriority t = s.tcbPriority t

/-- The runs, with the number of the next step and for each thread the number of the step that gave it
its place. -/
inductive IpcRun (cfg : SysConfig) : SysState → (Word → Nat) → Nat → Prop
  | init {s : SysState} (h : Quiet s) : IpcRun cfg s (fun _ => 0) 1
  | step {s s' : SysState} {arr : Word → Nat} {n : Nat} (op : IpcOp) (h : IpcRun cfg s arr n)
      (hc : op.Called s) (hs : op.run cfg s = .ok s') :
      IpcRun cfg s' (op.placed.elim arr fun t => update arr t n) (n + 1)
  | other {s s' : SysState} {arr : Word → Nat} {n : Nat} (h : IpcRun cfg s arr n)
      (hs : WaitsKept s s') : IpcRun cfg s' arr n

/-- The order of a queue on MCS: higher priorities first, then first come first served. -/
def queueOrder (cfg : SysConfig) (prio arr : Word → Nat) (a b : Word) : Prop :=
  cfg.mcs = true → prio b ≤ prio a ∧ (prio a = prio b → arr a < arr b)

/-- A thread that comes last fits where `tcbEPAppend` puts it. -/
theorem queueOrder_admits {prio arr : Word → Nat} (hlast : ∀ u ≠ t, arr u < arr t) :
    Admits cfg prio (queueOrder cfg prio arr) t := by
  intro A B hsorted hmem hp
  refine ⟨fun a ha hm => ?_, fun b hb hm => ?_⟩
  · have hat : a ≠ t := fun he => hmem (he ▸ List.mem_append_left B ha)
    refine ⟨?_, fun _ => hlast a hat⟩
    -- the last thread of `A` has at least the priority of `t`, and the others have no less
    rcases List.eq_nil_or_concat A with rfl | ⟨A', z, rfl⟩
    · exact (nomatch ha)
    · rw [List.concat_eq_append] at *
      have hz := hp.notLower hm z List.getLast?_concat
      rcases List.mem_append.mp ha with ha | ha
      · have haz := (List.pairwise_append.mp (List.pairwise_append.mp hsorted).1).2.2 a ha z (.head _)
        exact hz.trans (haz hm).1
      · rw [List.mem_singleton.mp ha]
        exact hz
  · have hlt := hp.lower b hb
    exact ⟨hlt.le, fun he => absurd he.symm hlt.ne⟩

/-- What a run keeps. -/
def RunInv (cfg : SysConfig) (s : SysState) (arr : Word → Nat) (n : Nat) : Prop :=
  (∃ l, WaitInv s.toIpcState [] (queueOrder cfg s.tcbPriority arr) l) ∧ ∀ u, arr u < n

namespace RunInv

variable {arr : Word → Nat} {n : Nat}

theorem init (h : Quiet s) : RunInv cfg s (fun _ => 0) 1 := by
  refine ⟨⟨fun _ => [], ⟨⟨fun o => ?_, fun _ => List.nodup_nil, nofun,
    nofun⟩, fun t _ o => ?_, nofun,
    fun _ => List.Pairwise.nil⟩, fun p => ?_, nofun, fun p => ?_⟩,
    fun _ => Nat.one_pos⟩
  · have hq : s.toIpcState.queue o = ⟨0, 0⟩ := by
      cases o with
      | ep p => exact (h.ep p).2
      | ntfn p => exact (h.ntfn p).2
    rw [hq]
    exact ⟨trivial, rfl, rfl⟩
  · rw [h.waits t]
    exact ⟨nofun, nofun⟩
  · exact ⟨fun _ => rfl, fun _ => (h.ep p).1⟩
  · exact ⟨fun he => absurd he (h.ntfn p).1, fun hh => absurd rfl hh⟩

section

variable (h : RunInv cfg s arr n)
include h

/-- The next number is given to a thread that is in no queue. -/
theorem fresh (ht : s.waitsFor t = none) :
    ∃ l, WaitInv s.toIpcState [] (queueOrder cfg s.tcbPriority (update arr t n)) l := by
  obtain ⟨⟨l, hl⟩, -⟩ := h
  refine ⟨l, hl.reorder_of_waitsFor (fun a b ha hb hab hm => ?_) ht⟩
  rw [update_of_ne ha, update_of_ne hb]
  exact hab hm

theorem admits (prio : Word → Nat) :
    Admits cfg prio (queueOrder cfg prio (update arr t n)) t := by
  refine queueOrder_admits fun u hu => ?_
  rw [update_of_ne hu, update_self]
  exact h.2 u

theorem next {prio : Word → Nat} {arr' : Word → Nat}
    (harr : ∀ u, arr' u = arr u ∨ arr' u = n) (hp : s'.tcbPriority = prio)
    (hl : ∃ l, WaitInv s'.toIpcState [] (queueOrder cfg prio arr') l) : RunInv cfg s' arr' (n + 1) := by
  refine ⟨hp ▸ hl, fun u => ?_⟩
  rcases harr u with hu | hu
  · rw [hu]
    exact (h.2 u).trans (Nat.lt_succ_self n)
  · rw [hu]
    exact Nat.lt_succ_self n

omit h in
theorem update_cases (t u : Word) : update arr t n u = arr u ∨ update arr t n u = n := by
  rw [update_apply]
  split_ifs
  · exact .inr rfl
  · exact .inl rfl

omit h in
/-- **Every operation keeps the queues right.** -/
theorem step (op : IpcOp) (h : RunInv cfg s arr n) (hc : op.Called s) (hs : op.run cfg s = .ok s') :
    RunInv cfg s' (op.placed.elim arr fun t => update arr t n) (n + 1) := by
  obtain ⟨⟨l, hl⟩, -⟩ := id h
  have hkept : ∀ arr', (∀ u, arr' u = arr u ∨ arr' u = n) →
      KeepsWaiting (queueOrder cfg s.tcbPriority arr') s s' → RunInv cfg s' arr' (n + 1) := by
    rintro arr' harr ⟨l', h', hp⟩
    exact h.next harr (by rw [hp]) ⟨l', h'⟩
  have hplaced := fun t => hkept _ (update_cases t)
  have hkept := hkept arr fun _ => .inl rfl
  cases op with
  | sendIPC b c badge g gr d t p =>
    obtain ⟨l1, h1⟩ := h.fresh hc.2
    exact hplaced t (h1.message hc.1 hc.2 (h.admits _) (sendIPC_step hs))
  | receiveIPC t cap b rc =>
    obtain ⟨l1, h1⟩ := h.fresh hc.2
    exact hplaced t (h1.receiveIPC hc.1 hc.2 (h.admits _) hs)
  | receiveSignal t cap b =>
    obtain ⟨l1, h1⟩ := h.fresh hc.2
    obtain ⟨l', h', hp, -⟩ := h1.receiveSignal hc.1 hc.2 (h.admits _) hs
    exact hplaced t ⟨l', h', hp⟩
  | sendSignal p badge => exact hkept ⟨_, hl.sendSignal hs⟩
  | cancelIPC t =>
    obtain ⟨h', hp, -⟩ := hl.cancelIPC hs
    exact hkept ⟨_, h', hp⟩
  | cancelSignal t p =>
    have hf := cancelSignal_ipc hs
    have hmem : t ∈ l (.ntfn p) := (hl.waits t List.not_mem_nil _).mpr hc
    exact hkept ⟨_, ((hl.ntfnDequeue hmem).release .inactive rfl).of_ipc hf.ipc, hf.params⟩
  | cancelAllIPC p => exact hkept (hl.cancelAllIPC hs)
  | cancelAllSignals p => exact hkept (hl.cancelAllSignals hs)
  | cancelBadgedSends p badge => exact hkept (hl.cancelBadgedSends hs)
  | setPriority t v =>
    obtain ⟨l', h', hp⟩ := hl.setPriority
      (fun a b ha hb hab hm => by
        rw [update_of_ne ha, update_of_ne hb, update_of_ne ha, update_of_ne hb]
        exact hab hm)
      (fun hm a b hm' => by rw [hm] at hm'; cases hm') (h.admits _) hs
    exact h.next (update_cases t) (by rw [hp]; rfl) ⟨l', h'⟩

theorem other (hs : WaitsKept s s') : RunInv cfg s' arr n := by
  obtain ⟨⟨l, hl⟩, hn⟩ := h
  have hq : s'.toIpcState.queue = s.toIpcState.queue := by
    funext o
    cases o with
    | ep p => exact congrFun hs.ep.2 p
    | ntfn p => exact congrFun hs.ntfn.2 p
  have hmem : ∀ o, ∀ t ∈ l o, s.waitsFor t ≠ none := by
    intro o t ht he
    exact hl.notMem he o ht
  have hlists : WaitLists s'.tcbEP s'.toIpcState.queue s'.toIpcState.waitsFor []
      (queueOrder cfg s'.tcbPriority arr) l := by
    rw [hs.links, hq]
    refine (hl.toWaitLists.congr fun t _ => hs.waits t).reorder fun o a ha b hb hab hm => ?_
    rw [(hs.params a (hmem o a ha)).2, (hs.params b (hmem o b hb)).2]
    exact hab hm
  refine ⟨⟨l, hlists, fun p => ?_, fun p t ht => ?_, fun p => ?_⟩, hn⟩
  · rw [hs.ep.1]
    exact hl.ep_idle p
  · rw [hs.ep.1, (hs.params t (hmem _ t ht)).1]
    exact hl.kind p t ht
  · rw [hs.ntfn.1]
    exact hl.ntfn_waiting p

end

theorem reach (h : IpcRun cfg s arr n) : RunInv cfg s arr n := by
  induction h with
  | init h => exact init h
  | step op _ hc hs ih => exact ih.step op hc hs
  | other _ hs ih => exact ih.other hs

end RunInv

/-- What is right about the queues, for the lists `l` that they hold. -/
structure WaitQueuesOk (cfg : SysConfig) (s : SysState) (arr : Word → Nat)
    (l : WaitObj → List Word) : Prop where
  /-- Each queue is a doubly linked list with no thread twice. -/
  list : ∀ o, IsQueue 0 s.tcbEP (s.toIpcState.queue o) (l o) ∧ (l o).Nodup
  /-- An endpoint is idle exactly if its queue is empty. -/
  idle : ∀ p, s.epState p = .idle ↔ l (.ep p) = []
  idle_head : ∀ p, s.epState p = .idle ↔ (s.epQueue p).head = 0
  /-- Otherwise its queue holds the threads that wait for it, all on one side. -/
  send : ∀ p, s.epState p = .send → ∀ t,
    t ∈ l (.ep p) ↔ s.tsType t = .blockedOnSend ∧ s.blockingObject t = p
  recv : ∀ p, s.epState p = .recv → ∀ t,
    t ∈ l (.ep p) ↔ s.tsType t = .blockedOnReceive ∧ s.blockingObject t = p
  waiting : ∀ p, s.ntfnState p = .waiting ↔ l (.ntfn p) ≠ []
  signal : ∀ p t, t ∈ l (.ntfn p) ↔ s.tsType t = .blockedOnNotification ∧ s.blockingObject t = p
  /-- Higher priorities come first, and among equals who has been in place longer. -/
  sorted : cfg.mcs = true → ∀ o, (l o).Pairwise fun a b =>
    s.tcbPriority b ≤ s.tcbPriority a ∧ (s.tcbPriority a = s.tcbPriority b → arr a < arr b)

/-- **The queues of endpoints and notifications are right** after every run of the operations on
them. -/
theorem wait_queues_well_formed (cfg : SysConfig) (s : SysState) (arr : Word → Nat) (n : Nat)
    (h : IpcRun cfg s arr n) : ∃ l, WaitQueuesOk cfg s arr l := by
  obtain ⟨⟨l, hl⟩, -⟩ := RunInv.reach h
  have hwaits := fun t => hl.waits t List.not_mem_nil
  refine ⟨l, fun o => ⟨hl.queues.isQueue o, hl.queues.nodup o⟩, hl.ep_idle, fun p => ?_,
    fun p hp t => ?_, fun p hp t => ?_, hl.ntfn_waiting, fun p t => ?_, fun hm o => ?_⟩
  · exact (hl.ep_idle p).trans (hl.queues.head_eq_null_iff (.ep p)).symm
  · refine ⟨fun ht => ?_, fun ht => ?_⟩
    · have hk := hl.kind p t ht
      rw [hp] at hk
      have hts : s.tsType t = .blockedOnSend := (Option.some.inj hk).symm
      exact ⟨hts, (waitsFor_eq_ep.mp ((hwaits t _).mp ht)).2⟩
    · exact (hwaits t _).mpr (waitsFor_eq_ep.mpr ⟨.inl ht.1, ht.2⟩)
  · refine ⟨fun ht => ?_, fun ht => ?_⟩
    · have hk := hl.kind p t ht
      rw [hp] at hk
      have hts : s.tsType t = .blockedOnReceive := (Option.some.inj hk).symm
      exact ⟨hts, (waitsFor_eq_ep.mp ((hwaits t _).mp ht)).2⟩
    · exact (hwaits t _).mpr (waitsFor_eq_ep.mpr ⟨.inr ht.1, ht.2⟩)
  · exact (hwaits t _).trans waitsFor_eq_ntfn
  · exact (hl.sorted o).imp fun hab => hab hm

/-- Threads 16 and 32 of priority 100 and thread 48 of priority 200. -/
def sampleWait : SysState :=
  { zero with
    tsType := fun _ => .running
    tcbPriority := fun t => if t = 48 then 200 else 100 }

theorem sampleWait_quiet : Quiet sampleWait := ⟨fun _ => rfl, fun _ => ⟨rfl, rfl⟩, fun _ => ⟨nofun, rfl⟩⟩

/-- A blocking send to endpoint 4096. -/
def sampleSend (t : Word) : IpcOp := .sendIPC true false 7 false false false t 4096

/-- Two threads of priority 100 wait in the order in which they came. -/
theorem sampleWait_run : ∃ s1 s2, (sampleSend 16).run mcsSysConfig sampleWait = .ok s1 ∧
    (sampleSend 32).run mcsSysConfig s1 = .ok s2 ∧ s1.waitsFor 32 = none ∧
    s2.waitsFor 48 = none ∧ s2.epQueue 4096 = ⟨16, 32⟩ ∧ s2.tcbPriority 16 = 100 ∧
    s2.tcbPriority 32 = 100 ∧
    ((sampleSend 48).run mcsSysConfig s2 >>= fun s => .ok (s.epQueue 4096)) = .ok ⟨48, 32⟩ ∧
    ((IpcOp.setPriority 16 100).run mcsSysConfig s2 >>= fun s =>
      .ok (s.epQueue 4096, s.tcbPriority 16, s.tcbPriority 32)) = .ok (⟨32, 16⟩, 100, 100) :=
  exists_of_run (by decide +kernel)

theorem wait_queues_well_formed_sample :
    ∃ s arr n l, IpcRun mcsSysConfig s arr n ∧ s.epQueue 4096 = ⟨48, 32⟩ ∧
      WaitQueuesOk mcsSysConfig s arr l := by
  obtain ⟨s₁, s₂, h₁, h₂, hw₁, hw₂, -, -, -, hrun, -⟩ := sampleWait_run
  obtain ⟨s₃, h₃, hq⟩ := bind_eq_ok hrun
  have hreach := IpcRun.step (sampleSend 48) (.step (sampleSend 32)
    (.step (sampleSend 16) (.init sampleWait_quiet) ⟨by decide, rfl⟩ h₁)
    ⟨by decide, hw₁⟩ h₂) ⟨by decide, hw₂⟩ h₃
  obtain ⟨l, hl⟩ := wait_queues_well_formed mcsSysConfig s₃ _ _ hreach
  exact ⟨s₃, _, _, l, hreach, Except.ok.inj hq, hl⟩

/-- **A thread is moved behind its equals by a priority that it already has.** Thread 16 has come
before thread 32 and no priority has changed, but 32 is in front at the end. -/
theorem set_priority_moves_back : ∃ s s' arr n, IpcRun mcsSysConfig s arr n ∧ arr 16 < arr 32 ∧
      s.epQueue 4096 = ⟨16, 32⟩ ∧ (IpcOp.setPriority 16 100).run mcsSysConfig s = .ok s' ∧
      s.tcbPriority 16 = 100 ∧ s.tcbPriority 32 = 100 ∧ s'.tcbPriority 16 = 100 ∧
      s'.tcbPriority 32 = 100 ∧ s'.epQueue 4096 = ⟨32, 16⟩ := by
  obtain ⟨s₁, s₂, h₁, h₂, hw₁, -, hq, hp, hp', -, hrun⟩ := sampleWait_run
  obtain ⟨s₃, h₃, hq'⟩ := bind_eq_ok hrun
  have hq' := Except.ok.inj hq'
  have hreach := IpcRun.step (sampleSend 32)
    (.step (sampleSend 16) (.init sampleWait_quiet) ⟨by decide, rfl⟩ h₁)
    ⟨by decide, hw₁⟩ h₂
  refine ⟨s₂, s₃, _, _, hreach, ?_, hq, h₃, hp, hp', congrArg (·.2.1) hq', congrArg (·.2.2) hq',
    congrArg (·.1) hq'⟩
  decide

end SeL4.Thread
