import SeL4.Thread.Endpoint

/-!
# What the scheduler's functions leave alone

Most functions call the scheduler along the way (`scheduleTCB`, `possibleSwitchTo`,
`rescheduleRequired`) and update refills. The former write queues and the scheduler's variables only,
which is `QueueFrame`; with the refills it is `SchedFrame`; lending a scheduling context writes
bindings as well, which is `BindFrame`. All give the new state as an update of the old one, so that any
other field of it is the old field by definition. A message transfer writes slots and what user level sees
(`TransferFrame`).

`IpcFrame` is weaker than all of these: thread states, queues of waiting threads, priorities and
registers stay. It is what is said about the functions that end a thread's waiting, such as
`cancelIPC_cases`.
-/

namespace SeL4.Thread

open SeL4.Lib SeL4.Object SysState

variable {c : Prop} {f : SysState → Checked SysState} {ts : ThreadState}

/-- Only queues and scheduler variables are written. -/
def QueueFrame (s s' : SysState) : Prop := ∃ q n, s' = { s with toSchedQueues := q, toNodeState := n }

/-- Only queues, scheduler variables and refills are written. -/
def SchedFrame (s s' : SysState) : Prop :=
  ∃ q n c, s' = { s with toSchedQueues := q, toNodeState := n, sc := c }

/-- Bindings may be written as well. -/
def BindFrame (s s' : SysState) : Prop :=
  ∃ b q n c, s' = { s with toBindState := b, toSchedQueues := q, toNodeState := n, sc := c }

variable {cfg : SysConfig} {s s' s'' : SysState} {t x : Word}

namespace QueueFrame

theorem refl (s : SysState) : QueueFrame s s := ⟨_, _, rfl⟩

theorem trans (h : QueueFrame s s') (h' : QueueFrame s' s'') : QueueFrame s s'' := by
  obtain ⟨q, n, rfl⟩ := h
  obtain ⟨q', n', rfl⟩ := h'
  exact ⟨q', n', rfl⟩

theorem sched (h : QueueFrame s s') : SchedFrame s s' := by
  obtain ⟨q, n, rfl⟩ := h
  exact ⟨q, n, s.sc, rfl⟩

theorem runIf [Decidable c]
    (h : runIf c f s = .ok s') (hf : f s = .ok s' → QueueFrame s s') : QueueFrame s s' :=
  runIf_rel (refl s) (fun _ => hf) h

end QueueFrame

namespace SchedFrame

theorem refl (s : SysState) : SchedFrame s s := ⟨_, _, _, rfl⟩

theorem trans (h : SchedFrame s s') (h' : SchedFrame s' s'') : SchedFrame s s'' := by
  obtain ⟨q, n, c, rfl⟩ := h
  obtain ⟨q', n', c', rfl⟩ := h'
  exact ⟨q', n', c', rfl⟩

theorem runIf [Decidable c]
    (h : runIf c f s = .ok s') (hf : f s = .ok s' → SchedFrame s s') : SchedFrame s s' :=
  runIf_rel (refl s) (fun _ => hf) h

end SchedFrame

namespace BindFrame

theorem refl (s : SysState) : BindFrame s s := ⟨_, _, _, _, rfl⟩

theorem trans (h : BindFrame s s') (h' : BindFrame s' s'') : BindFrame s s'' := by
  obtain ⟨b, q, n, c, rfl⟩ := h
  obtain ⟨b', q', n', c', rfl⟩ := h'
  exact ⟨b', q', n', c', rfl⟩

theorem runIf [Decidable c]
    (h : runIf c f s = .ok s') (hf : f s = .ok s' → BindFrame s s') : BindFrame s s' :=
  runIf_rel (refl s) (fun _ => hf) h

end BindFrame

theorem SchedFrame.bind (h : SchedFrame s s') : BindFrame s s' := by
  obtain ⟨q, n, c, rfl⟩ := h
  exact ⟨s.toBindState, q, n, c, rfl⟩

theorem QueueFrame.bind (h : QueueFrame s s') : BindFrame s s' := h.sched.bind

namespace SysState

/-! ## Queues and requests -/

theorem onQueues_frame {f : ThreadParams → SchedQueues → Checked SchedQueues}
    (h : s.onQueues f = .ok s') : QueueFrame s s' := by
  obtain ⟨q, -, h⟩ := bind_eq_ok h
  cases h
  exact ⟨q, _, rfl⟩

theorem tcbSchedEnqueue_frame (h : s.tcbSchedEnqueue cfg t = .ok s') : QueueFrame s s' := by
  obtain ⟨-, -, -, -, h⟩ := bind2_eq_ok h
  exact onQueues_frame h

theorem tcbSchedAppend_frame (h : s.tcbSchedAppend cfg t = .ok s') : QueueFrame s s' := by
  obtain ⟨-, -, -, -, h⟩ := bind2_eq_ok h
  obtain ⟨-, -, h⟩ := bind_eq_ok h
  exact onQueues_frame h

theorem tcbSchedDequeue_frame (h : s.tcbSchedDequeue cfg t = .ok s') : QueueFrame s s' := onQueues_frame h

theorem enqueueCandidate_frame (h : s.enqueueCandidate cfg = .ok s') : QueueFrame s s' := by
  unfold enqueueCandidate at h
  split at h
  · refine .runIf h fun h => ?_
    obtain ⟨-, -, -, -, h⟩ := bind2_eq_ok h
    exact tcbSchedEnqueue_frame h
  · cases h
    exact .refl s

theorem rescheduleRequired_frame (h : s.rescheduleRequired cfg = .ok s') : QueueFrame s s' := by
  obtain ⟨s1, h1, h⟩ := bind_eq_ok h
  cases h
  exact (enqueueCandidate_frame h1).trans ⟨_, _, rfl⟩

theorem scheduleTCB_frame (h : s.scheduleTCB cfg t = .ok s') : QueueFrame s s' :=
  .runIf h rescheduleRequired_frame

theorem setThreadState_frame (h : s.setThreadState cfg t ts = .ok s') :
    QueueFrame (s.setTsType t ts) s' :=
  scheduleTCB_frame h

theorem possibleSwitchTo_frame (h : s.possibleSwitchTo cfg t = .ok s') : QueueFrame s s' := by
  refine .runIf h fun h => ?_
  split_ifs at h with hd ha
  · exact tcbSchedEnqueue_frame h
  · obtain ⟨s1, h1, h⟩ := bind_eq_ok h
    exact (rescheduleRequired_frame h1).trans (tcbSchedEnqueue_frame h)
  · cases h
    exact ⟨_, _, rfl⟩

theorem tcbReleaseEnqueue_frame (h : s.tcbReleaseEnqueue t = .ok s') : QueueFrame s s' := by
  obtain ⟨⟨r, q⟩, -, h⟩ := bind_eq_ok h
  cases h
  exact ⟨_, _, rfl⟩

theorem postpone_frame (h : s.postpone cfg x = .ok s') : QueueFrame s s' := by
  obtain ⟨-, -, s1, h1, h⟩ := bind2_eq_ok h
  obtain ⟨s2, h2, h⟩ := bind_eq_ok h
  cases h
  exact (tcbSchedDequeue_frame h1).trans ((tcbReleaseEnqueue_frame h2).trans ⟨_, _, rfl⟩)

theorem schedContextResume_frame (h : s.schedContextResume cfg x = .ok s') : QueueFrame s s' := by
  obtain ⟨-, -, h⟩ := bind_eq_ok h
  refine .runIf h fun h => .runIf h fun h => ?_
  obtain ⟨-, -, h⟩ := bind_eq_ok h
  exact postpone_frame h

/-! ## Choosing a thread -/

theorem switchToThread_frame (h : s.switchToThread cfg t = .ok s') : QueueFrame s s' := by
  obtain ⟨-, -, -, -, h⟩ := bind2_eq_ok h
  obtain ⟨-, -, -, -, h⟩ := bind2_eq_ok h
  obtain ⟨s1, h1, h⟩ := bind_eq_ok h
  cases h
  exact (tcbSchedDequeue_frame h1).trans ⟨_, _, rfl⟩

theorem chooseThread_frame (h : s.chooseThread cfg = .ok s') : QueueFrame s s' := by
  unfold chooseThread at h
  dsimp only at h
  split_ifs at h with hne
  · obtain ⟨prio, -, idx, -, h⟩ := bind2_eq_ok h
    obtain ⟨-, -, -, -, h⟩ := bind2_eq_ok h
    obtain ⟨-, -, -, -, h⟩ := bind2_eq_ok h
    exact switchToThread_frame h
  · cases h
    exact ⟨_, _, rfl⟩

theorem scheduleChooseNewThread_frame (h : s.scheduleChooseNewThread cfg = .ok s') : QueueFrame s s' := by
  refine .trans ?_ (chooseThread_frame h)
  split_ifs
  · exact ⟨_, _, rfl⟩
  · exact .refl s

theorem scheduleCandidate_frame {b : Bool} (h : s.scheduleCandidate cfg t b = .ok s') :
    QueueFrame s s' := by
  obtain ⟨-, -, fails, -, h⟩ := bind2_eq_ok h
  split_ifs at h with hf he
  · obtain ⟨s1, h1, h⟩ := bind_eq_ok h
    have hact : QueueFrame s1 { s1 with ksSchedulerAction := .chooseNewThread } := ⟨_, _, rfl⟩
    exact (tcbSchedEnqueue_frame h1).trans (hact.trans (scheduleChooseNewThread_frame h))
  · obtain ⟨s1, h1, h⟩ := bind_eq_ok h
    have hact : QueueFrame s1 { s1 with ksSchedulerAction := .chooseNewThread } := ⟨_, _, rfl⟩
    exact (tcbSchedAppend_frame h1).trans (hact.trans (scheduleChooseNewThread_frame h))
  · obtain ⟨-, -, h⟩ := bind_eq_ok h
    exact switchToThread_frame h

theorem scheduleAction_frame (h : s.scheduleAction cfg = .ok s') : QueueFrame s s' := by
  unfold scheduleAction at h
  cases hact : s.ksSchedulerAction <;> rw [hact] at h
  case resumeCurrentThread =>
    cases h
    exact .refl s
  case switchTo c =>
    obtain ⟨s1, h1, h⟩ := bind_eq_ok h
    exact (QueueFrame.runIf h1 tcbSchedEnqueue_frame).trans (scheduleCandidate_frame h)
  case chooseNewThread =>
    obtain ⟨s1, h1, h⟩ := bind_eq_ok h
    exact (QueueFrame.runIf h1 tcbSchedEnqueue_frame).trans (scheduleChooseNewThread_frame h)

/-- On MCS `schedule` also charges time. -/
theorem schedule_frame (hm : cfg.mcs = false) (hs : s.schedule cfg = .ok s') : QueueFrame s s' := by
  unfold schedule at hs
  rw [hm, runIf_neg nofun, ok_bind] at hs
  obtain ⟨s1, h1, hs⟩ := bind_eq_ok hs
  cases hs
  exact (scheduleAction_frame h1).trans ⟨_, _, rfl⟩

theorem timerTick_frame (hs : s.timerTick cfg = .ok s') : QueueFrame s s' := by
  obtain ⟨s1, h1, hs⟩ := bind_eq_ok hs
  refine .trans (.runIf h1 fun h1 => ?_) (.runIf hs fun hs => ?_)
  · split_ifs at h1
    · cases h1
      exact ⟨_, _, rfl⟩
    · obtain ⟨s2, h2, h1⟩ := bind_eq_ok h1
      have hslice : QueueFrame s { s with
          tcbTimeSlice := Function.update s.tcbTimeSlice s.ksCurThread cfg.timeSlice } := ⟨_, _, rfl⟩
      exact hslice.trans ((tcbSchedAppend_frame h2).trans (rescheduleRequired_frame h1))
  · have htime : QueueFrame s1 { s1 with ksDomainTime := s1.ksDomainTime - 1 } := ⟨_, _, rfl⟩
    exact htime.trans (QueueFrame.runIf hs rescheduleRequired_frame)

theorem handleYield_frame (hs : s.handleYield cfg = .ok s') : QueueFrame s s' := by
  obtain ⟨s1, h1, s2, h2, hs⟩ := bind2_eq_ok hs
  exact (tcbSchedDequeue_frame h1).trans ((tcbSchedAppend_frame h2).trans (rescheduleRequired_frame hs))

/-! ## Refills and the release queue -/

theorem refillUnblockCheck_frame (h : s.refillUnblockCheck cfg x = .ok s') : SchedFrame s s' := by
  obtain ⟨c, -, h⟩ := bind_eq_ok h
  cases h
  exact ⟨_, _, _, rfl⟩

theorem unblockSporadic_frame (h : s.unblockSporadic cfg x = .ok s') : SchedFrame s s' := by
  obtain ⟨b, -, h⟩ := bind_eq_ok h
  exact .runIf h refillUnblockCheck_frame

theorem unblockSporadicOther_frame (h : s.unblockSporadicOther cfg x = .ok s') : SchedFrame s s' := by
  obtain ⟨b, -, h⟩ := bind_eq_ok h
  refine .runIf h fun h => ?_
  obtain ⟨-, -, h⟩ := bind_eq_ok h
  exact refillUnblockCheck_frame h

/-! ## Bindings -/

theorem leaveSchedContext_frame (h : s.leaveSchedContext cfg t = .ok s') : BindFrame s s' := by
  obtain ⟨s1, h1, h⟩ := bind_eq_ok h
  refine (tcbSchedDequeue_frame h1).bind.trans ?_
  exact BindFrame.trans ⟨_, _, _, _, rfl⟩ (QueueFrame.runIf h rescheduleRequired_frame).bind

theorem schedContextDonate_frame (h : s.schedContextDonate cfg x t = .ok s') : BindFrame s s' := by
  obtain ⟨-, -, -, -, h⟩ := bind2_eq_ok h
  obtain ⟨-, -, s1, h1, h⟩ := bind2_eq_ok h
  cases h
  exact (BindFrame.runIf h1 leaveSchedContext_frame).trans ⟨_, _, _, _, rfl⟩

theorem maybeReturnSchedContext_frame (h : s.maybeReturnSchedContext cfg x t = .ok s') :
    BindFrame s s' := by
  unfold maybeReturnSchedContext at h
  refine BindFrame.runIf h fun h => ?_
  exact .trans ⟨_, _, _, _, rfl⟩ (QueueFrame.runIf h rescheduleRequired_frame).bind

theorem maybeDonateSchedContext_frame (h : s.maybeDonateSchedContext cfg t x = .ok s') :
    BindFrame s s' := by
  unfold maybeDonateSchedContext at h
  refine .runIf h fun h => ?_
  obtain ⟨s1, h1, h⟩ := bind_eq_ok h
  exact (schedContextDonate_frame h1).trans (schedContextResume_frame h).bind

theorem wakeSignalled_frame (h : s.wakeSignalled cfg t x = .ok s') : BindFrame s s' := by
  unfold wakeSignalled at h
  split_ifs at h with hm
  · obtain ⟨s1, h1, s2, h2, h⟩ := bind2_eq_ok h
    refine (maybeDonateSchedContext_frame h1).trans (SchedFrame.bind ?_)
    exact (QueueFrame.runIf h2 possibleSwitchTo_frame).sched.trans (unblockSporadicOther_frame h)
  · exact (possibleSwitchTo_frame h).bind

/-! ## Transfers -/

end SysState

/-- Only slots and what user level sees are written. -/
def TransferFrame (s s' : SysState) : Prop := ∃ k u, s' = { s with toSlotState := k, toUserState := u }

namespace TransferFrame

theorem refl (s : SysState) : TransferFrame s s := ⟨_, _, rfl⟩

theorem trans (h : TransferFrame s s') (h' : TransferFrame s' s'') : TransferFrame s s'' := by
  obtain ⟨k, u, rfl⟩ := h
  obtain ⟨k', u', rfl⟩ := h'
  exact ⟨k', u', rfl⟩

end TransferFrame

namespace SysState

theorem copyRegisters_frame (sender receiver : Word) :
    ∀ (n : Nat) (s : SysState), TransferFrame s (s.copyRegisters sender receiver n)
  | 0, s => .refl s
  | n + 1, s => (copyRegisters_frame sender receiver n s).trans ⟨_, _, rfl⟩

theorem copyBuffer_frame (sendBuf recvBuf : Word) :
    ∀ (n : Nat) (s : SysState), TransferFrame s (s.copyBuffer sendBuf recvBuf n)
  | 0, s => .refl s
  | n + 1, s => (copyBuffer_frame sendBuf recvBuf n s).trans ⟨_, _, rfl⟩

theorem copyMRs_frame (sender : Word) (sendBuf : Option Word) (receiver : Word)
    (recvBuf : Option Word) (n : Nat) (s : SysState) :
    TransferFrame s (s.copyMRs sender sendBuf receiver recvBuf n).2 := by
  have hregs := copyRegisters_frame sender receiver (min n nMsgRegisters) s
  unfold copyMRs
  split
  · exact hregs.trans (copyBuffer_frame _ _ _ _)
  · exact hregs

theorem setExtraBadges_frame (buffer : Word) :
    ∀ (l : List (Nat × Word)) (s : SysState), TransferFrame s (s.setExtraBadges buffer l)
  | [], s => .refl s
  | (i, b) :: l, s =>
    .trans ⟨_, _, rfl⟩
      (setExtraBadges_frame buffer l (s.setBuffer buffer (msgMaxLength + 2 + i) b))

theorem transferCaps_frame {k : KernelConfig} {info info' : MessageInfo} {ep receiver : Word}
    {buffer : Option Word} {caps : List Word}
    (h : s.transferCaps k info ep receiver buffer caps = .ok (info', s')) : TransferFrame s s' := by
  unfold transferCaps at h
  cases buffer with
  | none =>
    cases h
    exact .refl s
  | some buffer =>
    split_ifs at h with hc
    · cases h
      exact .refl s
    · obtain ⟨⟨tr, kst⟩, -, h⟩ := bind_eq_ok h
      cases h
      exact .trans ⟨_, _, rfl⟩ (setExtraBadges_frame _ _ _)

theorem doNormalTransfer_frame {k : KernelConfig} {sender ep badge receiver : Word} {grant : Bool}
    {sendBuf recvBuf : Option Word}
    (h : s.doNormalTransfer k sender sendBuf ep badge grant receiver recvBuf = .ok s') :
    TransferFrame s s' := by
  obtain ⟨caps, -, ⟨info, s1⟩, h1, h⟩ := bind2_eq_ok h
  cases h
  exact (copyMRs_frame ..).trans ((transferCaps_frame h1).trans ⟨_, _, rfl⟩)

theorem doIPCTransfer_frame {sender ep badge receiver : Word} {grant : Bool}
    (h : s.doIPCTransfer cfg sender ep badge grant receiver = .ok s') : TransferFrame s s' := by
  unfold doIPCTransfer at h
  split_ifs at h with hf
  · exact doNormalTransfer_frame h
  · cases h
    exact ⟨_, _, rfl⟩

theorem onSlots_frame {f : KState → Checked KState} (h : s.onSlots f = .ok s') : TransferFrame s s' := by
  obtain ⟨k, -, h⟩ := bind_eq_ok h
  cases h
  exact ⟨_, _, rfl⟩

end SysState

/-! ## Waiting -/

/-- Thread states, queues of waiting threads, priorities and registers stay as they are. -/
structure IpcFrame (s s' : SysState) : Prop where
  ipc : s'.toIpcState = s.toIpcState
  params : s'.toThreadParams = s.toThreadParams
  registers : s'.registers = s.registers

namespace IpcFrame

theorem refl (s : SysState) : IpcFrame s s := ⟨rfl, rfl, rfl⟩

section

variable (h : IpcFrame s s')
include h

theorem trans (h' : IpcFrame s' s'') : IpcFrame s s'' :=
  ⟨h'.ipc.trans h.ipc, h'.params.trans h.params, h'.registers.trans h.registers⟩

omit h in
theorem runIf [Decidable c]
    (h : runIf c f s = .ok s') (hf : f s = .ok s' → IpcFrame s s') : IpcFrame s s' :=
  runIf_rel (refl s) (fun _ => hf) h

theorem setTsType (t : Word) (ts : ThreadState) :
    IpcFrame (s.setTsType t ts) (s'.setTsType t ts) :=
  ⟨by simp only [SysState.setTsType, h.ipc], h.params, h.registers⟩

theorem setRegister (t : Word) (r : Register) (v : Word) :
    IpcFrame (s.setRegister t r v) (s'.setRegister t r v) :=
  ⟨h.ipc, h.params, by simp only [SysState.setRegister, h.registers]⟩

theorem epDequeue (p t : Word) : IpcFrame (s.epDequeue p t) (s'.epDequeue p t) :=
  ⟨by simp only [SysState.epDequeue, h.ipc], h.params, h.registers⟩

theorem ntfnDequeue (p t : Word) : IpcFrame (s.ntfnDequeue p t) (s'.ntfnDequeue p t) :=
  ⟨by simp only [SysState.ntfnDequeue, h.ipc], h.params, h.registers⟩

end

/-- The state of a thread is written twice. -/
theorem setTsType_idem (s : SysState) (t : Word) (ts ts' : ThreadState) :
    (s.setTsType t ts').setTsType t ts = s.setTsType t ts := by
  unfold SysState.setTsType
  rw [Function.update_idem]

end IpcFrame

theorem BindFrame.ipcFrame (h : BindFrame s s') : IpcFrame s s' := by
  obtain ⟨b, q, n, c, rfl⟩ := h
  exact ⟨rfl, rfl, rfl⟩

theorem SchedFrame.ipcFrame (h : SchedFrame s s') : IpcFrame s s' := h.bind.ipcFrame

theorem QueueFrame.ipcFrame (h : QueueFrame s s') : IpcFrame s s' := h.bind.ipcFrame

namespace SysState

theorem setThreadState_ipc (h : s.setThreadState cfg t ts = .ok s') : IpcFrame (s.setTsType t ts) s' :=
  (setThreadState_frame h).ipcFrame

theorem setDomain_ipc {d : Nat} (hs : s.setDomain cfg t d = .ok s') : s'.toIpcState = s.toIpcState := by
  obtain ⟨s1, h1, s2, h2, hs⟩ := bind2_eq_ok hs
  have hf := ((QueueFrame.runIf h2 tcbSchedEnqueue_frame).trans
    (QueueFrame.runIf hs rescheduleRequired_frame)).ipcFrame
  exact hf.ipc.trans (tcbSchedDequeue_frame h1).ipcFrame.ipc

theorem replyUnlink_ipc (h : s.replyUnlink cfg x t = .ok s') : IpcFrame (s.setTsType t .inactive) s' := by
  obtain ⟨-, -, -, -, h⟩ := bind2_eq_ok h
  obtain ⟨-, -, h⟩ := bind_eq_ok h
  have hs := setThreadState_ipc h
  exact ⟨hs.ipc, hs.params, hs.registers⟩

/-- `reply_remove_tcb` writes reply objects and call stacks beside the state of the thread. -/
theorem replyRemoveTcb_ipc (h : s.replyRemoveTcb cfg t = .ok s') :
    IpcFrame (s.setTsType t .inactive) s' := by
  obtain ⟨-, -, h⟩ := bind_eq_ok h
  refine .trans (.setTsType ?_ t .inactive) (replyUnlink_ipc h)
  unfold unlinkReply
  split_ifs <;> exact ⟨rfl, rfl, rfl⟩

theorem unlinkReceiver_ipc (h : s.unlinkReceiver cfg t = .ok s') :
    IpcFrame (s.setTsType t .inactive) (s'.setTsType t .inactive) := by
  rcases runIf_cases h with ⟨-, h⟩ | ⟨-, rfl⟩
  · have hf := (replyUnlink_ipc h).setTsType t .inactive
    rwa [IpcFrame.setTsType_idem] at hf
  · exact .refl _

theorem cteDeleteReply_ipc (h : s.cteDeleteReply x = .ok s') : IpcFrame s s' := by
  obtain ⟨-, -, k, -, h⟩ := bind2_eq_ok h
  cases h
  exact ⟨rfl, rfl, rfl⟩

theorem replyIPCCancel_ipc (h : s.replyIPCCancel cfg t = .ok s') :
    IpcFrame s s' ∨ IpcFrame (s.setTsType t .inactive) s' := by
  unfold replyIPCCancel at h
  split_ifs at h with hm
  · exact .inr (replyRemoveTcb_ipc h)
  · have hr := IpcFrame.runIf h cteDeleteReply_ipc
    exact .inl ⟨hr.ipc, hr.params, hr.registers⟩

theorem blockedIPCCancel_ipc (h : s.blockedIPCCancel cfg t = .ok s') :
    IpcFrame ((s.epDequeue (s.blockingObject t) t).setTsType t .inactive) s' := by
  obtain ⟨-, -, s1, h1, h⟩ := bind2_eq_ok h
  refine .trans ?_ (setThreadState_ipc h)
  rcases runIf_cases h1 with ⟨-, h1⟩ | ⟨-, rfl⟩
  · exact unlinkReceiver_ipc h1
  · exact .refl _

theorem cancelSignal_ipc (h : s.cancelSignal cfg t x = .ok s') :
    IpcFrame ((s.ntfnDequeue x t).setTsType t .inactive) s' := by
  obtain ⟨-, -, h⟩ := bind_eq_ok h
  exact setThreadState_ipc h

/-- **What `cancelIPC` does to a thread's waiting.** -/
theorem cancelIPC_cases (h : s.cancelIPC cfg t = .ok s') :
    ((s.tsType t = .blockedOnSend ∨ s.tsType t = .blockedOnReceive) ∧
      IpcFrame ((s.epDequeue (s.blockingObject t) t).setTsType t .inactive) s') ∨
    (s.tsType t = .blockedOnNotification ∧
      IpcFrame ((s.ntfnDequeue (s.blockingObject t) t).setTsType t .inactive) s') ∨
    (s.tsType t = .blockedOnReply ∧ (IpcFrame s s' ∨ IpcFrame (s.setTsType t .inactive) s')) ∨
    (s.tsType t ≠ .blockedOnSend ∧ s.tsType t ≠ .blockedOnReceive ∧
      s.tsType t ≠ .blockedOnNotification ∧ IpcFrame s s') := by
  -- on MCS the fault of the thread is cleared first
  have hs0 : (if cfg.mcs then s.clearFault t else s).toIpcState = s.toIpcState := by split_ifs <;> rfl
  have hf : IpcFrame s (if cfg.mcs then s.clearFault t else s) := by split_ifs <;> exact ⟨rfl, rfl, rfl⟩
  unfold cancelIPC at h
  dsimp only at h
  generalize (if cfg.mcs then s.clearFault t else s) = s0 at h hs0 hf
  have hts : s0.tsType t = s.tsType t := by rw [hs0]
  have hbo : s0.blockingObject t = s.blockingObject t := by rw [hs0]
  rw [hts] at h
  have hep : s0.blockedIPCCancel cfg t = .ok s' →
      IpcFrame ((s.epDequeue (s.blockingObject t) t).setTsType t .inactive) s' := by
    intro h
    have hf' := blockedIPCCancel_ipc h
    rw [hbo] at hf'
    exact ((hf.epDequeue _ t).setTsType t _).trans hf'
  cases hst : s.tsType t <;> rw [hst] at h
  case blockedOnSend => exact .inl ⟨.inl rfl, hep h⟩
  case blockedOnReceive => exact .inl ⟨.inr rfl, hep h⟩
  case blockedOnNotification =>
    have hf' := cancelSignal_ipc h
    rw [hbo] at hf'
    exact .inr (.inl ⟨rfl, ((hf.ntfnDequeue _ t).setTsType t _).trans hf'⟩)
  case blockedOnReply =>
    refine .inr (.inr (.inl ⟨rfl, ?_⟩))
    rcases replyIPCCancel_ipc h with hf' | hf'
    · exact .inl (hf.trans hf')
    · exact .inr ((hf.setTsType t _).trans hf')
  all_goals
    cases h
    exact .inr (.inr (.inr ⟨by simp, by simp, by simp, hf⟩))

end SysState

end SeL4.Thread
