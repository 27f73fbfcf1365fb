import SeL4.Lib.Coalesce
import SeL4.Thread.WaitRun

/-!
# No signal is lost or invented

A notification is a coalescing channel (`Lib.Coalesced`) for badges under bitwise or: `sendSignal` sends
to it, and whoever receives takes all badges that have come together.

A run (`SignalRun`) records for one notification the badges that were sent and what was delivered, to
which thread: what is in the badge register of that thread when the operation that delivers is over.
It interleaves `sendSignal`, `receiveSignal`, `sendIPC` and `receiveIPC` by any threads on any objects;
`IpcOp.Spares` says that no thread that waits for a signal is sent away.

* `SignalChange` is what one operation can do to the notification, `IpcOp.signalChange` that it does
  nothing else;
* `no_signal_lost`: over every run the deliveries are the combinations of consecutive batches of what
  was sent, the rest is in the badge word, and a signal goes to the first thread of the queue.
-/

namespace SeL4.Thread

open SeL4.Lib SeL4.Object Links Function SysState

variable {cfg : SysConfig} {s s' s'' : SysState} {t n p badge : Word}

/-! ## Operations that leave notifications alone -/

/-- Notifications and their badges stay as they are. -/
structure NtfnKept (s s' : SysState) : Prop where
  state : s'.ntfnState = s.ntfnState
  msg : s'.ntfnMsgIdentifier = s.ntfnMsgIdentifier

namespace NtfnKept

theorem trans (h : NtfnKept s s') (h' : NtfnKept s' s'') : NtfnKept s s'' :=
  ⟨h'.state.trans h.state, h'.msg.trans h.msg⟩

theorem of_frame (h : IpcFrame s s') : NtfnKept s s' := ⟨by rw [h.ipc], by rw [h.ipc]⟩

theorem of_unqueues {T : List Word} (h : Unqueues T s s') : NtfnKept s s' := ⟨h.ntfnState, h.ntfnMsg⟩

theorem epAppend {st : EPState} (h : s.epAppend cfg p t st = .ok s') : NtfnKept s s' := by
  obtain ⟨r, -, h⟩ := bind_eq_ok h
  cases h
  exact ⟨rfl, rfl⟩

theorem cancelIPC (h : s.cancelIPC cfg t = .ok s') (ht : s.tsType t ≠ .blockedOnNotification) :
    NtfnKept s s' := by
  rcases cancelIPC_cases h with ⟨-, hf⟩ | ⟨hts, -⟩ | ⟨-, hf | hf⟩ | ⟨-, -, -, hf⟩
  · exact ⟨by rw [hf.ipc]; rfl, by rw [hf.ipc]; rfl⟩
  · exact absurd hts ht
  · exact of_frame hf
  · exact ⟨by rw [hf.ipc]; rfl, by rw [hf.ipc]; rfl⟩
  · exact of_frame hf

theorem message (h : MessageStep cfg t p s s') : NtfnKept s s' := by
  cases h with
  | none hi => exact ⟨by rw [hi], by rw [hi]⟩
  | paired _ hu =>
    have hd : NtfnKept s (s.epDequeue p (s.epQueue p).head) := ⟨rfl, rfl⟩
    exact hd.trans (of_unqueues hu)
  | blocks hb _ _ h =>
    obtain ⟨s1, h1, h⟩ := bind_eq_ok h
    have hf := of_frame (scheduleTCB_frame h1).ipcFrame
    exact (mk hb.ntfnState hb.ntfnMsg).trans (hf.trans (epAppend h))

end NtfnKept

/-! ## Sending and delivering -/

namespace IpcOp

/-- The operations of a run: messages and signals are sent and received, and no thread that waits for
a signal is sent away. `receiveIPC` cancels what another thread does with the reply object. -/
def Spares (cfg : SysConfig) (s : SysState) : IpcOp → Prop
  | sendIPC .. => True
  | receiveIPC _ _ _ replyCap =>
    s.tsType (s.replyTCB (replyPtrOf cfg replyCap)) ≠ .blockedOnNotification
  | sendSignal .. => True
  | receiveSignal .. => True
  | _ => False

/-- The badge that the operation sends to notification `n`. -/
def sent (n : Word) : IpcOp → List Word
  | sendSignal ntfnPtr badge => if ntfnPtr = n then [badge] else []
  | _ => []

end IpcOp

/-- The thread that a signal to `n` can be delivered to at once: the first that waits for it, or the
thread that the notification is bound to. -/
def SysState.signalled (s : SysState) (n : Word) : Word :=
  if s.ntfnState n = .waiting then (s.ntfnQueue n).head else s.ntfnBoundTCB n

namespace IpcOp

/-- What notification `n` delivers in the operation that leads from `s` to `s'`: a signal that is not
pending afterwards has been delivered, and a thread that receives has got what is not pending any
more. -/
def delivered (n : Word) (s s' : SysState) : IpcOp → List (Word × Word)
  | sendSignal ntfnPtr _ =>
    if ntfnPtr = n ∧ s'.ntfnState n ≠ .active then
      [(s.signalled n, s'.registers (s.signalled n) badgeRegister)]
    else []
  | receiveSignal thread _ _ | receiveIPC thread _ _ _ =>
    if s.ntfnState n = .active ∧ s'.ntfnState n ≠ .active then
      [(thread, s'.registers thread badgeRegister)]
    else []
  | _ => []

end IpcOp

/-- What can happen to notification `n`, with what is sent to it and what it delivers. -/
inductive SignalChange (n : Word) (s s' : SysState) : List Word → List (Word × Word) → Prop
  /-- The notification and its badges are as before. -/
  | kept (h : s'.ntfnState n = .active ↔ s.ntfnState n = .active)
      (hm : s.ntfnState n = .active → s'.ntfnMsgIdentifier n = s.ntfnMsgIdentifier n) :
      SignalChange n s s' [] []
  /-- A signal is delivered at once. -/
  | passed (r badge : Word) (h : s.ntfnState n ≠ .active) (h' : s'.ntfnState n ≠ .active) :
      SignalChange n s s' [badge] [(r, badge)]
  /-- A signal is the first that is pending. -/
  | raised (badge : Word) (h : s.ntfnState n ≠ .active) (h' : s'.ntfnState n = .active)
      (hm : s'.ntfnMsgIdentifier n = badge) : SignalChange n s s' [badge] []
  /-- A signal joins those that are pending. -/
  | joined (badge : Word) (h : s.ntfnState n = .active) (h' : s'.ntfnState n = .active)
      (hm : s'.ntfnMsgIdentifier n = s.ntfnMsgIdentifier n ||| badge) : SignalChange n s s' [badge] []
  /-- All that is pending is delivered. -/
  | taken (t : Word) (h : s.ntfnState n = .active) (h' : s'.ntfnState n ≠ .active) :
      SignalChange n s s' [] [(t, s.ntfnMsgIdentifier n)]

namespace SignalChange

theorem of_kept (h : NtfnKept s s') : SignalChange n s s' [] [] :=
  kept (by rw [h.state]) fun _ => by rw [h.msg]

/-- A thread takes what is pending, of this notification or of another one. -/
theorem receive {s1 : SysState} (hk : NtfnKept s s1) (hact : s1.ntfnState p = .active)
    (hf : IpcFrame ((s1.setRegister t badgeRegister (s1.ntfnMsgIdentifier p)).ntfnSetIdle p) s') :
    SignalChange n s s' [] (if s.ntfnState n = .active ∧ s'.ntfnState n ≠ .active then
      [(t, s'.registers t badgeRegister)] else []) := by
  rw [hk.state] at hact
  have hstate : s'.ntfnState = update s.ntfnState p .idle := by
    rw [hf.ipc, ← hk.state]
    rfl
  by_cases hp : n = p
  · subst hp
    have hidle : s'.ntfnState n ≠ .active := by
      rw [hstate, update_self]
      exact nofun
    have hreg : s'.registers t badgeRegister = s.ntfnMsgIdentifier n := by
      rw [hf.registers, ← hk.msg]
      dsimp only [ntfnSetIdle, setRegister]
      rw [update_self, update_self]
    rw [if_pos ⟨hact, hidle⟩, hreg]
    exact taken t hact hidle
  · have hn : s'.ntfnState n = s.ntfnState n := by rw [hstate, update_of_ne hp]
    rw [if_neg fun hh => hh.2 (hn.trans hh.1)]
    refine kept (by rw [hn]) fun _ => ?_
    rw [hf.ipc, ← hk.msg]
    rfl

theorem receive_kept (h : NtfnKept s s') :
    SignalChange n s s' [] (if s.ntfnState n = .active ∧ s'.ntfnState n ≠ .active then
      [(t, s'.registers t badgeRegister)] else []) := by
  rw [if_neg fun hh => hh.2 (by rw [h.state]; exact hh.1)]
  exact of_kept h

theorem receiveSignal {cap : Cap} {b : Bool} (hs : s.receiveSignal cfg t cap b = .ok s') :
    SignalChange n s s' [] ((IpcOp.receiveSignal t cap b).delivered n s s') := by
  rcases receiveSignal_cases hs with ⟨hst, -, s1, s2, h1, h2, hf⟩ | ⟨-, -, rfl⟩ | ⟨hst, hf⟩
  · -- the thread waits, so the notification is not active before and after
    have hf1 := (scheduleTCB_frame h1).ipcFrame
    obtain ⟨r, -, h2⟩ := bind_eq_ok h2
    cases h2
    have hstate : s'.ntfnState = update s.ntfnState (ntfnPtrOf cap) .waiting := by
      rw [hf.ipc]
      rw [hf1.ipc]
      rfl
    have hmsg : s'.ntfnMsgIdentifier = s.ntfnMsgIdentifier := by
      rw [hf.ipc]
      rw [hf1.ipc]
      rfl
    have hn : s'.ntfnState n = .active ↔ s.ntfnState n = .active := by
      rw [hstate, update_apply]
      split_ifs with he
      · rw [he]
        exact ⟨nofun, fun hh => absurd hh hst⟩
      · rfl
    have hnot : ¬ (s.ntfnState n = .active ∧ s'.ntfnState n ≠ .active) := fun hh => hh.2 (hn.mpr hh.1)
    dsimp only [IpcOp.delivered]
    rw [if_neg hnot]
    exact kept hn fun _ => by rw [hmsg]
  · exact receive_kept ⟨rfl, rfl⟩
  · exact receive ⟨rfl, rfl⟩ hst hf

theorem receiveIPC {cap replyCap : Cap} {b : Bool} (hs : s.receiveIPC cfg t cap b replyCap = .ok s')
    (hk : (IpcOp.receiveIPC t cap b replyCap).Spares cfg s) :
    SignalChange n s s' [] ((IpcOp.receiveIPC t cap b replyCap).delivered n s s') := by
  obtain ⟨_, ep, s1, hcancel, hs⟩ := receiveIPC_cases hs
  have hk1 : NtfnKept s s1 := by
    rcases hcancel with rfl | ⟨-, hc⟩
    · exact ⟨rfl, rfl⟩
    · exact .cancelIPC hc hk
  rcases hs with hs | ⟨s2, hf, hs⟩
  · obtain ⟨hact, hf⟩ := completeSignal_cases hs
    exact receive hk1 hact hf.ipcFrame
  · exact receive_kept (hk1.trans ((NtfnKept.of_frame hf.ipcFrame).trans (.message (receiveMessage_step hs))))

/-- A signal is delivered to a thread that takes it at once. -/
theorem pass {r : Word} (hs : s'.registers r badgeRegister = badge) (hr : s.signalled p = r)
    (hp : s.ntfnState p ≠ .active) (hp' : s'.ntfnState p ≠ .active)
    (hn : n ≠ p → s'.ntfnState n = s.ntfnState n) (hm : s'.ntfnMsgIdentifier = s.ntfnMsgIdentifier) :
    SignalChange n s s' ((IpcOp.sendSignal p badge).sent n)
      ((IpcOp.sendSignal p badge).delivered n s s') := by
  dsimp only [IpcOp.sent, IpcOp.delivered]
  by_cases he : p = n
  · subst he
    rw [if_pos rfl, if_pos ⟨rfl, hp'⟩, hr, hs]
    exact passed r badge hp hp'
  · rw [if_neg he, if_neg fun hh => he hh.1]
    exact kept (by rw [hn (Ne.symm he)]) fun _ => by rw [hm]

/-- A notification that a thread leaves is not active then. -/
theorem ntfnDequeue_not_active (h : s.ntfnState p = .waiting) :
    (s.ntfnDequeue p t).ntfnState p ≠ .active := by
  dsimp only [ntfnDequeue]
  split_ifs
  · rw [update_self]
    exact nofun
  · rw [h]
    exact nofun

theorem sendSignal (hs : s.sendSignal cfg p badge = .ok s') :
    SignalChange n s s' ((IpcOp.sendSignal p badge).sent n)
      ((IpcOp.sendSignal p badge).delivered n s s') := by
  rcases sendSignal_cases hs with ⟨hst, hb, hr, s1, hc, hf⟩ | ⟨hst, -, rfl⟩ | ⟨hst, hd, hf⟩ | ⟨hst, rfl⟩
  · -- the bound thread is taken from the endpoint that it waits for
    have hk : NtfnKept s s1 := .cancelIPC hc (by rw [hr]; exact nofun)
    have hstate : s'.ntfnState = s.ntfnState := by
      rw [hf.ipc, ← hk.state]
      rfl
    refine pass (r := s.ntfnBoundTCB p) ?_ ?_ ?_ ?_ (fun _ => by rw [hstate]) ?_
    · rw [hf.registers]
      dsimp only [setRegister]
      rw [update_self, update_self]
    · exact if_neg (by rw [hst]; exact nofun)
    · rw [hst]
      exact nofun
    · rw [hstate, hst]
      exact nofun
    · rw [hf.ipc, ← hk.msg]
      rfl
  · dsimp only [IpcOp.sent, IpcOp.delivered]
    by_cases he : p = n
    · subst he
      have hact : (s.ntfnSetActive p badge).ntfnState p = .active := update_self ..
      rw [if_pos rfl, if_neg fun hh => hh.2 hact]
      exact raised badge (by rw [hst]; exact nofun) hact (update_self ..)
    · have hother : (s.ntfnSetActive p badge).ntfnState n = s.ntfnState n := update_of_ne (.symm he) ..
      rw [if_neg he, if_neg fun hh => he hh.1]
      exact kept (by rw [hother]) fun _ => update_of_ne (.symm he) ..
  · have hstate : s'.ntfnState = (s.ntfnDequeue p (s.ntfnQueue p).head).ntfnState := by
      rw [hf.ipc]
      rfl
    refine pass (r := (s.ntfnQueue p).head) ?_ ?_ ?_ ?_ (fun hne => ?_) ?_
    · rw [hf.registers]
      dsimp only [setRegister]
      rw [update_self, update_self]
    · exact if_pos hst
    · rw [hst]
      exact nofun
    · rw [hstate]
      exact ntfnDequeue_not_active hst
    · rw [hstate]
      dsimp only [ntfnDequeue]
      split_ifs
      · rw [update_of_ne hne]
      · rfl
    · rw [hf.ipc]
      rfl
  · dsimp only [IpcOp.sent, IpcOp.delivered]
    by_cases he : p = n
    · subst he
      rw [if_pos rfl, if_neg fun hh => hh.2 hst]
      exact joined badge hst hst (update_self ..)
    · rw [if_neg he, if_neg fun hh => he hh.1]
      exact kept .rfl fun _ => update_of_ne (.symm he) ..

end SignalChange

/-- **What an operation does to a notification.** -/
theorem IpcOp.signalChange (op : IpcOp) (hk : op.Spares cfg s) (hs : op.run cfg s = .ok s') :
    SignalChange n s s' (op.sent n) (op.delivered n s s') := by
  cases op with
  | sendIPC b c badge g gr d t p => exact .of_kept (.message (sendIPC_step hs))
  | receiveIPC t cap b rc => exact .receiveIPC hs hk
  | sendSignal p badge => exact .sendSignal hs
  | receiveSignal t cap b => exact .receiveSignal hs
  | _ => exact hk.elim

/-! ## Runs -/

/-- The runs, with the badges that were sent to notification `n` and what it delivered, in order. -/
inductive SignalRun (cfg : SysConfig) (n : Word) :
    SysState → List Word → List (Word × Word) → Prop
  | init {s : SysState} (h : Quiet s) (hn : s.ntfnState n ≠ .active) : SignalRun cfg n s [] []
  | step {s s' : SysState} {sent : List Word} {delivered : List (Word × Word)} (op : IpcOp)
      (h : SignalRun cfg n s sent delivered) (hc : op.Called s) (hk : op.Spares cfg s)
      (hs : op.run cfg s = .ok s') :
      SignalRun cfg n s' (sent ++ op.sent n) (delivered ++ op.delivered n s s')
  | other {s s' : SysState} {sent : List Word} {delivered : List (Word × Word)}
      (h : SignalRun cfg n s sent delivered) (hs : WaitsKept s s')
      (hm : s'.ntfnMsgIdentifier n = s.ntfnMsgIdentifier n) : SignalRun cfg n s' sent delivered

/-- All badges of a list, together. -/
def badges (l : List Word) : Word := combine (· ||| ·) 0 l

/-- What was sent is what was delivered and the badge word of an active notification. -/
def SignalInv (n : Word) (s : SysState) (sent : List Word) (delivered : List (Word × Word)) : Prop :=
  ∃ pending, Coalesced (· ||| ·) 0 sent (delivered.map Prod.snd) pending ∧
    (s.ntfnState n = .active ↔ pending ≠ []) ∧
    (s.ntfnState n = .active → s.ntfnMsgIdentifier n = badges pending)

instance : Std.LawfulIdentity (fun a b : Word => a ||| b) 0 where
  left_id _ := BitVec.zero_or
  right_id _ := BitVec.or_zero

instance : Std.Associative (fun a b : Word => a ||| b) := ⟨BitVec.or_assoc⟩

namespace SignalInv

variable {sent : List Word} {delivered : List (Word × Word)}

/-- **An operation keeps it.** -/
theorem change {new : List Word} {got : List (Word × Word)} (h : SignalInv n s sent delivered)
    (hc : SignalChange n s s' new got) : SignalInv n s' (sent ++ new) (delivered ++ got) := by
  obtain ⟨pending, hco, hact, hmsg⟩ := h
  unfold SignalInv
  rw [List.map_append]
  cases hc with
  | kept h' hm =>
    refine ⟨pending, ?_, h'.trans hact, fun ha => ?_⟩
    · rwa [List.append_nil, List.map_nil, List.append_nil]
    · have ha := h'.mp ha
      exact (hm ha).trans (hmsg ha)
  | passed r badge hs hs' =>
    have hnil : pending = [] := by
      by_contra hne
      exact hs (hact.mpr hne)
    subst hnil
    exact ⟨[], hco.pass badge, ⟨fun hh => absurd hh hs', fun hh => absurd rfl hh⟩,
      fun hh => absurd hh hs'⟩
  | raised badge hs hs' hm =>
    have hnil : pending = [] := by
      by_contra hne
      exact hs (hact.mpr hne)
    subst hnil
    rw [List.map_nil, List.append_nil]
    refine ⟨[badge], hco.send badge, ⟨fun _ => List.cons_ne_nil _ _, fun _ => hs'⟩, fun _ => ?_⟩
    rw [hm]
    exact (combine_singleton badge).symm
  | joined badge hs hs' hm =>
    rw [List.map_nil, List.append_nil]
    refine ⟨pending ++ [badge], hco.send badge, ⟨fun _ => ?_, fun _ => hs'⟩, fun _ => ?_⟩
    · exact List.append_ne_nil_of_right_ne_nil _ (List.cons_ne_nil _ _)
    · unfold badges at hmsg ⊢
      rw [hm, hmsg hs, combine_append, combine_singleton]
  | taken t hs hs' =>
    refine ⟨[], ?_, ⟨fun hh => absurd hh hs', fun hh => absurd rfl hh⟩, fun hh => absurd hh hs'⟩
    rw [hmsg hs, List.append_nil]
    exact hco.deliver (hact.mp hs)

theorem run (h : SignalRun cfg n s sent delivered) : SignalInv n s sent delivered := by
  induction h with
  | init h hn => exact ⟨[], .start, ⟨fun hh => absurd hh hn, fun hh => absurd rfl hh⟩,
      fun hh => absurd hh hn⟩
  | step op _ _ hk hs ih => exact ih.change (op.signalChange hk hs)
  | other _ hs hm ih =>
    obtain ⟨pending, hco, hact, hmsg⟩ := ih
    refine ⟨pending, hco, ?_, ?_⟩
    · rw [hs.ntfn.1]
      exact hact
    · rw [hs.ntfn.1, hm]
      exact hmsg

end SignalInv

/-- The queues are right in such a run. -/
theorem SignalRun.ipcRun {sent : List Word} {delivered : List (Word × Word)}
    (h : SignalRun cfg n s sent delivered) : ∃ arr k, IpcRun cfg s arr k := by
  induction h with
  | init h _ => exact ⟨_, _, .init h⟩
  | step op _ hc _ hs ih =>
    obtain ⟨arr, k, ih⟩ := ih
    exact ⟨_, _, .step op ih hc hs⟩
  | other _ hs _ ih =>
    obtain ⟨arr, k, ih⟩ := ih
    exact ⟨arr, k, .other ih hs⟩

/-- The first thread of the queue takes the signal. -/
theorem WaitInv.signal_first {R : Word → Word → Prop} {l : WaitObj → List Word} {rest : List Word}
    (hl : WaitInv s.toIpcState [] R l) (hlist : l (.ntfn n) = t :: rest)
    (hs : s.sendSignal cfg n badge = .ok s') :
    (IpcOp.sendSignal n badge).delivered n s s' = [(t, badge)] ∧
      s'.tsType t = .running ∧ IsQueue 0 s'.tcbEP (s'.ntfnQueue n) rest := by
  have hwait : s.ntfnState n = .waiting :=
    (hl.ntfn_waiting n).mpr (by rw [hlist]; exact List.cons_ne_nil _ _)
  have hhead : (s.ntfnQueue n).head = t := by
    have hq := (hl.queues.isQueue (.ntfn n)).head
    rw [hlist] at hq
    exact hq
  have hq' := (hl.sendSignal hs).1.queues.isQueue (.ntfn n)
  dsimp only [WaitInv.signalLists] at hq'
  rw [hwait] at hq'
  dsimp only at hq'
  rw [update_self, hlist] at hq'
  rcases sendSignal_cases hs with ⟨hst, -⟩ | ⟨hst, -⟩ | ⟨-, -, hf⟩ | ⟨hst, -⟩
  · rw [hwait] at hst
    cases hst
  · rw [hwait] at hst
    cases hst
  · rw [hhead] at hf
    refine ⟨?_, ?_, hq'⟩
    · have hstate : s'.ntfnState n ≠ .active := by
        rw [hf.ipc]
        exact SignalChange.ntfnDequeue_not_active hwait
      have hsig : s.signalled n = t := (if_pos hwait).trans hhead
      dsimp only [IpcOp.delivered]
      rw [if_pos ⟨rfl, hstate⟩, hsig, hf.registers]
      dsimp only [setRegister]
      rw [update_self, update_self]
    · rw [hf.tsType]
      exact (setTsType_tsType ..).trans (if_pos rfl)
  · rw [hwait] at hst
    cases hst

/-- **No signal is lost or invented.** After every run, for every notification: what was sent are
consecutive non-empty batches, one for each delivery, which carries the badges of its batch together,
and then the signals that are pending, whose badges the active notification holds. So all that was
delivered and the badge word are together all that was sent. And a signal to a notification that
threads wait for is delivered to the first of its queue, which leaves the others in order. -/
theorem no_signal_lost (cfg : SysConfig) (n : Word) (s : SysState) (sent : List Word)
    (delivered : List (Word × Word)) (h : SignalRun cfg n s sent delivered) :
    (∃ (batches : List (List Word)) (pending : List Word), sent = batches.flatten ++ pending ∧
      delivered.map Prod.snd = batches.map badges ∧ (∀ l ∈ batches, l ≠ []) ∧
      (s.ntfnState n = .active ↔ pending ≠ []) ∧
      (s.ntfnState n = .active → s.ntfnMsgIdentifier n = badges pending)) ∧
    badges (delivered.map Prod.snd) |||
      (if s.ntfnState n = .active then s.ntfnMsgIdentifier n else 0) = badges sent ∧
    ∃ waiting, IsQueue 0 s.tcbEP (s.ntfnQueue n) waiting ∧ waiting.Nodup ∧
      (∀ t, t ∈ waiting ↔ s.tsType t = .blockedOnNotification ∧ s.blockingObject t = n) ∧
      ∀ t rest, waiting = t :: rest → ∀ badge s', s.sendSignal cfg n badge = .ok s' →
        (IpcOp.sendSignal n badge).delivered n s s' = [(t, badge)] ∧
        s'.tsType t = .running ∧ IsQueue 0 s'.tcbEP (s'.ntfnQueue n) rest := by
  obtain ⟨pending, hco, hact, hmsg⟩ := SignalInv.run h
  obtain ⟨arr, k, hrun⟩ := h.ipcRun
  obtain ⟨⟨l, hl⟩, -⟩ := RunInv.reach hrun
  refine ⟨?_, ?_, l (.ntfn n), hl.queues.isQueue (.ntfn n), hl.queues.nodup (.ntfn n), fun t => ?_,
    fun t rest hlist badge s' hs => ?_⟩
  · obtain ⟨batches, hsent, hdel, hne⟩ := hco
    exact ⟨batches, pending, hsent, hdel, hne, hact, hmsg⟩
  · have hword : (if s.ntfnState n = .active then s.ntfnMsgIdentifier n else 0) = badges pending := by
      split_ifs with ha
      · exact hmsg ha
      · rw [Classical.not_not.mp fun hne => ha (hact.mpr hne)]
        rfl
    rw [hword]
    exact hco.total
  · exact (hl.waits t List.not_mem_nil _).trans IpcState.waitsFor_eq_ntfn
  · exact hl.signal_first hlist hs

/-- Two signals come before a thread receives, and it takes both. -/
theorem no_signal_lost_sample :
    ∃ s, SignalRun benchSysConfig 4096 s [1, 2] [(16, 3)] ∧ badges [3] ||| 0 = badges [1, 2] := by
  have hrun : ((IpcOp.sendSignal 4096 1).run benchSysConfig sampleWait >>= fun s₁ =>
      (IpcOp.sendSignal 4096 2).run benchSysConfig s₁ >>= fun s₂ =>
      (IpcOp.receiveSignal 16 (.notification 0 true true 4096) true).run benchSysConfig s₂ >>=
        fun s₃ => .ok (decide (s₂.waitsFor 16 = none ∧ s₁.ntfnState 4096 = .active ∧
          s₂.ntfnState 4096 = .active ∧ s₃.ntfnState 4096 = .idle ∧
          s₃.registers 16 badgeRegister = 3))) = .ok true := by
    decide +kernel
  obtain ⟨s₁, h₁, s₂, h₂, hrun⟩ := bind2_eq_ok hrun
  obtain ⟨s₃, h₃, hrun⟩ := bind_eq_ok hrun
  obtain ⟨hw, ha₁, ha₂, hi, hr⟩ := of_decide_eq_true (Except.ok.inj hrun)
  have hinit : SignalRun benchSysConfig 4096 sampleWait [] [] := SignalRun.init sampleWait_quiet nofun
  have hreach := SignalRun.step (.receiveSignal 16 (.notification 0 true true 4096) true)
    (SignalRun.step (.sendSignal 4096 2) (SignalRun.step (.sendSignal 4096 1)
      hinit trivial trivial h₁)
      trivial trivial h₂) ⟨by decide, hw⟩ trivial h₃
  have hd : [] ++ (IpcOp.sendSignal 4096 1).delivered 4096 sampleWait s₁ ++
      (IpcOp.sendSignal 4096 2).delivered 4096 s₁ s₂ ++
      (IpcOp.receiveSignal 16 (.notification 0 true true 4096) true).delivered 4096 s₂ s₃ =
        [(16, 3)] := by
    dsimp only [IpcOp.delivered]
    rw [if_neg fun hh => hh.2 ha₁, if_neg fun hh => hh.2 ha₂, if_pos ⟨ha₂, by rw [hi]; exact nofun⟩, hr]
    rfl
  rw [hd] at hreach
  have h := (no_signal_lost benchSysConfig 4096 s₃ _ _ hreach).2.1
  rw [if_neg (by rw [hi]; exact nofun)] at h
  exact ⟨s₃, hreach, h⟩

end SeL4.Thread
