import SeL4.Thread.WaitInv

/-!
# The operations keep threads where they wait

Each operation on endpoints and notifications keeps `WaitInv`. What an operation does to the threads
it wakes or stops is `Unqueues`: their states become ones in which a thread is in no queue, and
queues stay as they are.

* `WaitInv.cancelIPC`, `WaitInv.cancelAllIPC`, `WaitInv.cancelAllSignals`, `WaitInv.cancelBadgedSends`;
* `WaitInv.message`, `WaitInv.receiveIPC`, `WaitInv.sendSignal`, `WaitInv.receiveSignal`;
* `WaitInv.setPriority`, which puts a waiting thread in its new place on MCS.
-/

namespace SeL4.Thread

open SeL4.Lib SeL4.Object Links Function SysState IpcState

variable {cfg : SysConfig} {s s' s'' : SysState} {t x p : Word} {T X : List Word}
  {R : Word → Word → Prop} {l : WaitObj → List Word}

variable {ts : ThreadState} {c b : Bool} {badge : Word} {cap : Cap}

/-! ## Threads that stop waiting -/

/-- The threads of `T` may get a state in which they are in no queue. -/
structure Unqueues (T : List Word) (s s' : SysState) : Prop where
  links : s'.tcbEP = s.tcbEP
  queue : s'.toIpcState.queue = s.toIpcState.queue
  epState : s'.epState = s.epState
  ntfnState : s'.ntfnState = s.ntfnState
  ntfnMsg : s'.ntfnMsgIdentifier = s.ntfnMsgIdentifier
  object : s'.blockingObject = s.blockingObject
  params : s'.toThreadParams = s.toThreadParams
  state : ∀ u, s'.tsType u = s.tsType u ∨ u ∈ T ∧ (s'.tsType u).queued = false

namespace Unqueues

theorem trans (h : Unqueues T s s') (h' : Unqueues T s' s'') : Unqueues T s s'' := by
  refine ⟨h'.links.trans h.links, h'.queue.trans h.queue, h'.epState.trans h.epState,
    h'.ntfnState.trans h.ntfnState, h'.ntfnMsg.trans h.ntfnMsg, h'.object.trans h.object,
    h'.params.trans h.params, fun u => ?_⟩
  rcases h'.state u with hu | hu
  · rw [hu]
    exact h.state u
  · exact .inr hu

theorem of_ipc (h : s'.toIpcState = s.toIpcState) (hp : s'.toThreadParams = s.toThreadParams) :
    Unqueues T s s' :=
  ⟨by rw [h], by rw [h], by rw [h], by rw [h], by rw [h], by rw [h], hp, fun u => .inl (by rw [h])⟩

theorem refl (s : SysState) : Unqueues T s s := of_ipc rfl rfl

theorem of_frame (h : IpcFrame s s') : Unqueues T s s' := of_ipc h.ipc h.params

theorem of_transfer (h : TransferFrame s s') : Unqueues T s s' := by
  obtain ⟨k, u, rfl⟩ := h
  exact of_ipc rfl rfl

theorem setTsType (s : SysState) (ht : t ∈ T) (hts : ts.queued = false) :
    Unqueues T s (s.setTsType t ts) := by
  refine ⟨rfl, rfl, rfl, rfl, rfl, rfl, rfl, fun u => ?_⟩
  rw [setTsType_tsType]
  split_ifs with hu
  · exact .inr ⟨hu ▸ ht, hts⟩
  · exact .inl rfl

theorem setThreadState (h : s.setThreadState cfg t ts = .ok s') (ht : t ∈ T)
    (hts : ts.queued = false) : Unqueues T s s' :=
  (setTsType s ht hts).trans (of_frame (setThreadState_ipc h))

theorem runIf {c : Prop} [Decidable c] {f : SysState → Checked SysState}
    (h : runIf c f s = .ok s') (hf : f s = .ok s' → Unqueues T s s') : Unqueues T s s' :=
  runIf_rel (refl s) (fun _ => hf) h

end Unqueues

/-- At the end `t` has such a state. -/
structure Stops (T : List Word) (t : Word) (s s' : SysState) : Prop extends Unqueues T s s' where
  stopped : (s'.tsType t).queued = false

theorem tsType_of_setThreadState (h : s.setThreadState cfg t ts = .ok s') : s'.tsType t = ts := by
  have hipc := congrArg (fun i : IpcState => i.tsType t) (setThreadState_ipc h).ipc
  exact hipc.trans ((setTsType_tsType t t ts s).trans (if_pos rfl))

theorem IpcFrame.tsType (h : IpcFrame s s') (u : Word) : s'.tsType u = s.tsType u := by
  rw [h.ipc]

/-- A thread gets a state in which it is in no queue, and keeps it. -/
theorem Unqueues.stop {s1 : SysState} (h : s.setThreadState cfg t ts = .ok s1)
    (hf : IpcFrame s1 s') (ht : t ∈ T) (hts : ts.queued = false) : Stops T t s s' := by
  refine ⟨(setThreadState h ht hts).trans (of_frame hf), ?_⟩
  rw [hf.tsType, tsType_of_setThreadState h, hts]

theorem Unqueues.trans_stopped (h : Unqueues T s s') (h' : Stops T t s' s'') : Stops T t s s'' :=
  ⟨h.trans h'.toUnqueues, h'.stopped⟩

namespace SysState

theorem replyUnlink_unqueues (h : s.replyUnlink cfg x t = .ok s') (ht : t ∈ T) : Unqueues T s s' :=
  (Unqueues.setTsType s ht rfl).trans (.of_frame (replyUnlink_ipc h))

theorem setThreadStateBlockedOnReply_unqueues
    (h : s.setThreadStateBlockedOnReply cfg t x = .ok s') (ht : t ∈ T) : Stops T t s s' := by
  have hf := (scheduleTCB_frame h).ipcFrame
  have hset : Unqueues T s (s.setTsType t .blockedOnReply) := .setTsType s ht rfl
  have hset' : Unqueues T s { s.setTsType t .blockedOnReply with
      replyObject := update s.replyObject t x } :=
    ⟨hset.links, hset.queue, hset.epState, hset.ntfnState, hset.ntfnMsg, hset.object, hset.params,
      hset.state⟩
  refine ⟨hset'.trans (.of_frame hf), ?_⟩
  rw [hf.tsType]
  exact congrArg ThreadState.queued ((setTsType_tsType t t .blockedOnReply s).trans (if_pos rfl))

theorem pushReply_ipc (s : SysState) (x r : Word) : IpcFrame s (s.pushReply x r) := by
  unfold pushReply
  dsimp only
  split_ifs <;> exact ⟨rfl, rfl, rfl⟩

variable {r : Word} {d : Bool}

/-- `reply_push` stops the caller. -/
theorem replyPush_unqueues {callee : Word} (h : s.replyPush cfg t callee r d = .ok s') (ht : t ∈ T) :
    Stops T t s s' := by
  obtain ⟨-, -, -, -, h⟩ := bind2_eq_ok h
  obtain ⟨-, -, -, -, h⟩ := bind2_eq_ok h
  obtain ⟨-, -, -, -, h⟩ := bind2_eq_ok h
  obtain ⟨-, -, s1, h1, h⟩ := bind2_eq_ok h
  obtain ⟨hu, hst⟩ := setThreadStateBlockedOnReply_unqueues h1 ht
  have hf : IpcFrame s1 s' := .runIf h fun h => by
    obtain ⟨-, -, h⟩ := bind_eq_ok h
    exact (pushReply_ipc s1 _ r).trans (schedContextDonate_frame h).ipcFrame
  have hu' : Unqueues T s s1 := by
    refine .trans ?_ hu
    exact .of_ipc rfl rfl
  refine ⟨hu'.trans (.of_frame hf), ?_⟩
  rw [hf.tsType, hst]

variable {g : Bool}

/-- `setupCallerCap` stops the sender. -/
theorem setupCallerCap_unqueues {receiver : Word}
    (h : s.setupCallerCap cfg t receiver g = .ok s') (ht : t ∈ T) : Stops T t s s' := by
  obtain ⟨s1, h1, -, -, h⟩ := bind2_eq_ok h
  obtain ⟨-, -, h⟩ := bind_eq_ok h
  obtain ⟨hu, hst⟩ := Unqueues.stop h1 (.refl _) ht rfl
  obtain ⟨k, u, rfl⟩ := onSlots_frame h
  exact ⟨hu.trans (.of_ipc rfl rfl), hst⟩

/-! ## The two ends of a message -/

variable {gr : Bool} {dest : Word}

theorem sendHandover_unqueues
    (h : s.sendHandover cfg d g gr c t dest r = .ok s') (ht : t ∈ T) : Unqueues T s s' := by
  unfold sendHandover at h
  split_ifs at h with hd hr
  · exact (replyPush_unqueues h ht).toUnqueues
  · exact .setThreadState h ht rfl
  · exact .of_frame (BindFrame.runIf h schedContextDonate_frame).ipcFrame

theorem sendDonate_unqueues
    (h : s.sendDonate cfg d g gr c t dest = .ok s') (ht : t ∈ T) (hd : dest ∈ T) : Stops T dest s s' := by
  obtain ⟨s1, h1, s2, h2, h⟩ := bind2_eq_ok h
  obtain ⟨-, -, -, -, h⟩ := bind2_eq_ok h
  obtain ⟨s3, h3, s4, h4, h⟩ := bind2_eq_ok h
  have hf := ((unblockSporadic_frame h4).trans (possibleSwitchTo_frame h).sched).ipcFrame
  have hu := (Unqueues.runIf h1 fun h1 => replyUnlink_unqueues h1 hd).trans (sendHandover_unqueues h2 ht)
  exact hu.trans_stopped (Unqueues.stop h3 hf hd rfl)

theorem sendReplyCap_unqueues (h : s.sendReplyCap cfg d g gr t dest = .ok s') (ht : t ∈ T) (hd : dest ∈ T) :
    Stops T dest s s' := by
  obtain ⟨s1, h1, s2, h2, h⟩ := bind2_eq_ok h
  obtain ⟨hu1, hst1⟩ := Unqueues.stop h1 (possibleSwitchTo_frame h2).ipcFrame hd rfl
  have hu2 : Unqueues T s2 s' := by
    refine .runIf h fun h => ?_
    split_ifs at h with hg
    · exact (setupCallerCap_unqueues h ht).toUnqueues
    · exact .setThreadState h ht rfl
  refine ⟨hu1.trans hu2, ?_⟩
  rcases hu2.state dest with hst | ⟨-, hst⟩
  · rw [hst, hst1]
  · exact hst

theorem receiveDonate_unqueues {thread : Word}
    (h : s.receiveDonate cfg d g gr t thread r = .ok s') (ht : t ∈ T) : Stops T t s s' := by
  obtain ⟨s1, h1, h⟩ := bind_eq_ok h
  have hu1 : Unqueues T s s1 := .of_frame (unblockSporadicOther_frame h1).ipcFrame
  refine hu1.trans_stopped ?_
  split_ifs at h with hd hr
  · exact replyPush_unqueues h ht
  · exact Unqueues.stop h (.refl _) ht rfl
  · obtain ⟨s2, h2, s3, h3, h⟩ := bind2_eq_ok h
    obtain ⟨-, -, h⟩ := bind_eq_ok h
    cases h
    exact Unqueues.stop h2 (possibleSwitchTo_frame h3).ipcFrame ht rfl

theorem receiveReplyCap_unqueues {cg : Bool} {thread : Word}
    (h : s.receiveReplyCap cfg d g gr t thread cg = .ok s') (ht : t ∈ T) : Stops T t s s' := by
  unfold receiveReplyCap at h
  split_ifs at h with hd hg
  · exact setupCallerCap_unqueues h ht
  · exact Unqueues.stop h (.refl _) ht rfl
  · obtain ⟨s1, h1, h⟩ := bind_eq_ok h
    exact Unqueues.stop h1 (possibleSwitchTo_frame h).ipcFrame ht rfl

end SysState

/-! ## Waiting and waking -/

/-- The lists after `t` has left the queue that it is in. -/
def leaveQueue (i : IpcState) (t : Word) (l : WaitObj → List Word) : WaitObj → List Word :=
  match i.waitsFor t with
  | none => l
  | some o => update l o ((l o).erase t)

/-- `t` does not wait any more, and other threads wait as before. -/
structure Released (t : Word) (s s' : SysState) : Prop where
  params : s'.toThreadParams = s.toThreadParams
  waits : s'.waitsFor t = none
  others : ∀ u ≠ t, s'.tsType u = s.tsType u ∧ s'.blockingObject u = s.blockingObject u

theorem Released.of_stop {s1 : SysState} (hf : IpcFrame (s1.setTsType t .inactive) s')
    (hp : s1.toThreadParams = s.toThreadParams) (hst : s1.tsType = s.tsType)
    (hob : s1.blockingObject = s.blockingObject) : Released t s s' := by
  refine ⟨hf.params.trans hp, ?_, fun u hu => ⟨?_, ?_⟩⟩
  · rw [waitsFor_eq_none, hf.tsType, setTsType_tsType, if_pos rfl]
    rfl
  · rw [hf.tsType, setTsType_tsType, if_neg hu, hst]
  · rw [hf.ipc, ← hob]
    rfl

/-- The thread `t` waits for the object `p`, but is in no queue yet. -/
structure Blocks (ts : ThreadState) (t p : Word) (s s' : SysState) : Prop where
  links : s'.tcbEP = s.tcbEP
  queue : s'.toIpcState.queue = s.toIpcState.queue
  epState : s'.epState = s.epState
  ntfnState : s'.ntfnState = s.ntfnState
  ntfnMsg : s'.ntfnMsgIdentifier = s.ntfnMsgIdentifier
  params : s'.toThreadParams = s.toThreadParams
  tsType : s'.tsType = update s.tsType t ts
  object : s'.blockingObject = update s.blockingObject t p

/-- **What a message does** for the thread that sends or receives: nothing, a partner is found at the head
of the queue, or the thread joins the queue. -/
inductive MessageStep (cfg : SysConfig) (t p : Word) (s s' : SysState) : Prop
  | none (hi : s'.toIpcState = s.toIpcState) (hp : s'.toThreadParams = s.toThreadParams)
  | paired (hd0 : (s.epQueue p).head ≠ 0)
      (hu : Unqueues [t, (s.epQueue p).head] (s.epDequeue p (s.epQueue p).head) s')
      (hst : (s'.tsType (s.epQueue p).head).queued = false)
  | blocks {s0 : SysState} {st : EPState} {ts : ThreadState} (hb : Blocks ts t p s s0)
      (hts : st.blocked = some ts) (hep : s.epState p = .idle ∨ s.epState p = st)
      (hs : (do
        let s ← s0.scheduleTCB cfg t
        s.epAppend cfg p t st) = .ok s')

theorem SysState.sendIPC_step {b c g gr d : Bool}
    (hs : s.sendIPC cfg b c badge g gr d t p = .ok s') : MessageStep cfg t p s s' := by
  have hb : Blocks .blockedOnSend t p s (s.blockOnSend t p badge g gr c) :=
    ⟨rfl, rfl, rfl, rfl, rfl, rfl, rfl, rfl⟩
  unfold sendIPC at hs
  cases hep : s.epState p <;> rw [hep] at hs
  case recv =>
    obtain ⟨_, hd0, s1, h1, hs⟩ := bind2_eq_ok hs
    have hT := List.mem_cons_of_mem t (List.mem_singleton.mpr (rfl : (s.epQueue p).head = _))
    obtain ⟨hu, hst⟩ : Stops [t, (s.epQueue p).head] (s.epQueue p).head s1 s' := by
      split_ifs at hs with hm
      · exact sendDonate_unqueues hs (.head _) hT
      · exact sendReplyCap_unqueues hs (.head _) hT
    exact .paired (bne_iff_ne.mp (require_cases hd0))
      ((Unqueues.of_transfer (doIPCTransfer_frame h1)).trans hu) hst
  all_goals
    rcases runIf_cases hs with ⟨-, hs⟩ | ⟨-, rfl⟩
    · refine .blocks hb rfl ?_ hs
      rw [hep]
      simp only [true_or, or_true]
    · exact .none rfl rfl

theorem SysState.receiveMessage_step {g b : Bool} {r : Word}
    (hs : s.receiveMessage cfg t p g b r = .ok s') : MessageStep cfg t p s s' := by
  have hb : Blocks .blockedOnReceive t p s (s.blockOnReceive cfg t p r g) := by
    unfold blockOnReceive
    split_ifs <;> exact ⟨rfl, rfl, rfl, rfl, rfl, rfl, rfl, rfl⟩
  unfold receiveMessage at hs
  cases hep : s.epState p <;> rw [hep] at hs <;> dsimp only at hs
  case send =>
    obtain ⟨_, hd0, s1, h1, hs⟩ := bind2_eq_ok hs
    have hT := List.mem_cons_of_mem t (List.mem_singleton.mpr (rfl : (s.epQueue p).head = _))
    obtain ⟨hu, hst⟩ : Stops [t, (s.epQueue p).head] (s.epQueue p).head s1 s' := by
      split_ifs at hs with hm
      · exact receiveDonate_unqueues hs hT
      · exact receiveReplyCap_unqueues hs hT
    exact .paired (bne_iff_ne.mp (require_cases hd0))
      ((Unqueues.of_transfer (doIPCTransfer_frame h1)).trans hu) hst
  all_goals
    split_ifs at hs
    · refine .blocks hb rfl ?_ hs
      rw [hep]
      simp only [true_or, or_true]
    · cases hs
      exact .none rfl rfl

namespace WaitInv

section

variable (h : WaitInv s.toIpcState X R l)
include h

theorem unqueues (hu : Unqueues T s s')
    (hT : ∀ t ∈ T, t ∈ X ∨ s.waitsFor t = none) : WaitInv s'.toIpcState X R l := by
  refine h.congr hu.links hu.queue hu.epState (fun p => by rw [hu.ntfnState]) fun u hX => ?_
  rcases hu.state u with hst | ⟨huT, hst⟩
  · exact .inl ⟨hst, congrFun hu.object u⟩
  · exact .inr ⟨(hT u huT).resolve_left hX, waitsFor_eq_none.mpr hst⟩

theorem of_ipc (hi : s'.toIpcState = s.toIpcState) :
    WaitInv s'.toIpcState X R l := hi ▸ h

omit h in
/-- A thread that left its queue ends in a state in which it is in none. -/
theorem settled (h : WaitInv s.toIpcState (t :: X) R l) (ht : (s.tsType t).queued = false) :
    WaitInv s.toIpcState X R l :=
  h.settle (waitsFor_eq_none.mpr ht)

/-- The thread at the head of a queue. -/
theorem head_mem {o : WaitObj}
    (ht : (s.toIpcState.queue o).head ≠ 0) : (s.toIpcState.queue o).head ∈ l o := by
  obtain ⟨B, hB⟩ := h.queues.exists_cons ht
  rw [hB]
  exact .head _

omit h in
/-- **`cancelIPC` takes the thread out of its queue.** -/
theorem cancelIPC (h : WaitInv s.toIpcState [] R l) (hc : s.cancelIPC cfg t = .ok s') :
    WaitInv s'.toIpcState [] R (leaveQueue s.toIpcState t l) ∧ Released t s s' := by
  have hwaits := h.waits t List.not_mem_nil
  unfold leaveQueue
  have hsame : (s.tsType t).queued = false → IpcFrame s s' → Released t s s' := fun hq hf =>
    ⟨hf.params, waitsFor_eq_none.mpr (by rw [hf.tsType, hq]), fun u _ => ⟨hf.tsType u, by rw [hf.ipc]⟩⟩
  rcases cancelIPC_cases hc with ⟨hts, hf⟩ | ⟨hts, hf⟩ | ⟨hts, hf⟩ | ⟨h1, h2, h3, hf⟩
  · have hw : s.waitsFor t = some (.ep (s.blockingObject t)) := waitsFor_eq_ep.mpr ⟨hts, rfl⟩
    rw [hw]
    have h' := (h.epDequeue ((hwaits _).mpr hw)).release .inactive rfl
    exact ⟨h'.of_ipc hf.ipc, .of_stop hf rfl rfl rfl⟩
  · have hw : s.waitsFor t = some (.ntfn (s.blockingObject t)) := waitsFor_eq_ntfn.mpr ⟨hts, rfl⟩
    rw [hw]
    have h' := (h.ntfnDequeue ((hwaits _).mpr hw)).release .inactive rfl
    exact ⟨h'.of_ipc hf.ipc, .of_stop hf rfl rfl rfl⟩
  · have hq : (s.tsType t).queued = false := by
      rw [hts]
      rfl
    have hw := waitsFor_eq_none.mpr hq
    rw [hw]
    rcases hf with hf | hf
    · exact ⟨h.of_ipc hf.ipc, hsame hq hf⟩
    · exact ⟨(h.setTsType hw .inactive rfl).of_ipc hf.ipc, .of_stop hf rfl rfl rfl⟩
  · have hq : (s.tsType t).queued = false := by
      cases hst : s.tsType t <;> first | rfl | contradiction
    rw [waitsFor_eq_none.mpr hq]
    exact ⟨h.of_ipc hf.ipc, hsame hq hf⟩

omit h in
theorem blocks (h : WaitInv s.toIpcState [] R l) (ht : s.waitsFor t = none)
    (hb : Blocks ts t p s s') : WaitInv s'.toIpcState [t] R l := by
  refine (h.exempt ht).congr hb.links hb.queue hb.epState (fun p => by rw [hb.ntfnState])
    fun u hu => .inl ⟨?_, ?_⟩
  · rw [hb.tsType, update_of_ne (List.ne_of_not_mem_cons hu)]
  · rw [hb.object, update_of_ne (List.ne_of_not_mem_cons hu)]

omit h in
/-- **Messages keep the invariant**, for a thread that is in no queue. -/
theorem message (h : WaitInv s.toIpcState [] R l) (ht0 : t ≠ 0) (ht : s.waitsFor t = none)
    (hR : Admits cfg s.tcbPriority R t) (hs : MessageStep cfg t p s s') : KeepsWaiting R s s' := by
  cases hs with
  | none hi hp => exact ⟨l, h.of_ipc hi, hp⟩
  | paired hd0 hu hst =>
    have hmem : (s.epQueue p).head ∈ l (.ep p) := h.head_mem hd0
    refine ⟨_, ((h.epDequeue hmem).unqueues hu fun u huT => ?_).settled hst, hu.params⟩
    rcases List.mem_cons.mp huT with rfl | huT
    · exact .inr ht
    · exact .inl huT
  | @blocks s0 st ts hb hts hep hs =>
    obtain ⟨s1, h1, hs⟩ := bind_eq_ok hs
    have hf := (scheduleTCB_frame h1).ipcFrame
    have h0 := h.blocks ht hb
    have hst : s0.tsType t = ts := by rw [hb.tsType, update_self]
    have hw : s0.waitsFor t = some (.ep p) := by
      refine waitsFor_eq_ep.mpr ⟨?_, by rw [hb.object, update_self]⟩
      rw [hst]
      cases st <;> cases hts
      · exact .inl rfl
      · exact .inr rfl
    obtain ⟨m, h', hp⟩ := (h0.of_ipc hf.ipc).epAppend ht0 (by rw [hf.ipc]; exact hw)
      (by rw [hf.tsType, hst]; exact hts) (by rw [hf.ipc, hb.epState]; exact hep)
      (by rw [hf.params, hb.params]; exact hR) hs
    exact ⟨_, h', hp.trans (hf.params.trans hb.params)⟩

/-- `completeSignal`, `maybeReturnSchedContext` and the wakeup after a signal leave queues alone. -/
theorem of_frame (hf : IpcFrame s s') : WaitInv s'.toIpcState X R l :=
  h.of_ipc hf.ipc

/-- A notification that no thread waits for changes between idle and active. -/
theorem ntfnUpdate (st : NtfnState) (hst : st ≠ .waiting)
    (hp : s.ntfnState p ≠ .waiting) {i : IpcState}
    (hi : i = { s.toIpcState with
      ntfnState := update s.ntfnState p st, ntfnMsgIdentifier := i.ntfnMsgIdentifier }) :
    WaitInv i X R l := by
  rw [hi]
  refine h.congr rfl (funext fun o => by cases o <;> rfl) rfl (fun p' => ?_) fun _ _ => .inl ⟨rfl, rfl⟩
  dsimp only
  rw [update_apply]
  split_ifs with he
  · rw [he]
    exact ⟨fun hh => absurd hh hst, fun hh => absurd hh hp⟩
  · rfl

end

end WaitInv

/-! ## Signals -/

namespace SysState

/-- `completeSignal`: the badges are delivered and the notification becomes idle. -/
theorem completeSignal_cases (h : s.completeSignal cfg x t = .ok s') : s.ntfnState x = .active ∧
      BindFrame ((s.setRegister t badgeRegister (s.ntfnMsgIdentifier x)).ntfnSetIdle x) s' := by
  obtain ⟨_, hreq, h⟩ := bind_eq_ok h
  have hreq := require_cases hreq
  rw [Bool.and_eq_true, beq_iff_eq] at hreq
  refine ⟨hreq.2, .runIf h fun h => ?_⟩
  obtain ⟨s1, h1, b, -, h⟩ := bind2_eq_ok h
  exact (maybeDonateSchedContext_frame h1).trans (SchedFrame.runIf h refillUnblockCheck_frame).bind

/-- **What `sendSignal` does.** -/
theorem sendSignal_cases (h : s.sendSignal cfg x badge = .ok s') :
    (s.ntfnState x = .idle ∧ s.ntfnBoundTCB x ≠ 0 ∧
      s.tsType (s.ntfnBoundTCB x) = .blockedOnReceive ∧
      ∃ s1, s.cancelIPC cfg (s.ntfnBoundTCB x) = .ok s1 ∧
        IpcFrame ((s1.setTsType (s.ntfnBoundTCB x) .running).setRegister (s.ntfnBoundTCB x)
          badgeRegister badge) s') ∨
    (s.ntfnState x = .idle ∧
      ¬ (s.ntfnBoundTCB x ≠ 0 ∧ s.tsType (s.ntfnBoundTCB x) = .blockedOnReceive) ∧
      s' = s.ntfnSetActive x badge) ∨
    (s.ntfnState x = .waiting ∧ (s.ntfnQueue x).head ≠ 0 ∧
      IpcFrame (((s.ntfnDequeue x (s.ntfnQueue x).head).setTsType (s.ntfnQueue x).head
        .running).setRegister (s.ntfnQueue x).head badgeRegister badge) s') ∨
    (s.ntfnState x = .active ∧
      s' = { s with
        ntfnMsgIdentifier := update s.ntfnMsgIdentifier x
          (s.ntfnMsgIdentifier x ||| badge) }) := by
  unfold sendSignal at h
  cases hst : s.ntfnState x <;> rw [hst] at h <;> dsimp only at h
  case idle =>
    split_ifs at h with hb
    · obtain ⟨s1, h1, s2, h2, h⟩ := bind2_eq_ok h
      refine .inl ⟨rfl, hb.1, hb.2, s1, h1, ?_⟩
      exact ((setThreadState_ipc h2).setRegister _ _ _).trans (wakeSignalled_frame h).ipcFrame
    · cases h
      exact .inr (.inl ⟨rfl, hb, rfl⟩)
  case waiting =>
    obtain ⟨_, hd, s2, h2, h⟩ := bind2_eq_ok h
    refine .inr (.inr (.inl ⟨rfl, bne_iff_ne.mp (require_cases hd), ?_⟩))
    exact ((setThreadState_ipc h2).setRegister _ _ _).trans (wakeSignalled_frame h).ipcFrame
  case active =>
    cases h
    exact .inr (.inr (.inr ⟨rfl, rfl⟩))

/-- **What `receiveSignal` does.** -/
theorem receiveSignal_cases (h : s.receiveSignal cfg t cap b = .ok s') :
    (s.ntfnState (ntfnPtrOf cap) ≠ .active ∧ b = true ∧
      ∃ s1 s2, (s.blockOnNtfn t (ntfnPtrOf cap)).scheduleTCB cfg t = .ok s1 ∧
        s1.ntfnAppend cfg (ntfnPtrOf cap) t = .ok s2 ∧ IpcFrame s2 s') ∨
    (s.ntfnState (ntfnPtrOf cap) ≠ .active ∧ b = false ∧ s' = s.doNBRecvFailedTransfer t) ∨
    (s.ntfnState (ntfnPtrOf cap) = .active ∧
      IpcFrame ((s.setRegister t badgeRegister (s.ntfnMsgIdentifier (ntfnPtrOf cap))).ntfnSetIdle
        (ntfnPtrOf cap)) s') := by
  unfold receiveSignal at h
  dsimp only at h
  cases hst : s.ntfnState (ntfnPtrOf cap) <;> rw [hst] at h
  case active =>
    refine .inr (.inr ⟨rfl, BindFrame.ipcFrame (.runIf h fun h => ?_)⟩)
    obtain ⟨s1, h1, h⟩ := bind_eq_ok h
    refine (maybeDonateSchedContext_frame h1).trans (SchedFrame.bind (SchedFrame.runIf h fun h => ?_))
    obtain ⟨c, -, h⟩ := bind_eq_ok h
    exact SchedFrame.runIf h refillUnblockCheck_frame
  all_goals
    split_ifs at h with hb
    · obtain ⟨s1, h1, s2, h2, h⟩ := bind2_eq_ok h
      exact .inl ⟨by simp, hb, s1, s2, h1, h2, (BindFrame.runIf h maybeReturnSchedContext_frame).ipcFrame⟩
    · cases h
      exact .inr (.inl ⟨by simp, Bool.not_eq_true _ ▸ hb, rfl⟩)

/-- **What `receiveIPC` does**, by what it finds: a pending signal or the endpoint. -/
theorem receiveIPC_cases {cap replyCap : Cap} (h : s.receiveIPC cfg t cap b replyCap = .ok s') :
    ∃ g ep s1, (s1 = s ∨ (s.replyTCB (replyPtrOf cfg replyCap) ≠ t ∧
        s.cancelIPC cfg (s.replyTCB (replyPtrOf cfg replyCap)) = .ok s1)) ∧
      (s1.completeSignal cfg (s1.tcbBoundNotification t) t = .ok s' ∨
        ∃ s2, BindFrame s1 s2 ∧ s2.receiveMessage cfg t ep g b (replyPtrOf cfg replyCap) = .ok s') := by
  unfold receiveIPC at h
  split at h
  · rename_i _ _ g _ _ ep
    obtain ⟨s1, h1, h⟩ := bind_eq_ok h
    refine ⟨g, ep, s1, ?_, ?_⟩
    · rcases runIf_cases h1 with ⟨hc, h1⟩ | ⟨-, rfl⟩
      · exact .inr ⟨hc.2.2, h1⟩
      · exact .inl rfl
    · dsimp only at h
      split_ifs at h with hn
      · exact .inl h
      · obtain ⟨s2, h2, h⟩ := bind_eq_ok h
        exact .inr ⟨s2, .runIf h2 maybeReturnSchedContext_frame, h⟩
  · cases h

end SysState

namespace WaitInv

section

variable (h : WaitInv s.toIpcState [] R l)
include h

/-- **`receiveIPC` keeps the invariant**, called for a thread that is in no queue. -/
theorem receiveIPC {cap replyCap : Cap} (ht0 : t ≠ 0)
    (ht : s.waitsFor t = none) (hR : Admits cfg s.tcbPriority R t)
    (hs : s.receiveIPC cfg t cap b replyCap = .ok s') : KeepsWaiting R s s' := by
  obtain ⟨g, ep, s1, hcancel, hs⟩ := receiveIPC_cases hs
  -- the thread that waits with the same reply object is sent away first
  obtain ⟨l1, h1, hp1, ht1⟩ : ∃ l1, WaitInv s1.toIpcState [] R l1 ∧
      s1.toThreadParams = s.toThreadParams ∧ s1.waitsFor t = none := by
    rcases hcancel with rfl | ⟨hne, hc⟩
    · exact ⟨l, h, rfl, ht⟩
    · obtain ⟨h1, hp1, -, hothers⟩ := h.cancelIPC hc
      obtain ⟨hst, hob⟩ := hothers t hne.symm
      exact ⟨_, h1, hp1, (waitsFor_congr hst hob).trans ht⟩
  unfold KeepsWaiting
  rw [← hp1] at hR ⊢
  rcases hs with hs | ⟨s2, hf, hs⟩
  · obtain ⟨hact, hf⟩ := completeSignal_cases hs
    have hf := hf.ipcFrame
    refine ⟨l1, .of_ipc ?_ hf.ipc, hf.params⟩
    exact h1.ntfnUpdate .idle nofun (by rw [hact]; exact nofun) rfl
  · have hf := hf.ipcFrame
    rw [← hf.params] at hR ⊢
    exact (h1.of_frame hf).message ht0 (by rw [hf.ipc]; exact ht1) hR (receiveMessage_step hs)

/-- The lists after `sendSignal`: a waiting thread, or the bound thread, has left its queue. -/
def signalLists (s : SysState) (ntfnPtr : Word) (l : WaitObj → List Word) : WaitObj → List Word :=
  match s.ntfnState ntfnPtr with
  | .waiting => update l (.ntfn ntfnPtr) (l (.ntfn ntfnPtr)).tail
  | .active => l
  | .idle =>
    if s.ntfnBoundTCB ntfnPtr ≠ 0 ∧ s.tsType (s.ntfnBoundTCB ntfnPtr) = .blockedOnReceive then
      leaveQueue s.toIpcState (s.ntfnBoundTCB ntfnPtr) l
    else l

omit h in
/-- The head of a queue is the first thread of its list. -/
theorem head_tail (h : WaitInv s.toIpcState X R l) {o : WaitObj} (ht : (s.toIpcState.queue o).head ≠ 0) :
    l o = (s.toIpcState.queue o).head :: (l o).tail ∧
      (l o).erase (s.toIpcState.queue o).head = (l o).tail := by
  obtain ⟨B, hB⟩ := h.queues.exists_cons ht
  rw [hB]
  exact ⟨rfl, List.erase_cons_head ..⟩

/-- **`sendSignal` keeps the invariant.** -/
theorem sendSignal (hs : s.sendSignal cfg x badge = .ok s') :
    WaitInv s'.toIpcState [] R (signalLists s x l) ∧ s'.toThreadParams = s.toThreadParams := by
  unfold signalLists
  rcases sendSignal_cases hs with ⟨hst, hb, hr, s1, hc, hf⟩ | ⟨hst, hnb, rfl⟩ | ⟨hst, hd, hf⟩ | ⟨hst, rfl⟩
  · rw [hst]
    rw [if_pos ⟨hb, hr⟩]
    obtain ⟨h1, hp1, hnone, -⟩ := h.cancelIPC hc
    exact ⟨(h1.setTsType hnone .running rfl).of_ipc hf.ipc, hf.params.trans hp1⟩
  · rw [hst]
    rw [if_neg hnb]
    exact ⟨h.ntfnUpdate .active nofun (by rw [hst]; exact nofun) rfl, rfl⟩
  · rw [hst]
    obtain ⟨hl, htail⟩ := h.head_tail (o := .ntfn x) hd
    have hmem : (s.ntfnQueue x).head ∈ l (.ntfn x) := h.head_mem hd
    have h1 := (h.ntfnDequeue hmem).release .running rfl
    have htail' : (l (.ntfn x)).erase (s.ntfnQueue x).head = (l (.ntfn x)).tail := htail
    rw [htail'] at h1
    exact ⟨h1.of_ipc hf.ipc, hf.params⟩
  · rw [hst]
    exact ⟨h.congr rfl (funext fun o => by cases o <;> rfl) rfl (fun _ => .rfl)
      fun _ _ => .inl ⟨rfl, rfl⟩, rfl⟩

/-- **`receiveSignal` keeps the invariant**, called for a thread that is in no queue. -/
theorem receiveSignal (ht0 : t ≠ 0)
    (ht : s.waitsFor t = none) (hR : Admits cfg s.tcbPriority R t)
    (hs : s.receiveSignal cfg t cap b = .ok s') :
    ∃ l', WaitInv s'.toIpcState [] R l' ∧ s'.toThreadParams = s.toThreadParams ∧
      (∀ o, o ≠ .ntfn (ntfnPtrOf cap) → l' o = l o) := by
  rcases receiveSignal_cases hs with ⟨hst, -, s1, s2, h1, h2, hf⟩ | ⟨-, -, rfl⟩ | ⟨hst, hf⟩
  · have hf1 := (scheduleTCB_frame h1).ipcFrame
    have hts : (s.blockOnNtfn t (ntfnPtrOf cap)).tsType t = .blockedOnNotification :=
      (setTsType_tsType t t .blockedOnNotification s).trans (if_pos rfl)
    have hblock : WaitInv (s.blockOnNtfn t (ntfnPtrOf cap)).toIpcState [t] R l :=
      h.blocks ht ⟨rfl, rfl, rfl, rfl, rfl, rfl, rfl, rfl⟩
    have hw : s1.waitsFor t = some (.ntfn (ntfnPtrOf cap)) := by
      rw [hf1.ipc, waitsFor_eq_ntfn]
      exact ⟨hts, update_self ..⟩
    obtain ⟨m, h', hp⟩ := (hblock.of_ipc hf1.ipc).ntfnAppend ht0 hw (by rw [hf1.params]; exact hR) h2
    refine ⟨_, h'.of_ipc hf.ipc, hf.params.trans (hp.trans hf1.params), fun o ho => ?_⟩
    exact update_of_ne ho ..
  · exact ⟨l, h, rfl, fun _ _ => rfl⟩
  · refine ⟨l, of_ipc ?_ hf.ipc, hf.params, fun _ _ => rfl⟩
    exact h.ntfnUpdate .idle nofun (by rw [hst]; exact nofun) rfl

end

end WaitInv

end SeL4.Thread
