import SeL4.Thread.SchedContext

/-!
# Queues of waiting threads, and how waiting ends without a message

The queues of endpoints and notifications run through `tcbEPNext` and `tcbEPPrev`
(`tcbEPAppend`, `tcbEPDequeue` of `tcb.c` and `tcb.h`). A thread leaves them by a message, or by one of
the functions here: `cancelSignal`, `cancelIPC`, `cancelAllIPC`, `cancelAllSignals` and
`cancelBadgedSends`; on MCS `reorderEP` and `reorderNTFN` put it in its place again when its priority
changes.

A removed thread keeps its links, as in the source. Without MCS, waiting for a reply ends with the
deletion of the reply capability; `cteDeleteOne` is modelled for such slots, which is what the
ghost annotations at its calls say (`gs_set_assn cteDeleteOne_'proc (ucast cap_reply_cap)`).
-/

namespace SeL4.Thread

open SeL4.Lib SeL4.Object Function

/-! ## Queues -/

/-- The loop of `tcbEPAppend` on MCS: from the back to the first thread that is not to be
overtaken. It gives `before` and `after`. -/
def findEPPlace (tcbPriority : Word → Nat) (prio : Nat) (L : Links Word) :
    Nat → Word → Word → Checked (Word × Word)
  | 0, _, _ => .error .fuel
  | rounds + 1, before, after =>
    if before ≠ 0 ∧ prio > tcbPriority before then
      findEPPlace tcbPriority prio L rounds (L.prev before) before
    else .ok (before, after)

/-- `tcbEPAppend` on MCS. -/
def tcbEPInsert (tcbPriority : Word → Nat) (tcb : Word) (queue : TcbQueue) (L : Links Word) :
    Checked (TcbQueue × Links Word) := do
  let (before, after) ← findEPPlace tcbPriority (tcbPriority tcb) L loopBound queue.tail 0
  let (queue, L) :=
    if before = 0 then ({ queue with head := tcb }, L) else (queue, L.setNext before tcb)
  let (queue, L) :=
    if after = 0 then ({ queue with tail := tcb }, L) else (queue, L.setPrev after tcb)
  .ok (queue, (L.setNext tcb after).setPrev tcb before)

/-- `tcbEPAppend` without MCS. -/
def tcbEPPush (tcb : Word) (queue : TcbQueue) (L : Links Word) : TcbQueue × Links Word :=
  let (queue, L) :=
    if queue.head = 0 then ({ queue with head := tcb }, L) else (queue, L.setNext queue.tail tcb)
  ({ queue with tail := tcb }, (L.setPrev tcb queue.tail).setNext tcb 0)

def tcbEPAppend (mcs : Bool) (tcbPriority : Word → Nat) (tcb : Word) (queue : TcbQueue)
    (L : Links Word) : Checked (TcbQueue × Links Word) :=
  if mcs then tcbEPInsert tcbPriority tcb queue L else .ok (tcbEPPush tcb queue L)

def tcbEPDequeue (tcb : Word) (queue : TcbQueue) (L : Links Word) : TcbQueue × Links Word :=
  let prev := L.prev tcb
  let next := L.next tcb
  let (queue, L) :=
    if prev ≠ 0 then (queue, L.setNext prev next) else ({ queue with head := next }, L)
  if next ≠ 0 then (queue, L.setPrev next prev) else ({ queue with tail := prev }, L)

namespace SysState

variable (cfg : SysConfig)

/-- `queue = tcbEPAppend(thread, ep_ptr_get_queue(epptr)); ep_ptr_set_queue(epptr, queue);` with the
new state of the endpoint. -/
def epAppend (ep thread : Word) (state : EPState) (s : SysState) :
    Checked SysState := do
  let (queue, L) ← tcbEPAppend cfg.mcs s.tcbPriority thread (s.epQueue ep) s.tcbEP
  .ok { s with
    tcbEP := L
    epState := update s.epState ep state
    epQueue := update s.epQueue ep queue }

/-- `queue = tcbEPDequeue(thread, ep_ptr_get_queue(epptr)); ep_ptr_set_queue(epptr, queue);`, and the
endpoint becomes idle if the queue is empty. -/
def epDequeue (ep thread : Word) (s : SysState) : SysState :=
  let r := tcbEPDequeue thread (s.epQueue ep) s.tcbEP
  { s with
    tcbEP := r.2
    epState := if r.1.head = 0 then update s.epState ep .idle else s.epState
    epQueue := update s.epQueue ep r.1 }

/-- The same as `epAppend` for a notification. -/
def ntfnAppend (ntfn thread : Word) (s : SysState) : Checked SysState := do
  let (queue, L) ← tcbEPAppend cfg.mcs s.tcbPriority thread (s.ntfnQueue ntfn) s.tcbEP
  .ok { s with
    tcbEP := L
    ntfnState := update s.ntfnState ntfn .waiting
    ntfnQueue := update s.ntfnQueue ntfn queue }

/-- The same as `epDequeue` for a notification. -/
def ntfnDequeue (ntfn thread : Word) (s : SysState) : SysState :=
  let r := tcbEPDequeue thread (s.ntfnQueue ntfn) s.tcbEP
  { s with
    tcbEP := r.2
    ntfnState := if r.1.head = 0 then update s.ntfnState ntfn .idle else s.ntfnState
    ntfnQueue := update s.ntfnQueue ntfn r.1 }

/-! ## One thread -/

/-- An operation on capabilities. -/
def onSlots (f : KState → Checked KState) (s : SysState) : Checked SysState := do
  let k ← f s.toKState
  .ok { s with toSlotState := .ofKState k }

/-- `cteDeleteOne` on the slot of a reply capability. -/
def cteDeleteReply (slot : Word) (s : SysState) : Checked SysState := do
  require (match s.cap slot with
    | .null | .reply .. => true
    | _ => false)
  s.onSlots (KState.cteDeleteOne slot)

def cancelSignal (threadPtr ntfnPtr : Word) (s : SysState) :
    Checked SysState := do
  require (s.ntfnState ntfnPtr == .waiting)
  (s.ntfnDequeue ntfnPtr threadPtr).setThreadState cfg threadPtr .inactive

/-- `tptr->tcbFault = seL4_Fault_NullFault_new();` -/
def clearFault (tptr : Word) (s : SysState) : SysState :=
  { s with tcbFault := update s.tcbFault tptr .nullFault }

/-- `if (reply) reply_unlink(reply, tptr);` for the reply object of a thread that receives. -/
def unlinkReceiver (tptr : Word) (s : SysState) : Checked SysState :=
  runIf (s.replyObject tptr ≠ 0) (replyUnlink cfg (s.replyObject tptr) tptr) s

/-- `cancelIPC` of a thread that waits in the queue of an endpoint. -/
def blockedIPCCancel (tptr : Word) (s : SysState) : Checked SysState := do
  let epptr := s.blockingObject tptr
  require (s.epState epptr != .idle)
  let s := s.epDequeue epptr tptr
  let s ← runIf (cfg.mcs ∧ s.tsType tptr = .blockedOnReceive) (unlinkReceiver cfg tptr) s
  s.setThreadState cfg tptr .inactive

/-- `cancelIPC` of a thread that waits for a reply. -/
def replyIPCCancel (tptr : Word) (s : SysState) : Checked SysState :=
  if cfg.mcs then s.replyRemoveTcb cfg tptr
  else
    let s := s.clearFault tptr
    let slot := tcbSlot cfg.toKernelConfig tptr KState.tcbReply
    let callerCap := (s.cte slot).cteMDBNode.mdbNext
    runIf (callerCap ≠ 0) (cteDeleteReply callerCap) s

def cancelIPC (tptr : Word) (s : SysState) : Checked SysState :=
  let s := if cfg.mcs then s.clearFault tptr else s
  match s.tsType tptr with
  | .blockedOnSend | .blockedOnReceive => s.blockedIPCCancel cfg tptr
  | .blockedOnNotification => s.cancelSignal cfg tptr (s.blockingObject tptr)
  | .blockedOnReply => s.replyIPCCancel cfg tptr
  | _ => .ok s

/-! ## All threads of a queue -/

/-- `restart_thread_if_no_fault` (MCS). -/
def restartThreadIfNoFault (thread : Word) (s : SysState) : Checked SysState :=
  if s.tcbFault thread = .nullFault then do
    let s ← s.setThreadState cfg thread .restart
    let s ← s.unblockSporadicOther cfg (s.tcbSchedContext thread)
    s.possibleSwitchTo cfg thread
  else s.setThreadState cfg thread .inactive

/-- `setThreadState(thread, ThreadState_Restart); SCHED_ENQUEUE(thread);` -/
def restartEnqueue (thread : Word) (s : SysState) : Checked SysState := do
  let s ← s.setThreadState cfg thread .restart
  s.tcbSchedEnqueue cfg thread

/-- `for (; thread; thread = thread->tcbEPNext) body(thread);`, for at most `rounds` rounds. -/
def forEachWaiting (body : Word → SysState → Checked SysState) :
    Nat → Word → SysState → Checked SysState
  | 0, _, _ => .error .fuel
  | rounds + 1, thread, s =>
    if thread = 0 then .ok s
    else do
      let s ← body thread s
      forEachWaiting body rounds (s.tcbEP.next thread) s

/-- The body of the loop of `cancelAllIPC`. -/
def cancelWaiting (thread : Word) (s : SysState) : Checked SysState :=
  if cfg.mcs then do
    let s ← runIf (s.tsType thread = .blockedOnReceive) (unlinkReceiver cfg thread) s
    s.restartThreadIfNoFault cfg thread
  else s.restartEnqueue cfg thread

/-- The endpoint becomes idle, with an empty queue. -/
def epReset (ep : Word) (s : SysState) : SysState :=
  { s with
    epState := update s.epState ep .idle
    epQueue := update s.epQueue ep ⟨0, 0⟩ }

def cancelAllIPC (epptr : Word) (s : SysState) : Checked SysState :=
  match s.epState epptr with
  | .idle => .ok s
  | _ => do
    let thread := (s.epQueue epptr).head
    let s ← forEachWaiting (cancelWaiting cfg) loopBound thread (s.epReset epptr)
    s.rescheduleRequired cfg

/-- The body of the loop of `cancelAllSignals`. -/
def cancelWaitingSignal (thread : Word) (s : SysState) : Checked SysState := do
  let s ← s.setThreadState cfg thread .restart
  if cfg.mcs then do
    let s ← s.unblockSporadicOther cfg (s.tcbSchedContext thread)
    s.possibleSwitchTo cfg thread
  else s.tcbSchedEnqueue cfg thread

/-- The notification becomes idle, with an empty queue. -/
def ntfnReset (ntfn : Word) (s : SysState) : SysState :=
  { s with
    ntfnState := update s.ntfnState ntfn .idle
    ntfnQueue := update s.ntfnQueue ntfn ⟨0, 0⟩ }

def cancelAllSignals (ntfnPtr : Word) (s : SysState) : Checked SysState :=
  runIf (s.ntfnState ntfnPtr = .waiting) (fun s => do
    let thread := (s.ntfnQueue ntfnPtr).head
    let s ← forEachWaiting (cancelWaitingSignal cfg) loopBound thread (s.ntfnReset ntfnPtr)
    s.rescheduleRequired cfg) s

/-- What the loop of `cancelBadgedSends` does to a sender with the given badge. -/
def cancelSend (thread : Word) (s : SysState) : Checked SysState :=
  if cfg.mcs then s.restartThreadIfNoFault cfg thread else s.restartEnqueue cfg thread

/-- The loop of `cancelBadgedSends`; `queue` is the local variable of the source. -/
def cancelBadgedLoop (cfg : SysConfig) (badge : Word) :
    Nat → Word → TcbQueue → SysState → Checked (TcbQueue × SysState)
  | 0, _, _, _ => .error .fuel
  | rounds + 1, thread, queue, s =>
    if thread = 0 then .ok (queue, s)
    else do
      let b := s.blockingIPCBadge thread
      let next := s.tcbEP.next thread
      require (!cfg.mcs || s.tsType thread == .blockedOnSend)
      if b = badge then do
        let s ← s.cancelSend cfg thread
        let (queue, L) := tcbEPDequeue thread queue s.tcbEP
        cancelBadgedLoop cfg badge rounds next queue { s with tcbEP := L }
      else cancelBadgedLoop cfg badge rounds next queue s

def cancelBadgedSends (epptr badge : Word) (s : SysState) : Checked SysState :=
  match s.epState epptr with
  | .idle | .recv => .ok s
  | .send => do
    let queue := s.epQueue epptr
    let (queue, s) ← cancelBadgedLoop cfg badge loopBound queue.head queue (s.epReset epptr)
    let s := { s with
      epQueue := update s.epQueue epptr queue
      epState := if queue.head ≠ 0 then update s.epState epptr .send else s.epState }
    s.rescheduleRequired cfg

/-! ## Priorities -/

/-- `reorderEP` (MCS). -/
def reorderEP (epptr thread : Word) (s : SysState) : Checked SysState := do
  let (queue, L) := tcbEPDequeue thread (s.epQueue epptr) s.tcbEP
  let (queue, L) ← tcbEPAppend cfg.mcs s.tcbPriority thread queue L
  .ok { s with tcbEP := L, epQueue := update s.epQueue epptr queue }

/-- `reorderNTFN` (MCS). -/
def reorderNTFN (ntfnPtr thread : Word) (s : SysState) : Checked SysState := do
  let (queue, L) := tcbEPDequeue thread (s.ntfnQueue ntfnPtr) s.tcbEP
  let (queue, L) ← tcbEPAppend cfg.mcs s.tcbPriority thread queue L
  .ok { s with tcbEP := L, ntfnQueue := update s.ntfnQueue ntfnPtr queue }

/-- `tptr->tcbPriority = prio;` -/
def setTcbPriority (tptr : Word) (prio : Nat) (s : SysState) : SysState :=
  { s with tcbPriority := update s.tcbPriority tptr prio }

def setPriority (tptr : Word) (prio : Nat) (s : SysState) : Checked SysState :=
  if cfg.mcs then
    match s.tsType tptr with
    | .running | .restart =>
      if s.tcbQueued tptr ∨ tptr = s.ksCurThread then do
        let s ← s.tcbSchedDequeue cfg tptr
        let s := s.setTcbPriority tptr prio
        let s ← s.tcbSchedEnqueue cfg tptr
        s.rescheduleRequired cfg
      else .ok (s.setTcbPriority tptr prio)
    | .blockedOnReceive | .blockedOnSend =>
      let s := s.setTcbPriority tptr prio
      s.reorderEP cfg (s.blockingObject tptr) tptr
    | .blockedOnNotification =>
      let s := s.setTcbPriority tptr prio
      s.reorderNTFN cfg (s.blockingObject tptr) tptr
    | _ => .ok (s.setTcbPriority tptr prio)
  else do
    let s ← s.tcbSchedDequeue cfg tptr
    let s := s.setTcbPriority tptr prio
    runIf (s.isRunnable tptr) (fun s =>
      if tptr = s.ksCurThread then s.rescheduleRequired cfg else s.possibleSwitchTo cfg tptr) s

def setDomain (tptr : Word) (dom : Nat) (s : SysState) : Checked SysState := do
  let s ← s.tcbSchedDequeue cfg tptr
  let s := { s with tcbDomain := update s.tcbDomain tptr dom }
  let s ← runIf (s.isSchedulable cfg tptr) (tcbSchedEnqueue cfg tptr) s
  runIf (tptr = s.ksCurThread) (rescheduleRequired cfg) s

end SysState

end SeL4.Thread
