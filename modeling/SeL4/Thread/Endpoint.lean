import SeL4.Thread.Cancel

/-!
# Notifications and endpoints

Model of `notification.c` and of `sendIPC` and `receiveIPC` of `endpoint.c`, with the functions that
hand out reply capabilities without MCS (`setupCallerCap`, `deleteCallerCap`, `setupReplyMaster`), and
of the functions of `thread.c` that stop and start threads (`suspend`, `restart`).

A message goes from the sender's registers to the receiver's at the moment both are known, so an
endpoint holds threads that wait on one side only. A notification holds a word of badges instead,
while no thread waits for it.
-/

namespace SeL4.Thread

open SeL4.Lib SeL4.Object Function

namespace SysState

variable (cfg : SysConfig)

/-! ## Notifications -/

def ntfnSetActive (ntfnPtr badge : Word) (s : SysState) : SysState :=
  { s with
    ntfnState := update s.ntfnState ntfnPtr .active
    ntfnMsgIdentifier := update s.ntfnMsgIdentifier ntfnPtr badge }

/-- `notification_ptr_set_state(ntfnPtr, NtfnState_Idle);` -/
def ntfnSetIdle (ntfnPtr : Word) (s : SysState) : SysState :=
  { s with ntfnState := update s.ntfnState ntfnPtr .idle }

/-- `MCS_DO_IF_SC(tcb, ntfnPtr, { possibleSwitchTo(tcb); })`, and on MCS the check of its refills. -/
def wakeSignalled (tcb ntfnPtr : Word) (s : SysState) : Checked SysState :=
  if cfg.mcs then do
    let s ← s.maybeDonateSchedContext cfg tcb ntfnPtr
    let s ← runIf (s.isSchedulable cfg tcb) (possibleSwitchTo cfg tcb) s
    s.unblockSporadicOther cfg (s.tcbSchedContext tcb)
  else s.possibleSwitchTo cfg tcb

def sendSignal (ntfnPtr badge : Word) (s : SysState) : Checked SysState :=
  match s.ntfnState ntfnPtr with
  | .idle =>
    let tcb := s.ntfnBoundTCB ntfnPtr
    if tcb ≠ 0 ∧ s.tsType tcb = .blockedOnReceive then do
      let s ← s.cancelIPC cfg tcb
      let s ← s.setThreadState cfg tcb .running
      let s := s.setRegister tcb badgeRegister badge
      s.wakeSignalled cfg tcb ntfnPtr
    else .ok (s.ntfnSetActive ntfnPtr badge)
  | .waiting => do
    let dest := (s.ntfnQueue ntfnPtr).head
    require (dest != 0)
    let s := s.ntfnDequeue ntfnPtr dest
    let s ← s.setThreadState cfg dest .running
    let s := s.setRegister dest badgeRegister badge
    s.wakeSignalled cfg dest ntfnPtr
  | .active =>
    .ok { s with
      ntfnMsgIdentifier := update s.ntfnMsgIdentifier ntfnPtr
        (s.ntfnMsgIdentifier ntfnPtr ||| badge) }

/-- `NTFN_PTR(cap_notification_cap_get_capNtfnPtr(cap))`. -/
def ntfnPtrOf : Cap → Word
  | .notification _ _ _ ptr => ptr
  | _ => 0

/-- The thread state that `receiveSignal` sets. -/
def blockOnNtfn (thread ntfnPtr : Word) (s : SysState) : SysState :=
  { s.setTsType thread .blockedOnNotification with
    blockingObject := update s.blockingObject thread ntfnPtr }

def receiveSignal (thread : Word) (cap : Cap) (isBlocking : Bool) (s : SysState) : Checked SysState :=
  let ntfnPtr := ntfnPtrOf cap
  match s.ntfnState ntfnPtr with
  | .idle | .waiting =>
    if isBlocking then do
      let s := s.blockOnNtfn thread ntfnPtr
      let s ← s.scheduleTCB cfg thread
      let s ← s.ntfnAppend cfg ntfnPtr thread
      runIf cfg.mcs (maybeReturnSchedContext cfg ntfnPtr thread) s
    else .ok (s.doNBRecvFailedTransfer thread)
  | .active =>
    let s := s.setRegister thread badgeRegister (s.ntfnMsgIdentifier ntfnPtr)
    let s := s.ntfnSetIdle ntfnPtr
    runIf cfg.mcs (fun s => do
      let s ← s.maybeDonateSchedContext cfg thread ntfnPtr
      runIf (s.tcbSchedContext thread ≠ s.ksCurSC) (fun s => do
        let sporadic ← s.scSporadic (s.tcbSchedContext thread)
        runIf sporadic (refillUnblockCheck cfg (s.tcbSchedContext thread)) s) s) s

def completeSignal (ntfnPtr tcb : Word) (s : SysState) : Checked SysState := do
  require (tcb != 0 && s.ntfnState ntfnPtr == .active)
  let badge := s.ntfnMsgIdentifier ntfnPtr
  let s := s.setRegister tcb badgeRegister badge
  let s := s.ntfnSetIdle ntfnPtr
  runIf cfg.mcs (fun s => do
    let s ← s.maybeDonateSchedContext cfg tcb ntfnPtr
    let sporadic ← s.scSporadic (s.tcbSchedContext tcb)
    let sc := s.ntfnSchedContext ntfnPtr
    runIf (sporadic ∧ s.tcbSchedContext tcb = sc ∧ s.tcbSchedContext tcb ≠ s.ksCurSC)
      (refillUnblockCheck cfg (s.tcbSchedContext tcb)) s) s

def doUnbindNotification (ntfnPtr tcbptr : Word) (s : SysState) : SysState :=
  { s with
    ntfnBoundTCB := update s.ntfnBoundTCB ntfnPtr 0
    tcbBoundNotification := update s.tcbBoundNotification tcbptr 0 }

def unbindMaybeNotification (ntfnPtr : Word) (s : SysState) : SysState :=
  if s.ntfnBoundTCB ntfnPtr ≠ 0 then s.doUnbindNotification ntfnPtr (s.ntfnBoundTCB ntfnPtr) else s

def unbindNotification (tcb : Word) (s : SysState) : SysState :=
  if s.tcbBoundNotification tcb ≠ 0 then s.doUnbindNotification (s.tcbBoundNotification tcb) tcb
  else s

def bindNotification (tcb ntfnPtr : Word) (s : SysState) : SysState :=
  { s with
    ntfnBoundTCB := update s.ntfnBoundTCB ntfnPtr tcb
    tcbBoundNotification := update s.tcbBoundNotification tcb ntfnPtr }

/-! ## Reply capabilities -/

/-- `tcbCaller`: the index of a thread's slot for the reply capability of its caller. -/
def tcbCaller : Word := 3

def setupCallerCap (sender receiver : Word) (canGrant : Bool) (s : SysState) :
    Checked SysState := do
  let s ← s.setThreadState cfg sender .blockedOnReply
  let replySlot := tcbSlot cfg.toKernelConfig sender KState.tcbReply
  require (s.cap replySlot == .reply true true sender)
  let callerSlot := tcbSlot cfg.toKernelConfig receiver tcbCaller
  require (s.cap callerSlot).isNull
  s.onSlots fun k => .ok (k.cteInsert cfg.toKernelConfig (.reply canGrant false sender) replySlot
    callerSlot)

def deleteCallerCap (receiver : Word) (s : SysState) : Checked SysState :=
  s.cteDeleteReply (tcbSlot cfg.toKernelConfig receiver tcbCaller)

def setupReplyMaster (thread : Word) (s : SysState) : SysState :=
  let slot := tcbSlot cfg.toKernelConfig thread KState.tcbReply
  if (s.cap slot).isNull then
    { s with cte := s.cte.set slot ⟨.reply true true thread, ⟨0, true, true, 0⟩⟩ }
  else s

/-! ## Stopping and starting -/

def updateRestartPC (tcb : Word) (s : SysState) : SysState :=
  s.setRegister tcb .faultIP (s.registers tcb .nextIP)

def suspend (target : Word) (s : SysState) : Checked SysState := do
  let s ← s.cancelIPC cfg target
  let s := if s.tsType target = .running then s.updateRestartPC target else s
  let s ← s.setThreadState cfg target .inactive
  let s ← s.tcbSchedDequeue cfg target
  .ok (if cfg.mcs then (s.tcbReleaseRemove target).schedContextCancelYieldTo target else s)

def restart (cfg : SysConfig) (target : Word) (s : SysState) : Checked SysState :=
  runIf (s.isStopped target) (fun s => do
    let s ← s.cancelIPC cfg target
    if cfg.mcs then do
      let s ← s.setThreadState cfg target .restart
      let s ← s.unblockSporadic cfg (s.tcbSchedContext target)
      let s ← s.schedContextResume cfg (s.tcbSchedContext target)
      runIf (s.isSchedulable cfg target) (possibleSwitchTo cfg target) s
    else do
      let s := s.setupReplyMaster cfg target
      let s ← s.setThreadState cfg target .restart
      let s ← s.tcbSchedEnqueue cfg target
      s.possibleSwitchTo cfg target) s

/-! ## Endpoints -/

/-- The thread state that `sendIPC` sets. -/
def blockOnSend (thread epptr badge : Word) (canGrant canGrantReply doCall : Bool) (s : SysState) :
    SysState :=
  let s := s.setTsType thread .blockedOnSend
  { s with
    blockingObject := update s.blockingObject thread epptr
    blockingIPCBadge := update s.blockingIPCBadge thread badge
    blockingIPCCanGrant := update s.blockingIPCCanGrant thread canGrant
    blockingIPCCanGrantReply := update s.blockingIPCCanGrantReply thread canGrantReply
    blockingIPCIsCall := update s.blockingIPCIsCall thread doCall }

/-- What becomes of the sender in `sendIPC` on MCS: it waits with the reply object, is stopped, or lends
its scheduling context. -/
def sendHandover (doCall canGrant canGrantReply canDonate : Bool)
    (thread dest reply : Word) (s : SysState) : Checked SysState :=
  if doCall ∨ s.tcbFault thread ≠ .nullFault then
    if reply ≠ 0 ∧ (canGrant || canGrantReply) then s.replyPush cfg thread dest reply canDonate
    else s.setThreadState cfg thread .inactive
  else
    runIf (canDonate ∧ s.tcbSchedContext dest = 0)
      (schedContextDonate cfg (s.tcbSchedContext thread) dest) s

/-- What `sendIPC` does on MCS after the transfer. -/
def sendDonate (doCall canGrant canGrantReply canDonate : Bool)
    (thread dest : Word) (s : SysState) : Checked SysState := do
  let reply := s.replyObject dest
  let s ← runIf (reply ≠ 0) (replyUnlink cfg reply dest) s
  let s ← s.sendHandover cfg doCall canGrant canGrantReply canDonate thread dest reply
  require (s.tcbSchedContext dest == 0 || s.refillSufficient cfg (s.tcbSchedContext dest) 0)
  require (s.tcbSchedContext dest == 0 || s.refillReady (s.tcbSchedContext dest))
  let s ← s.setThreadState cfg dest .running
  let s ← s.unblockSporadic cfg (s.tcbSchedContext dest)
  s.possibleSwitchTo cfg dest

/-- What `sendIPC` does without MCS after the transfer. -/
def sendReplyCap (doCall canGrant canGrantReply : Bool) (thread dest : Word)
    (s : SysState) : Checked SysState := do
  let replyCanGrant := s.blockingIPCCanGrant dest
  let s ← s.setThreadState cfg dest .running
  let s ← s.possibleSwitchTo cfg dest
  runIf doCall (fun s =>
    if canGrant || canGrantReply then s.setupCallerCap cfg thread dest replyCanGrant
    else s.setThreadState cfg thread .inactive) s

/-- `sendIPC`; `canDonate` is a parameter on MCS only. -/
def sendIPC (blocking doCall : Bool) (badge : Word)
    (canGrant canGrantReply canDonate : Bool) (thread epptr : Word) (s : SysState) : Checked SysState :=
  match s.epState epptr with
  | .idle | .send =>
    runIf blocking (fun s => do
      let s := s.blockOnSend thread epptr badge canGrant canGrantReply doCall
      let s ← s.scheduleTCB cfg thread
      s.epAppend cfg epptr thread .send) s
  | .recv => do
    let dest := (s.epQueue epptr).head
    require (dest != 0)
    let s := s.epDequeue epptr dest
    let s ← s.doIPCTransfer cfg thread epptr badge canGrant dest
    if cfg.mcs then s.sendDonate cfg doCall canGrant canGrantReply canDonate thread dest
    else s.sendReplyCap cfg doCall canGrant canGrantReply thread dest

/-- The thread state that `receiveIPC` sets, and the reply object that waits with the thread. -/
def blockOnReceive (thread epptr replyPtr : Word) (canGrant : Bool) (s : SysState) : SysState :=
  let s := s.setTsType thread .blockedOnReceive
  let s := { s with blockingObject := update s.blockingObject thread epptr }
  if cfg.mcs then
    { s with
      replyObject := update s.replyObject thread replyPtr
      replyTCB := if replyPtr ≠ 0 then update s.replyTCB replyPtr thread else s.replyTCB }
  else { s with blockingIPCCanGrant := update s.blockingIPCCanGrant thread canGrant }

/-- What `receiveIPC` does on MCS after the transfer. -/
def receiveDonate (doCall canGrant canGrantReply : Bool)
    (sender thread replyPtr : Word) (s : SysState) : Checked SysState := do
  let s ← s.unblockSporadicOther cfg (s.tcbSchedContext sender)
  if doCall ∨ s.tcbFault sender ≠ .nullFault then
    if (canGrant || canGrantReply) ∧ replyPtr ≠ 0 then
      let canDonate := s.tcbSchedContext sender != 0 && (s.tcbFault sender).faultType != 5
      s.replyPush cfg sender thread replyPtr canDonate
    else s.setThreadState cfg sender .inactive
  else do
    let s ← s.setThreadState cfg sender .running
    let s ← s.possibleSwitchTo cfg sender
    require (s.tcbSchedContext sender == 0 || s.refillSufficient cfg (s.tcbSchedContext sender) 0)
    .ok s

/-- What `receiveIPC` does without MCS after the transfer. -/
def receiveReplyCap (doCall canGrant canGrantReply : Bool)
    (sender thread : Word) (capCanGrant : Bool) (s : SysState) : Checked SysState :=
  if doCall then
    if canGrant || canGrantReply then s.setupCallerCap cfg sender thread capCanGrant
    else s.setThreadState cfg sender .inactive
  else do
    let s ← s.setThreadState cfg sender .running
    s.possibleSwitchTo cfg sender

/-- `receiveIPC` from an endpoint, when no signal is pending. -/
def receiveMessage (thread epptr : Word) (capCanGrant isBlocking : Bool)
    (replyPtr : Word) (s : SysState) : Checked SysState :=
  match s.epState epptr with
  | .idle | .recv =>
    if isBlocking then do
      let s := s.blockOnReceive cfg thread epptr replyPtr capCanGrant
      let s ← s.scheduleTCB cfg thread
      s.epAppend cfg epptr thread .recv
    else .ok (s.doNBRecvFailedTransfer thread)
  | .send => do
    let sender := (s.epQueue epptr).head
    require (sender != 0)
    let s := s.epDequeue epptr sender
    let badge := s.blockingIPCBadge sender
    let canGrant := s.blockingIPCCanGrant sender
    let canGrantReply := s.blockingIPCCanGrantReply sender
    let s ← s.doIPCTransfer cfg sender epptr badge canGrant thread
    let doCall := s.blockingIPCIsCall sender
    if cfg.mcs then s.receiveDonate cfg doCall canGrant canGrantReply sender thread replyPtr
    else s.receiveReplyCap cfg doCall canGrant canGrantReply sender thread capCanGrant

/-- The reply object of a reply capability (MCS). -/
def replyPtrOf (replyCap : Cap) : Word :=
  match cfg.mcs, replyCap with
  | true, .replyObject ptr _ => ptr
  | _, _ => 0

/-- `receiveIPC`; `replyCap` is a parameter on MCS only. -/
def receiveIPC (thread : Word) (cap : Cap) (isBlocking : Bool) (replyCap : Cap)
    (s : SysState) : Checked SysState :=
  match cap with
  | .endpoint _ _ capCanGrant _ _ epptr => do
    let replyPtr := replyPtrOf cfg replyCap
    let s ← runIf (replyPtr ≠ 0 ∧ s.replyTCB replyPtr ≠ 0 ∧ s.replyTCB replyPtr ≠ thread)
      (cancelIPC cfg (s.replyTCB replyPtr)) s
    let ntfnPtr := s.tcbBoundNotification thread
    if ntfnPtr ≠ 0 ∧ s.ntfnState ntfnPtr = .active then s.completeSignal cfg ntfnPtr thread
    else do
      let s ← runIf (cfg.mcs ∧ ntfnPtr ≠ 0 ∧ isBlocking)
        (maybeReturnSchedContext cfg ntfnPtr thread) s
      s.receiveMessage cfg thread epptr capCanGrant isBlocking replyPtr
  | _ => .error .assertion

end SysState

end SeL4.Thread
