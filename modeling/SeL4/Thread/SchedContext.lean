import SeL4.Thread.Transfer

/-!
# Scheduling contexts and reply objects

Model of `schedcontext.c` and `reply.c` (MCS). A scheduling context is bound to a thread, to a
notification, or to both; it is lent along a call, and the reply objects of the callers that wait
form its call stack, from `scReply` through `replyPrev`.

The decoding of an invocation is split off from what it ends in: `SchedContextInvocation.Decoded`
is what the checks of `decodeSchedContextInvocation` let through. Errors returned to user level
change nothing and are left out with it.
-/

namespace SeL4.Thread

open SeL4.Lib SeL4.Object Function

def callStackNew (ptr : Word) (isHead : Bool) : CallStack := ⟨ptr, isHead⟩

def ticksToUs (cfg : SysConfig) (ticks : Nat) : Nat := ticks / cfg.timer.timerClockMhz

def getMaxTicksToUs : Nat := uint64Max

namespace SysState

variable (cfg : SysConfig)

/-! ## Binding -/

def schedContextResume (sc : Word) (s : SysState) : Checked SysState := do
  require (sc == 0 || s.scTcb sc != 0)
  runIf (sc ≠ 0 ∧ s.isSchedulable cfg (s.scTcb sc)) (fun s =>
    runIf (¬ (s.refillReady sc ∧ s.refillSufficient cfg sc 0)) (fun s => do
      require (!s.tcbQueued (s.scTcb sc))
      s.postpone cfg sc) s) s

/-- `tcb->tcbSchedContext = sc; sc->scTcb = tcb;` -/
def linkSchedContext (sc tcb : Word) (s : SysState) : SysState :=
  { s with
    tcbSchedContext := update s.tcbSchedContext tcb sc
    scTcb := update s.scTcb sc tcb }

def schedContextBindTCB (sc tcb : Word) (s : SysState) : Checked SysState := do
  require (s.scTcb sc == 0)
  require (s.tcbSchedContext tcb == 0)
  let s := s.linkSchedContext sc tcb
  let sporadic ← s.scSporadic sc
  let s ← runIf (sporadic ∧ s.scActive sc ∧ sc ≠ s.ksCurSC) (refillUnblockCheck cfg sc) s
  let s ← s.schedContextResume cfg sc
  runIf (s.isSchedulable cfg tcb) (fun s => do
    let s ← s.tcbSchedEnqueue cfg tcb
    s.rescheduleRequired cfg) s

/-- `tcb->tcbSchedContext = NULL; sc->scTcb = NULL;` -/
def unlinkSchedContext (sc tcb : Word) (s : SysState) : SysState :=
  { s with
    tcbSchedContext := update s.tcbSchedContext tcb 0
    scTcb := update s.scTcb sc 0 }

def schedContextUnbindTCB (sc : Word) (s : SysState) : Checked SysState := do
  let tcb := s.scTcb sc
  require (tcb != 0)
  let s ← runIf (tcb = s.ksCurThread) (rescheduleRequired cfg) s
  let s ← s.tcbSchedDequeue cfg tcb
  let s := s.tcbReleaseRemove tcb
  .ok (s.unlinkSchedContext sc tcb)

def schedContextUnbindAllTCBs (sc : Word) (s : SysState) : Checked SysState :=
  runIf (s.scTcb sc ≠ 0) (schedContextUnbindTCB cfg sc) s

/-- What `schedContext_donate` does to the thread that loses its scheduling context. -/
def leaveSchedContext (tcb : Word) (s : SysState) : Checked SysState := do
  let s ← s.tcbSchedDequeue cfg tcb
  let s := s.tcbReleaseRemove tcb
  let s := { s with tcbSchedContext := update s.tcbSchedContext tcb 0 }
  runIf (tcb = s.ksCurThread ∨ s.ksSchedulerAction = .switchTo tcb) (rescheduleRequired cfg) s

def schedContextDonate (sc «to» : Word) (s : SysState) : Checked SysState := do
  require (sc != 0)
  require («to» != 0)
  require (s.tcbSchedContext «to» == 0)
  let s ← runIf (s.scTcb sc ≠ 0) (leaveSchedContext cfg (s.scTcb sc)) s
  .ok (s.linkSchedContext sc «to»)

def schedContextBindNtfn (sc ntfn : Word) (s : SysState) : SysState :=
  { s with
    ntfnSchedContext := update s.ntfnSchedContext ntfn sc
    scNotification := update s.scNotification sc ntfn }

def schedContextUnbindNtfn (sc : Word) (s : SysState) : SysState :=
  if sc ≠ 0 ∧ s.scNotification sc ≠ 0 then
    { s with
      ntfnSchedContext := update s.ntfnSchedContext (s.scNotification sc) 0
      scNotification := update s.scNotification sc 0 }
  else s

def maybeReturnSchedContext (ntfn tcb : Word) (s : SysState) : Checked SysState :=
  let sc := s.ntfnSchedContext ntfn
  runIf (sc ≠ 0 ∧ sc = s.tcbSchedContext tcb) (fun s =>
    let s := s.unlinkSchedContext sc tcb
    runIf (tcb = s.ksCurThread) (rescheduleRequired cfg) s) s

def maybeDonateSchedContext (tcb ntfn : Word) (s : SysState) : Checked SysState :=
  let sc := s.ntfnSchedContext ntfn
  runIf (s.tcbSchedContext tcb = 0 ∧ sc ≠ 0 ∧ s.scTcb sc = 0) (fun s => do
    let s ← s.schedContextDonate cfg sc tcb
    s.schedContextResume cfg sc) s

/-! ## Consumed time and yielding -/

def schedContextUpdateConsumed (sc : Word) (s : SysState) : Nat × SysState :=
  let consumed := s.scConsumed sc
  if consumed ≥ getMaxTicksToUs then
    (ticksToUs cfg getMaxTicksToUs,
      { s with scConsumed := update s.scConsumed sc (consumed - getMaxTicksToUs) })
  else (ticksToUs cfg consumed, { s with scConsumed := update s.scConsumed sc 0 })

def replyFromKernelConsumed (cfg : KernelConfig) (thread : Word) (consumed : Nat) (s : SysState) :
    SysState :=
  let buffer := s.lookupIPCBuffer cfg true thread
  let s := s.setRegister thread badgeRegister 0
  let (length, s) := s.setMR thread buffer 0 (BitVec.ofNat 64 consumed)
  s.setRegister thread msgInfoRegister (MessageInfo.new 0 length)

def setConsumed (sc thread : Word) (writeMsg : Bool) (s : SysState) : SysState :=
  let (consumed, s) := s.schedContextUpdateConsumed cfg sc
  if writeMsg then s.replyFromKernelConsumed cfg.toKernelConfig thread consumed else s

def schedContextCancelYieldTo (tcb : Word) (s : SysState) : SysState :=
  if tcb ≠ 0 ∧ s.tcbYieldTo tcb ≠ 0 then
    { s with
      scYieldFrom := update s.scYieldFrom (s.tcbYieldTo tcb) 0
      tcbYieldTo := update s.tcbYieldTo tcb 0 }
  else s

def schedContextCompleteYieldTo (yielder : Word) (s : SysState) : SysState :=
  if yielder ≠ 0 ∧ s.tcbYieldTo yielder ≠ 0 then
    (s.setConsumed cfg (s.tcbYieldTo yielder) yielder true).schedContextCancelYieldTo yielder
  else s

/-! ## Call stacks -/

def replyUnlink (reply tcb : Word) (s : SysState) : Checked SysState := do
  require (s.tsType tcb == .blockedOnReceive || s.tsType tcb == .blockedOnReply)
  require (s.replyTCB reply == tcb)
  require (s.replyObject tcb == reply)
  let s := { s with replyTCB := update s.replyTCB reply 0 }
  s.setThreadState cfg tcb .inactive

/-- The stores of `reply_push` that put a reply object on top of the stack of `sc`. -/
def pushReply (sc reply : Word) (s : SysState) : SysState :=
  let oldCaller := s.scReply sc
  let s :=
    if oldCaller ≠ 0 then
      { s with replyNext := update s.replyNext oldCaller (callStackNew reply false) }
    else s
  { s with
    replyPrev := update s.replyPrev reply (callStackNew oldCaller false)
    scReply := update s.scReply sc reply
    replyNext := update s.replyNext reply (callStackNew sc true) }

def replyPush (tcbCaller tcbCallee reply : Word) (canDonate : Bool)
    (s : SysState) : Checked SysState := do
  let scDonated := s.tcbSchedContext tcbCaller
  require (tcbCaller != 0)
  require (reply != 0)
  require (s.replyTCB reply == 0)
  require ((s.replyPrev reply).callStackPtr == 0)
  require ((s.replyNext reply).callStackPtr == 0)
  require (s.tsType tcbCaller == .blockedOnSend || s.tsType tcbCaller == .running ||
    s.tsType tcbCaller == .restart)
  require (s.tsType tcbCallee == .inactive || s.tsType tcbCallee == .running ||
    s.tsType tcbCallee == .restart)
  let s := { s with replyTCB := update s.replyTCB reply tcbCaller }
  let s ← s.setThreadStateBlockedOnReply cfg tcbCaller reply
  runIf (scDonated ≠ 0 ∧ s.tcbSchedContext tcbCallee = 0 ∧ canDonate) (fun s => do
    let oldCaller := s.scReply scDonated
    require (oldCaller == 0 || (s.replyNext oldCaller).callStackPtr == scDonated)
    (s.pushReply scDonated reply).schedContextDonate cfg scDonated tcbCallee) s

def replyPop (reply tcb : Word) (s : SysState) : Checked SysState := do
  require (reply != 0)
  require (s.replyTCB reply == tcb)
  require (s.tsType tcb == .blockedOnReply)
  require (s.replyObject tcb == reply)
  let nextPtr := (s.replyNext reply).callStackPtr
  let prevPtr := (s.replyPrev reply).callStackPtr
  let s := { s with scReply := update s.scReply nextPtr prevPtr }
  let s ← runIf (prevPtr ≠ 0) (fun s => do
    let s := { s with replyNext := update s.replyNext prevPtr (s.replyNext reply) }
    require (s.replyNext prevPtr).isHead
    .ok s) s
  let s := { s with replyNext := update s.replyNext reply (callStackNew 0 false) }
  -- the context goes back unless the thread was given another one meanwhile
  let s ← runIf (s.tcbSchedContext tcb = 0) (schedContextDonate cfg nextPtr tcb) s
  let s := { s with replyPrev := update s.replyPrev reply (callStackNew 0 false) }
  s.replyUnlink cfg reply tcb

/-- `if (prev_ptr) REPLY_PTR(prev_ptr)->replyNext = call_stack_new(0, false);`, and the same for
the links of the reply object itself. -/
def unlinkReply (reply prevPtr : Word) (s : SysState) : SysState :=
  let s :=
    if prevPtr ≠ 0 then
      { s with replyNext := update s.replyNext prevPtr (callStackNew 0 false) }
    else s
  { s with
    replyPrev := update s.replyPrev reply (callStackNew 0 false)
    replyNext := update s.replyNext reply (callStackNew 0 false) }

/-- `REPLY_PTR(next_ptr)->replyPrev = call_stack_new(0, false);` -/
def clearReplyPrev (next : Word) (s : SysState) : SysState :=
  { s with replyPrev := update s.replyPrev next (callStackNew 0 false) }

def replyRemove (reply tcb : Word) (s : SysState) : Checked SysState := do
  require (s.replyTCB reply == tcb)
  require (s.tsType tcb == .blockedOnReply)
  require (s.replyObject tcb == reply)
  let nextPtr := (s.replyNext reply).callStackPtr
  let prevPtr := (s.replyPrev reply).callStackPtr
  if nextPtr ≠ 0 ∧ (s.replyNext reply).isHead then s.replyPop cfg reply tcb
  else
    let s := if nextPtr ≠ 0 then s.clearReplyPrev nextPtr else s
    (s.unlinkReply reply prevPtr).replyUnlink cfg reply tcb

def replyRemoveTcb (tcb : Word) (s : SysState) : Checked SysState := do
  require (s.tsType tcb == .blockedOnReply)
  let reply := s.replyObject tcb
  let nextPtr := (s.replyNext reply).callStackPtr
  let prevPtr := (s.replyPrev reply).callStackPtr
  let s :=
    if nextPtr ≠ 0 then
      if (s.replyNext reply).isHead then
        { s with scReply := update s.scReply nextPtr 0 }
      else s.clearReplyPrev nextPtr
    else s
  (s.unlinkReply reply prevPtr).replyUnlink cfg reply tcb

/-- `if (sc->scReply) { sc->scReply->replyNext = call_stack_new(0, false); sc->scReply = NULL; }` -/
def detachCallStack (sc : Word) (s : SysState) : SysState :=
  if s.scReply sc ≠ 0 then
    { s with
      replyNext := update s.replyNext (s.scReply sc) (callStackNew 0 false)
      scReply := update s.scReply sc 0 }
  else s

/-! ## Invocations -/

def invokeSchedContextUnbindObject (sc : Word) (cap : Cap) (s : SysState) : Checked SysState :=
  match cap with
  | .thread .. => s.schedContextUnbindTCB cfg sc
  | .notification .. => .ok (s.schedContextUnbindNtfn sc)
  | _ => .error .assertion

def invokeSchedContextBind (sc : Word) (cap : Cap) (s : SysState) : Checked SysState :=
  match cap with
  | .thread tcb => s.schedContextBindTCB cfg sc tcb
  | .notification _ _ _ ntfn => .ok (s.schedContextBindNtfn sc ntfn)
  | _ => .error .assertion

def invokeSchedContextUnbind (sc : Word) (s : SysState) : Checked SysState := do
  let s ← s.schedContextUnbindAllTCBs cfg sc
  .ok ((s.schedContextUnbindNtfn sc).detachCallStack sc)

def invokeSchedContextConsumed (sc : Word) (call : Bool) (s : SysState) : Checked SysState :=
  (s.setConsumed cfg sc s.ksCurThread call).setThreadState cfg s.ksCurThread .running

/-- `invokeSchedContext_YieldTo` after the thread that yields is known to stay in the kernel: the
target of the yield goes first. -/
def yieldNow (sc tcb : Word) (s : SysState) : Checked SysState := do
  let s := { s with
    tcbYieldTo := update s.tcbYieldTo s.ksCurThread sc
    scYieldFrom := update s.scYieldFrom sc s.ksCurThread }
  let s ← s.tcbSchedDequeue cfg tcb
  let s ← s.tcbSchedEnqueue cfg s.ksCurThread
  let s ← s.tcbSchedEnqueue cfg tcb
  s.rescheduleRequired cfg

/-- The end of `invokeSchedContext_YieldTo` if `return_now` is set. -/
def yieldReturn (sc : Word) (call : Bool) (s : SysState) : Checked SysState :=
  (s.setConsumed cfg sc s.ksCurThread call).setThreadState cfg s.ksCurThread .running

def invokeSchedContextYieldTo (sc : Word) (call : Bool) (s : SysState) :
    Checked SysState := do
  let s ← runIf (s.scYieldFrom sc ≠ 0) (fun s => do
    let s := s.schedContextCompleteYieldTo cfg (s.scYieldFrom sc)
    require (s.scYieldFrom sc == 0)
    .ok s) s
  let s ← s.schedContextResume cfg sc
  let tcb := s.scTcb sc
  if s.isSchedulable cfg tcb then
    if s.tcbPriority tcb < s.tcbPriority s.ksCurThread then do
      let s ← s.tcbSchedDequeue cfg tcb
      let s ← s.tcbSchedEnqueue cfg tcb
      s.yieldReturn cfg sc call
    else s.yieldNow cfg sc tcb
  else s.yieldReturn cfg sc call

end SysState

/-- The invocations of a scheduling context, `decodeSchedContextInvocation`. -/
inductive SchedContextInvocation
  | consumed
  | bind (cap : Cap)
  | unbindObject (cap : Cap)
  | unbind
  | yieldTo

namespace SchedContextInvocation

/-- What the checks of `decodeSchedContext_Bind`, `decodeSchedContext_UnbindObject` and
`decodeSchedContext_YieldTo` let through, `assert`s included. -/
def Decoded (cfg : SysConfig) (sc : Word) (s : SysState) : SchedContextInvocation → Prop
  | consumed => True
  | bind (.thread tcb) => s.scTcb sc = 0 ∧ s.tcbSchedContext tcb = 0 ∧
      (s.isBlocked tcb → s.scReleased cfg sc = .ok true)
  | bind (.notification _ _ _ ntfn) => s.scNotification sc = 0 ∧ s.ntfnSchedContext ntfn = 0
  | bind _ => False
  | unbindObject (.thread tcb) => s.scTcb sc = tcb ∧ s.scTcb sc ≠ s.ksCurThread
  | unbindObject (.notification _ _ _ ntfn) => s.scNotification sc = ntfn
  | unbindObject _ => False
  | unbind => s.scTcb sc ≠ s.ksCurThread
  | yieldTo => s.scTcb sc ≠ 0 ∧ s.scTcb sc ≠ s.ksCurThread ∧
      s.tcbPriority (s.scTcb sc) ≤ s.tcbMCP s.ksCurThread ∧ s.tcbYieldTo s.ksCurThread = 0

end SchedContextInvocation

open SysState in
/-- What `decodeSchedContextInvocation` runs after its checks. -/
def SysState.invokeSchedContext (cfg : SysConfig) (sc : Word) (call : Bool)
    (inv : SchedContextInvocation) (s : SysState) : Checked SysState := do
  let s ← s.setThreadState cfg s.ksCurThread .restart
  match inv with
  | .consumed => s.invokeSchedContextConsumed cfg sc call
  | .bind cap => s.invokeSchedContextBind cfg sc cap
  | .unbindObject cap => s.invokeSchedContextUnbindObject cfg sc cap
  | .unbind => s.invokeSchedContextUnbind cfg sc
  | .yieldTo => s.invokeSchedContextYieldTo cfg sc call

end SeL4.Thread
