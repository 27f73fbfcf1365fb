import SeL4.Thread.ReadyQueue

/-!
# The scheduler

Model of the scheduler in `thread.c`, with `commitTime` and `checkDomainTime` of
`thread.h` and the parts of `sporadic.c` that set `ksReprogram`. Statements under
`CONFIG_KERNEL_MCS` run if `KernelConfig.mcs` is set; a failing `assert` is a `Fault`, and a loop over a
queue is bounded by the number of addresses (`loopBound`).

Left out: `chargeBudget`, `endTimeslice`, what `switchToThread`, `switchToIdleThread`,
`prepareNextDomain` and `prepareSetDomain` do to address spaces and the FPU.
-/

namespace SeL4.Thread

open SeL4.Lib SeL4.Object SeL4.CSpace Function

namespace SysState

variable (cfg : SysConfig) (s : SysState)

/-! ## Thread states and registers -/

def isBlocked (thread : Word) (s : SysState) : Bool :=
  match s.tsType thread with
  | .blockedOnReceive | .blockedOnSend | .blockedOnNotification | .blockedOnReply => true
  | _ => false

def isStopped (thread : Word) (s : SysState) : Bool :=
  match s.tsType thread with
  | .inactive | .blockedOnReceive | .blockedOnSend | .blockedOnNotification | .blockedOnReply => true
  | _ => false

/-- `thread_state_ptr_set_tsType`. -/
def setTsType (t : Word) (ts : ThreadState) (s : SysState) : SysState :=
  { s with tsType := update s.tsType t ts }

@[simp] theorem setTsType_tsType (t u : Word) (ts : ThreadState) (s : SysState) :
    (s.setTsType t ts).tsType u = if u = t then ts else s.tsType u :=
  update_apply s.tsType t ts u

def setRegister (t : Word) (r : Register) (v : Word) (s : SysState) : SysState :=
  { s with registers := update s.registers t (update (s.registers t) r v) }

/-- `TCB_PTR_CTE_PTR(t, i)`. -/
def tcbSlot (cfg : KernelConfig) (t i : Word) : Word := cteAt (Cap.tcbCTEPtr cfg t) i

/-- The capability in a slot. -/
def cap (s : SysState) (slot : Word) : Cap := (s.cte slot).cap

/-! ## Requests to the scheduler -/

/-- What `rescheduleRequired` does about a candidate: it goes to its ready queue. -/
def enqueueCandidate : Checked SysState :=
  match s.ksSchedulerAction with
  | .switchTo c =>
    runIf (!cfg.mcs || s.isSchedulable cfg c) (fun s => do
      require (!cfg.mcs || s.refillSufficient cfg (s.tcbSchedContext c) 0)
      require (!cfg.mcs || s.refillReady (s.tcbSchedContext c))
      s.tcbSchedEnqueue cfg c) s
  | _ => .ok s

def rescheduleRequired : Checked SysState := do
  let s ← s.enqueueCandidate cfg
  .ok { s with ksSchedulerAction := .chooseNewThread }

def scheduleTCB (tptr : Word) (s : SysState) : Checked SysState :=
  runIf (tptr = s.ksCurThread ∧ s.ksSchedulerAction = .resumeCurrentThread ∧
    s.isSchedulable cfg tptr = false) (rescheduleRequired cfg) s

def setThreadState (tptr : Word) (ts : ThreadState) (s : SysState) :
    Checked SysState := (s.setTsType tptr ts).scheduleTCB cfg tptr

def setThreadStateBlockedOnReply (tptr reply : Word) (s : SysState) : Checked SysState :=
  let s := s.setTsType tptr .blockedOnReply
  let s := { s with replyObject := update s.replyObject tptr reply }
  s.scheduleTCB cfg tptr

def possibleSwitchTo (target : Word) (s : SysState) : Checked SysState :=
  runIf (!cfg.mcs || s.tcbSchedContext target != 0 && !s.tcbInReleaseQueue target) (fun s =>
    if s.ksCurDomain ≠ s.tcbDomain target then s.tcbSchedEnqueue cfg target
    else if s.ksSchedulerAction ≠ .resumeCurrentThread then do
      let s ← s.rescheduleRequired cfg
      s.tcbSchedEnqueue cfg target
    else .ok { s with ksSchedulerAction := .switchTo target }) s

/-! ## Refills -/

def scSporadic (sc : Word) (s : SysState) : Checked Bool := do
  require (sc == 0 || !(s.sc sc).scSporadic || s.scActive sc)
  .ok (sc != 0 && (s.sc sc).scSporadic)

def scReleased (sc : Word) (s : SysState) : Checked Bool :=
  if s.scActive sc then do
    require (s.refillSufficient cfg sc 0)
    .ok (s.refillReady sc)
  else .ok false

def refillUnblockCheck (cfg : SysConfig) (sc : Word) (s : SysState) : Checked SysState := do
  let refills ← Mcs.refillUnblockCheck cfg.timer s.ksCurTime (s.sc sc)
  .ok { s with
    sc := update s.sc sc refills
    ksReprogram := s.ksReprogram || !Mcs.isRoundRobin (s.sc sc) && s.refillReady sc }

/-- `if (sc_sporadic(sc) && sc != ksCurSC) refill_unblock_check(sc);` -/
def unblockSporadic (sc : Word) (s : SysState) : Checked SysState := do
  let sporadic ← s.scSporadic sc
  runIf (sporadic ∧ sc ≠ s.ksCurSC) (refillUnblockCheck cfg sc) s

/-- The same after `assert(sc != ksCurSC)`, for a sporadic `sc`. -/
def unblockSporadicOther (sc : Word) (s : SysState) : Checked SysState := do
  let sporadic ← s.scSporadic sc
  runIf sporadic (fun s => do
    require (sc != s.ksCurSC)
    s.refillUnblockCheck cfg sc) s

def tcbReadyTime (tcb : Word) : Nat :=
  (Mcs.refillHead (s.sc (s.tcbSchedContext tcb))).rTime

def tcbReleaseRemove (tcb : Word) (s : SysState) : SysState :=
  { s with
    toSchedQueues := (s.releaseRemove tcb).2
    ksReprogram := s.ksReprogram || (s.releaseRemove tcb).1 }

def tcbReleaseEnqueue (tcb : Word) (s : SysState) : Checked SysState := do
  let (reprogram, q) ← s.releaseEnqueue s.tcbReadyTime tcb
  .ok { s with toSchedQueues := q, ksReprogram := s.ksReprogram || reprogram }

def postpone (sc : Word) (s : SysState) : Checked SysState := do
  let tcb := s.scTcb sc
  require (tcb != 0)
  let s ← s.tcbSchedDequeue cfg tcb
  let s ← s.tcbReleaseEnqueue tcb
  .ok { s with ksReprogram := true }

/-- The use of `usage` ticks of a scheduling context, as `commitTime` does it. -/
def chargeRefills (usage : Nat) (sc : Mcs.SchedContext) : Checked Mcs.SchedContext :=
  if Mcs.isRoundRobin sc then do
    require (Mcs.refillSize sc == Mcs.minRefills)
    let amount ← sub64 (Mcs.refillHead sc).rAmount usage
    let sc := Mcs.setRefillHead sc { Mcs.refillHead sc with rAmount := amount }
    let amount ← add64 (Mcs.refillTail sc).rAmount usage
    .ok (Mcs.setRefillTail sc { Mcs.refillTail sc with rAmount := amount })
  else Mcs.refillBudgetCheck cfg.timer sc usage

def commitTime : Checked SysState := do
  let s ← runIf (s.scActive s.ksCurSC ∧ s.ksCurSC ≠ s.ksIdleSC) (fun s => do
    let s ← runIf (s.ksConsumed > 0) (fun s => do
      require (s.refillSufficient cfg s.ksCurSC s.ksConsumed)
      require (s.refillReady s.ksCurSC)
      let sc ← chargeRefills cfg s.ksConsumed (s.sc s.ksCurSC)
      let s := { s with sc := update s.sc s.ksCurSC sc }
      require (s.refillSufficient cfg s.ksCurSC 0)
      require (s.refillReady s.ksCurSC)
      .ok s) s
    .ok { s with
      scConsumed := update s.scConsumed s.ksCurSC
        ((s.scConsumed s.ksCurSC + s.ksConsumed) % 2 ^ 64) }) s
  .ok { s with ksConsumed := 0 }

/-! ## Choosing a thread -/

def switchToThread (thread : Word) (s : SysState) : Checked SysState := do
  require (!cfg.mcs || s.tcbSchedContext thread != 0)
  require (!cfg.mcs || !s.tcbInReleaseQueue thread)
  require (!cfg.mcs || s.refillSufficient cfg (s.tcbSchedContext thread) 0)
  require (!cfg.mcs || s.refillReady (s.tcbSchedContext thread))
  let s ← s.tcbSchedDequeue cfg thread
  .ok { s with ksCurThread := thread }

def switchToIdleThread : SysState := { s with ksCurThread := s.ksIdleThread }

/-- The domain whose queues are searched. -/
def schedDomain : Nat :=
  if cfg.numDomains > 1 then s.ksCurDomain else 0

def chooseThread : Checked SysState :=
  let dom := s.schedDomain cfg
  if s.ksReadyQueuesL1Bitmap dom ≠ 0 then do
    let prio ← s.getHighestPrio dom
    let idx ← readyQueuesIndex cfg dom prio
    let thread := (s.ksReadyQueues idx).head
    require (thread != 0)
    require (s.isSchedulable cfg thread)
    require (!cfg.mcs || s.refillSufficient cfg (s.tcbSchedContext thread) 0)
    require (!cfg.mcs || s.refillReady (s.tcbSchedContext thread))
    s.switchToThread cfg thread
  else .ok s.switchToIdleThread

/-- `nextDomain`; `ksWorkUnitsCompleted`, which it clears, is not part of the state. -/
def nextDomain : SysState :=
  let idx := if s.ksDomScheduleIdx + 1 ≥ cfg.ksDomScheduleLength then 0 else s.ksDomScheduleIdx + 1
  let length := (cfg.ksDomSchedule idx).length
  { s with
    ksDomScheduleIdx := idx
    ksReprogram := cfg.mcs || s.ksReprogram
    ksCurDomain := (cfg.ksDomSchedule idx).domain
    ksDomainTime :=
      if cfg.mcs then BitVec.ofNat 64 (cfg.timer.usToTicks (length * 1000).toNat) else length }

def scheduleChooseNewThread : Checked SysState :=
  (if s.ksDomainTime = 0 then s.nextDomain cfg else s).chooseThread cfg

/-- `fastfail` of `schedule`. -/
def fastfail (candidate : Word) (s : SysState) : Bool :=
  s.ksCurThread == s.ksIdleThread || decide (s.tcbPriority candidate < s.tcbPriority s.ksCurThread)

/-- `fastfail && !isHighestPrio(ksCurDomain, candidate->tcbPriority)`. -/
def candidateFails (candidate : Word) (s : SysState) : Checked Bool :=
  if s.fastfail candidate then
    (! ·) <$> s.isHighestPrio s.ksCurDomain (s.tcbPriority candidate)
  else .ok false

/-- What `schedule` does about a candidate. -/
def scheduleCandidate (candidate : Word) (wasRunnable : Bool) (s : SysState) :
    Checked SysState := do
  require (s.isSchedulable cfg candidate)
  let fails ← s.candidateFails candidate
  if fails then do
    let s ← s.tcbSchedEnqueue cfg candidate
    scheduleChooseNewThread cfg { s with ksSchedulerAction := .chooseNewThread }
  else if wasRunnable && s.tcbPriority candidate == s.tcbPriority s.ksCurThread then do
    let s ← s.tcbSchedAppend cfg candidate
    scheduleChooseNewThread cfg { s with ksSchedulerAction := .chooseNewThread }
  else do
    require (candidate != s.ksCurThread)
    s.switchToThread cfg candidate

/-- What `schedule` does unless the current thread goes on. -/
def scheduleAction : Checked SysState :=
  match s.ksSchedulerAction with
  | .resumeCurrentThread => .ok s
  | action => do
    let wasRunnable := s.isSchedulable cfg s.ksCurThread
    let s ← runIf wasRunnable (tcbSchedEnqueue cfg s.ksCurThread) s
    match action with
    | .switchTo candidate => s.scheduleCandidate cfg candidate wasRunnable
    | _ => s.scheduleChooseNewThread cfg

/-! ## Time -/

def isCurDomainExpired : Bool :=
  decide (cfg.numDomains > 1) && s.ksDomainTime == 0

def checkDomainTime : Checked SysState :=
  runIf (s.isCurDomainExpired cfg) (fun s => rescheduleRequired cfg { s with ksReprogram := true }) s

def tcbReleaseDequeue : Checked SysState := do
  let awakened := s.ksReleaseQueue.head
  require (awakened != 0)
  require (s.tcbSched.prev awakened == 0)
  require (awakened != s.ksCurThread)
  let s := s.tcbReleaseRemove awakened
  require (!Mcs.isRoundRobin (s.sc (s.tcbSchedContext awakened)))
  require (s.refillSufficient cfg (s.tcbSchedContext awakened) 0)
  s.possibleSwitchTo cfg awakened

def releaseQNonEmptyAndReady : Bool :=
  s.ksReleaseQueue.head != 0 && s.refillReady (s.tcbSchedContext s.ksReleaseQueue.head)

/-- `awaken`, for at most `rounds` rounds. -/
def awaken (cfg : SysConfig) : Nat → SysState → Checked SysState
  | 0, _ => .error .fuel
  | rounds + 1, s =>
    if s.releaseQNonEmptyAndReady then do
      let s ← s.tcbReleaseDequeue cfg
      awaken cfg rounds s
    else .ok s

def switchSchedContext : Checked SysState := do
  let sc := s.tcbSchedContext s.ksCurThread
  let s ← runIf (s.ksCurSC ≠ sc) (fun s => do
    let s := { s with ksReprogram := true }
    let s ← runIf (!(s.sc sc).scSporadic) (refillUnblockCheck cfg sc) s
    require (s.refillReady sc)
    require (s.refillSufficient cfg sc 0)
    .ok s) s
  let s ← runIf s.ksReprogram (commitTime cfg) s
  .ok { s with ksCurSC := s.tcbSchedContext s.ksCurThread }

def setNextInterrupt : Checked SysState := do
  let ctHead := Mcs.refillHead (s.sc (s.tcbSchedContext s.ksCurThread))
  let next := (s.ksCurTime + ctHead.rAmount) % 2 ^ 64
  let next :=
    if cfg.numDomains > 1 then min next ((s.ksCurTime + s.ksDomainTime.toNat) % 2 ^ 64) else next
  let next :=
    if s.ksReleaseQueue.head ≠ 0 then min (s.tcbReadyTime s.ksReleaseQueue.head) next else next
  require (decide (next ≥ s.ksCurTime))
  .ok { s with deadline := (next + 2 ^ 64 - cfg.timerPrecision) % 2 ^ 64 }

def schedule : Checked SysState := do
  let s ← runIf cfg.mcs (fun s => do
    let s ← s.awaken cfg loopBound
    s.checkDomainTime cfg) s
  let s ← s.scheduleAction cfg
  let s := { s with ksSchedulerAction := .resumeCurrentThread }
  runIf cfg.mcs (fun s => do
    let s ← s.switchSchedContext cfg
    runIf s.ksReprogram (fun s => do
      let s ← s.setNextInterrupt cfg
      .ok { s with ksReprogram := false }) s) s

/-- `timerTick`, without MCS. -/
def timerTick : Checked SysState := do
  let s ← runIf (s.tsType s.ksCurThread = .running) (fun s =>
    if s.tcbTimeSlice s.ksCurThread > 1 then
      .ok { s with
        tcbTimeSlice := update s.tcbTimeSlice s.ksCurThread
          (s.tcbTimeSlice s.ksCurThread - 1) }
    else do
      let s := { s with
        tcbTimeSlice := update s.tcbTimeSlice s.ksCurThread cfg.timeSlice }
      let s ← s.tcbSchedAppend cfg s.ksCurThread
      s.rescheduleRequired cfg) s
  runIf (cfg.numDomains > 1) (fun s =>
    let s := { s with ksDomainTime := s.ksDomainTime - 1 }
    runIf (s.ksDomainTime = 0) (rescheduleRequired cfg) s) s

/-- `handleYield`, without MCS. -/
def handleYield : Checked SysState := do
  let s ← s.tcbSchedDequeue cfg s.ksCurThread
  let s ← s.tcbSchedAppend cfg s.ksCurThread
  s.rescheduleRequired cfg

end SysState

end SeL4.Thread
