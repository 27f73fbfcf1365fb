import SeL4.Object.Invocation
import SeL4.Mcs.Sporadic
import SeL4.Lib.Queue

/-!
# Threads, queues and the scheduler: the state

The fields of `tcb_t`, `endpoint_t`, `notification_t`, `sched_context_t` and `reply_t`, and the
variables of `nodeState`, on one core. Each field of an object is a map from the address of the
object (`tcbPriority t` is `t->tcbPriority`); an absent object is the null pointer 0. The maps are
grouped by what they are for, since most functions touch one or two groups only:

* `ThreadParams`: priorities and domains;
* `SchedQueues`: the ready queues with their bitmaps, the release queue, and the links through
  `tcbSchedNext` and `tcbSchedPrev`;
* `IpcState`: thread states, endpoints and notifications, and the links through `tcbEPNext` and
  `tcbEPPrev`;
* `BindState`: the pointers between threads, notifications and scheduling contexts (MCS);
* `ReplyState`: reply objects and the call stacks they form (MCS);
* `UserState`: what user level gets to see;
* `NodeState`: the current thread and the scheduler's decisions.

`SysState` puts them together with the slots (`SlotState`) and the refills of `Mcs.SchedContext`.
`SysState.toKState` is the state that the operations on capabilities see.
A build has either the MCS kernel or the other one (`KernelConfig.mcs`); the fields of the other
build are there and not used.

Left out: affinities (one core), FPU ownership, address spaces, and the debugging fields.
-/

namespace SeL4.Thread

open SeL4.Lib SeL4.Object

/-! ## Enumerations -/

inductive ThreadState
  | inactive
  | running
  | restart
  | blockedOnReceive
  | blockedOnSend
  | blockedOnReply
  | blockedOnNotification
  | idleThreadState
  deriving DecidableEq, Repr

/-- `endpoint_state`. -/
inductive EPState
  | idle | send | recv
  deriving DecidableEq, Repr

/-- `notification_state`. -/
inductive NtfnState
  | idle | waiting | active
  deriving DecidableEq, Repr

/-- `ksSchedulerAction`: one of two constants, or a thread to switch to. -/
inductive SchedulerAction
  | resumeCurrentThread
  | chooseNewThread
  | switchTo (candidate : Word)
  deriving DecidableEq, Repr

/-- `call_stack_t`. -/
structure CallStack where
  callStackPtr : Word
  isHead : Bool
  deriving DecidableEq, Repr

/-- `seL4_Fault_t`. Only the null, capability and timeout faults are told apart by the modelled
code; `other` is a fault of another type, with the words that describe it. -/
inductive TcbFault
  | nullFault
  | capFault (address : Word) (inReceivePhase : Bool)
  | timeout (badge : Word)
  | other (faultType : Word) (words : List Word)
  deriving DecidableEq, Repr

/-- `seL4_Fault_get_seL4_FaultType`. -/
def TcbFault.faultType : TcbFault → Word
  | nullFault => 0
  | capFault .. => 1
  | timeout _ => 5
  | other n _ => n

/-- `register_t`: the general registers by number, and the two program counters. -/
inductive Register
  | x (n : Nat)
  | nextIP
  | faultIP
  deriving DecidableEq, Repr

/-- `tcb_queue_t`. -/
abbrev TcbQueue := Queue Word

/-! ## The groups -/

/-- The fields of `KState` other than `replyBlocked`, which the thread states determine. -/
structure SlotState where
  cte : CteHeap
  cdt : Word → Option Word
  mem : Memory
  intStateIRQTable : Word → IrqState
  preempted : Nat → Bool

/-- Priorities, maximum controlled priorities and domains of threads. -/
structure ThreadParams where
  tcbPriority : Word → Nat
  tcbMCP : Word → Nat
  tcbDomain : Word → Nat

/-- The queues of the scheduler. -/
structure SchedQueues where
  /-- `tcbSchedNext` and `tcbSchedPrev`. -/
  tcbSched : Links Word
  tcbQueued : Word → Bool
  tcbInReleaseQueue : Word → Bool
  ksReadyQueues : Nat → TcbQueue
  /-- By domain. -/
  ksReadyQueuesL1Bitmap : Nat → Word
  /-- By domain and inverted index. -/
  ksReadyQueuesL2Bitmap : Nat → Nat → Word
  ksReleaseQueue : TcbQueue

/-- Thread states, endpoints and notifications. -/
structure IpcState where
  tsType : Word → ThreadState
  blockingObject : Word → Word
  blockingIPCBadge : Word → Word
  blockingIPCCanGrant : Word → Bool
  blockingIPCCanGrantReply : Word → Bool
  blockingIPCIsCall : Word → Bool
  /-- MCS. -/
  replyObject : Word → Word
  /-- `tcbEPNext` and `tcbEPPrev`. -/
  tcbEP : Links Word
  epState : Word → EPState
  epQueue : Word → TcbQueue
  ntfnState : Word → NtfnState
  ntfnMsgIdentifier : Word → Word
  ntfnQueue : Word → TcbQueue

/-- Which objects are bound to which. -/
structure BindState where
  tcbBoundNotification : Word → Word
  ntfnBoundTCB : Word → Word
  tcbSchedContext : Word → Word
  scTcb : Word → Word
  ntfnSchedContext : Word → Word
  scNotification : Word → Word
  tcbYieldTo : Word → Word
  scYieldFrom : Word → Word

/-- Reply objects. -/
structure ReplyState where
  replyTCB : Word → Word
  replyPrev : Word → CallStack
  replyNext : Word → CallStack
  scReply : Word → Word

/-- Registers, message buffers and faults of threads, and the time that is reported to them. -/
structure UserState where
  registers : Word → Register → Word
  /-- `tcbIPCBuffer`: the address that user level uses for the message buffer. -/
  tcbIPCBuffer : Word → Word
  /-- The words of message buffers, by kernel address. -/
  bufferMem : Word → Word
  tcbFault : Word → TcbFault
  tcbLookupFailure : Word → CSpace.LookupFault
  /-- Not on MCS, where the handler is in a slot. -/
  tcbFaultHandler : Word → Word
  scConsumed : Word → Nat
  scBadge : Word → Word

/-- The scheduler's variables. -/
structure NodeState where
  ksCurThread : Word
  ksIdleThread : Word
  ksSchedulerAction : SchedulerAction
  ksCurDomain : Nat
  ksDomainTime : Word
  ksDomScheduleIdx : Nat
  /-- Not on MCS. -/
  tcbTimeSlice : Word → Word
  ksCurSC : Word
  ksIdleSC : Word
  ksCurTime : Nat
  ksConsumed : Nat
  ksReprogram : Bool
  /-- What `setDeadline` has written to the timer. -/
  deadline : Nat

/-- The kernel state. -/
structure SysState extends SlotState, ThreadParams, SchedQueues, IpcState, BindState, ReplyState,
    UserState, NodeState where
  /-- Period and refills of a scheduling context. -/
  sc : Word → Mcs.SchedContext

/-- The state of the operations on capabilities. -/
def SysState.toKState (s : SysState) : KState where
  cte := s.cte
  cdt := s.cdt
  mem := s.mem
  intStateIRQTable := s.intStateIRQTable
  replyBlocked t := s.tsType t == .blockedOnReply
  preempted := s.preempted

/-- The slots after an operation on capabilities. -/
def SlotState.ofKState (k : KState) : SlotState where
  cte := k.cte
  cdt := k.cdt
  mem := k.mem
  intStateIRQTable := k.intStateIRQTable
  preempted := k.preempted

/-! ## Configuration -/

/-- `dschedule_t`. -/
structure DSchedule where
  domain : Nat
  length : Word

def numPriorities : Nat := 256

def maxPrio : Nat := numPriorities - 1

def l2BitmapSize : Nat := (numPriorities + wordBits - 1) / wordBits

/-- The build options of this part of the kernel, and the code that it is independent of. -/
structure SysConfig extends KernelConfig where
  /-- `CONFIG_NUM_DOMAINS`. -/
  numDomains : Nat
  /-- `ksDomSchedule`. -/
  ksDomSchedule : Nat → DSchedule
  ksDomScheduleLength : Nat
  /-- `CONFIG_TIME_SLICE`. -/
  timeSlice : Word
  timer : Mcs.TimerConfig
  /-- `getTimerPrecision`. -/
  timerPrecision : Nat
  /-- `setMRs_fault`: sender, receiver and the receiver's buffer; it returns the length. -/
  setMRsFault : Word → Word → Option Word → UserState → Nat × UserState
  /-- `handleFaultReply`: receiver and sender; it returns whether to restart. -/
  handleFaultReply : Word → Word → UserState → Bool × UserState
  /-- The checks of the fast path on the address space of a thread. -/
  vspaceValid : Word → CteHeap → Bool
  numDomains_pos : 0 < numDomains
  domSchedule_lt : ∀ i, (ksDomSchedule i).domain < numDomains

/-- The benchmark's own build: one domain, which runs for one time unit at a time. -/
def benchSysConfig : SysConfig where
  toKernelConfig := benchConfig
  numDomains := 1
  ksDomSchedule _ := ⟨0, 1⟩
  ksDomScheduleLength := 1
  timeSlice := 5
  timer := Mcs.rk3588
  timerPrecision := 0
  setMRsFault _ _ _ u := (0, u)
  handleFaultReply _ _ u := (true, u)
  vspaceValid _ _ := true
  numDomains_pos := Nat.one_pos
  domSchedule_lt _ := Nat.one_pos

/-- The same build with the MCS kernel. -/
def mcsSysConfig : SysConfig := { benchSysConfig with mcs := true }

/-- All memory is zero. -/
def SysState.zero : SysState where
  cte _ := ⟨.null, nullMDBNode⟩
  cdt _ := none
  mem _ := 0
  intStateIRQTable _ := .inactive
  preempted _ := false
  tcbPriority _ := 0
  tcbMCP _ := 0
  tcbDomain _ := 0
  tcbSched := ⟨fun _ => 0, fun _ => 0⟩
  tcbQueued _ := false
  tcbInReleaseQueue _ := false
  ksReadyQueues _ := ⟨0, 0⟩
  ksReadyQueuesL1Bitmap _ := 0
  ksReadyQueuesL2Bitmap _ _ := 0
  ksReleaseQueue := ⟨0, 0⟩
  tsType _ := .inactive
  blockingObject _ := 0
  blockingIPCBadge _ := 0
  blockingIPCCanGrant _ := false
  blockingIPCCanGrantReply _ := false
  blockingIPCIsCall _ := false
  replyObject _ := 0
  tcbEP := ⟨fun _ => 0, fun _ => 0⟩
  epState _ := .idle
  epQueue _ := ⟨0, 0⟩
  ntfnState _ := .idle
  ntfnMsgIdentifier _ := 0
  ntfnQueue _ := ⟨0, 0⟩
  tcbBoundNotification _ := 0
  ntfnBoundTCB _ := 0
  tcbSchedContext _ := 0
  scTcb _ := 0
  ntfnSchedContext _ := 0
  scNotification _ := 0
  tcbYieldTo _ := 0
  scYieldFrom _ := 0
  replyTCB _ := 0
  replyPrev _ := ⟨0, false⟩
  replyNext _ := ⟨0, false⟩
  scReply _ := 0
  registers _ _ := 0
  tcbIPCBuffer _ := 0
  bufferMem _ := 0
  tcbFault _ := .nullFault
  tcbLookupFailure _ := .invalidRoot
  tcbFaultHandler _ := 0
  scConsumed _ := 0
  scBadge _ := 0
  ksCurThread := 0
  ksIdleThread := 0
  ksSchedulerAction := .resumeCurrentThread
  ksCurDomain := 0
  ksDomainTime := 0
  ksDomScheduleIdx := 0
  tcbTimeSlice _ := 0
  ksCurSC := 0
  ksIdleSC := 0
  ksCurTime := 0
  ksConsumed := 0
  ksReprogram := false
  deadline := 0
  sc _ := ⟨0, 0, 0, 0, false, fun _ => ⟨0, 0⟩⟩

end SeL4.Thread
