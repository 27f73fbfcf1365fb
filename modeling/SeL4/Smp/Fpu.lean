import Mathlib.Data.Fin.Basic
import SeL4.Lib.Banks
import SeL4.Lib.Trace
import SeL4.Lib.Word

/-!
# The floating point unit

Each core has one FPU, which is switched lazily: `ksCurFPUOwner` is the thread whose values are in its
registers, and the values of every other thread are in its TCB. This file models `machine/fpu.c`
(`switchLocalFpuOwner`, `switchFpuOwner`, `fpuRelease`), `lazyFPURestore`, `enableFpu` and `disableFpu`
with and without hypervisor support, and every operation that has to keep them right: `switchToThread`,
`switchToIdleThread`, `remoteTCBStall`, `migrateTCB`, `invokeSetFlags`, `prepareSetDomain` and
`setDomain`, `prepareNextDomain` and `nextDomain`, `maybeDonateSchedContext_fp`, and the creation and
deletion of a thread.

The cores are serialised by the big kernel lock: at most one core is in the kernel (`holder`), and each
of the others runs its current thread or its idle thread (`none`) and may be interrupted by the holder.
A remote call is executed by its target at once; what the interrupts do is in `Smp/RemoteCall.lean`.

* `FpuState.next` is one operation of the holder, or one access to the FPU by a thread in user mode.
* `mustSwitch` says that `rescheduleRequired` was called because the current thread itself was moved,
  deleted or put into another domain, or that the domain is being switched: `schedule` then switches to
  a thread before the kernel is left.
* `left` is a ghost: the values a thread had in the FPU when it last ran.

More than one core is configured only with a single domain (`KernelMaxNumNodes` in `config.cmake`),
which is the field `smp_domains` of `FpuConfig`.
-/

namespace SeL4.Smp

open SeL4.Lib Function

/-- `user_fpu_state_t`. -/
structure UserFpuState where
  vregs : Vector (BitVec 64) 64
  fpsr : BitVec 32
  fpcr : BitVec 32
  deriving DecidableEq, Repr

/-- What the kernel is built with. -/
structure FpuConfig where
  numCores : Nat
  numDomains : Nat
  hyp : Bool
  smp_domains : 1 < numCores → numDomains = 1

/-- `seL4_TCBFlag_fpuDisabled`, the only flag there is. -/
def tcbFlagFpuDisabled : Word := 1

/-- `seL4_TCBFlag_MASK` with `CONFIG_HAVE_FPU`. -/
def tcbFlagMASK : Word := 0 ||| tcbFlagFpuDisabled

/-! ## Traps of the FPU -/

/-- The registers that say whether a use of the FPU in user mode traps. -/
structure FpuControl where
  cptr_el2 : Word
  cpacr_el1 : Word
  deriving DecidableEq, Repr

namespace FpuControl

def disableTrapFpu (r : FpuControl) : FpuControl :=
  { r with cptr_el2 := r.cptr_el2 &&& ~~~(bit 10 ||| bit 31) }

/-- `enableFpuEL01`; `CPACR_EL1_FPEN` is 20. -/
def enableFpuEL01 (r : FpuControl) : FpuControl := { r with cpacr_el1 := r.cpacr_el1 ||| (3#64 <<< 20) }

def enableTrapFpu (r : FpuControl) : FpuControl :=
  { r with cptr_el2 := r.cptr_el2 ||| (bit 10 ||| bit 31) }

def disableFpuEL0 (r : FpuControl) : FpuControl :=
  { r with cpacr_el1 := (r.cpacr_el1 &&& ~~~(3#64 <<< 20)) ||| (1#64 <<< 20) }

def enableFpu (hyp : Bool) (r : FpuControl) : FpuControl :=
  if hyp then r.disableTrapFpu else r.enableFpuEL01

def disableFpu (hyp : Bool) (r : FpuControl) : FpuControl :=
  if hyp then r.enableTrapFpu else r.disableFpuEL0

def fpsimdInit (hyp : Bool) (r : FpuControl) : FpuControl :=
  let r := r.disableFpu hyp
  if hyp then r.enableFpuEL01 else r

/-- Whether an instruction of the FPU in user mode traps to the kernel: by `CPTR_EL2.TFP` if the kernel
is a hypervisor, and else unless both bits of `CPACR_EL1.FPEN` are set. -/
def traps (hyp : Bool) (r : FpuControl) : Bool :=
  if hyp then r.cptr_el2.getLsbD 10 else !(r.cpacr_el1.getLsbD 20 && r.cpacr_el1.getLsbD 21)

@[simp] theorem traps_enableFpu (hyp : Bool) (r : FpuControl) : (r.enableFpu hyp).traps hyp = false := by
  cases hyp <;> simp [traps, enableFpu, disableTrapFpu, enableFpuEL01, bit]

@[simp] theorem traps_disableFpu (hyp : Bool) (r : FpuControl) : (r.disableFpu hyp).traps hyp = true := by
  cases hyp <;> simp [traps, disableFpu, enableTrapFpu, disableFpuEL0, bit]

end FpuControl

/-! ## State -/

/-- The state of the cores and of the threads, as far as the FPU is concerned. A thread is the address
of its TCB. -/
structure FpuState (cfg : FpuConfig) where
  /-- `none` is the idle thread. -/
  ksCurThread : Fin cfg.numCores → Option Word
  ksCurFPUOwner : Fin cfg.numCores → Option Word
  /-- The registers of the FPU. -/
  fpu : Fin cfg.numCores → UserFpuState
  control : Fin cfg.numCores → FpuControl
  /-- `tcbArch.tcbContext.fpuState`. -/
  fpuState : Word → UserFpuState
  tcbAffinity : Word → Fin cfg.numCores
  tcbFlags : Word → Word
  tcbDomain : Word → Nat
  ksCurDomain : Nat
  /-- There is a TCB at this address and it is not deleted. -/
  live : Word → Bool
  /-- The core that holds the kernel lock. -/
  holder : Option (Fin cfg.numCores)
  mustSwitch : Bool
  left : Word → UserFpuState

namespace FpuState

variable {cfg : FpuConfig} (s : FpuState cfg) (me c : Fin cfg.numCores)

/-- `tcbFlags & seL4_TCBFlag_fpuDisabled`. -/
def fpuDisabled (t : Word) : Bool := s.tcbFlags t &&& tcbFlagFpuDisabled != 0

/-- A use of the FPU on core `c` in user mode traps. -/
def traps (s : FpuState cfg) (c : Fin cfg.numCores) : Bool := (s.control c).traps cfg.hyp

/-- Owners, registers and saved values. -/
def banks : Banks (Fin cfg.numCores) Word UserFpuState :=
  ⟨s.ksCurFPUOwner, s.fpu, s.fpuState⟩

/-! ## `machine/fpu.c` and `machine/fpu.h` -/

/-- `enableFpu` on core `c`. -/
def enableFpu (s : FpuState cfg) (c : Fin cfg.numCores) : FpuState cfg :=
  { s with control := update s.control c ((s.control c).enableFpu cfg.hyp) }

/-- `disableFpu` on core `c`. -/
def disableFpu (s : FpuState cfg) (c : Fin cfg.numCores) : FpuState cfg :=
  { s with control := update s.control c ((s.control c).disableFpu cfg.hyp) }

/-- `saveFpuState` on core `c`. -/
def saveFpuState (t : Word) : FpuState cfg :=
  { s with fpuState := update s.fpuState t (s.fpu c) }

/-- `loadFpuState` on core `c`. -/
def loadFpuState (t : Word) : FpuState cfg :=
  { s with fpu := update s.fpu c (s.fpuState t) }

/-- `NODE_STATE(ksCurFPUOwner) = new_owner` on core `c`. -/
def setOwner (o : Option Word) : FpuState cfg :=
  { s with ksCurFPUOwner := update s.ksCurFPUOwner c o }

/-- The first `if` of `switchLocalFpuOwner`. -/
def saveOwner : FpuState cfg :=
  match s.ksCurFPUOwner c with
  | some owner => s.saveFpuState c owner
  | none => s

/-- Its second `if`. -/
def loadOwner : Option Word → FpuState cfg
  | some t => s.loadFpuState c t
  | none => s.disableFpu c

/-- `switchLocalFpuOwner`, executed by core `c`. -/
def switchLocalFpuOwner (newOwner : Option Word) : FpuState cfg :=
  let s := s.enableFpu c
  let s := s.saveOwner c
  let s := s.loadOwner c newOwner
  s.setOwner c newOwner

/-- `switchFpuOwner`, executed by core `me`: another core is asked to make the switch. -/
def switchFpuOwner (newOwner : Option Word) (cpu : Fin cfg.numCores) : FpuState cfg :=
  if cpu ≠ me then s.switchLocalFpuOwner cpu newOwner else s.switchLocalFpuOwner me newOwner

def nativeThreadUsingFPU (t : Word) : Bool :=
  s.ksCurFPUOwner (s.tcbAffinity t) == some t

/-- `fpuRelease`, executed by core `me`. -/
def fpuRelease (t : Word) : FpuState cfg :=
  if s.nativeThreadUsingFPU t then s.switchFpuOwner me none (s.tcbAffinity t) else s

/-- `lazyFPURestore`, executed by core `me`. -/
def lazyFPURestore (t : Word) : FpuState cfg :=
  if s.fpuDisabled t then s.disableFpu me
  else if s.nativeThreadUsingFPU t then s.enableFpu me
  else s.switchLocalFpuOwner me (some t)

/-! ## Operations of the kernel, executed by core `me` -/

/-- `NODE_STATE(ksCurThread) = t` on core `c`. -/
def setCurThread (t : Option Word) : FpuState cfg :=
  { s with ksCurThread := update s.ksCurThread c t }

/-- `rescheduleRequired`, where it is called since thread `t` is the current one. -/
def rescheduleIfCurrent (t : Word) : FpuState cfg :=
  if s.ksCurThread me = some t then { s with mustSwitch := true } else s

def switchToThread (t : Word) : FpuState cfg :=
  { (s.lazyFPURestore me t).setCurThread me (some t) with mustSwitch := false }

def switchToIdleThread : FpuState cfg :=
  { s.setCurThread me none with mustSwitch := false }

/-- `remoteTCBStall`: a core that runs the thread is switched to its idle thread
(`ipiStallCoreCallback`). -/
def remoteTCBStall (t : Word) : FpuState cfg :=
  if s.tcbAffinity t ≠ me ∧ s.ksCurThread (s.tcbAffinity t) = some t then
    s.setCurThread (s.tcbAffinity t) none
  else s

def migrateTCB (t : Word) (newCore : Fin cfg.numCores) : FpuState cfg :=
  let s := if s.nativeThreadUsingFPU t then s.switchFpuOwner me none (s.tcbAffinity t) else s
  { s with tcbAffinity := update s.tcbAffinity t newCore }

/-- `invokeTCB_SetAffinity` after the stall of `decodeTCBInvocation`, and what
`invokeSchedControl_ConfigureFlags` does with the thread of its scheduling context. -/
def setAffinity (t : Word) (newCore : Fin cfg.numCores) : FpuState cfg :=
  ((s.remoteTCBStall me t).migrateTCB me t newCore).rescheduleIfCurrent me t

/-- `maybeDonateSchedContext_fp`, which only stores the new core. -/
def maybeDonateSchedContextFp (t : Word) (newCore : Fin cfg.numCores) : FpuState cfg :=
  { s with tcbAffinity := update s.tcbAffinity t newCore }

/-- `invokeSetFlags` after the stall of `decodeTCBInvocation`. -/
def setFlags (t clear set : Word) : FpuState cfg :=
  let s := s.remoteTCBStall me t
  let flags := (s.tcbFlags t &&& ~~~clear) ||| (set &&& tcbFlagMASK)
  let s := { s with tcbFlags := update s.tcbFlags t flags }
  if s.fpuDisabled t then s.fpuRelease me t
  else if s.ksCurThread me = some t then s.lazyFPURestore me t
  else s

/-- `invokeDomainSetSet`: `prepareSetDomain` and `setDomain`. -/
def setDomain (t : Word) (dom : Nat) : FpuState cfg :=
  let s := if s.ksCurDomain ≠ dom then s.fpuRelease me t else s
  let s := { s with tcbDomain := update s.tcbDomain t dom }
  s.rescheduleIfCurrent me t

/-- `prepareNextDomain` and `nextDomain`, after which `scheduleChooseNewThread` chooses a thread. -/
def nextDomain (dom : Nat) : FpuState cfg :=
  { s.switchLocalFpuOwner me none with ksCurDomain := dom, mustSwitch := true }

/-- `finaliseCap` of the last thread cap: the stall, `suspend` and `Arch_prepareThreadDelete`. -/
def deleteThread (t : Word) : FpuState cfg :=
  let s := (s.remoteTCBStall me t).rescheduleIfCurrent me t
  let s := s.fpuRelease me t
  { s with live := update s.live t false }

/-- `createObject` of a TCB, whose memory is zero. The affinity is that of the caller's core, and 0 with
`CONFIG_KERNEL_MCS`. -/
def createThread (t : Word) (affinity : Fin cfg.numCores) : FpuState cfg :=
  let zero : UserFpuState := ⟨Vector.replicate 64 0, 0, 0⟩
  { s with live := update s.live t true, tcbAffinity := update s.tcbAffinity t affinity,
           tcbFlags := update s.tcbFlags t 0,
           tcbDomain := update s.tcbDomain t s.ksCurDomain,
           fpuState := update s.fpuState t zero, left := update s.left t zero }

end FpuState

/-! ## Runs -/

/-- An operation of the core that holds the lock. -/
inductive FpuOp (cfg : FpuConfig) where
  | switchToThread (t : Word)
  | switchToIdleThread
  | remoteTCBStall (t : Word)
  | setAffinity (t : Word) (newCore : Fin cfg.numCores)
  /-- `migrateTCB` in `schedContext_bindTCB` and `schedContext_donate`. -/
  | donate (t : Word) (newCore : Fin cfg.numCores)
  /-- The donation of `fastpath_signal`. -/
  | donateFp (t : Word) (newCore : Fin cfg.numCores)
  | setFlags (t clear set : Word)
  | setDomain (t : Word) (dom : Nat)
  | nextDomain (dom : Nat)
  | deleteThread (t : Word)
  | createThread (t : Word) (affinity : Fin cfg.numCores)
  deriving DecidableEq

/-- What happens in the system. -/
inductive FpuEvent (cfg : FpuConfig) where
  /-- A core gets the lock. -/
  | enter (c : Fin cfg.numCores)
  | op (o : FpuOp cfg)
  /-- The holder returns to its current thread. -/
  | exit
  /-- The current thread of a core in user mode changes the registers of the FPU. -/
  | access (c : Fin cfg.numCores) (v : UserFpuState)
  deriving DecidableEq

namespace FpuState

variable {cfg : FpuConfig} (s : FpuState cfg) (me c : Fin cfg.numCores)

/-- An operation of core `me`, where its callers allow it. -/
def kernel (s : FpuState cfg) (me : Fin cfg.numCores) : FpuOp cfg → Option (FpuState cfg)
  -- the ready queues of a core hold threads of its affinity
  | .switchToThread t =>
    if s.live t = true ∧ s.tcbAffinity t = me then some (s.switchToThread me t) else none
  | .switchToIdleThread => some (s.switchToIdleThread me)
  | .remoteTCBStall t => some (s.remoteTCBStall me t)
  | .setAffinity t newCore => if s.live t then some (s.setAffinity me t newCore) else none
  -- the thread has no scheduling context: no other core runs it, and if it is the current one of this
  -- core then the loss of its scheduling context has made the kernel reschedule
  | .donate t newCore =>
    if s.live t = true ∧ (∀ c ≠ me, s.ksCurThread c ≠ some t) ∧
        (s.ksCurThread me = some t → s.mustSwitch = true) then
      some (s.migrateTCB me t newCore)
    else none
  -- a blocked thread; one that has its values in the FPU of a core takes the slow path
  | .donateFp t newCore =>
    if s.live t = true ∧ (∀ c, s.ksCurThread c ≠ some t) ∧ s.nativeThreadUsingFPU t = false then
      some (s.maybeDonateSchedContextFp t newCore)
    else none
  -- an invocation is made by the current thread while it is the one to return to
  | .setFlags t clear set =>
    if s.live t = true ∧ s.mustSwitch = false then some (s.setFlags me t clear set) else none
  | .setDomain t dom => if s.live t = true ∧ dom < cfg.numDomains then some (s.setDomain me t dom) else none
  | .nextDomain dom => if dom < cfg.numDomains then some (s.nextDomain me dom) else none
  | .deleteThread t => if s.live t then some (s.deleteThread me t) else none
  | .createThread t affinity => if s.live t then none else some (s.createThread t affinity)

/-- One event. -/
def next : FpuEvent cfg → Option (FpuState cfg)
  | .enter c => if s.holder = none then some { s with holder := some c, mustSwitch := false } else none
  | .op o =>
    match s.holder with
    | some me => s.kernel me o
    | none => none
  | .exit =>
    if s.holder ≠ none ∧ s.mustSwitch = false then some { s with holder := none } else none
  | .access c v =>
    match s.ksCurThread c with
    | some t =>
      if s.holder ≠ some c ∧ s.traps c = false then
        some { s with fpu := update s.fpu c v, left := update s.left t v }
      else none
    | none => none

/-- The state after `fpsimd_init` on every core, with each core at its idle thread and any threads. -/
def boot (cfg : FpuConfig) (fpu : Fin cfg.numCores → UserFpuState)
    (control : Fin cfg.numCores → FpuControl) (fpuState : Word → UserFpuState)
    (tcbAffinity : Word → Fin cfg.numCores) (tcbFlags : Word → Word) (tcbDomain : Word → Nat)
    (live : Word → Bool) (ksCurDomain : Fin cfg.numDomains) : FpuState cfg where
  ksCurThread _ := none
  ksCurFPUOwner _ := none
  fpu := fpu
  control c := (control c).fpsimdInit cfg.hyp
  fpuState := fpuState
  tcbAffinity := tcbAffinity
  tcbFlags := tcbFlags
  tcbDomain := tcbDomain
  ksCurDomain := ksCurDomain
  live := live
  holder := none
  mustSwitch := false
  left := fpuState

/-- Core `c` runs thread `t` in user mode. -/
def InUserMode (t : Word) : Prop :=
  s.holder ≠ some c ∧ s.ksCurThread c = some t

end FpuState

end SeL4.Smp
