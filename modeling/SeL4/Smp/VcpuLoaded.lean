import Mathlib.Data.Fin.Basic
import SeL4.Lib.Trace
import SeL4.Lib.Word

/-!
# Which VCPU is loaded on which core

`armHSCurVCPU` of a core is the VCPU whose registers it holds. A core goes on holding them when it
switches to a thread without a VCPU, so that the pointer can outlive what it points to. This file models
`vcpu_switch`, `vcpu_invalidate_active`, `associateVCPUTCB`, `dissociateVCPUTCB` and `vcpu_finalise` of
`arch/arm/object/vcpu.c`, and the operations that call them or should: `switchToThread`,
`switchToIdleThread`, `remoteTCBStall`, `migrateTCB`, `Arch_prepareThreadDelete` and the VCPU invocation
`SetTCB`, for any number of cores of which one at a time holds the kernel lock.

`Fresh s` says that what is loaded on a core is a VCPU that is not deleted and is bound to a thread of
this core. `dissociateVCPUTCB` looks only at the core that executes it, and `migrateTCB` at none, so
`Fresh` can be lost. `Local s e` names the steps that do not lose it; that these are all is proved in
`Smp/VcpuFresh.lean`.

`savedDeleted` is a ghost that records such a save, and `failed` one that records a call of `fail`.
The contents of the registers are those of `Hyp/VcpuContext.lean`.
-/

namespace SeL4.Smp

open SeL4.Lib Function

/-- What the cores have loaded, the bindings of VCPUs and threads, and what exists. -/
structure VcpuState (n : Nat) where
  /-- `none` is the idle thread. -/
  ksCurThread : Fin n → Option Word
  armHSCurVCPU : Fin n → Option Word
  armHSVCPUActive : Fin n → Bool
  tcbVCPU : Word → Option Word
  vcpuTCB : Word → Option Word
  tcbAffinity : Word → Fin n
  liveTcb : Word → Bool
  liveVcpu : Word → Bool
  /-- The core that holds the kernel lock. -/
  holder : Option (Fin n)
  /-- `rescheduleRequired` was called as the current thread of the holder was moved or deleted. -/
  mustSwitch : Bool
  savedDeleted : Bool
  failed : Bool

namespace VcpuState

variable {n : Nat} (s : VcpuState n) (me c : Fin n)

/-! ## `arch/arm/object/vcpu.c` -/

/-- `vcpu_save` and the part of `vcpu_disable` that stores registers. -/
def saveTo (v : Word) : VcpuState n :=
  { s with savedDeleted := s.savedDeleted || !s.liveVcpu v }

/-- `ARCH_NODE_STATE(armHSCurVCPU) = v` on core `c`. -/
def setCurVCPU (v : Option Word) : VcpuState n :=
  { s with armHSCurVCPU := update s.armHSCurVCPU c v }

/-- `ARCH_NODE_STATE(armHSVCPUActive) = a` on core `c`. -/
def setActive (a : Bool) : VcpuState n :=
  { s with armHSVCPUActive := update s.armHSVCPUActive c a }

/-- `vcpu_switch(new)` with a VCPU, on core `c`. -/
def vcpuSwitchTo (v : Word) : VcpuState n :=
  if s.armHSCurVCPU c ≠ some v then
    let s := match s.armHSCurVCPU c with
      | some u => s.saveTo u
      | none => s
    (s.setCurVCPU c (some v)).setActive c true
  else s.setActive c true

/-- `vcpu_switch(NULL)` on core `c`. -/
def vcpuSwitchNull : VcpuState n :=
  match s.armHSCurVCPU c with
  | some u => if s.armHSVCPUActive c then (s.saveTo u).setActive c false else s
  | none => s

/-- `vcpu_switch` on core `c`. -/
def vcpuSwitch : Option Word → VcpuState n
  | some v => s.vcpuSwitchTo c v
  | none => s.vcpuSwitchNull c

/-- `vcpu_invalidate_active` on core `c`, which stores nothing. -/
def vcpuInvalidateActive : VcpuState n :=
  (s.setActive c false).setCurVCPU c none

/-- `dissociateVCPUTCB`, executed by core `me`. -/
def dissociateVCPUTCB (v t : Word) : VcpuState n :=
  let s := if s.tcbVCPU t ≠ some v ∨ s.vcpuTCB v ≠ some t then { s with failed := true } else s
  let s := if s.armHSCurVCPU me = some v then s.vcpuInvalidateActive me else s
  { s with tcbVCPU := update s.tcbVCPU t none, vcpuTCB := update s.vcpuTCB v none }

/-- The first `if` of `associateVCPUTCB`, which is `Arch_prepareThreadDelete` as well. -/
def dissociateTcb (t : Word) : VcpuState n :=
  match s.tcbVCPU t with
  | some v => s.dissociateVCPUTCB me v t
  | none => s

/-- Its second `if`, which is `vcpu_finalise` as well. -/
def dissociateVcpu (v : Word) : VcpuState n :=
  match s.vcpuTCB v with
  | some t => s.dissociateVCPUTCB me v t
  | none => s

/-- The two assignments of `associateVCPUTCB`. -/
def bind (v t : Word) : VcpuState n :=
  { s with tcbVCPU := update s.tcbVCPU t (some v), vcpuTCB := update s.vcpuTCB v (some t) }

/-- `associateVCPUTCB`, executed by core `me`. -/
def associateVCPUTCB (v t : Word) : VcpuState n :=
  let s := ((s.dissociateTcb me t).dissociateVcpu me v).bind v t
  if s.ksCurThread me = some t then s.vcpuSwitch me (some v) else s

/-! ## The operations that concern VCPUs, executed by core `me` -/

/-- `NODE_STATE(ksCurThread) = t` on core `c`. -/
def setCurThread (t : Option Word) : VcpuState n :=
  { s with ksCurThread := update s.ksCurThread c t }

/-- `rescheduleRequired`, where it is called since thread `t` is the current one. -/
def rescheduleIfCurrent (t : Word) : VcpuState n :=
  if s.ksCurThread me = some t then { s with mustSwitch := true } else s

def switchToThread (t : Word) : VcpuState n :=
  { (s.vcpuSwitch me (s.tcbVCPU t)).setCurThread me (some t) with mustSwitch := false }

/-- `switchToIdleThread` on core `c`. -/
def switchToIdleThread : VcpuState n :=
  (s.vcpuSwitch c none).setCurThread c none

/-- `remoteTCBStall`: a core that runs the thread switches to its idle thread
(`ipiStallCoreCallback`). -/
def remoteTCBStall (t : Word) : VcpuState n :=
  if s.tcbAffinity t ≠ me ∧ s.ksCurThread (s.tcbAffinity t) = some t then
    s.switchToIdleThread (s.tcbAffinity t)
  else s

def migrateTCB (t : Word) (newCore : Fin n) : VcpuState n :=
  { s with tcbAffinity := update s.tcbAffinity t newCore }

/-- `invokeTCB_SetAffinity` after the stall of `decodeTCBInvocation`, and what
`invokeSchedControl_ConfigureFlags` does with the thread of its scheduling context. -/
def setAffinity (t : Word) (newCore : Fin n) : VcpuState n :=
  ((s.remoteTCBStall me t).migrateTCB t newCore).rescheduleIfCurrent me t

/-- `finaliseCap` of the last thread cap: the stall, `suspend` and `Arch_prepareThreadDelete`. -/
def deleteTcb (t : Word) : VcpuState n :=
  let s := (s.remoteTCBStall me t).rescheduleIfCurrent me t
  let s := s.dissociateTcb me t
  { s with liveTcb := update s.liveTcb t false }

/-- `Arch_finaliseCap` of the last VCPU cap. -/
def deleteVcpu (v : Word) : VcpuState n :=
  let s := s.dissociateVcpu me v
  { s with liveVcpu := update s.liveVcpu v false }

end VcpuState

/-! ## Runs -/

/-- An operation of the core that holds the lock. -/
inductive VcpuOp (n : Nat) where
  | switchToThread (t : Word)
  | switchToIdleThread
  | remoteTCBStall (t : Word)
  | setAffinity (t : Word) (newCore : Fin n)
  /-- `migrateTCB` in `schedContext_bindTCB` and `schedContext_donate`. -/
  | donate (t : Word) (newCore : Fin n)
  /-- The VCPU invocation `SetTCB`. -/
  | setTCB (v t : Word)
  | deleteTcb (t : Word)
  | deleteVcpu (v : Word)
  | createTcb (t : Word) (affinity : Fin n)
  | createVcpu (v : Word)
  deriving DecidableEq

/-- What happens in the system. -/
inductive VcpuEvent (n : Nat) where
  /-- A core gets the lock. -/
  | enter (c : Fin n)
  | op (o : VcpuOp n)
  /-- The holder returns to its current thread. -/
  | exit
  deriving DecidableEq

namespace VcpuState

variable {n : Nat} (s : VcpuState n) (me c : Fin n)

/-- An operation of core `me`, where its callers allow it. -/
def kernel (s : VcpuState n) (me : Fin n) : VcpuOp n → Option (VcpuState n)
  -- the ready queues of a core hold threads of its affinity
  | .switchToThread t =>
    if s.liveTcb t = true ∧ s.tcbAffinity t = me then some (s.switchToThread me t) else none
  | .switchToIdleThread => some { s.switchToIdleThread me with mustSwitch := false }
  | .remoteTCBStall t => some (s.remoteTCBStall me t)
  | .setAffinity t newCore => if s.liveTcb t then some (s.setAffinity me t newCore) else none
  -- the thread has no scheduling context: no other core runs it, and if it is the current one of this
  -- core then the loss of its scheduling context has made the kernel reschedule
  | .donate t newCore =>
    if s.liveTcb t = true ∧ (∀ c ≠ me, s.ksCurThread c ≠ some t) ∧
        (s.ksCurThread me = some t → s.mustSwitch = true) then
      some (s.migrateTCB t newCore)
    else none
  -- an invocation is made by the current thread while it is the one to return to
  | .setTCB v t =>
    if s.liveVcpu v = true ∧ s.liveTcb t = true ∧ s.mustSwitch = false then
      some (s.associateVCPUTCB me v t)
    else none
  | .deleteTcb t => if s.liveTcb t then some (s.deleteTcb me t) else none
  | .deleteVcpu v => if s.liveVcpu v then some (s.deleteVcpu me v) else none
  | .createTcb t affinity =>
    if s.liveTcb t then none
    else some { s with liveTcb := update s.liveTcb t true,
                       tcbAffinity := update s.tcbAffinity t affinity }
  | .createVcpu v =>
    if s.liveVcpu v then none else some { s with liveVcpu := update s.liveVcpu v true }

/-- One event. -/
def next : VcpuEvent n → Option (VcpuState n)
  | .enter c => if s.holder = none then some { s with holder := some c, mustSwitch := false } else none
  | .op o =>
    match s.holder with
    | some me => s.kernel me o
    | none => none
  | .exit =>
    if s.holder ≠ none ∧ s.mustSwitch = false then some { s with holder := none } else none

/-- The state after `vcpu_boot_init` on every core, with each core at its idle thread. -/
def boot (tcbAffinity : Word → Fin n) (liveTcb liveVcpu : Word → Bool) : VcpuState n where
  ksCurThread _ := none
  armHSCurVCPU _ := none
  armHSVCPUActive _ := false
  tcbVCPU _ := none
  vcpuTCB _ := none
  tcbAffinity := tcbAffinity
  liveTcb := liveTcb
  liveVcpu := liveVcpu
  holder := none
  mustSwitch := false
  savedDeleted := false
  failed := false

/-- **No loaded VCPU is stale**: it is not deleted, and bound to a thread of this core. -/
def Fresh : Prop :=
  ∀ c v, s.armHSCurVCPU c = some v →
    s.liveVcpu v = true ∧ ∃ t, s.vcpuTCB v = some t ∧ s.tcbAffinity t = c

/-- What keeps the loaded VCPUs fresh: a thread is moved only if its VCPU is not loaded elsewhere than
where it moves to, and a VCPU that loses its binding is loaded on no other core than the one that does
it. A VCPU that is bound to another thread may stay loaded on the core of that thread. -/
def LocalOp : VcpuOp n → Prop
  | .setAffinity t newCore | .donate t newCore =>
    ∀ v ∈ s.tcbVCPU t, ∀ c, s.armHSCurVCPU c = some v → newCore = c
  | .setTCB v t =>
    ∀ c ≠ me, (s.armHSCurVCPU c = some v → s.tcbAffinity t = c) ∧
      ∀ v' ∈ s.tcbVCPU t, v' ≠ v → s.armHSCurVCPU c ≠ some v'
  | .deleteTcb t => ∀ v ∈ s.tcbVCPU t, ∀ c ≠ me, s.armHSCurVCPU c ≠ some v
  | .deleteVcpu v => ∀ c ≠ me, s.armHSCurVCPU c ≠ some v
  | _ => True

/-- The same for an event. -/
def Local (s : VcpuState n) : VcpuEvent n → Prop
  | .op o => ∀ me ∈ s.holder, s.LocalOp me o
  | _ => True

-- the quantifier over a VCPU is one over an option, not over all words
instance decidableLocalOp (s : VcpuState n) (me : Fin n) : (o : VcpuOp n) → Decidable (s.LocalOp me o)
  | .setAffinity t _ | .donate t _ => Option.decidableForallMem (s.tcbVCPU t)
  | .setTCB v t =>
    have (c : Fin n) : Decidable (∀ v' ∈ s.tcbVCPU t, v' ≠ v → s.armHSCurVCPU c ≠ some v') :=
      Option.decidableForallMem (s.tcbVCPU t)
    inferInstanceAs (Decidable (∀ c ≠ me, (s.armHSCurVCPU c = some v → s.tcbAffinity t = c) ∧
      ∀ v' ∈ s.tcbVCPU t, v' ≠ v → s.armHSCurVCPU c ≠ some v'))
  | .deleteTcb t => Option.decidableForallMem (s.tcbVCPU t)
  | .deleteVcpu v => inferInstanceAs (Decidable (∀ c ≠ me, s.armHSCurVCPU c ≠ some v))
  | .switchToThread _ | .switchToIdleThread | .remoteTCBStall _ | .createTcb _ _ | .createVcpu _ =>
    inferInstanceAs (Decidable True)

instance decidableLocal (s : VcpuState n) : (e : VcpuEvent n) → Decidable (s.Local e)
  | .op o => inferInstanceAs (Decidable (∀ me ∈ s.holder, s.LocalOp me o))
  | .enter _ | .exit => inferInstanceAs (Decidable True)

end VcpuState

end SeL4.Smp
