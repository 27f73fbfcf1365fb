import Mathlib.Data.Fin.Basic
import SeL4.Lib.Trace
import SeL4.Lib.Word

/-!
# The context of a VCPU

Hypervisor configuration on one core, without the hardware debug API. This file models how the registers
of a virtual machine move between the hardware and its VCPU object: `vcpu_save`, `vcpu_restore`,
`vcpu_enable`, `vcpu_disable`, `save_virt_timer`, `restore_virt_timer`, `vcpu_switch`,
`vcpu_invalidate_active`, `vcpu_flush`, `vcpu_flush_if_current`, `readVCPUReg`, `writeVCPUReg`,
`invokeVCPUInjectIRQ` with their decode functions, and `associateVCPUTCB`.

The functions that take a `vcpu_t *` and touch only this object and the hardware are functions on
`Machine`, the pair of the two. `VcpuSys` is the whole state, with the VCPU that is loaded
(`armHSCurVCPU`), whether it is active, the bindings of threads, and a ghost `ctx`: for each VCPU the
value its virtual machine or a `WriteReg` gave each register last.

* A register is in one of two groups. Those of `savedWhenDisabled` are saved when the VCPU is disabled,
  the others only when another VCPU replaces it.
* `copy s v r` is the copy of a register that counts, in hardware or in memory.
* `norm r` takes a value to what it means: 32-bit registers modulo `2 ^ 32`, and of `CNTV_CTL` the bits
  that can be written.
* `Tracked r` leaves out `ISR`, which is read only, and `CNTVOFF`.
-/

namespace SeL4.Hyp

open SeL4.Lib Function

/-! ## Registers -/

/-- `seL4_VCPUReg`, in its order. -/
inductive VcpuReg where
  | sctlr | cpacr
  | ttbr0 | ttbr1 | tcr | mair | amair | cidr | actlr
  | afsr0 | afsr1 | esr | far | isr | vbar
  | tpidrEL1 | vmpidrEL2 | spEL1 | elrEL1 | spsrEL1
  | cntvCTL | cntvCVAL | cntvOFF | cntkctlEL1
  deriving DecidableEq, Repr

namespace VcpuReg

/-- The registers by number; `seL4_VCPUReg_Num` is the length. -/
def all : List VcpuReg :=
  [sctlr, cpacr, ttbr0, ttbr1, tcr, mair, amair, cidr, actlr, afsr0, afsr1, esr, far, isr, vbar,
    tpidrEL1, vmpidrEL2, spEL1, elrEL1, spsrEL1, cntvCTL, cntvCVAL, cntvOFF, cntkctlEL1]

/-- The register of a number, where it is less than `seL4_VCPUReg_Num`. -/
def ofField (field : Word) : Option VcpuReg := all[field.toNat]?

/-- `seL4_VCPURegSaveRange_start` to `seL4_VCPURegSaveRange_end`. -/
def saveRange : List VcpuReg :=
  [ttbr0, ttbr1, tcr, mair, amair, cidr, actlr, afsr0, afsr1, esr, far, isr, vbar,
    tpidrEL1, vmpidrEL2, spEL1, elrEL1, spsrEL1]

/-- `vcpu_reg_saved_when_disabled`. -/
def savedWhenDisabled : VcpuReg → Bool
  | sctlr | cntvCTL | cntvCVAL | cntvOFF | cntkctlEL1 | cpacr => true
  | _ => false

/-- The registers that are read and written as `uint32_t`. -/
def is32 : VcpuReg → Bool
  | cidr | afsr0 | afsr1 | esr | isr => true
  | _ => false

end VcpuReg

/-- The conversion to `uint32_t` and back. -/
def low32 (x : Word) : Word := (x.setWidth 32).setWidth 64

@[simp] theorem low32_low32 (x : Word) : low32 (low32 x) = low32 x := by
  unfold low32
  apply BitVec.eq_of_toNat_eq
  simp only [BitVec.toNat_setWidth]
  omega

/-- What `vcpu_hw_read_reg` makes of the contents of a register. -/
def hwRead (r : VcpuReg) (x : Word) : Word := if r.is32 then low32 x else x

/-- What a register contains after `vcpu_hw_write_reg`. `ISR` is read only, and of `CNTV_CTL` the status
bit is. -/
def hwWrite (r : VcpuReg) (old x : Word) : Word :=
  match r with
  | .isr => old
  | .cntvCTL => (x &&& 3) ||| (old &&& 4)
  | r => if r.is32 then low32 x else x

/-! ## Configuration and constants -/

/-- What the kernel is built with, and what the platform has. -/
structure VcpuConfig where
  /-- `gic_vcpu_num_list_regs`. -/
  numListRegs : Nat
  /-- `CONFIG_ARM_GIC_V3_SUPPORT`. -/
  gicV3 : Bool
  /-- `CONFIG_VTIMER_UPDATE_VOFFSET`. -/
  updateVOffset : Bool
  /-- `CONFIG_DISABLE_WFI_WFE_TRAPS`. -/
  disableWfiTraps : Bool
  /-- `CONFIG_AARCH64_USER_CACHE_ENABLE`. -/
  userCache : Bool
  /-- `isIRQActive(INTERRUPT_VTIMER_EVENT)`. -/
  vtimerActive : Bool

def hcrCommon : Word := bit 0 ||| bit 31 ||| bit 5 ||| bit 4 ||| bit 3 ||| bit 19

def hcrNative : Word :=
  hcrCommon ||| bit 27 ||| bit 26 ||| bit 25 ||| bit 12 ||| bit 21 ||| bit 1 ||| bit 19

def hcrVcpu (cfg : VcpuConfig) : Word :=
  if cfg.disableWfiTraps then hcrCommon else hcrCommon ||| bit 14 ||| bit 13

def sctlrEL1 : Word := 0x30d00800 ||| bit 5 ||| bit 16 ||| bit 18

def sctlrDefault (cfg : VcpuConfig) : Word :=
  sctlrEL1 ||| bit 2 ||| bit 12 ||| (if cfg.userCache then bit 26 ||| bit 15 else 0)

/-! ## Objects and hardware -/

/-- `struct gicVCpuIface`, and the registers of the same names. The list registers are those that
exist. -/
structure Vgic (n : Nat) where
  hcr : BitVec 32
  vmcr : BitVec 32
  apr : BitVec 32
  lr : Fin n → Word

/-- `vcpu_t`, but for its thread. -/
structure Vcpu (cfg : VcpuConfig) where
  vgic : Vgic cfg.numListRegs
  regs : VcpuReg → Word
  vppiMasked : Bool
  lastPcount : Word

/-- The registers of the core that have to do with VCPUs, and whether the interrupt of the virtual timer
is masked. -/
structure VcpuHw (cfg : VcpuConfig) where
  vgic : Vgic cfg.numListRegs
  regs : VcpuReg → Word
  hcrEL2 : Word
  cntpct : Word
  vtimerMasked : Bool

/-- The hardware and the VCPU that a function is called with. -/
structure Machine (cfg : VcpuConfig) where
  hw : VcpuHw cfg
  vcpu : Vcpu cfg

variable {cfg : VcpuConfig}

/-- `vcpu_hw_write_reg`. -/
def VcpuHw.writeReg (hw : VcpuHw cfg) (r : VcpuReg) (x : Word) : VcpuHw cfg :=
  { hw with regs := update hw.regs r (hwWrite r (hw.regs r) x) }

/-- `vcpu_hw_read_reg`. -/
def VcpuHw.readReg (hw : VcpuHw cfg) (r : VcpuReg) : Word := hwRead r (hw.regs r)

/-- `set_gic_vcpu_ctrl_hcr`. -/
def VcpuHw.setVgicHcr (hw : VcpuHw cfg) (x : BitVec 32) : VcpuHw cfg :=
  { hw with vgic := { hw.vgic with hcr := x } }

/-- A list register of the GIC: 64 bits wide since version 3. -/
def lrWrite (cfg : VcpuConfig) (x : Word) : Word := if cfg.gicV3 then x else low32 x

/-- `set_gic_vcpu_ctrl_lr`. -/
def VcpuHw.setLr (hw : VcpuHw cfg) (i : Fin cfg.numListRegs) (x : Word) : VcpuHw cfg :=
  { hw with vgic := { hw.vgic with lr := update hw.vgic.lr i (lrWrite cfg x) } }

/-- `enableFpuEL01`: `CPACR_EL1` is one of the registers. -/
def VcpuHw.enableFpuEL01 (hw : VcpuHw cfg) : VcpuHw cfg :=
  { hw with regs := update hw.regs .cpacr (hw.regs .cpacr ||| (3#64 <<< 20)) }

/-- What `vcpu_disable` does to the hardware with or without a VCPU: the virtual GIC and the MMU of
stage 1 are turned off. -/
def VcpuHw.native (hw : VcpuHw cfg) : VcpuHw cfg :=
  let hw := hw.setVgicHcr 0
  let hw := hw.writeReg .sctlr (sctlrDefault cfg)
  let hw := { hw with hcrEL2 := hcrNative }
  hw.enableFpuEL01

/-- `vcpu_write_reg`. -/
def Vcpu.writeReg (v : Vcpu cfg) (r : VcpuReg) (x : Word) : Vcpu cfg :=
  { v with regs := update v.regs r x }

namespace Machine

variable (m : Machine cfg)

/-- `vcpu_save_reg`. -/
def saveReg (r : VcpuReg) : Machine cfg :=
  { m with vcpu := m.vcpu.writeReg r (m.hw.readReg r) }

/-- `vcpu_restore_reg`. -/
def restoreReg (r : VcpuReg) : Machine cfg :=
  { m with hw := m.hw.writeReg r (m.vcpu.regs r) }

/-- `vcpu_save_reg_range` over the save range. -/
def saveRegRange : Machine cfg := VcpuReg.saveRange.foldl saveReg m

/-- `vcpu_restore_reg_range` over the save range. -/
def restoreRegRange : Machine cfg := VcpuReg.saveRange.foldl restoreReg m

def saveVirtTimer : Machine cfg :=
  let m := m.saveReg .cntvCTL
  let m := { m with hw := m.hw.writeReg .cntvCTL 0 }
  let m := ((m.saveReg .cntvCVAL).saveReg .cntvOFF).saveReg .cntkctlEL1
  { m with vcpu := { m.vcpu with
      lastPcount := if cfg.updateVOffset then m.hw.cntpct else m.vcpu.lastPcount } }

def restoreVirtTimer : Machine cfg :=
  let m := (m.restoreReg .cntvCVAL).restoreReg .cntkctlEL1
  let delta := if cfg.updateVOffset then m.hw.cntpct - m.vcpu.lastPcount else 0
  let m := { m with vcpu := m.vcpu.writeReg .cntvOFF (m.vcpu.regs .cntvOFF + delta) }
  let m := m.restoreReg .cntvOFF
  let m := { m with hw := { m.hw with
      vtimerMasked := if cfg.vtimerActive then m.vcpu.vppiMasked else m.hw.vtimerMasked } }
  m.restoreReg .cntvCTL

/-- `vcpu->vgic.hcr = get_gic_vcpu_ctrl_hcr()`. -/
def saveVgicHcr : Machine cfg :=
  { m with vcpu := { m.vcpu with vgic := { m.vcpu.vgic with hcr := m.hw.vgic.hcr } } }

/-- `vcpu_save`, with `armv_vcpu_save`. The loop copies every list register. -/
def vcpuSave (active : Bool) : Machine cfg :=
  let m := if active then ((m.saveReg .sctlr).saveVgicHcr).saveVirtTimer else m
  let m := { m with vcpu := { m.vcpu with vgic := { m.vcpu.vgic with
      vmcr := m.hw.vgic.vmcr, apr := m.hw.vgic.apr, lr := m.hw.vgic.lr } } }
  let m := if active then m.saveReg .cpacr else m
  m.saveRegRange

def vcpuEnable : Machine cfg :=
  let m := m.restoreReg .sctlr
  let m := { m with hw := { m.hw with hcrEL2 := hcrVcpu cfg } }
  let m := { m with hw := m.hw.setVgicHcr m.vcpu.vgic.hcr }
  let m := m.restoreReg .cpacr
  m.restoreVirtTimer

/-- `vcpu_restore`. The loop copies every list register. -/
def vcpuRestore : Machine cfg :=
  let m := { m with hw := m.hw.setVgicHcr 0 }
  let m := { m with hw := { m.hw with vgic := { m.hw.vgic with
      vmcr := m.vcpu.vgic.vmcr, apr := m.vcpu.vgic.apr,
      lr := fun i => lrWrite cfg (m.vcpu.vgic.lr i) } } }
  (m.restoreRegRange).vcpuEnable

/-- `vcpu_disable` with a VCPU. -/
def vcpuDisable : Machine cfg :=
  let m := m.saveVgicHcr
  let m := (m.saveReg .sctlr).saveReg .cpacr
  let m := { m with hw := m.hw.native }
  let m := m.saveVirtTimer
  { m with hw := { m.hw with vtimerMasked := true } }

end Machine

/-! ## The state of the kernel -/

/-- The registers that make up a context. -/
inductive CtxReg (n : Nat) where
  | reg (r : VcpuReg)
  | vmcr
  | apr
  | hcr
  | lr (i : Fin n)
  deriving DecidableEq

/-- The contents of a register of the hardware. -/
def VcpuHw.val (hw : VcpuHw cfg) : CtxReg cfg.numListRegs → Word
  | .reg r => hw.regs r
  | .vmcr => hw.vgic.vmcr.setWidth 64
  | .apr => hw.vgic.apr.setWidth 64
  | .hcr => hw.vgic.hcr.setWidth 64
  | .lr i => hw.vgic.lr i

/-- The copy of a register in a VCPU object. -/
def Vcpu.val (v : Vcpu cfg) : CtxReg cfg.numListRegs → Word
  | .reg r => v.regs r
  | .vmcr => v.vgic.vmcr.setWidth 64
  | .apr => v.vgic.apr.setWidth 64
  | .hcr => v.vgic.hcr.setWidth 64
  | .lr i => v.vgic.lr i

/-- The state, with threads and VCPUs by their addresses. -/
structure VcpuSys (cfg : VcpuConfig) where
  hw : VcpuHw cfg
  vcpu : Word → Vcpu cfg
  armHSCurVCPU : Option Word
  armHSVCPUActive : Bool
  tcbVCPU : Word → Option Word
  vcpuTCB : Word → Option Word
  /-- `none` is the idle thread. -/
  ksCurThread : Option Word
  inKernel : Bool
  /-- The kernel is to switch to a thread before it returns to user mode. -/
  mustSwitch : Bool
  ctx : Word → CtxReg cfg.numListRegs → Word

namespace VcpuSys

variable (s : VcpuSys cfg)

/-- A function is called with VCPU `v`. -/
def onVcpu (v : Word) (f : Machine cfg → Machine cfg) : VcpuSys cfg :=
  let m := f ⟨s.hw, s.vcpu v⟩
  { s with hw := m.hw, vcpu := update s.vcpu v m.vcpu }

/-- `vcpu_save` of the VCPU that is loaded. -/
def saveLoaded : VcpuSys cfg :=
  match s.armHSCurVCPU with
  | some u => s.onVcpu u (·.vcpuSave s.armHSVCPUActive)
  | none => s

/-- `vcpu_switch(new)` with a VCPU. -/
def vcpuSwitchTo (v : Word) : VcpuSys cfg :=
  if s.armHSCurVCPU ≠ some v then
    let s := s.saveLoaded.onVcpu v (·.vcpuRestore)
    { s with armHSCurVCPU := some v, armHSVCPUActive := true }
  else if s.armHSVCPUActive then s
  else { s.onVcpu v (·.vcpuEnable) with armHSVCPUActive := true }

/-- `vcpu_switch(NULL)`. -/
def vcpuSwitchNull : VcpuSys cfg :=
  match s.armHSCurVCPU with
  | some u =>
    if s.armHSVCPUActive then { s.onVcpu u (·.vcpuDisable) with armHSVCPUActive := false } else s
  | none => s

def vcpuSwitch : Option Word → VcpuSys cfg
  | some v => s.vcpuSwitchTo v
  | none => s.vcpuSwitchNull

/-- `vcpu_invalidate_active`, which saves nothing. -/
def vcpuInvalidateActive : VcpuSys cfg :=
  let s := if s.armHSVCPUActive then { s with hw := s.hw.native, armHSVCPUActive := false } else s
  { s with armHSCurVCPU := none }

def vcpuFlush : VcpuSys cfg :=
  match s.armHSCurVCPU with
  | some _ => s.saveLoaded.vcpuInvalidateActive
  | none => s

def vcpuFlushIfCurrent (t : Word) : VcpuSys cfg :=
  if s.tcbVCPU t = s.armHSCurVCPU then s.vcpuFlush else s

def readVCPUReg (v : Word) (r : VcpuReg) : Word :=
  if s.armHSCurVCPU = some v then
    if r.savedWhenDisabled && !s.armHSVCPUActive then (s.vcpu v).regs r else s.hw.readReg r
  else (s.vcpu v).regs r

/-- The assignment to a register in a VCPU object. -/
def writeMem (v : Word) (r : VcpuReg) (x : Word) : VcpuSys cfg :=
  { s with vcpu := update s.vcpu v ((s.vcpu v).writeReg r x) }

def writeVCPUReg (v : Word) (r : VcpuReg) (x : Word) : VcpuSys cfg :=
  if s.armHSCurVCPU = some v then
    if r.savedWhenDisabled && !s.armHSVCPUActive then s.writeMem v r x
    else { s with hw := s.hw.writeReg r x }
  else s.writeMem v r x

/-- `virq_get_virqType`. -/
def virqType (cfg : VcpuConfig) (x : Word) : Word := (if cfg.gicV3 then x >>> 62 else x >>> 28) &&& 3

/-- `virq_virq_pending_new(group, priority, 1, vid)`. -/
def virqPendingNew (cfg : VcpuConfig) (group priority vid : Word) : Word :=
  if cfg.gicV3 then
    (1#64 <<< 62) ||| ((group &&& mask 1) <<< 60) ||| ((priority &&& mask 8) <<< 48) |||
      (1#64 <<< 41) ||| (vid &&& mask 32)
  else
    ((group &&& mask 1) <<< 30) ||| (1#64 <<< 28) ||| ((priority &&& mask 5) <<< 23) |||
      (1#64 <<< 19) ||| (vid &&& mask 10)

/-- `invokeVCPUInjectIRQ` on one core. -/
def injectIRQ (v : Word) (i : Fin cfg.numListRegs) (virq : Word) : VcpuSys cfg :=
  if s.armHSCurVCPU = some v then { s with hw := s.hw.setLr i virq }
  else { s with vcpu := update s.vcpu v { s.vcpu v with
      vgic := { (s.vcpu v).vgic with lr := update (s.vcpu v).vgic.lr i virq } } }

/-- The errors of the invocations, with the numbers they report. -/
inductive VcpuError where
  | truncatedMessage
  | invalidArgument (argument : Nat)
  | rangeError (min max argument : Nat)
  | deleteFirst
  deriving DecidableEq, Repr

/-- `decodeVCPUReadReg` and `decodeVCPUWriteReg`, which want 1 and 2 message registers: the register of
a field. -/
def decodeField (want length : Nat) (field : Word) : Except VcpuError VcpuReg :=
  if length < want then .error .truncatedMessage
  else
    match VcpuReg.ofField field with
    | some r => .ok r
    | none => .error (.invalidArgument 1)

/-- `decodeVCPUInjectIRQ`, with the first message register: the list register and what to write to it.
The check for a list register in use is made on the copy in memory. -/
def decodeVCPUInjectIRQ (v : Word) (length : Nat) (mr0 : Word) :
    Except VcpuError (Fin cfg.numListRegs × Word) :=
  let vid := mr0 &&& 0xffff
  let priority := (mr0 >>> 16) &&& 0xff
  let group := (mr0 >>> 24) &&& 0xff
  let index := (mr0 >>> 32) &&& 0xff
  if length < 1 then .error .truncatedMessage
  else if vid.toNat > 2 ^ 10 - 1 then .error (.rangeError 0 (2 ^ 10 - 1) 1)
  else if priority.toNat > 31 then .error (.rangeError 0 31 2)
  else if group.toNat > 1 then .error (.rangeError 0 1 3)
  else if h : index.toNat < cfg.numListRegs then
    if virqType cfg ((s.vcpu v).vgic.lr ⟨index.toNat, h⟩) = 2 then .error .deleteFirst
    else .ok (⟨index.toNat, h⟩, virqPendingNew cfg group priority vid)
  else .error (.rangeError 0 (cfg.numListRegs - 1) 4)

/-- `invokeVCPUReadReg` after its decode: what is returned. -/
def decodeVCPUReadReg (v : Word) (length : Nat) (field : Word) : Except VcpuError Word :=
  (decodeField 1 length field).map (s.readVCPUReg v)

/-- `dissociateVCPUTCB`, but for the registers of the thread. -/
def dissociateVCPUTCB (v t : Word) : VcpuSys cfg :=
  let s := if s.armHSCurVCPU = some v then s.vcpuInvalidateActive else s
  { s with tcbVCPU := update s.tcbVCPU t none, vcpuTCB := update s.vcpuTCB v none }

/-- The first `if` of `associateVCPUTCB`. -/
def dissociateTcb (t : Word) : VcpuSys cfg :=
  match s.tcbVCPU t with
  | some u => s.dissociateVCPUTCB u t
  | none => s

/-- Its second `if`. -/
def dissociateVcpu (v : Word) : VcpuSys cfg :=
  match s.vcpuTCB v with
  | some u => s.dissociateVCPUTCB v u
  | none => s

/-- Its two assignments. -/
def bind (v t : Word) : VcpuSys cfg :=
  { s with tcbVCPU := update s.tcbVCPU t (some v), vcpuTCB := update s.vcpuTCB v (some t) }

def associateVCPUTCB (v t : Word) : VcpuSys cfg :=
  let s := ((s.dissociateTcb t).dissociateVcpu v).bind v t
  if s.ksCurThread = some t then s.vcpuSwitch (some v) else s

/-- What a value means. -/
def norm (cfg : VcpuConfig) : CtxReg cfg.numListRegs → Word → Word
  | .reg .cntvCTL, x => x &&& 3
  | .reg r, x => if r.is32 then low32 x else x
  | .lr _, x => lrWrite cfg x
  | .vmcr, x | .apr, x | .hcr, x => x

/-- The registers whose values belong to the context. -/
def Tracked : CtxReg cfg.numListRegs → Prop
  | .reg r => r ≠ .isr ∧ r ≠ .cntvOFF
  | _ => True

/-- The registers that are saved when a VCPU is disabled: `savedWhenDisabled` and `HCR` of the virtual
GIC. -/
def onDisable : CtxReg cfg.numListRegs → Bool
  | .reg r => r.savedWhenDisabled
  | .hcr => true
  | _ => false

/-! ## Runs -/

end VcpuSys

/-- What happens in the system. -/
inductive VcpuSysEvent (cfg : VcpuConfig) where
  | enter
  | exit
  | switchToThread (t : Word)
  | switchToIdleThread
  /-- `Arch_prepareNextDomain`. -/
  | flush
  /-- `Arch_prepareSetDomain` in `SetDomain` of a thread. -/
  | flushIfCurrent (t : Word)
  | readReg (v : Word) (length : Nat) (field : Word)
  | writeReg (v : Word) (length : Nat) (field value : Word)
  | injectIRQ (v : Word) (length : Nat) (mr0 : Word)
  | setTCB (v t : Word)
  /-- A virtual machine changes its registers. -/
  | guest (regs : VcpuReg → Word) (vgic : Vgic cfg.numListRegs)
  /-- Time passes: the counter, pending interrupts and the status of the virtual timer. -/
  | tick (cntpct isr : Word) (istatus : Bool)

namespace VcpuSys

variable (s : VcpuSys cfg)

/-- `ISR`, the status bit of `CNTV_CTL` and the counter change. -/
def tick (cntpct isr : Word) (istatus : Bool) : VcpuSys cfg :=
  let ctl := (s.hw.regs .cntvCTL &&& 3) ||| (if istatus then 4 else 0)
  { s with hw := { s.hw with
      cntpct := cntpct, regs := update (update s.hw.regs .isr isr) .cntvCTL ctl } }

/-- The virtual machine of `v` changes the hardware, and so its context. -/
def guest (v : Word) (regs : VcpuReg → Word) (vgic : Vgic cfg.numListRegs) : VcpuSys cfg :=
  let s := { s with hw := { s.hw with regs := regs, vgic := vgic } }
  { s with ctx := update s.ctx v fun r => norm cfg r (s.hw.val r) }

/-- The context of `v` gets a new value in one register. -/
def setCtx (v : Word) (r : CtxReg cfg.numListRegs) (x : Word) : VcpuSys cfg :=
  { s with ctx := update s.ctx v (update (s.ctx v) r (norm cfg r x)) }

/-- One event. An invocation that is refused changes nothing. -/
def next : VcpuSysEvent cfg → Option (VcpuSys cfg)
  | .enter => if s.inKernel then none else some { s with inKernel := true }
  | .exit => if s.inKernel = true ∧ s.mustSwitch = false then some { s with inKernel := false } else none
  | .switchToThread t =>
    if s.inKernel then
      some { s.vcpuSwitch (s.tcbVCPU t) with ksCurThread := some t, mustSwitch := false }
    else none
  | .switchToIdleThread =>
    if s.inKernel then some { s.vcpuSwitch none with ksCurThread := none, mustSwitch := false } else none
  -- `scheduleChooseNewThread` chooses a thread after it
  | .flush => if s.inKernel then some { s.vcpuFlush with mustSwitch := true } else none
  -- `setDomain` reschedules if it is the current thread
  | .flushIfCurrent t =>
    if s.inKernel then
      some { s.vcpuFlushIfCurrent t with
        mustSwitch := if s.ksCurThread = some t then true else s.mustSwitch }
    else none
  | .readReg _ _ _ => if s.inKernel then some s else none
  | .writeReg v length field value =>
    if s.inKernel then
      match decodeField 2 length field with
      | .ok r => some ((s.writeVCPUReg v r value).setCtx v (.reg r) value)
      | .error _ => some s
    else none
  | .injectIRQ v length mr0 =>
    if s.inKernel then
      match s.decodeVCPUInjectIRQ v length mr0 with
      | .ok (i, virq) => some ((s.injectIRQ v i virq).setCtx v (.lr i) virq)
      | .error _ => some s
    else none
  -- an invocation is made by the current thread while it is the one to return to
  | .setTCB v t =>
    if s.inKernel = true ∧ s.mustSwitch = false ∧ s.armHSCurVCPU ≠ some v then
      some (s.associateVCPUTCB v t)
    else none
  | .guest regs vgic =>
    match s.ksCurThread.bind s.tcbVCPU with
    | some v => if s.inKernel then none else some (s.guest v regs vgic)
    | none => none
  | .tick cntpct isr istatus => some (s.tick cntpct isr istatus)

/-- The state after `vcpu_boot_init` with the idle thread as the current one, and any VCPUs. -/
def boot (hw : VcpuHw cfg) (vcpu : Word → Vcpu cfg) : VcpuSys cfg where
  hw := hw.native
  vcpu := vcpu
  armHSCurVCPU := none
  armHSVCPUActive := false
  tcbVCPU _ := none
  vcpuTCB _ := none
  ksCurThread := none
  inKernel := true
  mustSwitch := false
  ctx v r := norm cfg r ((vcpu v).val r)

/-- Whether the hardware copy of a register is the one that counts, and for which VCPU. -/
def owner (r : CtxReg cfg.numListRegs) : Option Word :=
  if onDisable r && !s.armHSVCPUActive then none else s.armHSCurVCPU

/-- The copy of a register of VCPU `v` that counts. -/
def copy (v : Word) (r : CtxReg cfg.numListRegs) : Word :=
  if s.owner r = some v then s.hw.val r else (s.vcpu v).val r

/-- The setting of the hardware for threads without a VCPU. -/
structure Native (hw : VcpuHw cfg) : Prop where
  hcr : hw.hcrEL2 = hcrNative
  sctlr : hw.regs .sctlr = sctlrDefault cfg
  vgic : hw.vgic.hcr = 0

end VcpuSys

end SeL4.Hyp
