import SeL4.Lib.Word

/-!
# Capabilities

The capability words of `object/structures_64.bf` and the AArch64 `structures.bf` as one inductive
type, and the functions of `objecttype.c` that only look at them.

* A build has either the MCS kernel or the other one, and each has its own reply capability:
  `reply` names a thread (non-MCS), `replyObject` a reply object (MCS). The type has both; the
  `sched_context` and `sched_control` capabilities occur on MCS only.
* Pointers are full words. The bit fields drop address bits that are fixed by canonicity and
  alignment, which the getters restore.
* Left out: SGI, SMMU and SMC capabilities, which no modelled operation creates.

`sameRegionAs` compares words with wrapping additions, as the source does.
-/

namespace SeL4.Object

open SeL4.Lib

/-! ## Constants -/

/-- The build options that the modelled code depends on. -/
structure KernelConfig where
  /-- `CONFIG_KERNEL_MCS`. -/
  mcs : Bool
  /-- `CONFIG_ARM_HYPERVISOR_SUPPORT`. -/
  hyp : Bool
  /-- `seL4_TCBBits`. -/
  tcbBits : Nat
  /-- `seL4_VSpaceBits`. -/
  vspaceBits : Nat
  /-- `intStateIRQNode`: the address of the interrupt slots. -/
  irqNode : Word
  /-- `maxIRQ`. -/
  maxIRQ : Word
  tcbBits_cases : tcbBits = 11 ∨ tcbBits = 12
  vspaceBits_cases : vspaceBits = 12 ∨ vspaceBits = 13

/-- The benchmark's own build: no MCS, no hypervisor support. -/
def benchConfig : KernelConfig where
  mcs := false
  hyp := false
  tcbBits := 11
  vspaceBits := 12
  irqNode := 0xffffff8040100000
  maxIRQ := 520
  tcbBits_cases := Or.inl rfl
  vspaceBits_cases := Or.inl rfl

def slotBits : Nat := 5

def endpointBits : Nat := 4

def KernelConfig.notificationBits (cfg : KernelConfig) : Nat := if cfg.mcs then 6 else 5

def replyBits : Nat := 5

def pageTableBits : Nat := 12

def asidPoolBits : Nat := 12

def vcpuBits : Nat := 12

def minUntypedBits : Nat := 4

def maxUntypedBits : Nat := 47

def tcbCNodeRadix : Nat := 4

/-- `tcbCNodeEntries`: five slots with and without MCS. -/
def tcbCNodeEntries : Nat := 5

/-! ## The capability type -/

/-- `vm_page_size`. -/
inductive PageSize
  | armSmallPage | armLargePage | armHugePage
  deriving DecidableEq, Repr

def pageBitsForSize : PageSize → Nat
  | .armSmallPage => 12
  | .armLargePage => 21
  | .armHugePage => 30

inductive VMRights
  | kernelOnly | readWrite | readOnly
  deriving DecidableEq, Repr

/-- `seL4_CapRights_t`. -/
structure CapRights where
  capAllowGrantReply : Bool
  capAllowGrant : Bool
  capAllowRead : Bool
  capAllowWrite : Bool
  deriving DecidableEq, Repr

/-- `cap_t`. -/
inductive Cap
  | null
  | untyped (capFreeIndex : Nat) (capIsDevice : Bool) (capBlockSize : Nat) (capPtr : Word)
  | endpoint (capEPBadge : Word) (capCanGrantReply capCanGrant capCanSend capCanReceive : Bool)
      (capEPPtr : Word)
  | notification (capNtfnBadge : Word) (capNtfnCanReceive capNtfnCanSend : Bool)
      (capNtfnPtr : Word)
  | reply (capReplyCanGrant capReplyMaster : Bool) (capTCBPtr : Word)
  | replyObject (capReplyPtr : Word) (capReplyCanGrant : Bool)
  | cnode (capCNodeRadix capCNodeGuardSize : Nat) (capCNodeGuard capCNodePtr : Word)
  | thread (capTCBPtr : Word)
  | irqControl
  | irqHandler (capIRQ : Word)
  | zombie (capZombieID : Word) (capZombieType : Nat)
  | domain
  | schedContext (capSCPtr : Word) (capSCSizeBits : Nat)
  | schedControl (core : Word)
  | frame (capFMappedASID capFBasePtr : Word) (capFSize : PageSize) (capFMappedAddress : Word)
      (capFVMRights : VMRights) (capFIsDevice : Bool)
  | pageTable (capPTMappedASID capPTBasePtr : Word) (capPTIsMapped : Bool)
      (capPTMappedAddress : Word)
  | vspace (capVSMappedASID capVSBasePtr : Word) (capVSIsMapped : Bool)
  | asidControl
  | asidPool (capASIDBase capASIDPool : Word)
  | vcpu (capVCPUPtr : Word)
  deriving DecidableEq, Repr

namespace Cap

def isArchCap : Cap → Bool
  | frame .. | pageTable .. | vspace .. | asidControl | asidPool .. | vcpu .. => true
  | _ => false

/-- The type is `cap_null_cap`. -/
def isNull : Cap → Bool
  | null => true
  | _ => false

/-- The type is `cap_cnode_cap`. -/
def isCNode : Cap → Bool
  | cnode .. => true
  | _ => false

/-- The type is `cap_untyped_cap`. -/
def isUntyped : Cap → Bool
  | untyped .. => true
  | _ => false

/-- The type is `cap_irq_control_cap`. -/
def isIRQControl : Cap → Bool
  | irqControl => true
  | _ => false

/-- The type is `cap_zombie_cap`. -/
def isZombie : Cap → Bool
  | zombie .. => true
  | _ => false

theorem isNull_iff {c : Cap} : c.isNull = true ↔ c = null := by
  cases c <;> simp [isNull]

/-! ## Zombies -/

/-- `ZombieType_ZombieTCB`. -/
def zombieTCB : Nat := 2 ^ wordRadix

def zombieNew (number : Word) (type : Nat) (ptr : Word) : Cap :=
  let m := if type = zombieTCB then mask (tcbCNodeRadix + 1) else mask (type + 1)
  zombie ((ptr &&& ~~~m) ||| (number &&& m)) type

/-- `cap_zombie_cap_get_capZombieBits`, from the zombie's type. -/
def zombieBits (type : Nat) : Nat :=
  if type = zombieTCB then tcbCNodeRadix else type % 2 ^ wordRadix

/-- `cap_zombie_cap_get_capZombieNumber`. -/
def zombieNumber (id : Word) (type : Nat) : Word := id &&& mask (zombieBits type + 1)

/-- `cap_zombie_cap_get_capZombiePtr`. -/
def zombiePtr (id : Word) (type : Nat) : Word := id &&& ~~~mask (zombieBits type + 1)

/-- `cap_zombie_cap_set_capZombieNumber`. -/
def zombieSetNumber (id : Word) (type : Nat) (n : Word) : Cap :=
  zombie ((id &&& ~~~mask (zombieBits type + 1)) ||| (n &&& mask (zombieBits type + 1))) type

/-! ## Memory behind a capability -/

/-- `cap_get_capSizeBits`, with `cap_get_archCapSizeBits`. -/
def capSizeBits (cfg : KernelConfig) : Cap → Nat
  | untyped _ _ capBlockSize _ => capBlockSize
  | endpoint .. => endpointBits
  | notification .. => cfg.notificationBits
  | cnode capCNodeRadix _ _ _ => capCNodeRadix + slotBits
  | thread _ => cfg.tcbBits
  | zombie _ type => if type = zombieTCB then cfg.tcbBits else type % 2 ^ wordRadix + slotBits
  | replyObject .. => replyBits
  | schedContext _ capSCSizeBits => capSCSizeBits
  | frame _ _ capFSize _ _ _ => pageBitsForSize capFSize
  | pageTable .. => pageTableBits
  | vspace .. => cfg.vspaceBits
  | asidPool .. => asidPoolBits
  | vcpu _ => vcpuBits
  | null | domain | reply .. | irqControl | irqHandler _ | schedControl _ | asidControl => 0

/-- `cap_get_capIsPhysical`, with `cap_get_archCapIsPhysical`. -/
def capIsPhysical : Cap → Bool
  | untyped .. | endpoint .. | notification .. | cnode .. | thread _ | zombie ..
  | replyObject .. | schedContext .. | frame .. | pageTable .. | vspace .. | asidPool ..
  | vcpu _ => true
  | null | domain | reply .. | irqControl | irqHandler _ | schedControl _ | asidControl => false

/-- `TCB_PTR_CTE_PTR(p, 0)`: the first slot of the object that the TCB pointer `p` lies in. -/
def tcbCTEPtr (cfg : KernelConfig) (p : Word) : Word := p &&& ~~~mask cfg.tcbBits

/-- `cap_get_capPtr`, with `cap_get_archCapPtr`; null for capabilities without memory. -/
def capPtr (cfg : KernelConfig) : Cap → Word
  | untyped _ _ _ p => p
  | endpoint _ _ _ _ _ p => p
  | notification _ _ _ p => p
  | cnode _ _ _ p => p
  | thread p => tcbCTEPtr cfg p
  | zombie id type => zombiePtr id type
  | replyObject p _ => p
  | schedContext p _ => p
  | frame _ p _ _ _ _ => p
  | pageTable _ p _ _ => p
  | vspace _ p _ => p
  | asidPool _ p => p
  | vcpu p => p
  | null | domain | reply .. | irqControl | irqHandler _ | schedControl _ | asidControl => 0

/-! ## Comparisons -/

def archSameRegionAs : Cap → Cap → Bool
  | frame _ botA sizeA _ _ _, b =>
    match b with
    | frame _ botB sizeB _ _ _ =>
      let topA := botA + mask (pageBitsForSize sizeA)
      let topB := botB + mask (pageBitsForSize sizeB)
      decide (botA ≤ botB) && decide (topB ≤ topA) && decide (botB ≤ topB)
    | _ => false
  | pageTable _ p _ _, b =>
    match b with
    | pageTable _ q _ _ => p == q
    | _ => false
  | vspace _ p _, b =>
    match b with
    | vspace _ q _ => p == q
    | _ => false
  | asidControl, b =>
    match b with
    | asidControl => true
    | _ => false
  | asidPool _ p, b =>
    match b with
    | asidPool _ q => p == q
    | _ => false
  | vcpu p, b =>
    match b with
    | vcpu q => p == q
    | _ => false
  | _, _ => false

def sameRegionAs (cfg : KernelConfig) : Cap → Cap → Bool
  | untyped _ _ aBits aBase, b =>
    if b.capIsPhysical then
      let bBase := b.capPtr cfg
      let aTop := aBase + mask aBits
      let bTop := bBase + mask (b.capSizeBits cfg)
      decide (aBase ≤ bBase) && decide (bTop ≤ aTop) && decide (bBase ≤ bTop)
    else false
  | endpoint _ _ _ _ _ p, b =>
    match b with
    | endpoint _ _ _ _ _ q => p == q
    | _ => false
  | notification _ _ _ p, b =>
    match b with
    | notification _ _ _ q => p == q
    | _ => false
  | cnode r _ _ p, b =>
    match b with
    | cnode r' _ _ q => p == q && r == r'
    | _ => false
  | thread p, b =>
    match b with
    | thread q => p == q
    | _ => false
  | reply _ _ p, b =>
    match b with
    | reply _ _ q => p == q
    | _ => false
  | replyObject p _, b =>
    match b with
    | replyObject q _ => p == q
    | _ => false
  | domain, b =>
    match b with
    | domain => true
    | _ => false
  | irqControl, b =>
    match b with
    | irqControl => true
    | irqHandler _ => true
    | _ => false
  | irqHandler i, b =>
    match b with
    | irqHandler j => i == j
    | _ => false
  | schedContext p n, b =>
    match b with
    | schedContext q m => p == q && n == m
    | _ => false
  | schedControl _, b =>
    match b with
    | schedControl _ => true
    | _ => false
  | null, _ => false
  | zombie .., _ => false
  | a, b => if a.isArchCap && b.isArchCap then archSameRegionAs a b else false

def archSameObjectAs (a b : Cap) : Bool :=
  match a, b with
  | frame _ p n _ _ d, frame _ q m _ _ e => p == q && n == m && (!d == !e)
  | _, _ => archSameRegionAs a b

def sameObjectAs (cfg : KernelConfig) (a b : Cap) : Bool :=
  if a.isUntyped then false
  else if a.isIRQControl then false
  else if a.isArchCap && b.isArchCap then archSameObjectAs a b
  else sameRegionAs cfg a b

/-! ## Derived capabilities -/

def maskVMRights (rights : VMRights) (m : CapRights) : VMRights :=
  if rights = .readOnly ∧ m.capAllowRead = true then .readOnly
  else if rights = .readWrite ∧ m.capAllowRead = true then
    if m.capAllowWrite then .readWrite else .readOnly
  else .kernelOnly

/-- `maskCapRights`, with `Arch_maskCapRights`. -/
def maskCapRights (m : CapRights) : Cap → Cap
  | endpoint badge gr g s r p =>
    endpoint badge (gr && m.capAllowGrantReply) (g && m.capAllowGrant) (s && m.capAllowWrite)
      (r && m.capAllowRead) p
  | notification badge r s p =>
    notification badge (r && m.capAllowRead) (s && m.capAllowWrite) p
  | reply g master p => reply (g && m.capAllowGrant) master p
  | replyObject p g => replyObject p (g && m.capAllowGrant)
  | frame asid p n addr rights dev => frame asid p n addr (maskVMRights rights m) dev
  | cap => cap

/-- `seL4_CNode_CapData`: the guard and its size in a data word. -/
def cnodeCapData (w : Word) : Word × Nat := (w >>> 6, (w &&& mask 6).toNat)

/-- `updateCapData`, with `Arch_updateCapData`. -/
def updateCapData (preserve : Bool) (newData : Word) : Cap → Cap
  | endpoint badge gr g s r p =>
    if !preserve && badge == 0 then endpoint newData gr g s r p else null
  | notification badge r s p =>
    if !preserve && badge == 0 then notification newData r s p else null
  | cnode radix _ _ p =>
    let guardSize := (cnodeCapData newData).2
    if guardSize + radix > wordBits then null
    else cnode radix guardSize ((cnodeCapData newData).1 &&& mask guardSize) p
  | cap => cap

/-- `isCapRevocable`; `Arch_isCapRevocable` is false for the modelled capabilities. An endpoint or
notification capability is only ever derived from one to the same object, so the last branches of
the badge comparison are not reached. -/
def isCapRevocable (derivedCap srcCap : Cap) : Bool :=
  match derivedCap with
  | endpoint badge _ _ _ _ _ =>
    match srcCap with
    | endpoint badge' _ _ _ _ _ => badge != badge'
    | _ => true
  | notification badge _ _ _ =>
    match srcCap with
    | notification badge' _ _ _ => badge != badge'
    | _ => true
  | irqHandler _ => srcCap.isIRQControl
  | untyped .. => true
  | _ => false

end Cap

end SeL4.Object
