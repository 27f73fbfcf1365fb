import SeL4.Object.State
import SeL4.CSpace.CNodeOp

/-!
# Untyped memory

Model of `untyped.c` and of `createNewObjects`: retyping untyped memory into objects, and the
preemptible reset of an untyped whose children are gone.

* Addresses, sizes and offsets are machine words, with the source's wrapping additions and shifts;
  the free index is stored in a field of 48 bits.
* Creating an object stores to memory only for threads and virtual CPUs (`Arch_initContext` and the
  like). What is stored is a parameter of the request, `init`.
-/

namespace SeL4.Object

open SeL4.Lib SeL4.CSpace

/-! ## Object types -/

/-- `object_t`: the API and architecture object types. -/
inductive ObjectType
  | untyped | tcb | endpoint | notification | capTable | schedContext | reply
  | hugePage | vspace | smallPage | largePage | pageTable | vcpu
  deriving DecidableEq, Repr

namespace ObjectType

variable (cfg : KernelConfig)

/-- The types of a build, in the order of their numbers; `seL4_ObjectTypeCount` is its length. -/
def all : List ObjectType :=
  [untyped, tcb, endpoint, notification, capTable] ++ (if cfg.mcs then [schedContext, reply] else [])
    ++ [hugePage, vspace, smallPage, largePage, pageTable] ++ (if cfg.hyp then [vcpu] else [])

/-- `getObjectSize`, with `Arch_getObjectSize`. -/
def getObjectSize (t : ObjectType) (userObjSize : Word) : Word :=
  match t with
  | tcb => BitVec.ofNat 64 cfg.tcbBits
  | endpoint => BitVec.ofNat 64 endpointBits
  | notification => BitVec.ofNat 64 cfg.notificationBits
  | capTable => BitVec.ofNat 64 slotBits + userObjSize
  | untyped => userObjSize
  | schedContext => userObjSize
  | reply => BitVec.ofNat 64 replyBits
  | smallPage => BitVec.ofNat 64 (pageBitsForSize .armSmallPage)
  | largePage => BitVec.ofNat 64 (pageBitsForSize .armLargePage)
  | hugePage => BitVec.ofNat 64 (pageBitsForSize .armHugePage)
  | pageTable => BitVec.ofNat 64 pageTableBits
  | vspace => BitVec.ofNat 64 cfg.vspaceBits
  | vcpu => BitVec.ofNat 64 vcpuBits

/-- `Arch_isFrameType`. -/
def isFrameType : ObjectType → Bool
  | smallPage | largePage | hugePage => true
  | _ => false

/-- `createObject`, with `Arch_createObject`: the capability to the new object. -/
def createObject (t : ObjectType) (regionBase userSize : Word) (deviceMemory : Bool) : Cap :=
  match t with
  | tcb => .thread (regionBase + bit (cfg.tcbBits - 1))
  | endpoint => .endpoint 0 true true true true regionBase
  | notification => .notification 0 true true regionBase
  | capTable => .cnode userSize.toNat 0 0 regionBase
  | untyped => .untyped 0 deviceMemory userSize.toNat regionBase
  | schedContext => .schedContext regionBase userSize.toNat
  | reply => .replyObject regionBase true
  | smallPage => .frame 0 regionBase .armSmallPage 0 .readWrite deviceMemory
  | largePage => .frame 0 regionBase .armLargePage 0 .readWrite deviceMemory
  | hugePage => .frame 0 regionBase .armHugePage 0 .readWrite deviceMemory
  | vspace => .vspace 0 regionBase false
  | pageTable => .pageTable 0 regionBase false 0
  | vcpu => .vcpu regionBase

/-- The stores of `createObject`: `init` gives the bytes, by offset into the object. -/
def initMemory (t : ObjectType) (regionBase : Word) (bits : Nat)
    (init : Word → Option (BitVec 8)) (mem : Memory) : Memory :=
  match t with
  | tcb | vcpu => fun a =>
    if (a - regionBase).toNat < 2 ^ bits then (init (a - regionBase)).getD (mem a) else mem a
  | _ => mem

end ObjectType

/-! ## Free space -/

def retypeFanOutLimit : Word := 256

def resetChunkBits : Nat := 8

def minSchedContextBits : Word := 7

def alignUp (baseValue : Word) (alignment : Nat) : Word :=
  (baseValue + (bit alignment - 1)) &&& ~~~mask alignment

def freeIndexToOffset (freeIndex : Nat) : Word := BitVec.ofNat 64 freeIndex <<< minUntypedBits

def getFreeRef (base : Word) (freeIndex : Nat) : Word := base + freeIndexToOffset freeIndex

def getFreeIndex (base free : Word) : Word := (free - base) >>> minUntypedBits

/-- The width of `capFreeIndex`. -/
def freeIndexBits : Nat := 48

/-- `cap_untyped_cap_set_capFreeIndex`. -/
def setFreeIndex (index : Word) : Cap → Cap
  | .untyped _ dev n p => .untyped (index.toNat % 2 ^ freeIndexBits) dev n p
  | cap => cap

/-- `clearMemory`: zero `2 ^ bits` bytes. -/
def clearMemory (ptr : Word) (bits : Nat) (mem : Memory) : Memory :=
  fun a => if (a - ptr).toNat < 2 ^ bits then 0 else mem a

namespace KState

variable (cfg : KernelConfig)

/-! ## Reset -/

/-- The loop of `resetUntypedCap`: chunks are cleared from the last to the first, and the free index
follows. The loop ends when `offset` wraps below zero. -/
def resetLoop (srcSlot : Word) (prevCap : Cap) (regionBase : Word) :
    Nat → Word → KState → Checked (Exception × KState)
  | 0, _, _ => .error .fuel
  | fuel + 1, offset, s =>
    if offset = -bit resetChunkBits then .ok (.none, s)
    else
      let s := { s with mem := clearMemory (regionBase + offset) resetChunkBits s.mem }
      let s := s.setCap srcSlot (setFreeIndex (offset >>> minUntypedBits) prevCap)
      let (status, s) := s.preemptionPoint
      if status ≠ .none then .ok (status, s)
      else resetLoop srcSlot prevCap regionBase fuel (offset - bit resetChunkBits) s

def resetUntypedCap (srcSlot : Word) (s : KState) : Checked (Exception × KState) :=
  match s.cap srcSlot with
  | .untyped freeIndex deviceMemory blockSize regionBase =>
    let prevCap := Cap.untyped freeIndex deviceMemory blockSize regionBase
    let offset := freeIndexToOffset freeIndex
    if offset = 0 then .ok (.none, s)
    else if deviceMemory || blockSize < resetChunkBits then
      let s := if deviceMemory then s
        else { s with mem := clearMemory regionBase blockSize s.mem }
      .ok (.none, s.setCap srcSlot (setFreeIndex 0 prevCap))
    else
      let start := (offset - 1) &&& ~~~mask resetChunkBits
      resetLoop srcSlot prevCap regionBase (start.toNat / 2 ^ resetChunkBits + 2) start s
  | _ => .error .assertion

/-! ## Retype -/

/-- The arguments of an `UntypedRetype` invocation. -/
structure RetypeArgs where
  invLabel : Word
  length : Word
  /-- `current_extra_caps.excaprefs[0]`. -/
  rootSlot : Option Word
  newType : Word
  userObjSize : Word
  nodeIndex : Word
  nodeDepth : Word
  nodeOffset : Word
  nodeWindow : Word

/-- What `decodeUntypedInvocation` passes on to `invokeUntyped_Retype`. -/
structure RetypeRequest where
  reset : Bool
  retypeBase : Word
  newType : ObjectType
  userSize : Word
  destCNode : Word
  destOffset : Word
  destLength : Word
  deviceMemory : Bool
  deriving DecidableEq, Repr

/-- The invocation label `UntypedRetype`. -/
def untypedRetype : Word := 1

/-- The checks of `decodeUntypedInvocation` on the memory of the untyped, after those on the
destination: where the new objects go. -/
def decodeFreeSpace (args : RetypeArgs) (newType : ObjectType)
    (destCNode slot : Word) (freeIndexOfCap : Nat) (deviceMemory : Bool) (blockSize : Nat)
    (capPtr : Word) (s : KState) : Decode RetypeRequest :=
  let objectSize := newType.getObjectSize cfg args.userObjSize
  let reset := s.cte.ensureNoChildren cfg slot
  let freeIndex := if reset then 0 else freeIndexOfCap
  let freeRef := getFreeRef capPtr freeIndex
  let untypedFreeBytes := bit blockSize - freeIndexToOffset freeIndex
  if untypedFreeBytes >>> objectSize.toNat < args.nodeWindow then
    .error (.syscall (.notEnoughMemory untypedFreeBytes))
  else if deviceMemory && !newType.isFrameType && newType != .untyped then
    .error (.syscall (.invalidArgument 1))
  else
    .ok { reset := reset
          retypeBase := alignUp freeRef objectSize.toNat
          newType := newType
          userSize := args.userObjSize
          destCNode := destCNode
          destOffset := args.nodeOffset
          destLength := args.nodeWindow
          deviceMemory := deviceMemory }

/-- The look-up of the destination CNode. -/
def decodeNode (args : RetypeArgs) (rootSlot : Word) (s : KState) : Decode Cap :=
  if args.nodeDepth = 0 then .ok (s.cap rootSlot)
  else do
    let slot ← lookupTargetSlot s.cap (s.cap rootSlot) args.nodeIndex args.nodeDepth
    .ok (s.cap slot)

/-- The checks on the destination, and then those on memory. -/
def decodeWindow (args : RetypeArgs) (newType : ObjectType) (nodeCap : Cap)
    (slot : Word) (s : KState) : Decode RetypeRequest :=
  match nodeCap, s.cap slot with
  | .cnode radix _ _ destCNode, .untyped freeIndex deviceMemory blockSize capPtr =>
    let nodeSize := bit radix
    if args.nodeOffset > nodeSize - 1 then .error (.syscall (.rangeError 0 (nodeSize - 1)))
    else if args.nodeWindow < 1 ∨ args.nodeWindow > retypeFanOutLimit then
      .error (.syscall (.rangeError 1 retypeFanOutLimit))
    else if args.nodeWindow > nodeSize - args.nodeOffset then
      .error (.syscall (.rangeError 1 (nodeSize - args.nodeOffset)))
    else if (List.range args.nodeWindow.toNat).any fun i =>
        !s.cte.ensureEmptySlot (cteAt destCNode (args.nodeOffset + BitVec.ofNat 64 i)) then
      .error (.syscall .deleteFirst)
    else
      decodeFreeSpace cfg args newType destCNode slot freeIndex deviceMemory blockSize capPtr s
  | _, _ => .error (.syscall (.failedLookup false (.missingCapability args.nodeDepth.toNat)))

/-- The checks on the size of the objects, and then those on the destination. -/
def decodeSize (args : RetypeArgs) (newType : ObjectType) (rootSlot slot : Word)
    (s : KState) : Decode RetypeRequest :=
  let objectSize := newType.getObjectSize cfg args.userObjSize
  if BitVec.ofNat 64 wordBits ≤ args.userObjSize ∨ BitVec.ofNat 64 maxUntypedBits < objectSize then
    .error (.syscall (.rangeError 0 (BitVec.ofNat 64 maxUntypedBits)))
  else if newType = .capTable ∧ args.userObjSize = 0 then .error (.syscall (.invalidArgument 1))
  else if newType = .untyped ∧ args.userObjSize < BitVec.ofNat 64 minUntypedBits then
    .error (.syscall (.invalidArgument 1))
  else if newType = .schedContext ∧ args.userObjSize < minSchedContextBits then
    .error (.syscall (.invalidArgument 1))
  else do
    let nodeCap ← decodeNode args rootSlot s
    decodeWindow cfg args newType nodeCap slot s

/-- `decodeUntypedInvocation` up to the invocation. -/
def decodeRetype (args : RetypeArgs) (slot : Word) (s : KState) : Decode RetypeRequest :=
  if args.invLabel ≠ untypedRetype then .error (.syscall .illegalOperation)
  else if args.length < 6 then .error (.syscall .truncatedMessage)
  else
    match args.rootSlot with
    | none => .error (.syscall .truncatedMessage)
    | some rootSlot =>
      match (ObjectType.all cfg)[args.newType.toNat]? with
      | none => .error (.syscall (.invalidArgument 0))
      | some newType => decodeSize cfg args newType rootSlot slot s

/-- One round of the loop of `createNewObjects`. -/
def createNewObject (req : RetypeRequest) (init : Word → Option (BitVec 8))
    (parent : Word) (s : KState) (i : Nat) : KState :=
  let objectSize := (req.newType.getObjectSize cfg req.userSize).toNat
  let regionBase := req.retypeBase + BitVec.ofNat 64 i <<< objectSize
  let cap := req.newType.createObject cfg regionBase req.userSize req.deviceMemory
  let s := { s with mem := req.newType.initMemory regionBase objectSize init s.mem }
  s.insertNewCap parent (cteAt req.destCNode (req.destOffset + BitVec.ofNat 64 i)) cap

def createNewObjects (req : RetypeRequest) (init : Word → Option (BitVec 8))
    (parent : Word) (s : KState) : KState :=
  (List.range req.destLength.toNat).foldl (createNewObject cfg req init parent) s

/-- The free index that `invokeUntyped_Retype` stores before it creates the objects. -/
def retypeFreeIndex (req : RetypeRequest) (regionBase : Word) : Word :=
  let totalObjectSize := req.destLength <<< (req.newType.getObjectSize cfg req.userSize).toNat
  getFreeIndex regionBase (req.retypeBase + totalObjectSize)

def invokeUntypedRetype (req : RetypeRequest)
    (init : Word → Option (BitVec 8)) (srcSlot : Word) (s : KState) :
    Checked (Exception × KState) := do
  let regionBase := (s.cap srcSlot).capPtr cfg
  let (status, s) ← if req.reset then s.resetUntypedCap srcSlot else .ok (.none, s)
  if status ≠ .none then .ok (status, s)
  else
    let s := s.setCap srcSlot
      (setFreeIndex (retypeFreeIndex cfg req regionBase) (s.cap srcSlot))
    .ok (.none, s.createNewObjects cfg req init srcSlot)

/-- `decodeUntypedInvocation` on the capability in `slot`. -/
def decodeUntypedInvocation (args : RetypeArgs)
    (init : Word → Option (BitVec 8)) (slot : Word) (s : KState) : Checked (Exception × KState) :=
  s.invoking (decodeRetype cfg args slot s) fun req => s.invokeUntypedRetype cfg req init slot

end KState

end SeL4.Object
