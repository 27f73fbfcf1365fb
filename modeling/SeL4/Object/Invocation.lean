import SeL4.Object.Delete
import SeL4.CSpace.CNodeOp

/-!
# Invocations that write slots

`decodeCNodeInvocation` with its `invokeCNode*` functions, the issue of interrupt handlers by
`decodeIRQControlInvocation`, their use by `decodeIRQHandlerInvocation`, and `transferCaps`, which
moves capabilities along with a message.

* A decoding is split off from the invocation it ends in, as `Decode` of what is to be done: it
  only reads slots. Arguments come from registers or the buffer, `Message.arg`.
* `CNodeCancelBadgedSends` works on queues of endpoints and leaves slots as they are. The
  architecture's own ways to issue interrupt handlers (with a trigger, for another core) are left out.
-/

namespace SeL4.Object

open SeL4.Lib SeL4.CSpace

def rightsFromWord (w : Word) : CapRights where
  capAllowGrantReply := w.getLsbD 3
  capAllowGrant := w.getLsbD 2
  capAllowRead := w.getLsbD 1
  capAllowWrite := w.getLsbD 0

/-- What a decoding reads of the message: its length, `getSyscallArg` and
`current_extra_caps.excaprefs`. -/
structure Message where
  length : Word
  arg : Nat → Word
  extraCap : Nat → Option Word

/-- An error of a function that sets `current_syscall_error`. -/
def raising {α : Type} : Except SyscallError α → Decode α
  | .ok a => .ok a
  | .error e => .error (.syscall e)

namespace KState

variable (cfg : KernelConfig)

/-! ## CNodes -/

/-- The invocation labels of CNodes. -/
inductive CNodeLabel
  | revoke | delete | cancelBadgedSends | copy | mint | move | mutate | rotate | saveCaller
  | other
  deriving DecidableEq, Repr

/-- The `invokeCNode*` call that a decoding ends in. -/
inductive CNodeOp
  | revoke (destSlot : Word)
  | delete (destSlot : Word)
  | cancelBadgedSends (cap : Cap)
  | insert (cap : Cap) (srcSlot destSlot : Word)
  | move (cap : Cap) (srcSlot destSlot : Word)
  | rotate (cap1 cap2 : Cap) (slot1 slot2 slot3 : Word)
  | saveCaller (destSlot : Word)
  deriving DecidableEq, Repr

def hasCancelSendRights : Cap → Bool
  | .endpoint _ canGrantReply canGrant canSend canReceive _ =>
    canSend && canReceive && canGrantReply && canGrant
  | _ => false

/-- The switch of `decodeCNodeInvocation` on the label: the new capability, and whether it is moved. -/
def decodeNewCap (label : CNodeLabel) (msg : Message) (srcSlot : Word)
    (s : KState) : Decode (Cap × Bool) :=
  match label with
  | .copy =>
    if msg.length < 5 then .error (.syscall .truncatedMessage)
    else do
      let srcCap := Cap.maskCapRights (rightsFromWord (msg.arg 4)) (s.cap srcSlot)
      let newCap ← raising (s.cte.deriveCap cfg srcSlot srcCap)
      .ok (newCap, false)
  | .mint =>
    if msg.length < 6 then .error (.syscall .truncatedMessage)
    else do
      let srcCap := Cap.maskCapRights (rightsFromWord (msg.arg 4)) (s.cap srcSlot)
      let newCap ← raising (s.cte.deriveCap cfg srcSlot (Cap.updateCapData false (msg.arg 5) srcCap))
      .ok (newCap, false)
  | .move => .ok (s.cap srcSlot, true)
  | .mutate =>
    if msg.length < 5 then .error (.syscall .truncatedMessage)
    else .ok (Cap.updateCapData true (msg.arg 4) (s.cap srcSlot), true)
  | _ => .error (.fault .assertion)

/-- `CNodeCopy`, `CNodeMint`, `CNodeMove` and `CNodeMutate`. -/
def decodeCopy (label : CNodeLabel) (msg : Message) (destSlot : Word) (s : KState) : Decode CNodeOp :=
  if msg.length < 4 then .error (.syscall .truncatedMessage)
  else
    match msg.extraCap 0 with
    | none => .error (.syscall .truncatedMessage)
    | some srcRoot =>
      if !s.cte.ensureEmptySlot destSlot then .error (.syscall .deleteFirst)
      else do
        let srcSlot ← lookupSourceSlot s.cap (s.cap srcRoot) (msg.arg 2) (msg.arg 3)
        if (s.cap srcSlot).isNull then
          .error (.syscall (.failedLookup true (.missingCapability (msg.arg 3).toNat)))
        else do
          let (newCap, isMove) ← decodeNewCap cfg label msg srcSlot s
          if newCap.isNull then .error (.syscall .illegalOperation)
          else if isMove then .ok (.move newCap srcSlot destSlot)
          else .ok (.insert newCap srcSlot destSlot)

/-- The checks of `CNodeRotate` on the three slots. -/
def decodeRotateSlots (msg : Message) (srcSlot pivotSlot destSlot : Word) (s : KState) :
    Decode CNodeOp :=
  if pivotSlot = srcSlot ∨ pivotSlot = destSlot then .error (.syscall .illegalOperation)
  else if srcSlot ≠ destSlot ∧ s.cte.ensureEmptySlot destSlot = false then
    .error (.syscall .deleteFirst)
  else if (s.cap srcSlot).isNull then
    .error (.syscall (.failedLookup true (.missingCapability (msg.arg 7).toNat)))
  else if (s.cap pivotSlot).isNull then
    .error (.syscall (.failedLookup false (.missingCapability (msg.arg 4).toNat)))
  else
    let newSrcCap := Cap.updateCapData true (msg.arg 5) (s.cap srcSlot)
    let newPivotCap := Cap.updateCapData true (msg.arg 2) (s.cap pivotSlot)
    if newSrcCap.isNull then .error (.syscall .illegalOperation)
    else if newPivotCap.isNull then .error (.syscall .illegalOperation)
    else .ok (.rotate newSrcCap newPivotCap srcSlot pivotSlot destSlot)

/-- `CNodeRotate`. -/
def decodeRotate (msg : Message) (destSlot : Word) (s : KState) : Decode CNodeOp :=
  if msg.length < 8 then .error (.syscall .truncatedMessage)
  else
    match msg.extraCap 0, msg.extraCap 1 with
    | some pivotRoot, some srcRoot => do
      let srcSlot ← lookupSourceSlot s.cap (s.cap srcRoot) (msg.arg 6) (msg.arg 7)
      let pivotSlot ← lookupPivotSlot s.cap (s.cap pivotRoot) (msg.arg 3) (msg.arg 4)
      decodeRotateSlots msg srcSlot pivotSlot destSlot s
    | _, _ => .error (.syscall .truncatedMessage)

/-- `decodeCNodeInvocation` after the look-up of the target. -/
def decodeCNodeTarget (label : CNodeLabel) (msg : Message) (destSlot : Word)
    (s : KState) : Decode CNodeOp :=
  match label with
  | .copy | .mint | .move | .mutate => decodeCopy cfg label msg destSlot s
  | .revoke => .ok (.revoke destSlot)
  | .delete => .ok (.delete destSlot)
  | .saveCaller =>
    if !s.cte.ensureEmptySlot destSlot then .error (.syscall .deleteFirst)
    else .ok (.saveCaller destSlot)
  | .cancelBadgedSends =>
    if !hasCancelSendRights (s.cap destSlot) then .error (.syscall .illegalOperation)
    else .ok (.cancelBadgedSends (s.cap destSlot))
  | .rotate => decodeRotate msg destSlot s
  | .other => .error (.syscall .illegalOperation)

/-- `decodeCNodeInvocation` up to the invocation. -/
def decodeCNode (label : CNodeLabel) (msg : Message) (cap : Cap) (s : KState) : Decode CNodeOp :=
  if label = .other ∨ cfg.mcs = true ∧ label = .saveCaller then .error (.syscall .illegalOperation)
  else if msg.length < 2 then .error (.syscall .truncatedMessage)
  else do
    let destSlot ← lookupTargetSlot s.cap cap (msg.arg 0) (msg.arg 1)
    decodeCNodeTarget cfg label msg destSlot s

/-- `tcbCaller`: the index of a thread's slot for the reply capability of its caller. -/
def tcbCaller : Word := 3

def invokeCNodeSaveCaller (curThread destSlot : Word) (s : KState) : Checked (Exception × KState) :=
  let srcSlot := cteAt (Cap.tcbCTEPtr cfg curThread) tcbCaller
  match s.cap srcSlot with
  | .null => .ok (.none, s)
  | .reply canGrant master tcb =>
    if !master then .ok (.none, s.cteMove (.reply canGrant master tcb) srcSlot destSlot)
    else .ok (.none, s)
  | _ => .error .assertion

def invokeCNodeRotate (cap1 cap2 : Cap) (slot1 slot2 slot3 : Word) (s : KState) : KState :=
  if slot1 = slot3 then s.cteSwap cap1 slot1 cap2 slot2
  else (s.cteMove cap2 slot2 slot3).cteMove cap1 slot1 slot2

/-- The `invokeCNode*` functions. -/
def invokeCNode (fuel : Nat) (curThread : Word) (s : KState) :
    CNodeOp → Checked (Exception × KState)
  | .revoke destSlot => s.cteRevoke cfg fuel destSlot
  | .delete destSlot => s.cteDelete cfg fuel destSlot true
  | .cancelBadgedSends _ => .ok (.none, s)
  | .insert cap srcSlot destSlot => .ok (.none, s.cteInsert cfg cap srcSlot destSlot)
  | .move cap srcSlot destSlot => .ok (.none, s.cteMove cap srcSlot destSlot)
  | .rotate cap1 cap2 slot1 slot2 slot3 =>
    .ok (.none, s.invokeCNodeRotate cap1 cap2 slot1 slot2 slot3)
  | .saveCaller destSlot => s.invokeCNodeSaveCaller cfg curThread destSlot

def decodeCNodeInvocation (fuel : Nat) (curThread : Word) (label : CNodeLabel)
    (msg : Message) (cap : Cap) (s : KState) : Checked (Exception × KState) :=
  s.invoking (decodeCNode cfg label msg cap s) (s.invokeCNode cfg fuel curThread)

/-! ## Interrupts -/

/-- `IRQIssueIRQHandler` of `decodeIRQControlInvocation`, with `Arch_checkIRQ`: the interrupt and the
slot for its handler. -/
def decodeIssueIRQHandler (msg : Message) (s : KState) : Decode (Word × Word) :=
  if msg.length < 3 then .error (.syscall .truncatedMessage)
  else
    match msg.extraCap 0 with
    | none => .error (.syscall .truncatedMessage)
    | some cnode =>
      if msg.arg 0 > cfg.maxIRQ then .error (.syscall (.rangeError 0 cfg.maxIRQ))
      else if s.irqActive (msg.arg 0) then .error (.syscall .revokeFirst)
      else do
        let destSlot ← lookupTargetSlot s.cap (s.cap cnode) (msg.arg 1) (msg.arg 2)
        if !s.cte.ensureEmptySlot destSlot then .error (.syscall .deleteFirst)
        else .ok (msg.arg 0, destSlot)

def invokeIRQControl (irq handlerSlot controlSlot : Word) (s : KState) : KState :=
  cteInsert cfg (.irqHandler irq) controlSlot handlerSlot (s.setIRQState .signal irq)

/-- `decodeIRQControlInvocation` with the label `IRQIssueIRQHandler`. -/
def decodeIRQControlInvocation (msg : Message) (srcSlot : Word) (s : KState) :
    Checked (Exception × KState) :=
  s.invoking (decodeIssueIRQHandler cfg msg s) fun r =>
    .ok (.none, s.invokeIRQControl cfg r.1 r.2 srcSlot)

/-- The invocation labels of interrupt handlers. -/
inductive IRQHandlerLabel
  | ack | setHandler | clearHandler | other
  deriving DecidableEq, Repr

/-- The `invokeIRQHandler_*` call that a decoding ends in. -/
inductive IRQHandlerOp
  | ackIRQ
  | setIRQHandler (cap : Cap) (slot : Word)
  | clearIRQHandler
  deriving DecidableEq, Repr

/-- The capability has the right that a handler needs: `IRQSetIRQHandler` takes a notification that
can be signalled. -/
def canSignal : Cap → Bool
  | .notification _ _ canSend _ => canSend
  | _ => false

/-- `decodeIRQHandlerInvocation` up to the invocation; `excap` is
`current_extra_caps.excaprefs[0]`. -/
def decodeIRQHandler (label : IRQHandlerLabel) (excap : Option Word) (s : KState) :
    Decode IRQHandlerOp :=
  match label with
  | .ack => .ok .ackIRQ
  | .setHandler =>
    match excap with
    | none => .error (.syscall .truncatedMessage)
    | some slot =>
      if !canSignal (s.cap slot) then .error (.syscall (.invalidCapability 0))
      else .ok (.setIRQHandler (s.cap slot) slot)
  | .clearHandler => .ok .clearIRQHandler
  | .other => .error (.syscall .illegalOperation)

/-- `invokeIRQHandler_SetIRQHandler`. -/
def invokeSetIRQHandler (irq : Word) (cap : Cap) (slot : Word) (s : KState) :
    Checked KState := do
  let irqSlot := cteAt cfg.irqNode irq
  let s ← s.cteDeleteOne irqSlot
  .ok (s.cteInsert cfg cap slot irqSlot)

/-- The `invokeIRQHandler_*` functions. An acknowledgement only concerns the interrupt controller. -/
def invokeIRQHandler (irq : Word) (s : KState) :
    IRQHandlerOp → Checked (Exception × KState)
  | .ackIRQ => .ok (.none, s)
  | .setIRQHandler cap slot => do
    let s ← s.invokeSetIRQHandler cfg irq cap slot
    .ok (.none, s)
  | .clearIRQHandler => do
    let s ← s.cteDeleteOne (cteAt cfg.irqNode irq)
    .ok (.none, s)

def decodeIRQHandlerInvocation (label : IRQHandlerLabel) (excap : Option Word)
    (irq : Word) (s : KState) : Checked (Exception × KState) :=
  s.invoking (decodeIRQHandler label excap s) (s.invokeIRQHandler cfg irq)

/-! ## Capabilities in messages -/

/-- `cap_transfer_t`. -/
structure CapTransfer where
  ctReceiveRoot : Word
  ctReceiveIndex : Word
  ctReceiveDepth : Word

/-- `getReceiveSlots`; `buffer` is what `loadCapTransfer` reads from the receiver's buffer. -/
def getReceiveSlots (threadRoot : Cap) (buffer : Option CapTransfer) (s : KState) :
    Checked (Option Word) :=
  match buffer with
  | none => .ok none
  | some ct =>
    match lookupSlot s.cap threadRoot ct.ctReceiveRoot with
    | .error f => .error f
    | .ok (.error _) => .ok none
    | .ok (.ok cnode) =>
      match lookupTargetSlot s.cap (s.cap cnode) ct.ctReceiveIndex ct.ctReceiveDepth with
      | .error (.fault f) => .error f
      | .error (.syscall _) => .ok none
      | .ok slot => .ok (if (s.cap slot).isNull then some slot else none)

/-- What `transferCaps` tells the receiver. -/
structure Transferred where
  extraCaps : Nat
  capsUnwrapped : Word
  /-- `setExtraBadge`: index and badge. -/
  extraBadges : List (Nat × Word)

/-- The badge of a capability to the endpoint that the message goes through. -/
def badgeFor (endpoint : Word) : Cap → Option Word
  | .endpoint badge _ _ _ _ p => if p = endpoint then some badge else none
  | _ => none

/-- The loop of `transferCaps`, from capability `i` on. -/
def transferLoop (cfg : KernelConfig) (endpoint : Word) :
    List Word → Nat → Option Word → Transferred → KState → Transferred × KState
  | [], i, _, t, s => ({ t with extraCaps := i }, s)
  | slot :: rest, i, destSlot, t, s =>
    match badgeFor endpoint (s.cap slot) with
    | some badge =>
      transferLoop cfg endpoint rest (i + 1) destSlot
        { t with
          capsUnwrapped := t.capsUnwrapped ||| bit i
          extraBadges := t.extraBadges ++ [(i, badge)] } s
    | none =>
      match destSlot, s.cte.deriveCap cfg slot (s.cap slot) with
      | some dest, .ok cap =>
        if cap.isNull then ({ t with extraCaps := i }, s)
        else transferLoop cfg endpoint rest (i + 1) none t (s.cteInsert cfg cap slot dest)
      | _, _ => ({ t with extraCaps := i }, s)

/-- `transferCaps`; `excaprefs` are the slots of `current_extra_caps`, and `threadRoot` is the
receiver's CSpace. -/
def transferCaps (endpoint : Word) (threadRoot : Cap)
    (receiveBuffer : Option CapTransfer) (excaprefs : List Word) (s : KState) :
    Checked (Transferred × KState) :=
  if excaprefs = [] ∨ receiveBuffer.isNone then .ok (⟨0, 0, []⟩, s)
  else do
    let destSlot ← s.getReceiveSlots threadRoot receiveBuffer
    .ok (transferLoop cfg endpoint excaprefs 0 destSlot ⟨0, 0, []⟩ s)

end KState

end SeL4.Object
