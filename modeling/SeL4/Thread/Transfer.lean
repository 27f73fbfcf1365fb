import SeL4.Thread.Schedule

/-!
# Message transfer

The message info word (`seL4_MessageInfo`), message registers and buffers, and the functions that
copy a message from one thread to another: `setMR`, `copyMRs`, `lookupIPCBuffer` (AArch64),
`lookupExtraCaps`, `doNormalTransfer`, `doFaultTransfer`, `doIPCTransfer`, `replyFromKernel_*`.
The transfer of capabilities is `KState.transferCaps`.

The message that describes a fault is a parameter of the configuration (`SysConfig.setMRsFault`).
-/

namespace SeL4.Thread

open SeL4.Lib SeL4.Object SeL4.CSpace

/-! ## Message info -/

def msgMaxLength : Nat := 120

def msgMaxExtraCaps : Nat := 3

def nMsgRegisters : Nat := 4

def capRegister : Register := .x 0

def badgeRegister : Register := .x 0

def msgInfoRegister : Register := .x 1

/-- `msgRegisters[i]`. -/
def msgRegister (i : Nat) : Register := .x (2 + i)

/-- `seL4_MessageInfo_t`, a word with four fields. -/
abbrev MessageInfo := Word

namespace MessageInfo

/-- `seL4_MessageInfo_get_length`. -/
def length (info : MessageInfo) : Nat := (info &&& mask 7).toNat

/-- `seL4_MessageInfo_get_extraCaps`. -/
def extraCaps (info : MessageInfo) : Nat := ((info >>> 7) &&& mask 2).toNat

/-- `seL4_MessageInfo_get_capsUnwrapped`. -/
def capsUnwrapped (info : MessageInfo) : Word := (info >>> 9) &&& mask 3

/-- `seL4_MessageInfo_get_label`. -/
def label (info : MessageInfo) : Word := info >>> 12

/-- `seL4_MessageInfo_set_length`. -/
def setLength (n : Nat) (info : MessageInfo) : MessageInfo :=
  (info &&& ~~~mask 7) ||| (BitVec.ofNat 64 n &&& mask 7)

/-- `seL4_MessageInfo_set_extraCaps`. -/
def setExtraCaps (n : Nat) (info : MessageInfo) : MessageInfo :=
  (info &&& ~~~(mask 2 <<< 7)) ||| ((BitVec.ofNat 64 n &&& mask 2) <<< 7)

/-- `seL4_MessageInfo_set_capsUnwrapped`. -/
def setCapsUnwrapped (v : Word) (info : MessageInfo) : MessageInfo :=
  (info &&& ~~~(mask 3 <<< 9)) ||| ((v &&& mask 3) <<< 9)

/-- `seL4_MessageInfo_new`, with no capabilities. -/
def new (label : Word) (length : Nat) : MessageInfo :=
  (label <<< 12) ||| (BitVec.ofNat 64 length &&& mask 7)

/-- `messageInfoFromWord`. -/
def fromWord (w : Word) : MessageInfo :=
  let info : MessageInfo := w
  if info.length > msgMaxLength then info.setLength msgMaxLength else info

end MessageInfo

/-! ## Buffers -/

/-- `&buffer[i]`. -/
def bufferAt (buffer : Word) (i : Nat) : Word := buffer + BitVec.ofNat 64 (8 * i)

def tcbBuffer (cfg : KernelConfig) : Word := if cfg.mcs then 2 else 4

def tcbCTable : Word := 0

namespace SysState

variable (cfg : KernelConfig)

/-- `buffer[i] = v`. -/
def setBuffer (buffer : Word) (i : Nat) (v : Word) (s : SysState) : SysState :=
  { s with bufferMem := Function.update s.bufferMem (bufferAt buffer i) v }

def lookupIPCBuffer (isReceiver : Bool) (thread : Word) (s : SysState) : Option Word :=
  match s.cap (tcbSlot cfg thread (tcbBuffer cfg)) with
  | .frame _ basePtr size _ rights isDevice =>
    if isDevice then none
    else if rights = .readWrite ∨ isReceiver = false ∧ rights = .readOnly then
      some (basePtr + (s.tcbIPCBuffer thread &&& mask (pageBitsForSize size)))
    else none
  | _ => none

/-- `setMR`, and the length that it returns. -/
def setMR (receiver : Word) (receiveIPCBuffer : Option Word) (offset : Nat) (reg : Word)
    (s : SysState) : Nat × SysState :=
  if offset ≥ nMsgRegisters then
    match receiveIPCBuffer with
    | some buffer => (offset + 1, s.setBuffer buffer (offset + 1) reg)
    | none => (nMsgRegisters, s)
  else (offset + 1, s.setRegister receiver (msgRegister offset) reg)

/-- The loop of `copyMRs` over the message registers. -/
def copyRegisters (sender receiver : Word) : Nat → SysState → SysState
  | 0, s => s
  | n + 1, s =>
    let s := copyRegisters sender receiver n s
    s.setRegister receiver (msgRegister n) (s.registers sender (msgRegister n))

/-- The loop of `copyMRs` over the buffers, for the words from `nMsgRegisters` on. -/
def copyBuffer (sendBuf recvBuf : Word) : Nat → SysState → SysState
  | 0, s => s
  | n + 1, s =>
    let s := copyBuffer sendBuf recvBuf n s
    let i := nMsgRegisters + n
    s.setBuffer recvBuf (i + 1) (s.bufferMem (bufferAt sendBuf (i + 1)))

/-- `copyMRs`, and the length that it returns. -/
def copyMRs (sender : Word) (sendBuf : Option Word) (receiver : Word) (recvBuf : Option Word)
    (n : Nat) (s : SysState) : Nat × SysState :=
  let s := s.copyRegisters sender receiver (min n nMsgRegisters)
  match sendBuf, recvBuf with
  | some sendBuf, some recvBuf => (n, s.copyBuffer sendBuf recvBuf (n - nMsgRegisters))
  | _, _ => (min n nMsgRegisters, s)

def getExtraCPtr (buffer : Word) (i : Nat) (s : SysState) : Word :=
  s.bufferMem (bufferAt buffer (msgMaxLength + 2 + i))

/-- `lookupSlot`, in the CSpace of a thread. -/
def lookupSlot (cfg : KernelConfig) (thread capptr : Word) (s : SysState) :
    Checked (Except LookupFault Word) :=
  CSpace.lookupSlot s.cap (s.cap (tcbSlot cfg thread tcbCTable)) capptr

/-- The loop of `lookupExtraCaps`: the slots of `n` capabilities from number `i` on, or the pointer
that could not be looked up and why. -/
def lookupExtraLoop (cfg : KernelConfig) (thread buffer : Word) (s : SysState) :
    Nat → Nat → Checked (Except (Word × LookupFault) (List Word))
  | 0, _ => .ok (.ok [])
  | n + 1, i => do
    let cptr := s.getExtraCPtr buffer i
    match ← s.lookupSlot cfg thread cptr with
    | .error fault => .ok (.error (cptr, fault))
    | .ok slot =>
      match ← lookupExtraLoop cfg thread buffer s n (i + 1) with
      | .error e => .ok (.error e)
      | .ok slots => .ok (.ok (slot :: slots))

/-- `lookupExtraCaps`: what it leaves in `current_extra_caps`, or the fault. -/
def lookupExtraCaps (thread : Word) (bufferPtr : Option Word)
    (info : MessageInfo) (s : SysState) : Checked (Except (Word × LookupFault) (List Word)) :=
  match bufferPtr with
  | none => .ok (.ok [])
  | some buffer => lookupExtraLoop cfg thread buffer s info.extraCaps 0

def loadCapTransfer (buffer : Word) (s : SysState) : KState.CapTransfer :=
  let offset := msgMaxLength + msgMaxExtraCaps + 2
  ⟨s.bufferMem (bufferAt buffer offset), s.bufferMem (bufferAt buffer (offset + 1)),
    s.bufferMem (bufferAt buffer (offset + 2))⟩

/-- The stores of `setExtraBadge`. -/
def setExtraBadges (buffer : Word) : List (Nat × Word) → SysState → SysState
  | [], s => s
  | (i, badge) :: rest, s =>
    setExtraBadges buffer rest (s.setBuffer buffer (msgMaxLength + 2 + i) badge)

def transferCaps (cfg : KernelConfig) (info : MessageInfo) (endpoint receiver : Word)
    (receiveBuffer : Option Word) (excaprefs : List Word) (s : SysState) :
    Checked (MessageInfo × SysState) := do
  let info := (info.setExtraCaps 0).setCapsUnwrapped 0
  match receiveBuffer with
  | none => .ok (info, s)
  | some buffer =>
    if excaprefs = [] then .ok (info, s)
    else do
      let (t, k) ← s.toKState.transferCaps cfg endpoint (s.cap (tcbSlot cfg receiver tcbCTable))
        (some (s.loadCapTransfer buffer)) excaprefs
      let s := { s with toSlotState := .ofKState k }
      .ok ((info.setCapsUnwrapped t.capsUnwrapped).setExtraCaps t.extraCaps,
        s.setExtraBadges buffer t.extraBadges)

/-! ## Transfers -/

/-- What `doNormalTransfer` leaves in `current_extra_caps`. -/
def senderCaps (sender : Word) (sendBuffer : Option Word) (canGrant : Bool)
    (tag : MessageInfo) (s : SysState) : Checked (List Word) :=
  if canGrant then do
    match ← s.lookupExtraCaps cfg sender sendBuffer tag with
    | .error _ => .ok []
    | .ok slots => .ok slots
  else .ok []

def doNormalTransfer (sender : Word) (sendBuffer : Option Word)
    (endpoint badge : Word) (canGrant : Bool) (receiver : Word) (receiveBuffer : Option Word)
    (s : SysState) : Checked SysState := do
  let tag := MessageInfo.fromWord (s.registers sender msgInfoRegister)
  let excaprefs ← s.senderCaps cfg sender sendBuffer canGrant tag
  let (msgTransferred, s) := s.copyMRs sender sendBuffer receiver receiveBuffer tag.length
  let (tag, s) ← s.transferCaps cfg tag endpoint receiver receiveBuffer excaprefs
  let tag := tag.setLength msgTransferred
  let s := s.setRegister receiver msgInfoRegister tag
  .ok (s.setRegister receiver badgeRegister badge)

def doFaultTransfer (cfg : SysConfig) (badge sender receiver : Word)
    (receiverIPCBuffer : Option Word) (s : SysState) : SysState :=
  let (sent, u) := cfg.setMRsFault sender receiver receiverIPCBuffer s.toUserState
  let s := { s with toUserState := u }
  let msgInfo := MessageInfo.new (s.tcbFault sender).faultType sent
  let s := s.setRegister receiver msgInfoRegister msgInfo
  s.setRegister receiver badgeRegister badge

def doIPCTransfer (cfg : SysConfig) (sender endpoint badge : Word) (grant : Bool) (receiver : Word)
    (s : SysState) : Checked SysState :=
  let receiveBuffer := s.lookupIPCBuffer cfg.toKernelConfig true receiver
  if s.tcbFault sender = .nullFault then
    let sendBuffer := s.lookupIPCBuffer cfg.toKernelConfig false sender
    s.doNormalTransfer cfg.toKernelConfig sender sendBuffer endpoint badge grant receiver
      receiveBuffer
  else .ok (s.doFaultTransfer cfg badge sender receiver receiveBuffer)

def doNBRecvFailedTransfer (thread : Word) (s : SysState) : SysState :=
  s.setRegister thread badgeRegister 0

def replyFromKernelSuccessEmpty (thread : Word) (s : SysState) : SysState :=
  (s.setRegister thread badgeRegister 0).setRegister thread msgInfoRegister (MessageInfo.new 0 0)

end SysState

end SeL4.Thread
