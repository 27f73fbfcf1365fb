import SeL4.Object.State

/-!
# Deletion and revocation

`cteDelete`, `finaliseSlot` and `reduceZombie` of `cnode.c` call each other: deleting the last
capability to a CNode or thread leaves a zombie, whose slots are emptied from the last to the first,
and each of these may hold further CNodes, or the zombie itself. The three functions take a bound
on the depth of calls; running out of it is a `Fault` of its own, and so is every `assert` and
`fail` of the source.

What finalising an object does to its queues and to other objects is left out: here `finaliseCap`
only touches slots (the notification of an interrupt and the reply capability of a waiting
thread).
-/

namespace SeL4.Object.KState

open SeL4.Lib SeL4.CSpace

variable (cfg : KernelConfig)

/-! ## Finalising a capability -/

/-- `finaliseCap_ret_t`. -/
structure FinaliseCapRet where
  remainder : Cap
  cleanupInfo : Cap
  deriving DecidableEq, Repr

/-- Nothing remains. -/
def FinaliseCapRet.done : FinaliseCapRet := ⟨.null, .null⟩

/-- The types that the first switch of `finaliseCap` and `Arch_finaliseCap` deal with. -/
def finalisedAtOnce : Cap → Bool
  | .endpoint .. | .notification .. | .reply .. | .replyObject .. | .null | .domain => true
  | cap => cap.isArchCap

/-- `finaliseCap` with `exposed` set. -/
def finaliseCapExposed (cap : Cap) : Checked FinaliseCapRet :=
  if finalisedAtOnce cap then .ok .done else .error .assertion

def capRemovable (cap : Cap) (slot : Word) : Checked Bool :=
  match cap with
  | .null => .ok true
  | .zombie id type =>
    let n := Cap.zombieNumber id type
    .ok (n == 0 || (n == 1 && slot == Cap.zombiePtr id type))
  | _ => .error .assertion

def capCyclicZombie (cap : Cap) (slot : Word) : Bool :=
  match cap with
  | .zombie id type => Cap.zombiePtr id type == slot
  | _ => false

def cteDeleteOne (slot : Word) (s : KState) : Checked KState :=
  if (s.cap slot).isNull then .ok s
  else do
    let ret ← finaliseCapExposed (s.cap slot)
    let removable ← capRemovable ret.remainder slot
    require (removable && ret.cleanupInfo.isNull)
    .ok (s.emptySlot slot .null)

def deletingIRQHandler (irq : Word) (s : KState) : Checked KState :=
  s.cteDeleteOne (cteAt cfg.irqNode irq)

/-- `tcbReply`: the index of a thread's slot for its reply capability. -/
def tcbReply : Word := 2

/-- What `cancelIPC` does to slots: it takes back the reply capability of a thread that waits for a
reply. On MCS reply objects are unlinked instead. -/
def cancelIPC (tptr : Word) (s : KState) : Checked KState :=
  let callerCap := (s.cte (cteAt (Cap.tcbCTEPtr cfg tptr) tcbReply)).cteMDBNode.mdbNext
  if !cfg.mcs && s.replyBlocked tptr && callerCap != 0 then s.cteDeleteOne callerCap else .ok s

/-- `suspend`, without its effect on queues. -/
def suspend (target : Word) (s : KState) : Checked KState := do
  let s ← s.cancelIPC cfg target
  .ok { s with replyBlocked := Function.update s.replyBlocked target false }

/-- `finaliseCap` with `exposed` clear. -/
def finaliseCap (cap : Cap) (final : Bool) (s : KState) : Checked (FinaliseCapRet × KState) :=
  if finalisedAtOnce cap then .ok (.done, s)
  else
    match cap with
    | .cnode radix _ _ ptr =>
      if final then .ok (⟨Cap.zombieNew (bit radix) radix ptr, .null⟩, s) else .ok (.done, s)
    | .thread ptr =>
      if final then do
        let s ← s.suspend cfg ptr
        .ok (⟨Cap.zombieNew (BitVec.ofNat 64 tcbCNodeEntries) Cap.zombieTCB
          (Cap.tcbCTEPtr cfg ptr), .null⟩, s)
      else .ok (.done, s)
    | .zombie .. => .ok (⟨cap, .null⟩, s)
    | .irqHandler irq =>
      if final then do
        let s ← s.deletingIRQHandler cfg irq
        .ok (⟨.null, cap⟩, s)
      else .ok (.done, s)
    | _ => .ok (.done, s)

/-! ## Deleting -/

/-- `finaliseSlot_ret_t`. -/
structure FinaliseSlotRet where
  status : Exception
  success : Bool
  cleanupInfo : Cap
  deriving DecidableEq, Repr

/-- `reduceZombie` after its recursive call: the zombie is one slot shorter, unless the call has
emptied the slot or left a zombie there that stands for itself. -/
def shrinkZombie (slot ptr n : Word) (type : Nat) (endSlot : Word) (s : KState) : Checked KState :=
  match s.cap slot with
  | .null => .ok s
  | .zombie id2 type2 =>
    let ptr2 := Cap.zombiePtr id2 type2
    if ptr = ptr2 ∧ Cap.zombieNumber id2 type2 = n ∧ type2 = type then do
      require (s.cap endSlot).isNull
      .ok (s.setCap slot (Cap.zombieSetNumber id2 type2 (n - 1)))
    else do
      require (ptr2 == slot && ptr != slot)
      .ok s
  | _ => .error .assertion

/-- The unexposed half of `reduceZombie`: bring the zombie to its own first slot. -/
def moveZombieAside (slot ptr : Word) (s : KState) : Checked KState := do
  require (ptr != slot)
  -- "Moving self-referential Zombie aside."
  require (!capCyclicZombie (s.cap ptr) ptr)
  .ok (s.capSwapForDelete ptr slot)

mutual

def cteDelete (cfg : KernelConfig) (fuel : Nat) (slot : Word) (exposed : Bool) (s : KState) :
    Checked (Exception × KState) :=
  match fuel with
  | 0 => .error .fuel
  | fuel + 1 => do
    let (ret, s) ← finaliseSlot cfg fuel slot exposed s
    if ret.status ≠ .none then .ok (ret.status, s)
    else if exposed || ret.success then .ok (.none, s.emptySlot slot ret.cleanupInfo)
    else .ok (.none, s)

/-- `finaliseSlot`; a round of its loop is one call. -/
def finaliseSlot (cfg : KernelConfig) (fuel : Nat) (slot : Word) (immediate : Bool) (s : KState) :
    Checked (FinaliseSlotRet × KState) :=
  match fuel with
  | 0 => .error .fuel
  | fuel + 1 =>
    if (s.cap slot).isNull then .ok (⟨.none, true, .null⟩, s)
    else do
      let final := s.cte.isFinalCapability cfg slot
      let (fc, s) ← finaliseCap cfg (s.cap slot) final s
      if ← capRemovable fc.remainder slot then .ok (⟨.none, true, fc.cleanupInfo⟩, s)
      else
        let s := s.setCap slot fc.remainder
        if !immediate && capCyclicZombie fc.remainder slot then
          .ok (⟨.none, false, fc.cleanupInfo⟩, s)
        else do
          let (status, s) ← reduceZombie cfg fuel slot immediate s
          if status ≠ .none then .ok (⟨status, false, .null⟩, s)
          else
            let (status, s) := s.preemptionPoint
            if status ≠ .none then .ok (⟨status, false, .null⟩, s)
            else finaliseSlot cfg fuel slot immediate s

def reduceZombie (cfg : KernelConfig) (fuel : Nat) (slot : Word) (immediate : Bool) (s : KState) :
    Checked (Exception × KState) :=
  match fuel with
  | 0 => .error .fuel
  | fuel + 1 =>
    match s.cap slot with
    | .zombie id type => do
      let ptr := Cap.zombiePtr id type
      let n := Cap.zombieNumber id type
      require (n != 0)
      if immediate then do
        let endSlot := cteAt ptr (n - 1)
        let (status, s) ← cteDelete cfg fuel endSlot false s
        if status ≠ .none then .ok (status, s)
        else do
          let s ← s.shrinkZombie slot ptr n type endSlot
          .ok (.none, s)
      else do
        let s ← s.moveZombieAside slot ptr
        .ok (.none, s)
    | _ => .error .assertion

end

def cteRevoke (cfg : KernelConfig) (fuel : Nat) (slot : Word) (s : KState) :
    Checked (Exception × KState) :=
  match fuel with
  | 0 => .error .fuel
  | fuel + 1 =>
    let nextPtr := (s.cte slot).cteMDBNode.mdbNext
    if nextPtr ≠ 0 ∧ CteHeap.isMDBParentOf cfg (s.cte slot) (s.cte nextPtr) = true then do
      let (status, s) ← s.cteDelete cfg fuel nextPtr true
      if status ≠ .none then .ok (status, s)
      else
        let (status, s) := s.preemptionPoint
        if status ≠ .none then .ok (status, s)
        else cteRevoke cfg fuel slot s
    else .ok (.none, s)

end SeL4.Object.KState
