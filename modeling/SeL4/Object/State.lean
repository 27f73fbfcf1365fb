import SeL4.Object.Cte
import SeL4.Lib.LinkOrder

/-!
# Kernel state

The part of the kernel state that capability operations read and write: the slots, the bytes of
memory, which interrupts have a handler (`intStateIRQTable`), and which threads wait for a reply.

* Slots are kept apart from the bytes of memory. That the kernel writes slots also shows in memory
  is covered by runs in which the bytes of objects change at any time.
* `preempted` gives the answers that `preemptionPoint` will return, so that a statement about all
  states is one about all timings of interrupts.
* `cdt` is a ghost: the derivation tree that the list of slots is meant to encode. Each operation
  that changes the list updates it, and nothing reads it.
-/

namespace SeL4.Object

open SeL4.Lib Function

/-- Memory, by byte address. -/
abbrev Memory := Word → BitVec 8

/-- `irq_state_t`, on one core. -/
inductive IrqState
  | inactive | signal | timer | reserved
  deriving DecidableEq, Repr

structure KState where
  /-- The slots. -/
  cte : CteHeap
  /-- The parent of each slot in the derivation tree. -/
  cdt : Word → Option Word
  mem : Memory
  intStateIRQTable : Word → IrqState
  /-- The thread's state is `ThreadState_BlockedOnReply`. -/
  replyBlocked : Word → Bool
  /-- The coming answers of `preemptionPoint`: true for `EXCEPTION_PREEMPTED`. -/
  preempted : Nat → Bool

namespace KState

/-- The capability in a slot. -/
def cap (s : KState) (slot : Word) : Cap := (s.cte slot).cap

/-- `isIRQActive`. -/
def irqActive (s : KState) (irq : Word) : Bool := s.intStateIRQTable irq != .inactive

/-- `setIRQState`, without the mask of the interrupt controller. -/
def setIRQState (irqState : IrqState) (irq : Word) (s : KState) : KState :=
  { s with intStateIRQTable := update s.intStateIRQTable irq irqState }

theorem irqActive_setIRQState (st : IrqState) (irq : Word) (s : KState) :
    (s.setIRQState st irq).irqActive = update s.irqActive irq (st != .inactive) := by
  funext i
  unfold irqActive setIRQState
  dsimp only
  rw [update_apply, update_apply]
  split_ifs <;> rfl

/-- `slot->cap = cap`. -/
def setCap (slot : Word) (cap : Cap) (s : KState) : KState := { s with cte := s.cte.setCap slot cap }

def preemptionPoint (s : KState) : Exception × KState :=
  (if s.preempted 0 then .preempted else .none, { s with preempted := fun n => s.preempted (n + 1) })

/-- An invocation: an error of the decoding is returned to the caller, and changes nothing. -/
def invoking {α : Type} (s : KState) (decoded : Decode α)
    (invoke : α → Checked (Exception × KState)) : Checked (Exception × KState) :=
  match decoded with
  | .ok a => invoke a
  | .error (.syscall e) => .ok (.syscallError e, s)
  | .error (.fault f) => .error f

/-- The tree after two slots exchange their nodes. -/
def swapCdt (slot1 slot2 : Word) (cdt : Word → Option Word) : Word → Option Word :=
  fun x => (cdt (Equiv.swap slot1 slot2 x)).map (Equiv.swap slot1 slot2)

/-- `cteInsert`. In the tree the destination is a child of the source, if `isMDBParentOf` says so
right after the insertion, and of the source's parent otherwise. -/
def cteInsert (cfg : KernelConfig) (newCap : Cap) (srcSlot destSlot : Word) (s : KState) : KState :=
  let cte := s.cte.cteInsert newCap srcSlot destSlot
  { s with
    cte := cte
    cdt := update s.cdt destSlot
      (if CteHeap.isMDBParentOf cfg (cte srcSlot) (cte destSlot) then some srcSlot
        else s.cdt srcSlot) }

/-- `insertNewCap`: the new slot is a child of `parent`. -/
def insertNewCap (parent slot : Word) (cap : Cap) (s : KState) : KState :=
  { s with
    cte := s.cte.insertNewCap parent slot cap
    cdt := update s.cdt slot (some parent) }

/-- `cteMove`: the node goes to the new slot with its children. -/
def cteMove (newCap : Cap) (srcSlot destSlot : Word) (s : KState) : KState :=
  { s with
    cte := s.cte.cteMove newCap srcSlot destSlot
    cdt := swapCdt srcSlot destSlot s.cdt }

/-- `cteSwap`: the two nodes change places, each with its children. -/
def cteSwap (cap1 : Cap) (slot1 : Word) (cap2 : Cap) (slot2 : Word) (s : KState) : KState :=
  { s with
    cte := s.cte.cteSwap cap1 slot1 cap2 slot2
    cdt := swapCdt slot1 slot2 s.cdt }

def capSwapForDelete (slot1 slot2 : Word) (s : KState) : KState :=
  if slot1 = slot2 then s else s.cteSwap (s.cap slot1) slot1 (s.cap slot2) slot2

/-- `postCapDeletion`: `deletedIRQHandler` for an interrupt handler. -/
def postCapDeletion (cap : Cap) (s : KState) : KState :=
  match cap with
  | .irqHandler irq => s.setIRQState .inactive irq
  | _ => s

/-- `emptySlot`: the node's children go to its parent. -/
def emptySlot (slot : Word) (cleanupInfo : Cap) (s : KState) : KState :=
  if (s.cap slot).isNull then s
  else
    postCapDeletion cleanupInfo
      { s with
        cte := s.cte.emptySlot slot
        cdt := Links.eraseParent s.cdt slot }

end KState

end SeL4.Object
