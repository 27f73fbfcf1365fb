import SeL4.CSpace.Lookup
import SeL4.Lib.Links

/-!
# Capability slots and the derivation list

A slot (`cte_t`) holds a capability and an MDB node: the links of the capability derivation list
and the two flags `mdbRevocable` and `mdbFirstBadged`. `CteHeap` gives the slot at every address.

This file models the functions of `cnode.c` that write slots, statement by statement, since they
rewrite links in place through slots that may be neighbours: `cteInsert`, `cteMove`, `cteSwap`,
`emptySlot`, `insertNewCap`; and those that read a slot and its neighbours: `isMDBParentOf`,
`ensureNoChildren`, `isFinalCapability`, `deriveCap`.

`postCapDeletion`, which `emptySlot` ends with, is left to its callers (it acts on interrupts).
-/

namespace SeL4.Object

open SeL4.Lib

/-! ## Results of kernel functions -/

/-- `syscall_error_t`: the type and the fields that go with it, and `current_lookup_fault` for a failed
look-up. -/
inductive SyscallError
  | invalidArgument (invalidArgumentNumber : Nat)
  | invalidCapability (invalidCapNumber : Nat)
  | illegalOperation
  | rangeError (rangeErrorMin rangeErrorMax : Word)
  | failedLookup (failedLookupWasSource : Bool) (fault : CSpace.LookupFault)
  | truncatedMessage
  | deleteFirst
  | revokeFirst
  | notEnoughMemory (memoryLeft : Word)
  deriving DecidableEq, Repr

/-- `exception_t`, with `current_syscall_error` where it is set. -/
inductive Exception
  | none
  | syscallError (e : SyscallError)
  | preempted
  deriving DecidableEq, Repr

/-- Why decoding an invocation stops: an error for the caller, or a fault of the kernel. -/
inductive Abort
  | syscall (e : SyscallError)
  | fault (f : Fault)
  deriving DecidableEq, Repr

/-- The half of an invocation that only reads the state. -/
abbrev Decode := Except Abort

/-! ## Slots -/

/-- `mdb_node_t`. -/
structure MdbNode where
  mdbNext : Word
  mdbRevocable : Bool
  mdbFirstBadged : Bool
  mdbPrev : Word
  deriving DecidableEq, Repr

def nullMDBNode : MdbNode := ⟨0, false, false, 0⟩

/-- `cte_t`. -/
structure Cte where
  cap : Cap
  cteMDBNode : MdbNode
  deriving DecidableEq, Repr

/-- The slots, by address. -/
abbrev CteHeap := Word → Cte

namespace CteHeap

/-! ## Field writes -/

/-- Write the slot at `p`. -/
def set (p : Word) (c : Cte) (h : CteHeap) : CteHeap := fun x => if x = p then c else h x

/-- `p->cap = c`. -/
def setCap (p : Word) (c : Cap) (h : CteHeap) : CteHeap := h.set p { h p with cap := c }

/-- `p->cteMDBNode = n`. -/
def setNode (p : Word) (n : MdbNode) (h : CteHeap) : CteHeap := h.set p { h p with cteMDBNode := n }

/-- `mdb_node_ptr_set_mdbNext(&p->cteMDBNode, v)`. -/
def setNext (p v : Word) (h : CteHeap) : CteHeap := h.setNode p { (h p).cteMDBNode with mdbNext := v }

/-- `mdb_node_ptr_set_mdbPrev(&p->cteMDBNode, v)`. -/
def setPrev (p v : Word) (h : CteHeap) : CteHeap := h.setNode p { (h p).cteMDBNode with mdbPrev := v }

/-- `mdb_node_ptr_set_mdbFirstBadged(&p->cteMDBNode, b)`. -/
def setFirstBadged (p : Word) (b : Bool) (h : CteHeap) : CteHeap :=
  h.setNode p { (h p).cteMDBNode with mdbFirstBadged := b }

/-- `if (p) ...`. -/
def ifPtr (p : Word) (f : CteHeap → CteHeap) (h : CteHeap) : CteHeap := if p = 0 then h else f h

/-- The links of the derivation list. -/
def links (h : CteHeap) : Links Word where
  next x := (h x).cteMDBNode.mdbNext
  prev x := (h x).cteMDBNode.mdbPrev

/-! ## Operations on the list -/

def maxFreeIndex (sizeBits : Nat) : Nat := 2 ^ (sizeBits - minUntypedBits)

def setUntypedCapAsFull (srcCap newCap : Cap) (srcSlot : Word) (h : CteHeap) : CteHeap :=
  match srcCap, newCap with
  | .untyped _ dev size p, .untyped _ _ size' p' =>
    if p = p' ∧ size' = size then h.setCap srcSlot (.untyped (maxFreeIndex size) dev size p) else h
  | _, _ => h

def cteInsert (newCap : Cap) (srcSlot destSlot : Word) (h : CteHeap) : CteHeap :=
  let srcMDB := (h srcSlot).cteMDBNode
  let srcCap := (h srcSlot).cap
  let newCapIsRevocable := newCap.isCapRevocable srcCap
  let newMDB := { srcMDB with
    mdbPrev := srcSlot, mdbRevocable := newCapIsRevocable, mdbFirstBadged := newCapIsRevocable }
  let h := h.setUntypedCapAsFull srcCap newCap srcSlot
  let h := h.set destSlot ⟨newCap, newMDB⟩
  let h := h.setNext srcSlot destSlot
  h.ifPtr newMDB.mdbNext (setPrev newMDB.mdbNext destSlot)

def cteMove (newCap : Cap) (srcSlot destSlot : Word) (h : CteHeap) : CteHeap :=
  let mdb := (h srcSlot).cteMDBNode
  let h := h.set destSlot ⟨newCap, mdb⟩
  let h := h.set srcSlot ⟨.null, nullMDBNode⟩
  let h := h.ifPtr mdb.mdbPrev (setNext mdb.mdbPrev destSlot)
  h.ifPtr mdb.mdbNext (setPrev mdb.mdbNext destSlot)

def cteSwap (cap1 : Cap) (slot1 : Word) (cap2 : Cap) (slot2 : Word) (h : CteHeap) : CteHeap :=
  let h := h.setCap slot1 cap2
  let h := h.setCap slot2 cap1
  let mdb1 := (h slot1).cteMDBNode
  let h := h.ifPtr mdb1.mdbPrev (setNext mdb1.mdbPrev slot2)
  let h := h.ifPtr mdb1.mdbNext (setPrev mdb1.mdbNext slot2)
  -- read only now: the two writes may have gone to `slot2`
  let mdb2 := (h slot2).cteMDBNode
  let h := h.setNode slot1 mdb2
  let h := h.setNode slot2 mdb1
  let h := h.ifPtr mdb2.mdbPrev (setNext mdb2.mdbPrev slot1)
  h.ifPtr mdb2.mdbNext (setPrev mdb2.mdbNext slot1)

def capSwapForDelete (slot1 slot2 : Word) (h : CteHeap) : CteHeap :=
  if slot1 = slot2 then h else h.cteSwap (h slot1).cap slot1 (h slot2).cap slot2

/-- `emptySlot`, before `postCapDeletion`. -/
def emptySlot (slot : Word) (h : CteHeap) : CteHeap :=
  if (h slot).cap.isNull then h
  else
    let mdbNode := (h slot).cteMDBNode
    let prev := mdbNode.mdbPrev
    let next := mdbNode.mdbNext
    let h := h.ifPtr prev (setNext prev next)
    let h := h.ifPtr next (setPrev next prev)
    let h := h.ifPtr next (setFirstBadged next
      ((h next).cteMDBNode.mdbFirstBadged || mdbNode.mdbFirstBadged))
    h.set slot ⟨.null, nullMDBNode⟩

def insertNewCap (parent slot : Word) (cap : Cap) (h : CteHeap) : CteHeap :=
  let next := (h parent).cteMDBNode.mdbNext
  let h := h.set slot ⟨cap, ⟨next, true, true, parent⟩⟩
  let h := h.ifPtr next (setPrev next slot)
  h.setNext parent slot

/-! ## Reading a slot and its neighbours -/

/-- `isMDBParentOf`; `Arch_isMDBParentOf` is true for the modelled capabilities. -/
def isMDBParentOf (cfg : KernelConfig) (a b : Cte) : Bool :=
  if !a.cteMDBNode.mdbRevocable then false
  else if !a.cap.sameRegionAs cfg b.cap then false
  else
    match a.cap, b.cap with
    | .endpoint badge _ _ _ _ _, .endpoint badge' _ _ _ _ _ =>
      if badge = 0 then true else badge == badge' && !b.cteMDBNode.mdbFirstBadged
    | .notification badge _ _ _, .notification badge' _ _ _ =>
      if badge = 0 then true else badge == badge' && !b.cteMDBNode.mdbFirstBadged
    | _, _ => true

/-- `ensureNoChildren`: true for `EXCEPTION_NONE`, and the error is `seL4_RevokeFirst`. -/
def ensureNoChildren (cfg : KernelConfig) (slot : Word) (h : CteHeap) : Bool :=
  let next := (h slot).cteMDBNode.mdbNext
  if next ≠ 0 then !isMDBParentOf cfg (h slot) (h next) else true

def isFinalCapability (cfg : KernelConfig) (cte : Word) (h : CteHeap) : Bool :=
  let mdb := (h cte).cteMDBNode
  let prevIsSameObject :=
    if mdb.mdbPrev = 0 then false else (h mdb.mdbPrev).cap.sameObjectAs cfg (h cte).cap
  if prevIsSameObject then false
  else if mdb.mdbNext = 0 then true
  else !(h cte).cap.sameObjectAs cfg (h mdb.mdbNext).cap

/-- `ensureEmptySlot`: true for `EXCEPTION_NONE`, and the error is `seL4_DeleteFirst`. -/
def ensureEmptySlot (slot : Word) (h : CteHeap) : Bool := (h slot).cap.isNull

/-- `deriveCap`, with `Arch_deriveCap`. -/
def deriveCap (cfg : KernelConfig) (slot : Word) (cap : Cap) (h : CteHeap) : Except SyscallError Cap :=
  match cap with
  | .vspace _ _ isMapped => if isMapped then .ok cap else .error .illegalOperation
  | .pageTable _ _ isMapped _ => if isMapped then .ok cap else .error .illegalOperation
  | .frame _ p n addr rights dev => .ok (.frame 0 p n addr rights dev)
  | .zombie .. => .ok .null
  | .irqControl => .ok .null
  | .untyped .. => if ensureNoChildren cfg slot h then .ok cap else .error .revokeFirst
  | .reply .. => .ok .null
  | _ => .ok cap

end CteHeap

end SeL4.Object
