import SeL4.Lib.Checked
import SeL4.Lib.Word

/-!
# Address space identifiers

The ASID tables of AArch64 (`arch/arm/64/kernel/vspace.c`). An ASID names a slot of an ASID pool: its
high bits select the pool in `armKSASIDTable`, its low bits the entry. An entry is empty or names the
root of an address space. With `CONFIG_ARM_HYPERVISOR_SUPPORT` it also stores the 8-bit hardware VMID
that tags the address space in the TLB, and `armKSHWASIDTable` is the table the other way round: there
are more ASIDs than VMIDs, so VMIDs are handed out on demand (`getHWASID`) and taken back round-robin
(`findFreeHWASID`).

Modelled: `findMapForASID`, `invalidateASID`, `storeHWASID`, `findFreeHWASID`, `getHWASID`,
`invalidateASIDEntry`, `invalidateTLBByASID`, `invalidateTLBByASIDVA`, `setVMRoot`, `deleteASID`,
`deleteASIDPool`, and the table updates of `performASIDPoolInvocation` and
`performASIDControlInvocation` with the searches their decoders make.

What the TLB is told is kept in a log (`TlbEvent`), the latest event first. Without hypervisor support
the ASID itself is the tag; `invalidateTranslationASID` takes a `hw_asid_t`, which is 8 bits wide there
too, so the tag it gets is the ASID cut to 8 bits.
-/

namespace SeL4.VSpace

open SeL4.Lib Function

/-- `hw_asid_t`. -/
abbrev HwAsid := BitVec 8

/-- `asidLowBits`, that is `seL4_ASIDPoolIndexBits`. -/
def asidLowBits : Nat := 9

/-- `nASIDPools`, with `asidHighBits` 7. -/
def nASIDPools : Nat := 2 ^ 7

def asidInvalid : Word := 0

/-- `IT_ASID`: the ASID of the initial thread. -/
def itAsid : Word := 1

/-- `ASID_HIGH(a)`. -/
def asidHigh (a : Word) : Word := a >>> asidLowBits

/-- `ASID_LOW(a)`. -/
def asidLow (a : Word) : Word := a &&& mask asidLowBits

/-- `asid_map_t`. -/
inductive AsidMap
  | none
  | vspace (vspaceRoot : Word) (storedHwVmid : HwAsid) (storedVmidValid : Bool)
  deriving DecidableEq, Repr

/-- What the TLB is told. -/
inductive TlbEvent
  /-- `getHWASID(asid)` gave `hw` for the address space at `vspaceRoot`. -/
  | use (asid vspaceRoot : Word) (hw : HwAsid)
  /-- `invalidateTranslationASID(hw)`. -/
  | invalidateASID (hw : HwAsid)
  /-- `invalidateTranslationSingle(vptr)`. -/
  | invalidateSingle (vptr : Word)
  deriving DecidableEq, Repr

/-- The ASID tables and the log of the TLB. -/
structure AsidState where
  /-- `armKSASIDTable`; 0 is the null pointer. -/
  asidTable : Word → Word
  /-- `array` of the pool at an address. -/
  pools : Word → Word → AsidMap
  /-- `armKSHWASIDTable`. -/
  hwAsidTable : HwAsid → Word
  /-- `armKSNextASID`. -/
  nextAsid : HwAsid
  tlb : List TlbEvent

namespace AsidState

variable (s : AsidState)

/-- An event is sent to the TLB. -/
def tell (e : TlbEvent) : AsidState := { s with tlb := e :: s.tlb }

/-- `armKSHWASIDTable[hw] = asid`. -/
def setHwAsid (hw : HwAsid) (asid : Word) : AsidState :=
  { s with hwAsidTable := update s.hwAsidTable hw asid }

/-- `armKSASIDTable[i] = pool`. -/
def setPoolPtr (i pool : Word) : AsidState :=
  { s with asidTable := update s.asidTable i pool }

/-- `memzero` of a pool. -/
def clearPool (pool : Word) : AsidState :=
  { s with pools := update s.pools pool fun _ => .none }

def getPoolPtr (asid : Word) : Word := s.asidTable (asidHigh asid)

def findMapForASID (asid : Word) : AsidMap :=
  if s.getPoolPtr asid = 0 then .none else s.pools (s.getPoolPtr asid) (asidLow asid)

/-- `poolPtr->array[ASID_LOW(asid)] = asid_map` for the pool of `asid`. -/
def setASIDMap (asid : Word) (m : AsidMap) : AsidState :=
  let pool := s.getPoolPtr asid
  { s with pools := update s.pools pool (update (s.pools pool) (asidLow asid) m) }

def invalidateASID (asid : Word) : Checked AsidState :=
  match s.findMapForASID asid with
  | .none => .error .assertion
  | .vspace root _ _ => .ok (s.setASIDMap asid (.vspace root 0 false))

def storeHWASID (asid : Word) (hw : HwAsid) : Checked AsidState :=
  match s.findMapForASID asid with
  | .none => .error .assertion
  | .vspace root _ _ => .ok ((s.setASIDMap asid (.vspace root hw true)).setHwAsid hw asid)

/-- The VMIDs in the order in which `findFreeHWASID` looks at them. -/
def candidates : List HwAsid :=
  (List.range 256).map fun offset => s.nextAsid + BitVec.ofNat 8 offset

def findFreeHWASID : Checked (HwAsid × AsidState) :=
  match s.candidates.find? fun hw => s.hwAsidTable hw == asidInvalid with
  | some hw => .ok (hw, s)
  | none => do
    let hw := s.nextAsid
    let s ← s.invalidateASID (s.hwAsidTable hw)
    let s := (s.tell (.invalidateASID hw)).setHwAsid hw asidInvalid
    .ok (hw, { s with nextAsid := s.nextAsid + 1 })

def getHWASID (asid : Word) : Checked (HwAsid × AsidState) :=
  match s.findMapForASID asid with
  | .none => .error .assertion
  | .vspace root hw true => .ok (hw, s.tell (.use asid root hw))
  | .vspace root _ false => do
    let (hw, s) ← s.findFreeHWASID
    let s ← s.storeHWASID asid hw
    .ok (hw, s.tell (.use asid root hw))

def invalidateASIDEntry (asid : Word) : Checked AsidState :=
  match s.findMapForASID asid with
  | .none => .error .assertion
  | .vspace _ hw valid => (if valid then s.setHwAsid hw asidInvalid else s).invalidateASID asid

section Config

-- `CONFIG_ARM_HYPERVISOR_SUPPORT`
variable (hyp : Bool) (s : AsidState)

def invalidateTLBByASID (asid : Word) : Checked AsidState :=
  if hyp then
    match s.findMapForASID asid with
    | .none => .error .assertion
    | .vspace _ hw valid => .ok (if valid then s.tell (.invalidateASID hw) else s)
  else .ok (s.tell (.invalidateASID (asid.setWidth 8)))

def invalidateTLBByASIDVA (asid vaddr : Word) : Checked AsidState :=
  if hyp then
    match s.findMapForASID asid with
    | .none => .error .assertion
    | .vspace _ hw valid =>
      .ok (if valid then s.tell (.invalidateSingle (hw.setWidth 64 <<< 48 ||| vaddr >>> 12)) else s)
  else .ok (s.tell (.invalidateSingle (asid <<< 48 ||| vaddr >>> 12)))

/-- `setVMRoot`. The argument is what the root capability of the thread names, if it is a mapped
address space. -/
def setVMRoot (threadRoot : Option (Word × Word)) : Checked AsidState :=
  match threadRoot with
  | none => .ok s
  | some (vspaceRoot, asid) =>
    match s.findMapForASID asid with
    | .none => .ok s
    | .vspace root _ _ =>
      if root = vspaceRoot ∧ hyp = true then do
        let (_, s) ← s.getHWASID asid
        .ok s
      else .ok s

/-- What `deleteASID` and `deleteASIDPool` do to an entry that names an address space. -/
def retireASID (asid : Word) : Checked AsidState := do
  let s ← s.invalidateTLBByASID hyp asid
  if hyp then s.invalidateASIDEntry asid else .ok s

def deleteASID (asid vspace : Word) (threadRoot : Option (Word × Word)) : Checked AsidState :=
  match s.findMapForASID asid with
  | .none => .ok s
  | .vspace root _ _ =>
    if root = vspace then do
      let s ← s.retireASID hyp asid
      (s.setASIDMap asid .none).setVMRoot hyp threadRoot
    else .ok s

/-- One round of the loop of `deleteASIDPool`. -/
def deletePoolEntry (base pool : Word) (s : AsidState) (offset : Nat) : Checked AsidState :=
  match s.pools pool (BitVec.ofNat 64 offset) with
  | .none => .ok s
  | .vspace .. => s.retireASID hyp (base + BitVec.ofNat 64 offset)

def deleteASIDPool (base pool : Word) (threadRoot : Option (Word × Word)) :
    Checked AsidState := do
  require (base &&& mask asidLowBits == 0)
  if s.getPoolPtr base = pool then do
    let s ← (List.range (2 ^ asidLowBits)).foldlM (deletePoolEntry hyp base pool) s
    (s.setPoolPtr (asidHigh base) 0).setVMRoot hyp threadRoot
  else .ok s

end Config

/-- The search of the decoder for `ARMASIDPoolAssign`: the first free entry, which is never ASID 0. -/
def findFreeASID (base pool : Word) : Option Word :=
  ((List.range (2 ^ asidLowBits)).find? fun i =>
    base + BitVec.ofNat 64 i != 0 && s.pools pool (BitVec.ofNat 64 i) == .none).map
    fun i => base + BitVec.ofNat 64 i

/-- `ARMASIDPoolAssign` with the capability to the pool at `pool` with base `base`; nothing changes when
the decoder refuses it. -/
def assignASID (base pool vspaceRoot : Word) : AsidState :=
  if s.getPoolPtr base = 0 ∨ s.getPoolPtr base ≠ pool then s
  else
    match s.findFreeASID base pool with
    | none => s
    | some asid => s.setASIDMap asid (.vspace vspaceRoot 0 false)

/-- The search of the decoder for `ARMASIDControlMakePool`: the first free pool. -/
def findFreePool : Option Word :=
  ((List.range nASIDPools).find? fun i => s.asidTable (BitVec.ofNat 64 i) == 0).map (BitVec.ofNat 64)

/-- `ARMASIDControlMakePool` with the untyped object at `frame`. -/
def makePool (frame : Word) : AsidState :=
  match s.findFreePool with
  | none => s
  | some i => (s.clearPool frame).setPoolPtr i frame

/-- The state after `write_it_asid_pool`, with the pool at `pool` and the initial thread's root. -/
def boot (pool vspaceRoot : Word) : AsidState where
  asidTable := update (fun _ => 0) (asidHigh itAsid) pool
  pools := update (fun _ _ => .none) pool
    (update (fun _ => .none) (asidLow itAsid) (.vspace vspaceRoot 0 false))
  hwAsidTable := fun _ => asidInvalid
  nextAsid := 0
  tlb := []

end AsidState

end SeL4.VSpace
