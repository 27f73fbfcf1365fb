import SeL4.Lib.Span
import SeL4.Object.Untyped

/-!
# Free memory at boot

Model of `init_freemem` (`boot.c`) and what it calls: `merge_regions`, `reserve_region` and
`insert_region` on the two tables of `ndks_boot`, the checks of the two lists the platform passes,
and `create_rootserver_objects` with its bump allocator.

A region is a `Span` of words: `start` is `start` and `stop` is the source's `end`. A physical
region (`p_region_t`) has the same shape, so the two are kept apart by name only; the source
converts between them with `pptrToPaddrReg` and `paddrToPptrReg`, which wrap.

* `NdksBoot.reserved` is `ndks_boot.reserved` cut off at `resv_count`; `freemem` is the whole
  array.
* `init_freemem` ignores what `reserve_region` and `insert_region` return. The flag `overflow`,
  which the source does not have, remembers that one of the tables was too short; it is never read
  back.
* The loops over two indices become recursions on the rest of the two lists. Only the sweep needs
  fuel, as it may trim a region without moving on; `sweepBound` says how much.
-/

namespace SeL4.Boot

open SeL4.Lib SeL4.Object

variable (cfg : BootConfig)

/-- `region_t`. -/
abbrev Region := Span Word

/-- `p_region_t`. -/
abbrev PRegion := Span Word

/-- The build options that the boot code depends on, beyond those of the kernel proper. -/
structure BootConfig extends KernelConfig where
  /-- `CONFIG_ROOT_CNODE_SIZE_BITS`. -/
  rootCNodeSizeBits : Nat
  /-- `MAX_NUM_FREEMEM_REG`. -/
  maxNumFreememReg : Nat
  /-- `MAX_NUM_RESV_REG`. -/
  maxNumResvReg : Nat

/-- The benchmark's own build, with one available region and four device frames. -/
def benchBootConfig : BootConfig where
  toKernelConfig := benchConfig
  rootCNodeSizeBits := 13
  maxNumFreememReg := 3
  maxNumResvReg := 10

/-! ## The kernel window -/

def paddrBase : Word := 0

def BootConfig.pptrBase : Word :=
  if cfg.hyp then 0x0000008000000000 else 0xffffff8000000000

def BootConfig.pptrTop : Word :=
  if cfg.hyp then 0x000000ffc0000000 else 0xffffffffc0000000

def BootConfig.pptrBaseOffset : Word := cfg.pptrBase - paddrBase

def BootConfig.paddrTop : Word := cfg.pptrTop - cfg.pptrBaseOffset

def paddrToPptr (paddr : Word) : Word := paddr + cfg.pptrBaseOffset

def pptrToPaddr (pptr : Word) : Word := pptr - cfg.pptrBaseOffset

def paddrToPptrReg (reg : PRegion) : Region :=
  ⟨paddrToPptr cfg reg.start, paddrToPptr cfg reg.stop⟩

def pptrToPaddrReg (reg : Region) : PRegion :=
  ⟨pptrToPaddr cfg reg.start, pptrToPaddr cfg reg.stop⟩

def ceilingKernelWindow (p : Word) : Word :=
  if cfg.paddrTop < pptrToPaddr cfg p then cfg.pptrTop else p

/-! ## The state of the boot code -/

/-- `rootserver_mem` and the addresses in `rootserver`. -/
structure Rootserver where
  mem : Region
  cnode : Word
  vspace : Word
  asidPool : Word
  ipcBuf : Word
  bootInfo : Word
  extraBi : Word
  tcb : Word
  sc : Word
  paging : Region
  deriving DecidableEq, Repr

/-- The part of `ndks_boot` that describes memory, and the root server's objects. -/
structure NdksBoot where
  reserved : List PRegion
  freemem : List Region
  rootserver : Rootserver
  /-- A region did not fit in its table. -/
  overflow : Bool
  deriving DecidableEq, Repr

def regEmpty : Region := ⟨0, 0⟩

/-- The zeroed memory the kernel starts with. -/
def NdksBoot.zero : NdksBoot where
  reserved := []
  freemem := List.replicate cfg.maxNumFreememReg regEmpty
  rootserver := ⟨regEmpty, 0, 0, 0, 0, 0, 0, 0, 0, regEmpty⟩
  overflow := false

def isRegEmpty (reg : Region) : Bool := reg.start = reg.stop

/-! ## The two tables -/

/-- `merge_regions` from the index after `p` on. -/
def mergeFrom (p : PRegion) : List PRegion → List PRegion
  | [] => [p]
  | q :: rest => if p.stop = q.start then mergeFrom ⟨p.start, q.stop⟩ rest else p :: mergeFrom q rest

def mergeRegions : List PRegion → List PRegion
  | [] => []
  | p :: rest => mergeFrom p rest

/-- The loop of `reserve_region` at the index after `done`; `none` if there is no room. -/
def reserveLoop (cfg : BootConfig) (reg : PRegion) (done : List PRegion) :
    List PRegion → Option (List PRegion)
  | [] => if done.length + 1 = cfg.maxNumResvReg then none else some (done ++ [reg])
  | q :: rest =>
    if q.start = reg.stop then some (mergeRegions (done ++ ⟨reg.start, q.stop⟩ :: rest))
    else if q.stop = reg.start then some (mergeRegions (done ++ ⟨q.start, reg.stop⟩ :: rest))
    else if reg.stop < q.start then
      if cfg.maxNumResvReg ≤ (done ++ q :: rest).length + 1 then none
      else some (done ++ reg :: q :: rest)
    else reserveLoop cfg reg (done ++ [q]) rest

def reserveRegion (reg : PRegion) (st : NdksBoot) :
    Checked (Bool × NdksBoot) := do
  require (reg.start ≤ reg.stop)
  if reg.start = reg.stop then return (true, st)
  match reserveLoop cfg reg [] st.reserved with
  | none => return (false, { st with overflow := true })
  | some reserved => return (true, { st with reserved := reserved })

/-- The first empty entry of `freemem` takes the region; `none` if there is no such entry. -/
def fillEmpty (reg : Region) : List Region → Option (List Region)
  | [] => none
  | f :: rest => if isRegEmpty f then some (reg :: rest) else (fillEmpty reg rest).map (f :: ·)

/-- `insert_region`, which ends in `assert(0)` when no entry is empty. -/
def insertRegion (reg : Region) (st : NdksBoot) :
    Checked (Bool × NdksBoot) := do
  require (reg.start ≤ reg.stop)
  if isRegEmpty reg then return (true, st)
  match fillEmpty reg st.freemem with
  | none => .error .assertion
  | some freemem =>
    let (_, st) ← reserveRegion cfg (pptrToPaddrReg cfg reg) st
    return (true, { st with freemem := freemem })

/-! ## The objects of the root server -/

def pageBits : Nat := 12

def bootInfoFrameBits : Nat := 12

def roundDown (n : Word) (b : Nat) : Word := (n >>> b) <<< b

def roundUp (n : Word) (b : Nat) : Word := (((n - 1) >>> b) + 1) <<< b

def getNPaging (vReg : Region) (bits : Nat) : Word :=
  (roundUp vReg.stop bits - roundDown vReg.start bits) / bit bits

/-- `arch_get_n_paging`: the levels that map 2^39, 2^30 and 2^21 bytes, the first one not where
the second stage starts at level 1 and the top-level table has 2^13 bytes. -/
def archGetNPaging (itVReg : Region) : Word :=
  (if cfg.vspaceBits = 13 then 0 else getNPaging itVReg 39) + getNPaging itVReg 30 +
    getNPaging itVReg 21

def BootConfig.cnodeSizeBits : Nat := cfg.rootCNodeSizeBits + slotBits

def rootserverMaxSizeBits (extraBiSizeBits : Nat) : Nat :=
  max (max cfg.cnodeSizeBits cfg.vspaceBits) extraBiSizeBits

def calculateRootserverSize (itVReg : Region) (extraBiSizeBits : Nat) : Word :=
  bit cfg.cnodeSizeBits + bit cfg.tcbBits + bit pageBits + bit bootInfoFrameBits +
    bit asidPoolBits + (if 0 < extraBiSizeBits then bit extraBiSizeBits else 0) +
    bit cfg.vspaceBits + (if cfg.mcs then bit minSchedContextBits.toNat else 0) +
    archGetNPaging cfg itVReg * bit pageTableBits

def allocRootserverObj (sizeBits : Nat) (n : Word) (rs : Rootserver) :
    Checked (Word × Rootserver) := do
  let allocated := rs.mem.start
  require (allocated % bit sizeBits = 0)
  let mem : Region := ⟨allocated + n * bit sizeBits, rs.mem.stop⟩
  require (mem.start ≤ mem.stop)
  return (allocated, { rs with mem := mem })

/-- `rootserver.x = alloc_rootserver_obj(size_bits, n)`, where `store` is the assignment. -/
def allocObj (store : Word → Rootserver → Rootserver) (sizeBits : Nat) (n : Word)
    (rs : Rootserver) : Checked Rootserver := do
  let (addr, rs) ← allocRootserverObj sizeBits n rs
  return store addr rs

def maybeAllocExtraBi (cmpSizeBits extraBiSizeBits : Nat) (rs : Rootserver) : Checked Rootserver :=
  if cmpSizeBits ≤ extraBiSizeBits ∧ rs.extraBi = 0 then
    allocObj (fun addr rs => { rs with extraBi := addr }) extraBiSizeBits 1 rs
  else .ok rs

/-- The root CNode. -/
def allocCNode : Rootserver → Checked Rootserver :=
  allocObj (fun addr rs => { rs with cnode := addr }) cfg.cnodeSizeBits 1

/-- The root page table. -/
def allocVSpace : Rootserver → Checked Rootserver :=
  allocObj (fun addr rs => { rs with vspace := addr }) cfg.vspaceBits 1

/-- The ASID pool. -/
def allocAsidPool : Rootserver → Checked Rootserver :=
  allocObj (fun addr rs => { rs with asidPool := addr }) asidPoolBits 1

/-- The IPC buffer. -/
def allocIpcBuf : Rootserver → Checked Rootserver :=
  allocObj (fun addr rs => { rs with ipcBuf := addr }) pageBits 1

/-- The boot info frame. -/
def allocBootInfo : Rootserver → Checked Rootserver :=
  allocObj (fun addr rs => { rs with bootInfo := addr }) bootInfoFrameBits 1

/-- The root thread. -/
def allocTcb : Rootserver → Checked Rootserver :=
  allocObj (fun addr rs => { rs with tcb := addr }) cfg.tcbBits 1

/-- The `n` lower page tables. -/
def allocPaging (n : Word) : Rootserver → Checked Rootserver :=
  allocObj (fun addr rs => { rs with paging := ⟨addr, addr + n * bit pageTableBits⟩ })
    pageTableBits n

/-- The scheduling context of the root thread. -/
def allocSc : Rootserver → Checked Rootserver :=
  allocObj (fun addr rs => { rs with sc := addr }) minSchedContextBits.toNat 1

/-- The root CNode and the root page table, the larger one first. -/
def allocTop (extraBiSizeBits : Nat) (rs : Rootserver) :
    Checked Rootserver := do
  if cfg.vspaceBits < cfg.cnodeSizeBits then
    let rs ← allocCNode cfg rs
    let rs ← maybeAllocExtraBi cfg.vspaceBits extraBiSizeBits rs
    allocVSpace cfg rs
  else
    let rs ← allocVSpace cfg rs
    let rs ← maybeAllocExtraBi cfg.cnodeSizeBits extraBiSizeBits rs
    allocCNode cfg rs

/-- The pages, the page tables and the objects smaller than those. -/
def allocSmall (itVReg : Region) (rs : Rootserver) : Checked Rootserver := do
  let rs ← allocAsidPool rs
  let rs ← allocIpcBuf rs
  let rs ← allocBootInfo rs
  let rs ← runIf (pageTableBits ≤ cfg.tcbBits) (allocTcb cfg) rs
  let rs ← allocPaging (archGetNPaging cfg itVReg) rs
  let rs ← runIf (cfg.tcbBits < pageTableBits) (allocTcb cfg) rs
  runIf (cfg.mcs = true) allocSc rs

def createRootserverObjects (start : Word) (itVReg : Region)
    (extraBiSizeBits : Nat) (rs : Rootserver) : Checked Rootserver := do
  let size := calculateRootserverSize cfg itVReg extraBiSizeBits
  let rs := { rs with mem := ⟨start, start + size⟩ }
  let rs ← maybeAllocExtraBi (rootserverMaxSizeBits cfg extraBiSizeBits) extraBiSizeBits rs
  let rs ← allocTop cfg extraBiSizeBits rs
  let rs ← maybeAllocExtraBi pageBits extraBiSizeBits rs
  let rs ← allocSmall cfg itVReg rs
  require (rs.mem.start = rs.mem.stop)
  return rs

/-! ## `init_freemem` -/

/-- The loop of `check_available_memory` at the region after `prev`. -/
def checkAvailableFrom (prev : Option PRegion) : List PRegion → Bool
  | [] => true
  | reg :: rest =>
    if reg.stop < reg.start then false
    else if reg.start = reg.stop then false
    else if prev.any (fun p => reg.start < p.stop) then false
    else checkAvailableFrom (some reg) rest

def checkAvailableMemory (available : List PRegion) : Bool :=
  if available.isEmpty then false else checkAvailableFrom none available

/-- The loop of `check_reserved_memory` at the region after `prev`. -/
def checkReservedFrom (prev : Option Region) : List Region → Bool
  | [] => true
  | reg :: rest =>
    if reg.stop < reg.start then false
    else if prev.any (fun p => reg.start < p.stop) then false
    else checkReservedFrom (some reg) rest

def checkReservedMemory (reserved : List Region) : Bool := checkReservedFrom none reserved

/-- An available region as the kernel sees it, cut off at the end of the kernel window. -/
def availReg (reg : PRegion) : Region :=
  ⟨ceilingKernelWindow cfg (paddrToPptrReg cfg reg).start,
    ceilingKernelWindow cfg (paddrToPptrReg cfg reg).stop⟩

/-- `MIN`. -/
def minWord (a b : Word) : Word := if a < b then a else b

/-- The sweep between two rounds: `avail_reg` from `a` on and `reserved` from `r` on. -/
structure Sweep where
  avail : List Region
  reserved : List Region
  st : NdksBoot

/-- One round of the sweep at the available region `a` and the reserved region `r`. -/
def sweepRound (a : Region) (avail : List Region) (r : Region)
    (reserved : List Region) (st : NdksBoot) : Checked Sweep := do
  if r.start = r.stop then return ⟨a :: avail, reserved, st⟩
  else if a.stop ≤ a.start then return ⟨avail, r :: reserved, st⟩
  else if r.stop ≤ a.start then
    let (_, st) ← reserveRegion cfg (pptrToPaddrReg cfg r) st
    return ⟨a :: avail, reserved, st⟩
  else if a.stop ≤ r.start then
    let (_, st) ← insertRegion cfg a st
    return ⟨avail, r :: reserved, st⟩
  else if r.start ≤ a.start then
    return ⟨⟨minWord a.stop r.stop, a.stop⟩ :: avail, r :: reserved, st⟩
  else
    require (r.start < a.stop)
    let (_, st) ← insertRegion cfg ⟨a.start, r.start⟩ st
    if r.stop < a.stop then return ⟨⟨r.stop, a.stop⟩ :: avail, r :: reserved, st⟩
    else return ⟨avail, r :: reserved, st⟩

/-- The sweep over both lists. -/
def sweep (cfg : BootConfig) : Nat → Sweep → Checked Sweep
  | _, ⟨[], reserved, st⟩ => .ok ⟨[], reserved, st⟩
  | _, ⟨avail, [], st⟩ => .ok ⟨avail, [], st⟩
  | 0, _ => .error .fuel
  | fuel + 1, ⟨a :: avail, r :: reserved, st⟩ => do
    let s ← sweepRound cfg a avail r reserved st
    sweep cfg fuel s

/-- Enough rounds for the sweep: each index moves at most to its end, and a region is trimmed at
most once between two moves. -/
def sweepBound (avail reserved : List Region) : Nat := 2 * (avail.length + reserved.length) + 1

/-- The reserved regions that the sweep did not reach. -/
def reserveRest (cfg : BootConfig) : List Region → NdksBoot → Checked NdksBoot
  | [], st => .ok st
  | r :: rest, st =>
    if r.start < r.stop then do
      let (_, st) ← reserveRegion cfg (pptrToPaddrReg cfg r) st
      reserveRest cfg rest st
    else reserveRest cfg rest st

/-- The available regions that the sweep did not reach. -/
def insertRest (cfg : BootConfig) : List Region → NdksBoot → Checked NdksBoot
  | [], st => .ok st
  | a :: rest, st =>
    if a.start < a.stop then do
      let (_, st) ← insertRegion cfg a st
      insertRest cfg rest st
    else insertRest cfg rest st

/-- `ndks_boot.freemem[i]`. -/
def NdksBoot.freememAt (st : NdksBoot) (i : Nat) : Region := st.freemem.getD i regEmpty

/-- `ndks_boot.freemem[i] = reg`. -/
def NdksBoot.setFreemem (st : NdksBoot) (i : Nat) (reg : Region) : NdksBoot :=
  { st with freemem := st.freemem.set i reg }

/-- The index after the last non-empty one among the first `n` regions. -/
def skipEmpty (st : NdksBoot) : Nat → Nat
  | 0 => 0
  | n + 1 => if isRegEmpty (st.freememAt n) then skipEmpty st n else n + 1

/-- The search, from the last candidate down, for room for the root server's objects; the index
is that after the current candidate. -/
def placeRootserver (cfg : BootConfig) (itVReg : Region) (extraBiSizeBits : Nat) :
    Nat → NdksBoot → Checked (Bool × NdksBoot)
  | 0, st => .ok (false, st)
  | i + 1, st => do
    require (i < cfg.maxNumFreememReg - 1)
    require (isRegEmpty (st.freememAt (i + 1)))
    let size := calculateRootserverSize cfg itVReg extraBiSizeBits
    let unalignedStart := (st.freememAt i).stop - size
    let start := roundDown unalignedStart (rootserverMaxSizeBits cfg extraBiSizeBits)
    if unalignedStart ≤ (st.freememAt i).stop ∧ (st.freememAt i).start ≤ start then
      let rs ← createRootserverObjects cfg start itVReg extraBiSizeBits st.rootserver
      let st := { st with rootserver := rs }
      let st := st.setFreemem (i + 1) ⟨start + size, (st.freememAt i).stop⟩
      return (true, st.setFreemem i ⟨(st.freememAt i).start, start⟩)
    else
      let st := st.setFreemem (i + 1) (st.freememAt i)
      placeRootserver cfg itVReg extraBiSizeBits i (st.setFreemem i regEmpty)

/-- The part of `init_freemem` that fills the two tables. -/
def carve (available : List PRegion) (reserved : List Region) (st : NdksBoot) :
    Checked NdksBoot := do
  let st := { st with freemem := List.replicate cfg.maxNumFreememReg regEmpty }
  -- `avail_reg` has as many entries as `freemem`
  let st := { st with
    overflow := st.overflow || decide (cfg.maxNumFreememReg < available.length) }
  let avail := available.map (availReg cfg)
  let s ← sweep cfg (sweepBound avail reserved) ⟨avail, reserved, st⟩
  let st ← reserveRest cfg s.reserved s.st
  insertRest cfg s.avail st

def initFreemem (available : List PRegion) (reserved : List Region)
    (itVReg : Region) (extraBiSizeBits : Nat) (st : NdksBoot) : Checked (Bool × NdksBoot) := do
  if ¬ checkAvailableMemory available then return (false, st)
  if ¬ checkReservedMemory reserved then return (false, st)
  let st ← carve cfg available reserved st
  if ¬ isRegEmpty (st.freememAt (cfg.maxNumFreememReg - 1)) then return (false, st)
  placeRootserver cfg itVReg extraBiSizeBits (skipEmpty st cfg.maxNumFreememReg) st

end SeL4.Boot
