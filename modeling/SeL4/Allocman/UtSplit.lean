import SeL4.Lib.Trace
import SeL4.Object.Untyped

/-!
# The splitting untyped allocator

Model of `libsel4allocman/src/utspace/split.c`, which gives out untyped memory in blocks of a power of
two: it splits a block in halves until one of the wanted size is free, and merges the halves again when
both are free.

* The state has the heads of the free lists, one for each pool and size, and the nodes in memory. A node
  is linked into the free list of its size, or it is allocated, or it has been split; `node->head` is
  `NULL` only in the first case.
* `allocman_mspace_alloc` and `allocman_cspace_alloc` are outside this file. Each call takes an answer
  from `env`, which is a new address or a new slot, or a failure; an answer that is in use counts as a
  failure.
* Of the kernel there are the capabilities to untyped memory, with the capabilities that were made from
  each one. `seL4_Untyped_Retype` starts at the bottom of an untyped without children and goes on behind
  the last child of one with children. It may fail for reasons that are not modelled.
* `live` and `added` are ghosts: the cookies that are out, with their sizes, and the untypeds that were
  added.

A result `none` is an assertion that fails, or a call that the caller must not make.
-/

namespace SeL4.Allocman

open SeL4.Lib SeL4.Object Function

/-! ## State -/

/-- The three arrays of free lists of `utspace_split_t`. -/
inductive Pool
  | heads | devHeads | devMemHeads
  deriving DecidableEq, Repr

/-- The address of one head, `&heads[bits]`. -/
structure HeadRef where
  pool : Pool
  bits : Nat
  deriving DecidableEq, Repr

/-- `struct utspace_split_node`; `head` is `none` for `NULL`. -/
structure SplitNode where
  ut : Word
  parent : Word
  sibling : Word
  head : Option HeadRef
  originHead : HeadRef
  paddr : Word
  next : Word
  prev : Word
  deriving DecidableEq, Repr

/-- A capability to an object that was made from untyped memory, with the part of an untyped that is used
up and the slots of its children. -/
structure KernelCap where
  untyped : Bool
  base : Nat
  bits : Nat
  offset : Nat
  children : List Word
  deriving DecidableEq, Repr

/-- What the node and slot allocators answer, and whether the kernel agrees to a retype. -/
structure Env where
  mspace : List (Option Word)
  cspace : List (Option Word)
  retype : List Bool

/-- An untyped that was added. -/
structure AddedUt where
  slot : Word
  head : HeadRef
  base : Nat
  deriving DecidableEq, Repr

/-- `utspace_split_t` with the nodes, the capabilities and the environment. -/
structure UtSplit where
  heads : HeadRef → Word
  node : Word → SplitNode
  mem : List Word
  slots : Word → Bool
  cap : Word → Option KernelCap
  env : Env
  live : List (Word × Nat)
  added : List AddedUt

namespace UtSplit

variable (s : UtSplit)

/-! ## The environment -/

/-- `allocman_mspace_alloc` for a node. -/
def mspaceAlloc : Option Word × UtSplit :=
  let s' := { s with env := { s.env with mspace := s.env.mspace.tail } }
  match s.env.mspace.head?.join with
  | some p => if p ≠ 0 ∧ p ∉ s.mem then (some p, { s' with mem := p :: s.mem }) else (none, s')
  | none => (none, s')

/-- `allocman_mspace_free` of a node. -/
def mspaceFree (p : Word) : UtSplit := { s with mem := s.mem.erase p }

/-- `allocman_cspace_alloc`. -/
def cspaceAlloc : Option Word × UtSplit :=
  let s' := { s with env := { s.env with cspace := s.env.cspace.tail } }
  match s.env.cspace.head?.join with
  | some c =>
    if s.slots c = false ∧ (s.cap c).isNone then
      (some c, { s' with slots := update s.slots c true })
    else (none, s')
  | none => (none, s')

/-- `allocman_cspace_free`. -/
def cspaceFree (c : Word) : UtSplit := { s with slots := update s.slots c false }

/-- Where the next object of `2 ^ bits` bytes goes in an untyped. -/
def KernelCap.start (u : KernelCap) (bits : Nat) : Nat :=
  let free := if u.children = [] then 0 else u.offset
  (free + 2 ^ bits - 1) / 2 ^ bits * 2 ^ bits

/-- `seL4_Untyped_Retype` of one object of `2 ^ bits` bytes from `src` into the slot `dst`. -/
def retype (s : UtSplit) (src dst : Word) (bits : Nat) (untyped : Bool) : Bool × UtSplit :=
  let s' := { s with env := { s.env with retype := s.env.retype.tail } }
  match s.cap src with
  | some u =>
    let start := KernelCap.start u bits
    if s.env.retype.headD true = true ∧ u.untyped = true ∧ (s.cap dst).isNone ∧
        start + 2 ^ bits ≤ 2 ^ u.bits then
      let u' := { u with offset := start + 2 ^ bits, children := dst :: u.children }
      (true, { s' with
        cap := update (update s.cap src (some u')) dst
          (some ⟨untyped, u.base + start, bits, 0, []⟩) })
    else (false, s')
  | none => (false, s')

/-- `vka_cnode_delete`. -/
def cnodeDelete (c : Word) : UtSplit :=
  { s with cap := fun x =>
      if x = c then none
      else (s.cap x).map fun u => { u with children := u.children.filter (· ≠ c) } }

/-! ## Lists -/

/-- A store to a node. -/
def modify (p : Word) (f : SplitNode → SplitNode) : UtSplit :=
  { s with node := update s.node p (f (s.node p)) }

/-- The first `if` of `_remove_node`. -/
def unlinkPrev (h : HeadRef) (p : Word) : Option UtSplit :=
  if (s.node p).prev ≠ 0 then some (s.modify (s.node p).prev fun m => { m with next := (s.node p).next })
  else if s.heads h = p then some { s with heads := update s.heads h (s.node p).next }
  else none

/-- Its second `if`. -/
def unlinkNext (p : Word) : UtSplit :=
  if (s.node p).next ≠ 0 then s.modify (s.node p).next fun m => { m with prev := (s.node p).prev } else s

def removeNode (h : HeadRef) (p : Word) : Option UtSplit :=
  (s.unlinkPrev h p).map fun s => (s.unlinkNext p).modify p fun m => { m with head := some h }

/-- The store to the node behind the new one in `_insert_node`. -/
def linkNext (h : HeadRef) (p : Word) : UtSplit :=
  if s.heads h ≠ 0 then s.modify (s.heads h) fun m => { m with prev := p } else s

def insertNode (h : HeadRef) (p : Word) : UtSplit :=
  let s := s.modify p fun m => { m with next := s.heads h, prev := 0 }
  let s := s.linkNext h p
  let s := { s with heads := update s.heads h p }
  s.modify p fun m => { m with head := none }

/-- The nodes from `p` on. -/
def walk (s : UtSplit) : Nat → Word → List Word
  | 0, _ => []
  | n + 1, p => if p = 0 then [] else p :: walk s n (s.node p).next

/-- The nodes that `for (node = *head; node; node = node->next)` visits. -/
def freeList (h : HeadRef) : List Word := s.walk s.mem.length (s.heads h)

/-! ## Nodes -/

def newNode : Option Word × UtSplit :=
  match s.mspaceAlloc with
  | (none, s) => (none, s)
  | (some p, s) =>
    match s.cspaceAlloc with
    | (none, s) => (none, s.mspaceFree p)
    | (some c, s) => (some p, s.modify p fun m => { m with ut := c })

def deleteNode (p : Word) : UtSplit :=
  ((s.cnodeDelete (s.node p).ut).cspaceFree (s.node p).ut).mspaceFree p

/-- `_insert_new_node`: whether it succeeds. -/
def insertNewNode (h : HeadRef) (ut paddr : Word) : Bool × UtSplit :=
  match s.mspaceAlloc with
  | (none, s) => (false, s)
  | (some p, s) =>
    let s := s.modify p fun m => { m with parent := 0, ut := ut, paddr := paddr, originHead := h }
    (true, s.insertNode h p)

/-! ## Allocating -/

/-- `ALLOCMAN_NO_PADDR`. -/
def noPaddr : Word := 1

/-- The test of a node in the loops of `_refill_pool`. -/
def hasPaddr (n : SplitNode) (bits : Nat) (paddr : Word) : Bool :=
  n.paddr ≠ noPaddr ∧ n.paddr ≤ paddr ∧ paddr < n.paddr + bit bits

/-- The node that `_refill_pool` finds in one list, or `NULL`. -/
def pick (h : HeadRef) (paddr : Word) : Word :=
  if paddr = noPaddr then s.heads h
  else ((s.freeList h).find? fun p => hasPaddr (s.node p) h.bits paddr).getD 0

/-- The addresses of the halves of a node in `_refill_pool`. -/
def halfPaddr (paddr : Word) (bits : Nat) : Word := if paddr ≠ noPaddr then paddr + bit bits else noPaddr

/-- The end of `_refill_pool`: the parent leaves its list, and its halves enter theirs. -/
def linkHalves (pool : Pool) (bits : Nat) (p left right : Word) : Option UtSplit :=
  (s.removeNode ⟨pool, bits + 1⟩ p).map fun s =>
    let paddr := (s.node p).paddr
    let s := s.modify left fun m =>
      { m with parent := p, sibling := right, originHead := ⟨pool, bits⟩, paddr := paddr }
    let s := s.modify right fun m =>
      { m with parent := p, sibling := left, originHead := ⟨pool, bits⟩, paddr := halfPaddr paddr bits }
    (s.insertNode ⟨pool, bits⟩ right).insertNode ⟨pool, bits⟩ left

/-- The two retypes of `_refill_pool`. -/
def retypeHalves (bits : Nat) (p left right : Word) : Bool × UtSplit :=
  match s.retype (s.node p).ut (s.node left).ut bits true with
  | (false, s) => (false, (s.deleteNode left).deleteNode right)
  | (true, s) =>
    match s.retype (s.node p).ut (s.node right).ut bits true with
    | (false, s) => (false, ((s.cnodeDelete (s.node left).ut).deleteNode left).deleteNode right)
    | (true, s) => (true, s)

/-- The rest of `_refill_pool`, once there is a node to split. -/
def splitNode (pool : Pool) (bits : Nat) (p : Word) : Option (Bool × UtSplit) :=
  match s.newNode with
  | (none, s) => some (false, s)
  | (some left, s) =>
    match s.newNode with
    | (none, s) => some (false, s.deleteNode left)
    | (some right, s) =>
      match s.retypeHalves bits p left right with
      | (false, s) => some (false, s)
      | (true, s) => (s.linkHalves pool bits p left right).map fun s => (true, s)

/-- `_refill_pool`, with `fuel` larger sizes above `bits`: whether it succeeds. -/
def refillPoolAux (pool : Pool) (paddr : Word) : Nat → Nat → UtSplit → Option (Bool × UtSplit)
  | 0, bits, s => some (decide (s.pick ⟨pool, bits⟩ paddr ≠ 0), s)
  | fuel + 1, bits, s =>
    if s.pick ⟨pool, bits⟩ paddr ≠ 0 then some (true, s)
    else
      match refillPoolAux pool paddr fuel (bits + 1) s with
      | none => none
      | some (false, s) => some (false, s)
      | some (true, s) =>
        let p := s.pick ⟨pool, bits + 1⟩ paddr
        if p = 0 then none else s.splitNode pool bits p

/-- `_refill_pool`. The pools end at `sizeof(seL4_Word) * 8 - 2`. -/
def refillPool (pool : Pool) (bits : Nat) (paddr : Word) : Option (Bool × UtSplit) :=
  refillPoolAux pool paddr (62 - bits) bits s

/-- `find_head_for_paddr`: whether the pool has the address. -/
def findHeadForPaddr (pool : Pool) (paddr : Word) (bits : Nat) : Bool :=
  (List.range 64).any fun i => (s.freeList ⟨pool, i⟩).any fun p =>
    (s.node p).paddr ≠ noPaddr ∧ (s.node p).paddr ≤ paddr ∧ paddr + bit bits ≤ (s.node p).paddr + bit i

/-- `vka_get_object_size`; the type is `none` for a number that is no type. -/
def vkaGetObjectSize (cfg : KernelConfig) (type : Option ObjectType) (size : Word) : Word :=
  match type with
  | some .schedContext => if size > minSchedContextBits then size else minSchedContextBits
  | some t => t.getObjectSize cfg size
  | none => -1

def getSel4ObjectSize (cfg : KernelConfig) (type : Option ObjectType) (sizeBits : Word) : Word :=
  if type = some .capTable then sizeBits - BitVec.ofNat 64 slotBits
  else vkaGetObjectSize cfg type sizeBits

/-- The end of `_utspace_split_alloc`: the object is made and the node leaves its list. The cookie is
`none` on an error. -/
def takeNode (h : HeadRef) (untyped : Bool) (slot p : Word) : Option (Option Word × UtSplit) :=
  match s.retype (s.node p).ut slot h.bits untyped with
  | (false, s) => some (none, s)
  | (true, s) => (s.removeNode h p).map fun s => (some p, { s with live := (p, h.bits) :: s.live })

/-- The pool for an address. -/
def poolForPaddr (paddr : Word) (bits : Nat) (canBeDev : Bool) : Option Pool :=
  if canBeDev ∧ s.findHeadForPaddr .devHeads paddr bits then some .devHeads
  else if canBeDev ∧ s.findHeadForPaddr .devMemHeads paddr bits then some .devMemHeads
  else if s.findHeadForPaddr .heads paddr bits then some .heads
  else none

/-- `_utspace_split_alloc` at an address. -/
def allocAt (bits : Nat) (untyped : Bool) (slot paddr : Word) (canBeDev : Bool) :
    Option (Option Word × UtSplit) :=
  match s.poolForPaddr paddr bits canBeDev with
  | none => some (none, s)
  | some pool =>
    match s.refillPool pool bits paddr with
    | none => none
    | some (false, s) => some (none, s)
    | some (true, s) =>
      let p := ((s.freeList ⟨pool, bits⟩).find? fun p =>
        (s.node p).paddr ≠ noPaddr ∧ (s.node p).paddr = paddr).getD 0
      if p = 0 then none else s.takeNode ⟨pool, bits⟩ untyped slot p

/-- `_utspace_split_alloc` from the first node of a pool. -/
def allocFrom (pool : Pool) (bits : Nat) (untyped : Bool) (slot : Word) :
    Option (Option Word × UtSplit) :=
  s.takeNode ⟨pool, bits⟩ untyped slot (s.heads ⟨pool, bits⟩)

/-- `_utspace_split_alloc` from the kernel's memory. -/
def allocKernel (bits : Nat) (untyped : Bool) (slot : Word) : Option (Option Word × UtSplit) :=
  match s.refillPool .heads bits noPaddr with
  | none => none
  | some (false, s) => some (none, s)
  | some (true, s) => s.allocFrom .heads bits untyped slot

/-- `_utspace_split_alloc` at any address. -/
def allocAny (bits : Nat) (untyped : Bool) (slot : Word) (canBeDev : Bool) :
    Option (Option Word × UtSplit) :=
  if canBeDev then
    match s.refillPool .devMemHeads bits noPaddr with
    | none => none
    | some (true, s) => s.allocFrom .devMemHeads bits untyped slot
    | some (false, s) => s.allocKernel bits untyped slot
  else s.allocKernel bits untyped slot

/-- `_utspace_split_alloc`. A size that is no index of the arrays must not be asked for. -/
def utspaceSplitAlloc (cfg : KernelConfig) (s : UtSplit) (sizeBits : Word) (type : Option ObjectType)
    (slot paddr : Word) (canBeDev : Bool) : Option (Option Word × UtSplit) :=
  if sizeBits ≠ vkaGetObjectSize cfg type (getSel4ObjectSize cfg type sizeBits) ∨ sizeBits = 0 then
    some (none, s)
  else if 64 ≤ sizeBits.toNat then none
  else
    let untyped := decide (type = some .untyped)
    if paddr ≠ noPaddr then s.allocAt sizeBits.toNat untyped slot paddr canBeDev
    else s.allocAny sizeBits.toNat untyped slot canBeDev

/-! ## Freeing -/

/-- `_utspace_split_free`, with at most `fuel` nodes on the way up. -/
def utspaceSplitFree : Nat → UtSplit → Word → Option UtSplit
  | 0, _, _ => none
  | fuel + 1, s, p =>
    let parent := (s.node p).parent
    let sibling := (s.node p).sibling
    if parent ≠ 0 ∧ (s.node sibling).head = none then
      match s.removeNode (s.node sibling).originHead sibling with
      | none => none
      | some s => utspaceSplitFree fuel ((s.deleteNode sibling).deleteNode p) parent
    else
      match (s.node p).head with
      | some h => some (s.insertNode h p)
      | none => none

/-! ## Adding -/

/-- An untyped of the caller. -/
structure NewUt where
  slot : Word
  base : Nat
  bits : Nat
  paddr : Word

/-- The loop of `_utspace_split_add_uts`: whether it succeeds. The untypeds are the caller's, and none
is added twice. -/
def addUts (pool : Pool) : List NewUt → UtSplit → Option (Bool × UtSplit)
  | [], s => some (true, s)
  | u :: us, s =>
    if u.bits < 64 ∧ s.slots u.slot = false ∧ (s.cap u.slot).isNone then
      let s := { s with
        cap := update s.cap u.slot (some ⟨true, u.base, u.bits, 0, []⟩)
        slots := update s.slots u.slot true }
      match s.insertNewNode ⟨pool, u.bits⟩ u.slot u.paddr with
      | (false, s) => some (false, s)
      | (true, s) => addUts pool us { s with added := ⟨u.slot, ⟨pool, u.bits⟩, u.base⟩ :: s.added }
    else none

end UtSplit

/-! ## Runs -/

/-- A call of the allocator, or a capability that its user deletes. -/
inductive SplitEvent
  /-- `_utspace_split_add_uts`; the type is `none` for a number that is none of the three. -/
  | addUts (utType : Option Pool) (uts : List UtSplit.NewUt) (env : Env)
  | alloc (sizeBits : Word) (type : Option ObjectType) (slot paddr : Word) (canBeDev : Bool) (env : Env)
  | free (cookie : Word) (sizeBits : Nat)
  /-- The user deletes what it made in one of its slots. -/
  | delete (slot : Word)

namespace UtSplit

variable (s : UtSplit)

/-- One event. A cookie that is freed is out, with this size, and the object made from it is gone. -/
def next (cfg : KernelConfig) (s : UtSplit) : SplitEvent → Option UtSplit
  | .addUts (some pool) uts env => (addUts pool uts { s with env := env }).map Prod.snd
  | .addUts none _ _ => some s
  | .alloc sizeBits type slot paddr canBeDev env =>
    (utspaceSplitAlloc cfg { s with env := env } sizeBits type slot paddr canBeDev).map Prod.snd
  | .free cookie sizeBits =>
    if (cookie, sizeBits) ∈ s.live ∧ ((s.cap (s.node cookie).ut).map (·.children)) = some [] then
      utspaceSplitFree 64 { s with live := s.live.erase (cookie, sizeBits) } cookie
    else none
  | .delete slot => if s.slots slot = false then some (s.cnodeDelete slot) else none

/-- `utspace_split_create`, with any contents of memory. -/
def create (node : Word → SplitNode) : UtSplit where
  heads _ := 0
  node := node
  mem := []
  slots _ := false
  cap _ := none
  env := ⟨[], [], []⟩
  live := []
  added := []

/-- The bytes of a node. -/
def Holds (p : Word) (x : Nat) : Prop :=
  ∃ c, s.cap (s.node p).ut = some c ∧ c.base ≤ x ∧ x < c.base + 2 ^ c.bits

/-- `q` was split off from `r`, in any number of splits. -/
inductive Below (s : UtSplit) (r : Word) : Word → Prop
  | refl : Below s r r
  | child {q : Word} : (s.node q).parent ≠ 0 → Below s r (s.node q).parent → Below s r q

/-- A node of a free list. -/
def IsFree (p : Word) : Prop := ∃ h, p ∈ s.freeList h

/-- A node that is out. -/
def IsLive (p : Word) : Prop := ∃ n, (p, n) ∈ s.live

end UtSplit

end SeL4.Allocman
