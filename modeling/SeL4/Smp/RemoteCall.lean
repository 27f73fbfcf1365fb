import Mathlib.Data.Fin.Basic
import Mathlib.Data.Finset.Card
import SeL4.Lib.Trace
import SeL4.Lib.Word

/-!
# Remote calls between cores

A core that holds the big kernel lock makes other cores run a function with `doRemoteMaskOp`: it writes
the call into `big_kernel_lock.ipi`, sets the flag of each target, sends each a hardware interrupt and
waits in a barrier (`ipi_wait`) for all of them. This file models `doRemoteMaskOp`, `init_ipi_args`,
`generic_ipi_send_mask`, `ipi_wait`, `handleIPI`, `handleRemoteCall` and what `clh_lock_acquire`,
`ipiStallCoreCallback` and `c_handle_interrupt` have to do with them, for any number of cores, one
shared memory access a step (`IpiState.next`).

## How a target notices a call

* **By its flag**, in the waiting loop of `clh_lock_acquire` or in that of `ipiStallCoreCallback`
  (`notice`): the flag is read first, then the call (`load`), then the flag again (`exec`).
* **By the interrupt**, in user mode (`takeIpi`). The interrupt may come late, when its call has long
  been served by way of the flag, so the flag decides whether there is anything to do (`exec` or
  `spurious`). `handleIPI` has read the call by then.

The lock itself is that of `Smp/ClhLock.lean` reduced to what matters here: one holder at a time.
A mask is the set of its bits. The function that is called touches none of this state.

## What it is for

`RemoteOp` is the specification: an operation is requested, each target other than the caller executes
exactly this call once, and the caller returns after the last. `RemoteOp.next` refuses every other
order, any other call and any other core. `RemoteOp.executed_of_accepted` says it over lists of events.
-/

namespace SeL4.Smp

open SeL4.Lib Function

/-- `IpiRemoteCall_t`. -/
inductive IpiRemoteCall where
  | stall
  | invalidateTranslationSingle
  | invalidateTranslationASID
  | invalidateTranslationAll
  | switchFpuOwner
  | maskPrivateInterrupt
  | deactivatePrivateInterrupt
  | vcpuInjectInterrupt
  deriving DecidableEq, Repr

/-- `remoteCall` and `args` of `ipi_state_t`. -/
structure CallData where
  remoteCall : IpiRemoteCall
  arg0 : Word
  arg1 : Word
  arg2 : Word
  deriving DecidableEq, Repr

/-- The words of a call, each of which is read and written by itself. -/
inductive Field where
  | remoteCall
  | arg0
  | arg1
  | arg2
  deriving DecidableEq, Repr

/-- The order in which `init_ipi_args` writes and `handleIPI` reads them. -/
def allFields : List Field := [.remoteCall, .arg0, .arg1, .arg2]

theorem mem_allFields (f : Field) : f ∈ allFields := by cases f <;> decide

namespace CallData

/-- One word of `src` is copied to `dst`. -/
def copy (f : Field) (src dst : CallData) : CallData :=
  match f with
  | .remoteCall => { dst with remoteCall := src.remoteCall }
  | .arg0 => { dst with arg0 := src.arg0 }
  | .arg1 => { dst with arg1 := src.arg1 }
  | .arg2 => { dst with arg2 := src.arg2 }

/-- Two calls agree in one word. -/
def Same (f : Field) (a b : CallData) : Prop :=
  match f with
  | .remoteCall => a.remoteCall = b.remoteCall
  | .arg0 => a.arg0 = b.arg0
  | .arg1 => a.arg1 = b.arg1
  | .arg2 => a.arg2 = b.arg2

theorem same_copy (f : Field) (src dst : CallData) : Same f (copy f src dst) src := by
  cases f <;> rfl

theorem same_copy_of_ne {f g : Field} (h : g ≠ f) {src dst x : CallData} (hs : Same g dst x) :
    Same g (copy f src dst) x := by
  cases f <;> cases g <;> first | exact absurd rfl h | exact hs

theorem eq_of_same {a b : CallData} (h : ∀ f, Same f a b) : a = b := by
  cases a
  cases b
  have h0 := h .remoteCall
  have h1 := h .arg0
  have h2 := h .arg1
  have h3 := h .arg2
  unfold Same at h0 h1 h2 h3
  dsimp only at h0 h1 h2 h3
  rw [h0, h1, h2, h3]

end CallData

/-! ## Specification -/

/-- An operation: the core that asked for it, the call, and the cores that have still to execute it. -/
inductive RemoteOp (n : Nat) where
  | idle
  | running (caller : Fin n) (call : CallData) (todo : Finset (Fin n))
  deriving DecidableEq

/-- What can be seen of an operation. -/
inductive Observed (n : Nat) where
  /-- `doRemoteMaskOp` is called. -/
  | call (caller : Fin n) (call : CallData) (mask : Finset (Fin n))
  /-- A core executes a call. -/
  | exec (core : Fin n) (call : CallData)
  /-- `doRemoteMaskOp` returns. -/
  | ret (caller : Fin n)
  deriving DecidableEq

/-- Exactly the calls that were asked for, once by each target, before the operation is over. An
operation that has no target but the caller is over at once. -/
def RemoteOp.next {n : Nat} : RemoteOp n → Observed n → Option (RemoteOp n)
  | .idle, .call c d mask => some (if mask.erase c = ∅ then .idle else .running c d (mask.erase c))
  | .running c d todo, .exec t d' =>
    if t ∈ todo ∧ d' = d then some (.running c d (todo.erase t)) else none
  | .running c _ todo, .ret c' => if c' = c ∧ todo = ∅ then some .idle else none
  | _, _ => none

namespace RemoteOp

variable {n : Nat}

/-- The calls that core `t` executed. -/
def executedBy (t : Fin n) (l : List (Observed n)) : List CallData :=
  l.filterMap fun
    | .exec u d => if u = t then some d else none
    | _ => none

/-- While an operation runs, exactly those cores have executed its call that are not on its list any
more. -/
theorem executed_of_running {l : List (Observed n)} (hret : ∀ c, .ret c ∉ l) {c : Fin n} {d : CallData}
    {todo : Finset (Fin n)} {op : RemoteOp n}
    (h : runFrom RemoteOp.next (.running c d todo) l = some op) :
    ∃ rest ⊆ todo, op = .running c d rest ∧
      ∀ t, executedBy t l = if t ∈ todo ∧ t ∉ rest then [d] else [] := by
  induction l generalizing todo with
  | nil =>
    refine ⟨todo, Finset.Subset.refl _, (Option.some.inj h).symm, fun t => ?_⟩
    rw [if_neg fun hn => hn.2 hn.1]
    rfl
  | cons o l ih =>
    have hret' : ∀ c, .ret c ∉ l := fun c' hc' => hret c' (.tail o hc')
    obtain ⟨op', hn, hr⟩ := runFrom_cons h
    cases o with
    | call => cases hn
    | ret c' => exact absurd (.head _) (hret c')
    | exec u d' =>
      unfold next at hn
      dsimp only at hn
      split_ifs at hn with hu
      obtain rfl := Option.some.inj hn
      obtain ⟨rest, hsub, hop, hex⟩ := ih hret' hr
      refine ⟨rest, hsub.trans (Finset.erase_subset u todo), hop, fun t => ?_⟩
      -- the core that executes first is off the list for the rest of the operation
      by_cases ht : u = t
      · subst ht
        have hrest : u ∉ rest := fun hm => Finset.notMem_erase u todo (hsub hm)
        have hl : executedBy u (.exec u d' :: l) = d' :: executedBy u l :=
          List.filterMap_cons_some (if_pos rfl)
        rw [hl, hex u, if_neg fun hm => Finset.notMem_erase u todo hm.1, if_pos ⟨hu.1, hrest⟩, hu.2]
      · have hl : executedBy t (.exec u d' :: l) = executedBy t l := List.filterMap_cons_none (if_neg ht)
        rw [hl, hex t]
        simp only [Finset.mem_erase, ne_comm.mp ht, ne_eq, not_false_eq_true, true_and]

/-- **What the specification says of one operation**: between its call and its return each core of the
mask but the caller executes exactly its call, once, and no other core executes anything. -/
theorem executed_of_accepted {pre mid post : List (Observed n)} {c : Fin n} {d : CallData}
    {mask : Finset (Fin n)} {op : RemoteOp n}
    (h : runFrom RemoteOp.next .idle (pre ++ .call c d mask :: (mid ++ .ret c :: post)) = some op)
    (hne : mask.erase c ≠ ∅) (hret : ∀ c', .ret c' ∉ mid) (t : Fin n) :
    executedBy t mid = if t ∈ mask.erase c then [d] else [] := by
  rw [runFrom_append] at h
  obtain ⟨op1, -, h1⟩ := Option.bind_eq_some_iff.mp h
  obtain ⟨op2, hcall, h2⟩ := runFrom_cons h1
  have hop2 : op2 = .running c d (mask.erase c) := by
    cases op1 with
    | running => cases hcall
    | idle =>
      unfold next at hcall
      dsimp only at hcall
      rw [if_neg hne] at hcall
      exact (Option.some.inj hcall).symm
  rw [hop2, runFrom_append] at h2
  obtain ⟨op3, hmid, h3⟩ := Option.bind_eq_some_iff.mp h2
  obtain ⟨rest, -, hop3, hex⟩ := executed_of_running hret hmid
  obtain ⟨op4, hr, -⟩ := runFrom_cons h3
  rw [hop3] at hr
  unfold next at hr
  dsimp only at hr
  split_ifs at hr with hrest
  rw [hex t, hrest.2]
  simp only [Finset.notMem_empty, not_false_eq_true, and_true]

end RemoteOp

/-! ## Model -/

/-- From where `handleIPI` was called, and so where it returns to. -/
inductive Ctx where
  /-- `c_handle_interrupt`, without the lock; `irqPath` is true. -/
  | irq
  /-- The loop of `clh_lock_acquire`. -/
  | loop (irqPath : Bool)
  /-- The loop of `ipiStallCoreCallback`, which only a call with `irqPath` false enters. -/
  | stallLoop
  deriving DecidableEq, Repr

/-- Where a core is in `ipi_wait`. -/
inductive Barrier where
  | start
  /-- `cores` read. -/
  | sense (cores : Nat)
  /-- `localsense` read. -/
  | add (cores : Nat) (localsense : Word)
  /-- Added to `count` as the last. -/
  | reset (localsense : Word)
  /-- `count` set to 0. -/
  | bump (localsense : Word)
  /-- `globalsense` read, to be incremented. -/
  | bumped (localsense v : Word)
  /-- In the loop. -/
  | spin (localsense : Word)
  deriving DecidableEq, Repr

/-- Who called `ipi_wait`. -/
inductive Cont where
  | caller
  | handler (ctx : Ctx)
  deriving DecidableEq, Repr

/-- Where a core is. -/
inductive CorePc (n : Nat) where
  | user
  /-- In the loop of `clh_lock_acquire`. -/
  | waiting (irqPath : Bool)
  /-- In the loop of `ipiStallCoreCallback`. -/
  | stallLoop
  /-- In the kernel with the lock, not in `doRemoteMaskOp`. -/
  | holding
  /-- In `handleIPI`, with the words of `rest` still to read before the flag is tested. -/
  | loading (rest : List Field) (ctx : Ctx)
  /-- The call executed, the flag still set. -/
  | clearing (ctx : Ctx)
  | barrier (b : Barrier) (k : Cont)
  /-- In `init_ipi_args`, with the words of `rest` still to write. -/
  | storing (rest : List Field) (call : CallData) (mask : Finset (Fin n))
  /-- In the first loop of `generic_ipi_send_mask`. -/
  | flagging (rest mask : Finset (Fin n))
  /-- In its second loop. -/
  | sending (rest : Finset (Fin n))
  deriving DecidableEq

/-- Where the handler returns to. -/
def Ctx.resume {n : Nat} : Ctx → CorePc n
  | .irq => .user
  | .loop irqPath => .waiting irqPath
  | .stallLoop => .stallLoop

/-- After a stall on the system call path the core goes on waiting for the lock in
`ipiStallCoreCallback` and does not return. -/
def Ctx.after : Ctx → IpiRemoteCall → Ctx
  | .loop false, .stall => .stallLoop
  | ctx, _ => ctx

/-- The core holds the lock. -/
def CorePc.Holds {n : Nat} : CorePc n → Bool
  | .holding | .storing _ _ _ | .flagging _ _ | .sending _ | .barrier _ .caller => true
  | _ => false

/-- `big_kernel_lock.ipi`, the flags, the interrupts on their way and, for each core, the call it has
read and where it is. -/
structure IpiState (n : Nat) where
  call : CallData
  totalCoreBarrier : Nat
  count : Nat
  globalsense : Word
  ipi : Fin n → Bool
  hwIpi : Fin n → Nat
  regs : Fin n → CallData
  pc : Fin n → CorePc n

/-- A step of a core. -/
inductive IpiAction (n : Nat) where
  | enter (irqPath : Bool)
  | acquire
  | release
  | takeIpi
  | notice
  | load
  | exec (call : CallData)
  | spurious
  | clear
  | wait
  | leave
  | ret
  | call (call : CallData) (mask : Finset (Fin n))
  | store
  | storeTotal
  | setFlag (target : Fin n)
  | flagsSet
  | send (target : Fin n)
  | sent
  deriving DecidableEq

namespace IpiState

variable {n : Nat}

/-- The state after `big_kernel_lock` was zeroed, with every core in user mode. -/
def initial (n : Nat) : IpiState n where
  call := ⟨.stall, 0, 0, 0⟩
  totalCoreBarrier := 0
  count := 0
  globalsense := 0
  ipi _ := false
  hwIpi _ := 0
  regs _ := ⟨.stall, 0, 0, 0⟩
  pc _ := .user

/-- Core `c` goes on at `p`. -/
def goto (s : IpiState n) (c : Fin n) (p : CorePc n) : IpiState n := { s with pc := update s.pc c p }

/-- `node[c].ipi = v`. -/
def setIpi (s : IpiState n) (c : Fin n) (v : Bool) : IpiState n := { s with ipi := update s.ipi c v }

/-- `ipi_wait`, but for the last step out of its loop. -/
def ipiWait (s : IpiState n) : Barrier → Option (IpiState n × Barrier)
  | .start => some (s, .sense s.totalCoreBarrier)
  | .sense cores => some (s, .add cores s.globalsense)
  | .add cores localsense =>
    some ({ s with count := s.count + 1 },
      if s.count = cores then .reset localsense else .spin localsense)
  | .reset localsense => some ({ s with count := 0 }, .bump localsense)
  | .bump localsense => some (s, .bumped localsense s.globalsense)
  | .bumped localsense v => some ({ s with globalsense := v + 1 }, .spin localsense)
  | .spin _ => none

/-- The core of highest index in a mask, which `generic_ipi_send_mask` takes first. -/
def Highest (i : Fin n) (rest : Finset (Fin n)) : Prop := i ∈ rest ∧ ∀ j ∈ rest, j ≤ i

instance (i : Fin n) (rest : Finset (Fin n)) : Decidable (Highest i rest) :=
  inferInstanceAs (Decidable (_ ∧ _))

/-- One step of core `e.1`. -/
def next (s : IpiState n) (e : Fin n × IpiAction n) : Option (IpiState n) :=
  let c := e.1
  match e.2, s.pc c with
  -- a system call or another interrupt enters by way of the lock
  | .enter irqPath, .user => some (s.goto c (.waiting irqPath))
  | .acquire, .waiting _ | .acquire, .stallLoop =>
    if ∀ d, (s.pc d).Holds = false then some (s.goto c .holding) else none
  | .release, .holding => some (s.goto c .user)
  | .takeIpi, .user =>
    if 0 < s.hwIpi c then
      some (({ s with hwIpi := update s.hwIpi c (s.hwIpi c - 1) }).goto c
        (.loading allFields .irq))
    else none
  | .notice, .waiting irqPath =>
    if s.ipi c then some (s.goto c (.loading allFields (.loop irqPath))) else none
  | .notice, .stallLoop =>
    if s.ipi c then some (s.goto c (.loading allFields .stallLoop)) else none
  | .load, .loading (f :: rest) ctx =>
    some (({ s with regs := update s.regs c (.copy f s.call (s.regs c)) }).goto c
      (.loading rest ctx))
  -- the test of the flag in `handleRemoteCall`, and the call
  | .exec d, .loading [] ctx =>
    if s.ipi c = true ∧ d = s.regs c then some (s.goto c (.clearing (ctx.after d.remoteCall)))
    else none
  | .spurious, .loading [] ctx => if s.ipi c then none else some (s.goto c ctx.resume)
  | .clear, .clearing ctx => some ((s.setIpi c false).goto c (.barrier .start (.handler ctx)))
  | .wait, .barrier b k => (s.ipiWait b).map fun r => r.1.goto c (.barrier r.2 k)
  | .leave, .barrier (.spin localsense) (.handler ctx) =>
    if localsense = s.globalsense then none else some (s.goto c ctx.resume)
  | .ret, .barrier (.spin localsense) .caller =>
    if localsense = s.globalsense then none else some (s.goto c .holding)
  -- `doRemoteMaskOp`: the caller is taken out of the mask
  | .call d mask, .holding =>
    if mask.erase c = ∅ then some s else some (s.goto c (.storing allFields d (mask.erase c)))
  | .store, .storing (f :: rest) d mask =>
    some (({ s with call := .copy f d s.call }).goto c (.storing rest d mask))
  | .storeTotal, .storing [] _ mask =>
    some (({ s with totalCoreBarrier := mask.card }).goto c (.flagging mask mask))
  | .setFlag i, .flagging rest mask =>
    if Highest i rest then some ((s.setIpi i true).goto c (.flagging (rest.erase i) mask)) else none
  | .flagsSet, .flagging rest mask => if rest = ∅ then some (s.goto c (.sending mask)) else none
  | .send i, .sending rest =>
    if Highest i rest then
      some (({ s with hwIpi := update s.hwIpi i (s.hwIpi i + 1) }).goto c
        (.sending (rest.erase i)))
    else none
  | .sent, .sending rest => if rest = ∅ then some (s.goto c (.barrier .start .caller)) else none
  | _, _ => none

/-- What a step shows of the operation it belongs to. -/
def observe : Fin n × IpiAction n → Option (Observed n)
  | (c, .call d mask) => some (.call c d mask)
  | (t, .exec d) => some (.exec t d)
  | (c, .ret) => some (.ret c)
  | _ => none

/-- What a run shows. -/
def observed (tr : List (Fin n × IpiAction n)) : List (Observed n) := tr.filterMap observe

/-- The hardware interrupt came late: the core executes a call whose words it has read in `handleIPI`
and which is not, or not in every word, the call that is there when it tests its flag. -/
def ExecutesStale (s : IpiState n) : Fin n × IpiAction n → Prop
  | (t, .exec _) => s.pc t = .loading [] .irq ∧ s.regs t ≠ s.call
  | _ => False

/-- **Remote calls are executed exactly**: the run shows what the specification allows, and the barrier
counter is 0 whenever an operation starts. -/
def Exact (tr : List (Fin n × IpiAction n)) : Prop :=
  (runFrom RemoteOp.next .idle (observed tr)).isSome = true ∧
    EveryStep next (fun s e => ∀ d mask, e.2 = .call d mask → s.count = 0) (initial n) tr

/-- What a step of core `c` can be. -/
inductive Step (s : IpiState n) (c : Fin n) : IpiAction n → IpiState n → Prop
  | enter {b : Bool} : s.pc c = .user → Step s c (.enter b) (s.goto c (.waiting b))
  | acquire : (∃ b, s.pc c = .waiting b) ∨ s.pc c = .stallLoop → (∀ d, (s.pc d).Holds = false) →
    Step s c .acquire (s.goto c .holding)
  | release : s.pc c = .holding → Step s c .release (s.goto c .user)
  | takeIpi : s.pc c = .user →
    Step s c .takeIpi (({ s with hwIpi := update s.hwIpi c (s.hwIpi c - 1) }).goto c
      (.loading allFields .irq))
  | notice {ctx : Ctx} : s.pc c = ctx.resume → ctx ≠ .irq → s.ipi c = true →
    Step s c .notice (s.goto c (.loading allFields ctx))
  | load {f : Field} {rest : List Field} {ctx : Ctx} : s.pc c = .loading (f :: rest) ctx →
    Step s c .load (({ s with regs := update s.regs c (.copy f s.call (s.regs c)) }).goto c
      (.loading rest ctx))
  | exec {ctx : Ctx} : s.pc c = .loading [] ctx → s.ipi c = true →
    Step s c (.exec (s.regs c)) (s.goto c (.clearing (ctx.after (s.regs c).remoteCall)))
  | spurious {ctx : Ctx} : s.pc c = .loading [] ctx → s.ipi c = false →
    Step s c .spurious (s.goto c ctx.resume)
  | clear {ctx : Ctx} : s.pc c = .clearing ctx →
    Step s c .clear ((s.setIpi c false).goto c (.barrier .start (.handler ctx)))
  | wait {b b' : Barrier} {k : Cont} {s' : IpiState n} : s.pc c = .barrier b k →
    s.ipiWait b = some (s', b') → Step s c .wait (s'.goto c (.barrier b' k))
  | leave {ls : Word} {ctx : Ctx} : s.pc c = .barrier (.spin ls) (.handler ctx) →
    ls ≠ s.globalsense → Step s c .leave (s.goto c ctx.resume)
  | ret {ls : Word} : s.pc c = .barrier (.spin ls) .caller → ls ≠ s.globalsense →
    Step s c .ret (s.goto c .holding)
  | callNone {d : CallData} {mask : Finset (Fin n)} : s.pc c = .holding → mask.erase c = ∅ →
    Step s c (.call d mask) s
  | call {d : CallData} {mask : Finset (Fin n)} : s.pc c = .holding → mask.erase c ≠ ∅ →
    Step s c (.call d mask) (s.goto c (.storing allFields d (mask.erase c)))
  | store {f : Field} {rest : List Field} {d : CallData} {mask : Finset (Fin n)} :
    s.pc c = .storing (f :: rest) d mask →
    Step s c .store (({ s with call := .copy f d s.call }).goto c (.storing rest d mask))
  | storeTotal {d : CallData} {mask : Finset (Fin n)} : s.pc c = .storing [] d mask →
    Step s c .storeTotal (({ s with totalCoreBarrier := mask.card }).goto c (.flagging mask mask))
  | setFlag {i : Fin n} {rest mask : Finset (Fin n)} : s.pc c = .flagging rest mask → i ∈ rest →
    Step s c (.setFlag i) ((s.setIpi i true).goto c (.flagging (rest.erase i) mask))
  | flagsSet {mask : Finset (Fin n)} : s.pc c = .flagging ∅ mask →
    Step s c .flagsSet (s.goto c (.sending mask))
  | send {i : Fin n} {rest : Finset (Fin n)} : s.pc c = .sending rest →
    Step s c (.send i) (({ s with hwIpi := update s.hwIpi i (s.hwIpi i + 1) }).goto c
      (.sending (rest.erase i)))
  | sent {rest : Finset (Fin n)} : s.pc c = .sending rest →
    Step s c .sent (s.goto c (.barrier .start .caller))

theorem next_step {s s' : IpiState n} {c : Fin n} {a : IpiAction n} (h : s.next (c, a) = some s') :
    s.Step c a s' := by
  unfold next at h
  dsimp only at h
  split at h
  case h_1 hp => cases h; exact .enter hp
  case h_2 b hp => split_ifs at h with hf; cases h; exact .acquire (.inl ⟨b, hp⟩) hf
  case h_3 hp => split_ifs at h with hf; cases h; exact .acquire (.inr hp) hf
  case h_4 hp => cases h; exact .release hp
  case h_5 hp => split_ifs at h with hf; cases h; exact .takeIpi hp
  case h_6 b hp =>
    split_ifs at h with hf
    cases h
    have hr : s.pc c = (Ctx.loop b).resume := hp
    exact .notice hr nofun hf
  case h_7 hp =>
    split_ifs at h with hf
    cases h
    have hr : s.pc c = Ctx.stallLoop.resume := hp
    exact .notice hr nofun hf
  case h_8 hp => cases h; exact .load hp
  case h_9 hp =>
    split_ifs at h with hf
    obtain ⟨hi, rfl⟩ := hf
    cases h
    exact .exec hp hi
  case h_10 hp => split_ifs at h with hf; cases h; exact .spurious hp (Bool.eq_false_iff.mpr hf)
  case h_11 hp => cases h; exact .clear hp
  case h_12 hp =>
    obtain ⟨⟨s1, b'⟩, hw, rfl⟩ := Option.map_eq_some_iff.mp h
    exact .wait hp hw
  case h_13 hp => split_ifs at h with hf; cases h; exact .leave hp hf
  case h_14 hp => split_ifs at h with hf; cases h; exact .ret hp hf
  case h_15 hp =>
    split_ifs at h with hf
    · cases h; exact .callNone hp hf
    · cases h; exact .call hp hf
  case h_16 hp => cases h; exact .store hp
  case h_17 hp => cases h; exact .storeTotal hp
  case h_18 hp => split_ifs at h with hf; cases h; exact .setFlag hp hf.1
  case h_19 hp =>
    split_ifs at h with hf
    cases h
    exact .flagsSet (hf ▸ hp)
  case h_20 hp => split_ifs at h with hf; cases h; exact .send hp
  case h_21 hp => split_ifs at h with hf; cases h; exact .sent hp
  case h_22 => cases h

end IpiState

end SeL4.Smp
