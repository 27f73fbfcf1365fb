import Mathlib.Data.Fin.Basic
import Mathlib.Data.List.Nodup
import SeL4.Lib.Trace

/-!
# The big kernel lock

`big_kernel_lock` is a CLH lock: a queue of cores in which each core waits on the request cell of the one
before it. This file models `clh_lock_init`, `clh_lock_acquire`, `clh_lock_release`,
`clh_is_self_in_queue` and `NODE_UNLOCK_IF_HELD` for any number of cores, one shared memory access a
step, under every sequentially consistent interleaving (`LockState.next`, run by `Lib.runFrom`).

## What a core does

* **Entry** (`c_handle_*`). Every entry takes the lock, with `irqPath` set for interrupts, except the
  remote-call interrupt, which enters without it (`enterUnlocked`, `NODE_LOCK_IRQ_IF`).
* **Acquire**: store `Pending` in the own cell (`storePending`), exchange the tail (`exchange`), keep
  what was there as the cell to watch (`storeWatch`), spin (`spin`) until it reads `Granted` (`seeGrant`).
* **Remote calls inside the loop** (`remoteCall`): the handler returns to the loop, or, for a stall on
  the system call path, `ipiStallCoreCallback` goes on waiting for the same grant in a loop of its own.
* **Exit** (`restore_user_context`): test whether the own cell is `Pending` (`exit`), then, if it is,
  store `Granted` in it (`storeGranted`) and take over the watched cell (`adopt`).

## Results

* `LockState.Inv` is the invariant: the cores from exchange to release form a queue in which each
  watches the cell of the one before, every core owns one of the `n + 1` cells, and one cell is spare.
* **`big_kernel_lock_safe`**: mutual exclusion, first come first served by exchange, distinct cells,
  no cell reused before its grant was seen, and `clh_is_self_in_queue` exact at every point where the
  code evaluates it.
* `myreq_shared_in_release`: between the two stores of `clh_lock_release` the cell that `myreq` points
  to is not the core's own any more, and can already be another core's.
-/

namespace SeL4.Smp

open SeL4.Lib Function

/-- `clh_req_state_t`. -/
inductive ReqState where
  | granted
  | pending
  deriving DecidableEq, Repr

/-- A `clh_req_t` of `big_kernel_lock.request`, one more than there are cores. -/
abbrev Cell (n : Nat) := Fin (n + 1)

/-- Where a core is in the code of the lock. -/
inductive Pc (n : Nat) where
  /-- In user mode. -/
  | user
  /-- In the kernel for a remote call, without the lock. -/
  | unlocked
  /-- In `clh_lock_acquire`, `Pending` stored. -/
  | marked (irqPath : Bool)
  /-- The tail exchanged, its old value not yet stored in `node->watch`. -/
  | exchanged (irqPath : Bool) (pred : Cell n)
  /-- In the loop of `clh_lock_acquire`. -/
  | waiting (irqPath : Bool)
  /-- In the loop of `ipiStallCoreCallback`. -/
  | stalled
  /-- In the kernel with the lock. -/
  | held
  /-- In `NODE_UNLOCK_IF_HELD`, the test answered yes. -/
  | unlocking
  /-- In `clh_lock_release`, `Granted` stored and `myreq` not yet replaced. -/
  | releasing
  deriving DecidableEq, Repr

/-- In the queue: from the exchange to the store of `Granted`. -/
def Pc.Queued : Pc n → Bool
  | .exchanged _ _ | .waiting _ | .stalled | .held | .unlocking => true
  | _ => false

/-- From the store of `Pending` in acquire to the store of `Granted` in release. -/
def Pc.Busy : Pc n → Bool
  | .marked _ => true
  | p => p.Queued

theorem Pc.busy_of_queued {p : Pc n} (h : p.Queued = true) : p.Busy = true := by
  cases p
  case marked => rfl
  all_goals exact h

/-- From the return of acquire, or of the loop that stands in for it, to the release. -/
def Pc.Holds : Pc n → Bool
  | .held | .unlocking => true
  | _ => false

/-- The core watches `watch` and owns `myreq`. -/
def Pc.Plain : Pc n → Bool
  | .exchanged _ _ | .releasing => false
  | _ => true

/-- `big_kernel_lock`, without the state of remote calls, and where each core is. -/
structure LockState (n : Nat) where
  request : Cell n → ReqState
  /-- `none` is the null pointer. -/
  watch : Fin n → Option (Cell n)
  myreq : Fin n → Cell n
  tail : Cell n
  pc : Fin n → Pc n

/-- `clh_lock_init`; the cells it does not set are zero, which is `CLHState_Granted`. -/
def clhLockInit (n : Nat) : LockState n where
  request _ := .granted
  watch _ := none
  myreq i := i.castSucc
  tail := Fin.last n
  pc _ := .user

/-- One shared memory access of a core, or a move of it that accesses none. -/
inductive Action where
  | enterUnlocked
  | storePending (irqPath : Bool)
  | exchange
  | storeWatch
  | spin
  | seeGrant
  | remoteCall (stall : Bool)
  | exit
  | storeGranted
  | adopt
  deriving DecidableEq, Repr

namespace LockState

variable {n : Nat}

/-- `clh_is_self_in_queue` on core `c`. -/
def clhIsSelfInQueue (s : LockState n) (c : Fin n) : Bool := s.request (s.myreq c) == .pending

/-- Core `c` goes on at `p`. -/
def goto (s : LockState n) (c : Fin n) (p : Pc n) : LockState n := { s with pc := update s.pc c p }

/-- `x->state = v`. -/
def store (s : LockState n) (x : Cell n) (v : ReqState) : LockState n :=
  { s with request := update s.request x v }

/-- The state of the cell that core `c` watches. -/
def watched (s : LockState n) (c : Fin n) : Option ReqState := (s.watch c).map s.request

/-- One step of core `e.1`. -/
def next (s : LockState n) (e : Fin n × Action) : Option (LockState n) :=
  let c := e.1
  match e.2, s.pc c with
  | .enterUnlocked, .user => some (s.goto c .unlocked)
  | .storePending irqPath, .user => some ((s.store (s.myreq c) .pending).goto c (.marked irqPath))
  | .exchange, .marked irqPath =>
    some (({ s with tail := s.myreq c }).goto c (.exchanged irqPath s.tail))
  | .storeWatch, .exchanged irqPath pred =>
    some (({ s with watch := update s.watch c (some pred) }).goto c (.waiting irqPath))
  | .spin, .waiting _ | .spin, .stalled =>
    if s.watched c = some .pending then some s else none
  | .seeGrant, .waiting _ | .seeGrant, .stalled =>
    if s.watched c = some .granted then some (s.goto c .held) else none
  -- the test at the top of `ipiStallCoreCallback`; every other call returns to where it came from
  | .remoteCall stall, .waiting irqPath =>
    if stall && s.clhIsSelfInQueue c && !irqPath then some (s.goto c .stalled) else some s
  | .remoteCall _, .stalled => some s
  | .remoteCall _, .unlocked => some s
  -- `NODE_UNLOCK_IF_HELD`
  | .exit, .unlocked | .exit, .held =>
    if s.clhIsSelfInQueue c then some (s.goto c .unlocking) else some (s.goto c .user)
  | .storeGranted, .unlocking => some ((s.store (s.myreq c) .granted).goto c .releasing)
  | .adopt, .releasing =>
    match s.watch c with
    | none => none
    | some w => some (({ s with myreq := update s.myreq c w }).goto c .user)
  | _, _ => none

/-- What a step of core `c` can be. -/
inductive Step (s : LockState n) (c : Fin n) : Action → LockState n → Prop
  | enterUnlocked : s.pc c = .user → Step s c .enterUnlocked (s.goto c .unlocked)
  | storePending {b : Bool} : s.pc c = .user →
    Step s c (.storePending b) ((s.store (s.myreq c) .pending).goto c (.marked b))
  | exchange {b : Bool} : s.pc c = .marked b →
    Step s c .exchange (({ s with tail := s.myreq c }).goto c (.exchanged b s.tail))
  | storeWatch {b : Bool} {p : Cell n} : s.pc c = .exchanged b p →
    Step s c .storeWatch
      (({ s with watch := update s.watch c (some p) }).goto c (.waiting b))
  | spin : Step s c .spin s
  | seeGrant : (∃ b, s.pc c = .waiting b) ∨ s.pc c = .stalled → s.watched c = some .granted →
    Step s c .seeGrant (s.goto c .held)
  | ret {b : Bool} : Step s c (.remoteCall b) s
  | stall {b : Bool} : s.pc c = .waiting b → Step s c (.remoteCall true) (s.goto c .stalled)
  | exit : s.pc c = .unlocked ∨ s.pc c = .held →
    Step s c .exit (s.goto c (if s.clhIsSelfInQueue c then .unlocking else .user))
  | storeGranted : s.pc c = .unlocking →
    Step s c .storeGranted ((s.store (s.myreq c) .granted).goto c .releasing)
  | adopt {w : Cell n} : s.pc c = .releasing → s.watch c = some w →
    Step s c .adopt (({ s with myreq := update s.myreq c w }).goto c .user)

variable {c : Fin n} {s' s : LockState n}

theorem next_step {a : Action} (h : s.next (c, a) = some s') : s.Step c a s' := by
  unfold next at h
  dsimp only at h
  split at h
  case h_1 hp => cases h; exact .enterUnlocked hp
  case h_2 hp => cases h; exact .storePending hp
  case h_3 hp => cases h; exact .exchange hp
  case h_4 hp => cases h; exact .storeWatch hp
  case h_5 => split_ifs at h; cases h; exact .spin
  case h_6 => split_ifs at h; cases h; exact .spin
  case h_7 b hp => split_ifs at h with hw; cases h; exact .seeGrant (.inl ⟨b, hp⟩) hw
  case h_8 hp => split_ifs at h with hw; cases h; exact .seeGrant (.inr hp) hw
  case h_9 stall b hp =>
    split_ifs at h with hs
    · cases h
      have hst : stall = true := by
        cases stall
        · cases hs
        · rfl
      exact hst ▸ .stall hp
    · cases h; exact .ret
  case h_10 => cases h; exact .ret
  case h_11 => cases h; exact .ret
  case h_12 hp => rw [← apply_ite some, ← apply_ite (s.goto c)] at h; cases h; exact .exit (.inl hp)
  case h_13 hp => rw [← apply_ite some, ← apply_ite (s.goto c)] at h; cases h; exact .exit (.inr hp)
  case h_14 hp => cases h; exact .storeGranted hp
  case h_15 hp =>
    split at h
    · cases h
    · rename_i w hw
      cases h
      exact .adopt hp hw
  case h_16 => cases h

/-! ## The invariant -/

/-- The cell whose grant core `c` waits for, or has seen, while it is in the queue. -/
def pred (s : LockState n) (c : Fin n) : Option (Cell n) :=
  match s.pc c with
  | .exchanged _ p => some p
  | _ => s.watch c

/-- The cell that belongs to core `c`: `myreq`, but between the two stores of release already the one
it will take over. -/
def ownedCell (s : LockState n) (c : Fin n) : Cell n :=
  match s.pc c, s.watch c with
  | .releasing, some w => w
  | _, _ => s.myreq c

/-- The queue `q` starts at cell `x`, each core watches the cell of the one before, and `tail` is the
cell of the last. -/
def Linked (s : LockState n) : Cell n → List (Fin n) → Prop
  | x, [] => s.tail = x
  | x, c :: q => s.pred c = some x ∧ Linked s (s.myreq c) q

/-- The invariant of the lock: `q` is the queue and `x` the cell that no core owns. -/
structure Inv (s : LockState n) (q : List (Fin n)) (x : Cell n) : Prop where
  mem : ∀ c, c ∈ q ↔ (s.pc c).Queued = true
  nodup : q.Nodup
  linked : s.Linked x q
  spareGranted : s.request x = .granted
  spare : ∀ c, s.ownedCell c ≠ x
  distinct : Function.Injective s.ownedCell
  pending : ∀ c, s.request (s.ownedCell c) = .pending ↔ (s.pc c).Busy = true
  holder : ∀ c, (s.pc c).Holds = true → q.head? = some c

theorem inv_init (n : Nat) : (clhLockInit n).Inv [] (Fin.last n) where
  mem _ := ⟨nofun, nofun⟩
  nodup := List.nodup_nil
  linked := rfl
  spareGranted := rfl
  spare c := Fin.ne_of_lt (Fin.castSucc_lt_last c)
  distinct _ _ h := Fin.castSucc_inj.mp h
  pending _ := ⟨nofun, nofun⟩
  holder _ := nofun

variable {x : Cell n} {q : List (Fin n)}

theorem Linked.congr (h : s.Linked x q) (ht : s'.tail = s.tail) (hp : ∀ c ∈ q, s'.pred c = s.pred c)
    (hm : ∀ c ∈ q, s'.myreq c = s.myreq c) : s'.Linked x q := by
  induction q generalizing x with
  | nil => exact ht.trans h
  | cons c q ih =>
    refine ⟨(hp c (.head _)).trans h.1, ?_⟩
    rw [hm c List.mem_cons_self]
    exact ih h.2 (fun d hd => hp d (.tail c hd)) (fun d hd => hm d (.tail c hd))

/-- A core that exchanges the tail joins the queue behind the last. -/
theorem Linked.append (h : s.Linked x q) (ht : s'.tail = s'.myreq c) (hc : s'.pred c = some s.tail)
    (hp : ∀ d ∈ q, s'.pred d = s.pred d) (hm : ∀ d ∈ q, s'.myreq d = s.myreq d) :
    s'.Linked x (q ++ [c]) := by
  induction q generalizing x with
  | nil =>
    have hx : s.tail = x := h
    exact ⟨hx ▸ hc, ht⟩
  | cons d q ih =>
    refine ⟨(hp d (.head _)).trans h.1, ?_⟩
    rw [hm d List.mem_cons_self]
    exact ih h.2 (fun e he => hp e (.tail d he)) (fun e he => hm e (.tail d he))

/-- The first core of a queue watches the start of it, each other core the `myreq` of one in it. -/
theorem Linked.head_or_watches (h : s.Linked x q) {d : Fin n} (hd : d ∈ q) :
    (q.head? = some d ∧ s.pred d = some x) ∨ ∃ e ∈ q, s.pred d = some (s.myreq e) := by
  induction q generalizing x with
  | nil => exact absurd hd List.not_mem_nil
  | cons a q ih =>
    rcases List.mem_cons.mp hd with rfl | hd'
    · exact .inl ⟨rfl, h.1⟩
    · rcases ih h.2 hd' with ⟨-, hp⟩ | ⟨e, he, hp⟩
      · exact .inr ⟨a, .head _, hp⟩
      · exact .inr ⟨e, List.mem_cons_of_mem a he, hp⟩

section Goto

variable {d : Fin n} {p : Pc n}

theorem goto_pc_self : (s.goto c p).pc c = p := update_self ..

theorem goto_pc_ne (h : d ≠ c) : (s.goto c p).pc d = s.pc d := update_of_ne h ..

theorem pred_congr (hp : s'.pc d = s.pc d) (hw : s'.watch d = s.watch d) : s'.pred d = s.pred d := by
  unfold pred
  rw [hp, hw]

theorem ownedCell_congr (hp : s'.pc d = s.pc d) (hw : s'.watch d = s.watch d)
    (hm : s'.myreq d = s.myreq d) : s'.ownedCell d = s.ownedCell d := by
  unfold ownedCell
  rw [hp, hw, hm]

theorem pred_eq (h : (s.pc c).Plain = true) : s.pred c = s.watch c := by
  unfold pred
  split
  · rename_i he
    rw [he] at h
    exact nomatch h
  · rfl

theorem ownedCell_eq (h : s.pc c ≠ .releasing) : s.ownedCell c = s.myreq c := by
  unfold ownedCell
  split
  · exact absurd ‹_› h
  · rfl

/-- One core goes on: it stays in or out of the queue, watches and owns the same cell, writes no other,
and holds the lock only as the first of the queue. -/
theorem Inv.move (h : s.Inv q x) (ht : s'.tail = s.tail) (hpc : ∀ d ≠ c, s'.pc d = s.pc d)
    (hw : ∀ d ≠ c, s'.watch d = s.watch d) (hm : ∀ d ≠ c, s'.myreq d = s.myreq d)
    (hreq : ∀ y, y ≠ s.ownedCell c → s'.request y = s.request y)
    (ho : s'.ownedCell c = s.ownedCell c) (hq : (s'.pc c).Queued = (s.pc c).Queued)
    (hp : c ∈ q → s'.pred c = s.pred c ∧ s'.myreq c = s.myreq c)
    (hb : s'.request (s.ownedCell c) = .pending ↔ (s'.pc c).Busy = true)
    (hh : (s'.pc c).Holds = true → q.head? = some c) : s'.Inv q x := by
  have hown : s'.ownedCell = s.ownedCell := by
    funext d
    by_cases hd : d = c
    · rw [hd, ho]
    · exact ownedCell_congr (hpc d hd) (hw d hd) (hm d hd)
  refine ⟨fun d => ?_, h.nodup, h.linked.congr ht (fun d hd => ?_) fun d hd => ?_,
    (hreq x (h.spare c).symm).trans h.spareGranted, hown ▸ h.spare, hown ▸ h.distinct, fun d => ?_,
    fun d => ?_⟩
  · rw [h.mem]
    by_cases hd : d = c
    · rw [hd, hq]
    · rw [hpc d hd]
  · by_cases hdc : d = c
    · exact hdc ▸ (hp (hdc ▸ hd)).1
    · exact pred_congr (hpc d hdc) (hw d hdc)
  · by_cases hdc : d = c
    · exact hdc ▸ (hp (hdc ▸ hd)).2
    · exact hm d hdc
  · rw [hown]
    by_cases hd : d = c
    · exact hd ▸ hb
    · rw [hreq _ fun he => hd (h.distinct he), hpc d hd]
      exact h.pending d
  · by_cases hd : d = c
    · exact hd ▸ hh
    · rw [hpc d hd]
      exact h.holder d

/-- A core goes on without a change to the cells. -/
theorem Inv.goto (h : s.Inv q x) {p0 : Pc n} (hc : s.pc c = p0) (hq : p.Queued = p0.Queued)
    (hb : p.Busy = p0.Busy) (hp0 : p0.Plain = true) (hp : p.Plain = true)
    (hh : p.Holds = true → q.head? = some c) : (s.goto c p).Inv q x := by
  have hpc : (s.goto c p).pc c = p := goto_pc_self
  have hpred : (s.goto c p).pred c = s.watch c := pred_eq (hpc.symm ▸ hp)
  have hplain : ∀ {p : Pc n}, p.Plain = true → p ≠ .releasing := by
    rintro _ hp rfl
    exact nomatch hp
  have hown : (s.goto c p).ownedCell c = s.myreq c := ownedCell_eq (hpc.symm ▸ hplain hp)
  have hcell : s.ownedCell c = s.myreq c := ownedCell_eq (hc ▸ hplain hp0)
  refine h.move rfl (fun d hd => goto_pc_ne hd) (fun _ _ => rfl) (fun _ _ => rfl) (fun _ _ => rfl)
    (hown.trans hcell.symm) (by rw [hpc, hc, hq]) (fun _ => ⟨hpred.trans (pred_eq (hc ▸ hp0)).symm, rfl⟩)
    ?_ (hpc.symm ▸ hh)
  rw [hpc, hb, ← hc]
  exact h.pending c

end Goto

section Steps

variable (h : s.Inv q x)
include h

/-- No core of the queue is between the two stores of release. -/
theorem Inv.ownedCell_of_mem (hc : c ∈ q) : s.ownedCell c = s.myreq c := by
  refine ownedCell_eq fun he => ?_
  have hq := (h.mem c).mp hc
  rw [he] at hq
  cases hq

/-- The cell a core in the queue watches is granted only if the core is the first: the others watch a
cell whose owner has not released it. -/
theorem Inv.head_of_granted (hc : c ∈ q) {w : Cell n} (hw : s.pred c = some w)
    (hg : s.request w = .granted) : q.head? = some c := by
  rcases h.linked.head_or_watches hc with ⟨hh, -⟩ | ⟨d, hd, hp⟩
  · exact hh
  · have hpend := (h.pending d).mpr (Pc.busy_of_queued ((h.mem d).mp hd))
    rw [h.ownedCell_of_mem hd, ← Option.mem_unique hw hp, hg] at hpend
    cases hpend

theorem Inv.not_mem {p : Pc n} (hc : s.pc c = p) (hp : p.Queued = false) : c ∉ q := by
  rw [h.mem, hc, hp]
  nofun

theorem Inv.storePending (hc : s.pc c = .user) (b : Bool) :
    ((s.store (s.myreq c) .pending).goto c (.marked b)).Inv q x := by
  have hcell : s.ownedCell c = s.myreq c := ownedCell_eq (by rw [hc]; nofun)
  have hnot : c ∉ q := h.not_mem hc rfl
  refine h.move rfl (fun d hd => goto_pc_ne hd) (fun _ _ => rfl) (fun _ _ => rfl) (fun y hy => ?_) ?_
    (by rw [goto_pc_self, hc]; rfl) (fun hm => absurd hm hnot) ?_ (by rw [goto_pc_self]; nofun)
  · exact update_of_ne (hcell ▸ hy) ..
  · rw [hcell, ownedCell_eq (by rw [goto_pc_self]; nofun)]
    rfl
  · rw [hcell, goto_pc_self]
    exact iff_of_true (update_self ..) rfl

variable {b : Bool}

theorem Inv.exchange (hc : s.pc c = .marked b) :
    (({ s with tail := s.myreq c }).goto c (.exchanged b s.tail)).Inv (q ++ [c]) x := by
  have hown : ∀ d, (({ s with tail := s.myreq c }).goto c (.exchanged b s.tail)).ownedCell d =
      s.ownedCell d := by
    intro d
    by_cases hd : d = c
    · rw [hd, ownedCell_eq (by rw [goto_pc_self]; nofun), ownedCell_eq (by rw [hc]; nofun)]
      rfl
    · exact ownedCell_congr (goto_pc_ne hd) rfl rfl
  have hnot : c ∉ q := h.not_mem hc rfl
  refine ⟨?_, ?_, h.linked.append rfl ?_ ?_ fun _ _ => rfl, h.spareGranted, ?_, ?_, ?_, ?_⟩
  · intro d
    rw [List.mem_append, List.mem_singleton]
    by_cases hd : d = c
    · rw [hd, goto_pc_self]
      exact ⟨fun _ => rfl, fun _ => .inr rfl⟩
    · rw [goto_pc_ne hd, or_iff_left hd]
      exact h.mem d
  · exact List.nodup_append'.mpr ⟨h.nodup, List.nodup_singleton c,
      fun d hd he => hnot (List.mem_singleton.mp he ▸ hd)⟩
  · unfold pred
    rw [goto_pc_self]
  · exact fun d hd => pred_congr (goto_pc_ne fun he => hnot (he ▸ hd)) rfl
  · exact fun d => hown d ▸ h.spare d
  · exact fun d e he => h.distinct (by rwa [hown, hown] at he)
  · intro d
    rw [hown]
    refine (h.pending d).trans ?_
    by_cases hd : d = c
    · rw [hd, goto_pc_self, hc]
      rfl
    · rw [goto_pc_ne hd]
  · intro d hd
    by_cases he : d = c
    · rw [he, goto_pc_self] at hd
      cases hd
    · rw [goto_pc_ne he] at hd
      rw [List.head?_append, h.holder d hd]
      rfl

theorem Inv.storeWatch {p : Cell n} (hc : s.pc c = .exchanged b p) :
    (({ s with watch := update s.watch c (some p) }).goto c (.waiting b)).Inv q x := by
  have hcell : s.ownedCell c = s.myreq c := ownedCell_eq (by rw [hc]; nofun)
  refine h.move rfl (fun d hd => goto_pc_ne hd) (fun d hd => update_of_ne hd ..) (fun _ _ => rfl)
    (fun _ _ => rfl) ?_ (by rw [goto_pc_self, hc]; rfl) (fun _ => ⟨?_, rfl⟩) ?_ (by rw [goto_pc_self]; nofun)
  · rw [hcell, ownedCell_eq (by rw [goto_pc_self]; nofun)]
    rfl
  · -- the program counter has kept the old tail
    rw [pred_eq (by rw [goto_pc_self]; rfl), pred, hc]
    exact update_self ..
  · refine (h.pending c).trans ?_
    rw [goto_pc_self, hc]
    rfl

theorem Inv.seeGrant (hc : (∃ b, s.pc c = .waiting b) ∨ s.pc c = .stalled)
    (hw : s.watched c = some .granted) : (s.goto c .held).Inv q x ∧ q.head? = some c := by
  obtain ⟨w, hwc, hg⟩ := Option.map_eq_some_iff.mp hw
  have hpred : s.pred c = some w := by
    unfold pred
    rcases hc with ⟨b, hb⟩ | hb <;> rw [hb] <;> exact hwc
  have hqueued : (s.pc c).Queued = true := by
    rcases hc with ⟨b, hb⟩ | hb <;> rw [hb] <;> rfl
  have hhead := h.head_of_granted ((h.mem c).mpr hqueued) hpred hg
  refine ⟨?_, hhead⟩
  rcases hc with ⟨b, hb⟩ | hb <;> exact h.goto hb rfl rfl rfl rfl fun _ => hhead

/-- **`clh_is_self_in_queue` is exact** for a core that is not between the two stores of release. -/
theorem Inv.clhIsSelfInQueue (hc : s.pc c ≠ .releasing) : s.clhIsSelfInQueue c = (s.pc c).Busy := by
  have hp := h.pending c
  rw [ownedCell_eq hc] at hp
  unfold LockState.clhIsSelfInQueue
  rw [Bool.eq_iff_iff, beq_iff_eq]
  exact hp

/-- At kernel exit the test of `NODE_UNLOCK_IF_HELD` answers whether the core holds the lock. -/
theorem Inv.exit_eq (hc : s.pc c = .unlocked ∨ s.pc c = .held) : s.clhIsSelfInQueue c = (s.pc c).Holds := by
  rw [h.clhIsSelfInQueue (by rcases hc with hc | hc <;> rw [hc] <;> nofun)]
  rcases hc with hc | hc <;> rw [hc] <;> rfl

theorem Inv.exit (hc : s.pc c = .unlocked ∨ s.pc c = .held) :
    (s.goto c (if s.clhIsSelfInQueue c then .unlocking else .user)).Inv q x := by
  rw [h.exit_eq hc]
  rcases hc with hc | hc
  · rw [hc]
    exact h.goto hc rfl rfl rfl rfl nofun
  · have hhead := h.holder c (by rw [hc]; rfl)
    rw [hc]
    exact h.goto hc rfl rfl rfl rfl fun _ => hhead

/-- The first of the queue releases: its cell is the new start of the queue, and it owns the old. -/
theorem Inv.storeGranted (hc : s.pc c = .unlocking) :
    ∃ t, q = c :: t ∧ ((s.store (s.myreq c) .granted).goto c .releasing).Inv t (s.myreq c) := by
  have hcell : s.ownedCell c = s.myreq c := ownedCell_eq (by rw [hc]; nofun)
  cases q with
  | nil => exact nomatch h.holder c (by rw [hc]; rfl)
  | cons c' t =>
    obtain rfl : c' = c := Option.some.inj (h.holder c (by rw [hc]; rfl))
    obtain ⟨hnot, hnd⟩ := List.nodup_cons.mp h.nodup
    have hwatch : s.watch c' = some x := by
      have := h.linked.1
      unfold pred at this
      rwa [hc] at this
    have hne : s.myreq c' ≠ x := hcell ▸ h.spare c'
    have hself : ((s.store (s.myreq c') .granted).goto c' .releasing).ownedCell c' = x := by
      unfold ownedCell
      rw [goto_pc_self]
      show (match Pc.releasing (n := n), s.watch c' with
        | .releasing, some w => w
        | _, _ => s.myreq c') = x
      rw [hwatch]
    have hother : ∀ d, d ≠ c' →
        ((s.store (s.myreq c') .granted).goto c' .releasing).ownedCell d = s.ownedCell d :=
      fun d hd => ownedCell_congr (goto_pc_ne hd) rfl rfl
    refine ⟨t, rfl, ?_, hnd, h.linked.2.congr rfl ?_ fun _ _ => rfl, ?_, ?_, ?_, ?_, ?_⟩
    · intro d
      by_cases hd : d = c'
      · rw [hd, goto_pc_self]
        exact ⟨fun hm => absurd hm hnot, nofun⟩
      · rw [goto_pc_ne hd]
        exact ⟨fun hm => (h.mem d).mp (.tail c' hm),
          fun hq => List.mem_of_ne_of_mem hd ((h.mem d).mpr hq)⟩
    · exact fun d hd => pred_congr (goto_pc_ne fun he => hnot (he ▸ hd)) rfl
    · exact update_self ..
    · intro d
      by_cases hd : d = c'
      · rw [hd, hself]
        exact hne.symm
      · rw [hother d hd, ← hcell]
        exact fun he => hd (h.distinct he)
    · intro d e he
      by_cases hd : d = c' <;> by_cases hec : e = c'
      · rw [hd, hec]
      · rw [hd, hself, hother e hec] at he
        exact absurd he.symm (h.spare e)
      · rw [hec, hself, hother d hd] at he
        exact absurd he (h.spare d)
      · rw [hother d hd, hother e hec] at he
        exact h.distinct he
    · intro d
      by_cases hd : d = c'
      · rw [hd, hself, goto_pc_self]
        show update s.request (s.myreq c') .granted x = .pending ↔ _
        rw [update_of_ne hne.symm, h.spareGranted]
        exact ⟨nofun, nofun⟩
      · rw [hother d hd, goto_pc_ne hd]
        show update s.request (s.myreq c') .granted (s.ownedCell d) = .pending ↔ _
        rw [← hcell, update_of_ne fun he => hd (h.distinct he)]
        exact h.pending d
    · -- nobody else held the lock, and this core does not any more
      intro d hd
      by_cases he : d = c'
      · rw [he, goto_pc_self] at hd
        cases hd
      · rw [goto_pc_ne he] at hd
        exact absurd (Option.some.inj (h.holder d hd)).symm he

theorem Inv.adopt (hc : s.pc c = .releasing) {w : Cell n} (hw : s.watch c = some w) :
    (({ s with myreq := update s.myreq c w }).goto c .user).Inv q x := by
  have hnot : c ∉ q := h.not_mem hc rfl
  have hcell : s.ownedCell c = w := by
    unfold ownedCell
    rw [hc, hw]
  refine h.move rfl (fun d hd => goto_pc_ne hd) (fun _ _ => rfl) (fun d hd => update_of_ne hd ..)
    (fun _ _ => rfl) ?_ (by rw [goto_pc_self, hc]; rfl) (fun hm => absurd hm hnot) ?_
    (by rw [goto_pc_self]; nofun)
  · rw [hcell, ownedCell_eq (by rw [goto_pc_self]; nofun)]
    exact update_self ..
  · refine (h.pending c).trans ?_
    rw [goto_pc_self, hc]
    rfl

end Steps

/-! ## Runs -/

/-- The cores that took action `a`, in the order in which they did. -/
def coresAt (a : Action) (tr : List (Fin n × Action)) : List (Fin n) :=
  (tr.filter fun e => e.2 = a).map Prod.fst

theorem coresAt_snoc (a : Action) (tr : List (Fin n × Action)) (c : Fin n) (a' : Action) :
    coresAt a (tr ++ [(c, a')]) = coresAt a tr ++ if a' = a then [c] else [] := by
  unfold coresAt
  split <;> simp [*]

/-- The cores of the queue that have not seen their grant yet. -/
def waiters (s : LockState n) (q : List (Fin n)) : List (Fin n) := q.filter fun c => !(s.pc c).Holds

section Waiters

theorem waiters_congr (h : ∀ d ∈ q, (s'.pc d).Holds = (s.pc d).Holds) : s'.waiters q = s.waiters q :=
  List.filter_congr fun d hd => by rw [h d hd]

theorem waiters_goto {t : LockState n} {p p0 : Pc n} (hc : s.pc c = p0) (hp : p.Holds = p0.Holds)
    (ht : t.pc = s.pc) : (t.goto c p).waiters q = s.waiters q := by
  refine waiters_congr fun d _ => ?_
  by_cases hd : d = c
  · rw [hd, goto_pc_self, hp, hc]
  · rw [goto_pc_ne hd, ht]

/-- A core goes on without an exchange, and sees no grant. -/
theorem waiters_append_nil (h : s'.waiters q = s.waiters q) : s.waiters q ++ [] = [] ++ s'.waiters q := by
  rw [h, List.append_nil, List.nil_append]

theorem waiters_cons_of_holds (h : (s.pc c).Holds = true) : s.waiters (c :: q) = s.waiters q :=
  List.filter_cons_of_neg (by rw [h]; nofun)

theorem waiters_cons_of_not_holds (h : (s.pc c).Holds = false) : s.waiters (c :: q) = c :: s.waiters q :=
  List.filter_cons_of_pos (by rw [h]; rfl)

end Waiters

/-- **One step** keeps the invariant. A core joins the waiters with its exchange, and the one that sees
its grant is the first of them. -/
theorem Inv.step {a : Action} (h : s.Inv q x) (hs : s.Step c a s') :
    ∃ q' x', s'.Inv q' x' ∧ s.waiters q ++ (if a = .exchange then [c] else []) =
      (if a = .seeGrant then [c] else []) ++ s'.waiters q' := by
  cases hs with
  | enterUnlocked hc =>
    exact ⟨q, x, h.goto hc rfl rfl rfl rfl nofun, waiters_append_nil (waiters_goto hc rfl rfl)⟩
  | storePending hc => exact ⟨q, x, h.storePending hc _, waiters_append_nil (waiters_goto hc rfl rfl)⟩
  | exchange hc =>
    refine ⟨q ++ [c], x, h.exchange hc, ?_⟩
    rw [waiters_goto (t := { s with tail := s.myreq c }) (p := .exchanged _ _) hc rfl rfl]
    refine .trans ?_ (List.filter_append ..).symm
    congr 1
    refine .symm (List.filter_cons_of_pos ?_)
    rw [hc]
    rfl
  | storeWatch hc => exact ⟨q, x, h.storeWatch hc, waiters_append_nil (waiters_goto hc rfl rfl)⟩
  | spin => exact ⟨q, x, h, List.append_nil _⟩
  | seeGrant hc hw =>
    obtain ⟨hi, hhead⟩ := h.seeGrant hc hw
    refine ⟨q, x, hi, ?_⟩
    cases q with
    | nil => cases hhead
    | cons c' t =>
      obtain rfl : c' = c := Option.some.inj hhead
      have hnot : c' ∉ t := (List.nodup_cons.mp h.nodup).1
      have hf : (s.pc c').Holds = false := by
        rcases hc with ⟨b, hb⟩ | hb <;> rw [hb] <;> rfl
      have ht : (s.goto c' .held).waiters t = s.waiters t :=
        waiters_congr fun d hd => by rw [goto_pc_ne fun he : d = c' => hnot (he ▸ hd)]
      rw [waiters_cons_of_not_holds hf, waiters_cons_of_holds (by rw [goto_pc_self]; rfl), ht]
      exact List.append_nil _
  | ret => exact ⟨q, x, h, List.append_nil _⟩
  | stall hc =>
    exact ⟨q, x, h.goto hc rfl rfl rfl rfl nofun, waiters_append_nil (waiters_goto hc rfl rfl)⟩
  | exit hc =>
    refine ⟨q, x, h.exit hc, waiters_append_nil ?_⟩
    rw [h.exit_eq hc]
    rcases hc with hc | hc <;> exact waiters_goto hc (by rw [hc]; rfl) rfl
  | storeGranted hc =>
    obtain ⟨t, rfl, hi⟩ := h.storeGranted hc
    have hnot : c ∉ t := (List.nodup_cons.mp h.nodup).1
    refine ⟨t, s.myreq c, hi, ?_⟩
    rw [waiters_cons_of_holds (by rw [hc]; rfl)]
    refine (List.append_nil _).trans (waiters_congr fun d hd => ?_).symm
    rw [goto_pc_ne fun he : d = c => hnot (he ▸ hd)]
    rfl
  | adopt hc hw =>
    exact ⟨q, x, h.adopt hc hw, waiters_append_nil (waiters_goto hc rfl rfl)⟩

/-- Core `d` watches cell `w` and has not seen its grant yet. -/
def AwaitsGrant (s : LockState n) (d : Fin n) (w : Cell n) : Prop :=
  (s.pc d).Queued = true ∧ (s.pc d).Holds = false ∧ s.pred d = some w

/-- A core outside the lock's code owns a cell that no core watches. -/
theorem Inv.not_watched {d : Fin n} (h : s.Inv q x)
    (hc : s.pc c = .user) (hd : (s.pc d).Queued = true) : s.pred d ≠ some (s.myreq c) := by
  intro hp
  have hcell : s.ownedCell c = s.myreq c := ownedCell_eq (by rw [hc]; nofun)
  rcases h.linked.head_or_watches ((h.mem d).mpr hd) with ⟨-, hx⟩ | ⟨e, he, hm⟩
  · exact h.spare c (hcell.trans (Option.mem_unique hp hx))
  · have hce : c = e := h.distinct (by
      rw [hcell, h.ownedCell_of_mem he]
      exact Option.mem_unique hp hm)
    exact h.not_mem hc rfl (hce ▸ he)

/-- After a run, the invariant holds of some queue, and the exchanges so far are the grants that were
seen so far followed by the waiters of the queue. -/
theorem run_inv {tr : List (Fin n × Action)} (h : runFrom next (clhLockInit n) tr = some s) :
    ∃ q x, s.Inv q x ∧ coresAt .exchange tr = coresAt .seeGrant tr ++ s.waiters q := by
  refine runFrom_invariant (P := fun tr s => ∃ q x, s.Inv q x ∧
    coresAt .exchange tr = coresAt .seeGrant tr ++ s.waiters q) ?_ ?_ h
  · exact ⟨[], .last n, inv_init n, rfl⟩
  · rintro tr s ⟨c, a⟩ s' - ⟨q, x, hi, hq⟩ hn
    obtain ⟨q', x', hi', hw⟩ := hi.step (next_step hn)
    refine ⟨q', x', hi', ?_⟩
    rw [coresAt_snoc, coresAt_snoc, hq, List.append_assoc, hw, List.append_assoc]

/-- **The big kernel lock is safe**, after every interleaving of any number of cores:
* at most one core is between the return of its acquire and its release;
* the cores get the lock in the order of their exchanges of the tail;
* the cells that the cores own are distinct, and so are the `myreq` cells of all cores that are not
  between the two stores of release;
* a cell becomes `Pending` again only after the core that watched it has seen the grant;
* `clh_is_self_in_queue` answers whether the core is between its store of `Pending` and its store of
  `Granted`, unless it is between the two stores of release, where it is not asked;
* `NODE_UNLOCK_IF_HELD` releases the lock if and only if the core holds it. -/
theorem big_kernel_lock_safe {tr : List (Fin n × Action)} {s : LockState n}
    (h : runFrom next (clhLockInit n) tr = some s) :
    (∀ c d, (s.pc c).Holds = true → (s.pc d).Holds = true → c = d) ∧
    coresAt .seeGrant tr <+: coresAt .exchange tr ∧ Function.Injective s.ownedCell ∧
    (∀ c d, s.pc c ≠ .releasing → s.pc d ≠ .releasing → s.myreq c = s.myreq d → c = d) ∧
    (∀ c b s', s.next (c, .storePending b) = some s' → ∀ d, ¬ s.AwaitsGrant d (s.myreq c)) ∧
    (∀ c, s.pc c ≠ .releasing → s.clhIsSelfInQueue c = (s.pc c).Busy) ∧
    ∀ c s', s.next (c, .exit) = some s' → (s'.pc c = .unlocking ↔ (s.pc c).Holds = true) := by
  obtain ⟨q, x, hi, hq⟩ := run_inv h
  refine ⟨?_, ⟨_, hq.symm⟩, hi.distinct, ?_, ?_, fun c hc => hi.clhIsSelfInQueue hc, ?_⟩
  · intro c d hc hd
    exact Option.some.inj ((hi.holder c hc).symm.trans (hi.holder d hd))
  · intro c d hc hd hm
    exact hi.distinct (by rw [ownedCell_eq hc, ownedCell_eq hd, hm])
  · rintro c b s' hn d ⟨hdq, -, hp⟩
    cases next_step hn with
    | storePending hc => exact hi.not_watched hc hdq hp
  · intro c s' hn
    cases next_step hn with
    | exit hc =>
      rw [goto_pc_self, hi.exit_eq hc]
      cases (s.pc c).Holds
      · exact ⟨nofun, nofun⟩
      · exact ⟨fun _ => rfl, fun _ => rfl⟩

/-- Two cores compete: core 0 takes the lock while core 1 queues and is stalled, then hands over. -/
def handOver : List (Fin 2 × Action) :=
  [(0, .storePending false), (1, .storePending false), (0, .exchange), (1, .exchange), (0, .storeWatch),
    (1, .storeWatch), (0, .seeGrant), (1, .spin), (1, .remoteCall true), (0, .exit),
    (0, .storeGranted), (1, .seeGrant)]

theorem big_kernel_lock_safe_handOver : ∃ s, runFrom next (clhLockInit 2) handOver = some s ∧
    s.pc 1 = .held ∧ s.pc 0 = .releasing ∧ Function.Injective s.ownedCell ∧
    coresAt .seeGrant handOver <+: coresAt .exchange handOver := by
  obtain ⟨s, hs⟩ := Option.isSome_iff_exists.mp
    (by decide : (runFrom next (clhLockInit 2) handOver).isSome = true)
  have hpc : ∀ c, (runFrom next (clhLockInit 2) handOver).map (fun s => s.pc c) =
      some (if c = 1 then .held else .releasing) := by decide
  rw [hs] at hpc
  obtain ⟨-, hfifo, hown, -⟩ := big_kernel_lock_safe hs
  exact ⟨s, hs, Option.some.inj (hpc 1), Option.some.inj (hpc 0), hown, hfifo⟩

/-- Core 1 gets the lock from core 0, releases it and takes it again, while core 0 is still before the
second store of its release. -/
def lateAdopt : List (Fin 2 × Action) :=
  handOver ++ [(1, .exit), (1, .storeGranted), (1, .adopt), (1, .storePending false)]

/-- **The `myreq` cells are not distinct at all times.** Core 0 has stored `Granted` and not yet replaced
its `myreq`, which is by now the cell of core 1; as a predicate of the state `clh_is_self_in_queue` of
core 0 is then true again, too. -/
theorem myreq_shared_in_release : ∃ s, runFrom next (clhLockInit 2) lateAdopt = some s ∧
    s.pc 0 = .releasing ∧ s.myreq 0 = s.myreq 1 ∧ s.clhIsSelfInQueue 0 = true := by
  obtain ⟨s, hs⟩ := Option.isSome_iff_exists.mp
    (by decide : (runFrom next (clhLockInit 2) lateAdopt).isSome = true)
  have hv : (runFrom next (clhLockInit 2) lateAdopt).map
      (fun s => decide (s.pc 0 = .releasing ∧ s.myreq 0 = s.myreq 1 ∧ s.clhIsSelfInQueue 0 = true)) =
      some true := by decide
  rw [hs] at hv
  exact ⟨s, hs, of_decide_eq_true (Option.some.inj hv)⟩

end LockState

end SeL4.Smp
