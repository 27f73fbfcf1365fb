import SeL4.Thread.State

/-!
# Ready queues, their bitmaps and the release queue

Model of `tcb_queue_prepend`, `tcb_queue_append`, `tcb_queue_insert` and `tcb_queue_remove`
(`tcb.h`, `tcb.c`), of the two-level bitmap (`addToBitmap`, `removeFromBitmap`, `getHighestPrio`,
`isHighestPrio`), and of the list part of `tcbSchedEnqueue`, `tcbSchedAppend`, `tcbSchedDequeue`,
`tcbReleaseEnqueue` and `tcbReleaseRemove`; the functions on `SysState` add the assertions, which
read the scheduling contexts.

Prepending and appending write no link that the new element's own fields need to be cleared for, and
removing the only element writes no link at all. The queues are right because of a fact about the
threads outside of them: their links are null (`Links.CleanQueues`).

Results: what the four list operations do to the lists (`tcbQueuePrepend_queues`,
`tcbQueueAppend_queues`, `tcbQueueInsert_queues`, `tcbQueueRemove_queues`), and, for a bitmap that
marks the busy priorities (`BitmapInv`), that the two updates mark and unmark one, and that the
search finds the highest (`BitmapInv.getHighestPrio`).
-/

namespace SeL4.Thread

open SeL4.Lib SeL4.Object Function

/-! ## Queues of the scheduler -/

def tcbQueueEmpty (queue : TcbQueue) : Bool := queue.head == 0

def tcbQueuePrepend (queue : TcbQueue) (tcb : Word) (L : Links Word) : TcbQueue × Links Word :=
  if tcbQueueEmpty queue then (⟨tcb, tcb⟩, L)
  else (⟨tcb, queue.tail⟩, (L.setNext tcb queue.head).setPrev queue.head tcb)

def tcbQueueAppend (queue : TcbQueue) (tcb : Word) (L : Links Word) : TcbQueue × Links Word :=
  if tcbQueueEmpty queue then (⟨tcb, tcb⟩, L)
  else (⟨queue.head, tcb⟩, (L.setPrev tcb queue.tail).setNext queue.tail tcb)

def tcbQueueInsert (tcb after : Word) (L : Links Word) : Checked (Links Word) := do
  let before := L.prev after
  require (before != 0)
  require (before != after)
  .ok ((((L.setPrev tcb before).setNext tcb after).setPrev after tcb).setNext before tcb)

def tcbQueueRemove (queue : TcbQueue) (tcb : Word) (L : Links Word) : TcbQueue × Links Word :=
  let before := L.prev tcb
  let after := L.next tcb
  if queue.head = tcb ∧ queue.tail = tcb then (⟨0, 0⟩, L)
  else if queue.head = tcb then (⟨after, queue.tail⟩, (L.setPrev after 0).setNext tcb 0)
  else if queue.tail = tcb then (⟨queue.head, before⟩, (L.setNext before 0).setPrev tcb 0)
  else
    (queue, (((L.setNext before after).setPrev after before).setPrev tcb 0).setNext tcb 0)

def readyQueuesIndex (cfg : SysConfig) (dom prio : Nat) : Checked Nat :=
  if cfg.numDomains > 1 then .ok (dom * numPriorities + prio)
  else do
    require (dom == 0)
    .ok prio

/-! ## The bitmap -/

def prioToL1index (prio : Nat) : Nat := prio >>> wordRadix

def l1indexToPrio (l1index : Nat) : Nat := l1index <<< wordRadix

/-- `invert_l1index`. For a larger index the subtraction wraps around, and the assertion fails. -/
def invertL1index (l1index : Nat) : Checked Nat := do
  require (decide (l1index < l2BitmapSize))
  .ok (l2BitmapSize - 1 - l1index)

namespace SchedQueues

variable (cfg : SysConfig)

/-- A store to `ksReadyQueuesL2Bitmap[dom][i]`. -/
def setL2 (dom i : Nat) (w : Word) (q : SchedQueues) : SchedQueues :=
  { q with
    ksReadyQueuesL2Bitmap := update q.ksReadyQueuesL2Bitmap dom
      (update (q.ksReadyQueuesL2Bitmap dom) i w) }

/-- A store to `ksReadyQueuesL1Bitmap[dom]`. -/
def setL1 (dom : Nat) (w : Word) (q : SchedQueues) : SchedQueues :=
  { q with ksReadyQueuesL1Bitmap := update q.ksReadyQueuesL1Bitmap dom w }

def addToBitmap (dom prio : Nat) (q : SchedQueues) : Checked SchedQueues := do
  let l1index := prioToL1index prio
  let l1indexInverted ← invertL1index l1index
  let q := q.setL1 dom (q.ksReadyQueuesL1Bitmap dom ||| bit l1index)
  .ok (q.setL2 dom l1indexInverted
    (q.ksReadyQueuesL2Bitmap dom l1indexInverted ||| bit (prio % 2 ^ wordRadix)))

def removeFromBitmap (dom prio : Nat) (q : SchedQueues) : Checked SchedQueues := do
  let l1index := prioToL1index prio
  let l1indexInverted ← invertL1index l1index
  let q := q.setL2 dom l1indexInverted
    (q.ksReadyQueuesL2Bitmap dom l1indexInverted &&& ~~~bit (prio % 2 ^ wordRadix))
  if q.ksReadyQueuesL2Bitmap dom l1indexInverted = 0 then
    .ok (q.setL1 dom (q.ksReadyQueuesL1Bitmap dom &&& ~~~bit l1index))
  else .ok q

def getHighestPrio (dom : Nat) (q : SchedQueues) : Checked Nat := do
  require (q.ksReadyQueuesL1Bitmap dom != 0)
  let l1index := highBit (q.ksReadyQueuesL1Bitmap dom)
  let l1indexInverted ← invertL1index l1index
  require (q.ksReadyQueuesL2Bitmap dom l1indexInverted != 0)
  let l2index := highBit (q.ksReadyQueuesL2Bitmap dom l1indexInverted)
  .ok (l1indexToPrio l1index ||| l2index)

def isHighestPrio (dom prio : Nat) (q : SchedQueues) : Checked Bool :=
  if q.ksReadyQueuesL1Bitmap dom = 0 then .ok true
  else do
    let highest ← q.getHighestPrio dom
    .ok (decide (prio ≥ highest))

/-! ## Ready queues -/

/-- What `tcbSchedEnqueue` and `tcbSchedAppend` do to the queues; they differ in the end at which the
thread is linked in. -/
def schedAdd (link : TcbQueue → Word → Links Word → TcbQueue × Links Word) (cfg : SysConfig)
    (p : ThreadParams) (tcb : Word) (q : SchedQueues) : Checked SchedQueues :=
  if q.tcbQueued tcb then .ok q
  else do
    let dom := p.tcbDomain tcb
    let prio := p.tcbPriority tcb
    let idx ← readyQueuesIndex cfg dom prio
    let queue := q.ksReadyQueues idx
    let q ← runIf (tcbQueueEmpty queue) (addToBitmap dom prio) q
    let (queue, links) := link queue tcb q.tcbSched
    .ok { q with
      tcbSched := links
      ksReadyQueues := update q.ksReadyQueues idx queue
      tcbQueued := update q.tcbQueued tcb true }

/-- `tcbSchedEnqueue`, without its assertions. -/
def schedEnqueue (p : ThreadParams) (tcb : Word) (q : SchedQueues) :
    Checked SchedQueues := q.schedAdd tcbQueuePrepend cfg p tcb

/-- `tcbSchedAppend`, without its assertions. -/
def schedAppend (p : ThreadParams) (tcb : Word) (q : SchedQueues) :
    Checked SchedQueues := q.schedAdd tcbQueueAppend cfg p tcb

/-- `tcbSchedDequeue`. -/
def schedDequeue (p : ThreadParams) (tcb : Word) (q : SchedQueues) : Checked SchedQueues :=
  if q.tcbQueued tcb then do
    let dom := p.tcbDomain tcb
    let prio := p.tcbPriority tcb
    let idx ← readyQueuesIndex cfg dom prio
    let (newQueue, links) := tcbQueueRemove (q.ksReadyQueues idx) tcb q.tcbSched
    let q := { q with
      tcbSched := links
      ksReadyQueues := update q.ksReadyQueues idx newQueue
      tcbQueued := update q.tcbQueued tcb false }
    runIf (tcbQueueEmpty newQueue) (removeFromBitmap dom prio) q
  else .ok q

/-! ## The release queue -/

/-- `tcbReleaseRemove`, and whether it sets `ksReprogram`. -/
def releaseRemove (tcb : Word) (q : SchedQueues) : Bool × SchedQueues :=
  if q.tcbInReleaseQueue tcb then
    let queue := q.ksReleaseQueue
    let (newQueue, links) := tcbQueueRemove queue tcb q.tcbSched
    (queue.head == tcb,
      { q with
        tcbSched := links
        ksReleaseQueue := newQueue
        tcbInReleaseQueue := update q.tcbInReleaseQueue tcb false })
  else (false, q)

end SchedQueues

/-- A bound on the rounds of a loop over a queue: there are no more addresses. -/
def loopBound : Nat := 2 ^ 64

/-- `find_time_after`; `time` is `tcbReadyTime`. -/
def findTimeAfter (time : Word → Nat) (newTime : Nat) (L : Links Word) : Nat → Word → Checked Word
  | 0, _ => .error .fuel
  | rounds + 1, tcb =>
    if tcb ≠ 0 ∧ newTime ≥ time tcb then findTimeAfter time newTime L rounds (L.next tcb)
    else .ok tcb

namespace SchedQueues

/-- Where `tcbReleaseEnqueue` puts a thread that is released at `newTime`, and whether it sets
`ksReprogram`. -/
def releaseLink (time : Word → Nat) (newTime : Nat) (tcb : Word) (q : SchedQueues) :
    Checked (Bool × SchedQueues) :=
  let queue := q.ksReleaseQueue
  if tcbQueueEmpty queue ∨ newTime < time queue.head then
    let (queue, links) := tcbQueuePrepend queue tcb q.tcbSched
    .ok (true, { q with ksReleaseQueue := queue, tcbSched := links })
  else if time queue.tail ≤ newTime then
    let (queue, links) := tcbQueueAppend queue tcb q.tcbSched
    .ok (false, { q with ksReleaseQueue := queue, tcbSched := links })
  else do
    let after ← findTimeAfter time newTime q.tcbSched loopBound queue.head
    let links ← tcbQueueInsert tcb after q.tcbSched
    .ok (false, { q with tcbSched := links })

/-- `tcbReleaseEnqueue`, and whether it sets `ksReprogram`. -/
def releaseEnqueue (time : Word → Nat) (tcb : Word) (q : SchedQueues) :
    Checked (Bool × SchedQueues) := do
  require (!q.tcbInReleaseQueue tcb)
  require (!q.tcbQueued tcb)
  let (reprogram, q) ← q.releaseLink time (time tcb) tcb
  .ok (reprogram, { q with tcbInReleaseQueue := update q.tcbInReleaseQueue tcb true })

end SchedQueues

/-! ## With the assertions -/

namespace SysState

variable (cfg : SysConfig)

def isRunnable (thread : Word) (s : SysState) : Bool :=
  match s.tsType thread with
  | .running | .restart => true
  | _ => false

def scActive (sc : Word) (s : SysState) : Bool := decide ((s.sc sc).scRefillMax > 0)

def refillSufficient (cfg : SysConfig) (sc : Word) (usage : Nat) (s : SysState) : Bool :=
  Mcs.refillSufficient cfg.timer (s.sc sc) usage

def refillReady (sc : Word) (s : SysState) : Bool := Mcs.refillReady (s.sc sc) s.ksCurTime

def isSchedulable (thread : Word) (s : SysState) : Bool :=
  if cfg.mcs then
    s.isRunnable thread && s.tcbSchedContext thread != 0 && s.scActive (s.tcbSchedContext thread) &&
      !s.tcbInReleaseQueue thread
  else s.isRunnable thread

/-- A change of the queues alone. -/
def onQueues (f : ThreadParams → SchedQueues → Checked SchedQueues) (s : SysState) :
    Checked SysState := do
  let q ← f s.toThreadParams s.toSchedQueues
  .ok { s with toSchedQueues := q }

def tcbSchedEnqueue (tcb : Word) (s : SysState) : Checked SysState := do
  require (!cfg.mcs || s.isSchedulable cfg tcb)
  require (!cfg.mcs || s.refillSufficient cfg (s.tcbSchedContext tcb) 0)
  s.onQueues fun p q => q.schedEnqueue cfg p tcb

def tcbSchedAppend (tcb : Word) (s : SysState) : Checked SysState := do
  require (!cfg.mcs || s.isSchedulable cfg tcb)
  require (!cfg.mcs || s.refillSufficient cfg (s.tcbSchedContext tcb) 0)
  require (!cfg.mcs || s.refillReady (s.tcbSchedContext tcb))
  s.onQueues fun p q => q.schedAppend cfg p tcb

def tcbSchedDequeue (tcb : Word) (s : SysState) : Checked SysState :=
  s.onQueues fun p q => q.schedDequeue cfg p tcb

end SysState

/-! ## What the queue operations do to lists -/

section Lists

open Links

variable {ι : Type} [DecidableEq ι] {L : Links Word} {q : ι → TcbQueue} {l : ι → List Word}
  {i : ι} {x : Word} {A B : List Word} {Q : TcbQueue}

omit [DecidableEq ι] in
theorem tcbQueueEmpty_iff (h : CleanQueues 0 L q l) (i : ι) : tcbQueueEmpty (q i) = true ↔ l i = [] := by
  unfold tcbQueueEmpty
  rw [beq_iff_eq]
  exact h.head_eq_null_iff i

omit [DecidableEq ι] in
/-- The first and the last thread of a queue are missing together. -/
theorem head_eq_zero_iff (h : Queues 0 L q l) (i : ι) : (q i).head = 0 ↔ (q i).tail = 0 := by
  rw [h.head_eq_null_iff, (h.isQueue i).tail, getLastD_eq_null_iff (h.null_notMem i)]

/-! The four functions come down to one way to insert and one to remove. The stores that they leave out
are to links which are null already. -/

theorem tcbQueuePrepend_eq (hn : L.next x = 0) (hp : L.prev x = 0) (hx : Q.head ≠ x) :
    tcbQueuePrepend Q x L = insertBetween 0 0 x Q.head Q L := by
  unfold tcbQueuePrepend insertBetween tcbQueueEmpty
  by_cases he : Q.head = 0
  · simp only [he, beq_self_eq_true, if_true, update_of_eq hn, update_of_eq hp]
  · have hprev : update L.prev Q.head x x = 0 := by rw [update_of_ne hx.symm, hp]
    simp only [he, beq_iff_eq, if_true, if_false, setNext, setPrev, update_of_eq hprev]

theorem tcbQueueAppend_eq (hn : L.next x = 0) (hp : L.prev x = 0) (hx : Q.tail ≠ x)
    (h0 : Q.head = 0 ↔ Q.tail = 0) : tcbQueueAppend Q x L = insertBetween 0 Q.tail x 0 Q L := by
  unfold tcbQueueAppend insertBetween tcbQueueEmpty
  by_cases he : Q.tail = 0
  · simp only [he, h0, beq_iff_eq, if_true, update_of_eq hn, update_of_eq hp]
  · have hnext : update L.next Q.tail x x = 0 := by rw [update_of_ne hx.symm, hn]
    simp only [he, h0, beq_iff_eq, if_true, if_false, setNext, setPrev, update_of_eq hnext]

theorem tcbQueueInsert_eq {after : Word} (h0 : L.prev after ≠ 0) (hne : L.prev after ≠ after)
    (ha : after ≠ 0) (hx : x ≠ after) (hx' : x ≠ L.prev after) :
    tcbQueueInsert x after L = .ok (insertBetween 0 (L.prev after) x after Q L).2 := by
  unfold tcbQueueInsert
  dsimp only
  rw [require_ok (bne_iff_ne.mpr h0), ok_bind, require_ok (bne_iff_ne.mpr hne), ok_bind]
  simp only [insertBetween, h0, ha, if_false, setNext, setPrev, update_comm hx, update_comm hx']

theorem tcbQueueRemove_eq (hh : Q.head = x ↔ L.prev x = 0) (ht : Q.tail = x ↔ L.next x = 0)
    (hp : L.prev x ≠ x) (hn : L.next x ≠ x) :
    tcbQueueRemove Q x L = ((removeBetween 0 (L.prev x) (L.next x) Q L).1,
      ((removeBetween 0 (L.prev x) (L.next x) Q L).2.setPrev x 0).setNext x 0) := by
  unfold tcbQueueRemove removeBetween
  -- the four branches of the source: is the thread first, is it last
  by_cases hp0 : L.prev x = 0 <;> by_cases hn0 : L.next x = 0 <;>
    simp only [hh, ht, hp0, hn0, and_true, and_false, if_true, if_false, setNext, setPrev]
  · rw [update_of_eq hp0, update_of_eq hn0]
  · rw [update_of_eq (f := update L.prev (L.next x) 0)]
    rw [update_of_ne hn.symm, hp0]
  · rw [update_of_eq (f := update L.next (L.prev x) 0)]
    rw [update_of_ne hp.symm, hn0]

section

variable (h : CleanQueues 0 L q l)
include h

theorem tcbQueuePrepend_queues (hx : ∀ j, x ∉ l j) (hx0 : x ≠ 0) :
    CleanQueues 0 (tcbQueuePrepend (q i) x L).2 (update q i (tcbQueuePrepend (q i) x L).1)
      (update l i (x :: l i)) := by
  obtain ⟨hxn, hxp⟩ := h.detached x hx
  have hne : (q i).head ≠ x := by
    intro he
    obtain ⟨B, hB⟩ := h.exists_cons (he ▸ hx0)
    exact hx i (by rw [hB, he]; exact .head _)
  refine h.insertBetween (A := []) rfl hx hx0 ?_
  rw [← (h.isQueue i).head]
  exact tcbQueuePrepend_eq hxn hxp hne

theorem tcbQueueAppend_queues (hx : ∀ j, x ∉ l j) (hx0 : x ≠ 0) :
    CleanQueues 0 (tcbQueueAppend (q i) x L).2 (update q i (tcbQueueAppend (q i) x L).1)
      (update l i (l i ++ [x])) := by
  obtain ⟨hxn, hxp⟩ := h.detached x hx
  have htail := (h.isQueue i).tail
  have hne : (q i).tail ≠ x := by
    intro he
    have hlast := (getLast?_eq_some_iff (h.null_notMem i)).mpr ⟨htail, htail ▸ he ▸ hx0⟩
    exact hx i (he ▸ List.mem_of_getLast? hlast)
  refine h.insertBetween (List.append_nil _).symm hx hx0 ?_
  rw [← htail]
  exact tcbQueueAppend_eq hxn hxp hne (head_eq_zero_iff h.toQueues i)

theorem tcbQueueInsert_queues {after : Word} (hl : l i = A ++ after :: B)
    (hA : A ≠ []) (hx : ∀ j, x ∉ l j) (hx0 : x ≠ 0) :
    ∃ M, tcbQueueInsert x after L = .ok M ∧ CleanQueues 0 M q (update l i (A ++ x :: after :: B)) := by
  have hprev := h.prev_eq hl
  have h0 : (0 : Word) ∉ A := fun hm => h.null_notMem i (hl ▸ List.mem_append_left _ hm)
  have hlast := (getLast?_eq_some_iff h0).mpr ⟨hprev, fun he => hA ((getLastD_eq_null_iff h0).mp he)⟩
  have hmem := List.mem_of_getLast? hlast
  have hafter : after ∈ l i := hl ▸ List.mem_append_right A (.head _)
  have hne : L.prev after ≠ after := fun he => (h.notMem_sides hl).1 (he ▸ hmem)
  have hp0 : L.prev after ≠ 0 := fun he => h0 (he ▸ hmem)
  have ha0 := h.ne_null i after hafter
  have hxa : x ≠ after := fun he => hx i (he ▸ hafter)
  have hxp : x ≠ L.prev after := fun he => hx i (he ▸ hl ▸ List.mem_append_left _ hmem)
  have hins := h.insertBetween hl hx hx0 (R := insertBetween 0 (L.prev after) x after (q i) L) (hprev ▸ rfl)
  have hQ : (insertBetween 0 (L.prev after) x after (q i) L).1 = q i := by
    simp only [insertBetween, hp0, ha0, if_false]
  rw [hQ, update_eq_self] at hins
  exact ⟨_, tcbQueueInsert_eq hp0 hne ha0 hxa hxp, hins⟩

theorem tcbQueueRemove_queues (hl : l i = A ++ x :: B) :
    CleanQueues 0 (tcbQueueRemove (q i) x L).2 (update q i (tcbQueueRemove (q i) x L).1)
      (update l i (A ++ B)) := by
  obtain ⟨-, hhead, htail⟩ := h.isQueue i
  have hp := h.prev_eq hl
  have hn := h.next_eq hl
  obtain ⟨hxA, hxB⟩ := h.notMem_sides hl
  obtain ⟨hA, hx0, hB⟩ : 0 ∉ A ∧ 0 ≠ x ∧ 0 ∉ B := by
    simpa only [hl, List.mem_append, List.mem_cons, not_or] using h.null_notMem i
  rw [hl] at hhead htail
  have hfirst : (q i).head = x ↔ L.prev x = 0 := by
    rw [hhead, hp, getLastD_eq_null_iff hA]
    cases A with
    | nil => exact iff_of_true rfl rfl
    | cons a A => exact iff_of_false (fun he => hxA (he ▸ .head _)) (List.cons_ne_nil a A)
  have hlast : (q i).tail = x ↔ L.next x = 0 := by
    rw [htail, hn, headD_eq_null_iff hB, List.getLastD_eq_getLast?, List.getLast?_append_cons]
    cases B with
    | nil => exact iff_of_true rfl rfl
    | cons b B =>
      refine iff_of_false (fun he => hxB ?_) (List.cons_ne_nil b B)
      exact he ▸ List.getLast_mem _
  have hpx : L.prev x ≠ x := by
    intro he
    have hmem := (getLast?_eq_some_iff hA).mpr ⟨hp, by rw [← hp, he]; exact hx0.symm⟩
    exact hxA (he ▸ List.mem_of_getLast? hmem)
  have hnx : L.next x ≠ x := by
    intro he
    have hmem := (head?_eq_some_iff hB).mpr ⟨hn, by rw [← hn, he]; exact hx0.symm⟩
    exact hxB (he ▸ List.mem_of_mem_head? hmem)
  rw [tcbQueueRemove_eq hfirst hlast hpx hnx]
  exact h.removeBetween hl (by rw [hp, hn])

end

end Lists

/-! ## The bitmap -/

section Bitmap

variable {cfg : SysConfig} {q : SchedQueues} {busy : Nat → Nat → Prop} {d p : Nat}

/-- The bits of both levels say which priorities of which domains are `busy`. -/
structure BitmapInv (cfg : SysConfig) (l1Bitmap : Nat → Word) (l2Bitmap : Nat → Nat → Word)
    (busy : Nat → Nat → Prop) : Prop where
  l2 : ∀ d < cfg.numDomains, ∀ p < numPriorities,
    (l2Bitmap d (l2BitmapSize - 1 - p / 64)).getLsbD (p % 64) = true ↔ busy d p
  l1 : ∀ d < cfg.numDomains, ∀ g, (l1Bitmap d).getLsbD g = true ↔
    ∃ p < numPriorities, p / 64 = g ∧ busy d p

/-- `x` changes no more than the bitmap of `q`, which then says what is `busy`. -/
abbrev SetsBitmap (cfg : SysConfig) (q : SchedQueues) (x : Checked SchedQueues) (busy : Nat → Nat → Prop) : Prop :=
  ∃ b1 b2, x = .ok { q with ksReadyQueuesL1Bitmap := b1, ksReadyQueuesL2Bitmap := b2 } ∧
    BitmapInv cfg b1 b2 busy

theorem prioToL1index_eq (p : Nat) : prioToL1index p = p / 64 := Nat.shiftRight_eq_div_pow p 6

theorem l2index_eq (p : Nat) : p % 2 ^ wordRadix = p % 64 := rfl

theorem l1index_lt (hp : p < numPriorities) : p / 64 < l2BitmapSize := by
  unfold numPriorities at hp
  have : l2BitmapSize = 4 := rfl
  omega

theorem invertL1index_ok {g : Nat} (hg : g < l2BitmapSize) :
    invertL1index g = .ok (l2BitmapSize - 1 - g) := by
  unfold invertL1index
  rw [require_ok (decide_eq_true hg), ok_bind]

/-- The two indices of a priority determine it. -/
theorem prio_indices {p' : Nat} (hp : p < numPriorities) (hp' : p' < numPriorities) :
    (l2BitmapSize - 1 - p' / 64 = l2BitmapSize - 1 - p / 64 ↔ p' / 64 = p / 64) ∧
      (p' / 64 = p / 64 → (p' % 64 = p % 64 ↔ p' = p)) := by
  have h1 := l1index_lt hp
  have h2 := l1index_lt hp'
  omega

namespace BitmapInv

variable (h : BitmapInv cfg q.ksReadyQueuesL1Bitmap q.ksReadyQueuesL2Bitmap busy)
include h

/-- `addToBitmap` marks one more priority. -/
theorem addToBitmap (hp : p < numPriorities) :
    SetsBitmap cfg q (q.addToBitmap d p) fun d' p' => busy d' p' ∨ d' = d ∧ p' = p := by
  unfold SchedQueues.addToBitmap
  dsimp only
  rw [prioToL1index_eq, l2index_eq, invertL1index_ok (l1index_lt hp)]
  refine ⟨_, _, rfl, fun d' hd' p' hp' => ?_, fun d' hd' g => ?_⟩
  · obtain ⟨hidx, hpp⟩ := prio_indices hp hp'
    have hold := h.l2 d' hd' p' hp'
    dsimp only [SchedQueues.setL1, SchedQueues.setL2]
    by_cases hdd : d' = d
    · subst hdd
      rw [update_self, update_apply]
      by_cases hg : p' / 64 = p / 64
      · rw [if_pos (hidx.mpr hg), BitVec.getLsbD_or, ← hidx.mpr hg, Bool.or_eq_true, hold,
          getLsbD_bit (Nat.mod_lt p (by decide)), decide_eq_true_iff]
        exact or_congr_right ((hpp hg).trans (and_iff_right rfl).symm)
      · rw [if_neg (fun he => hg (hidx.mp he)), hold]
        have hne : p' ≠ p := fun he => hg (he ▸ rfl)
        exact (or_iff_left fun hh => hne hh.2).symm
    · rw [update_of_ne hdd, hold]
      exact (or_iff_left fun hh => hdd hh.1).symm
  · have hold := h.l1 d' hd' g
    dsimp only [SchedQueues.setL1, SchedQueues.setL2]
    by_cases hdd : d' = d
    · subst hdd
      have hp64 : p / 64 < 64 := (l1index_lt hp).trans (by decide)
      rw [update_self, BitVec.getLsbD_or, Bool.or_eq_true, hold, getLsbD_bit hp64, decide_eq_true_iff]
      constructor
      · rintro (⟨p', hp', hg, hb⟩ | rfl)
        · exact ⟨p', hp', hg, .inl hb⟩
        · exact ⟨p, hp, rfl, .inr ⟨rfl, rfl⟩⟩
      · rintro ⟨p', hp', hg, hb | ⟨-, rfl⟩⟩
        · exact .inl ⟨p', hp', hg, hb⟩
        · exact .inr hg.symm
    · rw [update_of_ne hdd, hold]
      refine exists_congr fun p' => and_congr_right fun _ => and_congr_right fun _ => ?_
      exact (or_iff_left fun hh => hdd hh.1).symm

/-- The second level after `removeFromBitmap`. -/
theorem l2_clear (hp : p < numPriorities) : ∀ d' < cfg.numDomains, ∀ p' < numPriorities,
      ((q.setL2 d (l2BitmapSize - 1 - p / 64) (q.ksReadyQueuesL2Bitmap d (l2BitmapSize - 1 - p / 64) &&&
            ~~~bit (p % 64))).ksReadyQueuesL2Bitmap d' (l2BitmapSize - 1 - p' / 64)).getLsbD
          (p' % 64) = true ↔ busy d' p' ∧ ¬ (d' = d ∧ p' = p) := by
  intro d' hd' p' hp'
  obtain ⟨hidx, hpp⟩ := prio_indices hp hp'
  have hold := h.l2 d' hd' p' hp'
  unfold SchedQueues.setL2
  dsimp only
  by_cases hdd : d' = d
  · subst hdd
    rw [update_self, update_apply]
    by_cases hg : p' / 64 = p / 64
    · rw [if_pos (hidx.mpr hg), BitVec.getLsbD_and, BitVec.getLsbD_not, ← hidx.mpr hg,
        Bool.and_eq_true, hold, getLsbD_bit (Nat.mod_lt p (by decide))]
      have hlt : p' % 64 < 64 := Nat.mod_lt p' (by decide)
      rw [decide_eq_true hlt, Bool.true_and, Bool.not_eq_true', decide_eq_false_iff_not, hpp hg]
      exact and_congr_right' (not_congr (and_iff_right rfl).symm)
    · rw [if_neg (fun he => hg (hidx.mp he)), hold]
      have hne : p' ≠ p := fun he => hg (he ▸ rfl)
      exact (and_iff_left fun hh => hne hh.2).symm
  · rw [update_of_ne hdd, hold]
    exact (and_iff_left fun hh => hdd hh.1).symm

/-- `removeFromBitmap` unmarks a priority. -/
theorem removeFromBitmap (hd : d < cfg.numDomains) (hp : p < numPriorities) :
    SetsBitmap cfg q (q.removeFromBitmap d p) fun d' p' => busy d' p' ∧ ¬ (d' = d ∧ p' = p) := by
  have hl2 := h.l2_clear (d := d) hp
  unfold SchedQueues.removeFromBitmap
  dsimp only
  rw [prioToL1index_eq, l2index_eq, invertL1index_ok (l1index_lt hp), ok_bind]
  split_ifs with hz
  · refine ⟨_, _, rfl, hl2, fun d' hd' g => ?_⟩
    have hold := h.l1 d' hd' g
    dsimp only [SchedQueues.setL1, SchedQueues.setL2]
    by_cases hdd : d' = d
    · subst hdd
      have hp64 : p / 64 < 64 := (l1index_lt hp).trans (by decide)
      -- the group of `p` is empty now
      have hempty : ∀ p' < numPriorities, p' / 64 = p / 64 → busy d' p' → p' = p := by
        intro p' hp' hg hb
        by_contra hne
        have hbit := (hl2 d' hd p' hp').mpr ⟨hb, fun hh => hne hh.2⟩
        rw [hg] at hbit
        exact ne_zero_of_getLsbD hbit hz
      rw [update_self, BitVec.getLsbD_and, BitVec.getLsbD_not, getLsbD_bit hp64]
      constructor
      · intro hbit
        rw [Bool.and_eq_true, hold, Bool.and_eq_true, Bool.not_eq_true', decide_eq_false_iff_not] at hbit
        obtain ⟨⟨p', hp', hg, hb⟩, -, hne⟩ := hbit
        exact ⟨p', hp', hg, hb, fun hh => hne (hh.2 ▸ hg.symm)⟩
      · rintro ⟨p', hp', hg, hb, hne⟩
        have hgp : g ≠ p / 64 := fun hgp => hne ⟨rfl, hempty p' hp' (hg.trans hgp) hb⟩
        have hg64 : g < 64 := by
          unfold numPriorities at hp'
          omega
        rw [Bool.and_eq_true, hold, decide_eq_true hg64, decide_eq_false hgp]
        exact ⟨⟨p', hp', hg, hb⟩, rfl⟩
    · rw [update_of_ne hdd, hold]
      refine exists_congr fun p' => and_congr_right fun _ => and_congr_right fun _ => ?_
      exact (and_iff_left fun hh => hdd hh.1).symm
  · refine ⟨_, _, rfl, hl2, fun d' hd' g => ?_⟩
    refine (h.l1 d' hd' g).trans ⟨?_, ?_⟩
    · rintro ⟨p', hp', hg, hb⟩
      by_cases hpp : d' = d ∧ p' = p
      · -- another priority of the group keeps the first-level bit
        obtain ⟨rfl, rfl⟩ := hpp
        have hbit := getLsbD_highBit hz
        have hi := highBit_lt ((q.setL2 d' (l2BitmapSize - 1 - p' / 64)
          (q.ksReadyQueuesL2Bitmap d' (l2BitmapSize - 1 - p' / 64) &&&
            ~~~bit (p' % 64))).ksReadyQueuesL2Bitmap d' (l2BitmapSize - 1 - p' / 64))
        revert hbit hi
        generalize highBit _ = i
        intro hbit hi
        have hr : p' / 64 * 64 + i < numPriorities := by
          unfold numPriorities at hp' ⊢
          omega
        have hdiv : (p' / 64 * 64 + i) / 64 = p' / 64 := by omega
        have hmod : (p' / 64 * 64 + i) % 64 = i := by omega
        have hb' := (hl2 d' hd _ hr).mp (by rwa [hdiv, hmod])
        exact ⟨_, hr, hdiv.trans hg, hb'⟩
      · exact ⟨p', hp', hg, hb, hpp⟩
    · rintro ⟨p', hp', hg, hb, -⟩
      exact ⟨p', hp', hg, hb⟩

/-- **The search through the bitmap finds the highest busy priority.** -/
theorem getHighestPrio (hd : d < cfg.numDomains) (hne : q.ksReadyQueuesL1Bitmap d ≠ 0) :
    ∃ r, q.getHighestPrio d = .ok r ∧ r < numPriorities ∧ busy d r ∧
      ∀ p < numPriorities, busy d p → p ≤ r := by
  obtain ⟨p, hp, hg, hb⟩ := (h.l1 d hd _).mp (getLsbD_highBit hne)
  have hl2 := (h.l2 d hd p hp).mpr hb
  have hgl := l1index_lt hp
  rw [hg] at hl2 hgl
  have hne2 : q.ksReadyQueuesL2Bitmap d
      (l2BitmapSize - 1 - highBit (q.ksReadyQueuesL1Bitmap d)) ≠ 0 :=
    ne_zero_of_getLsbD hl2
  have hbit := getLsbD_highBit hne2
  have hi := highBit_lt (q.ksReadyQueuesL2Bitmap d
      (l2BitmapSize - 1 - highBit (q.ksReadyQueuesL1Bitmap d)))
  have hmax : ∀ p < numPriorities, busy d p → p / 64 ≤ highBit (q.ksReadyQueuesL1Bitmap d) :=
    fun p hp hb => le_highBit ((h.l1 d hd _).mpr ⟨p, hp, rfl, hb⟩)
  have hmax2 : ∀ p < numPriorities, busy d p → p / 64 = highBit (q.ksReadyQueuesL1Bitmap d) →
      p % 64 ≤ highBit (q.ksReadyQueuesL2Bitmap d
        (l2BitmapSize - 1 - highBit (q.ksReadyQueuesL1Bitmap d))) := by
    intro p hp hb hg
    refine le_highBit ?_
    rw [← hg]
    exact (h.l2 d hd p hp).mpr hb
  unfold SchedQueues.getHighestPrio
  dsimp only
  rw [require_ok (bne_iff_ne.mpr hne), ok_bind, invertL1index_ok hgl, ok_bind,
    require_ok (bne_iff_ne.mpr hne2), ok_bind]
  revert hbit hi hmax2
  generalize highBit (q.ksReadyQueuesL2Bitmap d _) = i
  intro hbit hi hmax2
  have hor : l1indexToPrio (highBit (q.ksReadyQueuesL1Bitmap d)) ||| i =
      highBit (q.ksReadyQueuesL1Bitmap d) * 64 + i := by
    unfold l1indexToPrio
    rw [← Nat.shiftLeft_add_eq_or_of_lt (show i < 2 ^ wordRadix from hi), Nat.shiftLeft_eq]
    rfl
  have hr : highBit (q.ksReadyQueuesL1Bitmap d) * 64 + i < numPriorities := by
    have h4 : l2BitmapSize = 4 := rfl
    unfold numPriorities
    omega
  have hdiv : (highBit (q.ksReadyQueuesL1Bitmap d) * 64 + i) / 64 =
      highBit (q.ksReadyQueuesL1Bitmap d) := by omega
  have hmod : (highBit (q.ksReadyQueuesL1Bitmap d) * 64 + i) % 64 = i := by omega
  refine ⟨_, rfl, ?_⟩
  rw [hor]
  refine ⟨hr, (h.l2 d hd _ hr).mp (by rwa [hdiv, hmod]), fun p hp hb => ?_⟩
  have h1 := hmax p hp hb
  have h2 := hmax2 p hp hb
  omega

end BitmapInv

end Bitmap

end SeL4.Thread
