import Mathlib.Data.List.Perm.Subperm
import SeL4.Thread.ReadyQueue

/-!
# The ready queues stay right

`SchedInv cfg p q l` ties the scheduler's queues to the lists `l` of threads in them: the flags
`tcbQueued` and `tcbInReleaseQueue` say which list a thread is in, threads in no list have null
links, and both levels of the bitmap mark the priorities whose list is not empty.

Results: one specification for each operation (`SchedInv.schedEnqueue`, `schedAppend`,
`schedDequeue`, `releaseRemove`, `releaseEnqueue`), which also says that it meets no failing
assertion, and `ready_queues_well_formed`: over every run of `tcbSchedEnqueue`, `tcbSchedAppend` and
`tcbSchedDequeue` from empty queues the queues and the bitmaps are right, and `getHighestPrio`
returns the highest priority that has a thread.
-/

namespace SeL4.Thread

open SeL4.Lib SeL4.Object Links Function SysState

variable {b1 : Nat → Word} {b2 : Nat → Nat → Word}

/-! ## The invariant -/

/-- The queues that are linked through `tcbSchedNext` and `tcbSchedPrev`. -/
inductive SchedIdx
  | ready (idx : Nat)
  | release
  deriving DecidableEq

/-- The ends of a queue. -/
def SchedQueues.queue (q : SchedQueues) : SchedIdx → TcbQueue
  | .ready idx => q.ksReadyQueues idx
  | .release => q.ksReleaseQueue

theorem SchedQueues.queue_setReady (q : SchedQueues) (L : Links Word) (f : Word → Bool) (i : Nat)
    (Q : TcbQueue) (b1 : Nat → Word) (b2 : Nat → Nat → Word) :
    SchedQueues.queue { q with
      tcbSched := L
      ksReadyQueues := update q.ksReadyQueues i Q
      tcbQueued := f
      ksReadyQueuesL1Bitmap := b1
      ksReadyQueuesL2Bitmap := b2 } = update q.queue (.ready i) Q := by
  funext j
  cases j with
  | ready j =>
    dsimp only [SchedQueues.queue]
    rw [update_apply, update_apply]
    simp only [SchedIdx.ready.injEq, SchedQueues.queue]
  | release => rfl

theorem SchedQueues.queue_setRelease (q : SchedQueues) (L : Links Word) (f : Word → Bool) (Q : TcbQueue) :
    SchedQueues.queue { q with tcbSched := L, ksReleaseQueue := Q, tcbInReleaseQueue := f } =
      update q.queue .release Q := by
  funext j
  cases j <;> rfl

/-- The index of a ready queue, for any number of domains. -/
def readyIdx (dom prio : Nat) : Nat := dom * numPriorities + prio

variable {d : Nat}

theorem readyIdx_inj {p d' p' : Nat} (hp : p < numPriorities) (hp' : p' < numPriorities) :
    readyIdx d p = readyIdx d' p' ↔ d = d' ∧ p = p' := by
  unfold readyIdx numPriorities at *
  omega

variable {cfg : SysConfig}

theorem readyQueuesIndex_ok (hd : d < cfg.numDomains) (p : Nat) :
    readyQueuesIndex cfg d p = .ok (readyIdx d p) := by
  unfold readyQueuesIndex readyIdx
  by_cases hn : cfg.numDomains > 1
  · rw [if_pos hn]
  · have hd0 : d = 0 := by omega
    rw [if_neg hn, hd0, require_ok (beq_self_eq_true 0), ok_bind, Nat.zero_mul, Nat.zero_add]

namespace ThreadParams

/-- The ready queue that a thread belongs to. -/
def idx (p : ThreadParams) (t : Word) : SchedIdx := .ready (readyIdx (p.tcbDomain t) (p.tcbPriority t))

/-- Priorities and domains are in range. -/
def Bounded (cfg : SysConfig) (p : ThreadParams) : Prop :=
  ∀ t, p.tcbPriority t < numPriorities ∧ p.tcbDomain t < cfg.numDomains

end ThreadParams

/-- The queues hold the lists `l`. -/
structure SchedInv (cfg : SysConfig) (p : ThreadParams) (q : SchedQueues)
    (l : SchedIdx → List Word) : Prop where
  queues : CleanQueues 0 q.tcbSched q.queue l
  ready : ∀ t i, t ∈ l (.ready i) ↔ q.tcbQueued t = true ∧ p.idx t = .ready i
  release : ∀ t, t ∈ l .release ↔ q.tcbInReleaseQueue t = true
  bitmap : BitmapInv cfg q.ksReadyQueuesL1Bitmap q.ksReadyQueuesL2Bitmap
    fun d prio => l (.ready (readyIdx d prio)) ≠ []
  bounded : p.Bounded cfg

theorem BitmapInv.congr {busy busy' : Nat → Nat → Prop} (h : BitmapInv cfg b1 b2 busy)
    (hb : ∀ d < cfg.numDomains, ∀ p < numPriorities, busy d p ↔ busy' d p) :
    BitmapInv cfg b1 b2 busy' := by
  refine ⟨fun d hd p hp => (h.l2 d hd p hp).trans (hb d hd p hp), fun d hd g => ?_⟩
  refine (h.l1 d hd g).trans (exists_congr fun p => and_congr_right fun hp => ?_)
  exact and_congr_right' (hb d hd p hp)

/-- `removeFromBitmap`, if it is called. -/
theorem BitmapInv.unmarkIf
    {busy : Nat → Nat → Prop} {p : Nat} (h : BitmapInv cfg b1 b2 busy) (hd : d < cfg.numDomains)
    (hp : p < numPriorities) (c : Bool) (q : SchedQueues) (h1 : q.ksReadyQueuesL1Bitmap = b1)
    (h2 : q.ksReadyQueuesL2Bitmap = b2) :
    SetsBitmap cfg q (runIf c (SchedQueues.removeFromBitmap d p) q)
      fun d' p' => busy d' p' ∧ (c = true → ¬ (d' = d ∧ p' = p)) := by
  subst h1 h2
  cases c with
  | true =>
    obtain ⟨b1, b2, heq, hbm⟩ := h.removeFromBitmap hd hp
    refine ⟨b1, b2, heq, hbm.congr fun d' _ p' _ => and_congr_right' ?_⟩
    exact ⟨fun hh _ => hh, fun hh => hh rfl⟩
  | false =>
    refine ⟨_, _, rfl, h.congr fun d' _ p' _ => (and_iff_left ?_).symm⟩
    exact nofun

namespace SchedInv

variable {p p' : ThreadParams} {q : SchedQueues} {l : SchedIdx → List Word} {t : Word}

section

variable (h : SchedInv cfg p q l)
include h

/-- A thread without either flag is in no queue. -/
theorem fresh (hq : q.tcbQueued t = false)
    (hr : q.tcbInReleaseQueue t = false) : ∀ j, t ∉ l j := by
  intro j hj
  cases j with
  | ready i =>
    have := ((h.ready t i).mp hj).1
    rw [hq] at this
    cases this
  | release =>
    have := (h.release t).mp hj
    rw [hr] at this
    cases this

theorem mem_idx (hq : q.tcbQueued t = true) : t ∈ l (p.idx t) := (h.ready t _).mpr ⟨hq, rfl⟩

/-- Priorities and domains may change for threads that are in no ready queue. -/
theorem setParams (hb : p'.Bounded cfg)
    (hsame : ∀ t, q.tcbQueued t = true → p'.idx t = p.idx t) : SchedInv cfg p' q l := by
  refine ⟨h.queues, fun t i => ?_, h.release, h.bitmap, hb⟩
  rw [h.ready t i]
  exact and_congr_right fun hq => by rw [hsame t hq]

/-! ## Ready queues -/

omit h in
theorem ready_eq_idx {d' p' : Nat} (hp' : p' < numPriorities) (hprio : p.tcbPriority t < numPriorities) :
    SchedIdx.ready (readyIdx d' p') = p.idx t ↔ d' = p.tcbDomain t ∧ p' = p.tcbPriority t := by
  rw [← readyIdx_inj hp' hprio]
  exact ⟨fun hi => by injection hi, congrArg SchedIdx.ready⟩

/-- A thread gets into its queue or out of it. -/
theorem relist {b : Bool} {m : List Word} {L : Links Word} {Q : TcbQueue} (hm : ∀ t', t' ∈ m ↔ if t' = t then b = true else t' ∈ l (p.idx t))
    (hcq : CleanQueues 0 L (update q.queue (p.idx t) Q) (update l (p.idx t) m))
    (hbm : BitmapInv cfg b1 b2 fun d' p' => update l (p.idx t) m (.ready (readyIdx d' p')) ≠ []) :
    SchedInv cfg p { q with
      tcbSched := L
      ksReadyQueues := update q.ksReadyQueues (readyIdx (p.tcbDomain t) (p.tcbPriority t)) Q
      tcbQueued := update q.tcbQueued t b
      ksReadyQueuesL1Bitmap := b1
      ksReadyQueuesL2Bitmap := b2 } (update l (p.idx t) m) := by
  refine ⟨?_, fun t' i => ?_, fun t' => ?_, hbm, h.bounded⟩
  · rw [SchedQueues.queue_setReady]
    exact hcq
  · dsimp only
    rw [update_apply, update_apply]
    by_cases hi : .ready i = p.idx t
    · rw [if_pos hi, hm]
      split_ifs with htt
      · rw [htt, ← hi]
        exact (and_iff_left rfl).symm
      · rw [← hi, h.ready t' i]
    · rw [if_neg hi, h.ready t' i]
      split_ifs with htt
      · rw [htt]
        exact ⟨fun hh => absurd hh.2.symm hi, fun hh => absurd hh.2.symm hi⟩
      · rfl
  · exact h.release t'

/-- Linking a thread into its queue, at whichever end. -/
theorem schedAdd (link : TcbQueue → Word → Links Word → TcbQueue × Links Word)
    (newl : List Word → List Word)
    (hlink : ∀ {L : Links Word} {q : SchedIdx → TcbQueue} {l : SchedIdx → List Word} {i : SchedIdx},
      CleanQueues 0 L q l → (∀ j, t ∉ l j) → t ≠ 0 →
      CleanQueues 0 (link (q i) t L).2 (update q i (link (q i) t L).1) (update l i (newl (l i))))
    (hmem : ∀ l y, y ∈ newl l ↔ y = t ∨ y ∈ l) (ht : t ≠ 0)
    (hq : q.tcbQueued t = false) (hr : q.tcbInReleaseQueue t = false) :
    ∃ q', q.schedAdd link cfg p t = .ok q' ∧
      SchedInv cfg p q' (update l (p.idx t) (newl (l (p.idx t)))) ∧
      q'.tcbQueued = update q.tcbQueued t true := by
  obtain ⟨hprio, hdom⟩ := h.bounded t
  have hfresh := h.fresh hq hr
  -- the bitmap marks the thread's priority, whether or not it did before
  obtain ⟨b1, b2, hqb, hbm⟩ : SetsBitmap cfg q
      (runIf (tcbQueueEmpty (q.ksReadyQueues (readyIdx (p.tcbDomain t) (p.tcbPriority t))))
        (SchedQueues.addToBitmap (p.tcbDomain t) (p.tcbPriority t)) q)
      fun d' p' => l (.ready (readyIdx d' p')) ≠ [] ∨ d' = p.tcbDomain t ∧ p' = p.tcbPriority t := by
    have hiff := tcbQueueEmpty_iff h.queues (p.idx t)
    unfold runIf
    split_ifs with he
    · exact h.bitmap.addToBitmap hprio
    · refine ⟨_, _, rfl, h.bitmap.congr fun d' _ p' _ => (or_iff_left_of_imp ?_).symm⟩
      rintro ⟨rfl, rfl⟩ hnil
      exact he (hiff.mpr hnil)
  have hcq := hlink (i := p.idx t) h.queues hfresh ht
  unfold SchedQueues.schedAdd
  rw [if_neg (by rw [hq]; exact Bool.false_ne_true)]
  dsimp only
  rw [readyQueuesIndex_ok hdom, ok_bind, hqb]
  refine ⟨_, rfl, h.relist (fun t' => ?_) hcq (hbm.congr fun d' hd' p' hp' => ?_), rfl⟩
  · rw [hmem]
    split_ifs with htt
    · exact iff_of_true (.inl htt) rfl
    · exact or_iff_right htt
  · rw [update_apply, ← ready_eq_idx hp' hprio]
    split_ifs with hi
    · refine iff_of_true (.inr hi) fun hnil => ?_
      have : t ∈ newl (l (p.idx t)) := (hmem _ t).mpr (.inl rfl)
      rw [hnil] at this
      cases this
    · exact or_iff_left hi

/-- **`tcbSchedEnqueue` puts the thread first in its queue.** -/
theorem schedEnqueue (ht : t ≠ 0) (hq : q.tcbQueued t = false)
    (hr : q.tcbInReleaseQueue t = false) : ∃ q', q.schedEnqueue cfg p t = .ok q' ∧
      SchedInv cfg p q' (update l (p.idx t) (t :: l (p.idx t))) ∧
      q'.tcbQueued = update q.tcbQueued t true :=
  h.schedAdd tcbQueuePrepend (t :: ·) tcbQueuePrepend_queues (fun _ _ => List.mem_cons) ht hq hr

/-- **`tcbSchedAppend` puts the thread last in its queue.** -/
theorem schedAppend (ht : t ≠ 0) (hq : q.tcbQueued t = false)
    (hr : q.tcbInReleaseQueue t = false) : ∃ q', q.schedAppend cfg p t = .ok q' ∧
      SchedInv cfg p q' (update l (p.idx t) (l (p.idx t) ++ [t])) ∧
      q'.tcbQueued = update q.tcbQueued t true := by
  refine h.schedAdd tcbQueueAppend (· ++ [t]) tcbQueueAppend_queues (fun l y => ?_) ht hq hr
  rw [List.mem_append, List.mem_singleton, or_comm]

variable {L : Links Word}

/-- **`tcbSchedDequeue` takes the thread out of its queue.** -/
theorem schedDequeue (hq : q.tcbQueued t = true) :
    ∃ q', q.schedDequeue cfg p t = .ok q' ∧
      SchedInv cfg p q' (update l (p.idx t) ((l (p.idx t)).erase t)) ∧
      q'.tcbQueued = update q.tcbQueued t false := by
  obtain ⟨hprio, hdom⟩ := h.bounded t
  obtain ⟨A, B, hl, herase⟩ := h.queues.erase_split (h.mem_idx hq)
  have hcq := tcbQueueRemove_queues h.queues hl
  rw [herase]
  -- the bitmap keeps the priority exactly if a thread is left
  have hempty := tcbQueueEmpty_iff hcq (p.idx t)
  rw [update_self, update_self] at hempty
  have hbusy : ∀ d' < cfg.numDomains, ∀ p' < numPriorities,
      (l (.ready (readyIdx d' p')) ≠ [] ∧
          (tcbQueueEmpty (tcbQueueRemove (q.queue (p.idx t)) t q.tcbSched).1 = true →
            ¬ (d' = p.tcbDomain t ∧ p' = p.tcbPriority t)) ↔
        update l (p.idx t) (A ++ B) (.ready (readyIdx d' p')) ≠ []) := by
    intro d' _ p' hp'
    rw [update_apply, hempty, ← ready_eq_idx hp' hprio]
    split_ifs with hi
    · rw [hi, hl]
      refine ⟨fun hh h0 => hh.2 h0 rfl,
        fun hne => ⟨List.append_ne_nil_of_right_ne_nil A (List.cons_ne_nil t B), fun h0 => ?_⟩⟩
      exact absurd h0 hne
    · exact and_iff_left fun _ => hi
  unfold SchedQueues.schedDequeue
  rw [if_pos hq]
  dsimp only
  rw [readyQueuesIndex_ok hdom]
  obtain ⟨b1, b2, heq, hbm⟩ := h.bitmap.unmarkIf hdom hprio
    (tcbQueueEmpty (tcbQueueRemove (q.queue (p.idx t)) t q.tcbSched).1)
    { q with
      tcbSched := (tcbQueueRemove (q.queue (p.idx t)) t q.tcbSched).2
      ksReadyQueues := update q.ksReadyQueues
        (readyIdx (p.tcbDomain t) (p.tcbPriority t))
        (tcbQueueRemove (q.queue (p.idx t)) t q.tcbSched).1
      tcbQueued := update q.tcbQueued t false } rfl rfl
  refine ⟨_, heq, h.relist (fun t' => ?_) hcq (hbm.congr hbusy), rfl⟩
  rw [← herase, (h.queues.nodup (p.idx t)).mem_erase_iff]
  split_ifs with htt
  · exact iff_of_false (fun hh => hh.1 htt) id
  · exact and_iff_right htt

/-! ## The release queue -/

/-- An edit of the release queue. -/
theorem setRelease {Q : TcbQueue} {lr : List Word} {b : Bool}
    (hcq : CleanQueues 0 L (update q.queue .release Q) (update l .release lr))
    (hmem : ∀ t', t' ∈ lr ↔ update q.tcbInReleaseQueue t b t' = true) :
    SchedInv cfg p { q with
      tcbSched := L
      ksReleaseQueue := Q
      tcbInReleaseQueue := update q.tcbInReleaseQueue t b }
      (update l .release lr) := by
  refine ⟨?_, fun t' i => ?_, fun t' => ?_, ?_, h.bounded⟩
  · rw [SchedQueues.queue_setRelease]
    exact hcq
  · exact h.ready t' i
  · exact hmem t'
  · refine h.bitmap.congr fun d _ pr _ => ?_
    rw [update_of_ne (by rintro ⟨⟩)]

/-- **`tcbReleaseRemove` takes the thread out of the release queue.** -/
theorem releaseRemove (hr : q.tcbInReleaseQueue t = true) :
    SchedInv cfg p (q.releaseRemove t).2 (update l .release ((l .release).erase t)) ∧
      (q.releaseRemove t).2.tcbQueued = q.tcbQueued ∧
      (q.releaseRemove t).2.tcbInReleaseQueue = update q.tcbInReleaseQueue t false := by
  obtain ⟨A, B, hl, herase⟩ := h.queues.erase_split ((h.release t).mpr hr)
  have hcq := tcbQueueRemove_queues h.queues hl
  rw [← herase] at hcq
  unfold SchedQueues.releaseRemove
  rw [if_pos hr]
  refine ⟨h.setRelease hcq fun t' => ?_, rfl, rfl⟩
  rw [(h.queues.nodup SchedIdx.release).mem_erase_iff, h.release t', update_apply]
  split_ifs with htt
  · exact ⟨fun hh => absurd htt hh.1, nofun⟩
  · exact and_iff_right htt

omit h in
/-- A queue is shorter than the address space is large. -/
theorem length_lt_loopBound {ι : Type} {Q : ι → TcbQueue} {l : ι → List Word}
    (h : Queues 0 L Q l) (i : ι) : (l i).length < loopBound := by
  have hnd : (0 :: l i).Nodup := List.nodup_cons.mpr ⟨h.null_notMem i, h.nodup i⟩
  have hnd' : ((0 :: l i).map BitVec.toNat).Nodup := hnd.map fun _ _ he => BitVec.eq_of_toNat_eq he
  have hsub : (0 :: l i).map BitVec.toNat ⊆ List.range loopBound := by
    intro n hn
    obtain ⟨w, -, rfl⟩ := List.mem_map.mp hn
    exact List.mem_range.mpr w.isLt
  have hle := (List.subperm_of_subset hnd' hsub).length_le
  rwa [List.length_map, List.length_range, List.length_cons] at hle

omit h in
/-- `find_time_after` stops at the first thread that is released later. -/
theorem findTimeAfter_spec (time : Word → Nat) (newTime : Nat)
    {Q : SchedIdx → TcbQueue} {i : SchedIdx} (h : CleanQueues 0 L Q l) :
    ∀ (B : List Word) {A : List Word} {rounds : Nat}, l i = A ++ B → B.length < rounds →
      ∃ C D, B = C ++ D ∧ findTimeAfter time newTime L rounds (B.headD 0) = .ok (D.headD 0) ∧
        (∀ x ∈ C, time x ≤ newTime) ∧ ∀ d ∈ D.head?, newTime < time d
  | _, _, 0, _, hlt => absurd hlt (Nat.not_lt_zero _)
  | [], A, rounds + 1, hl, _ => by
    refine ⟨[], [], rfl, ?_, nofun, nofun⟩
    exact if_neg fun hh => hh.1 rfl
  | b :: B, A, rounds + 1, hl, hlt => by
    have hb0 : b ≠ 0 := by
      refine h.ne_null i b ?_
      rw [hl]
      exact List.mem_append_right A (.head _)
    rw [findTimeAfter, List.headD_cons]
    by_cases htime : newTime ≥ time b
    · have hl' : l i = (A ++ [b]) ++ B := by
        rw [hl, List.append_assoc, List.singleton_append]
      obtain ⟨C, D, hB, heq, hC, hD⟩ :=
        findTimeAfter_spec time newTime h B hl' (Nat.lt_of_succ_lt_succ hlt)
      refine ⟨b :: C, D, by rw [hB, List.cons_append], ?_, ?_, hD⟩
      · rw [if_pos ⟨hb0, htime⟩, h.next_eq hl]
        exact heq
      · intro x hx
        rcases List.mem_cons.mp hx with rfl | hx
        · exact htime
        · exact hC x hx
    · refine ⟨[], b :: B, rfl, ?_, nofun, ?_⟩
      · rw [if_neg fun hh => htime hh.2]
        rfl
      · rintro d ⟨⟩
        exact Nat.lt_of_not_ge htime

/-- Where `tcbReleaseEnqueue` puts a thread: after threads that are not released later, before one
that is. -/
structure ReleasePlace (time : Word → Nat) (newTime : Nat) (A B : List Word) : Prop where
  before : ∀ a, A.getLast? = some a → time a ≤ newTime
  after : ∀ b, B.head? = some b → newTime < time b

/-- Linking a thread into the release queue; `ksReprogram` is set if it goes first. -/
theorem releaseLink {time : Word → Nat} {newTime : Nat} (ht : t ≠ 0)
    (hfresh : ∀ j, t ∉ l j) :
    ∃ r A B L Q, q.releaseLink time newTime t =
        .ok (r, { q with tcbSched := L, ksReleaseQueue := Q }) ∧
      l .release = A ++ B ∧ ReleasePlace time newTime A B ∧ (r = true ↔ A = []) ∧
      CleanQueues 0 L (update q.queue .release Q)
        (update l .release (A ++ t :: B)) := by
  have hcq := h.queues
  obtain ⟨-, hhead, htail⟩ := hcq.isQueue .release
  have hempty := tcbQueueEmpty_iff hcq .release
  unfold SchedQueues.releaseLink
  dsimp only
  split
  · rename_i hfirst
    refine ⟨_, [], l .release, _, _, rfl, rfl, ⟨nofun, fun b hb => ?_⟩,
      iff_of_true rfl rfl, tcbQueuePrepend_queues (i := SchedIdx.release) hcq hfresh ht⟩
    rcases hfirst with he | hlt
    · rw [hempty.mp he] at hb
      cases hb
    · have hh : q.ksReleaseQueue.head = b := by
        have hhd : q.ksReleaseQueue.head = (l .release).headD 0 := hhead
        rw [hhd, List.headD_eq_head?_getD, hb, Option.getD_some]
      rwa [hh] at hlt
  · rename_i hfirst
    push Not at hfirst
    obtain ⟨hne, hge⟩ := hfirst
    have hnil : l .release ≠ [] := fun h0 => hne (hempty.mpr h0)
    split_ifs with hlast
    · refine ⟨_, l .release, [], _, _, rfl, (List.append_nil _).symm, ⟨fun a ha => ?_, nofun⟩,
        iff_of_false Bool.false_ne_true hnil, tcbQueueAppend_queues (i := SchedIdx.release) hcq hfresh ht⟩
      have htl : q.ksReleaseQueue.tail = a := by
        have htl' : q.ksReleaseQueue.tail = (l .release).getLastD 0 := htail
        rw [htl', List.getLastD_eq_getLast?, ha, Option.getD_some]
      rwa [htl] at hlast
    · -- the head is released before the thread and the tail after it
      obtain ⟨C, D, hl, hfind, hC, hD⟩ := findTimeAfter_spec time newTime hcq (l .release)
        (List.nil_append _).symm (length_lt_loopBound hcq.toQueues .release)
      rw [← hhead] at hfind
      have hCne : C ≠ [] := by
        rintro rfl
        cases D with
        | nil => exact hnil hl
        | cons d D =>
          rw [hl] at hhead
          have hd : newTime < time d := hD d rfl
          have hh : q.ksReleaseQueue.head = d := hhead
          rw [hh] at hge
          omega
      cases D with
      | nil =>
        rw [List.append_nil] at hl
        have htm : C.getLastD 0 ∈ C := by
          rw [List.getLastD_eq_getLast?, List.getLast?_eq_some_getLast hCne]
          exact List.getLast_mem hCne
        rw [← hl, ← htail] at htm
        exact absurd (hC _ (hl ▸ htm)) hlast
      | cons d D =>
        obtain ⟨M, hM, hcM⟩ := tcbQueueInsert_queues hcq hl hCne hfresh ht
        have hfind' : findTimeAfter time newTime q.tcbSched loopBound q.ksReleaseQueue.head = .ok d :=
          hfind
        have hsame : update q.queue SchedIdx.release q.ksReleaseQueue = q.queue :=
          update_eq_self SchedIdx.release q.queue
        rw [hfind', ok_bind, hM]
        refine ⟨_, C, d :: D, _, _, rfl, hl, ⟨fun a ha => hC a (List.mem_of_getLast? ha), hD⟩,
          iff_of_false Bool.false_ne_true hCne, ?_⟩
        rw [hsame]
        exact hcM

/-- **`tcbReleaseEnqueue` puts the thread into the release queue.** -/
theorem releaseEnqueue (time : Word → Nat) (ht : t ≠ 0)
    (hq : q.tcbQueued t = false) (hr : q.tcbInReleaseQueue t = false) :
    ∃ r q' A B, q.releaseEnqueue time t = .ok (r, q') ∧ l .release = A ++ B ∧
      ReleasePlace time (time t) A B ∧ (r = true ↔ A = []) ∧
      SchedInv cfg p q' (update l .release (A ++ t :: B)) ∧ q'.tcbQueued = q.tcbQueued ∧
      q'.tcbInReleaseQueue = update q.tcbInReleaseQueue t true := by
  obtain ⟨r, A, B, L, Q, heq, hl, hplace, hr', hcq⟩ := h.releaseLink ht (h.fresh hq hr)
  unfold SchedQueues.releaseEnqueue
  rw [require_ok (by rw [hr]; rfl), require_ok (by rw [hq]; rfl), heq]
  refine ⟨_, _, A, B, rfl, hl, hplace, hr', h.setRelease hcq fun t' => ?_, rfl, rfl⟩
  rw [update_apply]
  split_ifs with htt
  · rw [htt]
    exact iff_of_true (List.mem_append_right A (.head _)) rfl
  · rw [← h.release t', hl, mem_append_cons_of_ne htt]

end

end SchedInv

/-! ## Runs -/

/-- No thread is queued anywhere. -/
structure SchedQueues.Empty (q : SchedQueues) : Prop where
  links : ∀ t, q.tcbSched.next t = 0 ∧ q.tcbSched.prev t = 0
  queued : ∀ t, q.tcbQueued t = false
  released : ∀ t, q.tcbInReleaseQueue t = false
  queues : ∀ j, q.queue j = ⟨0, 0⟩
  l1 : ∀ dom, q.ksReadyQueuesL1Bitmap dom = 0
  l2 : ∀ dom i, q.ksReadyQueuesL2Bitmap dom i = 0

theorem SchedQueues.Empty.inv {p : ThreadParams} {q : SchedQueues} (h : q.Empty)
    (hp : p.Bounded cfg) : SchedInv cfg p q fun _ => [] := by
  refine ⟨⟨⟨fun j => ?_, fun _ => List.nodup_nil, ?_, ?_⟩, fun t _ => h.links t⟩, ?_, ?_, ?_, hp⟩
  · rw [h.queues j]
    exact ⟨trivial, rfl, rfl⟩
  · exact nofun
  · exact nofun
  · exact fun t _ => ⟨nofun, fun hh => by rw [h.queued t] at hh; cases hh.1⟩
  · exact fun t => ⟨nofun, fun hh => by rw [h.released t] at hh; cases hh⟩
  · refine ⟨fun d _ pr _ => ⟨fun hb => ?_, fun hb => absurd rfl hb⟩, fun d _ g => ⟨fun hb => ?_, ?_⟩⟩
    · exact absurd (h.l2 d _) (ne_zero_of_getLsbD hb)
    · exact absurd (h.l1 d) (ne_zero_of_getLsbD hb)
    · rintro ⟨_, _, _, hb⟩
      exact absurd rfl hb

/-- An operation on the ready queues, or a change of other state, which may give new priorities and
domains to threads that are not queued. -/
inductive ReadyStep (cfg : SysConfig) : SysState → SysState → Prop
  | enqueue {s s' : SysState} (t : Word) (ht : t ≠ 0) (h : s.tcbSchedEnqueue cfg t = .ok s') :
      ReadyStep cfg s s'
  | append {s s' : SysState} (t : Word) (ht : t ≠ 0) (h : s.tcbSchedAppend cfg t = .ok s') :
      ReadyStep cfg s s'
  | dequeue {s s' : SysState} (t : Word) (h : s.tcbSchedDequeue cfg t = .ok s') :
      ReadyStep cfg s s'
  | other {s s' : SysState} (hq : s'.toSchedQueues = s.toSchedQueues)
      (hb : s'.toThreadParams.Bounded cfg)
      (hp : ∀ t, s.tcbQueued t = true →
        s'.tcbPriority t = s.tcbPriority t ∧ s'.tcbDomain t = s.tcbDomain t) :
      ReadyStep cfg s s'

/-- The states that are reached from empty queues. -/
inductive ReadyReach (cfg : SysConfig) : SysState → Prop
  | init {s : SysState} (hq : s.toSchedQueues.Empty) (hb : s.toThreadParams.Bounded cfg) :
      ReadyReach cfg s
  | step {s s' : SysState} (h : ReadyReach cfg s) (hs : ReadyStep cfg s s') : ReadyReach cfg s'

/-- The queues of the scheduler are right, and the release queue holds `lr`. -/
def SchedHolds (cfg : SysConfig) (lr : List Word) (s : SysState) : Prop :=
  ∃ l, SchedInv cfg s.toThreadParams s.toSchedQueues l ∧ l .release = lr

/-- Only the ready queues have changed, and the threads of `f` are queued. -/
structure Relinked (cfg : SysConfig) (lr : List Word) (f : Word → Bool) (s s' : SysState) : Prop where
  holds : SchedHolds cfg lr s'
  queued : s'.tcbQueued = f
  eq : ∃ q, s' = { s with toSchedQueues := q }

namespace SchedHolds

variable {lr : List Word} {s s' : SysState} {t : Word}

theorem mem_iff (h : SchedHolds cfg lr s) (t : Word) : t ∈ lr ↔ s.tcbInReleaseQueue t = true := by
  obtain ⟨l, hinv, rfl⟩ := h
  exact hinv.release t

theorem not_released (h : SchedHolds cfg lr s) (ht : t ∉ lr) : s.tcbInReleaseQueue t = false :=
  Bool.eq_false_iff.mpr fun hr => ht ((h.mem_iff t).mpr hr)

/-- A change of the queues that keeps the invariant. -/
theorem of_queues {f : ThreadParams → SchedQueues → Checked SchedQueues} {g : Word → Bool}
    (hf : ∃ q l, f s.toThreadParams s.toSchedQueues = .ok q ∧ SchedInv cfg s.toThreadParams q l ∧
      l .release = lr ∧ q.tcbQueued = g) : ∃ s', s.onQueues f = .ok s' ∧ Relinked cfg lr g s s' := by
  obtain ⟨q, l, hq, hinv, hrel, hg⟩ := hf
  unfold onQueues
  rw [hq]
  exact ⟨_, rfl, ⟨l, hinv, hrel⟩, hg, q, rfl⟩

/-- Adding a thread to its ready queue, at either end. -/
theorem add {f : ThreadParams → SchedQueues → Checked SchedQueues} (newl : List Word → List Word)
    (h : SchedHolds cfg lr s) (hr : t ∉ lr)
    (hskip : s.tcbQueued t = true → f s.toThreadParams s.toSchedQueues = .ok s.toSchedQueues)
    (hadd : ∀ l, SchedInv cfg s.toThreadParams s.toSchedQueues l → s.tcbQueued t = false →
      s.tcbInReleaseQueue t = false → ∃ q', f s.toThreadParams s.toSchedQueues = .ok q' ∧
        SchedInv cfg s.toThreadParams q' (update l (s.idx t)
          (newl (l (s.idx t)))) ∧ q'.tcbQueued = update s.tcbQueued t true) :
    ∃ s', s.onQueues f = .ok s' ∧ Relinked cfg lr (update s.tcbQueued t true) s s' := by
  have hr := h.not_released hr
  obtain ⟨l, hinv, hrel⟩ := h
  refine of_queues ?_
  cases hq : s.tcbQueued t with
  | true => exact ⟨_, l, hskip hq, hinv, hrel, by rw [← hq, update_eq_self]⟩
  | false =>
    obtain ⟨q', heq, hinv', hflags⟩ := hadd l hinv hq hr
    refine ⟨q', _, heq, hinv', ?_, hflags⟩
    exact hrel

variable (h : SchedHolds cfg lr s)
include h

/-- **`tcbSchedEnqueue`** passes its assertions, and the thread is queued. -/
theorem tcbSchedEnqueue (ht : t ≠ 0) (hr : t ∉ lr) (hmcs : cfg.mcs = true → s.isSchedulable cfg t = true ∧
      s.refillSufficient cfg (s.tcbSchedContext t) 0 = true) :
    ∃ s', s.tcbSchedEnqueue cfg t = .ok s' ∧ Relinked cfg lr (update s.tcbQueued t true) s s' := by
  unfold SysState.tcbSchedEnqueue
  rw [require_imp.mpr fun hm => (hmcs hm).1, ok_bind, require_imp.mpr fun hm => (hmcs hm).2, ok_bind]
  exact h.add (t :: ·) hr (fun hq => if_pos hq) fun l hinv => hinv.schedEnqueue ht

theorem tcbSchedAppend (ht : t ≠ 0) (hr : t ∉ lr) (hmcs : cfg.mcs = true → s.isSchedulable cfg t = true ∧
      s.refillSufficient cfg (s.tcbSchedContext t) 0 = true ∧
      s.refillReady (s.tcbSchedContext t) = true) :
    ∃ s', s.tcbSchedAppend cfg t = .ok s' ∧ Relinked cfg lr (update s.tcbQueued t true) s s' := by
  unfold SysState.tcbSchedAppend
  rw [require_imp.mpr fun hm => (hmcs hm).1, ok_bind, require_imp.mpr fun hm => (hmcs hm).2.1, ok_bind,
    require_imp.mpr fun hm => (hmcs hm).2.2, ok_bind]
  exact h.add (· ++ [t]) hr (fun hq => if_pos hq) fun l hinv => hinv.schedAppend ht

theorem tcbSchedDequeue (t : Word) :
    ∃ s', s.tcbSchedDequeue cfg t = .ok s' ∧ Relinked cfg lr (update s.tcbQueued t false) s s' := by
  obtain ⟨l, hinv, hrel⟩ := h
  refine of_queues ?_
  cases hq : s.tcbQueued t with
  | false =>
    refine ⟨_, l, if_neg ?_, hinv, hrel, by rw [← hq, update_eq_self]⟩
    rw [hq]
    exact Bool.false_ne_true
  | true =>
    obtain ⟨q', heq, hinv', hflags⟩ := hinv.schedDequeue hq
    refine ⟨q', _, heq, hinv', ?_, hflags⟩
    exact hrel

section

variable (hrel : cfg.mcs = false → lr = [])
include hrel

/-- A thread that can be scheduled is not in the release queue, which only MCS has. -/
theorem notMem
    (ht : cfg.mcs = true → s.isSchedulable cfg t = true) : t ∉ lr := by
  intro hm
  cases hmcs : cfg.mcs with
  | false =>
    rw [hrel hmcs] at hm
    cases hm
  | true =>
    have hflag := (h.mem_iff t).mp hm
    have hsched := ht hmcs
    unfold isSchedulable at hsched
    rw [hmcs, hflag] at hsched
    simp at hsched

/-- What a call of `tcbSchedEnqueue` has done. -/
theorem enqueued (ht : t ≠ 0) (heq : s.tcbSchedEnqueue cfg t = .ok s') :
    Relinked cfg lr (update s.tcbQueued t true) s s' := by
  obtain ⟨_, h1, _, h2, -⟩ := bind2_eq_ok heq
  exact of_ok (h.tcbSchedEnqueue ht (h.notMem hrel (require_imp.mp h1))
    fun hm => ⟨require_imp.mp h1 hm, require_imp.mp h2 hm⟩) heq

/-- What a call of `tcbSchedAppend` has done. -/
theorem appended (ht : t ≠ 0) (heq : s.tcbSchedAppend cfg t = .ok s') :
    Relinked cfg lr (update s.tcbQueued t true) s s' := by
  obtain ⟨_, h1, _, h2, heq'⟩ := bind2_eq_ok heq
  obtain ⟨_, h3, -⟩ := bind_eq_ok heq'
  exact of_ok (h.tcbSchedAppend ht (h.notMem hrel (require_imp.mp h1))
    fun hm => ⟨require_imp.mp h1 hm, require_imp.mp h2 hm, require_imp.mp h3 hm⟩) heq

omit hrel in
/-- What a call of `tcbSchedDequeue` has done. -/
theorem dequeued (heq : s.tcbSchedDequeue cfg t = .ok s') :
    Relinked cfg lr (update s.tcbQueued t false) s s' := of_ok (h.tcbSchedDequeue t) heq

omit hrel in
/-- Priorities and domains may change for threads that are not queued. -/
theorem congr (hq : s'.toSchedQueues = s.toSchedQueues) (hb : s'.toThreadParams.Bounded cfg)
    (hp : ∀ t, s.tcbQueued t = true →
      s'.tcbPriority t = s.tcbPriority t ∧ s'.tcbDomain t = s.tcbDomain t) : SchedHolds cfg lr s' := by
  obtain ⟨l, hinv, hrel⟩ := h
  refine ⟨l, ?_, hrel⟩
  rw [hq]
  refine hinv.setParams hb fun t ht => ?_
  unfold ThreadParams.idx
  rw [(hp t ht).1, (hp t ht).2]

/-- Every step on the ready queues keeps the release queue. -/
theorem step (hs : ReadyStep cfg s s') : SchedHolds cfg lr s' := by
  cases hs with
  | enqueue t ht heq => exact (h.enqueued hrel ht heq).holds
  | append t ht heq => exact (h.appended hrel ht heq).holds
  | dequeue t heq => exact (h.dequeued heq).holds
  | other hq hb hp => exact h.congr hq hb hp

end

end SchedHolds

/-- What holds in them. -/
def ReadyOnly (cfg : SysConfig) (s : SysState) : Prop :=
  ∃ l, SchedInv cfg s.toThreadParams s.toSchedQueues l ∧ l .release = []

/-- Only the queues of the scheduler have changed, and the threads of `f` are queued. -/
structure Requeued (cfg : SysConfig) (f : Word → Bool) (s s' : SysState) : Prop where
  ready : ReadyOnly cfg s'
  queued : s'.tcbQueued = f
  eq : ∃ q, s' = { s with toSchedQueues := q }

theorem Relinked.requeued {f : Word → Bool} {s s' : SysState} (h : Relinked cfg [] f s s') :
    Requeued cfg f s s' := ⟨h.holds, h.queued, h.eq⟩

namespace ReadyOnly

variable {s s' : SysState} {t : Word}

section

variable (h : ReadyOnly cfg s)
include h

theorem holds : SchedHolds cfg [] s := h

/-- What a call of `tcbSchedEnqueue` has done. -/
theorem enqueued (ht : t ≠ 0) (heq : s.tcbSchedEnqueue cfg t = .ok s') :
    Requeued cfg (update s.tcbQueued t true) s s' := (h.holds.enqueued (fun _ => rfl) ht heq).requeued

/-- What a call of `tcbSchedAppend` has done. -/
theorem appended (ht : t ≠ 0) (heq : s.tcbSchedAppend cfg t = .ok s') :
    Requeued cfg (update s.tcbQueued t true) s s' := (h.holds.appended (fun _ => rfl) ht heq).requeued

/-- What a call of `tcbSchedDequeue` has done. -/
theorem dequeued (heq : s.tcbSchedDequeue cfg t = .ok s') :
    Requeued cfg (update s.tcbQueued t false) s s' := (h.holds.dequeued heq).requeued

end

theorem reach (h : ReadyReach cfg s) : ReadyOnly cfg s := by
  induction h with
  | init hq hb => exact ⟨_, hq.inv hb, rfl⟩
  | step _ hs ih => exact ih.holds.step (fun _ => rfl) hs

end ReadyOnly

/-- The ready queues hold the lists `l`, by index, and the bitmaps agree with them. -/
structure ReadyQueuesOk (cfg : SysConfig) (s : SysState) (l : Nat → List Word) : Prop where
  /-- A thread has `tcbQueued` set if it is in some queue. -/
  queued : ∀ t, s.tcbQueued t = true ↔ ∃ i, t ∈ l i
  /-- It is then in the queue of its domain and priority, and there once. -/
  unique : ∀ t i, t ∈ l i →
    readyQueuesIndex cfg (s.tcbDomain t) (s.tcbPriority t) = .ok i ∧ (l i).count t = 1
  /-- The queues are well linked, and head and end match. -/
  linked : ∀ i, IsQueue 0 s.tcbSched (s.ksReadyQueues i) (l i)
  /-- A thread outside all queues has null links. -/
  outside : ∀ t, (∀ i, t ∉ l i) → s.tcbSched.next t = 0 ∧ s.tcbSched.prev t = 0
  /-- The second level marks the priorities with a thread. -/
  level2 : ∀ dom < cfg.numDomains, ∀ prio < numPriorities, ∃ i j,
    readyQueuesIndex cfg dom prio = .ok i ∧ invertL1index (prioToL1index prio) = .ok j ∧
      ((s.ksReadyQueuesL2Bitmap dom j).getLsbD (prio % wordBits) = true ↔ l i ≠ [])
  /-- The first level marks the groups of priorities with a thread. -/
  level1 : ∀ dom < cfg.numDomains, ∀ g,
    (s.ksReadyQueuesL1Bitmap dom).getLsbD g = true ↔
      ∃ prio < numPriorities, prioToL1index prio = g ∧
        ∃ i, readyQueuesIndex cfg dom prio = .ok i ∧ l i ≠ []
  /-- The search returns the highest priority with a thread. -/
  highest : ∀ dom < cfg.numDomains, s.ksReadyQueuesL1Bitmap dom ≠ 0 →
    ∃ r i, s.getHighestPrio dom = .ok r ∧ readyQueuesIndex cfg dom r = .ok i ∧
      l i ≠ [] ∧ ∀ prio < numPriorities, ∀ j, readyQueuesIndex cfg dom prio = .ok j → l j ≠ [] → prio ≤ r
  /-- None of the operations meets an assertion about the queues. -/
  enqueue : ∀ t ≠ 0, (cfg.mcs = true → s.isSchedulable cfg t = true ∧
    s.refillSufficient cfg (s.tcbSchedContext t) 0 = true) → ∃ s', s.tcbSchedEnqueue cfg t = .ok s'
  append : ∀ t ≠ 0, (cfg.mcs = true → s.isSchedulable cfg t = true ∧
    s.refillSufficient cfg (s.tcbSchedContext t) 0 = true ∧
    s.refillReady (s.tcbSchedContext t) = true) → ∃ s', s.tcbSchedAppend cfg t = .ok s'
  dequeue : ∀ t, ∃ s', s.tcbSchedDequeue cfg t = .ok s'

/-- **The ready queues and their bitmaps are right** in every state that is reached from empty
queues by enqueueing, appending and dequeueing any threads, with priorities and domains changed only
while a thread is not queued. -/
theorem ready_queues_well_formed (cfg : SysConfig) (s : SysState) (h : ReadyReach cfg s) :
    ∃ l, ReadyQueuesOk cfg s l := by
  have hro := ReadyOnly.reach h
  obtain ⟨l, hinv, -⟩ := id hro
  have hidx : ∀ t, readyQueuesIndex cfg (s.tcbDomain t) (s.tcbPriority t) =
      .ok (readyIdx (s.tcbDomain t) (s.tcbPriority t)) :=
    fun t => readyQueuesIndex_ok (hinv.bounded t).2 _
  have hbm : ∀ dom < cfg.numDomains, ∀ prio,
      (∃ i, readyQueuesIndex cfg dom prio = .ok i ∧ l (.ready i) ≠ []) ↔
        l (.ready (readyIdx dom prio)) ≠ [] := by
    intro dom hd prio
    rw [readyQueuesIndex_ok hd]
    exact ⟨by rintro ⟨_, ⟨⟩, hne⟩; exact hne, fun hne => ⟨_, rfl, hne⟩⟩
  refine ⟨fun i => l (.ready i), ?_, ?_, fun i => hinv.queues.isQueue (.ready i), ?_, ?_, ?_, ?_,
    ?_, ?_, ?_⟩
  · exact fun t => ⟨fun hq => ⟨_, hinv.mem_idx hq⟩, fun ⟨i, hm⟩ => ((hinv.ready t i).mp hm).1⟩
  · intro t i hm
    have hi : readyIdx (s.tcbDomain t) (s.tcbPriority t) = i := by
      have := ((hinv.ready t i).mp hm).2
      injection this
    refine ⟨by rw [hidx t, hi], ?_⟩
    exact List.count_eq_one_of_mem (hinv.queues.nodup (.ready i)) hm
  · intro t ht
    refine hinv.queues.detached t fun j hj => ?_
    cases j with
    | ready i => exact ht i hj
    | release =>
      have hr := (hinv.release t).mp hj
      rw [hro.holds.not_released List.not_mem_nil] at hr
      cases hr
  · intro dom hd prio hp
    refine ⟨_, _, readyQueuesIndex_ok hd prio, ?_, hinv.bitmap.l2 dom hd prio hp⟩
    rw [prioToL1index_eq, invertL1index_ok (l1index_lt hp)]
  · intro dom hd g
    refine (hinv.bitmap.l1 dom hd g).trans (exists_congr fun prio => and_congr_right fun _ => ?_)
    rw [prioToL1index_eq, hbm dom hd prio]
  · intro dom hd hne
    obtain ⟨r, hr, hr256, hrb, hmax⟩ := hinv.bitmap.getHighestPrio hd hne
    refine ⟨r, _, hr, readyQueuesIndex_ok hd r, hrb, fun prio hp j hj hne' => hmax prio hp ?_⟩
    exact (hbm dom hd prio).mp ⟨j, hj, hne'⟩
  · exact fun t ht hm => (hro.holds.tcbSchedEnqueue ht List.not_mem_nil hm).imp fun _ => And.left
  · exact fun t ht hm => (hro.holds.tcbSchedAppend ht List.not_mem_nil hm).imp fun _ => And.left
  · exact fun t => (hro.holds.tcbSchedDequeue t).imp fun _ => And.left

/-- Threads 16 and 32 have priorities 100 and 200. -/
def sampleReady : SysState := { zero with tcbPriority := fun t => if t = 32 then 200 else 100 }

theorem sampleReady_bounded : sampleReady.toThreadParams.Bounded benchSysConfig := by
  intro t
  refine ⟨?_, Nat.one_pos⟩
  change (if t = 32 then 200 else 100) < 256
  split_ifs <;> decide

theorem sampleReady_empty : sampleReady.toSchedQueues.Empty :=
  ⟨fun _ => ⟨rfl, rfl⟩, fun _ => rfl, fun _ => rfl, fun j => by cases j <;> rfl, fun _ => rfl,
    fun _ _ => rfl⟩

theorem ready_queues_well_formed_sample :
    ∃ s l, (sampleReady.tcbSchedEnqueue benchSysConfig 16 >>= fun s =>
        s.tcbSchedAppend benchSysConfig 32 >>= fun s => s.tcbSchedDequeue benchSysConfig 16) = .ok s ∧
      s.getHighestPrio 0 = .ok 200 ∧ ReadyQueuesOk benchSysConfig s l := by
  have hrun : (sampleReady.tcbSchedEnqueue benchSysConfig 16 >>= fun s =>
      s.tcbSchedAppend benchSysConfig 32 >>= fun s => s.tcbSchedDequeue benchSysConfig 16 >>=
        fun s => s.getHighestPrio 0) = .ok 200 := by
    decide +kernel
  obtain ⟨s₁, h1, s₂, h2, hrun⟩ := bind2_eq_ok hrun
  obtain ⟨s₃, h3, hprio⟩ := bind_eq_ok hrun
  have hreach : ReadyReach benchSysConfig s₃ :=
    .step (.step (.step (.init sampleReady_empty sampleReady_bounded)
      (.enqueue 16 (by decide) h1)) (.append 32 (by decide) h2)) (.dequeue 16 h3)
  obtain ⟨l, hl⟩ := ready_queues_well_formed benchSysConfig s₃ hreach
  refine ⟨s₃, l, ?_, hprio, hl⟩
  rw [h1, ok_bind, h2, ok_bind, h3]

end SeL4.Thread
