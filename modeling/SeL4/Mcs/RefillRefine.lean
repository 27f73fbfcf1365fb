import SeL4.Mcs.RefillQueue

/-!
# The circular buffer implements the list queue

`Holds sc max period sp q` says that scheduling context `sc`, configured with `max` refills, period
`period` and `scSporadic = sp`, stores the queue `q` in a well-formed buffer. For each function of `sporadic.c` a
theorem says that on a context that holds a queue satisfying `QueueInv` the function returns
`.ok` (no assertion fails, no tick arithmetic wraps, no loop runs out of rounds), and that the
result holds the queue computed by the list function of `RefillQueue.lean`.
-/

namespace SeL4.Mcs

open SeL4.Lib

/-- `sc` stores `q`, with room for `max` refills and the given period and flag. -/
structure Holds (sc : SchedContext) (max period : Nat) (sp : Bool) (q : List Refill) : Prop where
  wf : sc.ring.WF
  queue : sc.queue = q
  max : sc.scRefillMax = max
  period : sc.scPeriod = period
  sporadic : sc.scSporadic = sp

variable {cfg : TimerConfig} {sc : SchedContext} {max period budget : Nat} {h : Refill}
  {q : List Refill} {sp : Bool}

/-! ## Reading and writing the ends -/

theorem Holds.size (hs : Holds sc max period sp q) : refillSize sc = q.length := by
  rw [← hs.queue]
  exact (RingBuffer.length_toList sc.ring).symm

theorem Holds.head (hs : Holds sc max period sp (h :: q)) : refillHead sc = h :=
  RingBuffer.cells_head_eq hs.queue

theorem Holds.tail {t : Refill} (hs : Holds sc max period sp (q ++ [t])) : refillTail sc = t :=
  RingBuffer.cells_tail_eq hs.wf hs.queue

variable {b : Refill}

section

variable (hs : Holds sc max period sp (h :: b :: q))
include hs

theorem Holds.second :
    refillIndex sc (refillNext sc sc.scRefillHead) = b :=
  RingBuffer.cells_next_head_eq hs.queue

omit hs in
theorem Holds.single (hs : Holds sc max period sp [h]) : refillSingle sc = true := by
  have : sc.scRefillHead = sc.scRefillTail := (RingBuffer.head_eq_tail_iff hs.wf hs.queue).mpr rfl
  unfold refillSingle
  rw [this, beq_self_eq_true]

theorem Holds.head_ne_tail :
    sc.scRefillHead ≠ sc.scRefillTail := by
  intro he
  exact List.cons_ne_nil _ _ ((RingBuffer.head_eq_tail_iff hs.wf hs.queue).mp he)

theorem Holds.not_single : refillSingle sc = false := by
  exact beq_eq_false_iff_ne.mpr hs.head_ne_tail

omit hs in
theorem Holds.full (hs : Holds sc max period sp q) : refillFull sc = decide (q.length = max) := by
  unfold refillFull
  rw [hs.size, hs.max]
  rfl

omit hs in
theorem Holds.setHead (hs : Holds sc max period sp (h :: q)) (x : Refill) :
    Holds (setRefillHead sc x) max period sp (x :: q) :=
  ⟨RingBuffer.setCell_wf hs.wf _ x, RingBuffer.toList_setHead hs.wf x hs.queue, hs.max, hs.period, hs.sporadic⟩

omit hs in
theorem Holds.setTail {t : Refill} (hs : Holds sc max period sp (q ++ [t])) (x : Refill) :
    Holds (setRefillTail sc x) max period sp (q ++ [x]) :=
  ⟨RingBuffer.setCell_wf hs.wf _ x, RingBuffer.toList_setTail hs.wf x hs.queue, hs.max, hs.period, hs.sporadic⟩

/-- `refill_pop_head` on a queue of at least two refills. -/
theorem Holds.popHead :
    ∃ sc', refillPopHead sc = .ok (h, sc') ∧ Holds sc' max period sp (b :: q) := by
  have hne := hs.head_ne_tail
  have hsz := RingBuffer.size_popHead hs.wf hne
  have hlist := RingBuffer.toList_popHead hs.wf hne
  have hq : sc.ring.toList = h :: b :: q := hs.queue
  have hwf := RingBuffer.popHead_wf hs.wf
  rw [hq] at hlist
  refine ⟨{ sc with scRefillHead := refillNext sc sc.scRefillHead }, ?_,
    ⟨hwf, (List.cons.inj hlist).2.symm, hs.max, hs.period, hs.sporadic⟩⟩
  unfold refillPopHead
  rw [hs.not_single, require_ok Bool.not_false]
  have h1 : (refillSize sc ==
      refillSize { sc with scRefillHead := refillNext sc sc.scRefillHead } + 1) = true := by
    have hpos : 0 < sc.ring.size := RingBuffer.size_pos _
    show (sc.ring.size == sc.ring.popHead.size + 1) = true
    rw [beq_iff_eq]
    omega
  have h2 : decide (refillNext sc sc.scRefillHead < sc.scRefillMax) = true := decide_eq_true hwf.head_lt
  simp only [require_ok h1, require_ok h2, ok_bind, hs.head, pure_eq_ok]

end

section

variable (hs : Holds sc max period sp q)
include hs

/-- `refill_add_tail` on a queue that is not full. -/
theorem Holds.addTail (hlt : q.length < max) (x : Refill) :
    ∃ sc', refillAddTail sc x = .ok sc' ∧ Holds sc' max period sp (q ++ [x]) := by
  have hsz : sc.ring.size < sc.ring.cap := by
    have h1 : sc.ring.size = q.length := hs.size
    have h2 : sc.ring.cap = max := hs.max
    rw [h1, h2]
    exact hlt
  have hlist := RingBuffer.toList_pushTail hs.wf hsz x
  have hq : sc.ring.toList = q := hs.queue
  have hwf := RingBuffer.pushTail_wf hs.wf x
  rw [hq] at hlist
  refine ⟨setRefillTail { sc with scRefillTail := refillNext sc sc.scRefillTail } x, ?_,
    ⟨hwf, hlist, hs.max, hs.period, hs.sporadic⟩⟩
  unfold refillAddTail
  have h1 : decide (refillSize sc < sc.scRefillMax) = true := decide_eq_true hsz
  have h2 : decide (refillNext sc sc.scRefillTail <
      (setRefillTail { sc with scRefillTail := refillNext sc sc.scRefillTail } x).scRefillMax) =
      true := decide_eq_true hwf.tail_lt
  simp only [require_ok h1, require_ok h2, ok_bind, pure_eq_ok]

theorem Holds.not_roundRobin (hp : budget < period) :
    isRoundRobin sc = false := by
  unfold isRoundRobin
  rw [hs.period]
  exact beq_eq_false_iff_ne.mpr (Nat.ne_zero_of_lt hp)

theorem Holds.maybeAddEmptyTail (hp : budget < period) :
    maybeAddEmptyTail sc = .ok sc := by
  unfold Mcs.maybeAddEmptyTail
  rw [hs.not_roundRobin hp]
  rfl

end

/-! ## Tick arithmetic under the invariant -/

/-- A refill of the queue ends inside the 64-bit range. -/
theorem QueueInv.finish_le (hp : Params cfg max period budget) (hi : QueueInv cfg max budget q)
    {r : Refill} (hr : r ∈ q) : r.rTime + r.rAmount + cfg.maxPeriod ≤ uint64Max := by
  have h1 := hi.bound r hr
  have h2 := amount_le_total hr
  have h3 := cfg.maxReleaseTime_add
  have h4 := hp.budget_lt
  have h5 := hp.period_le
  rw [hi.sum] at h2
  omega

theorem QueueInv.amount_le (hi : QueueInv cfg max budget q) {r : Refill} (hr : r ∈ q) :
    r.rAmount ≤ budget := by
  rw [← hi.sum]
  exact amount_le_total hr

theorem Params.budget_add_le (hp : Params cfg max period budget) : budget + budget ≤ uint64Max := by
  have h3 := cfg.maxReleaseTime_add
  have h4 := hp.budget_lt
  have h5 := hp.period_le
  omega

/-! ## Charging -/

theorem place_append (full : Bool) (new t : Refill) :
    ∀ p : List Refill, place full new (p ++ [t]) = p ++ place full new [t]
  | [] => rfl
  | [a] => rfl
  | a :: b :: p => by
    have ih := place_append full new t (b :: p)
    show a :: place full new ((b :: p) ++ [t]) = a :: ((b :: p) ++ place full new [t])
    rw [ih]

/-- `schedule_used`, on a queue whose last refill ends in range. -/
theorem Holds.scheduleUsed (hs : Holds sc max period sp q) (hne : q ≠ []) (hlen : q.length ≤ max)
    (new : Refill) (hfin : ∀ r ∈ q, r.rTime + r.rAmount ≤ uint64Max)
    (hsum : ∀ r ∈ q, r.rAmount + new.rAmount ≤ uint64Max) : ∃ sc', scheduleUsed sc new = .ok sc' ∧
      Holds sc' max period sp (place (decide (q.length = max)) new q) := by
  obtain ⟨p, t, rfl⟩ : ∃ p t, q = p ++ [t] := ⟨_, _, (List.dropLast_append_getLast hne).symm⟩
  have ht : t ∈ p ++ [t] := by simp
  have hfull := hs.full
  rw [place_append]
  unfold scheduleUsed
  simp only [hs.tail, add64_ok (hfin t ht), ok_bind]
  unfold place
  by_cases h1 : new.rTime ≤ t.rTime + t.rAmount
  · have h1' : new.rTime ≤ t.finish := h1
    rw [if_pos h1, if_pos h1', add64_ok (hsum t ht)]
    exact ⟨_, rfl, hs.setTail _⟩
  · have h1' : ¬ new.rTime ≤ t.finish := h1
    rw [if_neg h1, if_neg h1']
    by_cases h2 : (p ++ [t]).length = max
    · rw [hfull, decide_eq_true h2]
      rw [sub64_ok (show t.rAmount ≤ new.rTime by omega), add64_ok (hsum t ht)]
      exact ⟨_, rfl, hs.setTail _⟩
    · rw [hfull, decide_eq_false h2]
      obtain ⟨sc', h3, h4⟩ := hs.addTail (by omega) new
      refine ⟨sc', h3, ?_⟩
      rw [List.append_assoc] at h4
      exact h4

section

variable (hp : Params cfg max period budget)
include hp

variable (hs : Holds sc max period sp (h :: q)) (hi : QueueInv cfg max budget (h :: q))

include hs hi in
/-- `charge_entire_head_refill`, on a head that the usage exhausts. -/
theorem Holds.chargeEntire {usage : Nat} (hu : h.rAmount ≤ usage) :
    ∃ sc', chargeEntireHeadRefill sc usage = .ok (sc', usage - h.rAmount) ∧
      Holds sc' max period sp (chargeHead period (h :: q)) := by
  have hper := hp.period_le
  have hfin := hi.finish_le hp (.head _)
  have htime : h.rTime + period ≤ uint64Max := by omega
  unfold chargeEntireHeadRefill
  simp only [hs.head]
  cases q with
  | nil =>
    simp only [hs.single, if_true, hs.period, add64_ok htime, ok_bind, pure_eq_ok, sub64_ok hu]
    exact ⟨_, rfl, hs.setHead _⟩
  | cons b q =>
    obtain ⟨sc1, hpop, hs1⟩ := hs.popHead
    have hlen := hi.len
    have hlt : (b :: q).length < max := by
      simp only [List.length_cons] at hlen ⊢
      omega
    obtain ⟨sc2, hsched, hs2⟩ := hs1.scheduleUsed
      (List.cons_ne_nil _ _) (Nat.le_of_lt hlt) ⟨h.rTime + period, h.rAmount⟩
      (fun r hr => by have := hi.finish_le hp (List.mem_cons_of_mem h hr); omega)
      (fun r hr => by
        have h1 := hi.amount_le (List.mem_cons_of_mem h hr)
        have h2 := hi.amount_le (List.mem_cons_self)
        have h3 := hp.budget_add_le
        simp only
        omega)
    rw [decide_eq_false (Nat.ne_of_lt hlt)] at hs2
    simp only [hs.not_single, Bool.false_eq_true, if_false, hpop, ok_bind, hs1.period,
      add64_ok htime, hsched, pure_eq_ok, sub64_ok hu]
    exact ⟨sc2, rfl, hs2⟩

/-- `handle_overrun` computes `overrunQueue`. -/
theorem Holds.overrun : ∀ {n usage : Nat} {sc : SchedContext} {q : List Refill}, usage < n →
      Holds sc max period sp q → QueueInv cfg max budget q →
      ∃ sc', handleOverrun cfg n sc usage = .ok (sc', (overrunQueue cfg period n q usage).2) ∧
        Holds sc' max period sp (overrunQueue cfg period n q usage).1
  | 0, _, _, _, hn, _, _ => absurd hn (Nat.not_lt_zero _)
  | _ + 1, _, _, [], _, _, hi => absurd rfl hi.ne
  | n + 1, usage, sc, h :: q, hn, hs, hi => by
    have hpos := hi.pos h (.head _)
    rw [handleOverrun, overrunQueue]
    unfold headRefillOverrun
    rw [hs.head]
    simp only [decide_eq_true_eq]
    split_ifs with hc
    · obtain ⟨sc1, hch, hs1⟩ := hs.chargeEntire hp hi hc.1
      obtain ⟨sc2, hov, hs2⟩ := Holds.overrun
        (show usage - h.rAmount < n by omega) hs1 (chargeHead_inv hp hi hc.2)
      exact ⟨sc2, by rw [hch]; exact hov, hs2⟩
    · exact ⟨sc, rfl, hs⟩

include hs hi in
/-- The middle of `refill_budget_check` computes `partialCharge`. -/
theorem Holds.chargePartial {usage : Nat} (hu : usage < h.rAmount ∨ cfg.maxReleaseTime ≤ h.rTime) :
    ∃ sc', chargePartial cfg sc usage = .ok sc' ∧
      Holds sc' max period sp (partialCharge cfg max period (h :: q) usage) := by
  have hper := hp.period_le
  have hfin := hi.finish_le hp (.head _)
  unfold Mcs.chargePartial partialCharge
  simp only [hs.head]
  split_ifs with hc
  · have hu' : usage < h.rAmount := by omega
    have hs1 := hs.setHead ⟨h.rTime, h.rAmount - usage⟩
    have hs2 := hs1.setHead ⟨h.rTime + usage, h.rAmount - usage⟩
    have hmem : ∀ r ∈ (⟨h.rTime + usage, h.rAmount - usage⟩ : Refill) :: q,
        r.rTime + r.rAmount ≤ uint64Max ∧ r.rAmount ≤ budget := by
      intro r hr
      have hb := hi.amount_le (List.mem_cons_self)
      rcases List.mem_cons.mp hr with rfl | hr
      · simp only
        omega
      · have h1 := hi.finish_le hp (.tail h hr)
        exact ⟨by omega, hi.amount_le (List.mem_cons_of_mem h hr)⟩
    have hbud := hi.amount_le (List.mem_cons_self)
    have hadd := hp.budget_add_le
    obtain ⟨sc3, hsched, hs3⟩ := hs2.scheduleUsed (List.cons_ne_nil _ _)
      hi.len ⟨h.rTime + period, usage⟩ (fun r hr => (hmem r hr).1)
      (fun r hr => by have := (hmem r hr).2; simp only; omega)
    rw [require_ok (decide_eq_true hu'), ok_bind, hs.period,
      add64_ok (show h.rTime + period ≤ uint64Max by omega), ok_bind,
      sub64_ok (Nat.le_of_lt hu'), ok_bind,
      add64_ok (show h.rTime + usage ≤ uint64Max by omega), ok_bind]
    simp only [hs1.head]
    exact ⟨sc3, hsched, hs3⟩
  · exact ⟨sc, rfl, hs⟩

/-- `merge_nonoverlapping_head_refill`. -/
theorem Holds.mergeNonoverlapping
    (hs : Holds sc max period sp (h :: b :: q)) (hi : QueueInv cfg max budget (h :: b :: q)) :
    ∃ sc', mergeNonoverlappingHeadRefill sc = .ok sc' ∧
      Holds sc' max period sp (⟨b.rTime - h.rAmount, b.rAmount + h.rAmount⟩ :: q) := by
  obtain ⟨sc1, hpop, hs1⟩ := hs.popHead
  have hord := (ordered_cons.mp hi.ordered).1
  unfold Refill.finish at hord
  have h1 := hi.amount_le (r := b) (by simp)
  have h2 := hi.amount_le (r := h) (by simp)
  have h3 := hp.budget_add_le
  have hs2 := hs1.setHead ⟨b.rTime, b.rAmount + h.rAmount⟩
  unfold mergeNonoverlappingHeadRefill
  simp only [hpop, ok_bind, hs1.head, add64_ok (show b.rAmount + h.rAmount ≤ uint64Max by omega),
    hs2.head, sub64_ok (show h.rAmount ≤ b.rTime by omega)]
  exact ⟨_, rfl, hs2.setHead _⟩

/-- The loop at the end of `refill_budget_check` computes `absorbSmall`. -/
theorem Holds.mergeInsufficient :
    ∀ {q : List Refill} {n : Nat} {sc : SchedContext} {h : Refill}, q.length ≤ n →
      Holds sc max period sp (h :: q) → QueueInv cfg max budget (h :: q) →
      ∃ sc', mergeInsufficient cfg n sc = .ok sc' ∧
        Holds sc' max period sp (absorbSmall cfg.minBudget h q)
  | [], n, sc, h, _, hs, hi => by
    have hsum := hi.sum
    have hmin := hp.min_le
    simp only [total_cons, total_nil, Nat.add_zero] at hsum
    have hf : headRefillInsufficient cfg sc = false := by
      unfold headRefillInsufficient
      rw [hs.head]
      exact decide_eq_false (by omega)
    refine ⟨sc, ?_, hs⟩
    cases n <;> (rw [Mcs.mergeInsufficient, hf]; rfl)
  | b :: q, 0, _, _, hn, _, _ => absurd hn (Nat.not_succ_le_zero _)
  | b :: q, n + 1, sc, h, hn, hs, hi => by
    rw [Mcs.mergeInsufficient, absorbSmall]
    unfold headRefillInsufficient
    rw [hs.head]
    simp only [decide_eq_true_eq]
    split_ifs with hc
    · obtain ⟨sc1, hm, hs1⟩ := hs.mergeNonoverlapping hp hi
      obtain ⟨sc2, hl, hs2⟩ := Holds.mergeInsufficient (Nat.le_of_succ_le_succ hn) hs1 (absorb_inv hi)
      exact ⟨sc2, by rw [hm]; exact hl, hs2⟩
    · exact ⟨sc, rfl, hs⟩

/-- **`refill_budget_check` computes `budgetCheckQueue`**, keeps the invariant and leaves a head
of at least the minimum budget, for every usage. -/
theorem Holds.budgetCheck (hs : Holds sc max period sp q) (hi : QueueInv cfg max budget q) (usage : Nat) :
    ∃ sc', refillBudgetCheck cfg sc usage = .ok sc' ∧
      Holds sc' max period sp (budgetCheckQueue cfg max period q usage) ∧
      QueueInv cfg max budget (budgetCheckQueue cfg max period q usage) ∧
      ∃ h' q', budgetCheckQueue cfg max period q usage = h' :: q' ∧ cfg.minBudget ≤ h'.rAmount := by
  obtain ⟨sc1, hov, hs1⟩ := Holds.overrun hp (Nat.lt_succ_self usage) hs hi
  obtain ⟨h, r, u, hr, hi1, hu⟩ := overrunQueue_inv hp (Nat.lt_succ_self usage) hi
  rw [hr] at hov hs1
  obtain ⟨sc2, hpc, hs2⟩ := hs1.chargePartial hp hi1 hu
  have hi2 := partialCharge_inv hp hi1 hu
  have hq : budgetCheckQueue cfg max period q usage =
      raiseHead cfg.minBudget (partialCharge cfg max period (h :: r) u) := by
    unfold budgetCheckQueue
    rw [hr]
  obtain ⟨h2, r2, hr2⟩ := List.exists_cons_of_ne_nil hi2.ne
  rw [hr2] at hs2 hi2 hq
  have hlen := hi2.len
  obtain ⟨sc3, hm, hs3⟩ := Holds.mergeInsufficient hp (n := sc2.scRefillMax)
    (by rw [hs2.max]; simp only [List.length_cons] at hlen; omega) hs2 hi2
  obtain ⟨hi3, hhead⟩ := absorbSmall_inv hp hi2
  rw [hq]
  refine ⟨sc3, ?_, hs3, hi3, hhead⟩
  unfold refillBudgetCheck
  rw [hs.not_roundRobin hp.budget_lt, hov]
  simp only [ok_bind]
  rw [hpc]
  exact hm

/-! ## Unblocking -/

/-- `merge_overlapping_head_refill`. -/
theorem Holds.mergeOverlap
    (hs : Holds sc max period sp (h :: b :: q)) (hi : HeadFree cfg max budget h (b :: q)) :
    ∃ sc', mergeOverlappingHeadRefill sc = .ok sc' ∧
      Holds sc' max period sp (⟨h.rTime, b.rAmount + h.rAmount⟩ :: q) := by
  obtain ⟨sc1, hpop, hs1⟩ := hs.popHead
  have hsum := hi.sum
  have hadd := hp.budget_add_le
  rw [total_cons] at hsum
  have hs2 := hs1.setHead ⟨h.rTime, b.rAmount⟩
  unfold mergeOverlappingHeadRefill
  simp only [hpop, ok_bind, hs1.head, hs2.head,
    add64_ok (show b.rAmount + h.rAmount ≤ uint64Max by omega)]
  exact ⟨_, rfl, hs2.setHead _⟩

theorem HeadFree.finish_le (hi : HeadFree cfg max budget h q) : h.rTime + h.rAmount ≤ uint64Max := by
  have h1 := hi.sum
  have h2 := hi.head_bound
  have h3 := cfg.maxReleaseTime_add
  have h4 := hp.budget_lt
  have h5 := hp.period_le
  omega

/-- The loop of `refill_unblock_check` computes `absorbOverlap`. -/
theorem Holds.mergeOverlapping :
    ∀ {q : List Refill} {n : Nat} {sc : SchedContext} {h : Refill}, q.length ≤ n →
      Holds sc max period sp (h :: q) → HeadFree cfg max budget h q →
      ∃ sc', mergeOverlapping n sc = .ok sc' ∧ Holds sc' max period sp (absorbOverlap h q)
  | [], n, sc, h, _, hs, _ => by
    have hf : refillHeadOverlapping sc = .ok false := by
      unfold refillHeadOverlapping
      rw [hs.single]
      rfl
    refine ⟨sc, ?_, hs⟩
    cases n <;> (rw [Mcs.mergeOverlapping, hf]; rfl)
  | b :: q, 0, _, _, hn, _, _ => absurd hn (Nat.not_succ_le_zero _)
  | b :: q, n + 1, sc, h, hn, hs, hi => by
    have hf : refillHeadOverlapping sc = .ok (decide (b.rTime ≤ h.finish)) := by
      unfold refillHeadOverlapping
      rw [hs.not_single]
      simp only [Bool.not_false, if_true, hs.head, hs.second, add64_ok (hi.finish_le hp), ok_bind]
      rfl
    rw [Mcs.mergeOverlapping, hf, ok_bind, absorbOverlap]
    simp only [decide_eq_true_eq]
    split_ifs with hc
    · obtain ⟨sc1, hm, hs1⟩ := hs.mergeOverlap hp hi
      obtain ⟨sc2, hl, hs2⟩ := Holds.mergeOverlapping (Nat.le_of_succ_le_succ hn) hs1 hi.absorb
      exact ⟨sc2, by rw [hm]; exact hl, hs2⟩
    · exact ⟨sc, rfl, hs⟩

include hs hi in
/-- **`refill_unblock_check` computes `unblockQueue`** and keeps the invariant. -/
theorem Holds.unblockCheck {now : Nat} (hmin : cfg.minBudget ≤ h.rAmount) (hnow : now < cfg.maxReleaseTime) :
    ∃ sc', refillUnblockCheck cfg now sc = .ok sc' ∧
      Holds sc' max period sp (unblockQueue now (h :: q)) ∧
      QueueInv cfg max budget (unblockQueue now (h :: q)) ∧
      ∃ h' q', unblockQueue now (h :: q) = h' :: q' ∧ cfg.minBudget ≤ h'.rAmount := by
  unfold refillUnblockCheck refillReady unblockQueue
  rw [hs.not_roundRobin hp.budget_lt, hs.head]
  simp only [Bool.false_eq_true, if_false, decide_eq_true_eq]
  split_ifs with hc
  · have hs1 := hs.setHead ⟨now, h.rAmount⟩
    have hf := hi.headFree hnow
    have hlen := hf.len
    obtain ⟨sc2, hm, hs2⟩ := Holds.mergeOverlapping hp
      (n := (setRefillHead sc ⟨now, h.rAmount⟩).scRefillMax)
      (by rw [hs1.max]; omega) hs1 hf
    obtain ⟨hi2, h', q', hq', -, hle⟩ := absorbOverlap_inv hf
    have hsuf : refillSufficient cfg sc2 0 = true := by
      rw [hq'] at hs2
      unfold refillSufficient refillCapacity
      rw [hs2.head]
      simp only at hle
      exact decide_eq_true (by simp only [Nat.not_lt_zero, gt_iff_lt, if_false]; omega)
    rw [hm, ok_bind, require_ok hsuf]
    exact ⟨sc2, rfl, hs2, hi2, h', q', hq', hmin.trans hle⟩
  · exact ⟨sc, rfl, hs, hi, h, q, rfl, hmin⟩

end

/-! ## Configuration -/

/-- A context whose indices are both 0 holds one refill. -/
theorem holds_singleton (sc : SchedContext) (hmax : 0 < sc.scRefillMax)
    (hh : sc.scRefillHead = 0) (ht : sc.scRefillTail = 0) :
    Holds sc sc.scRefillMax sc.scPeriod sc.scSporadic [sc.refills 0] := by
  refine ⟨⟨?_, ?_⟩, ?_, rfl, rfl, rfl⟩
  · show sc.scRefillHead < sc.scRefillMax
    rw [hh]
    exact hmax
  · show sc.scRefillTail < sc.scRefillMax
    rw [ht]
    exact hmax
  · have hsz : sc.ring.size = 1 := by
      unfold RingBuffer.size SchedContext.ring
      simp [hh, ht]
    show sc.ring.walk sc.ring.head sc.ring.size = _
    rw [hsz]
    show [sc.refills sc.scRefillHead] = _
    rw [hh]

/-- **`refill_new`** leaves one refill with the whole budget, available from now on. -/
theorem holds_refillNew (hp : Params cfg max period budget) (now : Nat) (sc : SchedContext) :
    ∃ sc', refillNew cfg now sc max budget period = .ok sc' ∧
      Holds sc' max period sc.scSporadic [⟨now, budget⟩] := by
  have hmax : 0 < max := by
    have := hp.refills
    unfold minRefills at this
    omega
  have hs := holds_singleton { sc with scPeriod := period, scRefillHead := 0, scRefillTail := 0,
                                       scRefillMax := max } hmax rfl rfl
  have hs1 := hs.setHead ⟨(sc.refills 0).rTime, budget⟩
  have hs2 := hs1.setHead ⟨now, budget⟩
  refine ⟨_, ?_, hs2⟩
  unfold refillNew
  simp only
  rw [require_ok (decide_eq_true hp.min_le)]
  exact hs2.maybeAddEmptyTail hp.budget_lt

section

variable (hs : Holds sc max period sp (h :: q))
include hs

/-- The cut list is the old head alone, in a buffer of the new size. -/
theorem Holds.truncate {max' : Nat} (period' : Nat)
    (hmax' : 0 < max') : Holds (truncateRefills sc period' max') max' period' sp [h] := by
  have hs1 := holds_singleton (truncateRefills sc period' max') hmax' rfl rfl
  have hcell : (truncateRefills sc period' max').refills 0 = h := by
    show Function.update sc.refills 0 (refillHead sc) 0 = h
    rw [Function.update_self, hs.head]
  have hsp : (truncateRefills sc period' max').scSporadic = sp := hs.sporadic
  rw [hcell, hsp] at hs1
  exact hs1

/-- A ready head moves to the current time. -/
theorem Holds.advanceReady (now : Nat) :
    Holds (advanceReadyHead now sc) max period sp
      (⟨if h.rTime ≤ now then now else h.rTime, h.rAmount⟩ :: q) := by
  unfold advanceReadyHead refillReady
  rw [hs.head]
  simp only [decide_eq_true_eq]
  split_ifs with hc
  · exact hs.setHead _
  · exact hs

/-- **`refill_update` computes `updateQueue`** and establishes the invariant for the new
configuration. -/
theorem Holds.refillUpdate {max' period' budget' now : Nat}
    (hi : QueueInv cfg max budget (h :: q)) (hmin : cfg.minBudget ≤ h.rAmount)
    (hp' : Params cfg max' period' budget') (hlt : h.rTime < cfg.maxReleaseTime)
    (hnow : now < cfg.maxReleaseTime) : ∃ sc', refillUpdate now sc period' budget' max' = .ok sc' ∧
      Holds sc' max' period' sp (updateQueue now period' budget' (h :: q)) ∧
      QueueInv cfg max' budget' (updateQueue now period' budget' (h :: q)) ∧
      ∃ h' q', updateQueue now period' budget' (h :: q) = h' :: q' ∧ cfg.minBudget ≤ h'.rAmount := by
  have hmax' : minRefills ≤ max' := hp'.refills
  unfold minRefills at hmax'
  have hcap : 0 < sc.scRefillMax := Nat.lt_of_le_of_lt (Nat.zero_le _) hs.wf.head_lt
  have hs1 := hs.truncate period' (show 0 < max' by omega)
  have htlt : (if h.rTime ≤ now then now else h.rTime) < cfg.maxReleaseTime := by
    split <;> assumption
  have hs2 := hs1.advanceReady now
  generalize ht : (if h.rTime ≤ now then now else h.rTime) = t at htlt hs2
  unfold Mcs.refillUpdate updateQueue
  simp only
  rw [require_ok (decide_eq_true hcap), hs2.head, ht]
  simp only
  split_ifs with hb
  · have hs3 := hs2.setHead ⟨t, budget'⟩
    exact ⟨_, hs3.maybeAddEmptyTail hp'.budget_lt, hs3, singleton_inv hp' htlt, _, _, rfl, hp'.min_le⟩
  · have h1 := hp'.period_le
    have h2 := cfg.maxReleaseTime_add
    rw [sub64_ok (show h.rAmount ≤ budget' by omega), ok_bind,
      add64_ok (show t + period' ≤ uint64Max by omega), ok_bind]
    obtain ⟨sc3, hadd, hs3⟩ := hs2.addTail (by simp only [List.length_singleton]; omega)
      ⟨t + period', budget' - h.rAmount⟩
    exact ⟨sc3, hadd, hs3, pair_inv hp' htlt (hi.pos h (.head _)) (by omega), _, _, rfl, hmin⟩

end

end SeL4.Mcs
