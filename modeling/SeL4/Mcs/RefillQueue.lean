import SeL4.Mcs.Sporadic
import Mathlib.Data.List.Chain

/-!
# The refill queue as a list

What the refill operations are for, without the buffer: a non-empty list of refills in order of
release. `RefillRefine.lean` shows that the functions of `sporadic.c` compute exactly these
list functions.

* `place` puts a charged amount behind the last refill: merged into it when the two touch,
  appended when there is room, and otherwise merged by delaying the last refill.
* `chargeHead`, `overrunQueue` and `partialCharge` move used budget one period into the future.
* `absorbSmall` folds a head below the minimum budget into its successor, which keeps the end of
  the successor and so never makes budget available earlier.
* `absorbOverlap` folds refills that overlap the head into it.

`QueueInv` is the invariant of the queue, and each function is shown to keep it.
-/

namespace SeL4.Mcs

open SeL4.Lib

/-! ## The list functions -/

/-- `schedule_used` on a list: `full` says that there is no free slot. -/
def place (full : Bool) (new : Refill) : List Refill → List Refill
  | [] => [new]
  | [t] =>
    if new.rTime ≤ t.finish then [⟨t.rTime, t.rAmount + new.rAmount⟩]
    else if full then [⟨new.rTime - t.rAmount, t.rAmount + new.rAmount⟩]
    else [t, new]
  | a :: b :: q => a :: place full new (b :: q)

/-- `charge_entire_head_refill` on a list. -/
def chargeHead (period : Nat) : List Refill → List Refill
  | [] => []
  | [h] => [⟨h.rTime + period, h.rAmount⟩]
  | h :: b :: q => place false ⟨h.rTime + period, h.rAmount⟩ (b :: q)

/-- `handle_overrun` on a list: the queue and the usage left to charge. -/
def overrunQueue (cfg : TimerConfig) (period : Nat) : Nat → List Refill → Nat → List Refill × Nat
  | 0, q, usage => (q, usage)
  | _ + 1, [], usage => ([], usage)
  | n + 1, h :: q, usage =>
    if h.rAmount ≤ usage ∧ h.rTime < cfg.maxReleaseTime then
      overrunQueue cfg period n (chargeHead period (h :: q)) (usage - h.rAmount)
    else (h :: q, usage)

/-- The partial charge of `refill_budget_check` on a list of at most `max` refills. -/
def partialCharge (cfg : TimerConfig) (max period : Nat) : List Refill → Nat → List Refill
  | [], _ => []
  | h :: q, usage =>
    if usage > 0 ∧ h.rTime < cfg.maxReleaseTime then
      place (decide (q.length + 1 = max)) ⟨h.rTime + period, usage⟩
        (⟨h.rTime + usage, h.rAmount - usage⟩ :: q)
    else h :: q

/-- The `merge_nonoverlapping_head_refill` loop on a list with head `h`. -/
def absorbSmall (min : Nat) : Refill → List Refill → List Refill
  | h, [] => [h]
  | h, b :: q =>
    if h.rAmount < min then absorbSmall min ⟨b.rTime - h.rAmount, b.rAmount + h.rAmount⟩ q
    else h :: b :: q

/-- The `merge_overlapping_head_refill` loop on a list with head `h`. -/
def absorbOverlap : Refill → List Refill → List Refill
  | h, [] => [h]
  | h, b :: q =>
    if b.rTime ≤ h.finish then absorbOverlap ⟨h.rTime, b.rAmount + h.rAmount⟩ q
    else h :: b :: q

/-- Raise a head below the minimum budget. -/
def raiseHead (min : Nat) : List Refill → List Refill
  | [] => []
  | h :: q => absorbSmall min h q

/-- `refill_budget_check` on a list. -/
def budgetCheckQueue (cfg : TimerConfig) (max period : Nat) (q : List Refill) (usage : Nat) :
    List Refill :=
  let r := overrunQueue cfg period (usage + 1) q usage
  raiseHead cfg.minBudget (partialCharge cfg max period r.1 r.2)

/-- `refill_unblock_check` on a list. -/
def unblockQueue (now : Nat) : List Refill → List Refill
  | [] => []
  | h :: q => if h.rTime ≤ now then absorbOverlap ⟨now, h.rAmount⟩ q else h :: q

/-- `refill_update` on a list. -/
def updateQueue (now period budget : Nat) : List Refill → List Refill
  | [] => []
  | h :: _ =>
    let t := if h.rTime ≤ now then now else h.rTime
    if budget ≤ h.rAmount then [⟨t, budget⟩]
    else [⟨t, h.rAmount⟩, ⟨t + period, budget - h.rAmount⟩]

/-! ## The invariant -/

/-- Each refill ends before the next one is released. -/
def Ordered (q : List Refill) : Prop := q.IsChain fun a b => a.finish ≤ b.rTime

/-- The budget held by a queue. -/
def total (q : List Refill) : Nat := (q.map Refill.rAmount).sum

/-- A configuration that the code accepts for a scheduling context that is not round robin. -/
structure Params (cfg : TimerConfig) (max period budget : Nat) : Prop where
  min_le : cfg.minBudget ≤ budget
  budget_lt : budget < period
  period_le : period ≤ cfg.maxPeriod
  refills : minRefills ≤ max

/-- The queue invariant between two rounds of a loop. `bound` is the time up to which a refill may
be scheduled: one period after the last time at which the code still charges. -/
structure QueueInv (cfg : TimerConfig) (max budget : Nat) (q : List Refill) : Prop where
  ne : q ≠ []
  len : q.length ≤ max
  ordered : Ordered q
  sum : total q = budget
  pos : ∀ r ∈ q, 0 < r.rAmount
  bound : ∀ r ∈ q, r.rTime ≤ cfg.maxReleaseTime + cfg.maxPeriod

@[simp] theorem total_nil : total [] = 0 := rfl

@[simp] theorem total_cons (h : Refill) (q : List Refill) : total (h :: q) = h.rAmount + total q := by
  simp [total]

theorem amount_le_total {r : Refill} : ∀ {q : List Refill}, r ∈ q → r.rAmount ≤ total q
  | a :: q, h => by
    rcases List.mem_cons.mp h with rfl | h
    · exact Nat.le_add_right _ _
    · exact (amount_le_total h).trans (Nat.le_add_left _ _)

variable {q : List Refill} {a : Refill}

theorem ordered_cons {b : Refill} : Ordered (a :: b :: q) ↔ a.finish ≤ b.rTime ∧ Ordered (b :: q) := by
  unfold Ordered
  rw [List.isChain_cons_cons]

theorem ordered_singleton (a : Refill) : Ordered [a] := .singleton a

theorem ordered_tail (h : Ordered (a :: q)) : Ordered q := by
  cases q with
  | nil => exact .nil
  | cons b q => exact (ordered_cons.mp h).2

/-- The head may be replaced by a refill that ends no later. -/
theorem ordered_head {a' : Refill} (h : Ordered (a :: q))
    (hle : a'.finish ≤ a.finish) : Ordered (a' :: q) := by
  cases q with
  | nil => exact ordered_singleton a'
  | cons b q => exact ordered_cons.mpr ⟨hle.trans (ordered_cons.mp h).1, (ordered_cons.mp h).2⟩

/-- A head may be folded into its successor. -/
theorem ordered_fold {b : Refill} (h : Ordered (a :: b :: q)) :
    Ordered (⟨b.rTime - a.rAmount, b.rAmount + a.rAmount⟩ :: q) := by
  obtain ⟨hab, hq⟩ := ordered_cons.mp h
  refine ordered_head hq ?_
  unfold Refill.finish at hab ⊢
  simp only
  omega

/-! ## Placing a refill -/

section Place

variable (full : Bool) (new : Refill)

/-- The first refill of the result is not earlier than the first refill before. -/
theorem place_cons (b : Refill) :
    ∀ q, ∃ c q', place full new (b :: q) = c :: q' ∧ b.rTime ≤ c.rTime
  | [] => by
    unfold place
    split_ifs with h1 h2
    · exact ⟨_, _, rfl, le_refl _⟩
    · refine ⟨_, _, rfl, ?_⟩
      unfold Refill.finish at h1
      simp only
      omega
    · exact ⟨_, _, rfl, le_refl _⟩
  | _ :: _ => ⟨_, _, rfl, le_refl _⟩

theorem place_ne_nil (q : List Refill) : place full new q ≠ [] := by
  cases q with
  | nil => exact List.cons_ne_nil _ _
  | cons b q =>
    obtain ⟨c, q', h, -⟩ := place_cons full new b q
    rw [h]
    exact List.cons_ne_nil _ _

theorem ordered_place : ∀ {q : List Refill}, Ordered q → Ordered (place full new q)
  | [], _ => ordered_singleton _
  | [t], _ => by
    unfold place
    split_ifs with h1 h2
    · exact ordered_singleton _
    · exact ordered_singleton _
    · exact ordered_cons.mpr ⟨by omega, ordered_singleton _⟩
  | a :: b :: q, h => by
    obtain ⟨hab, hq⟩ := ordered_cons.mp h
    have ih := ordered_place hq
    obtain ⟨c, q', hc, hbc⟩ := place_cons full new b q
    rw [place, hc]
    rw [hc] at ih
    exact ordered_cons.mpr ⟨hab.trans hbc, ih⟩

theorem total_place : ∀ q : List Refill, total (place full new q) = total q + new.rAmount
  | [] => by simp [place]
  | [t] => by
    unfold place
    split_ifs <;> simp
  | a :: b :: q => by
    rw [place, total_cons, total_place (b :: q), total_cons a, Nat.add_assoc]

/-- A property of refills survives `place` when the merged refills have it. -/
theorem forall_mem_place {P : Refill → Prop} (hnew : P new)
    (hmerge : ∀ t : Refill, P t → P ⟨t.rTime, t.rAmount + new.rAmount⟩)
    (hdelay : full = true → ∀ t : Refill, P t → P ⟨new.rTime - t.rAmount, t.rAmount + new.rAmount⟩) :
    ∀ {q : List Refill}, (∀ r ∈ q, P r) → ∀ r ∈ place full new q, P r
  | [], _, r, hr => by
    rw [place, List.mem_singleton] at hr
    rwa [hr]
  | [t], h, r, hr => by
    have ht := h t (.head _)
    unfold place at hr
    split_ifs at hr with hm hf
    · rw [List.mem_singleton] at hr
      rw [hr]
      exact hmerge t ht
    · rw [List.mem_singleton] at hr
      rw [hr]
      exact hdelay hf t ht
    · rcases List.mem_cons.mp hr with rfl | hr
      · exact ht
      · rw [List.mem_singleton] at hr
        rwa [hr]
  | a :: b :: q, h, r, hr => by
    rcases List.mem_cons.mp hr with rfl | hr
    · exact h r (.head _)
    · exact forall_mem_place hnew hmerge hdelay (fun r hr => h r (.tail a hr)) r hr

/-- Placing adds at most one refill, and none to a full queue. -/
theorem length_place : ∀ {q : List Refill}, q ≠ [] →
    (place full new q).length ≤ if full then q.length else q.length + 1
  | [], h => absurd rfl h
  | [t], _ => by
    unfold place
    split_ifs <;> simp_all
  | a :: b :: q, _ => by
    have ih := length_place (q := b :: q) (List.cons_ne_nil _ _)
    rw [place]
    split_ifs at ih ⊢ <;> simp only [List.length_cons] at ih ⊢ <;> omega

end Place

/-! ## The invariant through charging -/

section Charging

variable {cfg : TimerConfig} {max period budget : Nat}

variable {h : Refill}

/-- The queue with its first refill put back one period later. -/
theorem chargeHead_inv (hp : Params cfg max period budget)
    (hi : QueueInv cfg max budget (h :: q)) (hlt : h.rTime < cfg.maxReleaseTime) :
    QueueInv cfg max budget (chargeHead period (h :: q)) := by
  have hper := hp.period_le
  have hpos := hi.pos h (.head _)
  cases q with
  | nil =>
    refine ⟨List.cons_ne_nil _ _, hi.len, ordered_singleton _, hi.sum, ?_, ?_⟩
    · intro r hr
      rw [chargeHead, List.mem_singleton] at hr
      rwa [hr]
    · intro r hr
      rw [chargeHead, List.mem_singleton] at hr
      rw [hr]
      simp only
      omega
  | cons b q =>
    have hlen := hi.len
    have hbound := hi.bound
    have hsum := hi.sum
    refine ⟨place_ne_nil _ _ _, ?_, ordered_place _ _ (ordered_tail hi.ordered), ?_, ?_, ?_⟩
    · have := length_place false ⟨h.rTime + period, h.rAmount⟩ (List.cons_ne_nil b q)
      simp only [Bool.false_eq_true, if_false, List.length_cons] at this hlen
      rw [chargeHead]
      omega
    · rw [chargeHead, total_place, ← hsum]
      exact Nat.add_comm _ _
    · exact forall_mem_place _ _ hpos (fun t ht => Nat.add_pos_left ht _)
        (fun _ t ht => Nat.add_pos_left ht _) fun r hr => hi.pos r (.tail h hr)
    · refine forall_mem_place false _ ?_ (fun t ht => ht) nofun fun r hr => hbound r (.tail h hr)
      simp only
      omega

/-- `overrunQueue` keeps the invariant, and stops at a head that the usage does not exhaust or
that lies too late to be charged. -/
theorem overrunQueue_inv (hp : Params cfg max period budget) :
    ∀ {n usage : Nat} {q : List Refill}, usage < n → QueueInv cfg max budget q →
      ∃ h q' u, overrunQueue cfg period n q usage = (h :: q', u) ∧
        QueueInv cfg max budget (h :: q') ∧
        (u < h.rAmount ∨ cfg.maxReleaseTime ≤ h.rTime)
  | 0, _, _, hn, _ => absurd hn (Nat.not_lt_zero _)
  | _ + 1, _, [], _, hi => absurd rfl hi.ne
  | n + 1, usage, h :: q, hn, hi => by
    have hpos := hi.pos h (.head _)
    rw [overrunQueue]
    split_ifs with hc
    · exact overrunQueue_inv hp (by omega) (chargeHead_inv hp hi hc.2)
    · exact ⟨h, q, usage, rfl, hi, by omega⟩

theorem partialCharge_inv (hp : Params cfg max period budget)
    {usage : Nat} (hi : QueueInv cfg max budget (h :: q))
    (hu : usage < h.rAmount ∨ cfg.maxReleaseTime ≤ h.rTime) :
    QueueInv cfg max budget (partialCharge cfg max period (h :: q) usage) := by
  have hper := hp.period_le
  have hlt := hp.budget_lt
  have hmem := amount_le_total (List.mem_cons_self (a := h) (l := q))
  rw [partialCharge]
  split_ifs with hc
  · have hu' : usage < h.rAmount := by omega
    have hlen := hi.len
    have hsum := hi.sum
    have hbound := hi.bound
    have hhead : Ordered (⟨h.rTime + usage, h.rAmount - usage⟩ :: q) := by
      refine ordered_head hi.ordered ?_
      unfold Refill.finish
      simp only
      omega
    refine ⟨place_ne_nil _ _ _, ?_, ordered_place _ _ hhead, ?_, ?_, ?_⟩
    · have := length_place (decide (q.length + 1 = max)) ⟨h.rTime + period, usage⟩
        (List.cons_ne_nil (⟨h.rTime + usage, h.rAmount - usage⟩ : Refill) q)
      simp only [decide_eq_true_eq, List.length_cons] at this hlen
      split_ifs at this <;> omega
    · rw [total_place, total_cons]
      rw [total_cons] at hsum
      simp only
      omega
    · refine forall_mem_place _ _ hc.1 (fun t ht => Nat.add_pos_left ht _)
        (fun _ t ht => Nat.add_pos_left ht _) fun r hr => ?_
      rcases List.mem_cons.mp hr with rfl | hr
      · exact Nat.sub_pos_of_lt hu'
      · exact hi.pos r (List.mem_cons_of_mem h hr)
    · refine forall_mem_place _ _ ?_ (fun t ht => ht) (fun _ t ht => ?_) fun r hr => ?_
      · simp only
        omega
      · simp only
        omega
      · rcases List.mem_cons.mp hr with rfl | hr
        · simp only
          omega
        · exact hbound r (List.mem_cons_of_mem h hr)
  · exact hi

/-- Folding a small head into its successor keeps the invariant. -/
theorem absorb_inv {b : Refill} (hi : QueueInv cfg max budget (h :: b :: q)) :
    QueueInv cfg max budget (⟨b.rTime - h.rAmount, b.rAmount + h.rAmount⟩ :: q) := by
  have hlen := hi.len
  have hsum := hi.sum
  have hbound := hi.bound b (by simp)
  have hpos := hi.pos b (by simp)
  refine ⟨List.cons_ne_nil _ _, ?_, ordered_fold hi.ordered, ?_, ?_, ?_⟩
  · simp only [List.length_cons] at hlen ⊢
    omega
  · rw [total_cons, total_cons] at hsum
    rw [total_cons]
    simp only
    omega
  · intro r hr
    rcases List.mem_cons.mp hr with rfl | hr
    · exact Nat.add_pos_left hpos _
    · exact hi.pos r (by simp [hr])
  · intro r hr
    rcases List.mem_cons.mp hr with rfl | hr
    · simp only
      omega
    · exact hi.bound r (by simp [hr])

/-- `absorbSmall` keeps the invariant and leaves a head of at least the minimum budget, since a
single refill holds the whole budget. -/
theorem absorbSmall_inv (hp : Params cfg max period budget) :
    ∀ {q : List Refill} {h : Refill}, QueueInv cfg max budget (h :: q) →
      QueueInv cfg max budget (absorbSmall cfg.minBudget h q) ∧
        ∃ h' q', absorbSmall cfg.minBudget h q = h' :: q' ∧ cfg.minBudget ≤ h'.rAmount
  | [], h, hi => by
    have hsum := hi.sum
    simp only [total_cons, total_nil, Nat.add_zero] at hsum
    exact ⟨hi, h, [], rfl, by rw [hsum]; exact hp.min_le⟩
  | b :: q, h, hi => by
    rw [absorbSmall]
    split_ifs with hc
    · exact absorbSmall_inv hp (absorb_inv hi)
    · exact ⟨hi, h, b :: q, rfl, by omega⟩

end Charging

/-! ## The invariant through unblocking and updating -/

section Unblocking

variable {cfg : TimerConfig} {max budget : Nat}

/-- The part of the invariant that survives moving the head to the current time: the order from
the second refill on. -/
structure HeadFree (cfg : TimerConfig) (max budget : Nat) (h : Refill) (q : List Refill) :
    Prop where
  len : q.length + 1 ≤ max
  ordered : Ordered q
  sum : h.rAmount + total q = budget
  head_pos : 0 < h.rAmount
  pos : ∀ r ∈ q, 0 < r.rAmount
  head_bound : h.rTime < cfg.maxReleaseTime
  bound : ∀ r ∈ q, r.rTime ≤ cfg.maxReleaseTime + cfg.maxPeriod

variable {h : Refill}

/-- Folding the second refill into the head. -/
theorem HeadFree.absorb {b : Refill} (hi : HeadFree cfg max budget h (b :: q)) :
    HeadFree cfg max budget ⟨h.rTime, b.rAmount + h.rAmount⟩ q := by
  have hlen := hi.len
  have hsum := hi.sum
  rw [total_cons] at hsum
  refine ⟨?_, ordered_tail hi.ordered, ?_, Nat.add_pos_right _ hi.head_pos,
    fun r hr => hi.pos r (.tail b hr), hi.head_bound,
    fun r hr => hi.bound r (.tail b hr)⟩
  · simp only [List.length_cons] at hlen
    omega
  · simp only
    omega

/-- Once the head ends before the second refill the whole invariant holds. -/
theorem HeadFree.queueInv (hi : HeadFree cfg max budget h q)
    (hord : Ordered (h :: q)) : QueueInv cfg max budget (h :: q) := by
  have hb := hi.head_bound
  refine ⟨List.cons_ne_nil _ _, hi.len, hord, hi.sum, ?_, ?_⟩
  · intro r hr
    rcases List.mem_cons.mp hr with rfl | hr
    · exact hi.head_pos
    · exact hi.pos r hr
  · intro r hr
    rcases List.mem_cons.mp hr with rfl | hr
    · omega
    · exact hi.bound r hr

/-- `absorbOverlap` restores the invariant and does not shrink the head. -/
theorem absorbOverlap_inv :
    ∀ {q : List Refill} {h : Refill}, HeadFree cfg max budget h q →
      QueueInv cfg max budget (absorbOverlap h q) ∧
        ∃ h' q', absorbOverlap h q = h' :: q' ∧ h'.rTime = h.rTime ∧ h.rAmount ≤ h'.rAmount
  | [], h, hi => ⟨hi.queueInv (ordered_singleton h), h, [], rfl, rfl, le_refl _⟩
  | b :: q, h, hi => by
    rw [absorbOverlap]
    split_ifs with hc
    · obtain ⟨h1, h', q', h2, h3, h4⟩ := absorbOverlap_inv hi.absorb
      refine ⟨h1, h', q', h2, h3, ?_⟩
      simp only at h4
      omega
    · exact ⟨hi.queueInv (ordered_cons.mpr ⟨by omega, hi.ordered⟩), h, b :: q, rfl, rfl, le_refl _⟩

/-- Moving the head of a queue to the current time. -/
theorem QueueInv.headFree {now : Nat}
    (hi : QueueInv cfg max budget (h :: q)) (hnow : now < cfg.maxReleaseTime) :
    HeadFree cfg max budget ⟨now, h.rAmount⟩ q where
  len := hi.len
  ordered := ordered_tail hi.ordered
  sum := by rw [← hi.sum, total_cons]
  head_pos := hi.pos h (.head _)
  pos r hr := hi.pos r (.tail h hr)
  head_bound := hnow
  bound r hr := hi.bound r (.tail h hr)

/-- A single refill that holds the whole budget. -/
theorem singleton_inv {t period : Nat} (hp : Params cfg max period budget)
    (ht : t < cfg.maxReleaseTime) : QueueInv cfg max budget [⟨t, budget⟩] := by
  have h1 := hp.min_le
  have h2 := cfg.minBudget_pos
  have h3 := hp.refills
  unfold minRefills at h3
  refine ⟨List.cons_ne_nil _ _, ?_, ordered_singleton _, by simp, ?_, ?_⟩
  · simp only [List.length_singleton]
    omega
  · intro r hr
    rw [List.mem_singleton] at hr
    rw [hr]
    simp only
    omega
  · intro r hr
    rw [List.mem_singleton] at hr
    rw [hr]
    simp only
    omega

/-- A head of less than the new budget, with the rest one period later. -/
theorem pair_inv {t period a : Nat} (hp : Params cfg max period budget)
    (ht : t < cfg.maxReleaseTime) (ha : 0 < a) (hab : a < budget) :
    QueueInv cfg max budget [⟨t, a⟩, ⟨t + period, budget - a⟩] := by
  have h1 := hp.budget_lt
  have h2 := hp.period_le
  have h3 := hp.refills
  refine ⟨List.cons_ne_nil _ _, h3, ?_, ?_, ?_, ?_⟩
  · refine ordered_cons.mpr ⟨?_, ordered_singleton _⟩
    unfold Refill.finish
    simp only
    omega
  · simp only [total_cons, total_nil]
    omega
  · intro r hr
    simp only [List.mem_cons, List.not_mem_nil, or_false] at hr
    rcases hr with rfl | rfl
    · exact ha
    · exact Nat.sub_pos_of_lt hab
  · intro r hr
    simp only [List.mem_cons, List.not_mem_nil, or_false] at hr
    rcases hr with rfl | rfl <;> simp only <;> omega

end Unblocking

end SeL4.Mcs
