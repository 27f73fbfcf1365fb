import SeL4.Mcs.RefillRun
import Mathlib.Order.Interval.Finset.Nat

/-!
# Constant-bandwidth contexts: no window of one period sees more than the budget

A constant-bandwidth scheduling context (`scSporadic` false) is activated by
`refill_unblock_check` at a time when its head refill is ready, and then executes. Time is charged
in pieces with `refill_budget_check`, each piece at most the head refill. `ServerRun` is the set
of such runs, with the set of ticks at which the context executed as ghost state.

The invariant combines the past and the future. `supply q t` is what the refills of `q` let the
context execute before time `t`. For every window start `w`, the ticks executed from `w` on plus
the supply before `w + P` never exceed the budget. Executing `u` ticks from `t` on removes them
from the supply of the head and promises them again from `t + P` on, which is exactly what leaves
the window. Merging and delaying refills never add supply.

`maxReleaseTime` limits all of this: at a head released later than that `refill_budget_check`
charges nothing at all (`head_refill_overrun`), so the runs considered start their pieces below it.
`unbounded_run_exceeds_budget` shows what happens without that limit.
-/

namespace SeL4.Mcs

open SeL4.Lib

/-! ## Supply -/

/-- The ticks that `q` lets a context execute before time `t`. -/
def supply (q : List Refill) (t : Nat) : Nat := (q.map fun r => min r.rAmount (t - r.rTime)).sum

@[simp] theorem supply_nil (t : Nat) : supply [] t = 0 := rfl

@[simp] theorem supply_cons (h : Refill) (q : List Refill) (t : Nat) :
    supply (h :: q) t = min h.rAmount (t - h.rTime) + supply q t := by
  simp [supply]

/-- Supply is bounded by the amounts. -/
theorem supply_le_total (t : Nat) : ∀ q : List Refill, supply q t ≤ total q
  | [] => le_refl _
  | h :: q => by
    exact Nat.add_le_add (Nat.min_le_left _ _) (supply_le_total t q)

/-- Placing a refill adds at most its own supply. -/
theorem supply_place (full : Bool) (new : Refill) (t : Nat) :
    ∀ q : List Refill, supply (place full new q) t ≤ supply q t + min new.rAmount (t - new.rTime)
  | [] => by simp [place]
  | [a] => by
    unfold place Refill.finish
    split_ifs <;> simp only [supply_cons, supply_nil] <;> omega
  | a :: b :: q => by
    have ih := supply_place full new t (b :: q)
    rw [place, supply_cons a, supply_cons a]
    omega

/-- Charging the whole head promises it again one period later. -/
theorem supply_chargeHead (period : Nat) (h : Refill) (q : List Refill) (t : Nat) :
    supply (chargeHead period (h :: q)) t ≤
      supply q t + min h.rAmount (t - (h.rTime + period)) := by
  cases q with
  | nil => simp [chargeHead]
  | cons b q => exact supply_place false ⟨h.rTime + period, h.rAmount⟩ t (b :: q)

/-- Folding a small head into its successor does not add supply. -/
theorem supply_absorbSmall (min t : Nat) :
    ∀ {q : List Refill} {h : Refill}, Ordered (h :: q) →
      supply (absorbSmall min h q) t ≤ supply (h :: q) t
  | [], _, _ => le_refl _
  | b :: q, h, hord => by
    have hhb := (ordered_cons.mp hord).1
    unfold Refill.finish at hhb
    rw [absorbSmall]
    split_ifs with hc
    · have ih := supply_absorbSmall min t (ordered_fold hord)
      simp only [supply_cons] at ih ⊢
      omega
    · exact le_refl _

/-- Folding overlapping refills into the head does not add supply. -/
theorem supply_absorbOverlap (t : Nat) :
    ∀ (q : List Refill) (h : Refill), supply (absorbOverlap h q) t ≤ supply (h :: q) t
  | [], _ => le_refl _
  | b :: q, h => by
    rw [absorbOverlap]
    split_ifs with hc
    · have ih := supply_absorbOverlap t q ⟨h.rTime, b.rAmount + h.rAmount⟩
      unfold Refill.finish at hc
      simp only [supply_cons] at ih ⊢
      omega
    · exact le_refl _

/-- Unblocking does not add supply. -/
theorem supply_unblockQueue (now t : Nat) (h : Refill) (q : List Refill) :
    supply (unblockQueue now (h :: q)) t ≤ supply (h :: q) t := by
  rw [unblockQueue]
  split_ifs with hc
  · refine (supply_absorbOverlap t q _).trans ?_
    simp only [supply_cons]
    omega
  · exact le_refl _

/-! ## One charge of at most the head refill -/

/-- The head of a queue that was raised to the minimum is not earlier. -/
theorem absorbSmall_time (min : Nat) :
    ∀ {q : List Refill} {h : Refill}, Ordered (h :: q) →
      ∃ h' q', absorbSmall min h q = h' :: q' ∧ h.rTime ≤ h'.rTime
  | [], h, _ => ⟨h, [], rfl, le_refl _⟩
  | b :: q, h, hord => by
    have hhb := (ordered_cons.mp hord).1
    unfold Refill.finish at hhb
    rw [absorbSmall]
    split_ifs with hc
    · obtain ⟨h', q', he, hle⟩ := absorbSmall_time min (ordered_fold hord)
      refine ⟨h', q', he, ?_⟩
      simp only at hle
      omega
    · exact ⟨h, b :: q, rfl, le_refl _⟩

section Charge

variable {cfg : TimerConfig} {max period budget : Nat} {h : Refill} {q : List Refill} {u : Nat}
  (hp : Params cfg max period budget) (hi : QueueInv cfg max budget (h :: q))
  (hlt : h.rTime < cfg.maxReleaseTime) (hu : u ≤ h.rAmount)
include hp hi hlt hu

/-- The queue before the head is raised, when the usage is at most the head refill: the head has
been charged whole or in part. -/
theorem charged_queue :
    ∃ c r, budgetCheckQueue cfg max period (h :: q) u = absorbSmall cfg.minBudget c r ∧
      Ordered (c :: r) ∧ h.rTime + u ≤ c.rTime ∧ ∀ t, supply (c :: r) t + min u (t - h.rTime) ≤
        supply (h :: q) t + min u (t - (h.rTime + period)) := by
  have hpos := hi.pos h (.head _)
  have hbud : h.rAmount ≤ budget := by
    rw [← hi.sum]
    exact amount_le_total (.head _)
  have hper := hp.budget_lt
  unfold budgetCheckQueue
  by_cases hall : u = h.rAmount
  · -- the whole head: one round of the overrun loop, and nothing is left for a partial charge
    subst hall
    have hi1 := chargeHead_inv hp hi hlt
    obtain ⟨c, r, hc⟩ := List.exists_cons_of_ne_nil hi1.ne
    have hcpos := hi1.pos c (by rw [hc]; exact (.head _))
    have hov : overrunQueue cfg period (h.rAmount + 1) (h :: q) h.rAmount = (c :: r, 0) := by
      rw [overrunQueue, if_pos ⟨le_refl _, hlt⟩, hc, Nat.sub_self]
      obtain ⟨n, hn⟩ := Nat.exists_eq_succ_of_ne_zero (Nat.ne_of_gt hpos)
      rw [hn, overrunQueue, if_neg (by omega)]
    refine ⟨c, r, ?_, ?_, ?_, ?_⟩
    · rw [hov]
      simp only
      rfl
    · rw [← hc]
      exact hi1.ordered
    · cases q with
      | nil =>
        rw [← (List.cons.inj hc).1]
        simp only
        omega
      | cons b q =>
        rw [chargeHead] at hc
        obtain ⟨c', r', hc', hle⟩ := place_cons false ⟨h.rTime + period, h.rAmount⟩ b q
        rw [hc] at hc'
        have hfin := (ordered_cons.mp hi.ordered).1
        unfold Refill.finish at hfin
        rw [(List.cons.inj hc').1]
        omega
    · intro t
      have := supply_chargeHead period h q t
      rw [← hc, supply_cons h]
      omega
  · -- a part of the head
    have hult : u < h.rAmount := by omega
    have hov : overrunQueue cfg period (u + 1) (h :: q) u = (h :: q, u) := by
      rw [overrunQueue, if_neg (by omega)]
    rw [hov]
    simp only
    by_cases h0 : u > 0
    · have hcond : u > 0 ∧ h.rTime < cfg.maxReleaseTime := ⟨h0, hlt⟩
      have hi1 := partialCharge_inv hp hi (.inl hult)
      obtain ⟨c, r, hc, hle⟩ := place_cons (decide (q.length + 1 = max)) ⟨h.rTime + period, u⟩
        ⟨h.rTime + u, h.rAmount - u⟩ q
      have hpc : partialCharge cfg max period (h :: q) u = c :: r := by
        rw [partialCharge, if_pos hcond, hc]
      rw [hpc] at hi1 ⊢
      refine ⟨c, r, rfl, hi1.ordered, hle, fun t => ?_⟩
      have := supply_place (decide (q.length + 1 = max)) ⟨h.rTime + period, u⟩ t
        (⟨h.rTime + u, h.rAmount - u⟩ :: q)
      rw [hc, supply_cons ⟨h.rTime + u, h.rAmount - u⟩] at this
      rw [supply_cons h]
      simp only at this
      omega
    · rw [partialCharge, if_neg (by omega)]
      refine ⟨h, q, rfl, hi.ordered, by omega, fun t => ?_⟩
      omega

/-- **One charge.** Executing `u` ticks from the head's release time on takes them out of the
supply and promises them again one period later; the new head is released no earlier than the end
of the piece. -/
theorem budgetCheckQueue_supply :
    (∃ h' q', budgetCheckQueue cfg max period (h :: q) u = h' :: q' ∧ h.rTime + u ≤ h'.rTime) ∧
      ∀ t, supply (budgetCheckQueue cfg max period (h :: q) u) t + min u (t - h.rTime) ≤
        supply (h :: q) t + min u (t - (h.rTime + period)) := by
  obtain ⟨c, r, hq, hord, hle, hsup⟩ := charged_queue hp hi hlt hu
  rw [hq]
  obtain ⟨h', q', he, hle'⟩ := absorbSmall_time cfg.minBudget hord
  refine ⟨⟨h', q', he, hle.trans hle'⟩, fun t => ?_⟩
  have h1 := supply_absorbSmall cfg.minBudget t hord
  have h2 := hsup t
  omega

end Charge

/-! ## Runs -/

def scConstantBandwidth (sc : SchedContext) : Bool := !sc.scSporadic

/-- What `switchSchedContext` does to the scheduling context of the thread it switches to. -/
def switchSchedContext (cfg : TimerConfig) (now : Nat) (sc : SchedContext) : Checked SchedContext :=
  if scConstantBandwidth sc then refillUnblockCheck cfg now sc else pure sc

/-- Runs of a constant-bandwidth context with budget `B` and period `P`: its state, the current
time, whether it is executing, and the ticks at which it has executed. `live` restricts the times
at which a piece of execution may start. -/
inductive ServerRun (cfg : TimerConfig) (B P : Nat) (live : Nat → Prop) :
    SchedContext → Nat → Bool → Finset Nat → Prop
  | configure (sc₀ sc : SchedContext) (now max : Nat) (hsp : sc₀.scSporadic = false)
      (hp : Params cfg max P B) (hlive : live now)
      (hnew : refillNew cfg now sc₀ max B P = .ok sc) :
      ServerRun cfg B P live sc now false ∅
  | activate (sc sc' : SchedContext) (now t : Nat) (E : Finset Nat)
      (hrun : ServerRun cfg B P live sc now false E) (ht : now ≤ t) (hlive : live t)
      (hready : refillReady sc t = true) (hsw : switchSchedContext cfg t sc = .ok sc') :
      ServerRun cfg B P live sc' t true E
  | execute (sc sc' : SchedContext) (now u : Nat) (E : Finset Nat)
      (hrun : ServerRun cfg B P live sc now true E) (hlive : live now)
      (hready : refillReady sc now = true) (hu : u ≤ (refillHead sc).rAmount)
      (hch : refillBudgetCheck cfg sc u = .ok sc') :
      ServerRun cfg B P live sc' (now + u) true (E ∪ Finset.Ico now (now + u))
  | stop (sc : SchedContext) (now : Nat) (E : Finset Nat)
      (hrun : ServerRun cfg B P live sc now true E) :
      ServerRun cfg B P live sc now false E

/-- The number of ticks of `E` in the window `[w, w + P)`. -/
def ticksIn (E : Finset Nat) (w P : Nat) : Nat := (E.filter fun t => w ≤ t ∧ t < w + P).card

theorem ticksIn_empty (w P : Nat) : ticksIn ∅ w P = 0 := by
  simp [ticksIn]

/-- A piece of `u` ticks from `now` on adds to the window what lies in it. -/
theorem ticksIn_union_Ico (E : Finset Nat) (now u w P : Nat) :
    ticksIn (E ∪ Finset.Ico now (now + u)) w P ≤
      ticksIn E w P + (min u (w + P - now) - min u (w - now)) := by
  unfold ticksIn
  rw [Finset.filter_union]
  refine (Finset.card_union_le _ _).trans (Nat.add_le_add_left ?_ _)
  have hsub : (Finset.Ico now (now + u)).filter (fun t => w ≤ t ∧ t < w + P) ⊆
      Finset.Ico (now + min u (w - now)) (now + min u (w + P - now)) := by
    intro t ht
    simp only [Finset.mem_filter, Finset.mem_Ico] at ht ⊢
    omega
  refine (Finset.card_le_card hsub).trans ?_
  rw [Nat.card_Ico]
  omega

/-- The invariant of a run: the queue is well formed, an executing context is not behind its head
refill, and past execution and promised supply share the budget of every window. -/
def ServerInv (cfg : TimerConfig) (B P : Nat) (sc : SchedContext) (now : Nat) (running : Bool)
    (E : Finset Nat) : Prop :=
  ∃ max h q, Params cfg max P B ∧ Holds sc max P false (h :: q) ∧ QueueInv cfg max B (h :: q) ∧
    cfg.minBudget ≤ h.rAmount ∧ (running = true → now ≤ h.rTime) ∧
    ∀ w, ticksIn E w P + supply (h :: q) (w + P) ≤ B

section Invariant

variable {cfg : TimerConfig} {B P : Nat} {sc : SchedContext} {now : Nat} {running : Bool}
  {E : Finset Nat}

theorem ServerInv.activate (hi : ServerInv cfg B P sc now running E) {t : Nat}
    (ht : t < cfg.maxReleaseTime) (hready : refillReady sc t = true) :
    ∃ sc', switchSchedContext cfg t sc = .ok sc' ∧ ServerInv cfg B P sc' t true E := by
  obtain ⟨max, h, q, hp, hs, hq, hmin, -, hw⟩ := hi
  obtain ⟨sc', hrun, hs', hq', h', q', he, hmin'⟩ := hs.unblockCheck hp hq hmin ht
  have hhead : h.rTime ≤ t := by
    unfold refillReady at hready
    rw [hs.head] at hready
    exact of_decide_eq_true hready
  have htime : h'.rTime = t := by
    obtain ⟨-, h'', q'', he', htime, -⟩ := absorbOverlap_inv (hq.headFree ht)
    rw [unblockQueue, if_pos hhead] at he
    rw [he] at he'
    rw [(List.cons.inj he').1]
    exact htime
  have hsup := fun x => supply_unblockQueue t x h q
  rw [he] at hs' hq' hsup
  refine ⟨sc', ?_, max, h', q', hp, hs', hq', hmin', fun _ => by rw [htime], fun w => ?_⟩
  · unfold switchSchedContext scConstantBandwidth
    rw [hs.sporadic]
    exact hrun
  · have h1 := hw w
    have h2 := hsup (w + P)
    omega

theorem ServerInv.execute (hi : ServerInv cfg B P sc now true E) {u : Nat}
    (hnow : now < cfg.maxReleaseTime) (hready : refillReady sc now = true)
    (hu : u ≤ (refillHead sc).rAmount) : ∃ sc', refillBudgetCheck cfg sc u = .ok sc' ∧
      ServerInv cfg B P sc' (now + u) true (E ∪ Finset.Ico now (now + u)) := by
  obtain ⟨max, h, q, hp, hs, hq, -, hrt, hw⟩ := hi
  rw [hs.head] at hu
  have htime : h.rTime = now := by
    have h1 := hrt rfl
    unfold refillReady at hready
    rw [hs.head] at hready
    have h2 := of_decide_eq_true hready
    omega
  obtain ⟨sc', hrun, hs', hq', h', q', he, hmin'⟩ := hs.budgetCheck hp hq u
  obtain ⟨⟨h'', q'', he', hle⟩, hsup⟩ := budgetCheckQueue_supply hp hq (by rw [htime]; exact hnow) hu
  rw [he] at hs' hq' hsup he'
  refine ⟨sc', hrun, max, h', q', hp, hs', hq', hmin', fun _ => ?_, fun w => ?_⟩
  · rw [(List.cons.inj he').1, ← htime]
    exact hle
  · have h1 := hw w
    have h2 := hsup (w + P)
    have h3 := ticksIn_union_Ico E now u w P
    omega

/-- Every run keeps the invariant, as long as its pieces start below `MAX_RELEASE_TIME`. -/
theorem serverRun_inv (hr : ServerRun cfg B P (· < cfg.maxReleaseTime) sc now running E) :
    ServerInv cfg B P sc now running E := by
  induction hr with
  | configure sc₀ sc now max hsp hp hlive hnew =>
    obtain ⟨sc', hrun, hs⟩ := holds_refillNew hp now sc₀
    rw [hnew] at hrun
    rw [← Except.ok.inj hrun, hsp] at hs
    have hq := singleton_inv hp hlive
    refine ⟨max, _, _, hp, hs, hq, hp.min_le, fun h => absurd h Bool.false_ne_true, fun w => ?_⟩
    have := supply_le_total (w + P) [⟨now, B⟩]
    rw [hq.sum] at this
    rw [ticksIn_empty]
    omega
  | activate sc sc' now t E _ ht hlive hready hsw ih =>
    obtain ⟨sc'', hrun, hinv⟩ := ih.activate hlive hready
    rw [hsw] at hrun
    rwa [Except.ok.inj hrun]
  | execute sc sc' now u E _ hlive hready hu hch ih =>
    obtain ⟨sc'', hrun, hinv⟩ := ih.execute hlive hready hu
    rw [hch] at hrun
    rwa [Except.ok.inj hrun]
  | stop sc now E _ ih =>
    obtain ⟨max, h, q, hp, hs, hq, hmin, -, hw⟩ := ih
    exact ⟨max, h, q, hp, hs, hq, hmin, fun h => absurd h Bool.false_ne_true, hw⟩

/-- **Sliding-window bandwidth.** As long as every piece of execution starts below
`MAX_RELEASE_TIME`, a constant-bandwidth context with budget `B` and period `P` executes at most
`B` ticks in any window of length `P`; and no activation or charge of such a run faults. -/
theorem sliding_window_bandwidth (hr : ServerRun cfg B P (· < cfg.maxReleaseTime) sc now running E) :
    (∀ w, ticksIn E w P ≤ B) ∧
      (∀ t, t < cfg.maxReleaseTime → refillReady sc t = true →
        ∃ sc', switchSchedContext cfg t sc = .ok sc') ∧
      (running = true → now < cfg.maxReleaseTime → refillReady sc now = true →
        ∀ u, u ≤ (refillHead sc).rAmount → ∃ sc', refillBudgetCheck cfg sc u = .ok sc') := by
  have hi := serverRun_inv hr
  refine ⟨fun w => ?_, fun t ht hready => ?_, fun hrt hnow hready u hu => ?_⟩
  · obtain ⟨max, h, q, -, -, -, -, -, hw⟩ := hi
    have := hw w
    omega
  · obtain ⟨sc', hrun, -⟩ := hi.activate ht hready
    exact ⟨sc', hrun⟩
  · subst hrt
    obtain ⟨sc', hrun, -⟩ := hi.execute hnow hready hu
    exact ⟨sc', hrun⟩

end Invariant

/-! ## Beyond `MAX_RELEASE_TIME` -/

/-- The value of a computation that succeeds. -/
def okOr (d : SchedContext) : Checked SchedContext → SchedContext
  | .ok sc => sc
  | .error _ => d

/-- A context configured at time `now`. -/
def freshContext (now : Nat) : SchedContext :=
  okOr zeroSchedContext (refillNew rk3588 now zeroSchedContext 2 480 10000)

theorem sliding_window_bandwidth_sample :
    ∃ sc, ServerRun rk3588 480 10000 (· < rk3588.maxReleaseTime) sc 300 true
        (∅ ∪ Finset.Ico 100 300) ∧ ∀ w, ticksIn (∅ ∪ Finset.Ico 100 300) w 10000 ≤ 480 := by
  have hp : Params rk3588 2 10000 480 := ⟨by decide, by decide, by decide, by decide⟩
  have h0 : ServerRun rk3588 480 10000 (· < rk3588.maxReleaseTime) (freshContext 50) 50 false ∅ :=
    .configure zeroSchedContext _ 50 2 rfl hp (by decide) rfl
  obtain ⟨-, hact, -⟩ := sliding_window_bandwidth h0
  obtain ⟨sc₁, hsw⟩ := hact 100 (by decide) (by decide +kernel)
  have h1 := ServerRun.activate _ sc₁ 50 100 ∅ h0 (by decide) (by decide) (by decide +kernel) hsw
  have hsc₁ : sc₁ = okOr zeroSchedContext (switchSchedContext rk3588 100 (freshContext 50)) := by
    rw [hsw]
    rfl
  have hready : refillReady sc₁ 100 = true := by
    rw [hsc₁]
    decide +kernel
  have hu : 200 ≤ (refillHead sc₁).rAmount := by
    rw [hsc₁]
    decide +kernel
  obtain ⟨-, -, hex⟩ := sliding_window_bandwidth h1
  obtain ⟨sc₂, hch⟩ := hex rfl (by decide) hready 200 hu
  have h2 := ServerRun.execute sc₁ sc₂ 100 200 ∅ h1 (by decide) hready hu hch
  exact ⟨sc₂, h2, (sliding_window_bandwidth h2).1⟩

/-- Without the limit on start times the bound fails: from `MAX_RELEASE_TIME` on no charge has any
effect, so a context with 480 ticks in 10000 executes 960 ticks in a row. -/
theorem unbounded_run_exceeds_budget :
    ¬ ∀ sc now running E, ServerRun rk3588 480 10000 (fun _ => True) sc now running E →
      ∀ w, ticksIn E w 10000 ≤ 480 := by
  intro hall
  have hp : Params rk3588 2 10000 480 := ⟨by decide, by decide, by decide, by decide⟩
  have h0 : ServerRun rk3588 480 10000 (fun _ => True) (freshContext rk3588.maxReleaseTime)
      rk3588.maxReleaseTime false ∅ :=
    .configure zeroSchedContext _ _ 2 rfl hp trivial rfl
  have h1 := ServerRun.activate _ _ _ rk3588.maxReleaseTime ∅ h0 (le_refl _) trivial
    (by decide +kernel) rfl
  have h2 := ServerRun.execute _ _ _ 480 ∅ h1 trivial (by decide +kernel) (by decide +kernel) rfl
  have h3 := ServerRun.execute _ _ _ 480 _ h2 trivial (by decide +kernel) (by decide +kernel) rfl
  have hw := hall _ _ _ _ h3 rk3588.maxReleaseTime
  generalize rk3588.maxReleaseTime = m at hw
  unfold ticksIn at hw
  have hsub : Finset.Ico m (m + 960) ⊆
      (∅ ∪ Finset.Ico m (m + 480) ∪ Finset.Ico (m + 480) (m + 480 + 480)).filter
        fun t => m ≤ t ∧ t < m + 10000 := by
    intro t ht
    simp only [Finset.mem_filter, Finset.mem_union, Finset.mem_Ico, Finset.notMem_empty, false_or] at ht ⊢
    omega
  have hcard := Finset.card_le_card hsub
  rw [Nat.card_Ico] at hcard
  omega

end SeL4.Mcs
