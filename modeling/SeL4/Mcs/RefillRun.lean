import SeL4.Mcs.RefillRefine

/-!
# The refill queue over whole runs

A run configures a scheduling context with `refill_new` and then applies any sequence of
`refill_new`, `refill_update`, `refill_budget_check` and `refill_unblock_check`.
`refill_queue_invariant`: no operation of the run faults, and after it the buffer is a well-formed
queue that is ordered, holds exactly the budget configured last, and has at least `MIN_BUDGET` in
its head.

Two assumptions describe the run. Every configuration is one that
`decodeSchedControl_ConfigureFlags` lets through for a context that is not round robin (`Params`),
and release times stay below `MAX_RELEASE_TIME`: those stored in the queue (`releasesBelow`) and
the clock values an operation reads, which it stores as a release time. The clock values need not
be non-decreasing.
-/

namespace SeL4.Mcs

open SeL4.Lib

/-- One operation on a scheduling context. `now` is the `ksCurTime` that it reads. -/
inductive RefillOp
  | new (now maxRefills budget period : Nat)
  | update (now newPeriod newBudget newMaxRefills : Nat)
  | budgetCheck (usage : Nat)
  | unblockCheck (now : Nat)
  deriving DecidableEq, Repr

namespace RefillOp

/-- Run one operation. -/
def apply (cfg : TimerConfig) : RefillOp → SchedContext → Checked SchedContext
  | new now maxRefills budget period, sc => refillNew cfg now sc maxRefills budget period
  | update now newPeriod newBudget newMaxRefills, sc =>
    refillUpdate now sc newPeriod newBudget newMaxRefills
  | budgetCheck usage, sc => refillBudgetCheck cfg sc usage
  | unblockCheck now, sc => refillUnblockCheck cfg now sc

/-- The budget configured after the operation, when `budget` was configured before. -/
def configured : RefillOp → Nat → Nat
  | new _ _ budget _, _ => budget
  | update _ _ newBudget _, _ => newBudget
  | budgetCheck _, budget => budget
  | unblockCheck _, budget => budget

/-- A configuration in range, and a clock value below `MAX_RELEASE_TIME`. -/
def Admissible (cfg : TimerConfig) : RefillOp → Prop
  | new now maxRefills budget period =>
    Params cfg maxRefills period budget ∧ now < cfg.maxReleaseTime
  | update now newPeriod newBudget newMaxRefills =>
    Params cfg newMaxRefills newPeriod newBudget ∧ now < cfg.maxReleaseTime
  | budgetCheck _ => True
  | unblockCheck now => now < cfg.maxReleaseTime

end RefillOp

/-- Run a sequence of operations. -/
def runOps (cfg : TimerConfig) : List RefillOp → SchedContext → Checked SchedContext
  | [], sc => pure sc
  | op :: ops, sc => do
    let sc ← op.apply cfg sc
    runOps cfg ops sc

/-- The budget configured last in a sequence of operations. -/
def lastBudget : List RefillOp → Nat → Nat
  | [], budget => budget
  | op :: ops, budget => lastBudget ops (op.configured budget)

/-- Every release time stored in the queue lies below `MAX_RELEASE_TIME`. -/
def queueBelow (cfg : TimerConfig) (sc : SchedContext) : Bool :=
  sc.queue.all fun r => decide (r.rTime < cfg.maxReleaseTime)

/-- Release times stay below `MAX_RELEASE_TIME` in every state that the run passes. -/
def releasesBelow (cfg : TimerConfig) : List RefillOp → SchedContext → Bool
  | [], sc => queueBelow cfg sc
  | op :: ops, sc =>
    queueBelow cfg sc &&
      match op.apply cfg sc with
      | .ok sc' => releasesBelow cfg ops sc'
      | .error _ => true

/-- What holds of a scheduling context after every operation. -/
structure RefillInv (cfg : TimerConfig) (sc : SchedContext) (budget : Nat) : Prop where
  head_lt : sc.scRefillHead < sc.scRefillMax
  tail_lt : sc.scRefillTail < sc.scRefillMax
  size_pos : 1 ≤ refillSize sc
  size_le : refillSize sc ≤ sc.scRefillMax
  /-- From head to tail each refill ends before the next is released. -/
  ordered : sc.queue.IsChain fun a b => a.rTime + a.rAmount ≤ b.rTime
  /-- Charging and merging neither create nor lose budget. -/
  sum : (sc.queue.map Refill.rAmount).sum = budget
  head_min : cfg.minBudget ≤ (refillHead sc).rAmount

/-- The inductive form of `RefillInv`: the context holds a queue that satisfies `QueueInv`, for
some configuration in range. -/
def Configured (cfg : TimerConfig) (sc : SchedContext) (budget : Nat) : Prop :=
  ∃ max period sp h q, Params cfg max period budget ∧ Holds sc max period sp (h :: q) ∧
    QueueInv cfg max budget (h :: q) ∧ cfg.minBudget ≤ h.rAmount

variable {cfg : TimerConfig} {sc : SchedContext} {budget : Nat}

section

variable (hc : Configured cfg sc budget)
include hc

theorem Configured.refillInv : RefillInv cfg sc budget := by
  obtain ⟨max, period, sp, h, q, -, hs, hi, hmin⟩ := hc
  have hsize : refillSize sc = (h :: q).length := hs.size
  refine ⟨hs.wf.head_lt, hs.wf.tail_lt, ?_, ?_, ?_, ?_, ?_⟩
  · rw [hsize]
    exact Nat.succ_le_succ (Nat.zero_le _)
  · rw [hsize, hs.max]
    exact hi.len
  · rw [hs.queue]
    exact hi.ordered
  · rw [hs.queue]
    exact hi.sum
  · rw [hs.head]
    exact hmin

/-- A refill that is ready stays ready, and large enough, over `refill_unblock_check`. -/
theorem Configured.unblockCheck_ready {now : Nat}
    (hnow : now < cfg.maxReleaseTime) (hr : refillReady sc now = true) :
    ∃ sc', refillUnblockCheck cfg now sc = .ok sc' ∧ refillReady sc' now = true ∧
      refillSufficient cfg sc' 0 = true := by
  obtain ⟨max, period, sp, h, q, hp, hs, hi, hmin⟩ := hc
  obtain ⟨sc', hrun, hs', -, h', q', hq', hmin'⟩ := hs.unblockCheck hp hi hmin hnow
  have hready : h.rTime ≤ now := by
    unfold refillReady at hr
    rwa [hs.head, decide_eq_true_iff] at hr
  -- the head now starts at `now`, whatever was merged into it
  have htime : h'.rTime = now := by
    obtain ⟨-, h2, q2, heq, ht, -⟩ := absorbOverlap_inv (hi.headFree hnow)
    rw [unblockQueue, if_pos hready, heq] at hq'
    cases hq'
    exact ht
  rw [hq'] at hs'
  refine ⟨sc', hrun, ?_, ?_⟩
  · unfold refillReady
    rw [hs'.head, htime, decide_eq_true_iff]
  · unfold refillSufficient refillCapacity
    rw [hs'.head]
    exact decide_eq_true hmin'

omit hc in
/-- `refill_new` configures any context. -/
theorem configured_new (cfg : TimerConfig) (sc : SchedContext) {now max budget period : Nat}
    (h : (RefillOp.new now max budget period).Admissible cfg) :
    ∃ sc', refillNew cfg now sc max budget period = .ok sc' ∧ Configured cfg sc' budget := by
  obtain ⟨hp, hnow⟩ := h
  obtain ⟨sc', hrun, hs⟩ := holds_refillNew hp now sc
  exact ⟨sc', hrun, max, period, _, _, _, hp, hs, singleton_inv hp hnow, hp.min_le⟩

/-- **One step**: an admissible operation on a configured context succeeds and leaves it
configured. -/
theorem Configured.apply (hb : queueBelow cfg sc = true)
    {op : RefillOp} (hop : op.Admissible cfg) :
    ∃ sc', op.apply cfg sc = .ok sc' ∧ Configured cfg sc' (op.configured budget) := by
  obtain ⟨max, period, sp, h, q, hp, hs, hi, hmin⟩ := hc
  cases op with
  | new now max' budget' period' => exact configured_new cfg sc hop
  | update now period' budget' max' =>
    obtain ⟨hp', hnow⟩ := hop
    have hlt : h.rTime < cfg.maxReleaseTime := by
      unfold queueBelow at hb
      rw [hs.queue] at hb
      simp only [List.all_cons, Bool.and_eq_true, decide_eq_true_eq] at hb
      exact hb.1
    obtain ⟨sc', hrun, hs', hi', h', q', hq', hmin'⟩ := hs.refillUpdate hi hmin hp' hlt hnow
    rw [hq'] at hs' hi'
    exact ⟨sc', hrun, max', period', sp, h', q', hp', hs', hi', hmin'⟩
  | budgetCheck usage =>
    obtain ⟨sc', hrun, hs', hi', h', q', hq', hmin'⟩ := hs.budgetCheck hp hi usage
    rw [hq'] at hs' hi'
    exact ⟨sc', hrun, max, period, sp, h', q', hp, hs', hi', hmin'⟩
  | unblockCheck now =>
    obtain ⟨sc', hrun, hs', hi', h', q', hq', hmin'⟩ := hs.unblockCheck hp hi hmin hop
    rw [hq'] at hs' hi'
    exact ⟨sc', hrun, max, period, sp, h', q', hp, hs', hi', hmin'⟩

end

/-- **A whole run** of admissible operations from a configured context. -/
theorem Configured.runOps {ops : List RefillOp} (hops : ∀ op ∈ ops, op.Admissible cfg)
    (hc : Configured cfg sc budget) (hb : releasesBelow cfg ops sc = true) :
    ∃ sc', runOps cfg ops sc = .ok sc' ∧ Configured cfg sc' (lastBudget ops budget) := by
  induction ops generalizing sc budget with
  | nil => exact ⟨sc, rfl, hc⟩
  | cons op ops ih =>
    rw [releasesBelow, Bool.and_eq_true] at hb
    obtain ⟨sc1, hrun, hc1⟩ := hc.apply hb.1 (hops op (.head _))
    have hb1 := hb.2
    rw [hrun] at hb1
    obtain ⟨sc2, hrun2, hc2⟩ := ih (fun op hop => hops op (.tail _ hop)) hc1 hb1
    refine ⟨sc2, ?_, hc2⟩
    rw [runOps, hrun]
    exact hrun2

/-- **The refill queue invariant over whole runs.** Whatever the context `sc₀` held before, a run
that configures it with `refill_new` and goes on with any admissible operations does not fault (no
assertion fails, so `refill_pop_head` never sees a single refill and `refill_add_tail` never a
full queue; no tick addition or subtraction wraps; every loop ends), and the context it leaves
satisfies `RefillInv` for the budget configured last. -/
theorem refill_queue_invariant (cfg : TimerConfig) (sc₀ : SchedContext)
    (now max budget period : Nat) (ops : List RefillOp)
    (hops : ∀ op ∈ RefillOp.new now max budget period :: ops, op.Admissible cfg)
    (hb : ∀ sc₁, refillNew cfg now sc₀ max budget period = .ok sc₁ → releasesBelow cfg ops sc₁ = true) :
    ∃ sc, runOps cfg (.new now max budget period :: ops) sc₀ = .ok sc ∧
      RefillInv cfg sc (lastBudget ops budget) := by
  obtain ⟨sc₁, hnew, hc₁⟩ := configured_new cfg sc₀ (hops _ (.head _))
  obtain ⟨sc₂, hrun, hc₂⟩ := hc₁.runOps (fun op hop => hops op (.tail _ hop)) (hb sc₁ hnew)
  refine ⟨sc₂, ?_, hc₂.refillInv⟩
  show (refillNew cfg now sc₀ max budget period >>= runOps cfg ops) = _
  rw [hnew]
  exact hrun

/-- A scheduling context fresh from zeroed memory. -/
def zeroSchedContext : SchedContext where
  scPeriod := 0
  scRefillMax := 0
  scRefillHead := 0
  scRefillTail := 0
  scSporadic := false
  refills := fun _ => ⟨0, 0⟩

/-- A run that splits the head, exhausts the queue several times over, unblocks and
reconfigures. -/
def sampleOps : List RefillOp :=
  [.budgetCheck 600, .budgetCheck 5000, .unblockCheck 90000, .update 95000 4000 2000 3,
    .budgetCheck 1200]

theorem refill_queue_invariant_sample :
    ∃ sc, runOps rk3588 (.new 100 2 1000 10000 :: sampleOps) zeroSchedContext = .ok sc ∧
      RefillInv rk3588 sc 2000 := by
  refine refill_queue_invariant rk3588 zeroSchedContext 100 2 1000 10000 sampleOps ?_ ?_
  · have h1 : Params rk3588 2 10000 1000 := ⟨by decide, by decide, by decide, by decide⟩
    have h2 : Params rk3588 3 4000 2000 := ⟨by decide, by decide, by decide, by decide⟩
    intro op hop
    simp only [sampleOps, List.mem_cons, List.not_mem_nil, or_false] at hop
    rcases hop with rfl | rfl | rfl | rfl | rfl | rfl
    · exact ⟨h1, by decide⟩
    · trivial
    · trivial
    · show 90000 < rk3588.maxReleaseTime
      decide
    · exact ⟨h2, by decide⟩
    · trivial
  · intro sc₁ h
    rw [← Except.ok.inj h]
    decide +kernel

end SeL4.Mcs
