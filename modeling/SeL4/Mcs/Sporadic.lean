import SeL4.Lib.Checked
import SeL4.Lib.RingBuffer

/-!
# Sporadic budgets: the refill queue of a scheduling context

Model of `kernel/src/kernel/sporadic.c` and `kernel/include/kernel/sporadic.h` (MCS kernel). A
scheduling context carries a circular buffer of refills. Each refill is an amount of ticks and
the earliest time at which it may be used.

* A `ticks_t` is a `Nat`, and every addition and subtraction on ticks is checked
  (`Lib.add64`, `Lib.sub64`): a model that returns `.ok` has not wrapped. The `assert`s of the
  source are `Lib.require`.
* The buffer behind `sched_context_t` is a function from indices, read through
  `SchedContext.ring` when it is reasoned about as a queue.
* The three `while` loops take a number of rounds and report `Fault.fuel` when it runs out. The
  callers give more rounds than a well-formed queue needs, which is part of what
  `SeL4.Mcs.RefillInv` proves.
* `REFILL_SANITY_START`, `REFILL_SANITY_CHECK` and `REFILL_SANITY_END` (`CONFIG_DEBUG_BUILD` only)
  re-check order and sum at run time. They are left out of the functions: what they check is the
  invariant that is proved.
* `ksReprogram`, which `refill_unblock_check` raises for the timer code, is not part of a
  scheduling context and is left out, and so are the fields of `sched_context_t` that no function
  of `sporadic.c` reads.
-/

namespace SeL4.Mcs

open SeL4.Lib

/-! ## Timer constants -/

/-- The build-time constants behind `MIN_BUDGET`, `MAX_PERIOD_US` and `MAX_RELEASE_TIME`, for a
timer whose frequency is a whole number of MHz (`USE_KHZ` is 0). -/
structure TimerConfig where
  /-- `TIMER_CLOCK_MHZ`. -/
  timerClockMhz : Nat
  /-- `getKernelWcetUs()`, the platform's `KERNEL_WCET`. -/
  kernelWcetUs : Nat
  /-- `CONFIG_KERNEL_WCET_SCALE`. -/
  kernelWcetScale : Nat
  /-- `CONFIG_KERNEL_STATIC_MAX_PERIOD_US`, 0 when the maximum is derived from the clock. -/
  staticMaxPeriodUs : Nat
  clock_pos : 0 < timerClockMhz
  wcet_pos : 0 < kernelWcetUs
  scale_pos : 0 < kernelWcetScale
  /-- `MIN_BUDGET` is computed without wrapping. -/
  minBudget_fits : 2 * (kernelWcetUs * timerClockMhz) * kernelWcetScale ≤ uint64Max
  /-- Five static maximum periods fit the clock, so `MAX_RELEASE_TIME` does not wrap. -/
  static_fits : 5 * (staticMaxPeriodUs * timerClockMhz) ≤ uint64Max

namespace TimerConfig

variable (cfg : TimerConfig)

def getMaxUsToTicks : Nat := uint64Max / cfg.timerClockMhz

def usToTicks (us : Nat) : Nat := us * cfg.timerClockMhz

def getKernelWcetTicks : Nat := cfg.usToTicks cfg.kernelWcetUs

def minBudget : Nat := 2 * cfg.getKernelWcetTicks * cfg.kernelWcetScale

def maxPeriodUs : Nat :=
  if cfg.staticMaxPeriodUs ≠ 0 then cfg.staticMaxPeriodUs else cfg.getMaxUsToTicks / 8

/-- `usToTicks(MAX_PERIOD_US)`. -/
def maxPeriod : Nat := cfg.usToTicks cfg.maxPeriodUs

def maxReleaseTime : Nat := uint64Max - 5 * cfg.maxPeriod

theorem minBudget_pos : 0 < cfg.minBudget := by
  have := Nat.mul_pos cfg.wcet_pos cfg.clock_pos
  exact Nat.mul_pos (Nat.mul_pos (by decide) this) cfg.scale_pos

/-- The macro `MAX_RELEASE_TIME` does not wrap. -/
theorem five_maxPeriod_le : 5 * cfg.maxPeriod ≤ uint64Max := by
  unfold maxPeriod maxPeriodUs usToTicks
  split
  · exact cfg.static_fits
  · have h : cfg.getMaxUsToTicks / 8 * cfg.timerClockMhz ≤ uint64Max / 8 := by
      rw [Nat.le_div_iff_mul_le (by decide)]
      calc cfg.getMaxUsToTicks / 8 * cfg.timerClockMhz * 8
          = cfg.getMaxUsToTicks / 8 * 8 * cfg.timerClockMhz := by
            rw [Nat.mul_right_comm]
        _ ≤ cfg.getMaxUsToTicks * cfg.timerClockMhz := Nat.mul_le_mul_right _ (Nat.div_mul_le_self _ _)
        _ ≤ uint64Max := Nat.div_mul_le_self _ _
    omega

theorem maxReleaseTime_add : cfg.maxReleaseTime + 5 * cfg.maxPeriod = uint64Max := by
  have := cfg.five_maxPeriod_le
  unfold maxReleaseTime
  omega

end TimerConfig

/-- The rk3588 platform: a 24 MHz generic timer, `KERNEL_WCET 10u`, defaults otherwise. -/
def rk3588 : TimerConfig where
  timerClockMhz := 24
  kernelWcetUs := 10
  kernelWcetScale := 1
  staticMaxPeriodUs := 0
  clock_pos := by decide
  wcet_pos := by decide
  scale_pos := by decide
  minBudget_fits := by decide
  static_fits := by decide

/-! ## Scheduling contexts -/

/-- `refill_t`. -/
structure Refill where
  rTime : Nat
  rAmount : Nat
  deriving DecidableEq, Repr

/-- The end of a refill that is used without interruption from its release time on. -/
def Refill.finish (r : Refill) : Nat := r.rTime + r.rAmount

/-- The fields of `sched_context_t` that the refill code uses, with the buffer behind it. -/
structure SchedContext where
  scPeriod : Nat
  scRefillMax : Nat
  scRefillHead : Nat
  scRefillTail : Nat
  scSporadic : Bool
  refills : Nat → Refill

def minRefills : Nat := 2

variable (cfg : TimerConfig) (sc : SchedContext)

/-- The refill buffer as a ring. -/
def SchedContext.ring : RingBuffer Refill :=
  ⟨sc.scRefillMax, sc.scRefillHead, sc.scRefillTail, sc.refills⟩

def isRoundRobin : Bool := sc.scPeriod == 0

def refillNext (index : Nat) : Nat :=
  if index = sc.scRefillMax - 1 then 0 else index + 1

/-- `*refill_index(sc, index)`. -/
def refillIndex (index : Nat) : Refill := sc.refills index

/-- `*refill_head(sc)`. -/
def refillHead : Refill := refillIndex sc sc.scRefillHead

/-- `*refill_tail(sc)`. -/
def refillTail : Refill := refillIndex sc sc.scRefillTail

/-- The store `*refill_index(sc, index) = r`. -/
def setRefill (index : Nat) (r : Refill) : SchedContext :=
  { sc with refills := Function.update sc.refills index r }

/-- The store `*refill_head(sc) = r`. -/
def setRefillHead (r : Refill) : SchedContext := setRefill sc sc.scRefillHead r

/-- The store `*refill_tail(sc) = r`. -/
def setRefillTail (r : Refill) : SchedContext := setRefill sc sc.scRefillTail r

def refillSize : Nat :=
  if sc.scRefillHead ≤ sc.scRefillTail then sc.scRefillTail - sc.scRefillHead + 1
  else sc.scRefillTail + 1 + (sc.scRefillMax - sc.scRefillHead)

def refillFull : Bool := refillSize sc == sc.scRefillMax

def refillSingle : Bool := sc.scRefillHead == sc.scRefillTail

def refillCapacity (usage : Nat) : Nat :=
  if usage > (refillHead sc).rAmount then 0 else (refillHead sc).rAmount - usage

def refillSufficient (usage : Nat) : Bool :=
  decide (refillCapacity sc usage ≥ cfg.minBudget)

/-- `refill_ready`, at `ksCurTime = now`. -/
def refillReady (now : Nat) : Bool := decide ((refillHead sc).rTime ≤ now)

/-- The refills read from head to tail. -/
def SchedContext.queue : List Refill := sc.ring.toList

/-! ## Queue primitives -/

def refillPopHead : Checked (Refill × SchedContext) := do
  require !(refillSingle sc)
  let prevSize := refillSize sc
  let refill := refillHead sc
  let sc := { sc with scRefillHead := refillNext sc sc.scRefillHead }
  require (prevSize == refillSize sc + 1)
  require (decide (sc.scRefillHead < sc.scRefillMax))
  pure (refill, sc)

def refillAddTail (refill : Refill) : Checked SchedContext := do
  require (decide (refillSize sc < sc.scRefillMax))
  let newTail := refillNext sc sc.scRefillTail
  let sc := setRefillTail { sc with scRefillTail := newTail } refill
  require (decide (newTail < sc.scRefillMax))
  pure sc

def maybeAddEmptyTail : Checked SchedContext :=
  if isRoundRobin sc then do
    let sc ← refillAddTail sc { rTime := (refillHead sc).rTime, rAmount := 0 }
    require (refillSize sc == minRefills)
    pure sc
  else pure sc

/-! ## Configuration -/

/-- `refill_new`, at `ksCurTime = now`. -/
def refillNew (now : Nat) (sc : SchedContext) (maxRefills budget period : Nat) :
    Checked SchedContext := do
  let sc := { sc with scPeriod := period, scRefillHead := 0, scRefillTail := 0,
                      scRefillMax := maxRefills }
  require (decide (budget ≥ cfg.minBudget))
  let sc := setRefillHead sc { refillHead sc with rAmount := budget }
  let sc := setRefillHead sc { refillHead sc with rTime := now }
  maybeAddEmptyTail sc

/-- The first half of `refill_update`: the head moves to index 0, the list is cut to it, and the
new number of refills and period are stored. -/
def truncateRefills (newPeriod newMaxRefills : Nat) : SchedContext :=
  let sc := setRefill sc 0 (refillHead sc)
  let sc := { sc with scRefillHead := 0 }
  let sc := { sc with scRefillTail := sc.scRefillHead }
  { sc with scRefillMax := newMaxRefills, scPeriod := newPeriod }

/-- `if (refill_ready(sc)) { refill_head(sc)->rTime = ksCurTime; }`. -/
def advanceReadyHead (now : Nat) (sc : SchedContext) : SchedContext :=
  if refillReady sc now then setRefillHead sc { refillHead sc with rTime := now } else sc

/-- `refill_update`, at `ksCurTime = now`. -/
def refillUpdate (now : Nat) (sc : SchedContext) (newPeriod newBudget newMaxRefills : Nat) :
    Checked SchedContext := do
  require (decide (sc.scRefillMax > 0))
  let sc := advanceReadyHead now (truncateRefills sc newPeriod newMaxRefills)
  if (refillHead sc).rAmount ≥ newBudget then
    maybeAddEmptyTail (setRefillHead sc { refillHead sc with rAmount := newBudget })
  else do
    let rAmount ← sub64 newBudget (refillHead sc).rAmount
    let rTime ← add64 (refillHead sc).rTime newPeriod
    refillAddTail sc { rTime, rAmount }

/-! ## Charging -/

def scheduleUsed (new : Refill) : Checked SchedContext := do
  let tail := refillTail sc
  let tailEnd ← add64 tail.rTime tail.rAmount
  if tailEnd ≥ new.rTime then do
    -- merge an overlapping or adjacent refill
    let amount ← add64 tail.rAmount new.rAmount
    pure (setRefillTail sc { tail with rAmount := amount })
  else if !(refillFull sc) then
    refillAddTail sc new
  else do
    -- delay the existing tail to merge
    let time ← sub64 new.rTime tail.rAmount
    let amount ← add64 tail.rAmount new.rAmount
    pure (setRefillTail sc { rTime := time, rAmount := amount })

def refillHeadOverlapping : Checked Bool :=
  if !(refillSingle sc) then do
    let head := refillHead sc
    let tail ← add64 head.rTime head.rAmount
    pure (decide ((refillIndex sc (refillNext sc sc.scRefillHead)).rTime ≤ tail))
  else pure false

def headRefillOverrun (usage : Nat) : Bool :=
  decide ((refillHead sc).rAmount ≤ usage ∧ (refillHead sc).rTime < cfg.maxReleaseTime)

def chargeEntireHeadRefill (usage : Nat) : Checked (SchedContext × Nat) := do
  let head := refillHead sc
  let sc ←
    if refillSingle sc then do
      let time ← add64 head.rTime sc.scPeriod
      pure (setRefillHead sc { head with rTime := time })
    else do
      let (oldHead, sc) ← refillPopHead sc
      let time ← add64 oldHead.rTime sc.scPeriod
      scheduleUsed sc { oldHead with rTime := time }
  let left ← sub64 usage head.rAmount
  pure (sc, left)

/-- `handle_overrun`, for at most `rounds` rounds of its loop. -/
def handleOverrun (cfg : TimerConfig) : Nat → SchedContext → Nat → Checked (SchedContext × Nat)
  | 0, sc, usage => if headRefillOverrun cfg sc usage then .error .fuel else pure (sc, usage)
  | rounds + 1, sc, usage =>
    if headRefillOverrun cfg sc usage then do
      let (sc, usage) ← chargeEntireHeadRefill sc usage
      handleOverrun cfg rounds sc usage
    else pure (sc, usage)

def headRefillInsufficient : Bool :=
  decide ((refillHead sc).rAmount < cfg.minBudget)

def mergeNonoverlappingHeadRefill : Checked SchedContext := do
  let (head, sc) ← refillPopHead sc
  let amount ← add64 (refillHead sc).rAmount head.rAmount
  let sc := setRefillHead sc { refillHead sc with rAmount := amount }
  let time ← sub64 (refillHead sc).rTime head.rAmount
  pure (setRefillHead sc { refillHead sc with rTime := time })

/-- The loop at the end of `refill_budget_check`, for at most `rounds` rounds. -/
def mergeInsufficient (cfg : TimerConfig) : Nat → SchedContext → Checked SchedContext
  | 0, sc => if headRefillInsufficient cfg sc then .error .fuel else pure sc
  | rounds + 1, sc =>
    if headRefillInsufficient cfg sc then do
      let sc ← mergeNonoverlappingHeadRefill sc
      mergeInsufficient cfg rounds sc
    else pure sc

/-- The partial charge in the middle of `refill_budget_check`. -/
def chargePartial (usage : Nat) : Checked SchedContext :=
  let head := refillHead sc
  if usage > 0 ∧ head.rTime < cfg.maxReleaseTime then do
    require (decide (head.rAmount > usage))
    let usedTime ← add64 head.rTime sc.scPeriod
    let amount ← sub64 head.rAmount usage
    let sc := setRefillHead sc { refillHead sc with rAmount := amount }
    let time ← add64 head.rTime usage
    let sc := setRefillHead sc { refillHead sc with rTime := time }
    scheduleUsed sc { rTime := usedTime, rAmount := usage }
  else pure sc

/-- `refill_budget_check`, with `sc` the current scheduling context. -/
def refillBudgetCheck (usage : Nat) :
    Checked SchedContext := do
  require !(isRoundRobin sc)
  let (sc, usage) ← handleOverrun cfg (usage + 1) sc usage
  let sc ← chargePartial cfg sc usage
  mergeInsufficient cfg sc.scRefillMax sc

/-! ## Unblocking -/

def mergeOverlappingHeadRefill : Checked SchedContext := do
  let (oldHead, sc) ← refillPopHead sc
  let sc := setRefillHead sc { refillHead sc with rTime := oldHead.rTime }
  let amount ← add64 (refillHead sc).rAmount oldHead.rAmount
  pure (setRefillHead sc { refillHead sc with rAmount := amount })

/-- The merge loop of `refill_unblock_check`, for at most `rounds` rounds. -/
def mergeOverlapping : Nat → SchedContext → Checked SchedContext
  | 0, sc => do
    let overlapping ← refillHeadOverlapping sc
    if overlapping then .error .fuel else pure sc
  | rounds + 1, sc => do
    let overlapping ← refillHeadOverlapping sc
    if overlapping then do
      let sc ← mergeOverlappingHeadRefill sc
      mergeOverlapping rounds sc
    else pure sc

/-- `refill_unblock_check`, at `ksCurTime = now`. -/
def refillUnblockCheck (now : Nat) (sc : SchedContext) : Checked SchedContext :=
  if isRoundRobin sc then pure sc
  else if refillReady sc now then do
    let sc := setRefillHead sc { refillHead sc with rTime := now }
    let sc ← mergeOverlapping sc.scRefillMax sc
    require (refillSufficient cfg sc 0)
    pure sc
  else pure sc

/-! ## What moving refills leaves alone -/

/-- Only the refills and the two indices differ. -/
structure SameParams (sc sc' : SchedContext) : Prop where
  period : sc'.scPeriod = sc.scPeriod
  max : sc'.scRefillMax = sc.scRefillMax
  sporadic : sc'.scSporadic = sc.scSporadic

namespace SameParams

variable {sc sc' sc'' : SchedContext}

theorem refl (sc : SchedContext) : SameParams sc sc := ⟨rfl, rfl, rfl⟩

theorem trans (h : SameParams sc sc') (h' : SameParams sc' sc'') : SameParams sc sc'' :=
  ⟨h'.period.trans h.period, h'.max.trans h.max, h'.sporadic.trans h.sporadic⟩

theorem refillAddTail {r : Refill} (h : refillAddTail sc r = .ok sc') : SameParams sc sc' := by
  obtain ⟨_, -, _, -, h⟩ := bind2_eq_ok h
  cases h
  exact ⟨rfl, rfl, rfl⟩

theorem refillPopHead {r : Refill} (h : refillPopHead sc = .ok (r, sc')) : SameParams sc sc' := by
  obtain ⟨_, -, _, -, h⟩ := bind2_eq_ok h
  obtain ⟨_, -, h⟩ := bind_eq_ok h
  cases h
  exact ⟨rfl, rfl, rfl⟩

theorem maybeAddEmptyTail (h : maybeAddEmptyTail sc = .ok sc') : SameParams sc sc' := by
  unfold Mcs.maybeAddEmptyTail at h
  split_ifs at h
  · obtain ⟨sc1, h1, _, -, h⟩ := bind2_eq_ok h
    cases h
    exact refillAddTail h1
  · cases h
    exact refl sc

theorem mergeOverlappingHeadRefill (h : mergeOverlappingHeadRefill sc = .ok sc') : SameParams sc sc' := by
  obtain ⟨⟨r, sc1⟩, h1, amount, -, h⟩ := bind2_eq_ok h
  cases h
  exact (refillPopHead h1).trans ⟨rfl, rfl, rfl⟩

theorem mergeOverlapping : ∀ {n : Nat} {sc0 : SchedContext}, mergeOverlapping n sc0 = .ok sc' →
    SameParams sc0 sc'
  | 0, sc0, h => by
    obtain ⟨b, -, h⟩ := bind_eq_ok h
    split_ifs at h
    cases h
    exact refl _
  | n + 1, sc0, h => by
    obtain ⟨b, -, h⟩ := bind_eq_ok h
    split_ifs at h
    · obtain ⟨sc1, h1, h⟩ := bind_eq_ok h
      exact (mergeOverlappingHeadRefill h1).trans (mergeOverlapping h)
    · cases h
      exact refl _

/-- `refill_unblock_check` changes no parameter. -/
theorem refillUnblockCheck {cfg : TimerConfig} {now : Nat} (h : refillUnblockCheck cfg now sc = .ok sc') :
    SameParams sc sc' := by
  unfold Mcs.refillUnblockCheck at h
  split_ifs at h
  · cases h
    exact refl sc
  · obtain ⟨sc1, h1, _, -, h⟩ := bind2_eq_ok h
    cases h
    have hset : SameParams sc (setRefillHead sc { refillHead sc with rTime := now }) := ⟨rfl, rfl, rfl⟩
    exact hset.trans (mergeOverlapping h1)
  · cases h
    exact refl sc

end SameParams

/-- `refill_new` sets the number of refills. -/
theorem refillNew_max {cfg : TimerConfig} {now maxRefills budget period : Nat} {sc sc' : SchedContext}
    (h : refillNew cfg now sc maxRefills budget period = .ok sc') : sc'.scRefillMax = maxRefills := by
  obtain ⟨_, -, h⟩ := bind_eq_ok h
  exact (SameParams.maybeAddEmptyTail h).max

/-- `refill_update` sets the number of refills. -/
theorem refillUpdate_max {now period budget maxRefills : Nat} {sc sc' : SchedContext}
    (h : refillUpdate now sc period budget maxRefills = .ok sc') : sc'.scRefillMax = maxRefills := by
  obtain ⟨_, -, h⟩ := bind_eq_ok h
  have hready : ∀ sc : SchedContext, (advanceReadyHead now sc).scRefillMax = sc.scRefillMax := by
    intro sc
    unfold advanceReadyHead
    split_ifs <;> rfl
  dsimp only at h
  split_ifs at h
  · exact (SameParams.maybeAddEmptyTail h).max.trans (hready _)
  · obtain ⟨amount, -, time, -, h⟩ := bind2_eq_ok h
    exact (SameParams.refillAddTail h).max.trans (hready _)

end SeL4.Mcs
