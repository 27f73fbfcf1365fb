import SeL4.Object.Untyped
import SeL4.Thread.Frame

/-!
# Configuring a scheduling context

Model of `schedcontrol.c` (MCS, one core): the checks of `decodeSchedControl_ConfigureFlags` on the
words of a message, and `invokeSchedControl_ConfigureFlags`. Words wrap around as in the source:
`usToTicks` is computed before its argument is compared with `MAX_PERIOD_US`, and the number of refills
that is compared with `refill_absolute_max` is `extra_refills + MIN_REFILLS`.

* `toNat_usToTicks`: a time that the checks let through is converted without wrapping.
* `configure_flags_in_range_iff`: the budget, the period and the number of refills of an accepted message
  are in range exactly if `extra_refills + MIN_REFILLS` does not wrap around. The other two values of
  `extra_refills` ask for no refill, or for one.
* `extra_refills_wrap`: such a message.

Left out: the core of the capability, and moving the thread to it.
-/

namespace SeL4.Thread

open SeL4.Lib SeL4.Object Function SysState

/-! ## Decoding -/

/-- `TIME_ARG_SIZE`: a time is one word. -/
def timeArgSize : Nat := 1

/-- `sizeof(sched_context_t)`. -/
def schedContextBytes : Nat := 96

/-- `sizeof(refill_t)`. -/
def refillBytes : Nat := 16

/-- `usToTicks`, on words. -/
def usToTicks (cfg : Mcs.TimerConfig) (us : Word) : Word := us * BitVec.ofNat 64 cfg.timerClockMhz

/-- `refill_absolute_max`, for a capability with `capSCSizeBits = bits`. -/
def refillAbsoluteMax (bits : Nat) : Word :=
  (bit bits - BitVec.ofNat 64 schedContextBytes) / BitVec.ofNat 64 refillBytes

def minBudgetUs (cfg : Mcs.TimerConfig) : Nat := 2 * cfg.kernelWcetUs * cfg.kernelWcetScale

/-- The arguments of `invokeSchedControl_ConfigureFlags`. -/
structure ConfigureArgs where
  target : Word
  budget : Word
  period : Word
  maxRefills : Word
  badge : Word
  flags : Word
  deriving DecidableEq, Repr

/-- `decodeSchedControl_ConfigureFlags`, up to the call of `setThreadState`. -/
def decodeSchedControlConfigureFlags (cfg : Mcs.TimerConfig) (caps : Word → Cap) (msg : Message) :
    Except SyscallError ConfigureArgs :=
  match msg.extraCap 0 with
  | none => .error .truncatedMessage
  | some slot =>
    if msg.length.toNat < timeArgSize * 2 + 3 then .error .truncatedMessage
    else
      let budgetUs := msg.arg 0
      let budgetTicks := usToTicks cfg budgetUs
      let periodUs := msg.arg timeArgSize
      let periodTicks := usToTicks cfg periodUs
      let extraRefills := msg.arg (timeArgSize * 2)
      let badge := msg.arg (timeArgSize * 2 + 1)
      let flags := msg.arg (timeArgSize * 2 + 2)
      match caps slot with
      | .schedContext ptr bits =>
        if budgetUs.toNat > cfg.maxPeriodUs ∨ budgetTicks.toNat < cfg.minBudget then
          .error (.rangeError (BitVec.ofNat 64 (minBudgetUs cfg)) (BitVec.ofNat 64 cfg.maxPeriodUs))
        else if periodUs.toNat > cfg.maxPeriodUs ∨ periodTicks.toNat < cfg.minBudget then
          .error (.rangeError (BitVec.ofNat 64 (minBudgetUs cfg)) (BitVec.ofNat 64 cfg.maxPeriodUs))
        else if budgetTicks > periodTicks then
          .error (.rangeError (BitVec.ofNat 64 (minBudgetUs cfg)) periodUs)
        else if extraRefills + BitVec.ofNat 64 Mcs.minRefills > refillAbsoluteMax bits then
          .error (.rangeError 0 (refillAbsoluteMax bits - BitVec.ofNat 64 Mcs.minRefills))
        else
          .ok ⟨ptr, budgetTicks, periodTicks, extraRefills + BitVec.ofNat 64 Mcs.minRefills, badge, flags⟩
      | _ => .error (.invalidCapability 1)

/-! ## Invoking -/

namespace SysState

/-- `checkBudget`, in the case that it returns true: nothing is written then. -/
def checkBudget (cfg : SysConfig) (s : SysState) : Bool :=
  s.refillReady s.ksCurSC && s.refillSufficient cfg s.ksCurSC s.ksConsumed &&
    !s.isCurDomainExpired cfg

/-- The thread of a scheduling context is taken out of the queues of the scheduler, and what it has
consumed is charged. -/
def settleThread (cfg : SysConfig) (target thread : Word) (s : SysState) : Checked SysState := do
  let s := s.tcbReleaseRemove thread
  let s ← s.tcbSchedDequeue cfg thread
  runIf (s.ksCurSC = target) (fun s => do
    require (s.checkBudget cfg)
    s.commitTime cfg) s

/-- The new refills of `invokeSchedControl_ConfigureFlags`. -/
def configureRefills (cfg : SysConfig) (a : ConfigureArgs) (thread : Word) (s : SysState) :
    Checked Mcs.SchedContext :=
  if a.budget = a.period then
    Mcs.refillNew cfg.timer s.ksCurTime (s.sc a.target) Mcs.minRefills a.budget.toNat 0
  else if s.scActive a.target ∧ thread ≠ 0 ∧ s.isRunnable thread then
    Mcs.refillUpdate s.ksCurTime (s.sc a.target) a.period.toNat a.budget.toNat a.maxRefills.toNat
  else
    Mcs.refillNew cfg.timer s.ksCurTime (s.sc a.target) a.maxRefills.toNat a.budget.toNat
      a.period.toNat

/-- The thread goes on with the new parameters. -/
def resumeConfigured (cfg : SysConfig) (target thread : Word) (s : SysState) : Checked SysState := do
  let s ← s.schedContextResume cfg target
  let s ← runIf (s.isRunnable thread ∧ thread ≠ s.ksCurThread) (possibleSwitchTo cfg thread) s
  runIf (thread = s.ksCurThread) (rescheduleRequired cfg) s

/-- `seL4_SchedContext_Sporadic`. -/
def sporadicFlag : Word := 1

def invokeSchedControlConfigureFlags (cfg : SysConfig) (a : ConfigureArgs) (s : SysState) :
    Checked SysState := do
  let thread := s.scTcb a.target
  let s ← runIf (thread ≠ 0) (settleThread cfg a.target thread) s
  let sc ← s.configureRefills cfg a thread
  let s := { s with sc := update s.sc a.target sc }
  require (s.scActive a.target)
  let s ← runIf (thread ≠ 0) (resumeConfigured cfg a.target thread) s
  .ok { s with
    scBadge := update s.scBadge a.target a.badge
    sc := update s.sc a.target
      { s.sc a.target with scSporadic := a.flags &&& sporadicFlag != 0 } }

end SysState

/-! ## What the checks ensure -/

section Checks

variable {cfg : Mcs.TimerConfig} {caps : Word → Cap} {msg : Message} {slot ptr : Word} {bits : Nat}
  {a : ConfigureArgs}

/-- What the checks let through. -/
theorem decodeSchedControlConfigureFlags_ok (hslot : msg.extraCap 0 = some slot)
    (hcap : caps slot = .schedContext ptr bits)
    (h : decodeSchedControlConfigureFlags cfg caps msg = .ok a) :
    (msg.arg 0).toNat ≤ cfg.maxPeriodUs ∧ cfg.minBudget ≤ (usToTicks cfg (msg.arg 0)).toNat ∧
      (msg.arg 1).toNat ≤ cfg.maxPeriodUs ∧ usToTicks cfg (msg.arg 0) ≤ usToTicks cfg (msg.arg 1) ∧
      msg.arg 2 + BitVec.ofNat 64 Mcs.minRefills ≤ refillAbsoluteMax bits ∧
      a = ⟨ptr, usToTicks cfg (msg.arg 0), usToTicks cfg (msg.arg 1),
        msg.arg 2 + BitVec.ofNat 64 Mcs.minRefills, msg.arg 3, msg.arg 4⟩ := by
  unfold decodeSchedControlConfigureFlags at h
  rw [hslot] at h
  dsimp only at h
  rw [hcap] at h
  dsimp only at h
  split_ifs at h with hlen hbudget hperiod hle hrefills
  cases h
  rw [not_or, Nat.not_lt, Nat.not_lt] at hbudget hperiod
  exact ⟨hbudget.1, hbudget.2, hperiod.1, BitVec.not_lt.mp hle, BitVec.not_lt.mp hrefills, rfl⟩

/-- A time of at most `MAX_PERIOD_US` is converted without wrapping. -/
theorem toNat_usToTicks {us : Word} (h : us.toNat ≤ cfg.maxPeriodUs) :
    (usToTicks cfg us).toNat = us.toNat * cfg.timerClockMhz ∧
      us.toNat * cfg.timerClockMhz ≤ cfg.maxPeriod := by
  have hle : us.toNat * cfg.timerClockMhz ≤ cfg.maxPeriod := Nat.mul_le_mul_right _ h
  refine ⟨?_, hle⟩
  have hfive := cfg.five_maxPeriod_le
  have hmax : uint64Max < 2 ^ 64 := by decide
  -- the clock itself fits a word unless the time is 0
  rcases Nat.eq_zero_or_pos us.toNat with h0 | hpos
  · have hus : us = 0 := BitVec.eq_of_toNat_eq h0
    rw [usToTicks, hus]
    simp
  · have hclock : cfg.timerClockMhz ≤ us.toNat * cfg.timerClockMhz := Nat.le_mul_of_pos_left _ hpos
    have hlt : cfg.timerClockMhz < 2 ^ 64 := by omega
    rw [usToTicks, BitVec.toNat_mul, BitVec.toNat_ofNat, Nat.mod_eq_of_lt hlt]
    exact Nat.mod_eq_of_lt (by omega)

/-- `refill_absolute_max` is the number of refills that fit behind the fields of the object. -/
theorem refillAbsoluteMax_fits (hmin : minSchedContextBits.toNat ≤ bits) (hmax : bits < 64) {n : Word}
    (hn : n ≤ refillAbsoluteMax bits) : schedContextBytes + n.toNat * refillBytes ≤ 2 ^ bits := by
  have hpow : 2 ^ 7 ≤ 2 ^ bits := Nat.pow_le_pow_right (by decide) hmin
  have hval : (refillAbsoluteMax bits).toNat = (2 ^ bits - schedContextBytes) / refillBytes := by
    unfold refillAbsoluteMax
    rw [BitVec.toNat_udiv, BitVec.toNat_sub_of_le, toNat_bit hmax]
    · rfl
    · rw [BitVec.le_def, toNat_bit hmax]
      exact Nat.le_trans (by decide) hpow
  have hle : n.toNat ≤ (2 ^ bits - schedContextBytes) / refillBytes := hval ▸ BitVec.le_def.mp hn
  unfold schedContextBytes refillBytes at *
  omega

end Checks

namespace SysState

variable {cfg : SysConfig} {a : ConfigureArgs} {s s' : SysState} {thread : Word}

/-- The new refills leave the context active, if there is room for one. -/
theorem configureRefills_max {sc : Mcs.SchedContext} (h : s.configureRefills cfg a thread = .ok sc)
    (hmax : 0 < a.maxRefills.toNat) : 0 < sc.scRefillMax := by
  unfold configureRefills at h
  split_ifs at h
  · rw [Mcs.refillNew_max h]
    decide
  · rwa [Mcs.refillUpdate_max h]
  · rwa [Mcs.refillNew_max h]

theorem resumeConfigured_frame (h : s.resumeConfigured cfg a.target thread = .ok s') :
    QueueFrame s s' := by
  obtain ⟨s1, h1, s2, h2, h⟩ := bind2_eq_ok h
  exact (schedContextResume_frame h1).trans
    ((QueueFrame.runIf h2 possibleSwitchTo_frame).trans
      (.runIf h rescheduleRequired_frame))

/-- `sc_active` holds after the invocation. -/
theorem invokeSchedControlConfigureFlags_active
    (h : s.invokeSchedControlConfigureFlags cfg a = .ok s') : s'.scActive a.target = true := by
  obtain ⟨s1, -, sc, -, h⟩ := bind2_eq_ok h
  obtain ⟨_, hact, s2, h2, h⟩ := bind2_eq_ok h
  have hact := of_decide_eq_true (require_cases hact)
  have hsc : s2.sc = update s1.sc a.target sc := by
    obtain ⟨q, n, rfl⟩ := QueueFrame.runIf h2 resumeConfigured_frame
    rfl
  cases h
  have hend : (update s2.sc a.target
      { s2.sc a.target with scSporadic := a.flags &&& sporadicFlag != 0 } a.target).scRefillMax > 0 := by
    rw [update_self, hsc]
    exact hact
  exact decide_eq_true hend

end SysState

/-! ## The parameters of an accepted message -/

/-- The arguments of the invocation are in range, and were computed without wrapping. -/
structure ConfigureInRange (cfg : SysConfig) (msg : Message) (bits : Nat) (a : ConfigureArgs) : Prop where
  budget_eq : a.budget.toNat = (msg.arg 0).toNat * cfg.timer.timerClockMhz
  period_eq : a.period.toNat = (msg.arg 1).toNat * cfg.timer.timerClockMhz
  minBudget_le : cfg.timer.minBudget ≤ a.budget.toNat
  budget_le : a.budget.toNat ≤ a.period.toNat
  period_le : a.period.toNat ≤ cfg.timer.maxPeriod
  minRefills_le : Mcs.minRefills ≤ a.maxRefills.toNat
  maxRefills_le : a.maxRefills ≤ refillAbsoluteMax bits
  /-- The refill buffer fits in the object. -/
  fits : schedContextBytes + a.maxRefills.toNat * refillBytes ≤ 2 ^ bits
  /-- `assert(sc_active(target))` does not fail. -/
  asserted : ∀ (s : SysState) thread sc, s.configureRefills cfg a thread = .ok sc → 0 < sc.scRefillMax
  active : ∀ s s' : SysState, s.invokeSchedControlConfigureFlags cfg a = .ok s' →
    s'.scActive a.target = true

/-- **Accepted parameters are in range, unless the number of refills wraps around.** Budget and
period always are; `extra_refills + MIN_REFILLS` is compared with the maximum after the addition. -/
theorem configure_flags_in_range_iff (cfg : SysConfig) (caps : Word → Cap) (msg : Message)
    (slot ptr : Word) (bits : Nat) (a : ConfigureArgs) (hslot : msg.extraCap 0 = some slot)
    (hcap : caps slot = .schedContext ptr bits) (hmin : minSchedContextBits.toNat ≤ bits)
    (hmax : bits < 64) (h : decodeSchedControlConfigureFlags cfg.timer caps msg = .ok a) :
    ConfigureInRange cfg msg bits a ↔ (msg.arg 2).toNat + Mcs.minRefills < 2 ^ 64 := by
  obtain ⟨hbudget, hminb, hperiod, hle, hrefills, rfl⟩ := decodeSchedControlConfigureFlags_ok hslot hcap h
  obtain ⟨hbeq, -⟩ := toNat_usToTicks hbudget
  obtain ⟨hpeq, hpmax⟩ := toNat_usToTicks hperiod
  have hsum : (msg.arg 2 + .ofNat 64 Mcs.minRefills).toNat =
      ((msg.arg 2).toNat + Mcs.minRefills) % 2 ^ 64 := BitVec.toNat_add ..
  constructor
  · intro hr
    have h2 : 2 ≤ ((msg.arg 2).toNat + 2) % 2 ^ 64 := hsum ▸ hr.minRefills_le
    show (msg.arg 2).toNat + 2 < 2 ^ 64
    omega
  · intro hlt
    rw [Nat.mod_eq_of_lt hlt] at hsum
    have hr2 : Mcs.minRefills ≤ (msg.arg 2 + BitVec.ofNat 64 Mcs.minRefills).toNat := by
      rw [hsum]
      exact Nat.le_add_left _ _
    refine ⟨hbeq, hpeq, hminb, BitVec.le_def.mp hle, hpeq ▸ hpmax, hr2, hrefills,
      refillAbsoluteMax_fits hmin hmax hrefills, fun s thread sc hs => ?_, fun s s' hs => ?_⟩
    · exact configureRefills_max hs (Nat.lt_of_lt_of_le (by decide) hr2)
    · exact invokeSchedControlConfigureFlags_active hs

/-- A message that configures the context at 4096, of the smallest size, with 1 ms in 10 ms. -/
def configureMessage (extraRefills : Word) : Message where
  length := 5
  arg i := if i = 0 then 1000 else if i = 1 then 10000 else if i = 2 then extraRefills else 0
  extraCap i := if i = 0 then some 64 else none

/-- The slot at 64 holds the capability of the context at 4096. -/
def configureCaps (slot : Word) : Cap := if slot = 64 then .schedContext 4096 7 else .null

theorem configure_flags_in_range_iff_sample :
    ∃ a, decodeSchedControlConfigureFlags mcsSysConfig.timer configureCaps (configureMessage 0) = .ok a ∧
      (ConfigureInRange mcsSysConfig (configureMessage 0) 7 a ↔
        ((configureMessage 0).arg 2).toNat + Mcs.minRefills < 2 ^ 64) := by
  refine ⟨⟨4096, 24000, 240000, 2, 0, 0⟩, by decide +kernel, ?_⟩
  exact configure_flags_in_range_iff mcsSysConfig configureCaps (configureMessage 0) 64 4096 7 _ rfl
    rfl (by decide) (by decide) (by decide +kernel)

/-- With the largest two numbers of extra refills the context is left with one refill or none, and
in the latter case it is not active. -/
theorem extra_refills_wrap : decodeSchedControlConfigureFlags mcsSysConfig.timer configureCaps
        (configureMessage (BitVec.ofNat 64 (2 ^ 64 - 1))) = .ok ⟨4096, 24000, 240000, 1, 0, 0⟩ ∧
      decodeSchedControlConfigureFlags mcsSysConfig.timer configureCaps
        (configureMessage (BitVec.ofNat 64 (2 ^ 64 - 2))) = .ok ⟨4096, 24000, 240000, 0, 0, 0⟩ ∧
      ∃ sc, zero.configureRefills mcsSysConfig ⟨4096, 24000, 240000, 0, 0, 0⟩ 0 = .ok sc ∧
        sc.scRefillMax = 0 := by
  refine ⟨by decide +kernel, by decide +kernel, _, rfl, rfl⟩

end SeL4.Thread
