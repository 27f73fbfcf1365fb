import SeL4.Mcs.Bandwidth

/-!
# Charging never brings budget forward

`refill_budget_check` charges a usage that may exceed the head refill, several refills, or the whole
budget many times over. A charged refill is put back one period after its release, merged with the
last refill of the queue where the two meet, and a head below `MIN_BUDGET` is merged with its successor.
`supply q t` (`Bandwidth`) is the budget of `q` that can be used before time `t`.

* `supply_chargeHead_before`: one round of `handle_overrun` takes the head out of the supply of the
  period that starts at its release; `overrunQueue_supply` is the whole loop.
* `budgetCheckQueue_before`: the whole function takes the usage out of the supply of the period that
  starts at the old head.
* `refillBudgetCheck_ends`: both loops of the function end for every usage. Only the amounts matter for
  this; times may be anything.
* `charging_never_brings_budget_forward` puts these together for `refill_budget_check`.

The code stops charging at a head that is released at `MAX_RELEASE_TIME` or later. A refill that was
put back in the same call is not available in the first period anyway, so the limit matters for the
times in the queue at the start only.
-/

namespace SeL4.Mcs

open SeL4.Lib

/-! ## Supply at the front of a queue -/

section Front

variable {h : Refill} {q : List Refill} {t : Nat}

/-- Nothing can be used before the release of the head. -/
theorem supply_eq_zero : ∀ {q : List Refill} {h : Refill}, Ordered (h :: q) → t ≤ h.rTime →
    supply (h :: q) t = 0
  | [], h, _, ht => by
    rw [supply_cons, supply_nil]
    omega
  | b :: q, h, hord, ht => by
    obtain ⟨hhb, hq⟩ := ordered_cons.mp hord
    unfold Refill.finish at hhb
    have ih := supply_eq_zero hq (show t ≤ b.rTime by omega)
    rw [supply_cons]
    omega

/-- Before the end of the head only the head can be used. -/
theorem supply_tail_eq_zero (hord : Ordered (h :: q)) (ht : t ≤ h.finish) : supply q t = 0 := by
  cases q with
  | nil => rfl
  | cons b q =>
    obtain ⟨hhb, hq⟩ := ordered_cons.mp hord
    exact supply_eq_zero hq (ht.trans hhb)

/-- Using up `u` ticks of the head takes them out of the supply. -/
theorem supply_use_head {u : Nat} (hord : Ordered (h :: q)) (hu : u ≤ h.rAmount) :
    min (h.rAmount - u) (t - (h.rTime + u)) + supply q t = supply (h :: q) t - u := by
  rw [supply_cons]
  by_cases ht : h.rTime + u ≤ t
  · omega
  · have hfin : t ≤ h.finish := by
      unfold Refill.finish
      omega
    rw [supply_tail_eq_zero hord hfin]
    omega

theorem supply_chargeHead_le (period : Nat) : supply (chargeHead period (h :: q)) t ≤ supply (h :: q) t := by
  have := supply_chargeHead period h q t
  rw [supply_cons]
  omega

/-- **One whole refill is charged**: it is gone for one period. -/
theorem supply_chargeHead_before {period : Nat} (hord : Ordered (h :: q)) (ht : t ≤ h.rTime + period) :
    supply (chargeHead period (h :: q)) t ≤ supply (h :: q) t - h.rAmount := by
  have hle := supply_chargeHead period h q t
  have huse := supply_use_head (t := t) hord (le_refl h.rAmount)
  omega

end Front

/-! ## The loop over whole refills -/

section Overrun

variable {cfg : TimerConfig} {max period budget : Nat}

/-- Every refill can still be charged, or was put back after the period that starts at `T`. -/
def Late (cfg : TimerConfig) (T period : Nat) (q : List Refill) : Prop :=
  ∀ r ∈ q, r.rTime < cfg.maxReleaseTime ∨ T + period ≤ r.rTime

variable {T : Nat} {h : Refill} {q : List Refill}

theorem Late.chargeHead (hl : Late cfg T period (h :: q))
    (hT : T ≤ h.rTime) : Late cfg T period (chargeHead period (h :: q)) := by
  have hnew : T + period ≤ h.rTime + period := Nat.add_le_add_right hT period
  cases q with
  | nil =>
    intro r hr
    rw [chargeHead, List.mem_singleton] at hr
    rw [hr]
    exact .inr hnew
  | cons b q =>
    -- there is room after the head has left, so the last refill is not delayed
    exact forall_mem_place false ⟨h.rTime + period, h.rAmount⟩
      (P := fun r => r.rTime < cfg.maxReleaseTime ∨ T + period ≤ r.rTime) (.inr hnew)
      (fun t ht => ht) (by simp) fun r hr => hl r (.tail h hr)

/-- The head after a round is not earlier than the head before. -/
theorem chargeHead_time (period : Nat) (hord : Ordered (h :: q)) :
    ∃ c r, chargeHead period (h :: q) = c :: r ∧ h.rTime ≤ c.rTime := by
  cases q with
  | nil => exact ⟨_, _, rfl, Nat.le_add_right _ _⟩
  | cons b q =>
    obtain ⟨c, r, hc, hle⟩ := place_cons false ⟨h.rTime + period, h.rAmount⟩ b q
    have hfin := (ordered_cons.mp hord).1
    unfold Refill.finish at hfin
    exact ⟨c, r, hc, by omega⟩

/-- What a loop that charged `used` ticks has done to the supply, for an old head at `T`. -/
structure Charged (T period used : Nat) (q q' : List Refill) : Prop where
  le : ∀ t, supply q' t ≤ supply q t
  before : ∀ t ≤ T + period, supply q' t ≤ supply q t - used

theorem Charged.refl (T period : Nat) (q : List Refill) : Charged T period 0 q q :=
  ⟨fun _ => le_refl _, fun _ _ => le_refl _⟩

theorem Charged.trans {used used' : Nat} {q' q'' : List Refill} (h : Charged T period used q q')
    (h' : Charged T period used' q' q'') : Charged T period (used + used') q q'' := by
  refine ⟨fun t => (h'.le t).trans (h.le t), fun t ht => ?_⟩
  have h1 := h.before t ht
  have h2 := h'.before t ht
  omega

/-- **The loop of `handle_overrun`** takes what it charges out of the supply of the first period. -/
theorem overrunQueue_supply (hp : Params cfg max period budget) :
    ∀ {n usage : Nat} {h : Refill} {q : List Refill}, usage < n → QueueInv cfg max budget (h :: q) →
      T ≤ h.rTime → Late cfg T period (h :: q) →
      ∃ h' q' u, overrunQueue cfg period n (h :: q) usage = (h' :: q', u) ∧ u ≤ usage ∧
        T ≤ h'.rTime ∧ Late cfg T period (h' :: q') ∧
        Charged T period (usage - u) (h :: q) (h' :: q')
  | 0, _, _, _, hn, _, _, _ => absurd hn (Nat.not_lt_zero _)
  | n + 1, usage, h, q, hn, hi, hT, hl => by
    have hpos := hi.pos h (.head _)
    rw [overrunQueue]
    split_ifs with hc
    · obtain ⟨c, r, hcr, hle⟩ := chargeHead_time period hi.ordered
      have hi' := chargeHead_inv hp hi hc.2
      have hl' := hl.chargeHead hT
      have hround : Charged T period h.rAmount (h :: q) (chargeHead period (h :: q)) := by
        refine ⟨fun t => supply_chargeHead_le period, fun t ht => ?_⟩
        exact supply_chargeHead_before hi.ordered (ht.trans (Nat.add_le_add_right hT period))
      rw [hcr] at hi' hl' hround ⊢
      obtain ⟨h', q', u, heq, hu, hT', hl'', hch⟩ :=
        overrunQueue_supply hp (show usage - h.rAmount < n by omega) hi' (hT.trans hle) hl'
      refine ⟨h', q', u, heq, by omega, hT', hl'', ?_⟩
      have hsum : usage - u = h.rAmount + (usage - h.rAmount - u) := by omega
      rw [hsum]
      exact hround.trans hch
    · refine ⟨h, q, usage, rfl, le_refl _, hT, hl, ?_⟩
      rw [Nat.sub_self]
      exact Charged.refl T period _

/-- **The partial charge.** If the head is too late to be charged, it is not usable in the first
period. -/
theorem partialCharge_supply {usage : Nat} (hi : QueueInv cfg max budget (h :: q)) (hT : T ≤ h.rTime)
    (hl : Late cfg T period (h :: q)) (hu : usage < h.rAmount ∨ cfg.maxReleaseTime ≤ h.rTime) :
    Charged T period usage (h :: q) (partialCharge cfg max period (h :: q) usage) := by
  rw [partialCharge]
  split_ifs with hc
  · have hult : usage < h.rAmount := by omega
    have hplace := supply_place (decide (q.length + 1 = max)) ⟨h.rTime + period, usage⟩
      (q := ⟨h.rTime + usage, h.rAmount - usage⟩ :: q)
    simp only [supply_cons ⟨h.rTime + usage, h.rAmount - usage⟩] at hplace
    refine ⟨fun t => ?_, fun t ht => ?_⟩
    · have h1 := hplace t
      rw [supply_cons]
      omega
    · have h1 := hplace t
      have h2 := supply_use_head (t := t) hi.ordered (Nat.le_of_lt hult)
      omega
  · refine ⟨fun t => le_refl _, fun t ht => ?_⟩
    rcases Nat.eq_zero_or_pos usage with rfl | h0
    · exact le_refl _
    · have hlate : T + period ≤ h.rTime := by
        rcases hl h List.mem_cons_self with hlt | hge
        · exact absurd ⟨h0, hlt⟩ hc
        · exact hge
      rw [supply_eq_zero hi.ordered (ht.trans hlate)]
      exact Nat.zero_le _

/-- **`refill_budget_check` on a list** takes the whole usage out of the supply of the period that
starts at the old head, and adds supply at no time. -/
theorem budgetCheckQueue_before (hp : Params cfg max period budget)
    (hi : QueueInv cfg max budget (h :: q)) (hbelow : ∀ r ∈ h :: q, r.rTime < cfg.maxReleaseTime)
    (usage : Nat) :
    Charged h.rTime period usage (h :: q) (budgetCheckQueue cfg max period (h :: q) usage) := by
  obtain ⟨h1, q1, u, hov, hu, hT, hl, hch⟩ := overrunQueue_supply hp (Nat.lt_succ_self usage) hi
    (le_refl h.rTime) fun r hr => .inl (hbelow r hr)
  obtain ⟨h', q', u', hov', hi1, hstop⟩ := overrunQueue_inv hp (Nat.lt_succ_self usage) hi
  rw [hov] at hov'
  cases hov'
  have hpart := partialCharge_supply hi1 hT hl hstop
  have hi2 := partialCharge_inv hp hi1 hstop
  obtain ⟨c, r, hcr⟩ := List.exists_cons_of_ne_nil hi2.ne
  have hall := hch.trans hpart
  rw [Nat.sub_add_cancel hu, hcr] at hall
  unfold budgetCheckQueue
  rw [hov]
  dsimp only
  rw [hcr] at hi2 ⊢
  have hraise := fun t => supply_absorbSmall cfg.minBudget t hi2.ordered
  exact ⟨fun t => (hraise t).trans (hall.le t), fun t ht => (hraise t).trans (hall.before t ht)⟩

end Overrun

/-! ## The loops end -/

section Ends

variable {cfg : TimerConfig} {sc sc' : SchedContext} {max period : Nat} {sp : Bool}

/-- The context holds a queue of refills that are not empty. -/
def Funded (sc : SchedContext) : Prop :=
  ∃ max period sp h q, Holds sc max period sp (h :: q) ∧ q.length < max ∧ ∀ r ∈ h :: q, 0 < r.rAmount

theorem Funded.of_append {x : Refill} {p : List Refill} (hs : Holds sc max period sp (p ++ [x]))
    (hlen : (p ++ [x]).length ≤ max) (hp : ∀ r ∈ p, 0 < r.rAmount) (hx : 0 < x.rAmount) : Funded sc := by
  have hpos : ∀ r ∈ p ++ [x], 0 < r.rAmount :=
    List.forall_mem_append.mpr ⟨hp, List.forall_mem_singleton.mpr hx⟩
  obtain ⟨c, r, hcr⟩ := List.exists_cons_of_ne_nil (List.append_ne_nil_of_right_ne_nil p
    (List.cons_ne_nil x []))
  rw [hcr] at hs hlen hpos
  exact ⟨max, period, sp, c, r, hs, hlen, hpos⟩

/-- `schedule_used` loses no refill, whatever the times are. -/
theorem Funded.scheduleUsed {new : Refill} {q : List Refill} (hs : Holds sc max period sp q)
    (hne : q ≠ []) (hlen : q.length ≤ max) (hpos : ∀ r ∈ q, 0 < r.rAmount) (hnew : 0 < new.rAmount)
    (h : scheduleUsed sc new = .ok sc') : Funded sc' := by
  obtain ⟨p, t, rfl⟩ : ∃ p t, q = p ++ [t] := ⟨_, _, (List.dropLast_append_getLast hne).symm⟩
  -- both merges add the new amount to the last one
  have hset : ∀ {time a : Nat}, add64 t.rAmount new.rAmount = .ok a →
      Funded (setRefillTail sc ⟨time, a⟩) := by
    intro time a ha
    unfold add64 at ha
    split_ifs at ha
    cases ha
    obtain ⟨hp, ht⟩ := List.forall_mem_append.mp hpos
    exact .of_append (hs.setTail _) (by simpa using hlen) hp (Nat.add_pos_left (ht t (.head _)) _)
  unfold Mcs.scheduleUsed at h
  rw [hs.tail] at h
  obtain ⟨e, -, h⟩ := bind_eq_ok h
  split_ifs at h with hm hfull
  · obtain ⟨a, ha, h⟩ := bind_eq_ok h
    cases h
    exact hset ha
  · rw [hs.full, Bool.not_eq_true', decide_eq_false_iff_not] at hfull
    obtain ⟨sc1, hadd, hs1⟩ := hs.addTail (Nat.lt_of_le_of_ne hlen hfull) new
    rw [h] at hadd
    cases hadd
    refine .of_append hs1 ?_ hpos hnew
    rw [List.length_append]
    exact Nat.lt_of_le_of_ne hlen hfull
  · obtain ⟨b, -, a, ha, h⟩ := bind2_eq_ok h
    cases h
    exact hset ha

/-- `charge_entire_head_refill` uses up some of the usage. -/
theorem Funded.chargeEntire {usage u : Nat} (hf : Funded sc)
    (h : chargeEntireHeadRefill sc usage = .ok (sc', u)) : Funded sc' ∧ u < usage := by
  obtain ⟨max, period, sp, hd, q, hs, hlen, hpos⟩ := hf
  have hhd := hpos hd (.head _)
  unfold chargeEntireHeadRefill at h
  rw [hs.head] at h
  have hend : ∀ {sc1 : SchedContext}, (do
      let left ← sub64 usage hd.rAmount
      pure (sc1, left) : Checked (SchedContext × Nat)) = .ok (sc', u) → sc1 = sc' ∧ u < usage := by
    intro sc1 h
    obtain ⟨left, hleft, h⟩ := bind_eq_ok h
    cases h
    unfold sub64 at hleft
    split_ifs at hleft with hle
    cases hleft
    exact ⟨rfl, by omega⟩
  cases q with
  | nil =>
    rw [hs.single] at h
    obtain ⟨time, -, h⟩ := bind_eq_ok h
    obtain ⟨rfl, hu⟩ := hend h
    refine ⟨⟨max, period, sp, _, [], hs.setHead ⟨time, hd.rAmount⟩, hlen, fun r hr => ?_⟩, hu⟩
    rw [List.mem_singleton] at hr
    rw [hr]
    exact hhd
  | cons b q =>
    obtain ⟨sc2, hpop, hs2⟩ := hs.popHead
    rw [hs.not_single, if_neg nofun, hpop, ok_bind] at h
    obtain ⟨time, -, sc3, h3, h⟩ := bind2_eq_ok h
    obtain ⟨rfl, hu⟩ := hend h
    have hnew : 0 < (Refill.mk time hd.rAmount).rAmount := hhd
    exact ⟨Funded.scheduleUsed hs2 (List.cons_ne_nil b q) (Nat.le_of_lt hlen)
      (fun r hr => hpos r (.tail hd hr)) hnew h3, hu⟩

theorem refillPopHead_ne_fuel (sc : SchedContext) : refillPopHead sc ≠ .error .fuel :=
  bind_ne_fuel (require_ne_fuel _) fun _ _ => bind_ne_fuel (require_ne_fuel _) fun _ _ =>
    bind_ne_fuel (require_ne_fuel _) fun _ _ => nofun

theorem scheduleUsed_ne_fuel (sc : SchedContext) (new : Refill) : scheduleUsed sc new ≠ .error .fuel := by
  refine bind_ne_fuel (add64_ne_fuel _ _) fun e _ => ?_
  split_ifs
  · exact bind_ne_fuel (add64_ne_fuel _ _) fun _ _ => nofun
  · exact bind_ne_fuel (require_ne_fuel _) fun _ _ => bind_ne_fuel (require_ne_fuel _) fun _ _ => nofun
  · exact bind_ne_fuel (sub64_ne_fuel _ _) fun _ _ => bind_ne_fuel (add64_ne_fuel _ _) fun _ _ => nofun

theorem chargeEntireHeadRefill_ne_fuel (sc : SchedContext) (usage : Nat) :
    chargeEntireHeadRefill sc usage ≠ .error .fuel := by
  unfold chargeEntireHeadRefill
  have hend : ∀ sc1 : SchedContext, (do
      let left ← sub64 usage (refillHead sc).rAmount
      pure (sc1, left) : Checked (SchedContext × Nat)) ≠ .error .fuel :=
    fun sc1 => bind_ne_fuel (sub64_ne_fuel _ _) fun _ _ => nofun
  split_ifs
  · exact bind_ne_fuel (add64_ne_fuel _ _) fun _ _ => hend _
  · exact bind_ne_fuel (refillPopHead_ne_fuel sc) fun _ _ => bind_ne_fuel (add64_ne_fuel _ _)
      fun _ _ => bind_ne_fuel (scheduleUsed_ne_fuel _ _) fun _ _ => hend _

/-- The loop of `handle_overrun` ends, since each round charges something. -/
theorem Funded.handleOverrun_ends (cfg : TimerConfig) : ∀ {n usage : Nat} {sc : SchedContext}, usage < n → Funded sc →
    handleOverrun cfg n sc usage ≠ .error .fuel ∧ ∀ r, handleOverrun cfg n sc usage = .ok r → Funded r.1
  | 0, _, _, hn, _ => absurd hn (Nat.not_lt_zero _)
  | n + 1, usage, sc, hn, hf => by
    rw [handleOverrun]
    split_ifs with hc
    · have hround : ∀ r : SchedContext × Nat, chargeEntireHeadRefill sc usage = .ok r →
          r.2 < n ∧ Funded r.1 := by
        rintro ⟨sc1, u⟩ h1
        obtain ⟨hf1, hu⟩ := hf.chargeEntire h1
        exact ⟨by dsimp only; omega, hf1⟩
      constructor
      · refine bind_ne_fuel (chargeEntireHeadRefill_ne_fuel sc usage) fun r hr => ?_
        obtain ⟨hlt, hf1⟩ := hround r hr
        exact (Funded.handleOverrun_ends cfg hlt hf1).1
      · intro r' hr'
        obtain ⟨r, hr, hr'⟩ := bind_eq_ok hr'
        obtain ⟨hlt, hf1⟩ := hround r hr
        exact (Funded.handleOverrun_ends cfg hlt hf1).2 r' hr'
    · refine ⟨by simp, fun r hr => ?_⟩
      cases hr
      exact hf

theorem chargePartial_ne_fuel (sc : SchedContext) (usage : Nat) :
    chargePartial cfg sc usage ≠ .error .fuel := by
  unfold chargePartial
  dsimp only
  split_ifs
  · exact bind_ne_fuel (require_ne_fuel _) fun _ _ => bind_ne_fuel (add64_ne_fuel _ _) fun _ _ =>
      bind_ne_fuel (sub64_ne_fuel _ _) fun _ _ => bind_ne_fuel (add64_ne_fuel _ _) fun _ _ =>
        scheduleUsed_ne_fuel _ _
  · exact nofun

theorem Funded.chargePartial {usage : Nat} (hf : Funded sc)
    (h : chargePartial cfg sc usage = .ok sc') : Funded sc' := by
  unfold Mcs.chargePartial at h
  dsimp only at h
  split_ifs at h with hc
  · obtain ⟨max, period, sp, hd, q, hs, hlen, hpos⟩ := hf
    rw [hs.head] at h
    obtain ⟨_, hgt, h⟩ := bind_eq_ok h
    have hgt := of_decide_eq_true (require_cases hgt)
    obtain ⟨_, -, a, ha, h⟩ := bind2_eq_ok h
    obtain ⟨b, -, h⟩ := bind_eq_ok h
    unfold sub64 at ha
    split_ifs at ha
    cases ha
    have hs1 := (hs.setHead ⟨hd.rTime, hd.rAmount - usage⟩)
    rw [hs1.head] at h
    refine Funded.scheduleUsed (hs1.setHead ⟨b, hd.rAmount - usage⟩) (List.cons_ne_nil _ _) hlen
      (fun r hr => ?_) hc.1 h
    rcases List.mem_cons.mp hr with rfl | hr
    · exact Nat.sub_pos_of_lt hgt
    · exact hpos r (.tail hd hr)
  · cases h
    exact hf

/-- The loop that merges a small head ends, since each round takes one refill away. -/
theorem mergeInsufficient_ends : ∀ {n : Nat} {sc : SchedContext} {h : Refill} {q : List Refill},
    q.length < n → Holds sc max period sp (h :: q) → mergeInsufficient cfg n sc ≠ .error .fuel
  | 0, _, _, _, hn, _ => absurd hn (Nat.not_lt_zero _)
  | n + 1, sc, h, q, hn, hs => by
    rw [mergeInsufficient]
    split_ifs
    · refine bind_ne_fuel ?_ fun sc1 h1 => ?_
      · exact bind_ne_fuel (refillPopHead_ne_fuel sc) fun _ _ => bind_ne_fuel (add64_ne_fuel _ _)
          fun _ _ => bind_ne_fuel (sub64_ne_fuel _ _) fun _ _ => by simp
      · cases q with
        | nil =>
          -- a single refill cannot be taken away
          obtain ⟨r, hr, -⟩ := bind_eq_ok h1
          obtain ⟨_, hr, -⟩ := bind_eq_ok hr
          have := require_cases hr
          rw [hs.single] at this
          cases this
        | cons b q =>
          obtain ⟨sc2, hpop, hs2⟩ := hs.popHead
          unfold mergeNonoverlappingHeadRefill at h1
          rw [hpop, ok_bind] at h1
          obtain ⟨a, -, c, -, h1⟩ := bind2_eq_ok h1
          cases h1
          exact mergeInsufficient_ends (Nat.lt_of_succ_lt_succ hn) ((hs2.setHead _).setHead _)
    · simp

/-- **`refill_budget_check` ends for every usage.** -/
theorem refillBudgetCheck_ends (hf : Funded sc) (usage : Nat) :
    refillBudgetCheck cfg sc usage ≠ .error .fuel := by
  have hover := Funded.handleOverrun_ends cfg (Nat.lt_succ_self usage) hf
  refine bind_ne_fuel (require_ne_fuel _) fun _ _ => bind_ne_fuel hover.1 fun r hr => ?_
  refine bind_ne_fuel (chargePartial_ne_fuel _ _) fun sc2 h2 => ?_
  obtain ⟨max, period, sp, h, q, hs, hlen, -⟩ := (hover.2 r hr).chargePartial h2
  exact mergeInsufficient_ends (by rw [hs.max]; exact hlen) hs

end Ends

/-! ## The whole function -/

/-- A refill queue of a configured scheduling context that is not round robin: the indices are in
the buffer, each refill ends before the next is released and holds something, the head holds at
least the minimum, and all of it is less than a period, which is at most the period that
`SchedControl_ConfigureFlags` accepts. -/
structure ChargeableQueue (cfg : TimerConfig) (sc : SchedContext) : Prop where
  head_lt : sc.scRefillHead < sc.scRefillMax
  tail_lt : sc.scRefillTail < sc.scRefillMax
  refills : minRefills ≤ sc.scRefillMax
  ordered : Ordered sc.queue
  pos : ∀ r ∈ sc.queue, 0 < r.rAmount
  head_min : cfg.minBudget ≤ (refillHead sc).rAmount
  total_lt : total sc.queue < sc.scPeriod
  period_le : sc.scPeriod ≤ cfg.maxPeriod

namespace ChargeableQueue

variable {cfg : TimerConfig} {sc : SchedContext}

section

variable (h : ChargeableQueue cfg sc)
include h

theorem wf : sc.ring.WF := ⟨h.head_lt, h.tail_lt⟩

theorem holds : ∃ q,
    Holds sc sc.scRefillMax sc.scPeriod sc.scSporadic (refillHead sc :: q) ∧ q.length < sc.scRefillMax := by
  have hlen : sc.queue.length = refillSize sc := RingBuffer.length_toList sc.ring
  have hsize : refillSize sc ≤ sc.scRefillMax := RingBuffer.size_le h.wf
  obtain ⟨r, q, hq⟩ : ∃ r q, sc.queue = r :: q :=
    List.exists_cons_of_ne_nil fun hnil => by
      rw [hnil] at hlen
      exact absurd hlen.symm (Nat.ne_of_gt (RingBuffer.size_pos sc.ring))
  have hs : Holds sc sc.scRefillMax sc.scPeriod sc.scSporadic (r :: q) := ⟨h.wf, hq, rfl, rfl, rfl⟩
  rw [hq, List.length_cons] at hlen
  rw [hs.head]
  exact ⟨q, hs, by omega⟩

theorem params : Params cfg sc.scRefillMax sc.scPeriod (total sc.queue) := by
  obtain ⟨q, hs, -⟩ := h.holds
  refine ⟨h.head_min.trans ?_, h.total_lt, h.period_le, h.refills⟩
  rw [hs.queue]
  exact Nat.le_add_right _ _

end

end ChargeableQueue

/-- **Charging never brings budget forward.** Whatever the usage, `refill_budget_check` ends. If no
refill is released at `MAX_RELEASE_TIME` or later, it returns, the sum of all amounts is as before, at no
time can more be used than before, and up to one period after the release of the old head the usage
is missing. -/
theorem charging_never_brings_budget_forward (cfg : TimerConfig) (sc : SchedContext) (usage : Nat)
    (h : ChargeableQueue cfg sc) : refillBudgetCheck cfg sc usage ≠ .error .fuel ∧
      ((∀ r ∈ sc.queue, r.rTime < cfg.maxReleaseTime) →
        ∃ sc', refillBudgetCheck cfg sc usage = .ok sc' ∧ total sc'.queue = total sc.queue ∧
          (∀ t, supply sc'.queue t ≤ supply sc.queue t) ∧ ∀ t ≤ (refillHead sc).rTime + sc.scPeriod,
            supply sc'.queue t ≤ supply sc.queue t - usage) := by
  obtain ⟨q, hs, hlen⟩ := h.holds
  have hpos := h.pos
  rw [hs.queue] at hpos
  refine ⟨refillBudgetCheck_ends ⟨_, _, _, _, q, hs, hlen, hpos⟩ usage, fun hbelow => ?_⟩
  have hinv : QueueInv cfg sc.scRefillMax (total sc.queue) sc.queue := by
    refine ⟨?_, ?_, h.ordered, rfl, h.pos, fun r hr => ?_⟩
    · rw [hs.queue]
      exact List.cons_ne_nil _ _
    · rw [hs.queue]
      exact hlen
    · exact Nat.le_add_right_of_le (Nat.le_of_lt (hbelow r hr))
  rw [hs.queue] at hbelow
  obtain ⟨sc', hrun, hs', hinv', -⟩ := Holds.budgetCheck h.params ⟨h.wf, rfl, rfl, rfl, rfl⟩ hinv usage
  rw [hs.queue] at hs' hinv'
  have hq := hs.queue
  have hparams := h.params
  rw [hq] at hinv hparams ⊢
  have hch := budgetCheckQueue_before hparams hinv hbelow usage
  refine ⟨sc', hrun, ?_⟩
  rw [hs'.queue]
  exact ⟨hinv'.sum, hch.le, hch.before⟩

/-- Two refills of 600 and 400 ticks, 5000 ticks apart, of a context with period 20000. -/
def twoRefills : SchedContext where
  scPeriod := 20000
  scRefillMax := 3
  scRefillHead := 2
  scRefillTail := 0
  scSporadic := true
  refills i := if i = 2 then ⟨1000, 600⟩ else ⟨6000, 400⟩

/-- A usage of three times the budget and some. -/
theorem charging_never_brings_budget_forward_twoRefills :
    ∃ sc', refillBudgetCheck rk3588 twoRefills 3100 = .ok sc' ∧ total sc'.queue = 1000 ∧
      (∀ t, supply sc'.queue t ≤ supply twoRefills.queue t) ∧
      ∀ t ≤ 21000, supply sc'.queue t ≤ supply twoRefills.queue t - 3100 := by
  have hc : ChargeableQueue rk3588 twoRefills := by
    refine ⟨by decide, by decide, by decide, ?_, ?_, by decide, by decide, by decide⟩
    · exact ordered_cons.mpr ⟨by decide, ordered_singleton _⟩
    · decide
  refine (charging_never_brings_budget_forward rk3588 twoRefills 3100 hc).2 ?_
  decide

end SeL4.Mcs
