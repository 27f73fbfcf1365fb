import SeL4.Thread.Requests

/-!
# The release queue

`tcbReleaseEnqueue`, `tcbReleaseRemove` and `awaken` of `tcb.c` and `thread.c`, which exist on MCS. The threads in the
release queue wait for their head refill.

`ReleaseReach cfg s a` holds of the states that are reached from empty queues by these operations and
by any other step that leaves the head refill times of waiting threads alone. `Arrivals` numbers the
calls of `tcbReleaseEnqueue`, so that the order of arrival can be stated.

Results: `ReleaseInv` and what each operation does to it (`ReleaseInv.enqueue`, `ReleaseInv.remove`, `awaken_eq`),
and `release_queue_ordered`, which collects them: the queue is well linked and sorted by release
time, with ties in order of arrival; a change of its head sets `ksReprogram`; `awaken` takes out the
threads whose head refill is ready, in that order, and hands each to `possibleSwitchTo`.
-/

namespace SeL4.Thread

open SeL4.Lib SeL4.Object Links Function SysState

variable {cfg : SysConfig} {lr : List Word} {s s' : SysState} {t : Word}

namespace SysState

/-- The head refill of the thread is ready. -/
def threadReady (s : SysState) (t : Word) : Bool := s.refillReady (s.tcbSchedContext t)

/-- A round of `awaken`, for the thread at the head of the queue. -/
def wake (cfg : SysConfig) (t : Word) (s : SysState) : Checked SysState := do
  require (t != s.ksCurThread)
  let s := s.tcbReleaseRemove t
  require (!Mcs.isRoundRobin (s.sc (s.tcbSchedContext t)))
  require (s.refillSufficient cfg (s.tcbSchedContext t) 0)
  s.possibleSwitchTo cfg t

theorem threadReady_eq_true : s.threadReady t = true ↔ s.tcbReadyTime t ≤ s.ksCurTime := by
  exact decide_eq_true_iff

end SysState

/-! ## The order -/

/-- When threads joined the release queue. -/
structure Arrivals where
  number : Word → Nat
  next : Nat

/-- A thread joins the release queue. -/
def Arrivals.add (a : Arrivals) (t : Word) : Arrivals := ⟨update a.number t a.next, a.next + 1⟩

/-- The order of the release queue. -/
def Arrivals.Before (a : Arrivals) (time : Word → Nat) (x y : Word) : Prop :=
  time x < time y ∨ time x = time y ∧ a.number x < a.number y

theorem Arrivals.Before.le {a : Arrivals} {time : Word → Nat} {x y : Word} (h : a.Before time x y) :
    time x ≤ time y := by
  rcases h with h | h
  · exact h.le
  · exact h.1.le

namespace SchedInv.ReleasePlace

variable {time : Word → Nat} {newTime : Nat} {A B : List Word} {a : Arrivals}

/-- In a sorted queue none before the place is released later. -/
theorem before_all (h : ReleasePlace time newTime A B) (hs : A.Pairwise (a.Before time)) :
    ∀ x ∈ A, time x ≤ newTime := by
  intro x hx
  rcases List.eq_nil_or_concat' A with rfl | ⟨A, y, rfl⟩
  · cases hx
  · have hy := h.before y List.getLast?_concat
    rcases List.mem_append.mp hx with hx | hx
    · exact ((List.pairwise_append.mp hs).2.2 x hx y (.head _)).le.trans hy
    · rw [List.mem_singleton.mp hx]
      exact hy

/-- All after the place are. -/
theorem after_all (h : ReleasePlace time newTime A B) (hs : B.Pairwise (a.Before time)) :
    ∀ x ∈ B, newTime < time x := by
  intro x hx
  cases B with
  | nil => cases hx
  | cons y B =>
    have hy := h.after y rfl
    rcases List.mem_cons.mp hx with rfl | hx
    · exact hy
    · exact hy.trans_le ((List.pairwise_cons.mp hs).1 x hx).le

/-- A thread that arrives at its place keeps the order. -/
theorem sorted (h : ReleasePlace time (time t) A B) (hs : (A ++ B).Pairwise (a.Before time))
    (hn : ∀ x ∈ A ++ B, a.number x < a.next) (ht : t ∉ A ++ B) :
    (A ++ t :: B).Pairwise ((a.add t).Before time) := by
  have hold : ∀ x ∈ A ++ B, (a.add t).number x = a.number x := fun x hx =>
    update_of_ne (ne_of_mem_of_not_mem hx ht) _ _
  have hnew : (a.add t).number t = a.next := update_self _ _ _
  have hkeep : (A ++ B).Pairwise ((a.add t).Before time) := by
    refine hs.imp_of_mem fun hx hy hxy => ?_
    unfold Arrivals.Before
    rwa [hold _ hx, hold _ hy]
  obtain ⟨hA, hB, hcross⟩ := List.pairwise_append.mp hs
  obtain ⟨hA', hB', hcross'⟩ := List.pairwise_append.mp hkeep
  refine List.pairwise_append.mpr ⟨hA', List.pairwise_cons.mpr ⟨fun y hy => ?_, hB'⟩, ?_⟩
  · exact .inl (h.after_all hB y hy)
  · intro x hx y hy
    rcases List.mem_cons.mp hy with rfl | hy
    · -- the thread goes after those with its own time
      rcases (h.before_all hA x hx).lt_or_eq with hlt | heq
      · exact .inl hlt
      · refine .inr ⟨heq, ?_⟩
        have hx' := List.mem_append_left B hx
        rw [hold x hx', hnew]
        exact hn x hx'
    · exact hcross' x hx y hy

end SchedInv.ReleasePlace

/-! ## The operations -/

namespace SchedSound

variable (h : SchedSound cfg lr s)
include h

theorem isQueue : IsQueue 0 s.tcbSched s.ksReleaseQueue lr := by
  obtain ⟨l, hinv, rfl⟩ := h.holds
  exact hinv.queues.isQueue .release

theorem nodup : lr.Nodup := by
  obtain ⟨l, hinv, rfl⟩ := h.holds
  exact hinv.queues.nodup .release

theorem ne_zero (ht : t ∈ lr) : t ≠ 0 := by
  obtain ⟨l, hinv, rfl⟩ := h.holds
  exact hinv.queues.ne_null .release t ht

theorem length_lt : lr.length < loopBound := by
  obtain ⟨l, hinv, rfl⟩ := h.holds
  exact SchedInv.length_lt_loopBound hinv.queues.toQueues .release

/-- `tcbReleaseRemove` takes the thread out, if it is there, and sets `ksReprogram` if it was first. -/
theorem tcbReleaseRemove (t : Word) : SchedSound cfg (lr.erase t) (s.tcbReleaseRemove t) ∧
      (s.tcbReleaseRemove t).tcbInReleaseQueue = update s.tcbInReleaseQueue t false ∧
      ((s.tcbReleaseRemove t).ksReprogram = true ↔ s.ksReprogram = true ∨ lr.head? = some t) := by
  have hhead := h.isQueue.head
  obtain ⟨l, hinv, hrel⟩ := h.holds
  cases hr : s.tcbInReleaseQueue t with
  | false =>
    have hnot : t ∉ lr := fun hm => by
      rw [h.holds.mem_iff, hr] at hm
      cases hm
    have heq : s.tcbReleaseRemove t = s := by
      unfold SysState.tcbReleaseRemove SchedQueues.releaseRemove
      rw [if_neg (by rw [hr]; exact Bool.false_ne_true), Bool.or_false]
    rw [heq, List.erase_of_not_mem hnot, ← hr, update_eq_self]
    refine ⟨h, rfl, (or_iff_left fun hm => ?_).symm⟩
    exact hnot (List.mem_of_mem_head? hm)
  | true =>
    obtain ⟨hinv', -, hflag⟩ := hinv.releaseRemove hr
    have hmem := (h.holds.mem_iff t).mpr hr
    refine ⟨⟨⟨_, hinv', ?_⟩, fun hm => ?_, h.candidate_ne⟩, hflag, ?_⟩
    · rw [update_self, hrel]
    · rw [h.release hm, List.erase_nil]
    · have hfirst : (s.releaseRemove t).1 = (s.ksReleaseQueue.head == t) := by
        unfold SchedQueues.releaseRemove
        rw [if_pos hr]
      change (s.ksReprogram || (s.releaseRemove t).1) = true ↔ _
      rw [hfirst, hhead, Bool.or_eq_true, beq_iff_eq]
      cases lr with
      | nil => cases hmem
      | cons x lr => rw [List.headD_cons, List.head?_cons, Option.some_inj]

/-- `tcbReleaseEnqueue` puts the thread at its place, and sets `ksReprogram` if that is the first. -/
theorem tcbReleaseEnqueue (hm : cfg.mcs = true) (ht : t ≠ 0)
    (hr : s.tcbInReleaseQueue t = false) (hq : s.tcbQueued t = false) :
    ∃ s' A B, s.tcbReleaseEnqueue t = .ok s' ∧ lr = A ++ B ∧
      SchedInv.ReleasePlace s.tcbReadyTime (s.tcbReadyTime t) A B ∧
      SchedSound cfg (A ++ t :: B) s' ∧ (A = [] → s'.ksReprogram = true) ∧
      s'.tcbReadyTime = s.tcbReadyTime := by
  obtain ⟨l, hinv, hrel⟩ := h.holds
  obtain ⟨r, q', A, B, heq, hl, hplace, hfirst, hinv', -, -⟩ :=
    hinv.releaseEnqueue s.tcbReadyTime ht hq hr
  unfold SysState.tcbReleaseEnqueue
  rw [heq]
  refine ⟨_, A, B, rfl, hrel.symm.trans hl, hplace, ⟨⟨_, hinv', update_self _ _ _⟩, ?_, ?_⟩,
    fun hA => ?_, rfl⟩
  · exact fun hm' => by rw [hm] at hm'; cases hm'
  · exact h.candidate_ne
  · rw [hfirst.mpr hA, Bool.or_true]

end SchedSound

/-! ## `awaken` -/

/-- What rounds of `awaken` do besides emptying the queue: only the queues, the decision and
`ksReprogram` change, and `ksReprogram` is not cleared. -/
structure WakeFrame (s s' : SysState) : Prop where
  eq : ∃ q a r, s' = { s with toSchedQueues := q, ksSchedulerAction := a, ksReprogram := r }
  reprogram : s.ksReprogram = true → s'.ksReprogram = true

namespace WakeFrame

variable {s'' : SysState}

theorem refl (s : SysState) : WakeFrame s s := ⟨⟨_, _, _, rfl⟩, id⟩

theorem trans (h : WakeFrame s s') (h' : WakeFrame s' s'') : WakeFrame s s'' := by
  refine ⟨?_, fun hr => h'.reprogram (h.reprogram hr)⟩
  obtain ⟨q, a, r, rfl⟩ := h.eq
  obtain ⟨q', a', r', rfl⟩ := h'.eq
  exact ⟨q', a', r', rfl⟩

theorem tcbReadyTime (h : WakeFrame s s') : s'.tcbReadyTime = s.tcbReadyTime := by
  obtain ⟨q, a, r, rfl⟩ := h.eq
  rfl

theorem threadReady (h : WakeFrame s s') : s'.threadReady = s.threadReady := by
  obtain ⟨q, a, r, rfl⟩ := h.eq
  rfl

end WakeFrame

theorem SysState.tcbReleaseRemove_wakeFrame (t : Word) (s : SysState) :
    WakeFrame s (s.tcbReleaseRemove t) :=
  ⟨⟨_, _, _, rfl⟩, fun hr => by
    unfold tcbReleaseRemove
    rw [hr, Bool.true_or]⟩

theorem ActionFrame.wakeFrame (h : ActionFrame s s') : WakeFrame s s' := by
  obtain ⟨q, a, rfl, -⟩ := h
  exact ⟨⟨q, a, _, rfl⟩, id⟩

/-- A round that returns has taken the thread out. -/
theorem SchedSound.wake (h : SchedSound cfg (t :: lr) s) (heq : s.wake cfg t = .ok s') :
    SchedSound cfg lr s' ∧ WakeFrame s s' ∧ s'.ksReprogram = true := by
  obtain ⟨_, -, _, -, heq⟩ := bind2_eq_ok heq
  obtain ⟨_, -, heq⟩ := bind_eq_ok heq
  obtain ⟨h1, -, hrep⟩ := h.tcbReleaseRemove t
  rw [List.erase_cons_head] at h1
  obtain ⟨hr, -⟩ := h1.possibleSwitchTo (h.ne_zero (.head _)) heq
  have hf := hr.frame.wakeFrame
  exact ⟨hr.sound, (tcbReleaseRemove_wakeFrame t s).trans hf, hf.reprogram (hrep.mpr (.inr rfl))⟩

/-- The thread at the head is the one that `awaken` handles. -/
theorem SchedSound.tcbReleaseDequeue (h : SchedSound cfg (t :: lr) s) :
    s.tcbReleaseDequeue cfg = s.wake cfg t := by
  have hhead : s.ksReleaseQueue.head = t := h.isQueue.head
  have hprev : s.tcbSched.prev t = 0 := h.isQueue.chain.1
  have ht : t ≠ 0 := h.ne_zero (.head _)
  unfold SysState.tcbReleaseDequeue SysState.wake
  dsimp only
  rw [hhead, require_ok (bne_iff_ne.mpr ht), ok_bind, hprev, require_ok (beq_self_eq_true 0), ok_bind]

/-- **`awaken` goes through the threads whose head refill is ready**, and stops after the last one:
the queue is sorted, so they come first. -/
theorem SchedSound.awaken_eq : ∀ {lr : List Word} {rounds : Nat} {s : SysState},
    SchedSound cfg lr s → lr.Pairwise (fun x y => s.tcbReadyTime x ≤ s.tcbReadyTime y) →
    lr.length < rounds →
    s.awaken cfg rounds = (lr.filter s.threadReady).foldlM (fun s t => s.wake cfg t) s
  | _, 0, _, _, _, hlt => absurd hlt (Nat.not_lt_zero _)
  | [], rounds + 1, s, h, _, _ => by
    have hhead : s.ksReleaseQueue.head = 0 := h.isQueue.head
    have hno : s.releaseQNonEmptyAndReady = false := by
      unfold releaseQNonEmptyAndReady
      rw [hhead]
      rfl
    rw [awaken, hno]
    rfl
  | t :: lr, rounds + 1, s, h, hs, hlt => by
    have hhead : s.ksReleaseQueue.head = t := h.isQueue.head
    have ht : t ≠ 0 := h.ne_zero (.head _)
    have hready : s.releaseQNonEmptyAndReady = s.threadReady t := by
      unfold releaseQNonEmptyAndReady
      rw [hhead, bne_iff_ne.mpr ht]
      rfl
    obtain ⟨hle, hs⟩ := List.pairwise_cons.mp hs
    rw [awaken, hready]
    cases hr : s.threadReady t with
    | false =>
      have hnone : (t :: lr).filter s.threadReady = [] := by
        refine List.filter_eq_nil_iff.mpr fun x hx hxr => ?_
        rw [← Bool.not_eq_true, threadReady_eq_true] at hr
        rw [threadReady_eq_true] at hxr
        rcases List.mem_cons.mp hx with rfl | hx
        · exact hr hxr
        · exact hr ((hle x hx).trans hxr)
      rw [hnone]
      rfl
    | true =>
      rw [if_pos rfl, h.tcbReleaseDequeue, List.filter_cons_of_pos hr, List.foldlM_cons]
      cases hw : s.wake cfg t with
      | error e => rfl
      | ok s1 =>
        obtain ⟨h1, hf, -⟩ := h.wake hw
        rw [ok_bind, ok_bind, h1.awaken_eq (by rw [hf.tcbReadyTime]; exact hs)
          (Nat.lt_of_succ_lt_succ hlt), hf.threadReady]

/-- The rounds that return have taken out the threads at the front. -/
theorem SchedSound.wakeAll : ∀ {A B : List Word} {s s' : SysState}, SchedSound cfg (A ++ B) s →
    A.foldlM (fun s t => s.wake cfg t) s = .ok s' →
    SchedSound cfg B s' ∧ WakeFrame s s' ∧ (A ≠ [] → s'.ksReprogram = true)
  | [], B, s, s', h, heq => by
    cases heq
    exact ⟨h, .refl s, fun hA => absurd rfl hA⟩
  | t :: A, B, s, s', h, heq => by
    obtain ⟨s1, hw, heq⟩ := bind_eq_ok heq
    obtain ⟨h1, hf1, hr1⟩ := SchedSound.wake h hw
    obtain ⟨h', hf, -⟩ := h1.wakeAll heq
    exact ⟨h', hf1.trans hf, fun _ => hf.reprogram hr1⟩

/-- A sorted queue starts with the threads that are ready. -/
theorem filter_ready_append (hs : lr.Pairwise fun x y => s.tcbReadyTime x ≤ s.tcbReadyTime y) :
    lr.filter s.threadReady ++ lr.filter (fun t => !s.threadReady t) = lr := by
  induction lr with
  | nil => rfl
  | cons t lr ih =>
    obtain ⟨hle, hs⟩ := List.pairwise_cons.mp hs
    cases hr : s.threadReady t with
    | true =>
      rw [List.filter_cons_of_pos hr, List.filter_cons_of_neg (by rw [hr]; exact Bool.false_ne_true),
        List.cons_append, ih hs]
    | false =>
      have hnone : ∀ x ∈ lr, s.threadReady x = false := by
        intro x hx
        rw [← Bool.not_eq_true, threadReady_eq_true] at hr ⊢
        exact fun hxr => hr ((hle x hx).trans hxr)
      rw [List.filter_cons_of_neg (by rw [hr]; exact Bool.false_ne_true),
        List.filter_cons_of_pos (by rw [hr]; rfl),
        List.filter_eq_nil_iff.mpr fun x hx => Bool.not_eq_true _ ▸ hnone x hx,
        List.filter_eq_self.mpr fun x hx => by rw [hnone x hx]; rfl, List.nil_append]

/-- What `awaken` needs of a thread in order to pass the assertions on the way. -/
structure SysState.CanWake (cfg : SysConfig) (s : SysState) (t : Word) : Prop where
  notCurrent : t ≠ s.ksCurThread
  notRoundRobin : Mcs.isRoundRobin (s.sc (s.tcbSchedContext t)) = false
  sufficient : s.refillSufficient cfg (s.tcbSchedContext t) 0 = true
  runnable : s.isRunnable t = true
  active : s.scActive (s.tcbSchedContext t) = true

theorem WakeFrame.canWake (h : WakeFrame s s') (ht : s.CanWake cfg t) : s'.CanWake cfg t := by
  obtain ⟨q, a, r, rfl⟩ := h.eq
  exact ⟨ht.notCurrent, ht.notRoundRobin, ht.sufficient, ht.runnable, ht.active⟩

/-- Leaving the release queue makes a thread with budget a possible candidate, and no other. -/
theorem SchedReady.tcbReleaseRemove (h : SchedReady cfg lr s) (ht : s.HasBudget cfg t) :
    SchedReady cfg (lr.erase t) (s.tcbReleaseRemove t) := by
  obtain ⟨h1, hflag, -⟩ := h.toSchedSound.tcbReleaseRemove t
  refine ⟨h1, fun c hc hm hs => ?_⟩
  by_cases hct : c = t
  · rw [hct]
    exact ht
  · refine h.candidate c hc hm ?_
    unfold isSchedulable at hs ⊢
    rwa [hflag, update_of_ne hct] at hs

/-- A round returns. -/
theorem SchedReady.wake (h : SchedReady cfg (t :: lr) s) (hr : s.threadReady t = true)
    (ht : s.CanWake cfg t) : ∃ s', s.wake cfg t = .ok s' ∧ SchedReady cfg lr s' := by
  have hbudget : s.HasBudget cfg t := ⟨ht.sufficient, hr⟩
  have h1 := h.tcbReleaseRemove hbudget
  rw [List.erase_cons_head] at h1
  have hsuff : (s.tcbReleaseRemove t).refillSufficient cfg
      ((s.tcbReleaseRemove t).tcbSchedContext t) 0 = true := ht.sufficient
  unfold SysState.wake
  rw [require_ok (bne_iff_ne.mpr ht.notCurrent)]
  dsimp only
  rw [require_ok (Bool.not_eq_true' _ ▸ ht.notRoundRobin), require_ok hsuff]
  refine h1.possibleSwitchTo (h.ne_zero (.head _)) fun hm hsc hrel => ⟨?_, hbudget⟩
  unfold isSchedulable
  rw [hm, hrel]
  exact Bool.and_eq_true_iff.mpr ⟨Bool.and_eq_true_iff.mpr ⟨Bool.and_eq_true_iff.mpr
    ⟨ht.runnable, bne_iff_ne.mpr hsc⟩, ht.active⟩, rfl⟩

theorem SchedReady.wakeAll : ∀ {A B : List Word} {s : SysState}, SchedReady cfg (A ++ B) s →
    (∀ t ∈ A, s.threadReady t = true ∧ s.CanWake cfg t) →
    ∃ s', A.foldlM (fun s t => s.wake cfg t) s = .ok s'
  | [], _, s, _, _ => ⟨s, rfl⟩
  | t :: A, B, s, h, hA => by
    obtain ⟨hr, ht⟩ := hA t (.head _)
    obtain ⟨s1, hw, h1⟩ := SchedReady.wake h hr ht
    obtain ⟨-, hf, -⟩ := SchedSound.wake h.toSchedSound hw
    rw [List.foldlM_cons, hw]
    refine h1.wakeAll fun u hu => ?_
    obtain ⟨hur, huw⟩ := hA u (.tail t hu)
    exact ⟨(congrFun hf.threadReady u).trans hur, hf.canWake huw⟩

/-! ## Runs -/

/-- An operation on the release queue; or one on the ready queues or other state, as time passes,
that leaves the head refill times of the threads in the release queue alone. -/
inductive ReleaseStep (cfg : SysConfig) : SysState → Arrivals → SysState → Arrivals → Prop
  | enqueue {s s' : SysState} {a : Arrivals} (t : Word) (ht : t ≠ 0)
      (h : s.tcbReleaseEnqueue t = .ok s') : ReleaseStep cfg s a s' (a.add t)
  | remove {s : SysState} {a : Arrivals} (t : Word) : ReleaseStep cfg s a (s.tcbReleaseRemove t) a
  | awaken {s s' : SysState} {a : Arrivals} (h : s.awaken cfg loopBound = .ok s') :
      ReleaseStep cfg s a s' a
  | other {s s' : SysState} {a : Arrivals} (h : ReadyStep cfg s s')
      (hc : ∀ c, s'.ksSchedulerAction = .switchTo c → c ≠ 0) (hnow : s.ksCurTime ≤ s'.ksCurTime)
      (htime : ∀ t, s.tcbInReleaseQueue t = true → s'.tcbReadyTime t = s.tcbReadyTime t) :
      ReleaseStep cfg s a s' a

/-- The states that are reached from empty queues. -/
inductive ReleaseReach (cfg : SysConfig) : SysState → Arrivals → Prop
  | init {s : SysState} {a : Arrivals} (hq : s.toSchedQueues.Empty)
      (hb : s.toThreadParams.Bounded cfg) (hc : ∀ c, s.ksSchedulerAction = .switchTo c → c ≠ 0) :
      ReleaseReach cfg s a
  | step {s s' : SysState} {a a' : Arrivals} (h : ReleaseReach cfg s a)
      (hs : ReleaseStep cfg s a s' a') : ReleaseReach cfg s' a'

/-- The release queue holds `lr`, in order. -/
structure ReleaseInv (cfg : SysConfig) (s : SysState) (a : Arrivals) (lr : List Word) : Prop where
  sound : SchedSound cfg lr s
  order : lr.Pairwise (a.Before s.tcbReadyTime)
  recent : ∀ t ∈ lr, a.number t < a.next

namespace ReleaseInv

variable {a a' : Arrivals} (h : ReleaseInv cfg s a lr)
include h

theorem sorted : lr.Pairwise fun x y => s.tcbReadyTime x ≤ s.tcbReadyTime y :=
  h.order.imp fun hxy => hxy.le

/-- Fewer threads wait, for the same times. -/
theorem sublist {lr' : List Word} (hs : SchedSound cfg lr' s')
    (hsub : List.Sublist lr' lr) (htime : ∀ t ∈ lr', s'.tcbReadyTime t = s.tcbReadyTime t) :
    ReleaseInv cfg s' a lr' := by
  refine ⟨hs, (h.order.sublist hsub).imp_of_mem fun hx hy hxy => ?_,
    fun t ht => h.recent t (hsub.subset ht)⟩
  unfold Arrivals.Before
  rw [htime _ hx, htime _ hy]
  exact hxy

/-- `awaken` leaves the threads that are not ready. -/
theorem awaken (heq : s.awaken cfg loopBound = .ok s') :
    ReleaseInv cfg s' a (lr.filter fun t => !s.threadReady t) ∧
      (lr.filter s.threadReady ≠ [] → s'.ksReprogram = true) := by
  rw [h.sound.awaken_eq h.sorted h.sound.length_lt] at heq
  have hsound := h.sound
  rw [← filter_ready_append h.sorted] at hsound
  obtain ⟨hs', hf, hrep⟩ := hsound.wakeAll heq
  exact ⟨h.sublist hs' List.filter_sublist fun t _ => congrFun hf.tcbReadyTime t, hrep⟩

/-- `tcbReleaseEnqueue` puts the thread after those that are released no later. -/
theorem enqueue (hm : cfg.mcs = true) (ht : t ≠ 0)
    (heq : s.tcbReleaseEnqueue t = .ok s') :
    ∃ A B, lr = A ++ B ∧ ReleaseInv cfg s' (a.add t) (A ++ t :: B) ∧
      (A = [] → s'.ksReprogram = true) := by
  obtain ⟨hr, hq⟩ : s.tcbInReleaseQueue t = false ∧ s.tcbQueued t = false := by
    obtain ⟨_, hlink, -⟩ := bind_eq_ok heq
    obtain ⟨_, h1, hlink⟩ := bind_eq_ok hlink
    obtain ⟨_, h2, -⟩ := bind_eq_ok hlink
    exact ⟨Bool.not_eq_true' _ ▸ require_cases h1, Bool.not_eq_true' _ ▸ require_cases h2⟩
  have hnot : t ∉ lr := by
    rw [h.sound.holds.mem_iff, hr]
    exact Bool.false_ne_true
  obtain ⟨s1, A, B, hok, rfl, hplace, hs', hrep, htime⟩ := h.sound.tcbReleaseEnqueue hm ht hr hq
  rw [heq] at hok
  cases hok
  refine ⟨A, B, rfl, ⟨hs', ?_, fun x hx => ?_⟩, hrep⟩
  · rw [htime]
    exact hplace.sorted h.order h.recent hnot
  · change update a.number t a.next x < a.next + 1
    rw [update_apply]
    split_ifs with hxt
    · exact Nat.lt_succ_self _
    · have hx' : x ∈ A ++ B := by
        simpa [hxt] using hx
      exact Nat.lt_succ_of_lt (h.recent x hx')

/-- Every step keeps the order, and sets `ksReprogram` if the head of the queue changes. -/
theorem step (hm : cfg.mcs = true) (hs : ReleaseStep cfg s a s' a') :
    ∃ lr', ReleaseInv cfg s' a' lr' ∧ (lr'.head? ≠ lr.head? → s'.ksReprogram = true) := by
  cases hs with
  | enqueue t ht heq =>
    obtain ⟨A, B, rfl, hinv, hrep⟩ := h.enqueue hm ht heq
    refine ⟨_, hinv, fun hne => ?_⟩
    cases A with
    | nil => exact hrep rfl
    | cons x A => exact absurd rfl hne
  | remove t =>
    obtain ⟨hs', -, hrep⟩ := h.sound.tcbReleaseRemove t
    refine ⟨lr.erase t, h.sublist hs' List.erase_sublist fun _ _ => rfl, fun hne => ?_⟩
    refine hrep.mpr (.inr ?_)
    cases lr with
    | nil => exact absurd rfl hne
    | cons x lr =>
      by_cases hxt : x = t
      · rw [hxt, List.head?_cons]
      · rw [List.erase_cons_tail (by simpa using hxt)] at hne
        exact absurd rfl hne
  | awaken heq =>
    obtain ⟨hinv, hrep⟩ := h.awaken heq
    refine ⟨_, hinv, fun hne => hrep fun hnone => hne ?_⟩
    rw [List.filter_eq_self.mpr fun t ht => ?_]
    rw [List.filter_eq_nil_iff] at hnone
    simpa using hnone t ht
  | other hs hc _ htime =>
    have hsound : SchedSound cfg lr s' := ⟨h.sound.holds.step h.sound.release hs, h.sound.release, hc⟩
    refine ⟨lr, h.sublist hsound (.refl lr) fun t ht => ?_, fun hne => absurd rfl hne⟩
    exact htime t ((h.sound.holds.mem_iff t).mp ht)

omit h in
theorem reach (hm : cfg.mcs = true) (h : ReleaseReach cfg s a) : ∃ lr, ReleaseInv cfg s a lr := by
  induction h with
  | init hq hb hc =>
    exact ⟨[], ⟨⟨_, hq.inv hb, rfl⟩, fun _ => rfl, hc⟩, .nil, nofun⟩
  | step _ hs ih =>
    obtain ⟨lr, hinv⟩ := ih
    obtain ⟨lr', hinv', -⟩ := hinv.step hm hs
    exact ⟨lr', hinv'⟩

end ReleaseInv

/-- The release queue is the list `lr`. -/
structure ReleaseQueueOk (cfg : SysConfig) (s : SysState) (a : Arrivals) (lr : List Word) : Prop where
  /-- It is well linked, and head and end match. -/
  linked : IsQueue 0 s.tcbSched s.ksReleaseQueue lr
  once : lr.Nodup
  /-- A thread is in it if `tcbInReleaseQueue` is set. -/
  flag : ∀ t, t ∈ lr ↔ s.tcbInReleaseQueue t = true
  sorted : lr.Pairwise fun x y => s.tcbReadyTime x ≤ s.tcbReadyTime y
  /-- Threads with the same time are in the order of arrival. -/
  stable : lr.Pairwise fun x y => s.tcbReadyTime x = s.tcbReadyTime y → a.number x < a.number y
  /-- A thread that is in no queue can be added. -/
  enqueues : ∀ t ≠ 0, s.tcbInReleaseQueue t = false → s.tcbQueued t = false →
    ∃ s', s.tcbReleaseEnqueue t = .ok s'
  /-- `awaken` goes through the threads that are ready, in order, and ends. -/
  awakens : s.awaken cfg loopBound = (lr.filter s.threadReady).foldlM (fun s t => s.wake cfg t) s
  /-- It leaves the others. -/
  left : ∀ s', s.awaken cfg loopBound = .ok s' →
    IsQueue 0 s'.tcbSched s'.ksReleaseQueue (lr.filter fun t => !s.threadReady t) ∧
      ∀ t, s'.tcbInReleaseQueue t = true ↔ t ∈ lr ∧ s.threadReady t = false
  /-- No assertion fails if these threads can run and no candidate lacks budget. -/
  returns : (∀ t ∈ lr, s.threadReady t = true → s.CanWake cfg t) →
    (∀ c, s.ksSchedulerAction = .switchTo c → s.isSchedulable cfg c = true → s.HasBudget cfg c) →
    ∃ s', s.awaken cfg loopBound = .ok s'

theorem ReleaseInv.ok {a : Arrivals} (hm : cfg.mcs = true) (h : ReleaseInv cfg s a lr) :
    ReleaseQueueOk cfg s a lr := by
  have heq := h.sound.awaken_eq h.sorted h.sound.length_lt
  refine ⟨h.sound.isQueue, h.sound.nodup, h.sound.holds.mem_iff, h.sorted, ?_, ?_, heq, ?_, ?_⟩
  · refine h.order.imp fun hxy he => ?_
    rcases hxy with hlt | ⟨-, hlt⟩
    · exact absurd he hlt.ne
    · exact hlt
  · intro t ht hr hq
    obtain ⟨s', _, _, hok, -⟩ := h.sound.tcbReleaseEnqueue hm ht hr hq
    exact ⟨s', hok⟩
  · intro s' hok
    have hs' := (h.awaken hok).1.sound
    refine ⟨hs'.isQueue, fun t => ?_⟩
    rw [← hs'.holds.mem_iff, List.mem_filter, Bool.not_eq_true']
  · intro hwake hcand
    have hready : SchedReady cfg lr s := ⟨h.sound, fun c hc _ => hcand c hc⟩
    rw [← filter_ready_append h.sorted] at hready
    rw [heq]
    refine hready.wakeAll fun t ht => ?_
    rw [List.mem_filter] at ht
    exact ⟨ht.2, hwake t ht.1 ht.2⟩

/-- **The release queue is sorted, and `awaken` empties it up to the current time**, in every run of
`tcbReleaseEnqueue`, `tcbReleaseRemove` and `awaken` in which the head refill time of a thread stays the same
while it waits; a step that changes the head of the queue sets `ksReprogram`. -/
theorem release_queue_ordered (cfg : SysConfig) (hm : cfg.mcs = true) (s : SysState) (a : Arrivals)
    (h : ReleaseReach cfg s a) : (∃ lr, ReleaseQueueOk cfg s a lr) ∧
      ∀ s' a', ReleaseStep cfg s a s' a' → s'.ksReleaseQueue.head ≠ s.ksReleaseQueue.head →
        s'.ksReprogram = true := by
  obtain ⟨lr, hinv⟩ := ReleaseInv.reach hm h
  refine ⟨⟨lr, hinv.ok hm⟩, fun s' a' hs hne => ?_⟩
  obtain ⟨lr', hinv', hrep⟩ := hinv.step hm hs
  refine hrep fun he => hne ?_
  rw [hinv'.sound.isQueue.head, hinv.sound.isQueue.head, List.headD_eq_head?_getD,
    List.headD_eq_head?_getD, he]

/-- The contexts of threads 16 and 48 have budget at time 5, that of thread 32 at time 3. -/
def sampleRelease : SysState :=
  { zero with
    tsType := fun _ => .restart
    tcbSchedContext := fun t => t + 4096
    sc := fun x => ⟨2000000, 2, 0, 0, false, fun _ => ⟨if x = 4128 then 3 else 5, 1000000⟩⟩
    ksCurTime := 4 }

theorem release_queue_ordered_sample :
    ∃ s a lr, (sampleRelease.tcbReleaseEnqueue 16 >>= fun s => s.tcbReleaseEnqueue 32 >>= fun s =>
        s.tcbReleaseEnqueue 48 >>= fun s => s.awaken mcsSysConfig loopBound) = .ok s ∧
      s.ksReleaseQueue = ⟨16, 48⟩ ∧ s.ksSchedulerAction = .switchTo 32 ∧ s.ksReprogram = true ∧
      ReleaseQueueOk mcsSysConfig s a lr := by
  have hrun : (sampleRelease.tcbReleaseEnqueue 16 >>= fun s => s.tcbReleaseEnqueue 32 >>= fun s =>
      s.tcbReleaseEnqueue 48 >>= fun s => s.awaken mcsSysConfig loopBound >>= fun s =>
        .ok (decide (s.ksReleaseQueue = ⟨16, 48⟩ ∧ s.ksSchedulerAction = .switchTo 32 ∧
          s.ksReprogram = true))) = .ok true := by
    decide +kernel
  obtain ⟨s₁, h1, s₂, h2, hrun⟩ := bind2_eq_ok hrun
  obtain ⟨s₃, h3, s₄, h4, hrun⟩ := bind2_eq_ok hrun
  obtain ⟨hqueue, haction, hrep⟩ := of_decide_eq_true (Except.ok.inj hrun)
  have hinit : ReleaseReach mcsSysConfig sampleRelease ⟨fun _ => 0, 0⟩ := by
    refine .init ⟨fun _ => ⟨rfl, rfl⟩, fun _ => rfl, fun _ => rfl, fun j => ?_, fun _ => rfl,
      fun _ _ => rfl⟩ (fun _ => ⟨Nat.two_pow_pos 8, Nat.one_pos⟩) nofun
    cases j <;> rfl
  have hreach := ((((hinit.step (.enqueue 16 (by decide) h1)).step (.enqueue 32 (by decide) h2)).step
    (.enqueue 48 (by decide) h3)).step (.awaken h4))
  obtain ⟨⟨lr, hok⟩, -⟩ := release_queue_ordered mcsSysConfig rfl s₄ _ hreach
  refine ⟨s₄, _, lr, ?_, hqueue, haction, hrep, hok⟩
  rw [h1, ok_bind, h2, ok_bind, h3, ok_bind, h4]

end SeL4.Thread
