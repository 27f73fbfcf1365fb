import Mathlib.Algebra.BigOperators.Fin
import Mathlib.Algebra.Order.BigOperators.Group.Finset
import SeL4.Lib.Trace

/-!
# The binary semaphore

Threads repeat `sync_bin_sem_wait`, critical section and `sync_bin_sem_post` on a semaphore initialised to 1. Each
access to `value` and each kernel call is one event. The notification is a flag and the threads blocked in
`seL4_Wait`: a signal wakes one of them, or sets the flag if there is none.

A later thread can take the signal meant for one that has not reached its `seL4_Wait`. That does no harm: while `value`
is below 1 there is one right to enter (`binSem_correct`).
-/

namespace SeL4.Utils

open Function SeL4.Lib

/-- Where a thread is. -/
inductive SemPc
  /-- Outside, or before the load of `sync_atomic_decrement_safe`. -/
  | outside
  /-- Before the compare-exchange. -/
  | loaded (oldval : ℤ)
  /-- Before `seL4_Wait`. -/
  | waiting
  | blocked
  | inside
  /-- Before the assertion of post. -/
  | posted (val : ℤ)
  /-- Before the test of `val`. -/
  | asserted (val : ℤ)
  deriving DecidableEq

namespace SemPc

/-- 1 for a thread counted in `value`. -/
def busy : SemPc → Nat
  | waiting | blocked | inside => 1
  | _ => 0

/-- 1 for a thread in the critical section or about to signal. -/
def holds : SemPc → Nat
  | inside => 1
  | posted v | asserted v => if v ≤ 0 then 1 else 0
  | _ => 0

end SemPc

structure BinSem (n : Nat) where
  value : ℤ
  flag : Bool
  pc : Fin n → SemPc

inductive SemEvent (n : Nat)
  | step (t : Fin n)
  /-- The compare-exchange of `t` fails, which a weak one may at any time. -/
  | retry (t : Fin n)
  /-- The signal of `t` wakes `u`. -/
  | wake (t u : Fin n)

namespace BinSem

variable {n : Nat}

def init (n : Nat) : BinSem n := ⟨1, false, fun _ => .outside⟩

variable (s : BinSem n) (f : SemPc → Nat) (t : Fin n)

def goto (p : SemPc) : BinSem n := { s with pc := update s.pc t p }

def next : SemEvent n → Option (BinSem n)
  | .step t =>
    match s.pc t with
    | .outside =>
      -- wait returns -1 at `INT_MIN`
      if s.value = -2 ^ 31 then some s else some (s.goto t (.loaded s.value))
    | .loaded v =>
      if s.value = v then some ({ s with value := v - 1 }.goto t (if v ≤ 0 then .waiting else .inside))
      else none
    | .waiting => some (if s.flag then { s with flag := false }.goto t .inside else s.goto t .blocked)
    | .blocked => none
    | .inside =>
      let val := (s.value + 1).bmod (2 ^ 32)
      some ({ s with value := val }.goto t (.posted val))
    | .posted v => if s.value ≤ 1 then some (s.goto t (.asserted v)) else none
    | .asserted v =>
      if 0 < v then some (s.goto t .outside)
      else if ∃ u, s.pc u = .blocked then none
      else some ({ s with flag := true }.goto t .outside)
  | .retry t =>
    match s.pc t with
    | .loaded _ => some (s.goto t .outside)
    | _ => none
  | .wake t u =>
    match s.pc t, s.pc u with
    | .asserted v, .blocked => if 0 < v then none else some ((s.goto t .outside).goto u .inside)
    | _, _ => none

def count : Nat := ∑ t, f (s.pc t)

theorem le_count : f (s.pc t) ≤ s.count f :=
  Finset.single_le_sum (f := fun t => f (s.pc t)) (fun _ _ => Nat.zero_le _) (Finset.mem_univ t)

theorem count_goto (p : SemPc) : (s.goto t p).count f + f (s.pc t) = s.count f + f p := by
  have hg := apply_update (fun _ => f) s.pc t p
  have he := Finset.add_sum_erase Finset.univ (fun i => f (s.pc i)) (Finset.mem_univ t)
  simp only [count, goto, hg, Finset.sum_update_of_mem (Finset.mem_univ t), Finset.sdiff_singleton_eq_erase]
  omega

/-- While `value` is below 1 there is one right to enter: with a thread, or in the flag. -/
structure Counts : Prop where
  value : s.value + s.count SemPc.busy = 1
  holds : s.count SemPc.holds + s.flag.toNat = min 1 (1 - s.value)

structure Inv : Prop extends Counts s where
  flag : s.flag = true → ∀ t, s.pc t ≠ .blocked

variable {s t} {v : ℤ} {p q : SemPc}

theorem Counts.move {b : Bool} (h : s.Counts) (hq : s.pc t = q) (hv : v + p.busy = s.value + q.busy)
    (hh : p.holds + b.toNat + min 1 (1 - s.value) = q.holds + s.flag.toNat + min 1 (1 - v)) :
    (goto ⟨v, b, s.pc⟩ t p).Counts := by
  have hb := count_goto ⟨v, b, s.pc⟩ SemPc.busy t p
  have ht := count_goto ⟨v, b, s.pc⟩ SemPc.holds t p
  obtain ⟨hvalue, hholds⟩ := h
  simp only [count, hq] at hb ht hvalue hholds
  constructor <;> simp only [count, goto] at hb ht ⊢ <;> omega

/-- The thread that signals finds the flag clear. -/
theorem Counts.signal (h : s.Counts) (hq : s.pc t = .asserted v) (hv : ¬ 0 < v) :
    s.flag = false ∧ (goto ⟨s.value, true, s.pc⟩ t .outside).Counts := by
  have hc := s.le_count SemPc.holds t
  have hh := h.holds
  have h1 : (SemPc.asserted v).holds = 1 := if_pos (not_lt.mp hv)
  rw [hq, h1] at hc
  have hf : s.flag = false := by
    cases hf : s.flag with
    | false => rfl
    | true =>
      rw [hf, Bool.toNat_true] at hh
      omega
  refine ⟨hf, h.move hq rfl ?_⟩
  rw [h1, hf]
  rfl

theorem pc_goto_ne (hp : p ≠ .blocked) (h : ∀ u, s.pc u ≠ .blocked) (u) : (s.goto t p).pc u ≠ .blocked := by
  simp only [goto, update_apply]
  split_ifs
  · exact hp
  · exact h u

theorem Inv.move (h : s.Inv) (hq : s.pc t = q) (hp : p ≠ .blocked) (hv : v + p.busy = s.value + q.busy)
    (hh : p.holds + min 1 (1 - s.value) = q.holds + min 1 (1 - v)) :
    (goto ⟨v, s.flag, s.pc⟩ t p).Inv :=
  ⟨h.toCounts.move hq hv (by omega), fun hf => pc_goto_ne hp (h.flag hf)⟩

theorem Inv.value_range (hn : n < 2 ^ 31) (h : s.Inv) : -2 ^ 31 < s.value ∧ s.value ≤ 1 := by
  have hb := Finset.sum_le_card_nsmul Finset.univ (fun t => (s.pc t).busy) 1 fun t _ => by
    cases s.pc t <;> simp [SemPc.busy]
  have hv := h.value
  simp only [Finset.card_univ, Fintype.card_fin, smul_eq_mul, mul_one] at hb
  unfold count at hv
  omega

theorem Inv.next {s' : BinSem n} {e : SemEvent n} (hn : n < 2 ^ 31) (h : s.Inv) (hs : s.next e = some s') :
    s'.Inv := by
  have hr := h.value_range hn
  cases e with
  | step t =>
    cases hq : s.pc t <;> simp only [BinSem.next, hq] at hs
    case outside =>
      rw [if_neg hr.1.ne'] at hs
      cases hs
      exact h.move hq nofun rfl rfl
    case loaded v =>
      split_ifs at hs with hv hle <;> cases hs
      · exact h.move hq nofun (by simp [SemPc.busy, hv]) (by simp [SemPc.holds]; omega)
      · exact h.move hq nofun (by simp [SemPc.busy, hv]) (by simp [SemPc.holds]; omega)
    case waiting =>
      split_ifs at hs with hf <;> cases hs
      · exact ⟨h.toCounts.move hq rfl (by simp [SemPc.holds, hf]), nofun⟩
      · exact ⟨h.toCounts.move hq rfl rfl, fun hf' => absurd hf' hf⟩
    case blocked => cases hs
    case inside =>
      rw [Int.bmod_eq_of_le (by omega) (by omega)] at hs
      cases hs
      have hb := s.le_count SemPc.busy t
      have hv := h.value
      rw [hq, SemPc.busy] at hb
      exact h.move hq nofun (by simp [SemPc.busy]) (by simp [SemPc.holds]; split_ifs <;> omega)
    case posted v =>
      rw [if_pos hr.2] at hs
      cases hs
      exact h.move hq nofun rfl rfl
    case asserted v =>
      split_ifs at hs with hv hw <;> cases hs
      · exact h.move hq nofun rfl (by simp [SemPc.holds]; omega)
      · exact ⟨(h.signal hq hv).2, fun _ => pc_goto_ne nofun fun u hu => hw ⟨u, hu⟩⟩
  | retry t =>
    cases hq : s.pc t <;> simp only [BinSem.next, hq] at hs <;> cases hs
    exact h.move hq nofun rfl rfl
  | wake t u =>
    simp only [BinSem.next] at hs
    split at hs
    case h_1 v hq hu =>
      split_ifs at hs with hv
      cases hs
      -- as if the flag was set and the waiter then took it
      obtain ⟨hf, h1⟩ := h.signal hq hv
      have hut : u ≠ t := by
        rintro rfl
        cases hq.symm.trans hu
      have h2 := h1.move (b := s.flag) (p := .inside) ((update_of_ne hut _ _).trans hu) rfl (by rw [hf]; rfl)
      exact ⟨h2, fun hf' => absurd (hf.symm.trans hf') nofun⟩
    case h_2 => cases hs

/-- **The binary semaphore.** At most one thread is in the critical section or about to signal, and none when the
flag is set, so no signal meets another. The decrement never finds `INT_MIN` and the assertion holds. If a thread is
blocked, then one is in the critical section or about to signal. -/
theorem binSem_correct {tr : List (SemEvent n)} (hn : n < 2 ^ 31) (hr : runFrom next (init n) tr = some s) :
    s.count SemPc.holds + s.flag.toNat ≤ 1 ∧ (-2 ^ 31 < s.value ∧ s.value ≤ 1) ∧
      ∀ t, s.pc t = .blocked → s.count SemPc.holds = 1 := by
  have h : s.Inv := runFrom_invariant (P := fun _ => Inv)
    ⟨⟨by simp [count, init, SemPc.busy], by simp [count, init, SemPc.holds]⟩,
      fun hf => absurd hf Bool.false_ne_true⟩
    (fun _ _ _ _ _ h hs => h.next hn hs) hr
  have hh := h.holds
  refine ⟨by omega, h.value_range hn, fun t ht => ?_⟩
  have hb := s.le_count SemPc.busy t
  have hv := h.value
  rw [ht, SemPc.busy] at hb
  cases hf : s.flag with
  | false =>
    rw [hf, Bool.toNat_false] at hh
    omega
  | true => exact absurd ht (h.flag hf t)

theorem binSem_correct_two : ∃ s, runFrom next (init 2) [.step 0, .step 0, .step 1, .step 1, .step 1] = some s ∧
    s.pc 1 = .blocked ∧ s.count SemPc.holds = 1 := by
  refine ⟨?_, ?run, ?_, (binSem_correct (by decide) ?run).2.2 1 ?_⟩
  case run => rfl
  all_goals rfl

end BinSem

end SeL4.Utils
