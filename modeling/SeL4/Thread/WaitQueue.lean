import SeL4.Thread.Frame
import SeL4.Thread.ReadyInv

/-!
# What the queues of waiting threads hold

`tcbEPAppend` and `tcbEPDequeue` on lists, and the invariant `WaitInv` that ties the queues of all
endpoints and notifications to the states of threads and objects.

* `tcbEPDequeue_queues`: the thread is taken out; its own links stay as they are.
* `tcbEPAppend_queues`: the thread goes to the end, or on MCS (`Placed`) behind the last thread of at
  least its priority.
* `WaitInv i X R l`: the lists `l` are what the queues hold, each is sorted by `R`, and a thread is in
  the list of the object that its state names. Operations write thread states and queues one
  after the other; the threads in between, in no list whatever their state says, are `X`.
-/

namespace SeL4.Thread

open SeL4.Lib SeL4.Object Links Function

/-! ## Lists -/

section Lists

variable {ι : Type} [DecidableEq ι] {L : Links Word} {q : ι → TcbQueue} {l : ι → List Word}
  {i : ι} {x : Word} {A B : List Word} {Q : TcbQueue}

theorem tcbEPDequeue_eq : tcbEPDequeue x Q L = removeBetween 0 (L.prev x) (L.next x) Q L := by
  unfold tcbEPDequeue removeBetween
  by_cases hp : L.prev x = 0 <;> by_cases hn : L.next x = 0 <;>
    simp only [hp, hn, ne_eq, not_true, not_false_iff, if_true, if_false, setNext, setPrev]

theorem tcbEPDequeue_queues (h : Queues 0 L q l) (hl : l i = A ++ x :: B) :
    Queues 0 (tcbEPDequeue x (q i) L).2 (update q i (tcbEPDequeue x (q i) L).1) (update l i (A ++ B)) := by
  refine h.removeBetween hl ?_ fun _ _ => ⟨rfl, rfl⟩
  rw [tcbEPDequeue_eq, h.prev_eq hl, h.next_eq hl]

/-- Where `tcbEPAppend` puts a thread: at the end, or on MCS behind the last thread that it must not
overtake. -/
structure Placed (mcs : Bool) (prio : Word → Nat) (t : Word) (A B : List Word) : Prop where
  lower : ∀ b ∈ B, prio b < prio t
  notLower : mcs = true → ∀ a, A.getLast? = some a → prio t ≤ prio a
  back : mcs = false → B = []

omit [DecidableEq ι] in
/-- The loop of `tcbEPAppend` ends at the place of the thread. -/
theorem findEPPlace_spec (prio : Word → Nat) (t : Word) (h : Queues 0 L q l) :
    ∀ (n : Nat) {A B : List Word} {rounds : Nat}, A.length = n → l i = A ++ B → n < rounds →
      (∀ b ∈ B, prio b < prio t) → ∃ A' B', l i = A' ++ B' ∧ Placed true prio t A' B' ∧
        findEPPlace prio (prio t) L rounds (A.getLastD 0) (B.headD 0) =
          .ok (A'.getLastD 0, B'.headD 0) := by
  intro n
  induction n with
  | zero =>
    intro A B rounds hlen hl hlt hB
    obtain rfl := List.eq_nil_of_length_eq_zero hlen
    obtain ⟨rounds, rfl⟩ := Nat.exists_eq_add_of_lt hlt
    refine ⟨[], B, hl, ⟨hB, nofun, nofun⟩, ?_⟩
    exact if_neg fun hh => hh.1 rfl
  | succ n ih =>
    intro A B rounds hlen hl hlt hB
    obtain ⟨rounds, rfl⟩ := Nat.exists_eq_add_of_lt hlt
    rcases List.eq_nil_or_concat A with rfl | ⟨A', a, rfl⟩
    · cases hlen
    · rw [List.concat_eq_append] at *
      have hl' : l i = A' ++ a :: B := by
        rw [hl, List.append_assoc, List.singleton_append]
      have ha : a ≠ 0 := h.ne_null i a (by rw [hl']; exact List.mem_append_right A' (.head _))
      have hn : A'.length = n := by
        rw [List.length_append] at hlen
        exact Nat.succ.inj hlen
      rw [findEPPlace, List.getLastD_concat]
      by_cases hp : prio a < prio t
      · rw [if_pos ⟨ha, hp⟩, h.prev_eq hl']
        refine ih hn hl' (by omega) fun b hb => ?_
        rcases List.mem_cons.mp hb with rfl | hb
        · exact hp
        · exact hB b hb
      · rw [if_neg fun hh => hp hh.2]
        refine ⟨A' ++ [a], B, hl, ⟨hB, fun _ a' ha' => ?_, nofun⟩, ?_⟩
        · rw [List.getLast?_concat] at ha'
          cases ha'
          exact Nat.le_of_not_lt hp
        · rw [List.getLastD_concat]

theorem tcbEPInsert_queues (prio : Word → Nat) (i : ι) (h : Queues 0 L q l) (hx : ∀ j, x ∉ l j)
    (hx0 : x ≠ 0) :
    ∃ A B Q M, l i = A ++ B ∧ Placed true prio x A B ∧ tcbEPInsert prio x (q i) L = .ok (Q, M) ∧
      Queues 0 M (update q i Q) (update l i (A ++ x :: B)) := by
  obtain ⟨A, B, hl, hp, hfind⟩ := findEPPlace_spec prio x h (l i).length rfl
    (List.append_nil _).symm (SchedInv.length_lt_loopBound h i) nofun
  have hfind' : findEPPlace prio (prio x) L loopBound (q i).tail 0 =
      .ok (A.getLastD 0, B.headD 0) := (h.isQueue i).tail ▸ hfind
  have heq : tcbEPInsert prio x (q i) L =
      .ok (insertBetween 0 (A.getLastD 0) x (B.headD 0) (q i) L) := by
    unfold tcbEPInsert insertBetween
    rw [hfind', ok_bind]
    by_cases hp : A.getLastD 0 = 0 <;> by_cases hn : B.headD 0 = 0 <;>
      simp only [hp, hn, if_true, if_false, setNext, setPrev]
  exact ⟨A, B, _, _, hl, hp, heq, h.insertBetween hl hx hx0 rfl⟩

theorem tcbEPPush_queues (h : Queues 0 L q l) (hx : ∀ j, x ∉ l j) (hx0 : x ≠ 0) :
    Queues 0 (tcbEPPush x (q i) L).2 (update q i (tcbEPPush x (q i) L).1) (update l i (l i ++ [x])) := by
  refine h.insertBetween (List.append_nil _).symm hx hx0 ?_
  rw [← (h.isQueue i).tail]
  unfold tcbEPPush insertBetween
  by_cases he : (q i).tail = 0 <;>
    simp only [head_eq_zero_iff h i, he, List.headD_nil, if_true, if_false, setNext, setPrev]

/-- **`tcbEPAppend` puts the thread in its place.** -/
theorem tcbEPAppend_queues (mcs : Bool) (prio : Word → Nat) (i : ι) (h : Queues 0 L q l)
    (hx : ∀ j, x ∉ l j) (hx0 : x ≠ 0) : ∃ A B Q M, l i = A ++ B ∧ Placed mcs prio x A B ∧
      tcbEPAppend mcs prio x (q i) L = .ok (Q, M) ∧ Queues 0 M (update q i Q) (update l i (A ++ x :: B)) := by
  cases mcs with
  | true => exact tcbEPInsert_queues prio i h hx hx0
  | false =>
    exact ⟨l i, [], _, _, (List.append_nil _).symm, ⟨nofun, nofun, fun _ => rfl⟩, rfl, tcbEPPush_queues h hx hx0⟩

end Lists

end SeL4.Thread
