import SeL4.Lib.RingBuffer
import SeL4.Lib.Trace

/-!
# The ring buffer in shared memory

`ringbuffer.c` sends bytes through a region of `n` bytes. A sender and a receiver have a `ringbuffer_t` each, and
neither sees the offset of the other: a 0 in the cell after the last byte tells the receiver where to wait.

* `rb_transmit_byte` stores the 0 ahead and then the byte. `rb_poll_byte` reads the cell, and if it is not 0 it
  reads it again. `rb_receive_byte` polls until it gets a byte. Each access to the region is one event.
* There is no flow control, as `ringbuffer.h` says. The interleavings of `next` are those in which less than `n`
  bytes are unread at any time, a byte counting from the first store of its transmission on.

What is polled is what was sent, in order (`polls_deliver`). `rb_has_data` is the wrong way round: asking first
works exactly as long as nothing is there when the receiver asks and something is when it then receives
(`hasData_kept_iff`).
-/

namespace SeL4.Utils

open Function SeL4.Lib

/-- A sender and a receiver on one region, and what went through it. -/
structure Ring where
  base : Nat → UInt8
  /-- `offset` of the sender. -/
  tx : Nat
  /-- `offset` of the receiver. -/
  rx : Nat
  /-- The byte of an `rb_transmit_byte` that has stored its 0. -/
  storing : Option UInt8
  /-- Whether an `rb_poll_byte` has found its cell filled. -/
  polling : Bool
  /-- Whether the last call of the receiver was an `rb_has_data` that returned true. -/
  told : Bool
  /-- The bytes of the transmissions so far. -/
  sent : List UInt8
  /-- The non-zero results of `rb_poll_byte` so far. -/
  received : List UInt8

/-- An access to the region, or a call of `rb_transmit_byte` that makes none. -/
inductive Access
  | transmit (c : UInt8)
  | store
  | hasData
  | poll
  | load

namespace Ring

/-- Two `rb_new` on a region of zeros. -/
def init : Ring := ⟨fun _ => 0, 0, 0, none, false, false, [], []⟩

variable (s : Ring)

/-- `rb_has_data`. -/
def hasData : Bool := s.base s.rx == 0

def access (n : Nat) : Access → Option Ring
  | .transmit c =>
    if s.storing.isSome then none
    else if c = 0 then some s
    else some { s with base := update s.base ((s.tx + 1) % n) 0, storing := some c }
  | .store =>
    s.storing.map fun c =>
      { s with base := update s.base s.tx c, tx := (s.tx + 1) % n, storing := none, sent := s.sent ++ [c] }
  | .hasData => if s.polling then none else some { s with told := s.hasData }
  | .poll =>
    if s.polling then none
    else some { s with polling := s.base s.rx != 0, told := false }
  | .load =>
    if s.polling then
      some { s with polling := false, rx := (s.rx + 1) % n,
                    received := s.received ++ [s.base s.rx].filter (· ≠ 0) }
    else none

/-- The non-zero bytes passed to `rb_transmit_byte`. -/
def passed : List UInt8 := s.sent ++ s.storing.toList

/-- The transmitted bytes that were not received. -/
def unread : List UInt8 := s.sent.drop s.received.length

/-- An access that leaves less than `n` bytes unread. -/
def next (n : Nat) (a : Access) : Option Ring :=
  (s.access n a).filter fun t => t.passed.length < t.received.length + n

/-! ## The invariant -/

variable {n : Nat} {s}

/-- A byte has its place by its number: the cells from the receiver's offset hold what is unread, and a 0 follows. -/
structure Inv (n : Nat) (s : Ring) : Prop where
  tx : s.tx = s.sent.length % n
  rx : s.rx = s.received.length % n
  received : s.received <+: s.sent
  nonzero : ∀ c ∈ s.passed, c ≠ 0
  cell : ∀ i c, s.received.length ≤ i → s.sent[i]? = some c → s.base (i % n) = c
  zero : s.base (s.sent.length % n) = 0
  ahead : s.storing ≠ none → s.base ((s.sent.length + 1) % n) = 0
  polling : s.polling = true → s.unread ≠ []

theorem inv_init : Inv n init where
  tx := (Nat.zero_mod n).symm
  rx := (Nat.zero_mod n).symm
  received := List.prefix_rfl
  nonzero _ hc := absurd hc List.not_mem_nil
  cell _ _ _ hc := by cases hc
  zero := rfl
  ahead _ := rfl
  polling := nofun

/-- Bytes less than `n` apart are in different cells. -/
theorem cell_ne {i j : Nat} (hi : i < j) (hj : j < i + n) : i % n ≠ j % n := by
  intro h
  have := RingBuffer.offset_inj (a := 0) (b := j - i) (c := n) (by omega) (by omega)
    (by rwa [Nat.add_zero, Nat.add_sub_cancel' hi.le])
  omega

namespace Inv

variable (h : Inv n s)
include h

theorem sent_eq : s.received ++ s.unread = s.sent := List.prefix_iff_eq_append.mp h.received

/-- The receiver finds the oldest unread byte, or 0. -/
theorem base_rx : s.base s.rx = s.unread.headD 0 := by
  rw [h.rx]
  cases hu : s.unread with
  | nil =>
    have hs := h.sent_eq
    rw [hu, List.append_nil] at hs
    rw [hs]
    exact h.zero
  | cons c l =>
    apply h.cell _ _ le_rfl
    rw [← h.sent_eq, hu, List.getElem?_append_right le_rfl, Nat.sub_self]
    rfl

theorem mem_unread {c : UInt8} (hc : c ∈ s.unread) : c ≠ 0 :=
  h.nonzero c (List.mem_append_left _ (List.mem_of_mem_drop hc))

theorem base_rx_ne_zero_iff : s.base s.rx ≠ 0 ↔ s.unread ≠ [] := by
  rw [h.base_rx]
  cases hu : s.unread with
  | nil => simp
  | cons c l => simpa using h.mem_unread (hu ▸ List.mem_cons_self)

theorem transmit {c : UInt8} (hc : c ≠ 0) (hst : s.storing = none)
    (hb : s.sent.length + 1 < s.received.length + n) :
    Inv n { s with base := update s.base ((s.tx + 1) % n) 0, storing := some c } := by
  have htx : (s.tx + 1) % n = (s.sent.length + 1) % n := by rw [h.tx, Nat.mod_add_mod]
  refine ⟨h.tx, h.rx, h.received, ?_, ?_, ?_, ?_, h.polling⟩
  · have hn := h.nonzero
    simp only [passed, hst, Option.toList_none, List.append_nil] at hn
    simpa [passed, or_imp, forall_and, hc] using hn
  · intro i d (hi : s.received.length ≤ i) (hd : s.sent[i]? = some d)
    have hlt := (List.getElem?_eq_some_iff.mp hd).1
    show update s.base _ 0 (i % n) = d
    rw [htx, update_of_ne (cell_ne (by omega) (by omega))]
    exact h.cell i d hi hd
  · show update s.base _ 0 _ = 0
    rw [update_apply]
    split_ifs
    · rfl
    · exact h.zero
  · intro _
    show update s.base _ 0 _ = 0
    rw [htx, update_self]

theorem store {c : UInt8} (hst : s.storing = some c) (hb : s.sent.length + 1 < s.received.length + n) :
    Inv n { s with base := update s.base s.tx c, tx := (s.tx + 1) % n, storing := none,
                   sent := s.sent ++ [c] } := by
  have hle := h.received.length_le
  have hlen : (s.sent ++ [c]).length = s.sent.length + 1 := List.length_append
  refine ⟨?_, h.rx, h.received.trans (List.prefix_append _ _), ?_, ?_, ?_, nofun, ?_⟩
  · rw [hlen, h.tx, Nat.mod_add_mod]
  · simpa [passed, hst] using h.nonzero
  · intro i d (hi : s.received.length ≤ i) (hd : (s.sent ++ [c])[i]? = some d)
    show update s.base s.tx c (i % n) = d
    rw [h.tx]
    -- the byte just stored, or one before it
    rcases Nat.lt_or_ge i s.sent.length with hlt | hge
    · rw [update_of_ne (cell_ne hlt (by omega))]
      exact h.cell i d hi (List.getElem?_append_left hlt ▸ hd)
    · have hlt := (List.getElem?_eq_some_iff.mp hd).1
      obtain rfl : i = s.sent.length := by omega
      rw [List.getElem?_concat_length] at hd
      rw [update_self, Option.some.inj hd]
  · show update s.base s.tx c ((s.sent ++ [c]).length % n) = 0
    rw [hlen, h.tx, update_of_ne (cell_ne (Nat.lt_succ_self _) (by omega)).symm]
    exact h.ahead (by rw [hst]; nofun)
  · intro hp hu
    have hu' : (s.sent ++ [c]).drop s.received.length = [] := hu
    have := List.drop_eq_nil_iff.mp hu'
    omega

theorem load (hp : s.polling = true) :
    Inv n { s with polling := false, rx := (s.rx + 1) % n,
                   received := s.received ++ [s.base s.rx].filter (· ≠ 0) } := by
  obtain ⟨c, l, hu⟩ := List.exists_cons_of_ne_nil (h.polling hp)
  have hc : [s.base s.rx].filter (· ≠ 0) = [c] := by
    rw [h.base_rx, hu]
    simpa using h.mem_unread (hu ▸ List.mem_cons_self)
  rw [hc]
  have hlen : (s.received ++ [c]).length = s.received.length + 1 := List.length_append
  refine ⟨h.tx, ?_, ⟨l, ?_⟩, h.nonzero, ?_, h.zero, h.ahead, nofun⟩
  · rw [hlen, h.rx, Nat.mod_add_mod]
  · rw [List.append_assoc, List.singleton_append, ← hu, h.sent_eq]
  · intro i d (hi : (s.received ++ [c]).length ≤ i) hd
    exact h.cell i d (by omega) hd

end Inv

/-- **One access keeps the invariant**, if less than `n` bytes are unread after it. -/
theorem inv_next {s' : Ring} {a : Access} (h : Inv n s) (hs : s.next n a = some s') : Inv n s' := by
  obtain ⟨ha, hb⟩ := Option.filter_eq_some_iff.mp hs
  cases a with
  | transmit c =>
    simp only [access] at ha
    split_ifs at ha with hst hc
    · cases ha
      exact h
    · cases ha
      exact h.transmit hc (Option.not_isSome_iff_eq_none.mp hst) (by simpa [passed] using hb)
  | store =>
    obtain ⟨c, hst, rfl⟩ := Option.map_eq_some_iff.mp ha
    exact h.store hst (by simpa [passed] using hb)
  | hasData =>
    simp only [access] at ha
    split_ifs at ha
    cases ha
    exact ⟨h.tx, h.rx, h.received, h.nonzero, h.cell, h.zero, h.ahead, h.polling⟩
  | poll =>
    simp only [access] at ha
    split_ifs at ha
    cases ha
    exact ⟨h.tx, h.rx, h.received, h.nonzero, h.cell, h.zero, h.ahead,
      fun hp => h.base_rx_ne_zero_iff.mp (bne_iff_ne.mp hp)⟩
  | load =>
    simp only [access] at ha
    split_ifs at ha with hp
    cases ha
    exact h.load hp

theorem inv_run {tr : List Access} (hr : runFrom (next · n) init tr = some s) : Inv n s :=
  runFrom_invariant (P := fun _ => Inv n) inv_init (fun _ _ _ _ _ h hs => inv_next h hs) hr

/-- **Polls deliver in order.** What was received is the beginning of what was passed to `rb_transmit_byte`. A poll
returns 0 only if no transmitted byte is unread, and one that found its cell filled returns a byte. -/
theorem polls_deliver {tr : List Access} (hr : runFrom (next · n) init tr = some s) :
    s.received <+: s.passed ∧
      (∀ s', s.next n .poll = some s' → s'.polling = false → s.received = s.sent) ∧
      ∀ s', s.next n .load = some s' → ∃ c ≠ 0, s'.received = s.received ++ [c] := by
  have h := inv_run hr
  refine ⟨h.received.trans (List.prefix_append _ _), ?_, ?_⟩
  · intro s' hs hp
    have ha := (Option.filter_eq_some_iff.mp hs).1
    simp only [access] at ha
    split_ifs at ha
    cases ha
    have hu : s.unread = [] := by
      by_contra hne
      exact h.base_rx_ne_zero_iff.mpr hne (bne_eq_false_iff_eq.mp hp)
    rw [← h.sent_eq, hu, List.append_nil]
  · intro s' hs
    have ha := (Option.filter_eq_some_iff.mp hs).1
    simp only [access] at ha
    split_ifs at ha with hp
    cases ha
    have hc := h.base_rx_ne_zero_iff.mpr (h.polling hp)
    exact ⟨_, hc, by simp [hc]⟩

theorem polls_deliver_twoCells : ∃ s, runFrom (next · 2) init
    [.transmit 7, .hasData, .store, .poll, .transmit 0, .load, .poll, .transmit 8] = some s ∧
    s.received = [7] ∧ s.received <+: s.passed := by
  refine ⟨?_, ?run, ?_, (polls_deliver ?run).1⟩
  case run => rfl
  rfl

/-! ## Asking first -/

/-- What `rb_has_data` is for: it returns false only if nothing is unread, and the call of `rb_receive_byte` after it
returned true finds the oldest unread byte in its first poll. -/
def Kept (s : Ring) : Access → Prop
  | .hasData => s.hasData = false → s.unread = []
  | .poll => s.told = true → s.base s.rx ≠ 0 ∧ s.unread.head? = some (s.base s.rx)
  | _ => True

/-- The receiver asks when nothing is unread, and a byte was transmitted before it then receives. -/
def Late (s : Ring) : Access → Prop
  | .hasData => s.unread = []
  | .poll => s.told = true → s.unread ≠ []
  | _ => True

theorem kept_iff (h : Inv n s) (a : Access) : Kept s a ↔ Late s a := by
  have hne := h.base_rx_ne_zero_iff
  cases a with
  | hasData =>
    have hf : s.hasData = false ↔ s.unread ≠ [] := by rw [← hne, hasData, beq_eq_false_iff_ne]
    tauto
  | poll =>
    refine forall_congr' fun _ => ⟨fun hk => hne.mp hk.1, fun hu => ⟨hne.mpr hu, ?_⟩⟩
    obtain ⟨c, l, hu⟩ := List.exists_cons_of_ne_nil hu
    rw [h.base_rx, hu]
    rfl
  | _ => exact .rfl

/-- **Asking first works only for a receiver that asks too early**, since `rb_has_data` returns whether the cell
is 0. -/
theorem hasData_kept_iff (n : Nat) (tr : List Access) :
    EveryStep (next · n) Kept init tr ↔ EveryStep (next · n) Late init tr :=
  everyStep_congr (fun _ _ _ h => inv_next h) (fun _ a h => kept_iff h a) inv_init

/-- A byte is there and `rb_has_data` returns false; nothing is there, it returns true and the receiver waits. -/
theorem hasData_inverted : ¬ EveryStep (next · 2) Kept init [.transmit 1, .store, .hasData] ∧
    ¬ EveryStep (next · 2) Kept init [.hasData, .poll] :=
  ⟨fun h => absurd (((h.2 _ rfl).2 _ rfl).1 rfl) (by decide), fun h => ((h.2 _ rfl).1 rfl).1 rfl⟩

end Ring

end SeL4.Utils
