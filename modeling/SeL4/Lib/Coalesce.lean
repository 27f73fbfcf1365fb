import Mathlib.Data.List.Basic

/-!
# Coalescing channels

A channel that does not queue what is sent to it, but combines it: while nobody takes it, each new
value is combined with those that are there already, and whoever takes takes the combination of all.

`Coalesced op e sent delivered pending` is the specification of such a channel after a run, for an
operation `op` with unit `e`. What was sent falls into consecutive, non-empty batches, one for each
delivery, and the values that are still there; a delivery is the combination of its batch. Nothing is
lost and nothing is delivered twice.

The rules are `Coalesced.send`, `Coalesced.deliver` and `Coalesced.pass`; `Coalesced.total` is what an
observer of the combinations alone can check.
-/

namespace SeL4.Lib

variable {M : Type} {op : M → M → M} {e : M}

/-- All values of a list, combined. -/
def combine (op : M → M → M) (e : M) (l : List M) : M := l.foldr op e

section Combine

variable [Std.LawfulIdentity op e]

theorem combine_singleton (a : M) : combine op e [a] = a := Std.LawfulRightIdentity.right_id a

variable [Std.Associative op]

theorem combine_append (l l' : List M) :
    combine op e (l ++ l') = op (combine op e l) (combine op e l') := by
  induction l with
  | nil => exact (Std.LawfulLeftIdentity.left_id _).symm
  | cons a l ih =>
    show op a (combine op e (l ++ l')) = op (op a (combine op e l)) (combine op e l')
    rw [ih]
    exact (Std.Associative.assoc a _ _).symm

theorem combine_flatten (ls : List (List M)) :
    combine op e ls.flatten = combine op e (ls.map (combine op e)) := by
  induction ls with
  | nil => rfl
  | cons l ls ih =>
    rw [List.flatten_cons, combine_append, ih]
    rfl

end Combine

/-- What was sent is what was delivered, in consecutive batches, and what is pending. -/
def Coalesced (op : M → M → M) (e : M) (sent delivered pending : List M) : Prop :=
  ∃ batches : List (List M), sent = batches.flatten ++ pending ∧
    delivered = batches.map (combine op e) ∧ ∀ l ∈ batches, l ≠ []

namespace Coalesced

variable {sent delivered pending : List M}

theorem start : Coalesced op e [] [] [] := ⟨[], rfl, rfl, nofun⟩

section

variable (h : Coalesced op e sent delivered pending)
include h

/-- A value is sent. -/
theorem send (a : M) :
    Coalesced op e (sent ++ [a]) delivered (pending ++ [a]) := by
  obtain ⟨batches, hs, hd, hne⟩ := h
  exact ⟨batches, by rw [hs, List.append_assoc], hd, hne⟩

/-- All that is pending is delivered. -/
theorem deliver (hp : pending ≠ []) :
    Coalesced op e sent (delivered ++ [combine op e pending]) [] := by
  obtain ⟨batches, hs, hd, hne⟩ := h
  refine ⟨batches ++ [pending], ?_, ?_, fun l hl => ?_⟩
  · rw [hs, List.flatten_append, List.flatten_singleton, List.append_nil]
  · rw [hd, List.map_append]
    rfl
  · rcases List.mem_append.mp hl with hl | hl
    · exact hne l hl
    · rw [List.mem_singleton.mp hl]
      exact hp

variable [Std.LawfulIdentity op e]

omit h in
/-- A value that is sent while nothing is pending is delivered at once. -/
theorem pass (h : Coalesced op e sent delivered []) (a : M) :
    Coalesced op e (sent ++ [a]) (delivered ++ [a]) [] := by
  have hd := (h.send a).deliver (List.cons_ne_nil a [])
  rwa [List.nil_append, combine_singleton] at hd

/-- **All deliveries and what is pending make up all that was sent.** -/
theorem total [Std.Associative op] :
    op (combine op e delivered) (combine op e pending) = combine op e sent := by
  obtain ⟨batches, hs, hd, -⟩ := h
  rw [hs, hd, combine_append, combine_flatten]

end

end Coalesced

end SeL4.Lib
