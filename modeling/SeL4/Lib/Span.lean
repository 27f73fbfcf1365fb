import Mathlib.Data.Set.Basic

/-!
# Spans: half-open intervals and what a list of them covers

A `Span` is a pair of bounds, read as the points from `start` up to and not including `stop`. A
list of spans stands for the set `cover` of the points in any of them; two lists with the same
cover describe the same region. `Ordered` is what code that walks such a list from the left relies
on: no span has its bounds the wrong way round, and each one ends before the next begins.

* `mem_join`: two spans that meet are one span.
* `Ordered.le_of_mem_cover`: everything covered later lies above the head.
-/

namespace SeL4.Lib

/-- The points from `start` up to and not including `stop`. -/
structure Span (α : Type) where
  start : α
  stop : α
  deriving DecidableEq, Repr

namespace Span

section Defs

variable {α : Type} [LE α] [LT α] {s t : Span α} {l l' : List (Span α)} {x : α}

instance : Membership α (Span α) := ⟨fun s x => s.start ≤ x ∧ x < s.stop⟩

theorem mem_def : x ∈ s ↔ s.start ≤ x ∧ x < s.stop := .rfl

/-- The points in some span of the list. -/
def cover (l : List (Span α)) : Set α := {x | ∃ s ∈ l, x ∈ s}

/-- The bounds are in order; the span may be empty. -/
def Valid (s : Span α) : Prop := s.start ≤ s.stop

/-- `s` ends before `t` begins; they may meet. -/
def Before (s t : Span α) : Prop := s.stop ≤ t.start

/-- No point lies in both. -/
def Apart (s t : Span α) : Prop := ∀ x, x ∈ s → x ∉ t

/-- Valid spans, each of which ends before the later ones begin. -/
structure Ordered (l : List (Span α)) : Prop where
  valid : ∀ s ∈ l, s.Valid
  before : l.Pairwise Before

@[simp] theorem notMem_cover_nil : x ∉ cover ([] : List (Span α)) := by
  rintro ⟨s, hs, -⟩
  cases hs

@[simp] theorem mem_cover_cons : x ∈ cover (s :: l) ↔ x ∈ s ∨ x ∈ cover l := by
  simp [cover]

@[simp] theorem mem_cover_append : x ∈ cover (l ++ l') ↔ x ∈ cover l ∨ x ∈ cover l' := by
  induction l with
  | nil => simp
  | cons s l ih => simp [ih, or_assoc]

theorem Apart.symm (h : s.Apart t) : t.Apart s := fun x ht hs => h x hs ht

end Defs

section Order

variable {α : Type} [LE α] [LT α] [Std.IsLinearOrder α] [Std.LawfulOrderLT α]
variable {s t : Span α} {l : List (Span α)} {x : α}

theorem Before.apart (h : s.Before t) : s.Apart t := by
  intro x hs ht
  exact Std.lt_irrefl (Std.lt_of_lt_of_le hs.2 (Std.le_trans h ht.1))

theorem notMem_of_stop_le (h : s.stop ≤ s.start) : x ∉ s := by
  intro hx
  exact Std.lt_irrefl (Std.lt_of_lt_of_le hx.2 (Std.le_trans h hx.1))

section

variable (h : Ordered (s :: l))
include h

theorem Ordered.tail : Ordered l where
  valid t ht := h.valid t (.tail s ht)
  before := h.before.tail

theorem Ordered.head : s.Valid := h.valid s (.head _)

theorem Ordered.le_of_mem_cover (hx : x ∈ cover l) : s.stop ≤ x := by
  obtain ⟨t, ht, hx⟩ := hx
  have hst : s.Before t := (List.pairwise_cons.mp h.before).1 t ht
  exact Std.le_trans hst hx.1

theorem Ordered.notMem_of_lt (hx : x < s.start) : x ∉ cover (s :: l) := by
  rw [mem_cover_cons]
  rintro (hs | hl)
  · exact Std.lt_irrefl (Std.lt_of_lt_of_le hx hs.1)
  · have hstop := h.le_of_mem_cover hl
    exact Std.lt_irrefl (Std.lt_of_lt_of_le hx (Std.le_trans h.head hstop))

/-- The head may be cut short at its left end. -/
theorem Ordered.replace_head (ht : t.Valid) (hstop : t.stop = s.stop) :
    Ordered (t :: l) where
  valid u hu := by
    rcases List.mem_cons.mp hu with rfl | hu
    · exact ht
    · exact h.valid u (.tail s hu)
  before := by
    obtain ⟨hhead, htail⟩ := List.pairwise_cons.mp h.before
    refine List.pairwise_cons.mpr ⟨fun u hu => ?_, htail⟩
    unfold Before
    rw [hstop]
    exact hhead u hu

end

/-- It is enough that neighbours are in order. -/
theorem ordered_cons_cons (hs : s.Valid) (hst : s.Before t) (h : Ordered (t :: l)) :
    Ordered (s :: t :: l) where
  valid u hu := by
    rcases List.mem_cons.mp hu with rfl | hu
    · exact hs
    · exact h.valid u hu
  before := by
    refine List.pairwise_cons.mpr ⟨fun u hu => ?_, h.before⟩
    rcases List.mem_cons.mp hu with rfl | hu
    · exact hst
    · have htu : t.Before u := (List.pairwise_cons.mp h.before).1 u hu
      exact Std.le_trans hst (Std.le_trans h.head htu)

/-- Two valid spans that meet cover what the span from the first to the last bound covers. -/
theorem mem_join (hs : s.Valid) (ht : t.Valid) (h : s.stop = t.start) :
    x ∈ (⟨s.start, t.stop⟩ : Span α) ↔ x ∈ s ∨ x ∈ t := by
  unfold Valid at hs ht
  simp only [mem_def]
  grind

end Order

end Span

end SeL4.Lib
