import Mathlib.Data.List.Basic
import Mathlib.Data.Nat.ModEq

/-!
# Circular buffers addressed by head and tail

A buffer of `cap` cells holds a queue that is never empty. `head` is the index of its first item
and `tail` the index of its last, so the queue with one item has `head = tail`, and a full one
has `next tail = head`. There is no stored length: `size` is recomputed from the two indices.

`toList` reads the items from `head` to `tail`. The lemmas below say what each operation on the
indices and cells does to that list, so a client never reasons about wrap-around again:
* `toList_popHead` drops the first item, `toList_pushTail` appends one;
* `toList_setHead` / `toList_setTail` overwrite the first and the last item in place.
-/

namespace SeL4.Lib

open Function

/-- A circular buffer of `cap` cells with the indices of its first and last item. -/
structure RingBuffer (α : Type) where
  cap : Nat
  head : Nat
  tail : Nat
  cells : Nat → α

namespace RingBuffer

variable {α : Type}

/-- The index after `i`, wrapping at the end of the buffer. -/
def next (r : RingBuffer α) (i : Nat) : Nat := if i = r.cap - 1 then 0 else i + 1

/-- The number of items from `head` to `tail`. -/
def size (r : RingBuffer α) : Nat :=
  if r.head ≤ r.tail then r.tail - r.head + 1 else r.tail + 1 + (r.cap - r.head)

/-- The `n` items found by walking from index `i`. -/
def walk (r : RingBuffer α) : Nat → Nat → List α
  | _, 0 => []
  | i, n + 1 => r.cells i :: r.walk (r.next i) n

/-- The items from `head` to `tail`. -/
def toList (r : RingBuffer α) : List α := r.walk r.head r.size

/-- Both indices lie in the buffer. -/
structure WF (r : RingBuffer α) : Prop where
  head_lt : r.head < r.cap
  tail_lt : r.tail < r.cap

/-- Overwrite one cell. -/
def setCell (r : RingBuffer α) (i : Nat) (x : α) : RingBuffer α := { r with cells := update r.cells i x }

/-- Advance the head past the first item. -/
def popHead (r : RingBuffer α) : RingBuffer α := { r with head := r.next r.head }

/-- Advance the tail and store `x` there. -/
def pushTail (r : RingBuffer α) (x : α) : RingBuffer α :=
  { r with tail := r.next r.tail, cells := update r.cells (r.next r.tail) x }

/-! ## Indices -/

variable {i : Nat} {r : RingBuffer α}

theorem next_lt (hi : i < r.cap) : r.next i < r.cap := by
  unfold next
  split <;> omega

theorem next_eq_mod (hi : i < r.cap) : r.next i = (i + 1) % r.cap := by
  unfold next
  split
  · rename_i h
    have : i + 1 = r.cap := by omega
    rw [this, Nat.mod_self]
  · rw [Nat.mod_eq_of_lt (by omega)]

theorem size_pos (r : RingBuffer α) : 0 < r.size := by
  unfold size
  split <;> omega

theorem size_le (h : r.WF) : r.size ≤ r.cap := by
  have h2 := h.tail_lt
  unfold size
  split <;> omega

/-- One item exactly when the indices agree. -/
theorem size_eq_one_iff (h : r.WF) : r.size = 1 ↔ r.head = r.tail := by
  have h1 := h.head_lt
  unfold size
  split <;> omega

/-- The tail is `size - 1` steps after the head. -/
theorem tail_eq_mod (h : r.WF) : (r.head + (r.size - 1)) % r.cap = r.tail := by
  have h1 := h.head_lt
  have h2 := h.tail_lt
  unfold size
  split
  · rw [Nat.mod_eq_of_lt (by omega)]
    omega
  · have e : r.head + (r.tail + 1 + (r.cap - r.head) - 1) = r.tail + r.cap := by omega
    rw [e, Nat.add_mod_right, Nat.mod_eq_of_lt h2]

/-! ## Walking -/

@[simp] theorem length_walk (r : RingBuffer α) : ∀ n i, (r.walk i n).length = n
  | 0, _ => rfl
  | n + 1, i => by rw [walk, List.length_cons, length_walk]

@[simp] theorem length_toList (r : RingBuffer α) : r.toList.length = r.size := length_walk r _ _

/-- Walking reads the capacity and the cells, not the two indices. -/
theorem walk_congr {s : RingBuffer α} (hcap : s.cap = r.cap) (hcells : s.cells = r.cells) :
    ∀ n i, s.walk i n = r.walk i n
  | 0, _ => rfl
  | n + 1, i => by
    have hnext : s.next i = r.next i := by unfold next; rw [hcap]
    rw [walk, walk, hcells, hnext, walk_congr hcap hcells]

/-- Walking visits the cells at consecutive indices modulo the capacity. -/
theorem walk_eq_map {r : RingBuffer α} :
    ∀ {n i : Nat}, i < r.cap → r.walk i n = (List.range n).map fun k => r.cells ((i + k) % r.cap)
  | 0, _, _ => rfl
  | n + 1, i, hi => by
    rw [walk, walk_eq_map (next_lt hi), List.range_succ_eq_map, List.map_cons, List.map_map,
      Nat.add_zero, Nat.mod_eq_of_lt hi]
    congr 1
    apply List.map_congr_left
    intro k _
    simp only [comp]
    rw [next_eq_mod hi, Nat.mod_add_mod, Nat.add_right_comm, Nat.add_assoc]

/-- The list starts with the head cell. -/
theorem toList_eq_cons (r : RingBuffer α) :
    r.toList = r.cells r.head :: r.walk (r.next r.head) (r.size - 1) := by
  unfold toList
  obtain ⟨n, hn⟩ := Nat.exists_eq_succ_of_ne_zero (Nat.ne_of_gt r.size_pos)
  rw [hn]
  rfl

/-- The list ends with the tail cell. -/
theorem toList_eq_concat (h : r.WF) : r.toList = r.walk r.head (r.size - 1) ++ [r.cells r.tail] := by
  rw [toList, walk_eq_map h.head_lt, walk_eq_map h.head_lt]
  obtain ⟨n, hn⟩ := Nat.exists_eq_succ_of_ne_zero (Nat.ne_of_gt r.size_pos)
  have ht := tail_eq_mod h
  rw [hn] at ht ⊢
  rw [List.range_succ, List.map_append, List.map_singleton]
  simp only [Nat.succ_eq_add_one, Nat.add_sub_cancel] at ht ⊢
  rw [ht]

/-- Distinct offsets below the capacity denote distinct cells. -/
theorem offset_inj {c a b : Nat} (ha : a < c) (hb : b < c) (h : (i + a) % c = (i + b) % c) : a = b := by
  have hm : Nat.ModEq c a b := .add_left_cancel' i h
  rwa [Nat.ModEq, Nat.mod_eq_of_lt ha, Nat.mod_eq_of_lt hb] at hm

/-- Writing a cell the walk does not visit leaves the walk alone. -/
theorem walk_setCell {x : α} {j n : Nat} (hi : i < r.cap)
    (hj : ∀ k, k < n → (i + k) % r.cap ≠ j) : (r.setCell j x).walk i n = r.walk i n := by
  have hi' : i < (r.setCell j x).cap := hi
  rw [walk_eq_map hi', walk_eq_map hi]
  apply List.map_congr_left
  intro k hk
  show update r.cells j x ((i + k) % r.cap) = _
  rw [update_of_ne (hj k (List.mem_range.mp hk))]

/-! ## The operations on the list -/

section

variable (h : r.WF)
include h

theorem popHead_wf : r.popHead.WF := ⟨next_lt h.head_lt, h.tail_lt⟩

theorem size_popHead (hne : r.head ≠ r.tail) : r.popHead.size = r.size - 1 := by
  have h1 := h.head_lt
  have h2 := h.tail_lt
  unfold size popHead next
  simp only
  split_ifs <;> omega

theorem toList_popHead (hne : r.head ≠ r.tail) :
    r.toList = r.cells r.head :: r.popHead.toList := by
  rw [toList_eq_cons]
  unfold toList
  rw [size_popHead h hne, walk_congr (s := r.popHead) (r := r) rfl rfl]
  rfl

theorem pushTail_wf (x : α) : (r.pushTail x).WF := ⟨h.head_lt, next_lt h.tail_lt⟩

omit h in
theorem size_pushTail (hlt : r.size < r.cap) (x : α) : (r.pushTail x).size = r.size + 1 := by
  unfold size at hlt ⊢
  unfold pushTail next
  simp only
  split_ifs at hlt ⊢ <;> omega

theorem toList_pushTail (hlt : r.size < r.cap) (x : α) :
    (r.pushTail x).toList = r.toList ++ [x] := by
  have hsz := size_pushTail hlt x
  rw [toList_eq_concat (pushTail_wf h x), hsz]
  -- the new tail cell is the one `size` steps after the head, which the walk does not reach
  have hnew : r.next r.tail = (r.head + r.size) % r.cap := by
    rw [next_eq_mod h.tail_lt, ← tail_eq_mod h, Nat.mod_add_mod]
    congr 1
    have := r.size_pos
    omega
  congr 1
  · rw [walk_congr (s := r.pushTail x) (r := r.setCell (r.next r.tail) x) rfl rfl]
    apply walk_setCell h.head_lt
    intro k hk heq
    rw [hnew] at heq
    have := offset_inj (by omega) hlt heq
    omega
  · show [update r.cells (r.next r.tail) x (r.next r.tail)] = [x]
    rw [update_self]

theorem setCell_wf (i : Nat) (x : α) : (r.setCell i x).WF := ⟨h.head_lt, h.tail_lt⟩

variable {a : α} {q : List α}

theorem toList_setHead (x : α)
    (hq : r.toList = a :: q) : (r.setCell r.head x).toList = x :: q := by
  rw [toList_eq_cons] at hq ⊢
  have hq' := (List.cons.inj hq).2
  show update r.cells r.head x r.head :: (r.setCell r.head x).walk (r.next r.head) (r.size - 1) = _
  rw [update_self, walk_setCell (next_lt h.head_lt), hq']
  intro k hk heq
  have hsz := size_le h
  rw [next_eq_mod h.head_lt, Nat.mod_add_mod, Nat.add_assoc] at heq
  have h0 : r.head = (r.head + 0) % r.cap := by rw [Nat.add_zero, Nat.mod_eq_of_lt h.head_lt]
  rw [h0, Nat.mod_add_mod] at heq
  have := offset_inj (by omega) (by have := h.head_lt; omega) heq
  omega

theorem toList_setTail (x : α)
    (hq : r.toList = q ++ [a]) : (r.setCell r.tail x).toList = q ++ [x] := by
  have hw := setCell_wf h r.tail x
  rw [toList_eq_concat h] at hq
  rw [toList_eq_concat hw]
  show (r.setCell r.tail x).walk r.head (r.size - 1) ++ [update r.cells r.tail x r.tail] = _
  rw [update_self, walk_setCell h.head_lt, (List.append_inj_left' hq rfl)]
  intro k hk heq
  have hsz := size_le h
  rw [← tail_eq_mod h] at heq
  have := offset_inj (by omega) (by omega) heq
  omega

omit h in
theorem cells_head_eq (hq : r.toList = a :: q) : r.cells r.head = a := by
  rw [toList_eq_cons] at hq
  exact (List.cons.inj hq).1

theorem cells_tail_eq (hq : r.toList = q ++ [a]) : r.cells r.tail = a := by
  rw [toList_eq_concat h] at hq
  have := List.append_inj_right' hq rfl
  exact (List.cons.inj this).1

omit h in
/-- The cell after the head is the second item. -/
theorem cells_next_head_eq {b : α} (hq : r.toList = a :: b :: q) : r.cells (r.next r.head) = b := by
  have hsz : r.size = q.length + 2 := by rw [← length_toList, hq]; rfl
  rw [toList_eq_cons, hsz] at hq
  exact (List.cons.inj (List.cons.inj hq).2).1

/-- The indices agree exactly when the list has one item. -/
theorem head_eq_tail_iff (hq : r.toList = a :: q) : r.head = r.tail ↔ q = [] := by
  rw [← size_eq_one_iff h, ← length_toList, hq, List.length_cons, Nat.add_eq_right,
    List.length_eq_zero_iff]

end

end RingBuffer

end SeL4.Lib
