import SeL4.Lib.Links

/-!
# Families of doubly linked queues

A kernel keeps many queues that share one pair of link fields: each queue is a head and a tail
pointer (`Queue`), and the cells in between are linked both ways. `Queues null L q l` says that the
queues `q i` hold exactly the lists `l i`, that no list holds a cell twice, and that no cell is in
two of them. Nothing is said about the links of a cell outside all queues; code that relies on them
being null keeps `Detached` as well.

The two rules say what an edit has to do to the links, not how it does it, since code inserts and
removes in several ways:

* `Queues.insert`: a fresh cell goes between `A` and `B`;
* `Queues.remove`: the cell between `A` and `B` is taken out.

Where the code comes down to the stores of `insertBetween` or `removeBetween`, the rules of that name
need no more than that.
-/

namespace SeL4.Lib

open Function

/-- The two ends of a queue. -/
structure Queue (P : Type) where
  head : P
  tail : P
  deriving DecidableEq, Repr

namespace Links

variable {P : Type} [DecidableEq P]

/-- Write a forward pointer. -/
def setNext (x v : P) (L : Links P) : Links P := { L with next := update L.next x v }

/-- Write a backward pointer. -/
def setPrev (x v : P) (L : Links P) : Links P := { L with prev := update L.prev x v }

@[simp] theorem setNext_prev (x v : P) (L : Links P) : (L.setNext x v).prev = L.prev := rfl

@[simp] theorem setPrev_next (x v : P) (L : Links P) : (L.setPrev x v).next = L.next := rfl

theorem setNext_next (x v y : P) (L : Links P) : (L.setNext x v).next y = if y = x then v else L.next y :=
  update_apply ..

theorem setPrev_prev (x v y : P) (L : Links P) : (L.setPrev x v).prev y = if y = x then v else L.prev y :=
  update_apply ..

variable {L M : Links P}

/-- The links and the ends of a queue hold the list `l`. -/
structure IsQueue (null : P) (L : Links P) (q : Queue P) (l : List P) : Prop where
  chain : L.Chain null l null
  head : q.head = l.headD null
  tail : q.tail = l.getLastD null

/-- The queues `q i` hold the lists `l i`. -/
structure Queues {ι : Type} (null : P) (L : Links P) (q : ι → Queue P) (l : ι → List P) :
    Prop where
  isQueue : ∀ i, IsQueue null L (q i) (l i)
  nodup : ∀ i, (l i).Nodup
  disjoint : ∀ i j x, x ∈ l i → x ∈ l j → i = j
  ne_null : ∀ i x, x ∈ l i → x ≠ null

/-- A cell outside all queues has null links. -/
def Detached {ι : Type} (null : P) (L : Links P) (l : ι → List P) : Prop :=
  ∀ x, (∀ i, x ∉ l i) → L.next x = null ∧ L.prev x = null

theorem IsQueue.head_eq_null_iff {null : P} {q : Queue P} {l : List P} (h : IsQueue null L q l)
    (hnull : null ∉ l) : q.head = null ↔ l = [] := by
  rw [h.head]
  cases l with
  | nil => exact ⟨fun _ => rfl, fun _ => rfl⟩
  | cons a l =>
    refine ⟨fun he => ?_, nofun⟩
    have ha : a = null := he
    exact absurd (ha ▸ (.head _)) hnull

/-- A chain to null is determined by its first cell. -/
theorem chain_unique {null : P} : ∀ {p p' : P} {l l' : List P}, L.Chain p l null →
    L.Chain p' l' null → null ∉ l → null ∉ l' → l.headD null = l'.headD null → l = l'
  | _, _, [], [], _, _, _, _, _ => rfl
  | _, _, [], b :: l', _, _, _, hn', he => by
    have hb : null = b := he
    exact absurd (hb ▸ (.head _)) hn'
  | _, _, a :: l, [], _, _, hn, _, he => by
    have ha : a = null := he
    exact absurd (ha ▸ (.head _)) hn
  | _, _, a :: l, b :: l', h, h', hn, hn', he => by
    have hab : a = b := he
    subst hab
    rw [chain_unique h.2.2 h'.2.2 (List.not_mem_of_not_mem_cons hn)
      (List.not_mem_of_not_mem_cons hn') (h.2.1.symm.trans h'.2.1)]

/-- A queue holds one list. -/
theorem IsQueue.unique {null : P} {q : Queue P} {l l' : List P} (h : IsQueue null L q l)
    (h' : IsQueue null L q l') (hn : null ∉ l) (hn' : null ∉ l') : l = l' :=
  chain_unique h.chain h'.chain hn hn' (h.head.symm.trans h'.head)

namespace Queues

variable {ι : Type} {null : P} {q q' : ι → Queue P} {l : ι → List P} {i : ι} {x : P}
  {A B : List P}

variable (h : Queues null L q l)
include h

theorem null_notMem (i : ι) : null ∉ l i := fun hm => h.ne_null i null hm rfl

theorem head_eq_null_iff (i : ι) : (q i).head = null ↔ l i = [] :=
  (h.isQueue i).head_eq_null_iff (h.null_notMem i)

/-- The cell at the head of a queue, and what is behind it. -/
theorem exists_cons (hq : (q i).head ≠ null) : ∃ B, l i = (q i).head :: B := by
  have hhead := (h.isQueue i).head
  cases hl : l i with
  | nil => exact absurd ((h.head_eq_null_iff i).mpr hl) hq
  | cons a B =>
    rw [hl] at hhead
    exact ⟨B, by rw [hhead]; rfl⟩

theorem prev_eq (hl : l i = A ++ x :: B) : L.prev x = A.getLastD null := by
  have hc := (h.isQueue i).chain
  rw [hl] at hc
  exact (chain_split hc).1

theorem next_eq (hl : l i = A ++ x :: B) : L.next x = B.headD null := by
  have hc := (h.isQueue i).chain
  rw [hl] at hc
  exact (chain_split hc).2.1

/-- The cells of a queue other than `x`. -/
theorem notMem_sides (hl : l i = A ++ x :: B) : x ∉ A ∧ x ∉ B := by
  have hnd := h.nodup i
  rw [hl] at hnd
  obtain ⟨-, hnd, hdisj⟩ := List.nodup_append.mp hnd
  exact ⟨fun hx => hdisj x hx x (.head _) rfl, (List.nodup_cons.mp hnd).1⟩

/-- A list that holds `x`, and what is left without it. -/
theorem erase_split (hx : x ∈ l i) : ∃ A B, l i = A ++ x :: B ∧ (l i).erase x = A ++ B := by
  obtain ⟨A, B, hl⟩ := List.append_of_mem hx
  refine ⟨A, B, hl, ?_⟩
  rw [hl, List.erase_append_right _ (h.notMem_sides hl).1, List.erase_cons_head]

/-- One queue is edited: its new list has cells of its own only, and the edit does not touch the others. -/
theorem edit [DecidableEq ι] {D : List P} {u v : P} (hi : IsQueue null M (q' i) D) (hnd : D.Nodup)
    (hD : ∀ y ∈ D, y ≠ null ∧ ∀ j ≠ i, y ∉ l j) (hA : ∀ y ∈ A, y ∈ l i) (hB : ∀ y ∈ B, y ∈ l i)
    (hsp : ∀ j ≠ i, ∀ y ∈ l j, Splice L M A B u v y) (hq : ∀ j ≠ i, q' j = q j) :
    Queues null M q' (update l i D) := by
  have hl : ∀ {j}, j ≠ i → update l i D j = l j := fun hj => update_of_ne hj D l
  refine ⟨fun j => ?_, fun j => ?_, fun j k y hj hk => ?_, fun j y hy => ?_⟩
  · by_cases hji : j = i
    · rwa [hji, update_self]
    · obtain ⟨hc, hhead, htail⟩ := h.isQueue j
      rw [hl hji, hq j hji]
      refine ⟨chain_congr (fun y hy => (hsp j hji y hy).off (fun hyA => ?_) fun hyB => ?_) hc, hhead, htail⟩
      · exact hji (h.disjoint j i y hy (hA y hyA))
      · exact hji (h.disjoint j i y hy (hB y hyB))
  · by_cases hji : j = i
    · rwa [hji, update_self]
    · rw [hl hji]
      exact h.nodup j
  · by_cases hji : j = i <;> by_cases hki : k = i
    · rw [hji, hki]
    · rw [hji, update_self] at hj
      exact absurd (hl hki ▸ hk) ((hD y hj).2 k hki)
    · rw [hki, update_self] at hk
      exact absurd (hl hji ▸ hj) ((hD y hk).2 j hji)
    · exact h.disjoint j k y (hl hji ▸ hj) (hl hki ▸ hk)
  · by_cases hji : j = i
    · rw [hji, update_self] at hy
      exact (hD y hy).1
    · exact h.ne_null j y (hl hji ▸ hy)

/-- **A fresh cell goes between `A` and `B`.** -/
theorem insert [DecidableEq ι] (hl : l i = A ++ B) (hx : ∀ j, x ∉ l j)
    (hx0 : x ≠ null) (hprev : M.prev x = A.getLastD null) (hnext : M.next x = B.headD null)
    (hsp : ∀ y ≠ x, Splice L M A B x x y) (hhead : (q' i).head = (A ++ [x]).headD null)
    (htail : (q' i).tail = (x :: B).getLastD null) (hq : ∀ j ≠ i, q' j = q j) :
    Queues null M q' (update l i (A ++ x :: B)) := by
  have hA : ∀ y ∈ A, y ∈ l i := fun y hy => hl ▸ List.mem_append_left B hy
  have hB : ∀ y ∈ B, y ∈ l i := fun y hy => hl ▸ List.mem_append_right A hy
  have hsp' : ∀ j, ∀ y ∈ l j, Splice L M A B x x y := fun j y hy => hsp y fun he => hx j (he ▸ hy)
  have hnd : (A ++ B).Nodup := hl ▸ h.nodup i
  obtain ⟨hc, -, -⟩ := h.isQueue i
  rw [hl, chain_append] at hc
  obtain ⟨hcA, hcB⟩ := Splice.chains hnd hc.1 hc.2 fun y hy => hsp' i y (hl ▸ hy)
  refine h.edit ⟨chain_append.mpr ⟨hcA, hprev, hnext, hcB⟩, ?_, ?_⟩ ?_ (fun y hy => ?_) hA hB
    (fun j _ => hsp' j) hq
  · rw [hhead]
    cases A <;> rfl
  · rw [htail, List.getLastD_eq_getLast?, List.getLastD_eq_getLast?, List.getLast?_append_cons]
  · rw [List.nodup_middle]
    exact List.nodup_cons.mpr ⟨hl ▸ hx i, hnd⟩
  · by_cases hyx : y = x
    · exact hyx ▸ ⟨hx0, fun j _ => hx j⟩
    · have hy : y ∈ l i := hl ▸ (mem_append_cons_of_ne hyx).mp hy
      exact ⟨h.ne_null i y hy, fun j hji hyj => hji (h.disjoint j i y hyj hy)⟩

/-- **The cell between `A` and `B` is taken out.** -/
theorem remove [DecidableEq ι] (hl : l i = A ++ x :: B)
    (hsp : ∀ y ≠ x, Splice L M A B (B.headD null) (A.getLastD null) y)
    (hhead : (q' i).head = (A ++ B).headD null) (htail : (q' i).tail = (A ++ B).getLastD null)
    (hq : ∀ j ≠ i, q' j = q j) : Queues null M q' (update l i (A ++ B)) := by
  obtain ⟨hxA, hxB⟩ := h.notMem_sides hl
  have hne : ∀ y ∈ A ++ B, y ≠ x := fun y hy he => (List.mem_append.mp hy).elim (he ▸ hxA) (he ▸ hxB)
  have hmem : ∀ y ∈ A ++ B, y ∈ l i := fun y hy => hl ▸ (mem_append_cons_of_ne (hne y hy)).mpr hy
  have hnd := h.nodup i
  rw [hl, List.nodup_middle, List.nodup_cons] at hnd
  obtain ⟨hc, -, -⟩ := h.isQueue i
  rw [hl] at hc
  obtain ⟨-, -, hcA, hcB⟩ := chain_split hc
  refine h.edit ⟨chain_append.mpr (Splice.chains hnd.2 hcA hcB fun y hy => hsp y (hne y hy)), hhead, htail⟩
    hnd.2 (fun y hy => ⟨h.ne_null i y (hmem y hy), fun j hji hyj => ?_⟩)
    (fun y hy => hmem y (List.mem_append_left B hy)) (fun y hy => hmem y (List.mem_append_right A hy))
    (fun j hji y hy => hsp y fun he => ?_) hq
  · exact hji (h.disjoint j i y hyj (hmem y hy))
  · exact hji (h.disjoint j i x (he ▸ hy) (hl ▸ List.mem_append_right A (.head _)))

end Queues

namespace Detached

variable {ι : Type} [DecidableEq ι] {null : P} {l : ι → List P} {i : ι} {x : P} {A B : List P} {D : List P} {u v : P}

/-- One queue is edited: the cells that leave it are cleared. -/
theorem edit (h : Detached null L l) (hi : ∀ y ∈ l i, y ∉ D → M.next y = null ∧ M.prev y = null)
    (hA : ∀ y ∈ A, y ∈ D) (hB : ∀ y ∈ B, y ∈ D)
    (hsp : ∀ y, y ∉ l i → y ∉ D → Splice L M A B u v y) : Detached null M (update l i D) := by
  intro y hy
  have hyD : y ∉ D := by simpa using hy i
  by_cases hyi : y ∈ l i
  · exact hi y hyi hyD
  · obtain ⟨hn, hp⟩ := (hsp y hyi hyD).off (mt (hA y) hyD) (mt (hB y) hyD)
    rw [hn, hp]
    refine h y fun j hj => ?_
    by_cases hji : j = i
    · exact hyi (hji ▸ hj)
    · exact hy j (by rwa [update_of_ne hji])

end Detached

/-- Queues in a heap where all other cells have null links. -/
structure CleanQueues {ι : Type} (null : P) (L : Links P) (q : ι → Queue P) (l : ι → List P) :
    Prop extends Queues null L q l where
  detached : Detached null L l

/-! ## Edits between two neighbours -/

section Between

variable (null a x b : P) (q : Queue P) (L : Links P)

/-- `x` goes between `a` and `b`; null stands for a neighbour that is missing. -/
def insertBetween : Queue P × Links P :=
  (⟨if a = null then x else q.head, if b = null then x else q.tail⟩,
    ⟨update (if a = null then L.next else update L.next a x) x b,
      update (if b = null then L.prev else update L.prev b x) x a⟩)

/-- What was between `a` and `b` is taken out. -/
def removeBetween : Queue P × Links P :=
  (⟨if a = null then b else q.head, if b = null then a else q.tail⟩,
    ⟨if a = null then L.next else update L.next a b, if b = null then L.prev else update L.prev b a⟩)

end Between

section

variable {ι : Type} [DecidableEq ι] {null : P} {q : ι → Queue P} {l : ι → List P} {i : ι} {x y : P}
  {A B : List P} {Q : Queue P} {R : Queue P × Links P}

theorem update_of_eq {f : P → P} {v : P} (h : f x = v) : update f x v = f := by
  rw [← h, update_eq_self]

theorem splice_insertBetween (hA : null ∉ A) (hB : null ∉ B) (hy : y ≠ x) :
    Splice L (insertBetween null (A.getLastD null) x (B.headD null) Q L).2 A B x x y := by
  constructor <;> dsimp only [insertBetween] <;> rw [update_of_ne hy]
  · simp only [getLast?_eq_some_iff hA]
    split_ifs <;> simp_all
  · simp only [head?_eq_some_iff hB]
    split_ifs <;> simp_all

theorem splice_removeBetween (hA : null ∉ A) (hB : null ∉ B) :
    Splice L (removeBetween null (A.getLastD null) (B.headD null) Q L).2 A B (B.headD null)
      (A.getLastD null) y := by
  constructor <;> dsimp only [removeBetween]
  · simp only [getLast?_eq_some_iff hA]
    split_ifs <;> simp_all
  · simp only [head?_eq_some_iff hB]
    split_ifs <;> simp_all

theorem Queues.insertBetween (h : Queues null L q l) (hl : l i = A ++ B) (hx : ∀ j, x ∉ l j)
    (hx0 : x ≠ null) (hR : R = Links.insertBetween null (A.getLastD null) x (B.headD null) (q i) L) :
    Queues null R.2 (update q i R.1) (update l i (A ++ x :: B)) := by
  obtain ⟨-, hhead, htail⟩ := h.isQueue i
  obtain ⟨hA, hB⟩ : null ∉ A ∧ null ∉ B := by simpa [hl] using h.null_notMem i
  subst hR
  refine h.insert hl hx hx0 ?_ ?_ (fun y hy => splice_insertBetween hA hB hy) ?_ ?_ fun _ hj => update_of_ne hj ..
  · exact update_self ..
  · exact update_self ..
  · simp only [update_self, insertBetween, hhead, hl, getLastD_eq_null_iff hA]
    cases A <;> simp
  · simp only [update_self, insertBetween, htail, hl, headD_eq_null_iff hB]
    split_ifs with hn
    · rw [hn, List.getLastD_cons, List.getLastD_nil]
    · rw [getLastD_append_of_ne_nil hn, ← List.singleton_append, getLastD_append_of_ne_nil hn]

/-- The links of the cell itself may change as well. -/
theorem Queues.removeBetween (h : Queues null L q l) (hl : l i = A ++ x :: B)
    (hR : R = Links.removeBetween null (A.getLastD null) (B.headD null) (q i) L)
    (hM : ∀ y ≠ x, M.next y = R.2.next y ∧ M.prev y = R.2.prev y) :
    Queues null M (update q i R.1) (update l i (A ++ B)) := by
  obtain ⟨-, hhead, htail⟩ := h.isQueue i
  obtain ⟨hA, -, hB⟩ : null ∉ A ∧ ¬ null = x ∧ null ∉ B := by simpa [hl] using h.null_notMem i
  subst hR
  refine h.remove hl (fun y hy => ?_) ?_ ?_ fun _ hj => update_of_ne hj ..
  · obtain ⟨hnext, hprev⟩ := splice_removeBetween hA hB
    exact ⟨(hM y hy).1.trans hnext, (hM y hy).2.trans hprev⟩
  · simp only [update_self, removeBetween, hhead, hl, getLastD_eq_null_iff hA]
    cases A <;> simp
  · simp only [update_self, removeBetween, htail, hl, headD_eq_null_iff hB]
    split_ifs with hn
    · rw [hn, List.append_nil]
    · rw [getLastD_append_of_ne_nil (List.cons_ne_nil x B), ← List.singleton_append,
        getLastD_append_of_ne_nil hn, getLastD_append_of_ne_nil hn]

theorem CleanQueues.insertBetween (h : CleanQueues null L q l) (hl : l i = A ++ B) (hx : ∀ j, x ∉ l j)
    (hx0 : x ≠ null) (hR : R = Links.insertBetween null (A.getLastD null) x (B.headD null) (q i) L) :
    CleanQueues null R.2 (update q i R.1) (update l i (A ++ x :: B)) := by
  obtain ⟨hA, hB⟩ : null ∉ A ∧ null ∉ B := by simpa [hl] using h.null_notMem i
  refine ⟨h.toQueues.insertBetween hl hx hx0 hR,
    h.detached.edit (A := A) (B := B) (u := x) (v := x) (fun y hy hyD => ?_) ?_ ?_ fun y _ hyD => ?_⟩
  · rw [hl, List.mem_append] at hy
    simp [not_or] at hyD
    tauto
  · simp +contextual
  · simp +contextual
  · rw [hR]
    exact splice_insertBetween hA hB fun he => hyD (he ▸ List.mem_append_right A (.head _))

/-- The links of the cell are cleared. -/
theorem CleanQueues.removeBetween (h : CleanQueues null L q l) (hl : l i = A ++ x :: B)
    (hR : R = Links.removeBetween null (A.getLastD null) (B.headD null) (q i) L) :
    CleanQueues null ((R.2.setPrev x null).setNext x null) (update q i R.1) (update l i (A ++ B)) := by
  obtain ⟨hA, -, hB⟩ : null ∉ A ∧ ¬ null = x ∧ null ∉ B := by simpa [hl] using h.null_notMem i
  have hM : ∀ y ≠ x, ((R.2.setPrev x null).setNext x null).next y = R.2.next y ∧
      ((R.2.setPrev x null).setNext x null).prev y = R.2.prev y := by
    intro y hy
    simp [setNext_next, setPrev_prev, hy]
  refine ⟨h.toQueues.removeBetween hl hR hM, h.detached.edit (A := A) (B := B)
    (u := B.headD null) (v := A.getLastD null) (fun y hy hyD => ?_) ?_ ?_ fun y hyl _ => ?_⟩
  · obtain rfl : y = x := by
      by_contra hyx
      exact hyD ((mem_append_cons_of_ne hyx).mp (hl ▸ hy))
    simp [setNext_next, setPrev_prev]
  · simp +contextual
  · simp +contextual
  · obtain ⟨hn, hp⟩ := hM y fun he => hyl (hl ▸ he ▸ List.mem_append_right A (.head _))
    obtain ⟨hnext, hprev⟩ := splice_removeBetween (L := L) (Q := q i) (y := y) hA hB
    subst hR
    exact ⟨hn.trans hnext, hp.trans hprev⟩

end

end Links

end SeL4.Lib
