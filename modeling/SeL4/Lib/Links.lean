import Mathlib.Data.List.Nodup
import Mathlib.Data.List.Flatten
import Mathlib.Data.List.Pairwise
import Mathlib.Logic.Equiv.Basic
import Mathlib.Logic.Function.Iterate

/-!
# Doubly linked lists in a heap

A heap stores a forward and a backward pointer in every cell (`Links`). `Lists L LL` says that the
pointers form exactly the disjoint lists `LL`: every list is linked both ways from a null end to a
null end, no cell occurs twice, and a cell outside all lists has null pointers.

Three edits cover what kernel code does to such lists in place. Each comes with the lists it
leaves:

* `insertAfter`: a fresh cell goes right behind a given one (`Lists.insertAfter`);
* `unlink`: a cell is spliced out (`Lists.unlink`);
* `rename`: the cells are permuted, positions and all (`Lists.rename`). Moving a cell to a free
  address (`moveTo`) and exchanging two cells in place (`exchange`) are both renamings by a
  transposition (`Lists.moveTo_eq`, `Lists.exchange_eq`).

`Lists.next_eq_iff` and `Lists.iterate_next_ne` read off that the pointers are mutually inverse
and that no cell leads back to itself.
-/

namespace SeL4.Lib

/-! ## Ends of lists -/

section Ends

variable {P : Type} {A B : List P} {d x : P}

theorem getLastD_append_of_ne_nil (h : B ≠ []) : (A ++ B).getLastD d = B.getLastD d := by
  rw [List.getLastD_eq_getLast?, List.getLastD_eq_getLast?, List.getLast?_append_of_ne_nil A h]

theorem getLastD_eq_null_iff (h : d ∉ A) : A.getLastD d = d ↔ A = [] := by
  rcases List.eq_nil_or_concat A with rfl | ⟨A', a, rfl⟩
  · exact ⟨fun _ => rfl, fun _ => rfl⟩
  · rw [List.concat_eq_append] at h ⊢
    rw [List.getLastD_concat]
    refine ⟨fun ha => ?_, fun ha => ?_⟩
    · exact absurd (ha ▸ List.mem_append_right A' (.head _)) h
    · exact absurd ha (List.append_ne_nil_of_right_ne_nil A' (List.cons_ne_nil a []))

theorem headD_eq_null_iff (h : d ∉ B) : B.headD d = d ↔ B = [] := by
  cases B with
  | nil => exact ⟨fun _ => rfl, fun _ => rfl⟩
  | cons b B =>
    refine ⟨fun hb => ?_, nofun⟩
    have hb' : b = d := hb
    exact absurd (hb' ▸ (.head _)) h

/-- The last cell, if the pointer to it is not null. -/
theorem getLast?_eq_some_iff (h : d ∉ A) : A.getLast? = some x ↔ x = A.getLastD d ∧ A.getLastD d ≠ d := by
  rcases List.eq_nil_or_concat A with rfl | ⟨A', a, rfl⟩
  · exact ⟨nofun, fun he => absurd rfl he.2⟩
  · rw [List.concat_eq_append] at h ⊢
    have ha : a ≠ d := fun ha => h (ha ▸ List.mem_append_right A' (.head _))
    rw [List.getLast?_concat, List.getLastD_concat, Option.some.injEq]
    exact ⟨fun he => ⟨he.symm, ha⟩, fun he => he.1.symm⟩

/-- The first cell, if the pointer to it is not null. -/
theorem head?_eq_some_iff (h : d ∉ B) : B.head? = some x ↔ x = B.headD d ∧ B.headD d ≠ d := by
  cases B with
  | nil => exact ⟨nofun, fun he => absurd rfl he.2⟩
  | cons b B =>
    have hb : b ≠ d := fun hb => h (hb ▸ (.head _))
    rw [List.head?_cons, Option.some.injEq]
    exact ⟨fun he => ⟨he.symm, hb⟩, fun he => he.1.symm⟩

theorem mem_append_cons_of_ne {y : P} (h : y ≠ x) : y ∈ A ++ x :: B ↔ y ∈ A ++ B := by
  rw [List.mem_append, List.mem_append, List.mem_cons]
  exact or_congr_right ⟨fun hy => hy.resolve_left h, .inr⟩

end Ends

/-- Forward and backward pointers of the cells of a heap. -/
@[ext] structure Links (P : Type) where
  next : P → P
  prev : P → P

namespace Links

variable {P : Type}

/-- `l` is linked both ways, with `p` before it and `e` behind it. -/
def Chain (L : Links P) : P → List P → P → Prop
  | _, [], _ => True
  | p, a :: l, e => L.prev a = p ∧ L.next a = l.headD e ∧ Chain L a l e

section Chain

variable {L M : Links P}

theorem chain_append : ∀ {p e : P} {l1 l2 : List P},
    L.Chain p (l1 ++ l2) e ↔ L.Chain p l1 (l2.headD e) ∧ L.Chain (l1.getLastD p) l2 e
  | p, e, [], l2 => by simp [Chain]
  | p, e, a :: l1, l2 => by
    have ih : L.Chain a (l1 ++ l2) e ↔ _ := chain_append
    have hhead : (l1 ++ l2).headD e = l1.headD (l2.headD e) := by
      cases l1 <;> rfl
    rw [List.cons_append, Chain, Chain, ih, hhead, List.getLastD_cons, and_assoc, and_assoc]

/-- A chain only reads the pointers of its own cells. -/
theorem chain_congr : ∀ {p e : P} {l : List P},
    (∀ x ∈ l, M.next x = L.next x ∧ M.prev x = L.prev x) → L.Chain p l e → M.Chain p l e
  | _, _, [], _, _ => trivial
  | _, _, a :: l, hag, ⟨h1, h2, h3⟩ => by
    obtain ⟨ha, ha'⟩ := hag a (.head _)
    refine ⟨ha'.trans h1, ha.trans h2, chain_congr (fun x hx => ?_) h3⟩
    exact hag x (.tail _ hx)

/-- A renaming that commutes with the pointers carries chains to chains. -/
theorem chain_map (f : P → P) : ∀ {p e : P} {l : List P},
    (∀ x ∈ l, M.next (f x) = f (L.next x) ∧ M.prev (f x) = f (L.prev x)) → L.Chain p l e →
      M.Chain (f p) (l.map f) (f e)
  | _, _, [], _, _ => trivial
  | p, e, a :: l, hag, ⟨h1, h2, h3⟩ => by
    obtain ⟨ha, ha'⟩ := hag a (.head _)
    have hhead : (l.map f).headD (f e) = f (l.headD e) := by
      cases l <;> rfl
    refine ⟨?_, ?_, chain_map f (fun x hx => hag x (.tail _ hx)) h3⟩
    · rw [ha', h1]
    · rw [ha, h2, hhead]

/-- The pointers of a cell inside a chain. -/
theorem chain_split {p e x : P} {A B : List P} (h : L.Chain p (A ++ x :: B) e) :
    L.prev x = A.getLastD p ∧ L.next x = B.headD e ∧ L.Chain p A x ∧ L.Chain x B e := by
  obtain ⟨h1, h2, h3, h4⟩ := chain_append.mp h
  exact ⟨h2, h3, h1, h4⟩

end Chain

/-- The pointers form exactly the lists `LL`. -/
structure Lists (null : P) (L : Links P) (LL : List (List P)) : Prop where
  nodup : LL.flatten.Nodup
  null_notMem : null ∉ LL.flatten
  chain : ∀ l ∈ LL, L.Chain null l null
  outside : ∀ x, x ∉ LL.flatten → L.next x = null ∧ L.prev x = null

namespace Lists

variable {null : P} {L : Links P} {LL : List (List P)}

variable {l : List P}

theorem nodup_of_mem (h : Lists null L LL) (hl : l ∈ LL) : l.Nodup :=
  (List.nodup_flatten.mp h.nodup).1 l hl

variable {x : P}

theorem mem_flatten (hl : l ∈ LL) (hx : x ∈ l) : x ∈ LL.flatten := List.mem_flatten.mpr ⟨l, hl, hx⟩

theorem ne_null (h : Lists null L LL) (hx : x ∈ LL.flatten) : x ≠ null := by
  rintro rfl
  exact h.null_notMem hx

/-- Every cell of the lists lies in one of them at one place. -/
theorem exists_split (hx : x ∈ LL.flatten) : ∃ A B, A ++ x :: B ∈ LL := by
  obtain ⟨l, hl, hxl⟩ := List.mem_flatten.mp hx
  obtain ⟨A, B, rfl⟩ := List.append_of_mem hxl
  exact ⟨A, B, hl⟩

variable {B A : List P}

variable (h : Lists null L LL)
include h

/-- A cell is in one list only. -/
theorem eq_of_mem {l' : List P} (hl : l ∈ LL) (hl' : l' ∈ LL) (hx : x ∈ l) (hx' : x ∈ l') : l = l' := by
  by_contra hne
  have : Std.Symm (List.Disjoint (α := P)) := ⟨fun _ _ hd _ ha hb => hd hb ha⟩
  exact (List.nodup_flatten.mp h.nodup).2.forall hl hl' hne hx hx'

section

variable (hl : A ++ x :: B ∈ LL)
include hl

/-- A cell is not its own neighbour, and not one of the other cells of its list. -/
theorem split_notMem : x ∉ A ∧ x ∉ B := by
  have hnd := h.nodup_of_mem hl
  rw [List.nodup_append] at hnd
  refine ⟨fun hx => ?_, (List.nodup_cons.mp hnd.2.1).1⟩
  exact hnd.2.2 x hx x (.head _) rfl

theorem prev_eq : L.prev x = A.getLastD null := (chain_split (h.chain _ hl)).1

theorem next_eq : L.next x = B.headD null := (chain_split (h.chain _ hl)).2.1

end

theorem next_mem (hl : l ∈ LL) (hx : x ∈ l) (hn : L.next x ≠ null) : L.next x ∈ l := by
  obtain ⟨A, B, rfl⟩ := List.append_of_mem hx
  have hnx := h.next_eq hl
  cases B with
  | nil => exact absurd hnx hn
  | cons b B => simp [hnx]

/-- A null cell has null pointers, as every cell outside the lists. -/
theorem null_links : L.next null = null ∧ L.prev null = null := h.outside null h.null_notMem

theorem mem_of_next_ne (hn : L.next x ≠ null) : x ∈ LL.flatten := by
  by_contra hx
  exact hn (h.outside x hx).1

theorem mem_of_prev_ne (hp : L.prev x ≠ null) : x ∈ LL.flatten := by
  by_contra hx
  exact hp (h.outside x hx).2

theorem prev_next (hn : L.next x ≠ null) : L.prev (L.next x) = x := by
  obtain ⟨A, B, hl⟩ := exists_split (h.mem_of_next_ne hn)
  have hnx := h.next_eq hl
  cases B with
  | nil => exact absurd hnx hn
  | cons b B =>
    rw [hnx]
    have hl' : (A ++ [x]) ++ b :: B ∈ LL := by
      rwa [List.append_assoc]
    have hpb := h.prev_eq hl'
    rwa [List.getLastD_concat] at hpb

theorem next_prev (hp : L.prev x ≠ null) : L.next (L.prev x) = x := by
  obtain ⟨A, B, hl⟩ := exists_split (h.mem_of_prev_ne hp)
  have hpx := h.prev_eq hl
  rcases List.eq_nil_or_concat A with rfl | ⟨A', a, rfl⟩
  · exact absurd hpx hp
  · rw [List.concat_eq_append] at hl hpx
    rw [List.getLastD_concat] at hpx
    rw [hpx]
    rw [List.append_assoc] at hl
    exact h.next_eq hl

/-- The two pointers are mutually inverse. -/
theorem next_eq_iff {y : P} (hx : x ≠ null) (hy : y ≠ null) : L.next x = y ↔ L.prev y = x := by
  constructor
  · rintro rfl
    exact h.prev_next hy
  · rintro rfl
    exact h.next_prev hx

theorem next_ne_self (hx : x ∈ LL.flatten) : L.next x ≠ x := by
  obtain ⟨A, B, hl⟩ := exists_split hx
  rw [h.next_eq hl]
  cases B with
  | nil => exact (h.ne_null hx).symm
  | cons b B =>
    rintro rfl
    exact (h.split_notMem hl).2 (.head _)

theorem prev_ne_self (hx : x ∈ LL.flatten) : L.prev x ≠ x := by
  intro he
  have hne := h.ne_null hx
  have hn := h.next_prev (by rwa [he])
  rw [he] at hn
  exact h.next_ne_self hx hn

/-- No pointer leads from a cell to itself. -/
theorem self_free (hx : x ≠ null) : L.next x ≠ x ∧ L.prev x ≠ x := by
  constructor
  · intro he
    exact h.next_ne_self (h.mem_of_next_ne (by rwa [he])) he
  · intro he
    exact h.prev_ne_self (h.mem_of_prev_ne (by rwa [he])) he

/-- Following the forward pointer walks down the list. -/
theorem iterate_next : ∀ (n : Nat) {A B : List P} {x : P},
    A ++ x :: B ∈ LL → L.next^[n + 1] x = B.getD n null
  | n, A, [], x, hl => by
    have hx : L.next x = null := h.next_eq hl
    rw [Function.iterate_succ_apply, hx, Function.iterate_fixed h.null_links.1]
    rfl
  | 0, A, b :: B, x, hl => h.next_eq hl
  | n + 1, A, b :: B, x, hl => by
    have hx : L.next x = b := h.next_eq hl
    have hl' : (A ++ [x]) ++ b :: B ∈ LL := by
      rwa [List.append_assoc]
    rw [Function.iterate_succ_apply, hx, iterate_next n hl']
    rfl

/-- No cell leads back to itself. -/
theorem iterate_next_ne (hx : x ∈ LL.flatten) (n : Nat) : L.next^[n + 1] x ≠ x := by
  obtain ⟨A, B, hl⟩ := exists_split hx
  rw [h.iterate_next n hl, List.getD_eq_getElem?_getD]
  cases hb : B[n]? with
  | none => exact (h.ne_null hx).symm
  | some b =>
    rintro rfl
    exact (h.split_notMem hl).2 (List.mem_of_getElem? hb)

end Lists

section Splice

variable [DecidableEq P] {L M : Links P}

/-- The last cell of a chain is pointed elsewhere. -/
theorem chain_retarget_end {e' : P} : ∀ {p e : P} {l : List P}, l.Nodup → L.Chain p l e →
    (∀ y ∈ l, M.prev y = L.prev y) →
    (∀ y ∈ l, M.next y = if l.getLast? = some y then e' else L.next y) → M.Chain p l e'
  | _, _, [], _, _, _, _ => trivial
  | p, e, [a], _, ⟨h1, _, _⟩, hp, hn => by
    refine ⟨(hp a (.head _)).trans h1, ?_, trivial⟩
    rw [hn a List.mem_cons_self]
    exact if_pos rfl
  | p, e, a :: b :: l, hnd, ⟨h1, h2, h3⟩, hp, hn => by
    have hab : (b :: l).getLast? ≠ some a := by
      intro h
      exact (List.nodup_cons.mp hnd).1 (List.mem_of_getLast? h)
    refine ⟨(hp a (.head _)).trans h1, ?_, ?_⟩
    · rw [hn a List.mem_cons_self, List.getLast?_cons_cons, if_neg hab]
      exact h2
    · refine chain_retarget_end (List.nodup_cons.mp hnd).2 h3 ?_ ?_
      · intro y hy
        exact hp y (.tail a hy)
      · intro y hy
        rw [hn y (List.mem_cons_of_mem a hy), List.getLast?_cons_cons]

/-- The first cell of a chain is pointed elsewhere. -/
theorem chain_retarget_start {p p' e : P} {l : List P} (hnd : l.Nodup) (h : L.Chain p l e)
    (hn : ∀ y ∈ l, M.next y = L.next y)
    (hp : ∀ y ∈ l, M.prev y = if l.head? = some y then p' else L.prev y) : M.Chain p' l e := by
  cases l with
  | nil => trivial
  | cons a l =>
    obtain ⟨_, h2, h3⟩ := h
    refine ⟨?_, (hn a (.head _)).trans h2, ?_⟩
    · rw [hp a List.mem_cons_self]
      exact if_pos rfl
    · refine chain_congr (fun y hy => ⟨hn y (.tail a hy), ?_⟩) h3
      have hay : (a :: l).head? ≠ some y := by
        rintro ⟨⟩
        exact (List.nodup_cons.mp hnd).1 hy
      rw [hp y (List.mem_cons_of_mem a hy), if_neg hay]

/-- What an edit between `A` and `B` does to the links of the cells around it: the last cell of `A`
points to `u`, the first cell of `B` points back to `v`, and nothing else changes. -/
structure Splice (L M : Links P) (A B : List P) (u v : P) (y : P) : Prop where
  next : M.next y = if A.getLast? = some y then u else L.next y
  prev : M.prev y = if B.head? = some y then v else L.prev y

namespace Splice

variable {A B : List P} {u v y : P}

/-- A cell on neither side keeps its links. -/
theorem off (h : Splice L M A B u v y) (hA : y ∉ A) (hB : y ∉ B) :
    M.next y = L.next y ∧ M.prev y = L.prev y := by
  have hA' : A.getLast? ≠ some y := fun he => hA (List.mem_of_getLast? he)
  have hB' : B.head? ≠ some y := fun he => hB (List.mem_of_mem_head? he)
  exact ⟨by rw [h.next, if_neg hA'], by rw [h.prev, if_neg hB']⟩

/-- The two halves of a chain, with new cells at the cut. -/
theorem chains {p e w z : P} (hnd : (A ++ B).Nodup) (hA : L.Chain p A w) (hB : L.Chain z B e)
    (h : ∀ y ∈ A ++ B, Splice L M A B u v y) : M.Chain p A u ∧ M.Chain v B e := by
  obtain ⟨hndA, hndB, hdisj⟩ := List.nodup_append.mp hnd
  constructor
  · refine chain_retarget_end hndA hA ?_ ?_
    · intro y hy
      have hB' : B.head? ≠ some y := fun he => hdisj y hy y (List.mem_of_mem_head? he) rfl
      rw [(h y (List.mem_append_left B hy)).prev, if_neg hB']
    · intro y hy
      exact (h y (List.mem_append_left B hy)).next
  · refine chain_retarget_start hndB hB ?_ ?_
    · intro y hy
      have hA' : A.getLast? ≠ some y := fun he => hdisj y (List.mem_of_getLast? he) y hy rfl
      rw [(h y (List.mem_append_right A hy)).next, if_neg hA']
    · intro y hy
      exact (h y (List.mem_append_right A hy)).prev

end Splice

end Splice

/-! ## Edits -/

/-- Permute the cells. -/
def rename (L : Links P) (σ : Equiv.Perm P) : Links P where
  next x := σ (L.next (σ.symm x))
  prev x := σ (L.prev (σ.symm x))

/-- Renaming the cells renames the lists. -/
theorem Lists.rename {null : P} {L : Links P} {LL : List (List P)} (h : Lists null L LL)
    (σ : Equiv.Perm P) (hσ : σ null = null) : Lists null (L.rename σ) (LL.map (List.map σ)) := by
  have hmem : ∀ x, x ∈ (LL.map (List.map σ)).flatten ↔ σ.symm x ∈ LL.flatten := by
    intro x
    rw [← List.map_flatten, List.mem_map]
    constructor
    · rintro ⟨y, hy, rfl⟩
      rwa [Equiv.symm_apply_apply]
    · intro hx
      exact ⟨_, hx, Equiv.apply_symm_apply _ _⟩
  have hσ' : σ.symm null = null := by rw [Equiv.symm_apply_eq, hσ]
  refine ⟨?_, ?_, ?_, ?_⟩
  · rw [← List.map_flatten]
    exact h.nodup.map σ.injective
  · rw [hmem, hσ']
    exact h.null_notMem
  · intro l' hl'
    obtain ⟨l, hl, rfl⟩ := List.mem_map.mp hl'
    have hmap := chain_map (M := L.rename σ) σ (fun x _ => by simp [Links.rename]) (h.chain l hl)
    rwa [hσ] at hmap
  · intro x hx
    rw [hmem] at hx
    obtain ⟨h1, h2⟩ := h.outside _ hx
    simp only [Links.rename, h1, h2, hσ, and_self]

variable [DecidableEq P] (null : P)

/-- Put `dst` right behind `src`. -/
def insertAfter (L : Links P) (src dst : P) : Links P where
  next x := if x = src then dst else if x = dst then L.next src else L.next x
  prev x :=
    if x = L.next src ∧ x ≠ null then dst else if x = dst then src else L.prev x

/-- Splice `s` out. -/
def unlink (L : Links P) (s : P) : Links P where
  next x := if x = s then null else if x = L.prev s ∧ x ≠ null then L.next s else L.next x
  prev x := if x = s then null else if x = L.next s ∧ x ≠ null then L.prev s else L.prev x

section Insert

/-- `dst` behind `src` in a list, if `src` is in it. -/
def listInsertAfter (src dst : P) (l : List P) : List P :=
  l.flatMap fun x => if x = src then [x, dst] else [x]

theorem listInsertAfter_of_notMem {src : P} (dst : P) : ∀ {l : List P}, src ∉ l →
    listInsertAfter src dst l = l
  | [], _ => rfl
  | a :: l, h => by
    have ha : a ≠ src := fun he => h (he ▸ (.head _))
    have ih := listInsertAfter_of_notMem dst fun hl => h (.tail a hl)
    unfold listInsertAfter at ih ⊢
    rw [List.flatMap_cons, ih, if_neg ha]
    rfl

theorem listInsertAfter_split {src : P} (dst : P) {A B : List P} (hA : src ∉ A) (hB : src ∉ B) :
    listInsertAfter src dst (A ++ src :: B) = A ++ src :: dst :: B := by
  have hA' := listInsertAfter_of_notMem dst hA
  have hB' := listInsertAfter_of_notMem dst hB
  unfold listInsertAfter at *
  rw [List.flatMap_append, List.flatMap_cons, hA', hB', if_pos rfl]
  rfl

theorem flatten_map_listInsertAfter (src dst : P) (LL : List (List P)) :
    (LL.map (listInsertAfter src dst)).flatten = listInsertAfter src dst LL.flatten := by
  induction LL with
  | nil => rfl
  | cons l LL ih =>
    rw [List.map_cons, List.flatten_cons, List.flatten_cons, ih]
    unfold listInsertAfter
    rw [List.flatMap_append]

variable {null} {L : Links P} {src dst : P}

/-- What the insertion does to the cells around it. -/
theorem splice_insertAfter {A B : List P} (hB : null ∉ B) (hn : L.next src = B.headD null) {y : P}
    (hy : y ≠ dst) : Splice L (L.insertAfter null src dst) (A ++ [src]) B dst dst y where
  next := by
    simp only [insertAfter, if_neg hy]
    simp [eq_comm]
  prev := by
    simp only [insertAfter, hn, if_neg hy, head?_eq_some_iff hB]
    grind

variable {LL : List (List P)}

variable (h : Lists null L LL) (hs : src ∈ LL.flatten)
include h hs

theorem Lists.flatten_insertAfter (dst : P) : ∃ A B, LL.flatten = A ++ src :: B ∧
      (LL.map (listInsertAfter src dst)).flatten = A ++ src :: dst :: B := by
  obtain ⟨A, B, hAB⟩ := List.append_of_mem hs
  have hnd := h.nodup
  rw [hAB, List.nodup_append] at hnd
  have hA : src ∉ A := fun hx => hnd.2.2 src hx src (.head _) rfl
  have hB : src ∉ B := (List.nodup_cons.mp hnd.2.1).1
  refine ⟨A, B, hAB, ?_⟩
  rw [flatten_map_listInsertAfter, hAB, listInsertAfter_split dst hA hB]

theorem Lists.mem_flatten_insertAfter (dst x : P) :
    x ∈ (LL.map (listInsertAfter src dst)).flatten ↔ x = dst ∨ x ∈ LL.flatten := by
  obtain ⟨A, B, h1, h2⟩ := h.flatten_insertAfter hs dst
  rw [h1, h2]
  simp only [List.mem_append, List.mem_cons]
  tauto

/-- Inserting a fresh cell behind `src` puts it there in the list of `src`. -/
theorem Lists.insertAfter (hd : dst ∉ LL.flatten) (hd0 : dst ≠ null) :
    Lists null (L.insertAfter null src dst) (LL.map (listInsertAfter src dst)) := by
  obtain ⟨A, B, hl⟩ := exists_split hs
  have hn := h.next_eq hl
  have hsd : src ≠ dst := fun he => hd (he ▸ hs)
  have hdn : dst ≠ L.next src := fun he => hd (he ▸ mem_flatten hl (h.next_mem hl (by simp) (he ▸ hd0)))
  have hB : null ∉ B := fun hm => h.null_notMem (mem_flatten hl (by simp [hm]))
  have hsp : ∀ y ≠ dst, Splice L (L.insertAfter null src dst) (A ++ [src]) B dst dst y :=
    fun y => splice_insertAfter hB hn
  -- the cells of other lists, and those in no list, are not touched
  have hoff := fun y hy (hm : y ∉ A ++ src :: B) => (hsp y hy).off (by grind) (by grind)
  refine ⟨?_, ?_, ?_, ?_⟩
  · obtain ⟨A, B, h1, h2⟩ := h.flatten_insertAfter hs dst
    have hnd := h.nodup
    rw [h1] at hd hnd
    rw [h2]
    have hperm : (A ++ src :: dst :: B).Perm (dst :: (A ++ src :: B)) := by
      have h1 : (A ++ src :: dst :: B).Perm (src :: dst :: B ++ A) := List.perm_append_comm
      have h2 : (src :: dst :: B ++ A).Perm (dst :: (src :: B ++ A)) := .swap _ _ _
      exact (h1.trans h2).trans (.cons _ List.perm_append_comm)
    exact hperm.nodup_iff.mpr (List.nodup_cons.mpr ⟨hd, hnd⟩)
  · intro hn
    rcases (h.mem_flatten_insertAfter hs dst null).mp hn with he | he
    · exact hd0 he.symm
    · exact h.null_notMem he
  · intro l' hl'
    obtain ⟨l, hll, rfl⟩ := List.mem_map.mp hl'
    by_cases hsl : src ∈ l
    · obtain rfl := h.eq_of_mem hll hl hsl (by simp)
      obtain ⟨hA, hB⟩ := h.split_notMem hl
      have hc := h.chain _ hl
      have hnd := h.nodup_of_mem hl
      rw [List.append_cons] at hc hnd
      obtain ⟨hcA, hcB⟩ := chain_append.mp hc
      obtain ⟨hcA, hcB⟩ := Splice.chains hnd hcA hcB fun y hy => hsp y fun he =>
        hd (he ▸ mem_flatten hl (by simpa using hy))
      rw [listInsertAfter_split dst hA hB, List.append_cons]
      refine chain_append.mpr ⟨hcA, ?_, ?_, hcB⟩
      · simp [Links.insertAfter, hdn]
      · simp [Links.insertAfter, hsd.symm, hn]
    · rw [listInsertAfter_of_notMem dst hsl]
      refine chain_congr (fun x hx => hoff x ?_ fun hm => hsl ?_) (h.chain l hll)
      · exact fun he => hd (he ▸ mem_flatten hll hx)
      · simp [h.eq_of_mem hll hl hx hm]
  · intro x hx
    rw [h.mem_flatten_insertAfter hs, not_or] at hx
    obtain ⟨hn, hp⟩ := hoff x hx.1 fun hm => hx.2 (mem_flatten hl hm)
    rw [hn, hp]
    exact h.outside x hx.2

end Insert

section Unlink

variable {null} {L : Links P} {s : P}

/-- What the removal does to the cells around it. -/
theorem splice_unlink {A B : List P} (hA : null ∉ A) (hB : null ∉ B) (hp : L.prev s = A.getLastD null)
    (hn : L.next s = B.headD null) {y : P} (hy : y ≠ s) :
    Splice L (L.unlink null s) A B (B.headD null) (A.getLastD null) y := by
  constructor <;>
    simp only [unlink, hn, hp, if_neg hy, head?_eq_some_iff hB, getLast?_eq_some_iff hA] <;> grind

theorem filter_ne_of_notMem {l : List P} (hl : s ∉ l) : l.filter (· ≠ s) = l := by
  refine List.filter_eq_self.mpr fun x hx => ?_
  have hxs : x ≠ s := fun he => hl (he ▸ hx)
  simpa using hxs

theorem filter_ne_split {A B : List P} (hA : s ∉ A) (hB : s ∉ B) :
    (A ++ s :: B).filter (· ≠ s) = A ++ B := by
  rw [List.filter_append, List.filter_cons_of_neg (by simp), filter_ne_of_notMem hA,
    filter_ne_of_notMem hB]

variable {LL : List (List P)}

theorem Lists.mem_flatten_unlink (x : P) :
    x ∈ (LL.map (List.filter (· ≠ s))).flatten ↔ x ≠ s ∧ x ∈ LL.flatten := by
  rw [← List.filter_flatten, List.mem_filter]
  simp [and_comm]

/-- Splicing a cell out removes it from its list. -/
theorem Lists.unlink (h : Lists null L LL) (hs : s ∈ LL.flatten) :
    Lists null (L.unlink null s) (LL.map (List.filter (· ≠ s))) := by
  obtain ⟨A, B, hl⟩ := exists_split hs
  have hnull : null ∉ A ++ s :: B := fun hm => h.null_notMem (mem_flatten hl hm)
  have hsp := fun y => splice_unlink (y := y) (by grind) (by grind) (h.prev_eq hl) (h.next_eq hl)
  have hoff := fun y (hm : y ∉ A ++ s :: B) => (hsp y (by grind)).off (by grind) (by grind)
  refine ⟨?_, ?_, ?_, ?_⟩
  · rw [← List.filter_flatten]
    exact h.nodup.filter _
  · rw [mem_flatten_unlink]
    exact fun hn => h.null_notMem hn.2
  · intro l' hl'
    obtain ⟨l, hll, rfl⟩ := List.mem_map.mp hl'
    by_cases hsl : s ∈ l
    · obtain rfl := h.eq_of_mem hll hl hsl (by simp)
      obtain ⟨hA, hB⟩ := h.split_notMem hl
      obtain ⟨-, -, hcA, hcB⟩ := chain_split (h.chain _ hl)
      have hnd := h.nodup_of_mem hl
      rw [List.nodup_middle] at hnd
      rw [filter_ne_split hA hB]
      exact chain_append.mpr (Splice.chains (List.nodup_cons.mp hnd).2 hcA hcB fun y hy => hsp y (by grind))
    · rw [filter_ne_of_notMem hsl]
      refine chain_congr (fun x hx => hoff x fun hm => hsl ?_) (h.chain l hll)
      simp [h.eq_of_mem hll hl hx hm]
  · intro x hx
    rw [mem_flatten_unlink] at hx
    by_cases hxs : x = s
    · subst hxs
      simp [unlink]
    · have hxl : x ∉ LL.flatten := fun hm => hx ⟨hxs, hm⟩
      obtain ⟨hn, hp⟩ := hoff x fun hm => hxl (mem_flatten hl hm)
      rw [hn, hp]
      exact h.outside x hxl

end Unlink

section Transpose

/-- Move the cell `s` to the address `t`. -/
def moveTo (L : Links P) (s t : P) : Links P where
  next x :=
    if x = L.prev s ∧ x ≠ null then t
    else if x = s then null else if x = t then L.next s else L.next x
  prev x :=
    if x = L.next s ∧ x ≠ null then t
    else if x = s then null else if x = t then L.prev s else L.prev x

/-- Exchange the cells `s` and `t` in place: the neighbours of `s` are redirected to `t`, then the
pointers are exchanged, then the neighbours of `t` are redirected to `s`. If the two cells are
neighbours, the first step writes to `t` itself; `a` and `b` are what it leaves there. -/
def exchange (L : Links P) (s t : P) : Links P :=
  let a := if t = L.prev s ∧ t ≠ null then t else L.next t
  let b := if t = L.next s ∧ t ≠ null then t else L.prev t
  { next := fun x =>
      if x = b ∧ x ≠ null then s
      else if x = t then L.next s
      else if x = s then a
      else if x = L.prev s ∧ x ≠ null then t else L.next x
    prev := fun x =>
      if x = a ∧ x ≠ null then s
      else if x = t then L.prev s
      else if x = s then b
      else if x = L.next s ∧ x ≠ null then t else L.prev x }

variable {null} {L : Links P} {LL : List (List P)} {s t : P}

theorem Lists.moveTo_eq (h : Lists null L LL) (hs : s ∈ LL.flatten) (ht : t ∉ LL.flatten)
    (ht0 : t ≠ null) : L.moveTo null s t = L.rename (Equiv.swap s t) := by
  have hs0 := h.ne_null hs
  have hz := h.null_links
  have hself := h.self_free hs0
  obtain ⟨htn, htp⟩ := h.outside t ht
  -- nothing points to the free address
  have hnt : ∀ x, L.next x ≠ t := by
    intro x he
    have hx := h.prev_next (by rwa [he])
    rw [he, htp] at hx
    exact ht0 (he.symm.trans (hx ▸ hz.1))
  have hpt : ∀ x, L.prev x ≠ t := by
    intro x he
    have hx := h.next_prev (by rwa [he])
    rw [he, htn] at hx
    exact ht0 (he.symm.trans (hx ▸ hz.2))
  ext x
  · have hxs : x ≠ null → (L.next x = s ↔ L.prev s = x) := fun hx => h.next_eq_iff hx hs0
    simp only [moveTo, Links.rename, Equiv.symm_swap, Equiv.swap_apply_def]
    grind
  · have hxs : x ≠ null → (L.next s = x ↔ L.prev x = s) := fun hx => h.next_eq_iff hs0 hx
    simp only [Links.moveTo, Links.rename, Equiv.symm_swap, Equiv.swap_apply_def]
    grind

theorem Lists.exchange_eq (h : Lists null L LL) (hst : s ≠ t) (hs : s ≠ null) (ht : t ≠ null) :
    L.exchange null s t = L.rename (Equiv.swap s t) := by
  have hz := h.null_links
  have hss := h.self_free hs
  have htt := h.self_free ht
  have hts := h.next_eq_iff ht hs
  have hst' := h.next_eq_iff hs ht
  ext x
  · have hxs : x ≠ null → (L.next x = s ↔ L.prev s = x) := fun hx => h.next_eq_iff hx hs
    have hxt : x ≠ null → (L.next x = t ↔ L.prev t = x) := fun hx => h.next_eq_iff hx ht
    simp only [exchange, Links.rename, Equiv.symm_swap, Equiv.swap_apply_def]
    grind
  · have hxs : x ≠ null → (L.next s = x ↔ L.prev x = s) := fun hx => h.next_eq_iff hs hx
    have hxt : x ≠ null → (L.next t = x ↔ L.prev x = t) := fun hx => h.next_eq_iff ht hx
    simp only [Links.exchange, Links.rename, Equiv.symm_swap, Equiv.swap_apply_def]
    grind

end Transpose

end Links

end SeL4.Lib
