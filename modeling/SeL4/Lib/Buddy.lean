import Mathlib.Algebra.Group.Nat.Defs
import Mathlib.Logic.ExistsUnique

/-!
# Binary trees of power-of-two blocks

A buddy system cuts a block of `2 ^ (n + 1)` bytes into two halves of `2 ^ n` bytes, any number of
times. `Buddy` says where each block is, how large, and into which two it is cut; a block that is not
cut is a leaf. `Under r q` says that `q` comes from cutting `r`.

* The leaves under a block tile it: each of its bytes is in exactly one (`existsUnique_leaf`), and none
  reaches outside (`Under.contains`).
* Cutting a leaf moves no byte between blocks (`covered_cut`).
* A block that is cut somewhere has two leaves that are halves of one block (`not_cut_of_merged`).
-/

namespace SeL4.Lib

/-- Blocks and how they are cut. -/
structure Buddy (P : Type) where
  base : P → Nat
  bits : P → Nat
  kids : P → Option (P × P)

namespace Buddy

variable {P : Type} {B : Buddy P} {a b p q r : P} {x : Nat}

/-- `x` is a byte of block `p`. -/
def Contains (B : Buddy P) (p : P) (x : Nat) : Prop := B.base p ≤ x ∧ x < B.base p + 2 ^ B.bits p

/-- A block is cut into its two halves. -/
def Halves (B : Buddy P) : Prop := ∀ p a b, B.kids p = some (a, b) →
  B.bits p = B.bits a + 1 ∧ B.bits b = B.bits a ∧ B.base a = B.base p ∧
    B.base b = B.base p + 2 ^ B.bits a

/-- Block `q` comes from cutting `r`. -/
inductive Under (B : Buddy P) (r : P) : P → Prop
  | refl : Under B r r
  | left {p a b : P} : Under B r p → B.kids p = some (a, b) → Under B r a
  | right {p a b : P} : Under B r p → B.kids p = some (a, b) → Under B r b

section

variable (h : Halves B)
include h

theorem Halves.contains_iff (hk : B.kids p = some (a, b)) (x : Nat) :
    B.Contains p x ↔ B.Contains a x ∨ B.Contains b x := by
  obtain ⟨hp, hb, hba, hbb⟩ := h p a b hk
  unfold Contains
  rw [hp, hb]
  omega

theorem Halves.disjoint (hk : B.kids p = some (a, b)) :
    ¬ (B.Contains a x ∧ B.Contains b x) := by
  obtain ⟨hp, hb, hba, hbb⟩ := h p a b hk
  unfold Contains
  omega

/-- A block has no byte that is not in the block it comes from. -/
theorem Under.contains (hu : B.Under r q) (hx : B.Contains q x) : B.Contains r x := by
  induction hu with
  | refl => exact hx
  | left _ hk ih => exact ih ((h.contains_iff hk x).mpr (.inl hx))
  | right _ hk ih => exact ih ((h.contains_iff hk x).mpr (.inr hx))

omit h in
theorem Under.trans (hpq : B.Under p q) (hrp : B.Under r p) : B.Under r q := by
  induction hpq with
  | refl => exact hrp
  | left _ hk ih => exact .left ih hk
  | right _ hk ih => exact .right ih hk

omit h in
/-- The first cut on the way down. -/
theorem Under.cases_top (hu : B.Under r q) :
    q = r ∨ ∃ a b, B.kids r = some (a, b) ∧ (B.Under a q ∨ B.Under b q) := by
  induction hu with
  | refl => exact .inl rfl
  | @left p a b _ hk ih =>
    rcases ih with rfl | ⟨c, d, hr, hu⟩
    · exact .inr ⟨a, b, hk, .inl .refl⟩
    · exact .inr ⟨c, d, hr, hu.imp (.left · hk) (.left · hk)⟩
  | @right p a b _ hk ih =>
    rcases ih with rfl | ⟨c, d, hr, hu⟩
    · exact .inr ⟨a, b, hk, .inr .refl⟩
    · exact .inr ⟨c, d, hr, hu.imp (.right · hk) (.right · hk)⟩

theorem exists_leaf (hx : B.Contains r x) :
    ∃ q, B.Under r q ∧ B.kids q = none ∧ B.Contains q x := by
  -- on the size of the block, since a half is smaller
  induction hn : B.bits r using Nat.strongRecOn generalizing r with
  | _ n ih =>
    cases hk : B.kids r with
    | none => exact ⟨r, .refl, hk, hx⟩
    | some c =>
      obtain ⟨a, b⟩ := c
      obtain ⟨hp, hb, -, -⟩ := h r a b hk
      rcases (h.contains_iff hk x).mp hx with hxa | hxb
      · obtain ⟨q, hu, hq⟩ := ih (B.bits a) (by omega) hxa rfl
        exact ⟨q, hu.trans (.left .refl hk), hq⟩
      · obtain ⟨q, hu, hq⟩ := ih (B.bits b) (by omega) hxb rfl
        exact ⟨q, hu.trans (.right .refl hk), hq⟩

theorem leaf_unique {q' : P} (hu : B.Under r q) (hu' : B.Under r q')
    (hl : B.kids q = none) (hl' : B.kids q' = none) (hx : B.Contains q x) (hx' : B.Contains q' x) :
    q = q' := by
  induction hn : B.bits r using Nat.strongRecOn generalizing r with
  | _ n ih =>
    rcases hu.cases_top with rfl | ⟨a, b, hk, hab⟩
    · rcases hu'.cases_top with rfl | ⟨a, b, hk, -⟩
      · rfl
      · exact nomatch hl.symm.trans hk
    · obtain ⟨hp, hb, -, -⟩ := h r a b hk
      rcases hu'.cases_top with rfl | ⟨a', b', hk', hab'⟩
      · exact nomatch hl'.symm.trans hk
      · obtain ⟨rfl, rfl⟩ : a = a' ∧ b = b' := by simpa using hk.symm.trans hk'
        rcases hab with ha | hb' <;> rcases hab' with ha' | hb''
        · exact ih (B.bits a) (by omega) ha ha' rfl
        · exact absurd ⟨ha.contains h hx, hb''.contains h hx'⟩ (h.disjoint hk)
        · exact absurd ⟨ha'.contains h hx', hb'.contains h hx⟩ (h.disjoint hk)
        · exact ih (B.bits b) (by omega) hb' hb'' rfl

/-- **The leaves under a block tile it.** -/
theorem existsUnique_leaf (hx : B.Contains r x) :
    ∃! q, (B.Under r q ∧ B.kids q = none) ∧ B.Contains q x := by
  obtain ⟨q, hu, hl, hq⟩ := exists_leaf h hx
  exact ⟨q, ⟨⟨hu, hl⟩, hq⟩, fun q' hq' => leaf_unique h hq'.1.1 hu hq'.1.2 hl hq'.2 hq⟩

/-- A block whose leaves are all free, with no two of them halves of one block, is not cut. -/
theorem not_cut_of_merged {mem : P → Prop} {free : P → Prop}
    (hmem : ∀ p a b, B.kids p = some (a, b) → mem a ∧ mem b)
    (hleaf : ∀ p, mem p → B.kids p = none → free p)
    (hmerged : ∀ p a b, B.kids p = some (a, b) → ¬ (free a ∧ free b)) (p : P) : B.kids p = none := by
  induction hn : B.bits p using Nat.strongRecOn generalizing p with
  | _ n ih =>
    cases hk : B.kids p with
    | none => rfl
    | some c =>
      obtain ⟨a, b⟩ := c
      obtain ⟨hp, hb, -, -⟩ := h p a b hk
      obtain ⟨ha, hb'⟩ := hmem p a b hk
      have hfa := hleaf a ha (ih (B.bits a) (by omega) a rfl)
      have hfb := hleaf b hb' (ih (B.bits b) (by omega) b rfl)
      exact absurd ⟨hfa, hfb⟩ (hmerged p a b hk)

end

/-! ## Cutting a leaf -/

section Cut

variable {B' : Buddy P} {mem : P → Prop}

/-- `B'` is `B` with leaf `p` cut into the new blocks `a` and `b`. -/
structure Cut (B B' : Buddy P) (mem : P → Prop) (p a b : P) : Prop where
  leaf : B.kids p = none
  kids : B'.kids p = some (a, b)
  kids_of_ne : ∀ q, mem q → q ≠ p → B'.kids q = B.kids q
  closed : ∀ q c d, mem q → B.kids q = some (c, d) → mem c ∧ mem d
  fresh_left : ¬ mem a
  fresh_right : ¬ mem b
  kids_left : B'.kids a = none
  kids_right : B'.kids b = none
  base : ∀ q, mem q → B'.base q = B.base q
  bits : ∀ q, mem q → B'.bits q = B.bits q

section

variable (h : Cut B B' mem p a b)
include h

/-- What was below a block still is. -/
theorem Cut.under (hr : mem r) (hu : B.Under r q) : mem q ∧ B'.Under r q := by
  have hkids : ∀ {s : P} {c : P × P}, mem s → B.kids s = some c → B'.kids s = some c := by
    intro s c hs hk
    have hsp : s ≠ p := by
      rintro rfl
      exact nomatch h.leaf.symm.trans hk
    exact (h.kids_of_ne s hs hsp).trans hk
  induction hu with
  | refl => exact ⟨hr, .refl⟩
  | left _ hk ih => exact ⟨(h.closed _ _ _ ih.1 hk).1, .left ih.2 (hkids ih.1 hk)⟩
  | right _ hk ih => exact ⟨(h.closed _ _ _ ih.1 hk).2, .right ih.2 (hkids ih.1 hk)⟩

/-- What is below a block now: what was, and the two halves where the leaf that is cut was below it. -/
theorem Cut.under_inv (hr : mem r) (hu : B'.Under r q) :
    (mem q ∧ B.Under r q) ∨ ((q = a ∨ q = b) ∧ B.Under r p) := by
  -- a block with halves is an old one: the one that is cut, or one with the same halves
  have hkids : ∀ {s c d}, (mem s ∧ B.Under r s) ∨ ((s = a ∨ s = b) ∧ B.Under r p) →
      B'.kids s = some (c, d) → B.Under r s ∧ (s = p ∧ a = c ∧ b = d ∨ mem s ∧ B.kids s = some (c, d)) := by
    rintro s c d (⟨hs, hu⟩ | ⟨rfl | rfl, -⟩) hk
    · by_cases hsp : s = p
      · subst hsp
        exact ⟨hu, .inl ⟨rfl, by simpa using h.kids.symm.trans hk⟩⟩
      · exact ⟨hu, .inr ⟨hs, h.kids_of_ne s hs hsp ▸ hk⟩⟩
    · exact nomatch h.kids_left.symm.trans hk
    · exact nomatch h.kids_right.symm.trans hk
  induction hu with
  | refl => exact .inl ⟨hr, .refl⟩
  | left _ hk ih =>
    obtain ⟨hu, ⟨rfl, rfl, -⟩ | ⟨hs, hk⟩⟩ := hkids ih hk
    · exact .inr ⟨.inl rfl, hu⟩
    · exact .inl ⟨(h.closed _ _ _ hs hk).1, .left hu hk⟩
  | right _ hk ih =>
    obtain ⟨hu, ⟨rfl, -, rfl⟩ | ⟨hs, hk⟩⟩ := hkids ih hk
    · exact .inr ⟨.inr rfl, hu⟩
    · exact .inl ⟨(h.closed _ _ _ hs hk).2, .right hu hk⟩

/-- Byte `x` of `r` is in a block that is `free`. -/
def Covered (B : Buddy P) (free : P → Prop) (r : P) (x : Nat) : Prop :=
  ∃ q, B.Under r q ∧ free q ∧ B.Contains q x

/-- **Cutting a free leaf** into two free halves leaves the same bytes free. -/
theorem covered_cut (hh : Halves B') {free free' : P → Prop} (hr : mem r)
    (hp : mem p) (hfp : free p) (hfp' : ¬ free' p) (hfa : free' a) (hfb : free' b)
    (hf : ∀ q, mem q → q ≠ p → (free' q ↔ free q)) (x : Nat) :
    B'.Covered free' r x ↔ B.Covered free r x := by
  have hcontains : ∀ {q}, mem q → (B'.Contains q x ↔ B.Contains q x) := by
    intro q hq
    unfold Contains
    rw [h.base q hq, h.bits q hq]
  have hsplit : B.Contains p x ↔ B'.Contains a x ∨ B'.Contains b x :=
    (hcontains hp).symm.trans (hh.contains_iff h.kids x)
  constructor
  · rintro ⟨q, hu, hfq, hx⟩
    rcases h.under_inv hr hu with ⟨hq, hu⟩ | ⟨hab, hu⟩
    · have hqp : q ≠ p := by
        rintro rfl
        exact hfp' hfq
      exact ⟨q, hu, (hf q hq hqp).mp hfq, (hcontains hq).mp hx⟩
    · refine ⟨p, hu, hfp, hsplit.mpr ?_⟩
      rcases hab with rfl | rfl
      · exact .inl hx
      · exact .inr hx
  · rintro ⟨q, hu, hfq, hx⟩
    obtain ⟨hq, hu'⟩ := h.under hr hu
    by_cases hqp : q = p
    · subst hqp
      rcases hsplit.mp hx with hxa | hxb
      · exact ⟨a, .left hu' h.kids, hfa, hxa⟩
      · exact ⟨b, .right hu' h.kids, hfb, hxb⟩
    · exact ⟨q, hu', (hf q hq hqp).mpr hfq, (hcontains hq).mpr hx⟩

end

end Cut

end Buddy

end SeL4.Lib
