import SeL4.Lib.LinkOrder

/-!
# Relations that a list keeps contiguous

A relation `rel a b` ("`b` is at or below `a`") over linked cells is `Laminar` if the list keeps
what is below `a` in one run behind `a`: between `a` and something below it everything is below
`a`, and two related cells stand in one list with the upper one first, unless each is below the
other. This is what lets a program find all cells below `a` from its neighbours only.

The edits of `SeL4.Lib.Links` keep a relation laminar:

* `Laminar.insert_copy`: a new cell behind `src` that is related as `src` is;
* `Laminar.insert_below`: a new cell behind `u`, below exactly `u` and what is above `u`;
* `Laminar.unlink`, `Laminar.rename`.
-/

namespace SeL4.Lib.Links

variable {P : Type} (null : P)

/-- The cells below each cell form a run behind it. -/
structure Laminar (L : Links P) (rel : P → P → Prop) : Prop where
  contiguous : ∀ {a b c}, L.Before null a b → L.Before null b c → rel a c → rel a b
  ordered : ∀ {a b}, L.Before null a b → rel b a → rel a b
  related : ∀ {a b}, a ≠ b → rel a b → L.Before null a b ∨ L.Before null b a

variable {null} {L : Links P} {LL : List (List P)} {rel rel' : P → P → Prop}

namespace Laminar

variable (hl : Laminar null L rel)
include hl

/-- What is below a cell without a related cell right behind it is before it. -/
theorem not_of_next {a b : P}
    (hn : ∀ x, L.Next null a x → ¬ rel a x) (hab : L.Before null a b) : ¬ rel a b := by
  intro hr
  obtain ⟨x, hx, hxb⟩ := Relation.TransGen.head'_iff.mp hab
  rcases Relation.reflTransGen_iff_eq_or_transGen.mp hxb with rfl | hxb
  · exact hn _ hx hr
  · exact hn x hx (hl.contiguous hx.before hxb hr)

section

variable (h : Lists null L LL)
include h

/-- Cells are renamed. Only pairs of different cells matter. -/
theorem rename (σ : Equiv.Perm P) (hσ : σ null = null)
    (hr : ∀ a b, a ≠ b → (rel' a b ↔ rel (σ.symm a) (σ.symm b))) : Laminar null (L.rename σ) rel' := by
  have hne : ∀ {a b}, L.Before null (σ.symm a) (σ.symm b) → a ≠ b := by
    rintro a b hab rfl
    exact h.before_irrefl _ hab
  refine ⟨?_, ?_, ?_⟩
  · intro a b c
    rw [before_rename σ hσ, before_rename σ hσ]
    intro hab hbc
    rw [hr a c (hne (hab.trans hbc)), hr a b (hne hab)]
    exact hl.contiguous hab hbc
  · intro a b
    rw [before_rename σ hσ]
    intro hab
    rw [hr b a (hne hab).symm, hr a b (hne hab)]
    exact hl.ordered hab
  · intro a b hab
    rw [before_rename σ hσ, before_rename σ hσ, hr a b hab]
    exact hl.related fun he => hab (σ.symm.injective he)

variable [DecidableEq P]

theorem unlink {s : P} (hs : s ∈ LL.flatten)
    (hr : ∀ a b, rel' a b ↔ a ≠ s ∧ b ≠ s ∧ rel a b) : Laminar null (L.unlink null s) rel' := by
  have hord := h.before_unlink hs
  refine ⟨?_, ?_, ?_⟩
  · intro a b c
    rw [hord, hord, hr, hr]
    rintro ⟨ha, hb, hab⟩ ⟨-, -, hbc⟩ ⟨-, -, hac⟩
    exact ⟨ha, hb, hl.contiguous hab hbc hac⟩
  · intro a b
    rw [hord, hr, hr]
    rintro ⟨ha, hb, hab⟩ ⟨-, -, hba⟩
    exact ⟨ha, hb, hl.ordered hab hba⟩
  · intro a b hne
    rw [hord, hord, hr]
    rintro ⟨ha, hb, hab⟩
    exact (hl.related hne hab).imp (fun h => ⟨ha, hb, h⟩) fun h => ⟨hb, ha, h⟩

/-- A new cell behind `src` that is related to all others as `src` is. -/
theorem insert_copy {src dst : P}
    (hs : src ∈ LL.flatten) (hd : dst ∉ LL.flatten) (hd0 : dst ≠ null) (hrefl : rel src src)
    (hr : ∀ a b, rel' a b ↔ rel (if a = dst then src else a) (if b = dst then src else b)) :
    Laminar null (L.insertAfter null src dst) rel' := by
  have hsd : src ≠ dst := fun he => hd (he ▸ hs)
  -- the new order is the old one read at `src` for `dst`, with `src` before `dst`
  have hord : ∀ a b, (L.insertAfter null src dst).Before null a b ↔ (a = src ∧ b = dst) ∨
      L.Before null (if a = dst then src else a) (if b = dst then src else b) := by
    intro a b
    have hout := h.not_before_of_notMem hd
    rw [h.before_insertAfter hs hd hd0]
    by_cases ha : a = dst <;> by_cases hb : b = dst <;>
      simp [ha, hb, hsd.symm, hout, h.before_irrefl]
  refine ⟨?_, ?_, ?_⟩
  · intro a b c
    rw [hord, hord, hr, hr]
    rintro (⟨rfl, rfl⟩ | hab) (⟨rfl, rfl⟩ | hbc)
    · exact absurd rfl hsd
    · rw [if_neg hsd, if_pos rfl]
      exact fun _ => hrefl
    · rw [if_pos rfl, if_neg hsd]
      exact id
    · exact hl.contiguous hab hbc
  · intro a b
    rw [hord, hr, hr]
    rintro (⟨rfl, rfl⟩ | hab)
    · rw [if_pos rfl, if_neg hsd]
      exact id
    · exact hl.ordered hab
  · intro a b hne
    rw [hord, hord, hr]
    intro hab
    by_cases he : (if a = dst then src else a) = if b = dst then src else b
    · grind
    · exact (hl.related he hab).imp .inr .inr

/-- A new cell behind `u` that is below `u` and what is above `u` (`hup`, `habove`), and is not
related to what was below `u` before (`hapart`). -/
theorem insert_below {u dst : P}
    (hu : u ∈ LL.flatten) (hd : dst ∉ LL.flatten) (hd0 : dst ≠ null)
    (hoff : ∀ a b, a ≠ dst → b ≠ dst → (rel' a b ↔ rel a b)) (hud : rel' u dst)
    (habove : ∀ a ≠ dst, rel a u → rel' a dst) (hup : ∀ a ≠ dst, rel' a dst → a = u ∨ rel a u)
    (hdown : ∀ a ≠ dst, rel' dst a → rel' a dst)
    (hapart : ∀ a, L.Before null u a → rel u a → ¬ rel' a dst) :
    Laminar null (L.insertAfter null u dst) rel' := by
  have hord := h.before_insertAfter hu hd hd0
  have hirr := h.before_irrefl
  have hout := h.not_before_of_notMem hd
  have hudne : u ≠ dst := fun he => hd (he ▸ hu)
  have hfrom : ∀ {b}, (L.insertAfter null u dst).Before null dst b ↔ L.Before null u b := by
    simp [hord, hudne.symm, hout]
  have hinto : ∀ {a}, (L.insertAfter null u dst).Before null a dst ↔ a = u ∨ L.Before null a u := by
    simp [hord, hout]
  have hold : ∀ {a b}, a ≠ dst → b ≠ dst →
      ((L.insertAfter null u dst).Before null a b ↔ L.Before null a b) := by
    intro a b ha hb
    simp [hord, ha, hb]
  -- nothing behind `u` is related to the new cell
  have hafter : ∀ a, L.Before null u a → ¬ rel' a dst := by
    intro a hua had
    have hane : a ≠ dst := fun he => (hout u).2 (he ▸ hua)
    rcases hup a hane had with rfl | hau
    · exact hirr _ hua
    · exact hapart a hua (hl.ordered hua hau) had
  have hdst : ∀ a, L.Before null u a → ¬ rel' dst a := fun a hua had =>
    hafter a hua (hdown a (fun he => (hout u).2 (he ▸ hua)) had)
  refine ⟨?_, ?_, ?_⟩
  · intro a b c hab hbc hac
    by_cases ha : a = dst
    · subst ha
      exact absurd hac (hdst c (hfrom.mp (hab.trans hbc)))
    by_cases hb : b = dst
    · subst hb
      have huc := hfrom.mp hbc
      rcases hinto.mp hab with rfl | hau
      · exact hud
      · have hc : c ≠ b := fun he => (hout u).2 (he ▸ huc)
        exact habove a ha (hl.contiguous hau huc ((hoff a c ha hc).mp hac))
    replace hab := (hold ha hb).mp hab
    rw [hoff a b ha hb]
    by_cases hc : c = dst
    · subst hc
      have hbu := hinto.mp hbc
      have hau : rel a u := by
        refine (hup a ha hac).resolve_left fun he => hirr a ?_
        rcases hbu with rfl | hbu
        · exact he ▸ hab
        · exact hab.trans (he ▸ hbu)
      rcases hbu with rfl | hbu
      · exact hau
      · exact hl.contiguous hab hbu hau
    · exact hl.contiguous hab ((hold hb hc).mp hbc) ((hoff a c ha hc).mp hac)
  · intro a b hab
    by_cases ha : a = dst
    · subst ha
      exact fun hba => absurd hba (hafter b (hfrom.mp hab))
    by_cases hb : b = dst
    · exact hb ▸ hdown a ha
    · rw [hoff b a hb ha, hoff a b ha hb]
      exact hl.ordered ((hold ha hb).mp hab)
  · -- a cell related to the new one is `u`, or above it and so before it
    have hplace : ∀ a ≠ dst, rel' a dst → a = u ∨ L.Before null a u := by
      intro a ha had
      rcases hup a ha had with rfl | hau
      · exact .inl rfl
      · by_cases he : a = u
        · exact .inl he
        · rcases hl.related he hau with hb | hb
          · exact .inr hb
          · exact absurd had (hafter a hb)
    intro a b hne hab
    by_cases ha : a = dst
    · subst ha
      exact .inr (hinto.mpr (hplace b (Ne.symm hne) (hdown b (Ne.symm hne) hab)))
    by_cases hb : b = dst
    · subst hb
      exact .inl (hinto.mpr (hplace a ha hab))
    · rw [hold ha hb, hold hb ha]
      exact hl.related hne ((hoff a b ha hb).mp hab)

end

end Laminar

end SeL4.Lib.Links
