import SeL4.Lib.Links

/-!
# The order of linked cells, and trees encoded in it

`Before` is the order in which the forward pointers visit cells. The edits of `SeL4.Lib.Links`
change it as one expects: `before_insertAfter`, `before_unlink`, `before_rename`.

A tree over the cells can be kept without any further pointers if it is laid out in preorder and
a test `par s d` says whether `d` may lie below `s`: the subtree of `s` is then the run of cells
behind `s` that pass the test (`InRun`). `Encodes` says that the runs are exactly the
descendants of a given parent function. The main results say what a test has to satisfy for an
edit to keep this up:

* `Encodes.insertAfter`: a new cell becomes a child of the cell before it, or its sibling;
* `Encodes.unlink`: the children of a removed cell go to its parent;
* `Encodes.rename`: cells are renamed in the tree and in the list.
-/

namespace SeL4.Lib

open Relation Function

/-! ## Two facts on transitive closures -/

section Closure

variable {α : Type} {r r' : α → α → Prop}

/-- Splicing an element out of a relation. -/
theorem transGen_splice {D : α} (hD : ¬ r D D)
    (hr : ∀ a b, r' a b ↔ a ≠ D ∧ b ≠ D ∧ (r a b ∨ r a D ∧ r D b)) {a b : α} :
    TransGen r' a b ↔ a ≠ D ∧ b ≠ D ∧ TransGen r a b := by
  constructor
  · intro h
    induction h with
    | single h =>
      obtain ⟨h1, h2, h3⟩ := (hr _ _).mp h
      refine ⟨h1, h2, ?_⟩
      rcases h3 with h3 | ⟨h3, h4⟩
      · exact .single h3
      · exact .tail (.single h3) h4
    | tail _ h ih =>
      obtain ⟨ha, -, hab⟩ := ih
      obtain ⟨-, h2, h3⟩ := (hr _ _).mp h
      refine ⟨ha, h2, ?_⟩
      rcases h3 with h3 | ⟨h3, h4⟩
      · exact hab.tail h3
      · exact (hab.tail h3).tail h4
  · rintro ⟨ha, hb, h⟩
    -- paths to `D` are kept in mind with their last step
    have key : ∀ c, TransGen r a c → (c ≠ D → TransGen r' a c) ∧
        (c = D → ∃ p, (p = a ∨ TransGen r' a p) ∧ p ≠ D ∧ r p D) := by
      intro c hc
      induction hc with
      | single h1 =>
        refine ⟨fun hcD => .single ((hr _ _).mpr ⟨ha, hcD, .inl h1⟩), ?_⟩
        rintro rfl
        exact ⟨a, .inl rfl, ha, h1⟩
      | @tail p c _ h1 ih =>
        by_cases hp : p = D
        · subst hp
          obtain ⟨q, hq, hqD, hqp⟩ := ih.2 rfl
          refine ⟨fun hcD => ?_, fun hcD => absurd (hcD ▸ h1) hD⟩
          have hstep : r' q c := (hr _ _).mpr ⟨hqD, hcD, .inr ⟨hqp, h1⟩⟩
          rcases hq with rfl | hq
          · exact .single hstep
          · exact hq.tail hstep
        · have hap := ih.1 hp
          refine ⟨fun hcD => hap.tail ((hr _ _).mpr ⟨hp, hcD, .inl h1⟩), ?_⟩
          rintro rfl
          exact ⟨p, .inr hap, hp, h1⟩
    exact (key b h).1 hb

/-- Renaming a relation. -/
theorem transGen_equiv (σ : Equiv.Perm α) (hr : ∀ a b, r' a b ↔ r (σ a) (σ b)) {a b : α} :
    TransGen r' a b ↔ TransGen r (σ a) (σ b) := by
  constructor
  · intro h
    exact .lift σ (fun a b h => (hr a b).mp h) a b h
  · intro h
    have hback : ∀ a b, r a b → r' (σ.symm a) (σ.symm b) := by
      intro a b h
      rw [hr, Equiv.apply_symm_apply, Equiv.apply_symm_apply]
      exact h
    have h' : TransGen r' (σ.symm (σ a)) (σ.symm (σ b)) := .lift σ.symm hback (σ a) (σ b) h
    rwa [Equiv.symm_apply_apply, Equiv.symm_apply_apply] at h'

end Closure

namespace Links

variable {P : Type} (null : P)

/-- `b` is the cell behind `a`. -/
def Next (L : Links P) (a b : P) : Prop := L.next a = b ∧ b ≠ null

/-- The forward pointers lead from `a` to `b`. -/
def Before (L : Links P) : P → P → Prop := TransGen (L.Next null)

variable {null} {L : Links P} {LL : List (List P)}

variable {b a : P}

theorem Next.before (h : L.Next null a b) : L.Before null a b := .single h

theorem Before.trans {c : P} (hab : L.Before null a b) (hbc : L.Before null b c) : L.Before null a c :=
  TransGen.trans hab hbc

theorem Before.next_ne (h : L.Before null a b) : L.next a ≠ null := by
  obtain ⟨b', hb', -⟩ := TransGen.head'_iff.mp h
  rw [hb'.1]
  exact hb'.2

namespace Lists

variable (h : Lists null L LL)
include h

/-- A cell is behind one cell only. -/
theorem next_inj {c : P} (ha : L.Next null a c) (hb : L.Next null b c) : a = b := by
  rw [← h.prev_next (x := b) (by rw [hb.1]; exact hb.2), hb.1, ← ha.1,
    h.prev_next (by rw [ha.1]; exact ha.2)]

/-- The last step of a walk. -/
theorem before_tail {c : P} (hac : L.Before null a c) (hbc : L.Next null b c) :
    a = b ∨ L.Before null a b := by
  obtain ⟨b', hab, hb'⟩ := TransGen.tail'_iff.mp hac
  have hbb : b' = b := h.next_inj hb' hbc
  subst hbb
  rcases reflTransGen_iff_eq_or_transGen.mp hab with rfl | hab
  · exact .inl rfl
  · exact .inr hab

theorem before_irrefl (a : P) : ¬ L.Before null a a := by
  intro haa
  have key : ∀ b, L.Before null a b → ∃ n, L.next^[n + 1] a = b := by
    intro b hb
    induction hb with
    | single h1 => exact ⟨0, h1.1⟩
    | tail _ h1 ih =>
      obtain ⟨n, hn⟩ := ih
      refine ⟨n + 1, ?_⟩
      rw [iterate_succ_apply', hn]
      exact h1.1
  obtain ⟨n, hn⟩ := key a haa
  exact h.iterate_next_ne (h.mem_of_next_ne haa.next_ne) n hn

theorem mem_left (hab : L.Before null a b) : a ∈ LL.flatten := h.mem_of_next_ne hab.next_ne

theorem mem_right (hab : L.Before null a b) : b ∈ LL.flatten := by
  obtain ⟨c, -, hcb⟩ := TransGen.tail'_iff.mp hab
  have hc : L.next c ≠ null := by
    rw [hcb.1]
    exact hcb.2
  have hmem := h.mem_of_next_ne hc
  obtain ⟨l, hl, hcl⟩ := List.mem_flatten.mp hmem
  rw [← hcb.1]
  exact mem_flatten hl (h.next_mem hl hcl hc)

/-- A cell outside the lists is before nothing and behind nothing. -/
theorem not_before_of_notMem {d : P} (hd : d ∉ LL.flatten) (a : P) :
    ¬ L.Before null d a ∧ ¬ L.Before null a d :=
  ⟨fun hb => hd (h.mem_left hb), fun hb => hd (h.mem_right hb)⟩

end Lists

/-! ## The order after an edit -/

section Edits

variable [DecidableEq P]

variable {src dst : P}

/-- One step after an insertion. -/
theorem next_insertAfter (hsd : src ≠ dst) (hd0 : dst ≠ null) (a b : P) :
    (L.insertAfter null src dst).Next null a b ↔
      (a = src ∧ b = dst) ∨ (a = dst ∧ L.Next null src b) ∨ (a ≠ src ∧ a ≠ dst ∧ L.Next null a b) := by
  unfold Next
  by_cases has : a = src
  · subst has
    simp only [insertAfter, if_true]
    constructor
    · rintro ⟨rfl, -⟩
      exact .inl ⟨trivial, rfl⟩
    · rintro (⟨-, rfl⟩ | ⟨he, -⟩ | ⟨he, -⟩)
      · exact ⟨rfl, hd0⟩
      · exact absurd he hsd
      · exact absurd rfl he
  · by_cases had : a = dst
    · subst had
      simp only [insertAfter, if_neg has, if_true]
      tauto
    · simp only [insertAfter, if_neg has, if_neg had]
      tauto

section

variable (h : Lists null L LL)
include h

/-- Without the inserted cell the order is the old one. -/
theorem Lists.splice_insertAfter (hs : src ∈ LL.flatten)
    (hd : dst ∉ LL.flatten) (hd0 : dst ≠ null) (a b : P) :
    L.Before null a b ↔ a ≠ dst ∧ b ≠ dst ∧ (L.insertAfter null src dst).Before null a b := by
  have hsd : src ≠ dst := fun he => hd (he ▸ hs)
  have hnext := next_insertAfter (L := L) hsd hd0
  have hout : ∀ x, ¬ L.Next null dst x ∧ ¬ L.Next null x dst := fun x =>
    (h.not_before_of_notMem hd x).imp (fun hn hx => hn hx.before) fun hn hx => hn hx.before
  refine transGen_splice (fun hn => ?_) (fun a b => ?_)
  · rcases (hnext _ _).mp hn with ⟨he, -⟩ | ⟨-, hn⟩ | ⟨-, he, -⟩
    · exact hsd he.symm
    · exact (hout src).2 hn
    · exact he rfl
  · grind

/-- The inserted cell takes its place behind `src`; the order of the others is kept. -/
theorem Lists.before_insertAfter (hs : src ∈ LL.flatten)
    (hd : dst ∉ LL.flatten) (hd0 : dst ≠ null) (a b : P) :
    (L.insertAfter null src dst).Before null a b ↔
      (a ≠ dst ∧ b ≠ dst ∧ L.Before null a b) ∨ (b = dst ∧ (a = src ∨ L.Before null a src)) ∨
        (a = dst ∧ L.Before null src b) := by
  have hsd : src ≠ dst := fun he => hd (he ▸ hs)
  have hsplice := h.splice_insertAfter hs hd hd0
  have h' := h.insertAfter hs hd hd0
  have hsrc : (L.insertAfter null src dst).Next null src dst :=
    (next_insertAfter hsd hd0 _ _).mpr (.inl ⟨rfl, rfl⟩)
  by_cases ha : a = dst
  · -- the way from `src` goes over the new cell
    have hfrom : (L.insertAfter null src dst).Before null dst b ↔ L.Before null src b := by
      constructor
      · intro hb
        exact (hsplice src b).mpr ⟨hsd, fun he => h'.before_irrefl dst (he ▸ hb), hsrc.before.trans hb⟩
      · intro hb
        obtain ⟨-, hbd, hb⟩ := (hsplice src b).mp hb
        obtain ⟨c, hc, hcb⟩ := TransGen.head'_iff.mp hb
        obtain rfl : dst = c := hsrc.1.symm.trans hc.1
        exact (reflTransGen_iff_eq_or_transGen.mp hcb).resolve_left hbd
    simp [ha, hfrom, hsd.symm, (h.not_before_of_notMem hd src).1]
  · by_cases hb : b = dst
    · have hinto : (L.insertAfter null src dst).Before null a dst ↔
          a = src ∨ (L.insertAfter null src dst).Before null a src :=
        ⟨fun hab => h'.before_tail hab hsrc, fun hab => hab.elim (· ▸ hsrc.before) (·.tail hsrc)⟩
      simp [ha, hb, hinto, hsplice, hsd]
    · simp [ha, hb, hsplice]

/-- One step after a cell is spliced out. -/
theorem Lists.next_unlink {s : P} (hs : s ∈ LL.flatten) (a b : P) :
    (L.unlink null s).Next null a b ↔
      a ≠ s ∧ b ≠ s ∧ (L.Next null a b ∨ L.Next null a s ∧ L.Next null s b) := by
  have hs0 := h.ne_null hs
  unfold Next
  by_cases has : a = s
  · subst has
    simp only [Links.unlink, if_true]
    constructor
    · rintro ⟨rfl, hn⟩
      exact absurd rfl hn
    · rintro ⟨he, -⟩
      exact absurd rfl he
  · by_cases hap : a = L.prev s ∧ a ≠ null
    · have hns : L.next a = s := (h.next_eq_iff hap.2 hs0).mpr hap.1.symm
      simp only [Links.unlink, if_neg has, if_pos hap, hns]
      constructor
      · rintro ⟨rfl, hb⟩
        exact ⟨has, h.next_ne_self hs, .inr ⟨⟨trivial, hs0⟩, rfl, hb⟩⟩
      · rintro ⟨-, hbs, ⟨rfl, -⟩ | ⟨-, hb⟩⟩
        · exact absurd rfl hbs
        · exact hb
    · have hns : L.next a ≠ s := by
        intro he
        have ha0 : a ≠ null := by
          rintro rfl
          exact hs0 (he.symm.trans h.null_links.1)
        exact hap ⟨((h.next_eq_iff ha0 hs0).mp he).symm, ha0⟩
      simp only [Links.unlink, if_neg has, if_neg hap]
      constructor
      · rintro ⟨rfl, hb⟩
        exact ⟨has, hns, .inl ⟨rfl, hb⟩⟩
      · rintro ⟨-, -, hb | ⟨⟨he, -⟩, -⟩⟩
        · exact hb
        · exact absurd he hns

theorem Lists.before_unlink {s : P} (hs : s ∈ LL.flatten) (a b : P) :
    (L.unlink null s).Before null a b ↔ a ≠ s ∧ b ≠ s ∧ L.Before null a b :=
  transGen_splice (fun hss => h.next_ne_self hs hss.1) (h.next_unlink hs)

end

end Edits

theorem next_rename (σ : Equiv.Perm P) (hσ : σ null = null) (a b : P) :
    (L.rename σ).Next null a b ↔ L.Next null (σ.symm a) (σ.symm b) := by
  have h0 : b ≠ null ↔ σ.symm b ≠ null := by
    rw [ne_eq, ne_eq, Equiv.symm_apply_eq, hσ]
  unfold Next rename
  rw [h0, Equiv.eq_symm_apply]

theorem before_rename (σ : Equiv.Perm P) (hσ : σ null = null) (a b : P) :
    (L.rename σ).Before null a b ↔ L.Before null (σ.symm a) (σ.symm b) :=
  transGen_equiv σ.symm (next_rename σ hσ)

/-! ## Runs and the tree they encode -/

variable (null)

/-- `d` is in the run behind `s` of cells that pass the test `par s`. -/
inductive InRun (L : Links P) (par : P → P → Prop) (s : P) : P → Prop
  | head {d : P} : L.Next null s d → par s d → InRun L par s d
  | tail {d e : P} : InRun L par s d → L.Next null d e → par s e → InRun L par s e

variable {null}

variable {d s : P} {par : P → P → Prop}

theorem InRun.before (hr : InRun null L par s d) : L.Before null s d := by
  induction hr with
  | head h1 _ => exact h1.before
  | tail _ h1 _ ih => exact ih.tail h1

theorem InRun.par_self (hr : InRun null L par s d) : par s d := by
  cases hr with
  | head _ h1 => exact h1
  | tail _ _ h1 => exact h1

/-- The run behind `s` in terms of the order: `d` is in it if every cell from `s` up to `d`
passes. -/
theorem Lists.inRun_iff (h : Lists null L LL) :
    InRun null L par s d ↔ L.Before null s d ∧
      ∀ x, (x = d ∨ L.Before null x d) → L.Before null s x → par s x := by
  constructor
  · intro hr
    refine ⟨hr.before, ?_⟩
    induction hr with
    | head h1 hp =>
      rintro x (rfl | hx) hsx
      · exact hp
      · rcases h.before_tail hx h1 with rfl | hxs
        · exact absurd hsx (h.before_irrefl _)
        · exact absurd (hsx.trans hxs) (h.before_irrefl _)
    | tail _ h1 hp ih =>
      rintro x (rfl | hx) hsx
      · exact hp
      · exact ih x (h.before_tail hx h1) hsx
  · rintro ⟨hsd, hp⟩
    induction hsd with
    | single h1 => exact .head h1 (hp _ (.inl rfl) h1.before)
    | @tail b c hb h1 ih =>
      refine .tail (ih fun x hx hsx => hp x (.inr ?_) hsx) h1 (hp _ (.inl rfl) (hb.tail h1))
      rcases hx with rfl | hx
      · exact h1.before
      · exact hx.tail h1

/-- The descendants of `s` in the tree given by `parent`. -/
def Desc (parent : P → Option P) : P → P → Prop := TransGen fun a b => parent b = some a

variable (null)

/-- The runs of `par` in the list are the subtrees of `parent`. -/
def Encodes (L : Links P) (par : P → P → Prop) (parent : P → Option P) : Prop :=
  ∀ s d, Desc parent s d ↔ InRun null L par s d

variable {null} {par' : P → P → Prop} {parent : P → Option P}

theorem Desc.exists_parent (hd : Desc parent s d) : ∃ p, parent d = some p := by
  obtain ⟨p, -, hp⟩ := TransGen.tail'_iff.mp hd
  exact ⟨p, hp⟩

theorem desc_iff_parent {p : P} (hp : parent d = some p) : Desc parent s d ↔ s = p ∨ Desc parent s p := by
  constructor
  · intro hd
    obtain ⟨p', hsp, hp'⟩ := TransGen.tail'_iff.mp hd
    have he : p' = p := Option.mem_unique hp' hp
    subst he
    rcases reflTransGen_iff_eq_or_transGen.mp hsp with rfl | hsp
    · exact .inl rfl
    · exact .inr hsp
  · rintro (rfl | hd)
    · exact .single hp
    · exact .tail hd hp

namespace Encodes

variable (he : Encodes null L par parent) (h : Lists null L LL)
include he h

/-- A cell outside the lists is not in the tree. -/
theorem outside {d : P} (hd : d ∉ LL.flatten) (x : P) : parent x ≠ some d := by
  intro hx
  have hr := (he d x).mp (.single hx)
  exact (h.not_before_of_notMem hd x).1 hr.before

theorem irrefl (d : P) : parent d ≠ some d := by
  intro hx
  exact h.before_irrefl d ((he d d).mp (.single hx)).before

/-- A change of the test that no pair in the order sees. -/
theorem congr (hp : ∀ a b, L.Before null a b → (par' a b ↔ par a b)) : Encodes null L par' parent := by
  intro s d
  rw [he s d, h.inRun_iff, h.inRun_iff]
  constructor
  · rintro ⟨hsd, hx⟩
    exact ⟨hsd, fun x hxd hsx => (hp s x hsx).mpr (hx x hxd hsx)⟩
  · rintro ⟨hsd, hx⟩
    exact ⟨hsd, fun x hxd hsx => (hp s x hsx).mp (hx x hxd hsx)⟩

/-- **Renaming cells.** -/
theorem rename (σ : Equiv.Perm P) (hσ : σ null = null) (hp : ∀ a b, par' a b ↔ par (σ.symm a) (σ.symm b)) :
    Encodes null (L.rename σ) par' fun x => (parent (σ.symm x)).map σ := by
  intro s d
  have hdesc : Desc (fun x => (parent (σ.symm x)).map σ) s d ↔
      Desc parent (σ.symm s) (σ.symm d) := by
    refine transGen_equiv σ.symm fun a b => ?_
    rw [Option.map_eq_some_iff]
    constructor
    · rintro ⟨c, hc, rfl⟩
      rw [hc, Equiv.symm_apply_apply]
    · intro hb
      exact ⟨_, hb, Equiv.apply_symm_apply σ a⟩
  rw [hdesc, he, h.inRun_iff, (h.rename σ hσ).inRun_iff]
  simp only [before_rename σ hσ, hp]
  refine and_congr_right fun _ => ?_
  constructor
  · intro hx x hxd hsx
    refine hx _ ?_ hsx
    rcases hxd with rfl | hxd
    · exact .inl rfl
    · exact .inr hxd
  · intro hx x hxd hsx
    have := hx (σ x)
    rw [Equiv.symm_apply_apply] at this
    refine this ?_ hsx
    rcases hxd with rfl | hxd
    · exact .inl (Equiv.apply_symm_apply σ d)
    · exact .inr hxd

end Encodes

section EncodesEdits

variable [DecidableEq P]

/-- The children of `D` go to its parent. -/
def eraseParent (parent : P → Option P) (D : P) : P → Option P :=
  fun x => if x = D then none else if parent x = some D then parent D else parent x

section Splice

variable (h : Lists null L LL) {D : P} (hD : D ∈ LL.flatten)
  (hoff : ∀ s x, s ≠ D → x ≠ D → ¬ L.Next null D x → (par' s x ↔ par s x))
  (hin : ∀ s X, L.Next null D X → L.Before null s D →
    (∀ x, L.Before null x D → L.Before null s x → par s x) → par' s X → par s D ∧ par s X)
  (hkeep : ∀ s X, L.Next null D X → s ≠ D → par s D → par s X → par' s X)
include h hD hoff hin hkeep

/-- The runs of `M`, which is `L` without `D`. The test may only change at the cell behind `D`: a cell
whose run reaches the place of `D` must have had `D` and the cell behind it in the run if the
latter passes now (`hin`), and the latter still passes if both were in it (`hkeep`). -/
theorem Lists.inRun_splice {M : Links P} {MM : List (List P)} (hM : Lists null M MM)
    (hord : ∀ a b, M.Before null a b ↔ a ≠ D ∧ b ≠ D ∧ L.Before null a b) (s d : P) :
    InRun null M par' s d ↔ s ≠ D ∧ d ≠ D ∧ InRun null L par s d := by
  rw [hM.inRun_iff, h.inRun_iff, hord]
  constructor
  · rintro ⟨⟨hsD, hdD, hsd⟩, hx⟩
    refine ⟨hsD, hdD, hsd, ?_⟩
    have hx' : ∀ x ≠ D, (x = d ∨ L.Before null x d) → L.Before null s x → par' s x :=
      fun x hxD hxd hsx =>
        hx x (hxd.imp_right fun hb => (hord x d).mpr ⟨hxD, hdD, hb⟩) ((hord s x).mpr ⟨hsD, hxD, hsx⟩)
    -- the cells up to `D` pass, so `hin` applies at the cell behind `D`
    have hX : ∀ X, L.Next null D X → (X = d ∨ L.Before null X d) → L.Before null s X →
        par s D ∧ par s X := by
      intro X hDX hXd hsX
      have hXD : X ≠ D := fun he => h.next_ne_self hD (hDX.1.trans he)
      have hsD' : L.Before null s D := (h.before_tail hsX hDX).resolve_left hsD
      refine hin s X hDX hsD' (fun x hxD hsx => ?_) (hx' X hXD hXd hsX)
      have hxD' : x ≠ D := fun he => h.before_irrefl D (he ▸ hxD)
      have hxX : ¬ L.Next null D x := fun hn => h.before_irrefl _ (hn.before.trans hxD)
      refine (hoff s x hsD hxD' hxX).mp (hx' x hxD' (.inr ?_) hsx)
      have hxX : L.Before null x X := hxD.tail hDX
      rcases hXd with rfl | hXd
      · exact hxX
      · exact hxX.trans hXd
    intro x hxd hsx
    by_cases hxD : x = D
    · subst hxD
      have hxd' := hxd.resolve_left (Ne.symm hdD)
      obtain ⟨X, hX1, hXd⟩ := TransGen.head'_iff.mp hxd'
      refine (hX X hX1 ?_ (hsx.tail hX1)).1
      exact (reflTransGen_iff_eq_or_transGen.mp hXd).imp Eq.symm id
    · by_cases hDx : L.Next null D x
      · exact (hX x hDx hxd hsx).2
      · exact (hoff s x hsD hxD hDx).mp (hx' x hxD hxd hsx)
  · rintro ⟨hsD, hdD, hsd, hx⟩
    refine ⟨⟨hsD, hdD, hsd⟩, fun x hxd hsx => ?_⟩
    obtain ⟨-, hxD, hsx'⟩ := (hord s x).mp hsx
    have hxd' : x = d ∨ L.Before null x d := hxd.imp_right fun hb => ((hord x d).mp hb).2.2
    by_cases hDx : L.Next null D x
    · have hsD' : L.Before null s D := (h.before_tail hsx' hDx).resolve_left hsD
      refine hkeep s x hDx hsD (hx D (.inr ?_) hsD') (hx x hxd' hsx')
      rcases hxd' with rfl | hxd'
      · exact hDx.before
      · exact hDx.before.trans hxd'
    · exact (hoff s x hsD hxD hDx).mpr (hx x hxd' hsx')

/-- **Removing a cell**: its children become its parent's. -/
theorem Encodes.unlink (he : Encodes null L par parent) :
    Encodes null (L.unlink null D) par' (eraseParent parent D) := by
  intro s d
  have hirr := he.irrefl h D
  have hdesc : Desc (eraseParent parent D) s d ↔ s ≠ D ∧ d ≠ D ∧ Desc parent s d := by
    refine transGen_splice hirr fun a b => ?_
    unfold eraseParent
    split_ifs with hb hp
    · simp [hb]
    · constructor
      · intro ha
        exact ⟨fun he => hirr (he ▸ ha), hb, .inr ⟨ha, hp⟩⟩
      · rintro ⟨ha, -, hba | ⟨hDa, -⟩⟩
        · exact absurd (Option.mem_unique hba hp) ha
        · exact hDa
    · constructor
      · intro ha
        exact ⟨fun he => hp (he ▸ ha), hb, .inl ha⟩
      · rintro ⟨-, -, hba | ⟨-, hbD⟩⟩
        · exact hba
        · exact absurd hbD hp
  rw [hdesc, h.inRun_splice hD hoff hin hkeep (h.unlink hD) (h.before_unlink hD), he]

end Splice

variable {dst : P}

/-- The tree after a leaf `dst` is added. -/
theorem desc_update {q : Option P} (hout : ∀ x, parent x ≠ some dst) (hq : q ≠ some dst) (s d : P) :
    Desc (update parent dst q) s d ↔
      (d ≠ dst ∧ Desc parent s d) ∨ (d = dst ∧ ∃ p, q = some p ∧ (s = p ∨ Desc parent s p)) := by
  have hstep : ∀ a b, b ≠ dst → (update parent dst q b = some a ↔ parent b = some a) := by
    intro a b hb
    rw [update_of_ne hb]
  have hne : ∀ s d, d ≠ dst → (Desc (update parent dst q) s d ↔ Desc parent s d) := by
    intro s d hd
    constructor
    · intro hsd
      induction hsd with
      | single h1 => exact .single ((hstep _ _ hd).mp h1)
      | @tail b c _ h1 ih =>
        have h1' := (hstep _ _ hd).mp h1
        exact .tail (ih fun he => hout c (he ▸ h1')) h1'
    · intro hsd
      induction hsd with
      | single h1 => exact .single ((hstep _ _ hd).mpr h1)
      | @tail b c _ h1 ih =>
        exact .tail (ih fun he => hout c (he ▸ h1)) ((hstep _ _ hd).mpr h1)
  by_cases hd : d = dst
  · subst hd
    constructor
    · intro hsd
      obtain ⟨p, hp⟩ := hsd.exists_parent
      have hqp : q = some p := by rwa [update_self] at hp
      have hpd : p ≠ d := fun he => hq (he ▸ hqp)
      refine .inr ⟨rfl, p, hqp, ?_⟩
      exact ((desc_iff_parent hp).mp hsd).imp_right (hne s p hpd).mp
    · rintro (⟨he, -⟩ | ⟨-, p, hqp, hsp⟩)
      · exact absurd rfl he
      · have hpd : p ≠ d := fun he => hq (he ▸ hqp)
        have hp : update parent d q d = some p := by rw [update_self, hqp]
        exact (desc_iff_parent hp).mpr (hsp.imp_right (hne s p hpd).mpr)
  · rw [hne s d hd]
    tauto

variable (h : Lists null L LL) {src : P} (hs : src ∈ LL.flatten) (hd : dst ∉ LL.flatten) (hd0 : dst ≠ null)
  (hoff : ∀ s x, s ≠ dst → x ≠ dst → (par' s x ↔ par s x))
  (hup : ∀ s, InRun null L par s src → par' s dst)
  (hsrc : ∀ x, L.Next null src x → par src x → par' src dst) (hnew : ∀ x, L.Next null src x → ¬ par' dst x)
include h hs hd hd0 hoff hup hsrc hnew

/-- The runs after `dst` is inserted behind `src`. The new cell must pass for every cell whose
run reaches `src` (`hup`), and for `src` if `src` has a run at all (`hsrc`); it must not have a
run of its own (`hnew`). -/
theorem Lists.inRun_insertAfter (s d : P) :
    InRun null (L.insertAfter null src dst) par' s d ↔
      (d ≠ dst ∧ InRun null L par s d) ∨
        (d = dst ∧ (s = src ∧ par' src dst ∨ InRun null L par s src)) := by
  have hsd : src ≠ dst := fun he => hd (he ▸ hs)
  have h' := h.insertAfter hs hd hd0
  have hord := h.splice_insertAfter hs hd hd0
  have hout := h.not_before_of_notMem hd
  have hinto : (L.insertAfter null src dst).Next null src dst :=
    (next_insertAfter hsd hd0 _ _).mpr (.inl ⟨rfl, rfl⟩)
  have hfrom : ∀ x, (L.insertAfter null src dst).Next null dst x → L.Next null src x := by
    intro x hx
    simpa [hsd.symm] using (next_insertAfter hsd hd0 dst x).mp hx
  -- the old runs are the new ones without the new cell
  have hold : ∀ s d, InRun null L par s d ↔
      s ≠ dst ∧ d ≠ dst ∧ InRun null (L.insertAfter null src dst) par' s d := by
    refine h'.inRun_splice ((h.mem_flatten_insertAfter hs dst dst).mpr (.inl rfl))
      (fun s x hs hx _ => (hoff s x hs hx).symm) (fun s X hX hsD hpass hp => ?_) (fun s X hX hsD _ hp => ?_) h hord
    · have hXd : X ≠ dst := fun he => (hout src).2 (he ▸ (hfrom X hX).before)
      have hsdst : s ≠ dst := fun he => h'.before_irrefl dst (he ▸ hsD)
      refine ⟨?_, (hoff s X hsdst hXd).mpr hp⟩
      rcases h'.before_tail hsD hinto with rfl | hssrc
      · exact hsrc X (hfrom X hX) hp
      · refine hup s (h.inRun_iff.mpr ⟨(hord s src).mpr ⟨hsdst, hsd, hssrc⟩, fun x hx hsx => ?_⟩)
        obtain ⟨-, hxd, hsx'⟩ := (hord s x).mp hsx
        refine (hoff s x hsdst hxd).mp (hpass x ?_ hsx')
        rcases hx with rfl | hx
        · exact hinto.before
        · exact ((hord x src).mp hx).2.2.tail hinto
    · have hXd : X ≠ dst := fun he => (hout src).2 (he ▸ (hfrom X hX).before)
      exact (hoff s X hsD hXd).mp hp
  have hnone : ∀ d, ¬ InRun null (L.insertAfter null src dst) par' dst d := by
    intro d hr
    induction hr with
    | head hn hp => exact hnew _ (hfrom _ hn) hp
    | tail _ _ _ ih => exact ih
  by_cases hsdst : s = dst
  · simp [hsdst, hold, hnone, hsd.symm]
  by_cases hdd : d = dst
  · subst hdd
    have hprev : ∀ {x}, (L.insertAfter null src d).Next null x d → x = src := fun hx =>
      h'.next_inj hx hinto
    simp only [ne_eq, not_true_eq_false, false_and, true_and, false_or]
    constructor
    · intro hr
      cases hr with
      | head hn hp => exact .inl ⟨hprev hn, hprev hn ▸ hp⟩
      | tail hr hn hp => exact .inr ((hold s src).mpr ⟨hsdst, hsd, hprev hn ▸ hr⟩)
    · rintro (⟨rfl, hp⟩ | hr)
      · exact .head hinto hp
      · exact .tail ((hold s src).mp hr).2.2 hinto (hup s hr)
  · simp [hold, hsdst, hdd]

/-- **Inserting a cell** as a child of `src` if it passes for `src`, and as a sibling
otherwise. -/
theorem Encodes.insertAfter (he : Encodes null L par parent) {q : Option P}
    (hq : (par' src dst → q = some src) ∧ (¬ par' src dst → q = parent src)) :
    Encodes null (L.insertAfter null src dst) par' (update parent dst q) := by
  intro s d
  have hsd : src ≠ dst := fun he => hd (he ▸ hs)
  have hqd : q ≠ some dst := by
    intro hqd
    by_cases hp : par' src dst
    · exact hsd (Option.some.inj ((hq.1 hp).symm.trans hqd))
    · exact he.outside h hd src ((hq.2 hp).symm.trans hqd)
  rw [desc_update (he.outside h hd) hqd, h.inRun_insertAfter hs hd hd0 hoff hup hsrc hnew, he]
  refine or_congr_right (and_congr_right fun _ => ?_)
  by_cases hp : par' src dst
  · rw [hq.1 hp, ← he]
    constructor
    · rintro ⟨p, hp', hsp⟩
      cases hp'
      exact hsp.imp_left fun e => ⟨e, hp⟩
    · intro hsp
      exact ⟨src, rfl, hsp.imp_left And.left⟩
  · rw [hq.2 hp, ← he]
    constructor
    · rintro ⟨p, hp', hsp⟩
      exact .inr ((desc_iff_parent hp').mpr hsp)
    · rintro (⟨-, hp'⟩ | hsp)
      · exact absurd hp' hp
      · obtain ⟨p, hp'⟩ := hsp.exists_parent
        exact ⟨p, hp', (desc_iff_parent hp').mp hsp⟩

end EncodesEdits

end Links

end SeL4.Lib
