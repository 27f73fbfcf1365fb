import Mathlib.Logic.Function.Basic

/-!
# Register banks that are switched lazily

Several banks of registers are shared by many parties, each of which has a place in memory for its
values. A bank has at most one owner, whose values are in the bank and not in memory. `switch` saves
the owner of a bank and loads another one, or leaves the bank without owner.

`Coherent b val` says where the values `val` of each party are: in the bank it owns, or in memory if
it owns none. What keeps it is one lemma for each thing that can happen: a switch (`Coherent.switch`),
a write to a bank by its owner (`Coherent.write`), and a party that starts afresh (`Coherent.reset`).
-/

namespace SeL4.Lib

open Function

/-- The banks `κ`, the parties `τ` and their values `V`. -/
structure Banks (κ τ V : Type*) where
  owner : κ → Option τ
  regs : κ → V
  mem : τ → V

namespace Banks

variable {κ τ V : Type*} [DecidableEq κ] [DecidableEq τ]

/-- The values of the owner of `c` are written to memory. -/
def save (b : Banks κ τ V) (c : κ) : Banks κ τ V :=
  match b.owner c with
  | some t => { b with mem := update b.mem t (b.regs c) }
  | none => b

/-- The new owner of `c`, and its values if there is one. -/
def load (b : Banks κ τ V) (c : κ) : Option τ → Banks κ τ V
  | some t => { b with owner := update b.owner c (some t), regs := update b.regs c (b.mem t) }
  | none => { b with owner := update b.owner c none }

/-- One owner gives way to the next. -/
def switch (b : Banks κ τ V) (c : κ) (o : Option τ) : Banks κ τ V := (b.save c).load c o

variable (b : Banks κ τ V) (c : κ) (o : Option τ)

omit [DecidableEq κ] in
theorem save_owner : (b.save c).owner = b.owner := by
  unfold save
  cases b.owner c <;> rfl

omit [DecidableEq κ] in
theorem save_regs : (b.save c).regs = b.regs := by
  unfold save
  cases b.owner c <;> rfl

omit [DecidableEq τ] in
theorem load_owner : (b.load c o).owner = update b.owner c o := by
  cases o <;> rfl

omit [DecidableEq τ] in
theorem load_mem : (b.load c o).mem = b.mem := by
  cases o <;> rfl

@[simp] theorem switch_owner : (b.switch c o).owner = update b.owner c o := by
  rw [switch, load_owner, save_owner]

/-- Where the values of the parties are. -/
structure Coherent (b : Banks κ τ V) (val : τ → V) : Prop where
  /-- Nobody owns two banks. -/
  excl : ∀ {c d : κ} {t : τ}, b.owner c = some t → b.owner d = some t → c = d
  held : ∀ {c : κ} {t : τ}, b.owner c = some t → b.regs c = val t
  stored : ∀ {t : τ}, (∀ c, b.owner c ≠ some t) → b.mem t = val t

variable {b c} {val : τ → V}

/-- Once the owner of `c` is saved, memory is right for it as well. -/
theorem Coherent.save_mem (h : Coherent b val) {t : τ} (ht : ∀ d ≠ c, b.owner d ≠ some t) :
    (b.save c).mem t = val t := by
  unfold save
  cases ho : b.owner c with
  | none =>
    refine h.stored fun d hd => ?_
    by_cases hdc : d = c
    · rw [hdc, ho] at hd
      cases hd
    · exact ht d hdc hd
  | some u =>
    by_cases hu : t = u
    · subst hu
      exact (update_self t _ b.mem).trans (h.held ho)
    · refine (update_of_ne hu _ b.mem).trans (h.stored fun d hd => ?_)
      by_cases hdc : d = c
      · rw [hdc, ho] at hd
        exact hu (Option.some.inj hd).symm
      · exact ht d hdc hd

/-- **A switch loses nothing**, if the new owner owns no other bank. -/
theorem Coherent.switch (h : Coherent b val) {o : Option τ}
    (ho : ∀ t, o = some t → ∀ d ≠ c, b.owner d ≠ some t) : Coherent (b.switch c o) val := by
  have howner := switch_owner b c o
  refine ⟨fun {d e t} hd he => ?_, fun {d t} hd => ?_, fun {t} hn => ?_⟩
  · rw [howner] at hd he
    by_cases hdc : d = c <;> by_cases hec : e = c
    · exact hdc.trans hec.symm
    · rw [hdc, update_self] at hd
      rw [update_of_ne hec] at he
      exact absurd he (ho t hd e hec)
    · rw [hec, update_self] at he
      rw [update_of_ne hdc] at hd
      exact absurd hd (ho t he d hdc)
    · rw [update_of_ne hdc] at hd
      rw [update_of_ne hec] at he
      exact h.excl hd he
  · rw [howner] at hd
    by_cases hdc : d = c
    · subst hdc
      rw [update_self] at hd
      subst hd
      exact (update_self d _ _).trans (h.save_mem (ho t rfl))
    · rw [update_of_ne hdc] at hd
      have hregs : (b.switch c o).regs d = (b.save c).regs d := by
        cases o with
        | none => rfl
        | some u => exact update_of_ne hdc _ _
      rw [hregs, save_regs]
      exact h.held hd
  · rw [howner] at hn
    rw [Banks.switch, load_mem]
    refine h.save_mem fun d hdc hd => hn d ?_
    rw [update_of_ne hdc]
    exact hd

/-- The owner of a bank writes to it. -/
theorem Coherent.write (h : Coherent b val) {t : τ} (ho : b.owner c = some t) (v : V) :
    Coherent { b with regs := update b.regs c v } (update val t v) := by
  refine ⟨h.excl, fun {d u} hd => ?_, fun {u} hn => ?_⟩
  · by_cases hdc : d = c
    · subst hdc
      obtain rfl : t = u := Option.mem_unique ho hd
      simp only [update_self]
    · have hu : u ≠ t := fun hu => hdc (h.excl hd (hu ▸ ho))
      exact (update_of_ne hdc v _).trans ((h.held hd).trans (update_of_ne hu v val).symm)
  · have hu : u ≠ t := fun hu => hn c (hu ▸ ho)
    exact (h.stored hn).trans (update_of_ne hu v val).symm

omit [DecidableEq κ] in
/-- A party that owns no bank starts with new values. -/
theorem Coherent.reset (h : Coherent b val) {t : τ} (hn : ∀ d, b.owner d ≠ some t) (v : V) :
    Coherent { b with mem := update b.mem t v } (update val t v) := by
  refine ⟨h.excl, fun {d u} hd => ?_, fun {u} hu => ?_⟩
  · have hut : u ≠ t := fun hut => hn d (hut ▸ hd)
    exact (h.held hd).trans (update_of_ne hut v val).symm
  · by_cases hut : u = t
    · subst hut
      exact (update_self u v b.mem).trans (update_self u v val).symm
    · exact (update_of_ne hut v b.mem).trans ((h.stored hu).trans (update_of_ne hut v val).symm)

end Banks

end SeL4.Lib
