import Mathlib.Tactic.Common

/-!
# Programs that read memory

A computation over a memory that notes every address it reads, so that "this code looks at nothing
but these bytes" is a statement about its result. The memory is a function; reading never fails,
which is what a C program sees that reads past the end of an object.

The lemmas say what sequencing does to the result and to the noted addresses; a program is then
analysed without unfolding the monad.
-/

namespace SeL4.Lib

/-- A computation over a memory with contents `β` at addresses `α`, and the addresses it reads. -/
def Access (α β ρ : Type) : Type := (α → β) → ρ × List α

namespace Access

variable {α β ρ σ : Type} {m : α → β}

instance : Monad (Access α β) where
  pure x _ := (x, [])
  bind x f m := ((f (x m).1 m).1, (x m).2 ++ (f (x m).1 m).2)

/-- Reads one address. -/
def read (a : α) : Access α β β := fun m => (m a, [a])

/-- What the computation returns. -/
def result (x : Access α β ρ) (m : α → β) : ρ := (x m).1

/-- What it reads on the way. -/
def reads (x : Access α β ρ) (m : α → β) : List α := (x m).2

@[simp] theorem result_pure (x : ρ) : (pure x : Access α β ρ).result m = x := rfl

@[simp] theorem reads_pure (x : ρ) : (pure x : Access α β ρ).reads m = [] := rfl

@[simp] theorem result_read (a : α) : (read a : Access α β β).result m = m a := rfl

@[simp] theorem reads_read (a : α) : (read a : Access α β β).reads m = [a] := rfl

@[simp] theorem result_bind (x : Access α β ρ) (f : ρ → Access α β σ) :
    (x >>= f).result m = (f (x.result m)).result m := rfl

@[simp] theorem reads_bind (x : Access α β ρ) (f : ρ → Access α β σ) :
    (x >>= f).reads m = x.reads m ++ (f (x.result m)).reads m := rfl

@[simp] theorem result_ite {c : Prop} [Decidable c] (x y : Access α β ρ) :
    (if c then x else y).result m = if c then x.result m else y.result m := by
  split_ifs <;> rfl

@[simp] theorem reads_ite {c : Prop} [Decidable c] (x y : Access α β ρ) :
    (if c then x else y).reads m = if c then x.reads m else y.reads m := by
  split_ifs <;> rfl

/-- The computation reads addresses with `P` only, and its result has `Q`. -/
def Safe (m : α → β) (P : α → Prop) (Q : ρ → Prop) (x : Access α β ρ) : Prop :=
  (∀ a ∈ x.reads m, P a) ∧ Q (x.result m)

variable {P : α → Prop} {Q : ρ → Prop} {R : σ → Prop}

theorem Safe.pure {x : ρ} (h : Q x) : Safe m P Q (pure x : Access α β ρ) :=
  ⟨fun _ ha => absurd ha List.not_mem_nil, h⟩

/-- What is read first is safe, and so is what follows for any result it may have. -/
theorem Safe.bind {x : Access α β ρ} {f : ρ → Access α β σ} (hx : Safe m P Q x)
    (hf : ∀ r, Q r → Safe m P R (f r)) : Safe m P R (x >>= f) := by
  obtain ⟨hreads, hres⟩ := hf _ hx.2
  exact ⟨fun a ha => (List.mem_append.mp ha).elim (hx.1 a) (hreads a), hres⟩

end Access

end SeL4.Lib
