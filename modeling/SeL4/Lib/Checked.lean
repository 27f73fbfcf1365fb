import Mathlib.Algebra.Group.Nat.Defs
import Mathlib.Tactic.SplitIfs

/-!
# Checked computations

Kernel code relies on facts it does not test in a release build: its `assert`s hold, its unsigned
arithmetic does not wrap where it is meant as arithmetic, and its `while` loops end. A `Checked`
computation makes each of the three an outcome of its own, so that one equation
`f x = .ok y` says that none of them goes wrong, and that `y` is the result of the wrapping
machine arithmetic too. Where the code wraps on purpose the model uses machine words instead.
-/

namespace SeL4.Lib

/-- What can go wrong in code that tests nothing. -/
inductive Fault
  /-- An `assert` or a `fail` of the source is reached with a false condition. -/
  | assertion
  /-- An unsigned 64-bit operation leaves the range it is meant to stay in. -/
  | wrap
  /-- A loop is still running after the given number of rounds. -/
  | fuel
  deriving DecidableEq, Repr

/-- A computation that may end in a `Fault`. -/
abbrev Checked := Except Fault

def uint64Max : Nat := 2 ^ 64 - 1

/-- `assert(b)`. -/
def require (b : Bool) : Checked Unit := if b then .ok () else .error .assertion

/-- `a + b` on 64-bit unsigned values. -/
def add64 (a b : Nat) : Checked Nat := if a + b ≤ uint64Max then .ok (a + b) else .error .wrap

/-- `a - b` on 64-bit unsigned values. -/
def sub64 (a b : Nat) : Checked Nat := if b ≤ a then .ok (a - b) else .error .wrap

theorem require_ok {b : Bool} (h : b = true) : require b = .ok () := by
  unfold require
  rw [if_pos h]

/-- An assertion that is made under the condition `c`. -/
theorem require_imp {c b : Bool} : require (!c || b) = .ok () ↔ (c = true → b = true) := by
  cases c <;> cases b <;> simp [require]

theorem add64_ok {a b : Nat} (h : a + b ≤ uint64Max) : add64 a b = .ok (a + b) := by
  unfold add64
  rw [if_pos h]

theorem sub64_ok {a b : Nat} (h : b ≤ a) : sub64 a b = .ok (a - b) := by
  unfold sub64
  rw [if_pos h]

variable {ε α β : Type} {x : Except ε α}

@[simp] theorem ok_bind (a : α) (f : α → Checked β) :
    ((Except.ok a : Checked α) >>= f) = f a := rfl

@[simp] theorem pure_eq_ok (a : α) : (pure a : Checked α) = .ok a := rfl

/-- A successful bind has a successful first half. -/
theorem bind_eq_ok {f : α → Except ε β} {b : β} (h : (x >>= f) = .ok b) : ∃ a, x = .ok a ∧ f a = .ok b := by
  cases x with
  | error e => cases h
  | ok a => exact ⟨a, rfl, h⟩

/-- Two successful steps. -/
theorem bind2_eq_ok {γ : Type} {y : α → Except ε β} {f : α → β → Except ε γ} {c : γ}
    (h : (x >>= fun a => y a >>= f a) = .ok c) : ∃ a, x = .ok a ∧ ∃ b, y a = .ok b ∧ f a b = .ok c := by
  obtain ⟨a, ha, h⟩ := bind_eq_ok h
  exact ⟨a, ha, bind_eq_ok h⟩

/-- Two steps that were run, and what was found of their results. -/
theorem exists_of_run {x : Checked α} {y : α → Checked β} {P : α → β → Prop}
    [∀ a b, Decidable (P a b)] (h : (x >>= fun a => y a >>= fun b => .ok (decide (P a b))) = .ok true) :
    ∃ a b, x = .ok a ∧ y a = .ok b ∧ P a b := by
  obtain ⟨a, ha, b, hb, h⟩ := bind2_eq_ok h
  exact ⟨a, b, ha, hb, of_decide_eq_true (Except.ok.inj h)⟩

/-- A step that returned `a` was run, and something found of its result. -/
theorem of_run {x : Checked α} {a : α} (hx : x = .ok a) {P : α → Prop} [DecidablePred P]
    (h : (x >>= fun a => .ok (decide (P a))) = .ok true) : P a := by
  rw [hx] at h
  exact of_decide_eq_true (Except.ok.inj h)

/-- What is known to return something with `P` returns that. -/
theorem of_ok {a : α} {P : α → Prop} (h : ∃ b, x = .ok b ∧ P b)
    (hx : x = .ok a) : P a := by
  obtain ⟨b, hb, hp⟩ := h
  cases hx.symm.trans hb
  exact hp

/-- A guarded error that was not raised. -/
theorem of_ite_error {c : Prop} [Decidable c] {e : ε} {a : α}
    (h : (if c then .error e else x) = .ok a) : ¬ c ∧ x = .ok a := by
  split_ifs at h with hc
  exact ⟨hc, h⟩

/-- `if (c) f();` on a state. -/
def runIf {σ : Type} (c : Prop) [Decidable c] (f : σ → Checked σ) (s : σ) : Checked σ :=
  if c then f s else .ok s

section RunIf

variable {σ : Type} {c : Prop} [Decidable c] {f : σ → Checked σ} {s s' : σ}

theorem runIf_pos (h : c) : runIf c f s = f s := if_pos h

theorem runIf_neg (h : ¬ c) : runIf c f s = .ok s := if_neg h

theorem runIf_cases (h : runIf c f s = .ok s') : c ∧ f s = .ok s' ∨ ¬ c ∧ s' = s := by
  unfold runIf at h
  split_ifs at h with hc
  · exact .inl ⟨hc, h⟩
  · cases h
    exact .inr ⟨hc, rfl⟩

/-- A relation that `f` establishes, if it is called at all. -/
theorem runIf_rel {R : σ → σ → Prop} (hrefl : R s s) (hf : c → f s = .ok s' → R s s')
    (h : runIf c f s = .ok s') : R s s' := by
  rcases runIf_cases h with ⟨hc, h⟩ | ⟨-, rfl⟩
  · exact hf hc h
  · exact hrefl

end RunIf

/-- A `require` that holds. -/
theorem require_cases {b : Bool} {u : Unit} (h : require b = .ok u) : b = true := by
  unfold require at h
  split_ifs at h with hb
  exact hb

/-! ## Loops that end -/

/-- A sequence of two computations whose loops end. -/
theorem bind_ne_fuel {x : Checked α} {f : α → Checked β} (hx : x ≠ .error .fuel)
    (hf : ∀ a, x = .ok a → f a ≠ .error .fuel) : (x >>= f) ≠ .error .fuel := by
  cases x with
  | error e =>
    intro he
    cases he
    exact hx rfl
  | ok a => exact hf a rfl

theorem require_ne_fuel (b : Bool) : require b ≠ .error .fuel := by
  unfold require
  split_ifs <;> exact nofun

theorem add64_ne_fuel (a b : Nat) : add64 a b ≠ .error .fuel := by
  unfold add64
  split_ifs <;> exact nofun

theorem sub64_ne_fuel (a b : Nat) : sub64 a b ≠ .error .fuel := by
  unfold sub64
  split_ifs <;> exact nofun

/-! ## Bounded calls -/

/-- With a large enough bound on its calls, `f` returns `a`. -/
def Returns {α : Type} (f : Nat → Checked α) (a : α) : Prop := ∃ n, ∀ fuel, n ≤ fuel → f fuel = .ok a

namespace Returns

variable {α β γ : Type} {f : Nat → Checked α} {g : Nat → Checked β} {k : Nat → Checked γ}
  {a : α} {b : β} {c : γ}

/-- A function that makes no further calls. -/
theorem leaf (h : ∀ fuel, f (fuel + 1) = .ok a) : Returns f a := by
  refine ⟨1, fun fuel hf => ?_⟩
  obtain ⟨n, rfl⟩ := Nat.exists_eq_add_of_le' hf
  exact h n

/-- A function that makes one call, with one less on the bound. -/
theorem call (hf : Returns f a) (h : ∀ fuel, f fuel = .ok a → k (fuel + 1) = .ok c) : Returns k c := by
  obtain ⟨n, hn⟩ := hf
  refine ⟨n + 1, fun fuel hfuel => ?_⟩
  obtain ⟨i, rfl⟩ := Nat.exists_eq_add_of_le' (Nat.le_of_add_left_le hfuel)
  exact h i (hn i (Nat.le_of_add_le_add_right hfuel))

/-- A function that makes two calls. -/
theorem call2 (hf : Returns f a) (hg : Returns g b)
    (h : ∀ fuel, f fuel = .ok a → g fuel = .ok b → k (fuel + 1) = .ok c) : Returns k c := by
  obtain ⟨n, hn⟩ := hf
  obtain ⟨m, hm⟩ := hg
  refine ⟨max n m + 1, fun fuel hfuel => ?_⟩
  obtain ⟨i, rfl⟩ := Nat.exists_eq_add_of_le' (Nat.le_of_add_left_le hfuel)
  have hi := Nat.le_of_add_le_add_right hfuel
  exact h i (hn i (Nat.le_trans (Nat.le_max_left n m) hi)) (hm i (Nat.le_trans (Nat.le_max_right n m) hi))

end Returns

end SeL4.Lib
