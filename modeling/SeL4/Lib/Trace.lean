import Mathlib.Data.List.Basic

/-!
# Runs of labelled machines

A machine is a partial function `next : σ → α → Option σ`: the label says what happens, and `none` that
it cannot happen in this state. Where several parties take turns the label names the party as well, so
that a list of labels is one interleaving and a statement about all lists is one about all interleavings.

`runFrom next s tr` is the state after the events of `tr`. An invariant of the run may speak of the
events so far (`runFrom_invariant`), so that order and number of events need no ghost state.
`EveryStep next Q s tr` says that `Q` holds of each event of the run and the state it happens in, and
`Always next P s tr` that `P` holds of each state of the run. Where an event keeps `P` exactly if `Q`
holds of it, the two say the same (`always_iff_everyStep`).
-/

namespace SeL4.Lib

variable {σ α : Type*} {next : σ → α → Option σ}

/-- The state after the events of a list, if each of them can happen in its turn. -/
def runFrom (next : σ → α → Option σ) : σ → List α → Option σ
  | s, [] => some s
  | s, a :: tr =>
    match next s a with
    | none => none
    | some s' => runFrom next s' tr

variable {tr : List α} {s : σ}

theorem runFrom_cons {s'' : σ} {a : α} (h : runFrom next s (a :: tr) = some s'') :
    ∃ s', next s a = some s' ∧ runFrom next s' tr = some s'' := by
  unfold runFrom at h
  cases hn : next s a with
  | none => rw [hn] at h; cases h
  | some s' => rw [hn] at h; exact ⟨s', rfl, h⟩

theorem runFrom_append (s : σ) (tr tr' : List α) :
    runFrom next s (tr ++ tr') = (runFrom next s tr).bind fun s' => runFrom next s' tr' := by
  induction tr generalizing s with
  | nil => rfl
  | cons a tr ih =>
    show (match next s a with
      | none => none
      | some s' => runFrom next s' (tr ++ tr')) =
      .bind (match next s a with
      | none => none
      | some s' => runFrom next s' tr) fun s' => runFrom next s' tr'
    cases next s a with
    | none => rfl
    | some s' => exact ih s'

theorem runFrom_singleton (s : σ) (a : α) : runFrom next s [a] = next s a := by
  unfold runFrom
  cases next s a <;> rfl

theorem runFrom_snoc {s' s'' : σ} {a : α} (h : runFrom next s tr = some s')
    (hn : next s' a = some s'') : runFrom next s (tr ++ [a]) = some s'' := by
  rw [runFrom_append, h]
  exact (runFrom_singleton s' a).trans hn

/-- **The invariant rule.** What holds of the start and the empty list, and is kept by one more event,
holds of every run and the state it ends in. -/
theorem runFrom_invariant {P : List α → σ → Prop} {s0 : σ} (h0 : P [] s0)
    (hstep : ∀ tr s a s', runFrom next s0 tr = some s → P tr s → next s a = some s' → P (tr ++ [a]) s')
    (h : runFrom next s0 tr = some s) : P tr s := by
  -- the events before the rest of the run are carried along
  suffices hs : ∀ (post pre : List α) (t : σ), runFrom next s0 pre = some t → P pre t →
      runFrom next t post = some s → P (pre ++ post) s from hs tr [] s0 rfl h0 h
  intro post
  induction post with
  | nil =>
    intro pre t _ hp hr
    rw [List.append_nil, ← Option.some.inj hr]
    exact hp
  | cons a post ih =>
    intro pre t ht hp hr
    obtain ⟨t', hn, hr'⟩ := runFrom_cons hr
    have := ih (pre ++ [a]) t' (runFrom_snoc ht hn) (hstep pre t a t' ht hp hn) hr'
    rwa [List.append_assoc, List.singleton_append] at this

/-- `Q` holds of every event of a run in the state in which it happens. -/
def EveryStep (next : σ → α → Option σ) (Q : σ → α → Prop) : σ → List α → Prop
  | _, [] => True
  | s, a :: tr => Q s a ∧ ∀ s', next s a = some s' → EveryStep next Q s' tr

variable {t : σ}

theorem everyStep_snoc {Q : σ → α → Prop} (h : runFrom next s tr = some t)
    (a : α) : EveryStep next Q s (tr ++ [a]) ↔ EveryStep next Q s tr ∧ Q t a := by
  induction tr generalizing s with
  | nil =>
    obtain rfl : s = t := Option.some.inj h
    exact ⟨fun hq => ⟨trivial, hq.1⟩, fun hq => ⟨hq.2, fun _ _ => trivial⟩⟩
  | cons b tr ih =>
    obtain ⟨s', hn, hr⟩ := runFrom_cons h
    constructor
    · rintro ⟨hb, hq⟩
      obtain ⟨hq', ha⟩ := (ih hr).mp (hq s' hn)
      exact ⟨⟨hb, fun t' ht' => Option.mem_unique hn ht' ▸ hq'⟩, ha⟩
    · rintro ⟨⟨hb, hq⟩, ha⟩
      exact ⟨hb, fun t' ht' => Option.mem_unique hn ht' ▸ (ih hr).mpr ⟨hq s' hn, ha⟩⟩

theorem everyStep_congr {I : σ → Prop} {Q Q' : σ → α → Prop}
    (hI : ∀ s a s', I s → next s a = some s' → I s') (hQ : ∀ s a, I s → (Q s a ↔ Q' s a)) (hi : I s) :
    EveryStep next Q s tr ↔ EveryStep next Q' s tr := by
  induction tr generalizing s with
  | nil => exact .rfl
  | cons a tr ih =>
    exact and_congr (hQ s a hi) (forall_congr' fun s' => forall_congr' fun hs => ih (hI s a s' hi hs))

instance decidableEveryStep (next : σ → α → Option σ) (Q : σ → α → Prop) [∀ s a, Decidable (Q s a)] :
    ∀ s tr, Decidable (EveryStep next Q s tr)
  | _, [] => isTrue trivial
  | s, a :: tr =>
    match h : next s a with
    | none =>
      decidable_of_iff (Q s a) ⟨fun hq => ⟨hq, fun _ hs => absurd (h.symm.trans hs) nofun⟩, And.left⟩
    | some s' =>
      have := decidableEveryStep next Q s' tr
      decidable_of_iff (Q s a ∧ EveryStep next Q s' tr)
        ⟨fun hq => ⟨hq.1, fun _ hs => Option.mem_unique h hs ▸ hq.2⟩,
          fun hq => ⟨hq.1, hq.2 s' h⟩⟩

/-- `P` holds of every state of a run. -/
def Always (next : σ → α → Option σ) (P : σ → Prop) : σ → List α → Prop
  | s, [] => P s
  | s, a :: tr => P s ∧ ∀ s', next s a = some s' → Always next P s' tr

variable {P : σ → Prop}

theorem Always.head (h : Always next P s tr) : P s := by
  cases tr with
  | nil => exact h
  | cons a tr => exact h.1

theorem Always.last (h : Always next P s tr) (hr : runFrom next s tr = some t) : P t := by
  induction tr generalizing s with
  | nil => exact Option.some.inj hr ▸ h
  | cons a tr ih =>
    obtain ⟨s', hn, hr'⟩ := runFrom_cons hr
    exact ih (h.2 s' hn) hr'

/-- Along a run that keeps `I`, if an event keeps `P` exactly when `Q` holds of it then `P` holds all
along exactly when `Q` holds of every event. -/
theorem always_iff_everyStep {I : σ → Prop} {Q : σ → α → Prop}
    (hI : ∀ s a s', I s → next s a = some s' → I s')
    (hP : ∀ s a s', I s → P s → next s a = some s' → (P s' ↔ Q s a))
    (hr : runFrom next s tr = some t) (hi : I s) (hp : P s) :
    Always next P s tr ↔ EveryStep next Q s tr := by
  induction tr generalizing s with
  | nil => exact iff_of_true hp trivial
  | cons a tr ih =>
    obtain ⟨s', hn, hr'⟩ := runFrom_cons hr
    have hi' := hI s a s' hi hn
    have huniq : ∀ {s''}, next s a = some s'' → s' = s'' := fun h => Option.mem_unique hn h
    constructor
    · intro h
      have hp' := (h.2 s' hn).head
      refine ⟨(hP s a s' hi hp hn).mp hp', fun s'' hs'' => ?_⟩
      rw [← huniq hs'']
      exact (ih hr' hi' hp').mp (h.2 s' hn)
    · intro h
      have hp' := (hP s a s' hi hp hn).mpr h.1
      refine ⟨hp, fun s'' hs'' => ?_⟩
      rw [← huniq hs'']
      exact (ih hr' hi' hp').mpr (h.2 s' hn)

end SeL4.Lib
