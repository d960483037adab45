import Mathlib

/-! Machines whose steps can fail. A run takes enabled actions and goes on only while
they succeed, so an invariant of the reachable states is an invariant of every
interleaving the actions describe. -/

structure Machine (σ : Type u) (α : Type v) (ε : Type w) where
  initial : σ → Prop
  enabled : σ → α → Prop
  step : σ → α → Except ε σ

namespace Machine

variable {σ : Type u} {α : Type v} {ε : Type w} {m : Machine σ α ε}

inductive Reachable (m : Machine σ α ε) : σ → Prop where
  | initial : m.initial s → Reachable m s
  | step : Reachable m s → m.enabled s a → m.step s a = .ok t → Reachable m t

/-- What holds at the start and survives every step holds in every reachable state. -/
theorem Reachable.invariant {inv : σ → Prop} (start : ∀ s, m.initial s → inv s)
    (keep : ∀ s a t, inv s → m.enabled s a → m.step s a = .ok t → inv t)
    (reachable : m.Reachable s) : inv s := by
  induction reachable with
  | initial first => exact start _ first
  | step _ enabled stepped ih => exact keep _ _ _ ih enabled stepped

/-- The same rule with an invariant already established at hand in every step. -/
theorem Reachable.invariant_with {known inv : σ → Prop} (start : ∀ s, m.initial s → inv s)
    (base : ∀ s, m.Reachable s → known s)
    (keep : ∀ s a t, known s → inv s → m.enabled s a → m.step s a = .ok t → inv t)
    (reachable : m.Reachable s) : inv s := by
  induction reachable with
  | initial first => exact start _ first
  | step before enabled stepped ih => exact keep _ _ _ (base _ before) ih enabled stepped

/-- The states some continuation of a run leads to. -/
inductive Path (m : Machine σ α ε) (s : σ) : σ → Prop where
  | refl : Path m s s
  | step : Path m s t → m.enabled t a → m.step t a = .ok u → Path m s u

theorem Reachable.path (reachable : m.Reachable s) (path : m.Path s t) : m.Reachable t := by
  induction path with
  | refl => exact reachable
  | step _ enabled stepped ih => exact .step ih enabled stepped

theorem Path.trans (first : m.Path s t) (second : m.Path t u) : m.Path s u := by
  induction second with
  | refl => exact first
  | step _ enabled stepped ih => exact .step ih enabled stepped

/-- What holds where a continuation starts and survives its steps holds along it. -/
theorem Path.invariant {inv : σ → Prop} (start : inv s)
    (keep : ∀ t a u, inv t → m.enabled t a → m.step t a = .ok u → inv u) (path : m.Path s t) : inv t := by
  induction path with
  | refl => exact start
  | step _ enabled stepped ih => exact keep _ _ _ ih enabled stepped

/-- The runs whose every step meets a condition on the state before it. -/
def restrict (m : Machine σ α ε) (condition : σ → α → Prop) : Machine σ α ε where
  initial := m.initial
  enabled s a := m.enabled s a ∧ condition s a
  step := m.step

theorem Reachable.of_restrict {condition : σ → α → Prop}
    (reachable : (m.restrict condition).Reachable s) : m.Reachable s := by
  induction reachable with
  | initial first => exact .initial first
  | step _ enabled stepped ih => exact .step ih enabled.1 stepped

theorem Reachable.unrestricted (reachable : m.Reachable s) : (m.restrict fun _ _ => True).Reachable s := by
  induction reachable with
  | initial first => exact .initial first
  | step _ enabled stepped ih => exact .step ih ⟨enabled,trivial⟩ stepped

/-- The state after an action that succeeds. -/
def advance (m : Machine σ α ε) (s : σ) (a : α) : σ :=
  match m.step s a with
  | .ok t => t
  | .error _ => s

/-- A schedule all of whose actions are enabled and succeed. -/
def Admits (m : Machine σ α ε) : σ → List α → Prop
  | _, [] => True
  | s, a :: rest => m.enabled s a ∧ (m.step s a).toBool = true ∧ Admits m (m.advance s a) rest

instance decidableAdmits [∀ s a, Decidable (m.enabled s a)] :
    (schedule : List α) → (s : σ) → Decidable (m.Admits s schedule)
  | [], _ => inferInstanceAs (Decidable True)
  | a :: rest, s =>
    have : Decidable (m.Admits (m.advance s a) rest) := decidableAdmits rest (m.advance s a)
    inferInstanceAs (Decidable (_ ∧ _ ∧ _))

theorem step_advance (succeeds : (m.step s a).toBool = true) : m.step s a = .ok (m.advance s a) := by
  cases stepped : m.step s a with
  | error e => simp [stepped,Except.toBool] at succeeds
  | ok t => simp [Machine.advance,stepped]

/-- How an action fails, if it does. -/
def failure (m : Machine σ α ε) (s : σ) (a : α) : Option ε :=
  match m.step s a with
  | .ok _ => none
  | .error e => some e

theorem step_failure (fails : m.failure s a = some e) : m.step s a = .error e := by
  cases stepped : m.step s a with
  | error e' => simpa [failure,stepped] using fails
  | ok t => simp [failure,stepped] at fails

theorem Reachable.follow (reachable : m.Reachable s) (schedule : List α)
    (admits : m.Admits s schedule) : m.Reachable (schedule.foldl m.advance s) := by
  induction schedule generalizing s with
  | nil => exact reachable
  | cons a rest ih => exact ih (.step reachable admits.1 (step_advance admits.2.1)) admits.2.2

theorem Path.follow (path : m.Path s t) (schedule : List α) (admits : m.Admits t schedule) :
    m.Path s (schedule.foldl m.advance t) := by
  induction schedule generalizing t with
  | nil => exact path
  | cons a rest ih => exact ih (.step path admits.1 (step_advance admits.2.1)) admits.2.2

/-- Steps that each use up some of a rank are no more than it. -/
theorem Admits.length_le {rank : σ → Nat} (uses : ∀ s a t, m.enabled s a → m.step s a = .ok t → rank t < rank s)
    (schedule : List α) (admits : m.Admits s schedule) : schedule.length ≤ rank s := by
  induction schedule generalizing s with
  | nil => exact Nat.zero_le _
  | cons a rest ih =>
    have used := uses s a _ admits.1 (step_advance admits.2.1)
    have later := ih admits.2.2
    rw [List.length_cons]
    omega

instance {condition : σ → α → Prop} [Decidable (m.enabled s a)] [Decidable (condition s a)] :
    Decidable ((m.restrict condition).enabled s a) := inferInstanceAs (Decidable (_ ∧ _))

theorem restrict_advance {condition : σ → α → Prop} : (m.restrict condition).advance = m.advance := rfl

end Machine
