import Evk.Machine

/-! Computations that can fail, and views of a machine by a smaller one. Two computations
agree when they fail alike or succeed with related results; a view that every step
either keeps or follows with a step of its own shows reachable states only. -/

/-- Whatever a computation returns satisfies the postcondition. -/
def Ensures (post : σ → Prop) (r : Except ε σ) : Prop := ∀ s, r = .ok s → post s

namespace Ensures

theorem ok {post : σ → Prop} (holds : post s) : Ensures post (.ok s : Except ε σ) := by
  rintro _ ⟨⟩
  exact holds

theorem error {post : σ → Prop} (e : ε) : Ensures post (.error e : Except ε σ) := nofun

theorem any (r : Except ε σ) : Ensures (fun _ => True) r := fun _ _ => trivial

theorem bind {middle : σ → Prop} {post : τ → Prop} {r : Except ε σ} {f : σ → Except ε τ}
    (first : Ensures middle r) (next : ∀ s, middle s → Ensures post (f s)) : Ensures post (r >>= f) := by
  cases r with
  | error e => exact error e
  | ok s => exact next s (first s rfl)

end Ensures

/-- A computation that does not fail in one way. -/
def Never (e : ε) (r : Except ε σ) : Prop := r ≠ .error e

namespace Never

theorem ok {e : ε} : Never e (.ok s : Except ε σ) := nofun

theorem other {e e' : ε} (different : e' ≠ e) : Never e (.error e' : Except ε σ) :=
  fun same => different (Except.error.inj same)

theorem bind {e : ε} {r : Except ε σ} {f : σ → Except ε τ} (first : Never e r)
    (next : ∀ s, r = .ok s → Never e (f s)) : Never e (r >>= f) := by
  cases r with
  | error e' => exact other fun same => first (congrArg _ same)
  | ok s => exact next s rfl

end Never

/-- The same failure, or related results. -/
inductive Agree (rel : σ → τ → Prop) : Except ε σ → Except ε τ → Prop where
  | ok : rel s t → Agree rel (.ok s) (.ok t)
  | error (e : ε) : Agree rel (.error e) (.error e)

namespace Agree

variable {rel : σ → τ → Prop}

theorem bind {rel' : σ' → τ' → Prop} {r : Except ε σ} {q : Except ε τ} {f : σ → Except ε σ'}
    {g : τ → Except ε τ'} (agree : Agree rel r q) (next : ∀ s t, rel s t → Agree rel' (f s) (g t)) :
    Agree rel' (r >>= f) (q >>= g) := by
  cases agree with
  | ok related => exact next _ _ related
  | error e => exact .error e

theorem and_right {post : τ → Prop} {r : Except ε σ} {q : Except ε τ} (agree : Agree rel r q)
    (ensures : Ensures post q) : Agree (fun s t => rel s t ∧ post t) r q := by
  cases agree with
  | ok related => exact .ok ⟨related,ensures _ rfl⟩
  | error e => exact .error e

theorem ok_left {q : Except ε τ} (agree : Agree rel (.ok s) q) : ∃ t, q = .ok t ∧ rel s t := by
  cases agree with
  | ok related => exact ⟨_,rfl,related⟩

theorem ok_right {r : Except ε σ} (agree : Agree rel r (.ok t)) : ∃ s, r = .ok s ∧ rel s t := by
  cases agree with
  | ok related => exact ⟨_,rfl,related⟩

theorem never {e : ε} {r : Except ε σ} {q : Except ε τ} (agree : Agree rel r q) (right : Never e q) : Never e r := by
  cases agree with
  | ok => exact .ok
  | error => exact .other fun same => right (congrArg _ same)

end Agree

namespace Machine

/-- A view in which something may come into being, and then changes by steps of its
own machine or not at all, shows reachable states of that machine. -/
theorem Reachable.view {m : Machine σ α ε} {n : Machine τ β δ} {view : σ → Option τ}
    (start : ∀ s, m.initial s → view s = none)
    (keep : ∀ s a s' t', m.Reachable s → m.enabled s a → m.step s a = .ok s' → view s' = some t' →
      (view s = none ∧ n.Reachable t') ∨
      ∃ t, view s = some t ∧ (t' = t ∨ ∃ b, n.enabled t b ∧ n.step t b = .ok t'))
    (reachable : m.Reachable s) (seen : view s = some t) : n.Reachable t := by
  induction reachable generalizing t with
  | initial first => simp [start _ first] at seen
  | step before enabled stepped ih =>
    rcases keep _ _ _ _ before enabled stepped seen with ⟨_,created⟩ | ⟨_,old,rfl | ⟨_,allowed,moved⟩⟩
    · exact created
    · exact ih old
    · exact .step (ih old) allowed moved

end Machine
