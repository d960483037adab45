import Evk.EventLoop

/-! One loop per thread. Every thread has its own `loop_in_this_thread_`, which the
constructor and the destructor of `EventLoop` write in whichever thread runs them. The
constructor is fatal where a loop exists already, and since the destructor does not get
past the wakeup channel, the first loop of a thread is the only one it ever has. -/
namespace Evk

structure LoopThreads (F : Type) where
  /-- `loop_in_this_thread_` of each thread. -/
  loopInThisThread : ThreadId → Option Nat
  /-- The loops that exist, by address. -/
  loops : Nat → Option (EventLoop F)

namespace LoopThreads

variable {F : Type}

def start : LoopThreads F := ⟨fun _ => none,fun _ => none⟩

def setLoop (l : Nat) (loop : Option (EventLoop F)) (s : LoopThreads F) : LoopThreads F :=
  { s with loops := Function.update s.loops l loop }

def setThread (t : ThreadId) (l : Option Nat) (s : LoopThreads F) : LoopThreads F :=
  { s with loopInThisThread := Function.update s.loopInThisThread t l }

def deref (l : Nat) (s : LoopThreads F) : Except Fault (EventLoop F) :=
  match s.loops l with
  | some loop => .ok loop
  | none => .error .useAfterFree

/-- `EventLoop::EventLoop` on thread `t`, at address `l`. -/
def construct (t : ThreadId) (l : Nat) (s : LoopThreads F) : Except Fault (LoopThreads F) := do
  check (s.loopInThisThread t = none) .fatal
  return (s.setThread t (some l)).setLoop l (some (.construct t))

def destroy (t : ThreadId) (l : Nat) (s : LoopThreads F) : Except Fault (LoopThreads F) := do
  let loop ← s.deref l
  loop.destroy t
  return (s.setThread t none).setLoop l none

def run (t : ThreadId) (l : Nat) (s : LoopThreads F) : Except Fault (LoopThreads F) := do
  let loop ← s.deref l
  let running ← loop.step .run
  check (t = loop.tid) .fatal
  return s.setLoop l (some running)

def getEventLoopOfCurrentThread (t : ThreadId) (s : LoopThreads F) : Option Nat := s.loopInThisThread t

inductive Action (F : Type) where
  | construct (t : ThreadId) (l : Nat)
  | destroy (t : ThreadId) (l : Nat)
  | run (t : ThreadId) (l : Nat)
  /-- Any other step of a loop. -/
  | use (l : Nat) (a : EventLoop.Action F)

def step (s : LoopThreads F) : Action F → Except Fault (LoopThreads F)
  | .construct t l => s.construct t l
  | .destroy t l => s.destroy t l
  | .run t l => s.run t l
  | .use l a => do
    let loop ← s.deref l
    return s.setLoop l (some (← loop.step a))

def InUserCode (t : ThreadId) (loop : EventLoop F) : Prop := t = loop.tid → loop.position.isUserCode = true

instance (t : ThreadId) (loop : EventLoop F) : Decidable (InUserCode t loop) := inferInstanceAs (Decidable (_ → _))

/-- A loop is made where none is, and used and destroyed from user code while it exists.
The loop's own thread calls `Run` when it is not in it. -/
def enabled (s : LoopThreads F) : Action F → Prop
  | .construct _ l => s.loops l = none
  | .destroy t l => ∃ loop ∈ s.loops l, InUserCode t loop
  | .run t l => ∃ loop ∈ s.loops l, loop.enabled .run ∨ t ≠ loop.tid
  | .use l a => a ≠ .run ∧ ∃ loop ∈ s.loops l, loop.enabled a

instance [DecidableEq F] (s : LoopThreads F) : (a : Action F) → Decidable (s.enabled a)
  | .construct _ _ => inferInstanceAs (Decidable (_ = none))
  | .destroy _ _ => inferInstanceAs (Decidable (∃ _ ∈ _, _))
  | .run _ _ => inferInstanceAs (Decidable (∃ _ ∈ _, _ ∨ _))
  | .use _ _ => inferInstanceAs (Decidable (_ ∧ ∃ _ ∈ _, _))

def machine : Machine (LoopThreads F) (Action F) Fault where
  initial s := s = start
  enabled := enabled
  step := step

instance [DecidableEq F] (s : LoopThreads F) (a : Action F) : Decidable (machine.enabled s a) :=
  inferInstanceAs (Decidable (s.enabled a))

end LoopThreads

namespace EventLoop

variable {F : Type} {s u : EventLoop F}

theorem Change.same_tid (change : Change s a u) : u.tid = s.tid := by
  cases change <;> rfl

/-- A loop whose status says it has stopped is not in `Run`, but for its first store. -/
def Parked (s : EventLoop F) : Prop := s.status = .kStopped → s.position = .outside ∨ s.position = .storeStarting

theorem Parked.change (parked : s.Parked) (change : Change s a u) : u.Parked := by
  have inside {p : Position} (here : s.position = p) (other : p ≠ .outside ∧ p ≠ .storeStarting) :
      s.status ≠ .kStopped := by
    intro stopped
    rcases parked stopped with out | first
    · exact other.1 (here.symm.trans out)
    · exact other.2 (here.symm.trans first)
  cases change with
  | run => exact fun _ => .inr rfl
  | storeStopped => exact fun _ => .inl rfl
  | storeStarting | storeRunning | stop => exact fun stopped => by cases stopped
  | queueInLoop | runInLoop | runHere | waking | quiet | woken | stopped | returned => exact parked
  | pass here | exit here | poll here | handleRead here | handle here | dispatched here | setCalling here | swap here
  | call here | called here | clearCalling here => exact fun stopped => absurd stopped (inside here (by simp))
  | handled _ _ here | ran _ _ here => exact fun stopped => absurd stopped (inside here (by simp))

theorem reachable_parked (reachable : machine.Reachable s) : s.Parked := by
  induction reachable with
  | initial first =>
    obtain ⟨tid,rfl⟩ := first
    exact fun stopped => by cases stopped
  | step _ allowed stepped parked => exact parked.change (step_change allowed _ stepped)

end EventLoop

namespace LoopThreads

variable {F : Type} {s u : LoopThreads F}

theorem deref_ok (found : s.deref l = .ok loop) : s.loops l = some loop := by
  rw [deref] at found
  split at found
  · rename_i there
    cases found
    exact there
  · cases found

theorem deref_of (there : s.loops l = some loop) : s.deref l = .ok loop := by rw [deref,there]

/-- The pointer of a thread is the loop that was made there and still exists, and the loops
are as their own steps made them. -/
structure Bound (s : LoopThreads F) : Prop where
  exact : ∀ t l, s.loopInThisThread t = some l ↔ ∃ loop, s.loops l = some loop ∧ loop.tid = t
  reachable : ∀ l loop, s.loops l = some loop → EventLoop.machine.Reachable loop

theorem Bound.unique (bound : s.Bound) (first : s.loops l = some loop) (second : s.loops m = some loop')
    (same : loop.tid = loop'.tid) : l = m := by
  have here := (bound.exact loop.tid l).mpr ⟨loop,first,rfl⟩
  have there := (bound.exact loop.tid m).mpr ⟨loop',second,same.symm⟩
  exact Option.some.inj (here.symm.trans there)

theorem Bound.construct (bound : s.Bound) (absent : s.loops l = none) (free : s.loopInThisThread t = none) :
    ((s.setThread t (some l)).setLoop l (some (.construct t))).Bound := by
  constructor
  · intro t' l'
    have before := bound.exact t' l'
    by_cases here : l' = l
    · subst here
      by_cases own : t' = t
      · simp [setLoop,setThread,own,EventLoop.construct]
      · have unmapped : s.loopInThisThread t' ≠ some l' := fun pointed => by
          obtain ⟨loop,there,-⟩ := before.mp pointed
          simp [absent] at there
        simp [setLoop,setThread,own,EventLoop.construct,unmapped,Ne.symm own]
    · by_cases own : t' = t
      · subst own
        rw [free] at before
        have elsewhere : l ≠ l' := Ne.symm here
        simpa [setLoop,setThread,here,elsewhere] using before
      · simpa [setLoop,setThread,here,own] using before
  · intro l' loop there
    by_cases here : l' = l
    · obtain rfl : EventLoop.construct t = loop := by simpa [setLoop,setThread,here] using there
      exact .initial ⟨t,rfl⟩
    · exact bound.reachable l' loop (by simpa [setLoop,setThread,here] using there)

theorem destroy_fails (s : LoopThreads F) (t : ThreadId) (l : Nat) : ∃ e, s.destroy t l = .error e := by
  cases there : s.loops l with
  | none => exact ⟨.useAfterFree,by simp only [destroy,deref,there,error_bind]⟩
  | some loop =>
    obtain ⟨e,fails⟩ := loop.destroy_fails t
    exact ⟨e,by simp only [destroy,deref_of there,ok_bind,fails,error_bind]⟩

theorem Bound.use (bound : s.Bound) (there : s.loops l = some loop) (enabled : loop.enabled a)
    (done : loop.step a = .ok after) :
    (s.setLoop l (some after)).Bound := by
  have change := EventLoop.step_change enabled after done
  constructor
  · intro t l'
    by_cases here : l' = l
    · subst here
      simp [setLoop,bound.exact,there,change.same_tid]
    · simp [setLoop,bound.exact,here]
  · intro l' loop' there'
    by_cases here : l' = l
    · obtain rfl : after = loop' := by simpa [setLoop,here] using there'
      exact .step (bound.reachable l loop there) enabled done
    · exact bound.reachable l' loop' (by simpa [setLoop,here] using there')

/-- What a step can do: a loop is made in a thread without one, or one loop takes a step. -/
inductive Change (s : LoopThreads F) : LoopThreads F → Prop where
  | construct : s.loops l = none → s.loopInThisThread t = none →
    Change s ((s.setThread t (some l)).setLoop l (some (.construct t)))
  | use : s.loops l = some loop → loop.enabled a → loop.step a = .ok after → Change s (s.setLoop l (some after))

theorem step_change (allowed : s.enabled a) : Ensures (Change s) (s.step a) := by
  intro u done
  cases a with
  | construct t l =>
    obtain ⟨_,free,⟨⟩⟩ := bind_ok_iff.mp done
    exact .construct allowed (check_ok_iff.mp free)
  | destroy t l =>
    obtain ⟨e,fails⟩ := s.destroy_fails t l
    exact absurd (done.symm.trans fails) (by simp)
  | run t l =>
    obtain ⟨loop,found,rest⟩ := bind_ok_iff.mp done
    obtain ⟨running,stepped,rest⟩ := bind_ok_iff.mp rest
    obtain ⟨_,own,⟨⟩⟩ := bind_ok_iff.mp rest
    obtain ⟨loop',there,outside⟩ := allowed
    cases (deref_ok found).symm.trans there
    exact .use there (outside.resolve_right (not_not.mpr (check_ok_iff.mp own))) stepped
  | use l a =>
    obtain ⟨loop,found,rest⟩ := bind_ok_iff.mp done
    obtain ⟨after,stepped,⟨⟩⟩ := bind_ok_iff.mp rest
    obtain ⟨-,loop',there,enabled⟩ := allowed
    cases (deref_ok found).symm.trans there
    exact .use there enabled stepped

theorem Bound.change (bound : s.Bound) (change : Change s u) : u.Bound := by
  cases change with
  | construct absent free => exact bound.construct absent free
  | use there enabled stepped => exact bound.use there enabled stepped

theorem Change.keeps (change : Change s u) (had : s.loopInThisThread t = some l) : u.loopInThisThread t = some l := by
  cases change with
  | use => exact had
  | @construct m t' absent free =>
    have other : t ≠ t' := by
      rintro rfl
      simp [free] at had
    simpa [setLoop,setThread,other] using had

theorem path_keeps (path : machine.Path s u) (had : s.loopInThisThread t = some l) : u.loopInThisThread t = some l := by
  induction path with
  | refl => exact had
  | step _ enabled stepped ih => exact (step_change enabled _ stepped).keeps ih

theorem reachable_bound (reachable : machine.Reachable s) : s.Bound := by
  induction reachable with
  | initial first =>
    subst first
    exact ⟨by simp [start],by simp [start]⟩
  | step _ allowed stepped bound => exact bound.change (step_change allowed _ stepped)

/-- However threads make, run, use and destroy loops: what `GetEventLoopOfCurrentThread`
gives is the one loop of the thread, and making a loop fails just where there is one. No
destructor returns: on the loop's own thread, after `Run` has come to its end, it fails in
`~Channel` of the wakeup channel, and before that or elsewhere it fails earlier. So a
thread that has a loop has the same one ever after. -/
theorem one_loop_per_thread (reachable : machine.Reachable s) :
    (∀ t l, s.getEventLoopOfCurrentThread t = some l ↔ ∃ loop, s.loops l = some loop ∧ loop.tid = t) ∧
    (∀ l m loop loop', s.loops l = some loop → s.loops m = some loop' → loop.tid = loop'.tid → l = m) ∧
    (∀ t l, (∃ u, s.construct t l = .ok u) ↔ ¬∃ m loop, s.loops m = some loop ∧ loop.tid = t) ∧
    (∀ t l loop, s.loops l = some loop → InUserCode t loop → ∃ e, s.destroy t l = .error e ∧
      (e = .assertion .channelDestructor ↔ t = loop.tid ∧ loop.status = .kStopped) ∧
      (e = .assertion .channelDestructor → loop.position = .outside)) ∧
    ∀ u t l, machine.Path s u → s.getEventLoopOfCurrentThread t = some l →
      u.getEventLoopOfCurrentThread t = some l := by
  have bound := reachable_bound reachable
  refine ⟨bound.exact,fun l m loop loop' first second => bound.unique first second,fun t l => ?_,
    fun t l loop there user => ?_,fun u t l path had => path_keeps path had⟩
  · constructor
    · rintro ⟨u,done⟩ ⟨m,loop,there,own⟩
      obtain ⟨_,free,-⟩ := bind_ok_iff.mp done
      have pointed := (bound.exact t m).mpr ⟨loop,there,own⟩
      rw [check_ok_iff.mp free] at pointed
      cases pointed
    · intro alone
      have free : s.loopInThisThread t = none := by
        by_contra some
        obtain ⟨m,pointed⟩ := Option.ne_none_iff_exists'.mp some
        exact alone ⟨m,(bound.exact t m).mp pointed⟩
      exact ⟨_,by simp [LoopThreads.construct,check_of free]; rfl⟩
  · simp only [destroy,deref_of there,ok_bind,EventLoop.destroy_eq]
    by_cases stopped : loop.status = .kStopped
    · by_cases own : t = loop.tid
      · refine ⟨.assertion .channelDestructor,by simp [assert_of stopped,check_of own],
          by simp [own,stopped],fun _ => ?_⟩
        refine (EventLoop.reachable_parked (bound.reachable l loop there) stopped).resolve_right fun first => ?_
        have code := user own
        simp [first,Position.isUserCode] at code
      · exact ⟨.fatal,by simp [assert_of stopped,check,own],by simp [own],by simp⟩
    · exact ⟨.assertion .eventLoopDestructor,by simp [assert,check,stopped],by simp [stopped],by simp⟩

/-- Two threads with a loop each. The first loop is stopped from the second thread; its own
thread can neither take it down nor make another. -/
theorem one_loop_per_thread_again : ∃ s : LoopThreads Unit, machine.Reachable s ∧
    s.getEventLoopOfCurrentThread 1 = some 10 ∧
    s.getEventLoopOfCurrentThread 2 = some 20 ∧ s.destroy 1 10 = .error (.assertion .channelDestructor) ∧
    ¬∃ u, s.construct 1 30 = .ok u := by
  let schedule : List (Action Unit) :=
    [.construct 1 10,.construct 2 20,.run 1 10,.use 10 (.advance []),.use 10 (.advance []),
    .use 10 (.stop 2),.use 10 (.proceed 2),.use 10 (.advance []),.use 10 (.advance [])]
  have reachable := Machine.Reachable.follow (m := machine) (.initial rfl) schedule (by decide +kernel)
  have there : ((schedule.foldl machine.advance start).loops 10).map (fun loop =>
    (loop.tid,loop.status,loop.position)) =
      some (1,.kStopped,.outside) := by decide +kernel
  obtain ⟨loop,held,known⟩ := Option.map_eq_some_iff.mp there
  obtain ⟨tid,status,position⟩ : loop.tid = 1 ∧ loop.status = .kStopped ∧
    loop.position = .outside := by simpa using known
  obtain ⟨-,-,makes,ends,-⟩ := one_loop_per_thread reachable
  obtain ⟨e,fails,aborts,-⟩ := ends 1 10 loop held fun _ => by simp [position,Position.isUserCode]
  obtain rfl := aborts.mpr ⟨tid.symm,status⟩
  exact ⟨_,reachable,by decide +kernel,by decide +kernel,fails,fun made => (makes 1 30).mp made ⟨10,loop,held,tid⟩⟩

end LoopThreads
end Evk
