import Evk.Machine
import Evk.TimerQueue

/-! The timer queue of one event loop as a machine. Threads create timers and queue
their insertion and cancellation; the loop thread runs queued functors, lets user code
add and cancel directly, and handles the timer descriptor in three kinds of steps, so
that a callback may do anything between two of them. -/
namespace Evk

inductive TimerFunctor where
  | addTimerInLoop (timer : Address)
  | cancelInLoop (id : InvokeTimerID)
  deriving DecidableEq

/-- One call of `OnTimerTriggered`: the timer as it was, and the reading of its batch. -/
structure Firing where
  created : Nat
  expiration : Int
  interval : Int
  repeats : Bool
  now : Int
  deriving DecidableEq, Repr

def InvokeTimer.firing (now : Int) (t : InvokeTimer) : Firing :=
  ⟨t.created,t.expiration,t.interval,t.repeats,now⟩

@[simp] theorem InvokeTimer.firing_created (now : Int) (t : InvokeTimer) : (t.firing now).created = t.created := rfl

/-- Where the loop thread is in `HandleRead`: outside, or between the callbacks already
made and those still to make. -/
inductive Phase where
  | idle
  | calling (now : Int) (called waiting : List Entry)
  deriving DecidableEq

namespace Phase

def batch : Phase → List Entry
  | .idle => []
  | .calling _ called waiting => called ++ waiting

def called : Phase → List Entry
  | .idle => []
  | .calling _ called _ => called

def waiting : Phase → List Entry
  | .idle => []
  | .calling _ _ waiting => waiting

def isIdle : Phase → Bool
  | .idle => true
  | .calling _ _ _ => false

/-- Code other than the library's own runs on the loop thread: outside `HandleRead`, or
in a callback. -/
def userCode : Phase → Bool
  | .idle => true
  | .calling _ called _ => !called.isEmpty

theorem eq_idle {phase : Phase} (idle : phase.isIdle = true) : phase = .idle := by
  cases phase with
  | idle => rfl
  | calling => simp [isIdle] at idle

end Phase

structure TimerLoop where
  queue : TimerQueue
  numCreated : Nat
  phase : Phase
  /-- The batch of functors being run, and `pending_functors_`. -/
  functors : List TimerFunctor
  pendingFunctors : List TimerFunctor
  /-- History: the id each creation gave out, the timers whose insertion has run, the
  callbacks made, and the cancellations run since the last batch began. -/
  issued : List (Nat × InvokeTimerID)
  inserted : List Nat
  fired : List Firing
  cancelled : List InvokeTimerID

namespace TimerLoop

def construct : TimerLoop := ⟨.construct,0,.idle,[],[],[],[],[],[]⟩

/-- The `new` of `AddTimer`. -/
def newTimer (a : Address) (when : Int) (interval : Interval) (s : TimerLoop) : TimerLoop :=
  let t := InvokeTimer.construct s.numCreated when interval
  { s with
    queue := { s.queue with heap := Function.update s.queue.heap a (some t) }
    numCreated := s.numCreated + 1
    issued := s.issued ++ [(s.numCreated,TimerQueue.activeTimer a t)] }

def addTimerInLoop (clock : Int) (a : Address) (s : TimerLoop) : Except Fault TimerLoop := do
  let t ← s.queue.deref a
  let queue ← s.queue.addTimerInLoop clock a
  return { s with queue, inserted := s.inserted ++ [t.created] }

def cancelInLoop (id : InvokeTimerID) (s : TimerLoop) : Except Fault TimerLoop := do
  let queue ← s.queue.cancelInLoop id
  return { s with queue, cancelled := s.cancelled ++ [id] }

inductive Action where
  /-- `AddTimer` and `Cancel` called on the loop thread: `RunInLoop` runs them at once. -/
  | addTimer (a : Address) (when : Int) (interval : Interval) (clock : Int)
  | cancel (id : InvokeTimerID)
  /-- The same calls on another thread: `RunInLoop` queues them. -/
  | queueAddTimer (a : Address) (when : Int) (interval : Interval)
  | queueCancel (id : InvokeTimerID)
  /-- Another loop's timer draws a sequence number. -/
  | createElsewhere
  | doPendingFunctors
  | runFunctor (clock : Int)
  | handleRead (now : Int)
  | onTimerTriggered
  | endHandleRead (clock : Int)

def Action.isEnd : Action → Bool
  | .endHandleRead _ => true
  | _ => false

/-- The allocator hands out addresses that are not in use. -/
def Fresh (a : Address) (s : TimerLoop) : Prop := s.queue.heap a = none ∧ a < uintptrMax

def enabled (s : TimerLoop) : Action → Prop
  | .addTimer a _ _ _ => s.Fresh a ∧ s.phase.userCode = true
  | .cancel _ => s.phase.userCode = true
  | .queueAddTimer a _ _ => s.Fresh a
  | .queueCancel _ => True
  | .createElsewhere => True
  | .doPendingFunctors => s.phase.isIdle = true ∧ s.functors = []
  | .runFunctor _ => s.phase.isIdle = true ∧ s.functors ≠ []
  | .handleRead _ => s.phase.isIdle = true ∧ s.functors = []
  | .onTimerTriggered => s.phase.waiting ≠ []
  | .endHandleRead _ => s.phase.isIdle = false ∧ s.phase.waiting = []

instance (s : TimerLoop) (a : Address) : Decidable (s.Fresh a) := inferInstanceAs (Decidable (_ ∧ _))

instance (s : TimerLoop) : (act : Action) → Decidable (s.enabled act)
  | .addTimer _ _ _ _ => inferInstanceAs (Decidable (_ ∧ _))
  | .cancel _ => inferInstanceAs (Decidable (_ = _))
  | .queueAddTimer a _ _ => inferInstanceAs (Decidable (s.Fresh a))
  | .queueCancel _ => inferInstanceAs (Decidable True)
  | .createElsewhere => inferInstanceAs (Decidable True)
  | .doPendingFunctors => inferInstanceAs (Decidable (_ ∧ _))
  | .runFunctor _ => inferInstanceAs (Decidable (_ ∧ _))
  | .handleRead _ => inferInstanceAs (Decidable (_ ∧ _))
  | .onTimerTriggered => inferInstanceAs (Decidable (_ ≠ _))
  | .endHandleRead _ => inferInstanceAs (Decidable (_ ∧ _))

def runFunctor (clock : Int) (s : TimerLoop) : Except Fault TimerLoop :=
  match s.functors with
  | [] => .ok s
  | .addTimerInLoop a :: functors => { s with functors }.addTimerInLoop clock a
  | .cancelInLoop id :: functors => { s with functors }.cancelInLoop id

def handleRead (now : Int) (s : TimerLoop) : Except Fault TimerLoop := do
  let (queue,expired) ← s.queue.beginHandleRead now
  return { s with queue, phase := .calling now [] expired, cancelled := [] }

def onTimerTriggered (s : TimerLoop) : Except Fault TimerLoop :=
  match s.phase with
  | .calling now called (it :: waiting) => do
    let t ← s.queue.deref (ofLex it).2
    return { s with phase := .calling now (called ++ [it]) waiting, fired := s.fired ++ [t.firing now] }
  | _ => .ok s

def endHandleRead (clock : Int) (s : TimerLoop) : Except Fault TimerLoop :=
  match s.phase with
  | .calling now called _ => do
    let queue ← s.queue.endHandleRead called now clock
    return { s with queue, phase := .idle }
  | .idle => .ok s

def step (s : TimerLoop) : Action → Except Fault TimerLoop
  | .addTimer a when interval clock => (s.newTimer a when interval).addTimerInLoop clock a
  | .cancel id => s.cancelInLoop id
  | .queueAddTimer a when interval =>
    let s := s.newTimer a when interval
    .ok { s with pendingFunctors := s.pendingFunctors ++ [.addTimerInLoop a] }
  | .queueCancel id => .ok { s with pendingFunctors := s.pendingFunctors ++ [.cancelInLoop id] }
  | .createElsewhere => .ok { s with numCreated := s.numCreated + 1 }
  | .doPendingFunctors => .ok { s with functors := s.pendingFunctors, pendingFunctors := [] }
  | .runFunctor clock => s.runFunctor clock
  | .handleRead now => s.handleRead now
  | .onTimerTriggered => s.onTimerTriggered
  | .endHandleRead clock => s.endHandleRead clock

def machine : Machine TimerLoop Action Fault where
  initial s := s = construct
  enabled := enabled
  step := step

instance (s : TimerLoop) (act : Action) : Decidable (machine.enabled s act) :=
  inferInstanceAs (Decidable (s.enabled act))

/-- The timers whose insertion is still queued, in order. -/
def queuedAdds (s : TimerLoop) : List Address :=
  (s.functors ++ s.pendingFunctors).filterMap fun
    | .addTimerInLoop a => some a
    | .cancelInLoop _ => none

end TimerLoop
end Evk
