import Evk.EventLoop

/-! An `EventLoopThread`: the call of `StartLoop`, the thread that makes, runs and resets
the loop, and the calls of `EventLoopThread::Stop`, one load or store at a time. The
loop's own steps are those of the loop inside. -/
namespace Evk

def ServerStatus.code : ServerStatus → Nat
  | .kNull => 0
  | .kInitializing => 1
  | .kInitialized => 2
  | .kStarting => 3
  | .kRunning => 4
  | .kStopping => 5
  | .kStopped => 6

/-- What the call of `StartLoop` does next, or whether it returned a loop. -/
inductive StartPosition where
  | storeStarting
  | spawn
  | wait
  | returned (loop : Bool)
  deriving DecidableEq, Repr

inductive ThreadPosition where
  | unborn
  | construct
  /-- In `init_cb_`. -/
  | initCb
  | notify
  | callRun
  /-- In `EventLoop::Run`. -/
  | looping
  | assertStopped
  | storeStopped
  | reset
  /-- `event_loop_` is null, in `~EventLoop`. -/
  | destroyLoop
  | finished
  deriving DecidableEq, Repr

inductive StopPosition where
  | storeStopping
  | callStop
  /-- In `EventLoop::Stop`. -/
  | stopping
  | wait
  | join
  deriving DecidableEq, Repr

structure EventLoopThread (F : Type) where
  tid : ThreadId
  status : ServerStatus
  loop : EventLoop F
  /-- `event_loop_` is set; it is the only owner, so the loop lives as long. -/
  held : Bool
  /-- `thread_` is set. -/
  thread : Bool
  starter : StartPosition
  body : ThreadPosition
  stoppers : ThreadId → Option StopPosition
  /-- History: the threads that got past the assertion of `EventLoopThread::Stop`. -/
  entered : List ThreadId

namespace EventLoopThread

variable {F : Type}

/-- `tid` is the number the thread is going to have. -/
def construct (tid : ThreadId) : EventLoopThread F where
  tid := tid
  status := .kNull
  loop := .construct tid
  held := false
  thread := false
  starter := .storeStarting
  body := .unborn
  stoppers _ := none
  entered := []

def startLoop (s : EventLoopThread F) : Except Fault (EventLoopThread F) :=
  match s.starter with
  | .storeStarting => .ok { s with status := .kStarting, starter := .spawn }
  | .spawn => do
    assert (s.thread = false) .startLoop
    return { s with thread := true, body := .construct, starter := .wait }
  | .wait => .ok { s with starter := .returned s.held }
  | .returned _ => .ok s

def run (s : EventLoopThread F) : Except Fault (EventLoopThread F) :=
  match s.body with
  | .construct => .ok { s with loop := .construct s.tid, held := true, body := .initCb }
  | .initCb => .ok { s with body := .notify }
  | .notify => .ok { s with status := .kRunning, body := .callRun }
  | .callRun => do
    let loop ← s.loop.step .run
    return { s with loop, body := .looping }
  | .looping => .ok { s with body := .assertStopped }
  | .assertStopped => do
    assert (s.loop.status = .kStopped) .eventLoopThreadRun
    return { s with body := .storeStopped }
  | .storeStopped => .ok { s with status := .kStopped, body := .reset }
  -- the pointer is null before the last owner goes
  | .reset => .ok { s with held := false, body := .destroyLoop }
  | .destroyLoop => do
    s.loop.destroy s.tid
    return { s with body := .finished }
  | .unborn | .finished => .ok s

def setStopper (t : ThreadId) (position : Option StopPosition) (s : EventLoopThread F) : EventLoopThread F :=
  { s with stoppers := Function.update s.stoppers t position }

def eventLoop (s : EventLoopThread F) : Except Fault (EventLoop F) := do
  check (s.held = true) .nullPointer
  return s.loop

def isRunning (s : EventLoopThread F) : Except Fault Bool := do
  let loop ← s.eventLoop
  return loop.status = .kRunning

def stop (t : ThreadId) (s : EventLoopThread F) : Except Fault (EventLoopThread F) := do
  assert (s.status = .kRunning) .eventLoopThreadStop
  assert ((← s.isRunning) = true) .eventLoopThreadStop
  return { s.setStopper t (some .storeStopping) with entered := s.entered ++ [t] }

def proceedStop (t : ThreadId) (s : EventLoopThread F) : Except Fault (EventLoopThread F) :=
  match s.stoppers t with
  | none => .ok s
  | some .storeStopping => .ok { s.setStopper t (some .callStop) with status := .kStopping }
  | some .callStop => do
    let loop ← s.eventLoop
    return { s.setStopper t (some .stopping) with loop := loop.stop t }
  | some .stopping => .ok (s.setStopper t (some .wait))
  | some .wait => .ok (s.setStopper t (some .join))
  | some .join => .ok { s.setStopper t none with thread := false }

/-- `~EventLoopThread`, up to its `Join`. -/
def destroy (s : EventLoopThread F) : Except Fault Unit := assert (s.status = .kStopped) .eventLoopThreadDestructor

def stepLoop (a : EventLoop.Action F) (s : EventLoopThread F) : Except Fault (EventLoopThread F) := do
  check (s.held = true) .useAfterFree
  let loop ← s.loop.step a
  return { s with loop }

inductive Action (F : Type) where
  | startLoop
  | run
  | loop (a : EventLoop.Action F)
  | stop (t : ThreadId)
  | proceedStop (t : ThreadId)
  deriving DecidableEq

def step (s : EventLoopThread F) : Action F → Except Fault (EventLoopThread F)
  | .startLoop => s.startLoop
  | .run => s.run
  | .loop a => s.stepLoop a
  | .stop t => s.stop t
  | .proceedStop t => s.proceedStop t

/-- Other threads have the pointer that `StartLoop` returned; the loop thread calls in
`init_cb_` and in what `Run` calls. -/
def MayCall (t : ThreadId) (s : EventLoopThread F) : Prop :=
  s.stoppers t = none ∧ (t ≠ s.tid → s.starter = .returned true) ∧
  (t = s.tid → s.body = .initCb ∨ s.body = .looping ∧ s.loop.position.isCallback = true)

def MayUse (s : EventLoopThread F) : EventLoop.Action F → Prop
  | .run => False
  | .advance _ => s.body = .looping ∧ s.stoppers s.tid = none
  | .leave => (s.body = .initCb ∨ s.body = .looping) ∧ s.stoppers s.tid = none
  | .queueInLoop t _ | .runInLoop t _ | .stop t => s.MayCall t
  | .proceed _ => True

/-- `Join` waits for the thread, `Run` for the loop, the rest for what it reads. -/
def enabled (s : EventLoopThread F) : Action F → Prop
  | .startLoop => s.starter ≠ .returned true ∧ s.starter ≠ .returned false ∧
    (s.starter = .wait → ¬s.status.code < ServerStatus.kRunning.code)
  | .run => s.stoppers s.tid = none ∧ s.loop.calls s.tid = none ∧ s.loop.inline = [] ∧
    s.body ≠ .unborn ∧ s.body ≠ .finished ∧ (s.body = .looping → s.loop.position = .outside)
  | .loop a => s.MayUse a ∧ s.loop.enabled a
  | .stop t => s.stoppers t = none ∧ s.loop.calls t = none ∧
    (t = s.tid → s.body = .looping ∧ s.loop.position.isCallback = true)
  | .proceedStop t => s.stoppers t ≠ none ∧ (s.stoppers t = some .stopping → s.loop.calls t = none) ∧
    (s.stoppers t = some .wait → s.status = .kStopped) ∧ (s.stoppers t = some .join → s.body = .finished)

instance (t : ThreadId) (s : EventLoopThread F) : Decidable (s.MayCall t) :=
  inferInstanceAs (Decidable (_ ∧ (_ → _) ∧ (_ → _)))

instance (s : EventLoopThread F) : (a : EventLoop.Action F) → Decidable (s.MayUse a)
  | .run => inferInstanceAs (Decidable False)
  | .advance _ | .leave => inferInstanceAs (Decidable (_ ∧ _))
  | .queueInLoop t _ | .runInLoop t _ | .stop t => inferInstanceAs (Decidable (s.MayCall t))
  | .proceed _ => inferInstanceAs (Decidable True)

instance (s : EventLoopThread F) : (a : Action F) → Decidable (s.enabled a)
  | .startLoop => inferInstanceAs (Decidable (_ ∧ _ ∧ (_ → _)))
  | .run => inferInstanceAs (Decidable (_ ∧ _ ∧ _ ∧ _ ∧ _ ∧ (_ → _)))
  | .loop _ => inferInstanceAs (Decidable (_ ∧ _))
  | .stop _ => inferInstanceAs (Decidable (_ ∧ _ ∧ (_ → _)))
  | .proceedStop _ => inferInstanceAs (Decidable (_ ∧ (_ → _) ∧ (_ → _) ∧ (_ → _)))

def machine : Machine (EventLoopThread F) (Action F) Fault where
  initial s := ∃ tid, s = construct tid
  enabled := enabled
  step := step

instance (s : EventLoopThread F) (a : Action F) : Decidable (machine.enabled s a) :=
  inferInstanceAs (Decidable (s.enabled a))

inductive Change (s : EventLoopThread F) : Action F → EventLoopThread F → Prop where
  | storeStarting : s.starter = .storeStarting → Change s .startLoop { s with status := .kStarting, starter := .spawn }
  | spawn : s.starter = .spawn →
    Change s .startLoop { s with thread := true, body := .construct, starter := .wait }
  | released : s.starter = .wait → Change s .startLoop { s with starter := .returned s.held }
  | construct : s.body = .construct → Change s .run { s with loop := .construct s.tid, held := true, body := .initCb }
  | initialized : s.body = .initCb → Change s .run { s with body := .notify }
  | notify : s.body = .notify → Change s .run { s with status := .kRunning, body := .callRun }
  | callRun : s.body = .callRun → s.loop.status ≠ .kRunning →
    Change s .run { s with loop := { s.loop with position := .storeStarting }, body := .looping }
  | returned : s.body = .looping → s.loop.position = .outside → Change s .run { s with body := .assertStopped }
  | asserted : s.body = .assertStopped → Change s .run { s with body := .storeStopped }
  | storeStopped : s.body = .storeStopped → Change s .run { s with status := .kStopped, body := .reset }
  | reset : s.body = .reset → Change s .run { s with held := false, body := .destroyLoop }
  | loop : s.MayUse a → s.held = true → s.loop.Change a after → Change s (.loop a) { s with loop := after }
  | stop : s.status = .kRunning → s.held = true → s.loop.status = .kRunning → s.stoppers t = none →
    Change s (.stop t) { s.setStopper t (some .storeStopping) with entered := s.entered ++ [t] }
  | storeStopping : s.stoppers t = some .storeStopping →
    Change s (.proceedStop t) { s.setStopper t (some .callStop) with status := .kStopping }
  | callStop : s.stoppers t = some .callStop → s.held = true →
    Change s (.proceedStop t) { s.setStopper t (some .stopping) with loop := s.loop.stop t }
  | stopped : s.stoppers t = some .stopping → Change s (.proceedStop t) (s.setStopper t (some .wait))
  | waited : s.stoppers t = some .wait → Change s (.proceedStop t) (s.setStopper t (some .join))
  | joined : s.stoppers t = some .join → Change s (.proceedStop t) { s.setStopper t none with thread := false }

variable {s : EventLoopThread F}

theorem eventLoop_spec : Ensures (fun loop => loop = s.loop ∧ s.held = true) s.eventLoop :=
  ensures_check.bind fun _ held => .ok ⟨rfl,held⟩

theorem startLoop_change (allowed : s.enabled .startLoop) : Ensures (Change s .startLoop) s.startLoop := by
  obtain ⟨notLoop,notNull,-⟩ := allowed
  cases starter : s.starter with
  | storeStarting => simp only [startLoop,starter]; exact .ok (.storeStarting starter)
  | spawn => simp only [startLoop,starter]; exact ensures_assert.bind fun _ _ => .ok (.spawn starter)
  | wait => simp only [startLoop,starter]; exact .ok (.released starter)
  | returned loop => cases loop <;> contradiction

theorem run_change (allowed : s.enabled .run) : Ensures (Change s .run) s.run := by
  obtain ⟨-,-,-,born,running,returned⟩ := allowed
  cases body : s.body with
  | unborn => exact absurd body born
  | finished => exact absurd body running
  | construct => simp only [run,body]; exact .ok (.construct body)
  | initCb => simp only [run,body]; exact .ok (.initialized body)
  | notify => simp only [run,body]; exact .ok (.notify body)
  | callRun =>
    simp only [run,body]
    have entered : Ensures (fun loop => loop = { s.loop with position := .storeStarting } ∧ s.loop.status ≠ .kRunning)
        (s.loop.step .run) := ensures_assert.bind fun _ ready => .ok ⟨rfl,ready⟩
    refine entered.bind fun loop done => .ok ?_
    obtain ⟨rfl,ready⟩ := done
    exact .callRun body ready
  | looping => simp only [run,body]; exact .ok (.returned body (returned body))
  | assertStopped => simp only [run,body]; exact ensures_assert.bind fun _ _ => .ok (.asserted body)
  | storeStopped => simp only [run,body]; exact .ok (.storeStopped body)
  | reset => simp only [run,body]; exact .ok (.reset body)
  | destroyLoop =>
    obtain ⟨e,aborts⟩ := s.loop.destroy_fails s.tid
    simp only [run,body,aborts]
    exact .error e

theorem stop_change (free : s.stoppers t = none) : Ensures (Change s (.stop t)) (s.stop t) := by
  refine ensures_assert.bind fun _ running => ?_
  have asked : Ensures (fun b => (b = true → s.loop.status = .kRunning) ∧ s.held = true) s.isRunning :=
    eventLoop_spec.bind fun loop found => .ok ⟨fun runs => found.1 ▸ of_decide_eq_true runs,found.2⟩
  exact asked.bind fun b found => ensures_assert.bind fun _ runs => .ok (.stop running found.2 (found.1 runs) free)

theorem proceedStop_change (allowed : s.enabled (.proceedStop t)) :
    Ensures (Change s (.proceedStop t)) (s.proceedStop t) := by
  cases position : s.stoppers t with
  | none => exact absurd position allowed.1
  | some position' =>
    cases position' with
    | storeStopping => simp only [proceedStop,position]; exact .ok (.storeStopping position)
    | callStop =>
      simp only [proceedStop,position]
      refine eventLoop_spec.bind fun loop found => .ok ?_
      obtain ⟨rfl,held⟩ := found
      exact .callStop position held
    | stopping => simp only [proceedStop,position]; exact .ok (.stopped position)
    | wait => simp only [proceedStop,position]; exact .ok (.waited position)
    | join => simp only [proceedStop,position]; exact .ok (.joined position)

theorem step_change (allowed : s.enabled a) : Ensures (Change s a) (s.step a) := by
  cases a with
  | startLoop => exact startLoop_change allowed
  | run => exact run_change allowed
  | loop a =>
    refine ensures_check.bind fun _ held => ?_
    exact (EventLoop.step_change allowed.2).bind fun loop change => .ok (.loop allowed.1 held change)
  | stop t => exact stop_change allowed.1
  | proceedStop t => exact proceedStop_change allowed

end EventLoopThread
end Evk
