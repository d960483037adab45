import Evk.Channel

/-! One `EventLoop` and the threads that use it. The loop thread goes through `Run` one
load, store, system call or critical section at a time; `QueueInLoop` and `Stop` are cut
in the same way on every thread. User code runs on the loop thread outside `Run`, in the
handler of a channel and in a functor, and may make any calls there. -/
namespace Evk

inductive ServerStatus where
  | kNull | kInitializing | kInitialized | kStarting | kRunning | kStopping | kStopped
  deriving DecidableEq, Repr

abbrev ThreadId := Nat

/-- A functor that was pushed: by whom, as which of all pushes, and after how many swaps. -/
structure Queued (F : Type) where
  functor : F
  thread : ThreadId
  ticket : Nat
  round : Nat
  deriving DecidableEq, Repr

/-- The channel of `wakeup_fd_`, or one with a handler of the user's. -/
inductive ActiveChannel where
  | wakeup | user
  deriving DecidableEq, Repr

inductive Position where
  | outside
  | storeStarting
  | storeRunning
  /-- The condition of the `while`. -/
  | test
  | poll
  | dispatch (active : List ActiveChannel)
  /-- In the handler of a channel. -/
  | handle (rest : List ActiveChannel)
  | setCalling
  | swap
  | call
  /-- In a functor that `DoPendingFunctors` called. -/
  | body
  | clearCalling
  | storeStopped
  deriving DecidableEq, Repr

namespace Position

def isUserCode : Position → Bool
  | .outside | .handle _ | .body => true
  | _ => false

def isCallback : Position → Bool
  | .handle _ | .body => true
  | _ => false

end Position

/-- A call of `QueueInLoop` or `Stop` that has begun. -/
inductive LoopCall where
  /-- `QueueInLoop` after its push. -/
  | queued (ticket : Nat)
  /-- `QueueInLoop` before its `Wakeup`. -/
  | waking (ticket : Nat)
  /-- `Stop` after its store. -/
  | stopping
  deriving DecidableEq, Repr

/-- The push whose `QueueInLoop` has not returned. -/
def LoopCall.ticket? : LoopCall → Option Nat
  | .queued ticket | .waking ticket => some ticket
  | .stopping => none

/-- A store of `Stop`: by whom, after how many pushes, in which iteration of the loop. -/
structure StopRequest where
  thread : ThreadId
  pushes : Nat
  iterations : Nat
  deriving DecidableEq, Repr

/-- `wakeup_channel_` and what the poller has at its descriptor. The constructor enables
its read event, and nothing ever removes it. -/
structure WakeupChannel where
  channel : Channel
  slot : Slot Unit
  registered : Channel.Registered () channel slot

namespace WakeupChannel

def construct (fd : Nat) : WakeupChannel where
  channel := { Channel.construct fd with events := kReadable, index := kAdded, addedToLoop := true }
  slot := ⟨some (),some ((),kReadable)⟩
  registered := ⟨rfl,rfl,rfl,rfl⟩

/-- It is as `EnableReadEvent` in the constructor leaves it. -/
theorem construct_eq (fd : Nat) : Channel.enableReadEvent () (.construct fd) .empty =
    .ok ((construct fd).channel,(construct fd).slot) := rfl

end WakeupChannel

structure EventLoop (F : Type) where
  tid : ThreadId
  status : ServerStatus
  isCallingPendingFunctors : Bool
  /-- The counter of the eventfd. -/
  wakeupFd : Nat
  wakeupChannel : WakeupChannel
  pendingFunctors : List (Queued F)
  /-- What `DoPendingFunctors` swapped out and has not called. -/
  functors : List (Queued F)
  position : Position
  /-- Callbacks that `RunInLoop` is running on the loop thread, the innermost first. -/
  inline : List F
  calls : ThreadId → Option LoopCall
  /-- History: swaps, status tests passed, pushes, functors called and in which round,
  stores of `Stop`. -/
  rounds : Nat
  iterations : Nat
  pushed : List (Queued F)
  executed : List (Nat × Queued F)
  stops : List StopRequest

namespace EventLoop

variable {F : Type}

def construct (tid : ThreadId) : EventLoop F where
  tid := tid
  status := .kInitialized
  isCallingPendingFunctors := false
  wakeupFd := 0
  wakeupChannel := .construct 0
  pendingFunctors := []
  functors := []
  position := .outside
  inline := []
  calls _ := none
  rounds := 0
  iterations := 0
  pushed := []
  executed := []
  stops := []

def setCall (t : ThreadId) (call : Option LoopCall) (s : EventLoop F) : EventLoop F :=
  { s with calls := Function.update s.calls t call }

/-- A write that would take the counter of an eventfd to its maximum would block. -/
def wakeup (s : EventLoop F) : EventLoop F :=
  { s with wakeupFd := if s.wakeupFd < 0xfffffffffffffffe then s.wakeupFd + 1 else s.wakeupFd }

/-- A read takes the whole counter. -/
def handleRead (s : EventLoop F) : EventLoop F := { s with wakeupFd := 0 }

/-- The critical section of `QueueInLoop`. -/
def queueInLoop (t : ThreadId) (f : F) (s : EventLoop F) : EventLoop F :=
  let q : Queued F := ⟨f,t,s.pushed.length,s.rounds⟩
  { s.setCall t (some (.queued q.ticket)) with
    pendingFunctors := s.pendingFunctors ++ [q], pushed := s.pushed ++ [q] }

def runInLoop (t : ThreadId) (f : F) (s : EventLoop F) : EventLoop F :=
  if t = s.tid then { s with inline := f :: s.inline } else s.queueInLoop t f

def stop (t : ThreadId) (s : EventLoop F) : EventLoop F :=
  { s.setCall t (some .stopping) with
    status := .kStopping, stops := s.stops ++ [⟨t,s.pushed.length,s.iterations⟩] }

def proceed (t : ThreadId) (s : EventLoop F) : EventLoop F :=
  match s.calls t with
  | none => s
  | some (.queued ticket) =>
    if t ≠ s.tid ∨ s.isCallingPendingFunctors then s.setCall t (some (.waking ticket)) else s.setCall t none
  | some (.waking _) => s.wakeup.setCall t none
  | some .stopping => if t ≠ s.tid then s.wakeup.setCall t none else s.setCall t none

/-- One step of `Run`; `active` is what a poll reports. -/
def advance (active : List ActiveChannel) (s : EventLoop F) : EventLoop F :=
  match s.position with
  | .outside | .handle _ | .body => s
  | .storeStarting => { s with status := .kStarting, position := .storeRunning }
  | .storeRunning => { s with status := .kRunning, position := .test }
  | .test =>
    if s.status = .kRunning then { s with iterations := s.iterations + 1, position := .poll }
    else { s with position := .storeStopped }
  | .poll => { s with position := .dispatch active }
  | .dispatch (.wakeup :: rest) => { s.handleRead with position := .dispatch rest }
  | .dispatch (.user :: rest) => { s with position := .handle rest }
  -- `DoPendingFunctors` begins with an empty vector
  | .dispatch [] => { s with functors := [], position := .setCalling }
  | .setCalling => { s with isCallingPendingFunctors := true, position := .swap }
  | .swap =>
    { s with
      functors := s.pendingFunctors, pendingFunctors := s.functors, rounds := s.rounds + 1, position := .call }
  | .call =>
    match s.functors with
    | q :: rest => { s with functors := rest, executed := s.executed ++ [(s.rounds,q)], position := .body }
    | [] => { s with position := .clearCalling }
  | .clearCalling => { s with isCallingPendingFunctors := false, position := .test }
  | .storeStopped => { s with status := .kStopped, position := .outside }

def leave (s : EventLoop F) : EventLoop F :=
  match s.inline, s.position with
  | _ :: callers, _ => { s with inline := callers }
  | [], .handle rest => { s with position := .dispatch rest }
  | [], .body => { s with position := .call }
  | [], _ => s

/-- `~EventLoop` on thread `t`, with the destructors of its members. -/
def destroy (t : ThreadId) (s : EventLoop F) : Except Fault Unit := do
  assert (s.status = .kStopped) .eventLoopDestructor
  -- `DisableAllEvent` gets to `AssertInLoopThread`
  check (t = s.tid) .fatal
  let (channel,_) ← s.wakeupChannel.channel.disableAllEvent () s.wakeupChannel.slot
  -- `wakeup_channel_->Remove()` is commented out in the source
  channel.destroy

/-- The destructor gets no further than `~Channel` of the wakeup channel. -/
theorem destroy_eq (t : ThreadId) (s : EventLoop F) : s.destroy t = (do
    assert (s.status = .kStopped) .eventLoopDestructor
    check (t = s.tid) .fatal
    .error (.assertion .channelDestructor)) := by
  have registered := s.wakeupChannel.registered
  simp only [destroy,Channel.disableAllEvent,Channel.update_registered registered,ok_bind]
  rw [Channel.destroy_added { s.wakeupChannel.channel with events := kNone } registered.added]

theorem destroy_fails (t : ThreadId) (s : EventLoop F) : ∃ e, s.destroy t = .error e := by
  rw [destroy_eq]
  unfold assert check
  split
  · split <;> exact ⟨_,rfl⟩
  · exact ⟨_,rfl⟩

inductive Action (F : Type) where
  /-- The loop thread calls `Run`. -/
  | run
  | advance (active : List ActiveChannel)
  | queueInLoop (t : ThreadId) (f : F)
  | runInLoop (t : ThreadId) (f : F)
  | stop (t : ThreadId)
  | proceed (t : ThreadId)
  | leave
  deriving DecidableEq

def step (s : EventLoop F) : Action F → Except Fault (EventLoop F)
  | .run => do
    assert (s.status ≠ .kRunning) .eventLoopRun
    return { s with position := .storeStarting }
  | .advance active => .ok (s.advance active)
  | .queueInLoop t f => .ok (s.queueInLoop t f)
  | .runInLoop t f => .ok (s.runInLoop t f)
  | .stop t => .ok (s.stop t)
  | .proceed t => .ok (s.proceed t)
  | .leave => .ok s.leave

/-- A thread calls a method when no other call keeps it; the loop thread in user code. -/
def MayCall (t : ThreadId) (s : EventLoop F) : Prop :=
  s.calls t = none ∧ (t = s.tid → s.position.isUserCode = true)

def enabled (s : EventLoop F) : Action F → Prop
  | .run => s.calls s.tid = none ∧ s.position = .outside ∧ s.inline = []
  -- the eventfd is reported when it can be read
  | .advance active => s.calls s.tid = none ∧ s.position.isUserCode = false ∧ (.wakeup ∈ active → s.wakeupFd ≠ 0)
  | .queueInLoop t _ | .runInLoop t _ | .stop t => s.MayCall t
  | .proceed t => s.calls t ≠ none
  | .leave => s.calls s.tid = none ∧ (s.inline ≠ [] ∨ s.position.isCallback = true)

instance (t : ThreadId) (s : EventLoop F) : Decidable (s.MayCall t) := inferInstanceAs (Decidable (_ ∧ (_ → _)))

instance (s : EventLoop F) : Decidable (s.inline = []) :=
  match s.inline with
  | [] => .isTrue rfl
  | _ :: _ => .isFalse (List.cons_ne_nil _ _)

instance (s : EventLoop F) : (a : Action F) → Decidable (s.enabled a)
  | .run => inferInstanceAs (Decidable (_ ∧ _ ∧ _))
  | .advance _ => inferInstanceAs (Decidable (_ ∧ _ ∧ (_ → _)))
  | .queueInLoop t _ | .runInLoop t _ | .stop t => inferInstanceAs (Decidable (s.MayCall t))
  | .proceed _ => inferInstanceAs (Decidable (_ ≠ _))
  | .leave => inferInstanceAs (Decidable (_ ∧ (¬_ ∨ _)))

def machine : Machine (EventLoop F) (Action F) Fault where
  initial s := ∃ tid, s = construct tid
  enabled := enabled
  step := step

instance (s : EventLoop F) (a : Action F) : Decidable (machine.enabled s a) :=
  inferInstanceAs (Decidable (s.enabled a))

inductive Change (s : EventLoop F) : Action F → EventLoop F → Prop where
  | run : s.position = .outside → s.status ≠ .kRunning → Change s .run { s with position := .storeStarting }
  | storeStarting : s.position = .storeStarting →
    Change s (.advance active) { s with status := .kStarting, position := .storeRunning }
  | storeRunning : s.position = .storeRunning →
    Change s (.advance active) { s with status := .kRunning, position := .test }
  | pass : s.position = .test → s.status = .kRunning →
    Change s (.advance active) { s with iterations := s.iterations + 1, position := .poll }
  | exit : s.position = .test → s.status ≠ .kRunning → Change s (.advance active) { s with position := .storeStopped }
  | poll : s.position = .poll → s.calls s.tid = none → Change s (.advance active)
      { s with position := .dispatch active }
  | handleRead : s.position = .dispatch (.wakeup :: rest) →
    Change s (.advance active) { s.handleRead with position := .dispatch rest }
  | handle : s.position = .dispatch (.user :: rest) → Change s (.advance active) { s with position := .handle rest }
  | dispatched : s.position = .dispatch [] →
    Change s (.advance active) { s with functors := [], position := .setCalling }
  | setCalling : s.position = .setCalling →
    Change s (.advance active) { s with isCallingPendingFunctors := true, position := .swap }
  | swap : s.position = .swap → s.calls s.tid = none → Change s (.advance active)
    { s with functors := s.pendingFunctors, pendingFunctors := s.functors, rounds := s.rounds + 1, position := .call }
  | call : s.position = .call → s.functors = q :: rest → Change s (.advance active)
    { s with functors := rest, executed := s.executed ++ [(s.rounds,q)], position := .body }
  | called : s.position = .call → s.functors = [] → s.calls s.tid = none →
    Change s (.advance active) { s with position := .clearCalling }
  | clearCalling : s.position = .clearCalling → s.calls s.tid = none →
    Change s (.advance active) { s with isCallingPendingFunctors := false, position := .test }
  | storeStopped : s.position = .storeStopped →
    Change s (.advance active) { s with status := .kStopped, position := .outside }
  | queueInLoop : s.MayCall t → Change s (.queueInLoop t f) (s.queueInLoop t f)
  | runInLoop : s.MayCall t → t ≠ s.tid → Change s (.runInLoop t f) (s.queueInLoop t f)
  | runHere : s.MayCall s.tid → Change s (.runInLoop s.tid f) { s with inline := f :: s.inline }
  | stop : s.MayCall t → Change s (.stop t) (s.stop t)
  | waking : s.calls t = some (.queued ticket) → t ≠ s.tid ∨ s.isCallingPendingFunctors = true →
    Change s (.proceed t) (s.setCall t (some (.waking ticket)))
  | quiet : s.calls s.tid = some (.queued ticket) → s.isCallingPendingFunctors = false →
    Change s (.proceed s.tid) (s.setCall s.tid none)
  | woken : ((∃ ticket, s.calls t = some (.waking ticket)) ∨ s.calls t = some .stopping) →
    Change s (.proceed t) (s.wakeup.setCall t none)
  | stopped : s.calls s.tid = some .stopping → Change s (.proceed s.tid) (s.setCall s.tid none)
  | returned : s.calls s.tid = none → s.inline = f :: callers → Change s .leave { s with inline := callers }
  | handled : s.calls s.tid = none → s.inline = [] → s.position = .handle rest →
    Change s .leave { s with position := .dispatch rest }
  | ran : s.calls s.tid = none → s.inline = [] → s.position = .body → Change s .leave { s with position := .call }

theorem advance_change {s : EventLoop F} (free : s.calls s.tid = none) (inside : s.position.isUserCode = false) :
    Change s (.advance active) (s.advance active) := by
  cases position : s.position with
  | outside | handle | body => simp [position,Position.isUserCode] at inside
  | test =>
    by_cases running : s.status = .kRunning
    · simp only [advance,position,if_pos running]
      exact .pass position running
    · simp only [advance,position,if_neg running]
      exact .exit position running
  | dispatch channels =>
    cases channels with
    | nil => simp only [advance,position]; exact .dispatched position
    | cons channel rest =>
      cases channel with
      | wakeup => simp only [advance,position]; exact .handleRead position
      | user => simp only [advance,position]; exact .handle position
  | call =>
    cases batch : s.functors with
    | nil =>
      have same : s.advance active = { s with position := .clearCalling } := by simp only [advance,position,batch]
      exact same ▸ .called position batch free
    | cons q rest => simp only [advance,position,batch]; exact .call position batch
  | storeStarting => simp only [advance,position]; exact .storeStarting position
  | storeRunning => simp only [advance,position]; exact .storeRunning position
  | poll => simp only [advance,position]; exact .poll position free
  | setCalling => simp only [advance,position]; exact .setCalling position
  | swap => simp only [advance,position]; exact .swap position free
  | clearCalling => simp only [advance,position]; exact .clearCalling position free
  | storeStopped => simp only [advance,position]; exact .storeStopped position

theorem proceed_change {s : EventLoop F} (begun : s.calls t ≠ none) : Change s (.proceed t) (s.proceed t) := by
  cases call : s.calls t with
  | none => exact absurd call begun
  | some call' =>
    cases call' with
    | queued ticket =>
      simp only [proceed,call]
      split
      · exact .waking call ‹_›
      · rename_i quiet
        obtain ⟨rfl,clear⟩ : t = s.tid ∧ s.isCallingPendingFunctors = false := by simpa using quiet
        exact .quiet call clear
    | waking ticket => simp only [proceed,call]; exact .woken (.inl ⟨ticket,call⟩)
    | stopping =>
      simp only [proceed,call]
      split
      · exact .woken (.inr call)
      · rename_i here
        obtain rfl : t = s.tid := by simpa using here
        exact .stopped call

theorem leave_change {s : EventLoop F} (allowed : s.enabled .leave) : Change s .leave s.leave := by
  obtain ⟨free,inside⟩ := allowed
  cases inline : s.inline with
  | cons f callers => simp only [leave,inline]; exact .returned free inline
  | nil =>
    cases position : s.position with
    | handle rest =>
      have same : s.leave = { s with position := .dispatch rest } := by simp only [leave,inline,position]
      exact same ▸ .handled free inline position
    | body =>
      have same : s.leave = { s with position := .call } := by simp only [leave,inline,position]
      exact same ▸ .ran free inline position
    | _ => simp [inline,position,Position.isCallback] at inside

theorem step_change {s : EventLoop F} (allowed : s.enabled a) : Ensures (Change s a) (s.step a) := by
  cases a with
  | run => exact ensures_assert.bind fun _ ready => .ok (.run allowed.2.1 ready)
  | advance active => exact .ok (advance_change allowed.1 allowed.2.1)
  | queueInLoop t f => exact .ok (.queueInLoop allowed)
  | runInLoop t f =>
    refine .ok ?_
    by_cases here : t = s.tid
    · subst here
      simp only [runInLoop]
      exact .runHere allowed
    · simp only [runInLoop,here]
      exact .runInLoop allowed here
  | stop t => exact .ok (.stop allowed)
  | proceed t => exact .ok (proceed_change allowed)
  | leave => exact .ok (leave_change allowed)

end EventLoop
end Evk
