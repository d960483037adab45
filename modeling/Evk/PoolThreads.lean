import Evk.EventLoopThreadPool
import Evk.LoopStop

/-! The threads of an `EventLoopThreadPool`, from `Start` to `~EventLoopThreadPool`. One
thread owns the pool and starts, stops and joins the loop threads in turn; in between
and meanwhile the loop threads go on by themselves and everybody may queue functors in
their loops. No loop thread gets to its end, since `~EventLoop` aborts there. -/
namespace Evk

namespace EventLoop

variable {F : Type} {s u : EventLoop F}

def Action.caller : Action F → Option ThreadId
  | .queueInLoop t _ | .runInLoop t _ | .stop t | .proceed t => some t
  | .run | .advance _ | .leave => none

theorem Change.stops (change : Change s a u) (going : ∀ t, a ≠ .stop t) : u.stops = s.stops := by
  cases change with
  | @stop t => exact absurd rfl (going t)
  | _ => rfl

theorem Change.calls (change : Change s a u) (other : a.caller ≠ some t) (foreign : s.tid ≠ t) :
    u.calls t = s.calls t := by
  cases change with
  | queueInLoop | stop | runInLoop | waking | woken =>
    refine Function.update_of_ne ?_ _ _
    rintro rfl
    exact other rfl
  | quiet | stopped => exact Function.update_of_ne foreign.symm _ _
  | _ => rfl

end EventLoop

namespace EventLoopThread

variable {F : Type} {s u : EventLoopThread F} {owner : ThreadId}

/-- `EventLoopThread::Join` once the thread has finished, or if there is none. -/
def join (s : EventLoopThread F) : EventLoopThread F := { s with thread := false }

/-- The steps of the loop thread, and calls on the loop that do not stop it. -/
def Ordinary : Action F → Prop
  | .run => True
  | .loop (.stop _) => False
  | .loop _ => True
  | .startLoop | .stop _ | .proceedStop _ => False

instance : DecidablePred (Ordinary (F := F))
  | .run => inferInstanceAs (Decidable True)
  | .loop (.stop _) => inferInstanceAs (Decidable False)
  | .loop .run | .loop (.advance _) | .loop (.queueInLoop _ _) | .loop (.runInLoop _ _) | .loop (.proceed _)
  | .loop .leave => inferInstanceAs (Decidable True)
  | .startLoop | .stop _ | .proceedStop _ => inferInstanceAs (Decidable False)

/-- Nobody has asked the thread or its loop to stop. -/
structure Unstopped (s : EventLoopThread F) : Prop where
  entered : s.entered = []
  stops : s.loop.stops = []
  stoppers : ∀ t, s.stoppers t = none

structure Starting (s : EventLoopThread F) : Prop extends Unstopped s where
  position : s.starter = .storeStarting ∨ s.starter = .spawn ∨ s.starter = .wait
  thread : s.starter ≠ .wait → s.thread = false
  spawned : s.starter = .wait → s.thread = true
  status : s.starter = .spawn ∨ s.starter = .wait → s.status = .kStarting ∨ s.status = .kRunning
  launching : s.starter = .wait → s.status = .kStarting → s.body = .construct ∨ s.body = .initCb ∨ s.body = .notify

structure Serving (s : EventLoopThread F) : Prop extends Unstopped s where
  started : s.starter = .returned true
  status : s.status = .kRunning
  thread : s.thread = true

/-- The owner of the pool is in `EventLoopThread::Stop`, and nobody else is. -/
structure Leaving (owner : ThreadId) (s : EventLoopThread F) : Prop where
  inside : s.stoppers owner ≠ none
  alone : ∀ t, t ≠ owner → s.stoppers t = none

theorem Unstopped.change (unstopped : s.Unstopped) (ordinary : Ordinary a) (change : Change s a u) : u.Unstopped := by
  obtain ⟨entered,stops,stoppers⟩ := unstopped
  cases change with
  | construct => exact ⟨entered,rfl,stoppers⟩
  | initialized | notify | callRun | returned | asserted | storeStopped | reset => exact ⟨entered,stops,stoppers⟩
  | loop _ _ inner =>
    refine ⟨entered,(inner.stops ?_).trans stops,stoppers⟩
    rintro t rfl
    exact ordinary
  | _ => exact ordinary.elim

/-- Without a request the thread does not get to the end of its loop. -/
theorem Unstopped.going (unstopped : s.Unstopped) (placed : s.Placed) : s.hasReturned = false :=
  (placed.steady unstopped.stops).1

/-- What an ordinary step does to a thread nobody stops: the starter's call stays where it
is, and the status changes to `kRunning` at most. -/
theorem Unstopped.frame (unstopped : s.Unstopped) (placed : s.Placed) (ordinary : Ordinary a) (change : Change s a u) :
    u.starter = s.starter ∧ u.thread = s.thread ∧ (u.status = s.status ∨ u.status = .kRunning) := by
  have going := unstopped.going placed
  cases change with
  | construct | initialized | callRun | returned | asserted | reset | loop => exact ⟨rfl,rfl,.inl rfl⟩
  | notify => exact ⟨rfl,rfl,.inr rfl⟩
  | storeStopped body => simp [hasReturned,body] at going
  | _ => exact ordinary.elim

theorem Starting.change (starting : s.Starting) (placed : s.Placed) (ordinary : Ordinary a) (change : Change s a u) :
    u.Starting := by
  obtain ⟨starter,thread,status⟩ := starting.toUnstopped.frame placed ordinary change
  refine ⟨starting.toUnstopped.change ordinary change,?_,?_,?_,?_,?_⟩
  · rw [starter]
    exact starting.position
  · rw [starter,thread]
    exact starting.thread
  · rw [starter,thread]
    exact starting.spawned
  · rw [starter]
    intro later
    rcases status with same | running
    · rw [same]
      exact starting.status later
    · exact .inr running
  · intro waits early
    have before := starting.launching (starter ▸ waits)
    cases change with
    | construct => exact .inr (.inl rfl)
    | initialized => exact .inr (.inr rfl)
    | notify | storeStopped => cases early
    | callRun body | returned body | asserted body | reset body => simpa [body] using before early
    | loop => exact before early
    | _ => exact ordinary.elim

theorem Serving.change (serving : s.Serving) (placed : s.Placed) (ordinary : Ordinary a) (change : Change s a u) :
    u.Serving := by
  obtain ⟨starter,thread,status⟩ := serving.toUnstopped.frame placed ordinary change
  refine ⟨serving.toUnstopped.change ordinary change,starter.trans serving.started,?_,thread.trans serving.thread⟩
  rcases status with same | running
  · exact same.trans serving.status
  · exact running

theorem Leaving.change (leaving : s.Leaving owner) (ordinary : Ordinary a) (change : Change s a u) :
    u.Leaving owner := by
  obtain ⟨inside,alone⟩ := leaving
  cases change with
  | construct | initialized | notify | callRun | returned | asserted | storeStopped | reset | loop =>
    exact ⟨inside,alone⟩
  | _ => exact ordinary.elim

theorem construct_starting (tid : ThreadId) : (construct tid : EventLoopThread F).Starting :=
  ⟨⟨rfl,rfl,fun _ => rfl⟩,.inl rfl,fun _ => rfl,by simp [construct],by simp [construct],by simp [construct]⟩

theorem Starting.startLoop (starting : s.Starting) (placed : s.Placed) (allowed : s.enabled .startLoop) :
    Ensures (fun u => u.Starting ∨ u.Serving) s.startLoop := by
  obtain ⟨⟨entered,stops,stoppers⟩,position,thread,spawned,status,-⟩ := starting
  rcases position with starter | starter | starter
  · simp only [EventLoopThread.startLoop,starter]
    exact .ok (.inl ⟨⟨entered,stops,stoppers⟩,.inr (.inl rfl),fun _ => thread (by simp [starter]),
      by simp,fun _ => .inl rfl,by simp⟩)
  · simp only [EventLoopThread.startLoop,starter]
    refine ensures_assert.bind fun _ _ => .ok (.inl ?_)
    exact ⟨⟨entered,stops,stoppers⟩,.inr (.inr rfl),by simp,fun _ => rfl,
      fun _ => status (.inl starter),fun _ _ => .inl rfl⟩
  · simp only [EventLoopThread.startLoop,starter]
    have running : s.status = .kRunning := by
      rcases status (.inr starter) with early | running
      · exact absurd (by rw [early]; decide) (allowed.2.2 starter)
      · exact running
    refine .ok (.inr ⟨⟨entered,stops,stoppers⟩,?_,running,spawned starter⟩)
    rw [placed.held_of_running running]

theorem Starting.startLoop_safe (starting : s.Starting) : ∃ u, s.startLoop = .ok u := by
  rcases starting.position with starter | starter | starter
  · simp only [EventLoopThread.startLoop,starter]
    exact ⟨_,rfl⟩
  · have free := starting.thread (by simp [starter])
    simp only [EventLoopThread.startLoop,starter,assert_of free]
    exact ⟨_,rfl⟩
  · simp only [EventLoopThread.startLoop,starter]
    exact ⟨_,rfl⟩

/-- The owner gets into `Stop` unless the loop has not stored `kRunning` yet. -/
theorem Serving.stop (serving : s.Serving) (placed : s.Placed) (owner : ThreadId) :
    if s.hasStarted then ∃ u, s.stop owner = .ok u ∧ u.Leaving owner
    else s.stop owner = .error (.assertion .eventLoopThreadStop) := by
  have held := placed.held_of_running serving.status
  have asked : s.stop owner = (do
      assert (decide (s.loop.status = .kRunning) = true) .eventLoopThreadStop
      return { s.setStopper owner (some .storeStopping) with entered := s.entered ++ [owner] }) := by
    simp only [EventLoopThread.stop,isRunning,eventLoop,assert_of serving.status,check_of held,ok_bind,pure_eq_ok]
  rw [asked]
  split
  · rename_i started
    have running := (placed.steady serving.stops).2.2 started
    refine ⟨_,by simp only [running,decide_true,assert_of]; rfl,?_,fun t other => ?_⟩
    · simp [setStopper]
    · simpa [setStopper,other] using serving.stoppers t
  · rename_i early
    have waits := placed.early (Bool.eq_false_iff.mpr early)
    simp [waits,assert,check]

/-- A step of the owner inside `EventLoopThread::Stop`: the wake-up of the loop, or the
next piece of the call. -/
def stopStep (owner : ThreadId) (s : EventLoopThread F) : Action F :=
  if s.stoppers owner = some .stopping ∧ s.loop.calls owner ≠ none then .loop (.proceed owner) else .proceedStop owner

theorem stopStep_cases (s : EventLoopThread F) (owner : ThreadId) :
    s.stopStep owner = .loop (.proceed owner) ∨ s.stopStep owner = .proceedStop owner := by
  rw [stopStep]
  split
  · exact .inl rfl
  · exact .inr rfl

theorem Leaving.stopStep (leaving : s.Leaving owner) (placed : s.Placed) (allowed : s.enabled (s.stopStep owner))
    (change : Change s (s.stopStep owner) u) : u.Leaving owner := by
  obtain ⟨inside,alone⟩ := leaving
  have others (position : Option StopPosition) (t : ThreadId) (other : t ≠ owner) :
      Function.update s.stoppers owner position t = none := by
    rw [Function.update_of_ne other]
    exact alone t other
  generalize act : s.stopStep owner = a at allowed change
  rcases act ▸ s.stopStep_cases owner with rfl | rfl
  · cases change with
    | loop => exact ⟨inside,alone⟩
  · cases change with
    | storeStopping | callStop | stopped | waited => exact ⟨by simp [setStopper],others _⟩
    | joined last => exact absurd (allowed.2.2.2 last) placed.unfinished

theorem Change.tid (change : Change s a u) : u.tid = s.tid := by cases change <;> rfl

theorem Ordinary.inTime {a : Action F} (ordinary : Ordinary a) : s.StopsInTime a := by
  cases a with
  | run => trivial
  | loop b =>
    cases b with
    | stop t => exact ordinary.elim
    | _ => trivial
  | _ => exact ordinary.elim

def Action.caller : Action F → Option ThreadId
  | .loop a => a.caller
  | .startLoop | .run | .stop _ | .proceedStop _ => none

theorem Change.calls (change : Change s a u) (placed : s.Placed) (ordinary : Ordinary a) (other : a.caller ≠ some t)
    (foreign : s.tid ≠ t) (free : s.loop.calls t = none) : u.loop.calls t = none := by
  cases change with
  | construct => rfl
  | initialized | notify | callRun | returned | asserted | storeStopped | reset => exact free
  | loop _ _ inner => exact (inner.calls other (placed.tid ▸ foreign)).trans free
  | _ => exact ordinary.elim

/-- A thread under way does not fail by itself before `~EventLoop`. -/
theorem Ended.run_result (inv : s.Ended) (placed : s.Placed) :
    (∃ u, s.run = .ok u) ∨ s.body = .destroyLoop ∧ s.run = .error (.assertion .channelDestructor) := by
  cases body : s.body with
  | callRun =>
    have ready := placed.early (by simp [hasStarted,body])
    simp only [run,body,EventLoop.step,assert_of ready,ok_bind]
    exact .inl ⟨_,rfl⟩
  | assertStopped =>
    have stopped := inv.loop (by simp [hasReturned,body])
    simp only [run,body,assert_of stopped,ok_bind]
    exact .inl ⟨_,rfl⟩
  | destroyLoop =>
    have stopped := inv.loop (by simp [hasReturned,body])
    refine .inr ⟨rfl,?_⟩
    rw [run,body]
    simp only [EventLoop.destroy_eq,assert_of stopped,check_of placed.tid.symm,ok_bind,error_bind]
  | unborn | construct | initCb | notify | looping | storeStopped | reset | finished =>
    simp only [run,body]
    exact .inl ⟨_,rfl⟩

/-- `EventLoopThread::Stop` goes on, apart from the wake-up. -/
theorem Ended.proceedStop_ok (inv : s.Ended) (placed : s.Placed) (t : ThreadId) : ∃ u, s.proceedStop t = .ok u := by
  cases position : s.stoppers t with
  | none => exact ⟨s,by simp [proceedStop,position]⟩
  | some position' =>
    cases position' with
    | callStop =>
      simp only [proceedStop,position,eventLoop,check_of (inv.held placed position),ok_bind,pure_eq_ok]
      exact ⟨_,rfl⟩
    | storeStopping | stopping | wait | join =>
      simp only [proceedStop,position]
      exact ⟨_,rfl⟩

theorem stepLoop_failure (inner : ∀ e, s.loop.step a ≠ .error e) (failed : s.stepLoop a = .error e) :
    e = .useAfterFree ∧ s.held = false := by
  by_cases held : s.held = true
  · cases stepped : s.loop.step a with
    | error e => exact absurd stepped (inner e)
    | ok u => simp [stepLoop,check_of held,stepped] at failed
  · simp only [stepLoop,check,if_neg held,error_bind,Except.error.injEq] at failed
    exact ⟨failed.symm,by simpa using held⟩

/-- A step of a thread or a call on its loop fails as a call on a loop that is gone, or in
`~EventLoop`. -/
theorem Ended.ordinary_failure (inv : s.Ended) (placed : s.Placed) (ordinary : Ordinary a) (allowed : s.enabled a)
    (failed : s.step a = .error e) : (e = .useAfterFree ∧ s.held = false ∧ a.caller ≠ none) ∨
      e = .assertion .channelDestructor ∧ s.body = .destroyLoop ∧ a = .run := by
  have inside (body : s.body = .initCb ∨ s.body = .looping) : s.held ≠ false := fun lost => by
    rcases placed.alive lost with other | other | other <;> simp [other] at body
  cases a with
  | run =>
    rcases inv.run_result placed with ⟨u,done⟩ | ⟨body,aborts⟩
    · exact absurd (done.symm.trans failed) (by simp)
    · exact .inr ⟨Except.error.inj (failed.symm.trans aborts),body,rfl⟩
  | loop a =>
    obtain ⟨use,-⟩ := allowed
    cases a with
    | run => exact use.elim
    | advance =>
      obtain ⟨-,lost⟩ := stepLoop_failure (by simp [EventLoop.step]) failed
      exact absurd lost (inside (.inr use.1))
    | leave =>
      obtain ⟨-,lost⟩ := stepLoop_failure (by simp [EventLoop.step]) failed
      exact absurd lost (inside use.1)
    | stop t => exact ordinary.elim
    | queueInLoop | runInLoop | proceed =>
      obtain ⟨rfl,lost⟩ := stepLoop_failure (by simp [EventLoop.step]) failed
      exact .inl ⟨rfl,lost,by simp [Action.caller,EventLoop.Action.caller]⟩
  | startLoop | stop | proceedStop => exact ordinary.elim

end EventLoopThread

/-- A pointer in `loops_`, or to the base loop. -/
inductive PoolLoop where
  | base
  /-- The loop of a thread of the pool. -/
  | thread (i : Nat)
  | null
  deriving DecidableEq, Repr

/-- What the owner of the pool does next. -/
inductive PoolPosition where
  | idle
  | storeStarting
  /-- The condition of the `for` of `Start`. -/
  | makeThread (i : Nat)
  /-- In `StartLoop` of the thread just made. -/
  | startLoop (i : Nat)
  | storeRunning
  | storeStopping
  /-- The `for` of `Stop`, at thread `i`. -/
  | callStop (i : Nat)
  /-- In `EventLoopThread::Stop` of thread `i`. -/
  | inStop (i : Nat)
  | storeStopped
  /-- The `for` of `Join`, at thread `i`. -/
  | join (i : Nat)
  /-- In `threads_.clear()`. -/
  | clear
  | destroyed
  deriving DecidableEq, Repr

structure PoolThreads (F : Type) where
  /-- The thread that calls `Start`, `Stop`, `Join` and the destructor. -/
  owner : ThreadId
  pool : EventLoopThreadPool PoolLoop
  threads : List (EventLoopThread F)
  position : PoolPosition
  /-- `Join` was called by the destructor. -/
  destroying : Bool

namespace PoolThreads

variable {F : Type}

def construct (owner baseThread : ThreadId) (numThread : Int) : PoolThreads F where
  owner := owner
  pool := (EventLoopThreadPool.construct .base baseThread).setThreadNum numThread
  threads := []
  position := .idle
  destroying := false

def setStatus (status : ServerStatus) (s : PoolThreads F) : PoolThreads F := { s with pool := { s.pool with status } }

def goto (position : PoolPosition) (s : PoolThreads F) : PoolThreads F := { s with position }

def setThread (i : Nat) (t : EventLoopThread F) (s : PoolThreads F) : PoolThreads F :=
  { s with threads := s.threads.set i t }

def thread (i : Nat) (s : PoolThreads F) : Except Fault (EventLoopThread F) :=
  match s.threads[i]? with
  | some t => .ok t
  | none => .error .outOfBounds

/-- The next step of the owner; `tid` is the number of a thread that is made in it. -/
def proceed (tid : ThreadId) (s : PoolThreads F) : Except Fault (PoolThreads F) :=
  match s.position with
  | .idle | .destroyed => .ok s
  | .storeStarting => .ok ((s.setStatus .kStarting).goto (.makeThread 0))
  | .makeThread i =>
    if i < s.pool.numThread then .ok { s with threads := s.threads ++ [.construct tid], position := .startLoop i }
    else .ok (s.goto .storeRunning)
  | .startLoop i => do
    let last := s.threads.length - 1
    let t ← s.thread last
    match t.starter with
    | .returned loop =>
      let loops := s.pool.loops ++ [if loop then .thread last else .null]
      return { s with pool := { s.pool with loops }, position := .makeThread (i + 1) }
    | _ => return s.setThread last (← t.startLoop)
  | .storeRunning => .ok ((s.setStatus .kRunning).goto .idle)
  | .storeStopping =>
    .ok ((s.setStatus .kStopping).goto (if s.pool.numThread = 0 then .storeStopped else .callStop 0))
  | .callStop i =>
    if i < s.threads.length then do
      let t ← s.thread i
      return (s.setThread i (← t.stop s.owner)).goto (.inStop i)
    else .ok (s.goto .storeStopped)
  | .inStop i => do
    let t ← s.thread i
    if t.stoppers s.owner = none then return s.goto (.callStop (i + 1))
    else return s.setThread i (← t.step (t.stopStep s.owner))
  | .storeStopped => .ok ((s.setStatus .kStopped).goto .idle)
  | .join i =>
    if i < s.threads.length then do
      let t ← s.thread i
      return (s.setThread i t.join).goto (.join (i + 1))
    else .ok (s.goto .clear)
  -- `~EventLoopThread` of the first one that is left; its `Join` finds no thread
  | .clear =>
    match s.threads with
    | t :: threads => do
      t.destroy
      return { s with threads }
    | [] => .ok (s.goto (if s.destroying then .destroyed else .idle))

inductive Action (F : Type) where
  | start
  | stop
  | join
  | destroy
  | proceed (tid : ThreadId)
  /-- A step of thread `i`, or a call on its loop. -/
  | thread (i : Nat) (a : EventLoopThread.Action F)
  deriving DecidableEq

def step (s : PoolThreads F) : Action F → Except Fault (PoolThreads F)
  | .start => .ok (s.goto .storeStarting)
  | .stop => .ok (s.goto .storeStopping)
  | .join => .ok (s.goto (.join 0))
  | .destroy => .ok { s with position := .join 0, destroying := true }
  | .proceed tid => s.proceed tid
  | .thread i a => do
    let t ← s.thread i
    return s.setThread i (← t.step a)

/-- The owner is in no call on the pool nor on one of its loops. -/
def Free (s : PoolThreads F) : Prop := s.position = .idle ∧ ∀ t ∈ s.threads, t.loop.calls s.owner = none

/-- A new thread has a number of its own; `StartLoop`, `Stop` and `Join` wait. -/
def Ready (tid : ThreadId) (s : PoolThreads F) : PoolPosition → Prop
  | .idle | .destroyed => False
  | .makeThread i => i < s.pool.numThread → tid ≠ s.owner ∧ ∀ t ∈ s.threads, t.tid ≠ tid
  | .startLoop _ => ∀ t ∈ s.threads[s.threads.length - 1]?,
    t.starter ≠ .returned true → t.starter ≠ .returned false → t.enabled .startLoop
  | .inStop i => ∀ t ∈ s.threads[i]?, t.stoppers s.owner ≠ none → t.enabled (t.stopStep s.owner)
  | .join i => ∀ t ∈ s.threads[i]?, t.thread = true → t.body = .finished
  | .storeStarting | .storeRunning | .storeStopping | .callStop _ | .storeStopped | .clear => True

/-- The pool is started once and stopped at most once; its loops are stopped by the pool
only. -/
def enabled (s : PoolThreads F) : Action F → Prop
  | .start => s.Free ∧ s.pool.status = .kNull
  | .stop => s.Free ∧ s.pool.status = .kRunning
  | .join | .destroy => s.Free
  | .proceed tid => s.Ready tid s.position
  | .thread i a => ∃ t ∈ s.threads[i]?, t.enabled a ∧ EventLoopThread.Ordinary a ∧
    (s.position ≠ .idle → a.caller ≠ some s.owner)

instance (s : PoolThreads F) : Decidable s.Free := inferInstanceAs (Decidable (_ ∧ ∀ _ ∈ _, _))

instance (tid : ThreadId) (s : PoolThreads F) : (position : PoolPosition) → Decidable (s.Ready tid position)
  | .idle | .destroyed => inferInstanceAs (Decidable False)
  | .makeThread _ => inferInstanceAs (Decidable (_ → _ ∧ ∀ _ ∈ _, _))
  | .startLoop _ => inferInstanceAs (Decidable (∀ _ ∈ _, (_ → _ → _)))
  | .inStop _ | .join _ => inferInstanceAs (Decidable (∀ _ ∈ _, (_ → _)))
  | .storeStarting | .storeRunning | .storeStopping | .callStop _ | .storeStopped | .clear =>
      inferInstanceAs (Decidable True)

instance (s : PoolThreads F) : (a : Action F) → Decidable (s.enabled a)
  | .start | .stop => inferInstanceAs (Decidable (_ ∧ _))
  | .join | .destroy => inferInstanceAs (Decidable s.Free)
  | .proceed _ => inferInstanceAs (Decidable (s.Ready _ _))
  | .thread _ _ => inferInstanceAs (Decidable (∃ _ ∈ _, _ ∧ _ ∧ (_ → _)))

def machine : Machine (PoolThreads F) (Action F) Fault where
  initial s := ∃ owner baseThread numThread, s = construct owner baseThread numThread
  enabled := enabled
  step := step

instance (s : PoolThreads F) (a : Action F) : Decidable (machine.enabled s a) :=
  inferInstanceAs (Decidable (s.enabled a))

/-! ### What holds of every thread -/

/-- Serving, and the owner has no call on the loop. -/
def Waiting (owner : ThreadId) (t : EventLoopThread F) : Prop := t.Serving ∧ t.loop.calls owner = none

/-- How far thread `j` is when the owner is at a position. -/
def Stage (owner : ThreadId) : PoolPosition → Nat → EventLoopThread F → Prop
  | .startLoop i, j, t => (j = i → t.Starting ∨ t.Serving) ∧ (j ≠ i → t.Serving)
  | .storeStopping, _, t | .callStop _, _, t => Waiting owner t
  | .inStop i, j, t => (j = i → t.Leaving owner) ∧ (j ≠ i → Waiting owner t)
  | .idle, _, t | .storeStarting, _, t | .makeThread _, _, t | .storeRunning, _, t | .storeStopped, _, t | .join _, _, t
  | .clear, _, t | .destroyed, _, t => t.Serving

/-- A thread whose runs are those of an `EventLoopThread`, and not the owner. -/
structure Attended (owner : ThreadId) (t : EventLoopThread F) : Prop where
  reachable : (EventLoopThread.machine.restrict EventLoopThread.StopsInTime).Reachable t
  foreign : t.tid ≠ owner

variable {s : PoolThreads F} {t u : EventLoopThread F} {owner : ThreadId}
  {status : ServerStatus} {position : PoolPosition} {i j : Nat}

theorem Attended.placed (attended : Attended owner t) : t.Placed :=
  EventLoopThread.reachable_placed attended.reachable.of_restrict

theorem Attended.step (attended : Attended owner t) (enabled : t.enabled a)
    (inTime : t.StopsInTime a) (stepped : t.step a = .ok u) :
    Attended owner u ∧ t.Change a u := by
  have change := EventLoopThread.step_change enabled u stepped
  exact ⟨⟨.step attended.reachable ⟨enabled,inTime⟩ stepped,change.tid ▸ attended.foreign⟩,change⟩

theorem Waiting.change (waiting : Waiting owner t) (attended : Attended owner t) (ordinary : EventLoopThread.Ordinary a)
    (other : a.caller ≠ some owner) (change : t.Change a u) : Waiting owner u :=
  ⟨waiting.1.change attended.placed ordinary change,
    change.calls attended.placed ordinary other attended.foreign waiting.2⟩

/-- What the threads and their users do moves no thread on to another stage. -/
theorem Stage.change (stage : Stage owner position j t) (attended : Attended owner t)
    (ordinary : EventLoopThread.Ordinary a) (other : position ≠ .idle → a.caller ≠ some owner) (change : t.Change a u) :
    Stage owner position j u := by
  have placed := attended.placed
  cases position with
  | startLoop i =>
    exact ⟨fun own => (stage.1 own).imp (·.change placed ordinary change) (·.change placed ordinary change),
      fun earlier => (stage.2 earlier).change placed ordinary change⟩
  | storeStopping | callStop => exact Waiting.change stage attended ordinary (other (by simp)) change
  | inStop i =>
    exact ⟨fun own => (stage.1 own).change ordinary change,
      fun later => (stage.2 later).change attended ordinary (other (by simp)) change⟩
  | idle | storeStarting | makeThread | storeRunning | storeStopped | join | clear | destroyed =>
    exact EventLoopThread.Serving.change stage placed ordinary change

/-- Where the owner, the pool's status and the number of threads, of `total` to start, stand
to each other. A pool with threads is not stopped, and `Join` gets past none of them. -/
def Course (status : ServerStatus) (count total : Nat) : PoolPosition → Prop
  | .idle => status = .kNull ∧ count = 0 ∨ status = .kRunning ∧ count = total ∨ status = .kStopped ∧ count = 0
  | .storeStarting => status = .kNull ∧ count = 0
  | .makeThread i => status = .kStarting ∧ count = i
  | .startLoop i => status = .kStarting ∧ count = i + 1
  | .storeRunning => status = .kStarting ∧ count = total
  | .storeStopping => status = .kRunning
  | .callStop i => status = .kStopping ∧ i = 0
  | .inStop i => status = .kStopping ∧ i = 0 ∧ i < count
  | .storeStopped => status = .kStopping ∧ count = 0
  | .join i => status = .kNull ∧ count = 0 ∨ status = .kRunning ∧ count = total ∧ i = 0 ∨ status = .kStopped ∧ count = 0
  | .clear | .destroyed => (status = .kNull ∨ status = .kRunning ∧ count = total ∨ status = .kStopped) ∧ count = 0

/-- How many loops `Start` has got. -/
def made (count : Nat) : PoolPosition → Nat
  | .startLoop i => i
  | _ => count

structure Inv (s : PoolThreads F) : Prop where
  attended : ∀ t ∈ s.threads, Attended s.owner t
  stages : ∀ j t, s.threads[j]? = some t → Stage s.owner s.position j t
  course : Course s.pool.status s.threads.length s.pool.numThread.toNat s.position
  bounded : s.threads.length ≤ s.pool.numThread.toNat
  base : s.pool.baseLoop = .base
  loops : s.pool.status ≠ .kStopping → s.pool.status ≠ .kStopped →
    s.pool.loops = (List.range (made s.threads.length s.position)).map .thread

theorem Inv.attended_at (inv : s.Inv) (there : s.threads[i]? = some t) : Attended s.owner t :=
  inv.attended t (List.mem_of_getElem? there)

theorem thread_spec : Ensures (fun t => s.threads[i]? = some t) (s.thread i) := by
  intro t found
  rw [thread] at found
  split at found
  · cases found
    assumption
  · cases found

theorem thread_of (there : s.threads[i]? = some t) : s.thread i = .ok t := by simp [thread,there]

theorem attended_set {threads : List (EventLoopThread F)} (attended : ∀ t ∈ threads, Attended owner t)
    (new : Attended owner u)
    (i : Nat) : ∀ t ∈ threads.set i u, Attended owner t := by
  intro t among
  rcases List.mem_or_eq_of_mem_set among with old | rfl
  · exact attended t old
  · exact new

/-- The stages after one thread has moved: its own by itself, the others' by position. -/
theorem stages_set {threads : List (EventLoopThread F)} {P Q : Nat → EventLoopThread F → Prop}
    (stages : ∀ j t, threads[j]? = some t → P j t) (new : Q i u) (others : ∀ j t, j ≠ i → P j t → Q j t) :
    ∀ j t, (threads.set i u)[j]? = some t → Q j t := by
  intro j t found
  by_cases own : i = j
  · subst own
    rw [List.getElem?_set] at found
    simp only [if_true] at found
    split at found
    · cases found
      exact new
    · cases found
  · rw [List.getElem?_set_ne own] at found
    exact others j t (Ne.symm own) (stages j t found)

theorem construct_inv (owner baseThread : ThreadId) (numThread : Int) :
    (construct owner baseThread numThread : PoolThreads F).Inv where
  attended := by simp [construct]
  stages := by simp [construct]
  course := .inl ⟨rfl,rfl⟩
  bounded := Nat.zero_le _
  base := rfl
  loops _ _ := rfl

theorem Inv.setThread (inv : s.Inv) (kept : Attended s.owner u)
    (stages : ∀ j t, (s.threads.set i u)[j]? = some t → Stage s.owner position j t)
    (course : Course s.pool.status s.threads.length s.pool.numThread.toNat position)
    (loops : s.pool.status ≠ .kStopping → s.pool.status ≠ .kStopped →
      s.pool.loops = (List.range (made s.threads.length position)).map .thread) :
    ((s.setThread i u).goto position).Inv := by
  have length : (s.threads.set i u).length = s.threads.length := List.length_set ..
  refine ⟨attended_set inv.attended kept i,stages,?_,?_,inv.base,?_⟩
  · exact length.symm ▸ course
  · exact length.symm ▸ inv.bounded
  · exact length.symm ▸ loops

theorem Inv.thread (inv : s.Inv) (allowed : s.enabled (.thread i a)) : Ensures Inv (s.step (.thread i a)) := by
  obtain ⟨t,there,enabled,ordinary,other⟩ := allowed
  have attended := inv.attended_at there
  simp only [step,thread_of there,ok_bind]
  refine Ensures.bind (fun u (stepped : t.step a = .ok u) => attended.step enabled ordinary.inTime stepped)
    fun u moved => ?_
  obtain ⟨kept,change⟩ := moved
  have stage := (inv.stages i t there).change attended ordinary other change
  refine .ok (inv.setThread kept (stages_set inv.stages stage fun _ _ _ old => old) ?_ ?_)
  · exact inv.course
  · exact inv.loops

theorem Inv.store (inv : s.Inv) (stages : ∀ j t, s.threads[j]? = some t → Stage s.owner position j t)
    (course : Course status s.threads.length s.pool.numThread.toNat position)
    (loops : status ≠ .kStopping → status ≠ .kStopped →
      s.pool.loops = (List.range (made s.threads.length position)).map .thread) :
    ((s.setStatus status).goto position).Inv :=
  ⟨inv.attended,stages,course,inv.bounded,inv.base,loops⟩

theorem Inv.goto (inv : s.Inv) (stages : ∀ j t, s.threads[j]? = some t → Stage s.owner position j t)
    (course : Course s.pool.status s.threads.length s.pool.numThread.toNat position)
    (loops : s.pool.status ≠ .kStopping → s.pool.status ≠ .kStopped →
      s.pool.loops = (List.range (made s.threads.length position)).map .thread) : (s.goto position).Inv :=
  inv.store stages course loops

/-- The `for` of `Start`: one thread more, or the end. -/
theorem Inv.makeThread (inv : s.Inv) (position : s.position = .makeThread i) (ready : s.Ready tid s.position) :
    Ensures Inv (s.proceed tid) := by
  obtain ⟨status,count⟩ : s.pool.status = .kStarting ∧
    s.threads.length = i := by simpa [position,Course] using inv.course
  have serving (j : Nat) (t : EventLoopThread F) (there : s.threads[j]? = some t) : t.Serving := by
    simpa only [position,Stage] using inv.stages j t there
  have loops := inv.loops (by simp [status]) (by simp [status])
  simp only [position,made] at loops
  simp only [PoolThreads.proceed,position]
  split
  · rename_i more
    simp only [position,Ready] at ready
    refine .ok ⟨fun t among => ?_,fun j t there => ?_,⟨status,by simp [count]⟩,?_,inv.base,fun _ _ => ?_⟩
    · rcases List.mem_append.mp among with old | new
      · exact inv.attended t old
      · obtain rfl := List.mem_singleton.mp new
        exact ⟨.initial ⟨tid,rfl⟩,(ready more).1⟩
    · by_cases own : j = i
      · have last : (s.threads ++ [EventLoopThread.construct tid])[j]? = some (.construct tid) := by simp [own,← count]
        obtain rfl := Option.some.inj (last.symm.trans there)
        exact ⟨fun _ => .inl (EventLoopThread.construct_starting tid),fun elsewhere => absurd own elsewhere⟩
      · have bound := (List.getElem?_eq_some_iff.mp there).1
        have below : j < s.threads.length := by
          simp only [List.length_append,List.length_singleton] at bound
          omega
        refine ⟨fun same => absurd same own,fun _ => serving j t ?_⟩
        exact (List.getElem?_append_left below).symm.trans there
    · simp only [List.length_append,List.length_singleton,count]
      omega
    · simpa [made,count] using loops
  · rename_i all
    have bounded := inv.bounded
    exact .ok (inv.goto serving ⟨status,by omega⟩ fun _ _ => loops)

/-- In `StartLoop` of the last thread, which returns the loop. -/
theorem Inv.startLoop (inv : s.Inv) (position : s.position = .startLoop i) (ready : s.Ready tid s.position) :
    Ensures Inv (s.proceed tid) := by
  obtain ⟨status,count⟩ : s.pool.status = .kStarting ∧ s.threads.length = i + 1 := by
    simpa [position,Course] using inv.course
  have stages := inv.stages
  simp only [position,Stage] at stages
  have loops := inv.loops (by simp [status]) (by simp [status])
  simp only [position,made] at loops
  simp only [position,Ready,count,Nat.add_sub_cancel] at ready
  simp only [PoolThreads.proceed,position,count,Nat.add_sub_cancel]
  refine thread_spec.bind fun t there => ?_
  have stage := (stages i t there).1 rfl
  have attended := inv.attended_at there
  split
  · rename_i loop returned
    have serving : t.Serving := by
      rcases stage with starting | serving
      · simpa [returned] using starting.position
      · exact serving
    obtain rfl : loop = true := StartPosition.returned.inj (returned.symm.trans serving.started)
    refine .ok ⟨inv.attended,fun j t' found => ?_,⟨status,count⟩,inv.bounded,inv.base,fun _ _ => ?_⟩
    · by_cases own : j = i
      · subst own
        obtain rfl := Option.some.inj (there.symm.trans found)
        exact serving
      · exact (stages j t' found).2 own
    · simp [made,count,loops,List.range_succ]
  · rename_i running
    have allowed : t.enabled .startLoop := ready t there (running true) (running false)
    intro v done
    obtain ⟨u,stepped,⟨⟩⟩ := bind_ok_iff.mp done
    have kept := (attended.step (a := .startLoop) allowed trivial stepped).1
    have starting : t.Starting := by
      rcases stage with starting | serving
      · exact starting
      · exact absurd serving.started (running true)
    have next := starting.startLoop attended.placed allowed u stepped
    have same : (s.setThread i u).goto (.startLoop i) = s.setThread i u := by rw [← position]; rfl
    refine same ▸ inv.setThread kept (stages_set stages ⟨fun _ => next,fun elsewhere => absurd rfl elsewhere⟩ ?_)
      ⟨status,count⟩ ?_
    · exact fun j t _ old => old
    · simpa [made] using fun _ _ => loops

/-- The `for` of `Stop`: the owner calls `Stop` of the first thread, or stores `kStopped`. -/
theorem Inv.callStop (inv : s.Inv) (position : s.position = .callStop i) : Ensures Inv (s.proceed tid) := by
  obtain ⟨status,rfl⟩ : s.pool.status = .kStopping ∧ i = 0 := by simpa [position,Course] using inv.course
  have stages := inv.stages
  simp only [position,Stage] at stages
  simp only [PoolThreads.proceed,position]
  split
  · rename_i more
    refine thread_spec.bind fun t there => ?_
    have attended := inv.attended_at there
    obtain ⟨serving,free⟩ := stages 0 t there
    have allowed : t.enabled (.stop s.owner) :=
      ⟨serving.stoppers s.owner,free,fun own => absurd own.symm attended.foreign⟩
    intro v done
    obtain ⟨u,stepped,⟨⟩⟩ := bind_ok_iff.mp done
    have kept := (attended.step allowed serving.entered stepped).1
    have leaving : u.Leaving s.owner := by
      have entered := serving.stop attended.placed s.owner
      split at entered
      · obtain ⟨u',stopped,leaving⟩ := entered
        obtain rfl := Except.ok.inj (stopped.symm.trans stepped)
        exact leaving
      · simp [stepped] at entered
    refine inv.setThread kept (stages_set stages ?_ fun j t other old => ?_) ⟨status,rfl,more⟩ (by simp [status])
    · exact ⟨fun _ => leaving,fun other => absurd rfl other⟩
    · exact ⟨fun own => absurd own other,fun _ => old⟩
  · rename_i all
    have none : s.threads = [] := List.length_eq_zero_iff.mp (by omega)
    exact .ok (inv.goto (by simp [none]) ⟨status,by simp [none]⟩ (by simp [status]))

theorem Inv.inStop (inv : s.Inv) (position : s.position = .inStop i) (ready : s.Ready tid s.position) :
    Ensures Inv (s.proceed tid) := by
  obtain ⟨status,first,below⟩ : s.pool.status = .kStopping ∧ i = 0 ∧ i < s.threads.length := by
    simpa [position,Course] using inv.course
  have stages := inv.stages
  simp only [position,Stage] at stages
  simp only [position,Ready] at ready
  simp only [PoolThreads.proceed,position]
  refine thread_spec.bind fun t there => ?_
  have attended := inv.attended_at there
  have leaving := (stages i t there).1 rfl
  rw [if_neg leaving.inside]
  have allowed := ready t there leaving.inside
  have inTime : t.StopsInTime (t.stopStep s.owner) := by
    rw [EventLoopThread.stopStep]
    split <;> trivial
  refine Ensures.bind (fun u (stepped : t.step _ = .ok u) => attended.step allowed inTime stepped) fun u moved => .ok ?_
  have next := leaving.stopStep attended.placed allowed moved.2
  have same : (s.setThread i u).goto (.inStop i) = s.setThread i u := by rw [← position]; rfl
  refine same ▸ inv.setThread moved.1 (stages_set stages ?_ fun j t _ old => old)
    ⟨status,first,below⟩ (by simp [status])
  exact ⟨fun _ => next,fun other => absurd rfl other⟩

/-- The `for` of `Join`: a thread that serves does not finish. -/
theorem Inv.join (inv : s.Inv) (position : s.position = .join i) (ready : s.Ready tid s.position) :
    Ensures Inv (s.proceed tid) := by
  have course := inv.course
  have stages := inv.stages
  have loops := inv.loops
  simp only [position,Course,Stage,Ready,made] at course stages ready loops
  simp only [PoolThreads.proceed,position]
  split
  · refine thread_spec.bind fun t there => .ok ?_
    have serving := stages i t there
    exact absurd (ready t there serving.thread) (inv.attended_at there).placed.unfinished
  · rename_i all
    refine .ok (inv.goto stages ?_ loops)
    rcases course with ⟨null,none⟩ | ⟨running,full,rfl⟩ | ⟨stopped,none⟩
    · exact ⟨.inl null,none⟩
    · exact ⟨.inr (.inl ⟨running,full⟩),by omega⟩
    · exact ⟨.inr (.inr stopped),none⟩

theorem Inv.clear (inv : s.Inv) (position : s.position = .clear) : Ensures Inv (s.proceed tid) := by
  have course := inv.course
  have loops := inv.loops
  simp only [position,Course,made] at course loops
  obtain ⟨ends,count⟩ := course
  have none : s.threads = [] := List.length_eq_zero_iff.mp count
  simp only [PoolThreads.proceed,position,none]
  refine .ok (inv.goto (by simp [none]) ?_ ?_)
  · split
    · exact ⟨ends,count⟩
    · exact ends.imp (fun null => ⟨null,count⟩) (Or.imp_right fun stopped => ⟨stopped,count⟩)
  · split <;> exact loops

theorem Inv.proceed (inv : s.Inv) (ready : s.Ready tid s.position) : Ensures Inv (s.proceed tid) := by
  have course := inv.course
  have stages := inv.stages
  have loops := inv.loops
  cases position : s.position with
  | idle | destroyed => simp only [Ready,position] at ready
  | makeThread i => exact inv.makeThread position ready
  | startLoop i => exact inv.startLoop position ready
  | callStop i => exact inv.callStop position
  | inStop i => exact inv.inStop position ready
  | join i => exact inv.join position ready
  | clear => exact inv.clear position
  | storeStarting =>
    simp only [position,Course,Stage,made] at course stages loops
    simp only [PoolThreads.proceed,position]
    have none : s.threads = [] := List.length_eq_zero_iff.mp course.2
    exact .ok (inv.store (by simp [none]) ⟨rfl,course.2⟩ fun _ _ => loops (by simp [course.1]) (by simp [course.1]))
  | storeRunning =>
    simp only [position,Course,Stage,made] at course stages loops
    simp only [PoolThreads.proceed,position]
    obtain ⟨starting,full⟩ := course
    exact .ok (inv.store stages (.inr (.inl ⟨rfl,full⟩)) fun _ _ => loops (by simp [starting]) (by simp [starting]))
  | storeStopping =>
    simp only [position,Course,Stage] at course stages
    simp only [PoolThreads.proceed,position]
    split
    · rename_i none
      have empty : s.threads = [] := by simpa [none] using inv.bounded
      exact .ok (inv.store (by simp [empty]) ⟨rfl,by simp [empty]⟩ (by simp))
    · exact .ok (inv.store stages ⟨rfl,rfl⟩ (by simp))
  | storeStopped =>
    simp only [position,Course,Stage] at course stages
    simp only [PoolThreads.proceed,position]
    exact .ok (inv.store stages (.inr (.inr ⟨rfl,course.2⟩)) (by simp))

theorem Inv.at_idle (inv : s.Inv) (idle : s.position = .idle) :
    Course s.pool.status s.threads.length s.pool.numThread.toNat .idle ∧
    (∀ j t, s.threads[j]? = some t → Stage s.owner .idle j t) ∧
    (s.pool.status ≠ .kStopping → s.pool.status ≠ .kStopped →
      s.pool.loops = (List.range s.threads.length).map .thread) := by
  have course := inv.course
  have stages := inv.stages
  have loops := inv.loops
  rw [idle] at course stages loops
  exact ⟨course,stages,loops⟩

theorem Inv.step (inv : s.Inv) (allowed : s.enabled a) : Ensures Inv (s.step a) := by
  have joining (course : Course s.pool.status s.threads.length s.pool.numThread.toNat .idle) :
      Course s.pool.status s.threads.length s.pool.numThread.toNat (.join 0) :=
    course.imp_right fun later => later.imp_left fun ⟨running,full⟩ => ⟨running,full,rfl⟩
  cases a with
  | proceed tid => exact inv.proceed allowed
  | thread i a => exact inv.thread allowed
  | start =>
    obtain ⟨⟨idle,-⟩,null⟩ := allowed
    obtain ⟨course,stages,loops⟩ := inv.at_idle idle
    have none : s.threads.length = 0 := by simpa [Course,null] using course
    exact .ok (inv.goto stages ⟨null,none⟩ loops)
  | stop =>
    obtain ⟨⟨idle,free⟩,running⟩ := allowed
    obtain ⟨-,stages,loops⟩ := inv.at_idle idle
    exact .ok (inv.goto (fun j t there => ⟨stages j t there,free t (List.mem_of_getElem? there)⟩) running loops)
  | join =>
    obtain ⟨course,stages,loops⟩ := inv.at_idle allowed.1
    exact .ok (inv.goto stages (joining course) loops)
  | destroy =>
    obtain ⟨course,stages,loops⟩ := inv.at_idle allowed.1
    exact .ok ⟨inv.attended,stages,joining course,inv.bounded,inv.base,loops⟩

theorem reachable_inv (reachable : machine.Reachable s) : s.Inv := by
  refine reachable.invariant (fun s first => ?_) fun s a u inv enabled stepped => inv.step enabled u stepped
  obtain ⟨owner,baseThread,numThread,rfl⟩ := first
  exact construct_inv owner baseThread numThread

/-! ### What the pool hands out, and how its calls end -/

/-- What `GetNextLoop`, wherever its counter stands, `GetNextLoopWithHash` and `GetAllLoops`
return. -/
def HandsOut (s : PoolThreads F) (caller : ThreadId) (loop : PoolLoop) : Prop :=
  (∃ next pool, EventLoopThreadPool.getNextLoop { s.pool with next } caller = .ok (loop,pool)) ∨
  (∃ hashCode, s.pool.getNextLoopWithHash caller hashCode = .ok loop) ∨
  ∃ loops, s.pool.getAllLoops caller = .ok loops ∧ loop ∈ loops

/-- A pool hands out loops while it is running, those of `loops_` or the base loop. -/
theorem HandsOut.running (out : s.HandsOut caller loop) :
    s.pool.status = .kRunning ∧ (loop = s.pool.baseLoop ∨ loop ∈ s.pool.loops) := by
  rcases out with ⟨next,pool,done⟩ | ⟨hashCode,done⟩ | ⟨loops,done,among⟩
  · simp only [EventLoopThreadPool.getNextLoop,EventLoopThreadPool.fetchNext,bind_ok_iff] at done
    obtain ⟨⟨loop',pool'⟩,⟨_,_,_,running,rest⟩,⟨⟩⟩ := done
    refine ⟨assert_ok_iff.mp running,?_⟩
    split at rest
    · cases rest
      exact .inl rfl
    · split at rest
      · cases rest
      · rename_i found
        cases rest
        exact .inr (List.mem_of_getElem? found)
  · simp only [EventLoopThreadPool.getNextLoopWithHash,bind_ok_iff] at done
    obtain ⟨_,_,_,running,rest⟩ := done
    refine ⟨assert_ok_iff.mp running,?_⟩
    split at rest
    · cases rest
      exact .inl rfl
    · split at rest
      · cases rest
      · rename_i found
        cases rest
        exact .inr (List.mem_of_getElem? found)
  · simp only [EventLoopThreadPool.getAllLoops,bind_ok_iff] at done
    obtain ⟨_,_,_,running,rest⟩ := done
    refine ⟨assert_ok_iff.mp running,?_⟩
    split at rest
    · cases rest
      exact .inl (List.mem_singleton.mp among)
    · cases rest
      exact .inr among

theorem Inv.serving (inv : s.Inv) (running : s.pool.status = .kRunning) (there : s.threads[i]? = some t) :
    t.Serving := by
  have course := inv.course
  have stage := inv.stages i t there
  cases position : s.position with
  | idle | join | clear | destroyed | storeStarting | makeThread | storeRunning | storeStopped =>
    simpa only [position,Stage] using stage
  | storeStopping =>
    simp only [position,Stage] at stage
    exact stage.1
  | startLoop | callStop | inStop => simp [position,Course,running] at course

theorem Inv.loops_running (inv : s.Inv) (running : s.pool.status = .kRunning) :
    s.pool.loops = (List.range s.threads.length).map .thread := by
  have course := inv.course
  have loops := inv.loops (by simp [running]) (by simp [running])
  cases position : s.position with
  | startLoop => simp [position,Course,running] at course
  | _ =>
    simp only [position,made] at loops
    exact loops

/-- A pool that has been stopped had no threads. -/
theorem Inv.unstopped (inv : s.Inv) (some : s.threads ≠ []) : s.pool.status ≠ .kStopped ∧ s.position ≠ .destroyed := by
  have course := inv.course
  have many : s.threads.length ≠ 0 := fun none => some (List.length_eq_zero_iff.mp none)
  cases position : s.position <;> simp only [position,Course] at course <;> grind

theorem Attended.ended (attended : Attended owner t) : t.Ended := EventLoopThread.reachable_ended attended.reachable

/-- The assertion of `EventLoopThread::Stop` on a loop that has not stored `kRunning` yet. -/
def StopsEarly (s : PoolThreads F) (a : Action F) (e : Fault) : Prop :=
  e = .assertion .eventLoopThreadStop ∧ (∃ tid, a = .proceed tid) ∧
    ∃ i, s.position = .callStop i ∧ ∃ t, s.threads[i]? = some t ∧ t.hasStarted = false

/-- A call on a loop that its thread has reset: of a user of the loop, or the wake-up that
the owner makes in `EventLoop::Stop` after its store. -/
def CallsLate (s : PoolThreads F) (a : Action F) (e : Fault) : Prop :=
  e = .useAfterFree ∧ ∃ i t, s.threads[i]? = some t ∧ t.held = false ∧
    ((∃ b, a = .thread i b ∧ b.caller ≠ none) ∨
      (∃ tid, a = .proceed tid) ∧ s.position = .inStop i ∧ t.stopStep s.owner = .loop (.proceed s.owner))

/-- The thread is in `~EventLoop`, which it does not get through. -/
def Aborts (s : PoolThreads F) (a : Action F) (e : Fault) : Prop :=
  e = .assertion .channelDestructor ∧ ∃ i t, a = .thread i .run ∧ s.threads[i]? = some t ∧ t.body = .destroyLoop

theorem Inv.startLoop_succeeds (inv : s.Inv) (position : s.position = .startLoop i) (tid : ThreadId) :
    ∃ u, s.proceed tid = .ok u := by
  obtain ⟨-,count⟩ : s.pool.status = .kStarting ∧ s.threads.length = i + 1 := by
    simpa [position,Course] using inv.course
  obtain ⟨t,there⟩ : ∃ t, s.threads[i]? = some t := ⟨_,List.getElem?_eq_getElem (by omega)⟩
  have stage := inv.stages i t there
  simp only [position,Stage] at stage
  simp only [PoolThreads.proceed,position,count,Nat.add_sub_cancel,thread_of there,ok_bind]
  split
  · exact ⟨_,rfl⟩
  · rename_i running
    rcases stage.1 trivial with starting | serving
    · obtain ⟨u,done⟩ := starting.startLoop_safe
      rw [done]
      exact ⟨_,rfl⟩
    · exact absurd serving.started (running true)

theorem Inv.callStop_failure (inv : s.Inv) (position : s.position = .callStop i) (failed : s.proceed tid = .error e) :
    s.StopsEarly (.proceed tid) e := by
  simp only [PoolThreads.proceed,position] at failed
  split at failed
  · rename_i more
    obtain ⟨t,there⟩ : ∃ t, s.threads[i]? = some t := ⟨_,List.getElem?_eq_getElem more⟩
    have stage := inv.stages i t there
    simp only [position,Stage] at stage
    have entered := stage.1.stop (inv.attended_at there).placed s.owner
    simp only [thread_of there,ok_bind] at failed
    split at entered
    · obtain ⟨u,done,-⟩ := entered
      simp [done] at failed
    · rename_i early
      rw [entered,error_bind] at failed
      exact ⟨(Except.error.inj failed).symm,⟨tid,rfl⟩,i,position,t,there,Bool.eq_false_iff.mpr early⟩
  · cases failed

theorem Inv.inStop_failure (inv : s.Inv) (position : s.position = .inStop i) (failed : s.proceed tid = .error e) :
    s.CallsLate (.proceed tid) e := by
  obtain ⟨-,-,below⟩ : s.pool.status = .kStopping ∧ i = 0 ∧ i < s.threads.length := by
    simpa [position,Course] using inv.course
  obtain ⟨t,there⟩ : ∃ t, s.threads[i]? = some t := ⟨_,List.getElem?_eq_getElem below⟩
  have attended := inv.attended_at there
  simp only [PoolThreads.proceed,position,thread_of there,ok_bind] at failed
  split at failed
  · cases failed
  · cases stepped : t.step (t.stopStep s.owner) with
    | ok u => simp [stepped] at failed
    | error e' =>
      obtain rfl : e' = e := by simpa [stepped] using failed
      rcases t.stopStep_cases s.owner with wakes | goes
      · rw [wakes] at stepped
        obtain ⟨rfl,lost⟩ := EventLoopThread.stepLoop_failure (by simp [EventLoop.step]) stepped
        exact ⟨rfl,i,t,there,lost,.inr ⟨⟨tid,rfl⟩,position,wakes⟩⟩
      · obtain ⟨u,done⟩ := attended.ended.proceedStop_ok attended.placed s.owner
        rw [goes] at stepped
        exact absurd (done.symm.trans stepped) (by simp)

theorem Inv.proceed_failure (inv : s.Inv) (failed : s.proceed tid = .error e) :
    s.StopsEarly (.proceed tid) e ∨ s.CallsLate (.proceed tid) e := by
  cases position : s.position with
  | idle | destroyed | storeStarting | storeRunning | storeStopping | storeStopped =>
    simp [PoolThreads.proceed,position] at failed
  | makeThread i =>
    simp only [PoolThreads.proceed,position] at failed
    split at failed <;> cases failed
  | startLoop i =>
    obtain ⟨u,done⟩ := inv.startLoop_succeeds position tid
    cases done.symm.trans failed
  | callStop i => exact .inl (inv.callStop_failure position failed)
  | inStop i => exact .inr (inv.inStop_failure position failed)
  | join i =>
    simp only [PoolThreads.proceed,position] at failed
    split at failed
    · rename_i more
      obtain ⟨t,there⟩ : ∃ t, s.threads[i]? = some t := ⟨_,List.getElem?_eq_getElem more⟩
      simp [thread_of there] at failed
    · cases failed
  | clear =>
    have none : s.threads = [] := by
      have course := inv.course
      simp only [position,Course] at course
      exact List.length_eq_zero_iff.mp course.2
    simp [PoolThreads.proceed,position,none] at failed

theorem Inv.step_failure (inv : s.Inv) (allowed : s.enabled a) (failed : s.step a = .error e) :
    s.StopsEarly a e ∨ s.CallsLate a e ∨ s.Aborts a e := by
  cases a with
  | proceed tid =>
    rcases inv.proceed_failure failed with early | late
    · exact .inl early
    · exact .inr (.inl late)
  | thread i a =>
    obtain ⟨t,there,enabled,ordinary,-⟩ := allowed
    have attended := inv.attended_at there
    simp only [PoolThreads.step,thread_of there,ok_bind] at failed
    cases stepped : t.step a with
    | ok u => simp [stepped] at failed
    | error e' =>
      obtain rfl : e' = e := by simpa [stepped] using failed
      rcases attended.ended.ordinary_failure attended.placed ordinary enabled stepped with
        ⟨rfl,lost,calls⟩ | ⟨rfl,body,rfl⟩
      · exact .inr (.inl ⟨rfl,i,t,there,lost,.inl ⟨a,rfl,calls⟩⟩)
      · exact .inr (.inr ⟨rfl,i,t,rfl,there,body⟩)
  | start | stop | join | destroy => cases failed

/-- `Join` waits for a thread that has not finished, and none does. -/
theorem Inv.join_waits (inv : s.Inv) (some : s.threads ≠ []) (joins : s.position = .join i) :
    ¬s.enabled (.proceed tid) := by
  intro ready
  obtain ⟨running,-,rfl⟩ : s.pool.status = .kRunning ∧ s.threads.length = s.pool.numThread.toNat ∧ i = 0 := by
    simpa [joins,Course,some,(inv.unstopped some).1] using inv.course
  have there := List.getElem?_eq_getElem (List.length_pos_iff.mpr some)
  have serving := inv.serving running there
  simp only [enabled,joins,Ready] at ready
  exact (inv.attended_at there).placed.unfinished (ready _ there serving.thread)

theorem Inv.thread_aborts (inv : s.Inv) (there : s.threads[i]? = some t) (body : t.body = .destroyLoop) :
    s.step (.thread i .run) = .error (.assertion .channelDestructor) := by
  have attended := inv.attended_at there
  rcases attended.ended.run_result attended.placed with ⟨u,done⟩ | ⟨-,aborts⟩
  · obtain ⟨e,fails⟩ := t.loop.destroy_fails t.tid
    simp [EventLoopThread.run,body,fails] at done
  · simp only [PoolThreads.step,thread_of there,ok_bind,EventLoopThread.step,aborts,error_bind]

/-- A pool of event-loop threads, started once, whose loops nobody else stops, in every
interleaving of its owner, the loop threads and the users of the loops. Whatever it hands
out is the base loop or a loop that exists. `Stop`, `Join` and the destructor of a pool
with threads get no further than the first of them, and that thread always aborts in
`~EventLoop`. The other steps that can fail are the assertion of `Stop` on a loop that is
not running yet and calls on a loop that is gone. -/
theorem pool_never_stops (reachable : machine.Reachable s) :
    (∀ caller loop, s.HandsOut caller loop → loop = .base ∨
      ∃ i t, loop = .thread i ∧ s.threads[i]? = some t ∧ t.held = true) ∧
    (s.threads ≠ [] → s.pool.status ≠ .kStopped ∧ s.position ≠ .destroyed ∧ (∀ i, s.position = .inStop i → i = 0) ∧
      ∀ i, s.position = .join i → ∀ tid, ¬s.enabled (.proceed tid)) ∧
    (∀ i t, s.threads[i]? = some t → t.body = .destroyLoop →
      s.step (.thread i .run) = .error (.assertion .channelDestructor)) ∧
    ∀ a e, s.enabled a → s.step a = .error e → s.StopsEarly a e ∨ s.CallsLate a e ∨ s.Aborts a e := by
  have inv := reachable_inv reachable
  refine ⟨fun caller loop out => ?_,fun some => ?_,fun i t there body => inv.thread_aborts there body,
    fun a e allowed failed => inv.step_failure allowed failed⟩
  · obtain ⟨running,handed⟩ := out.running
    rcases handed with base | among
    · exact .inl (base.trans inv.base)
    · rw [inv.loops_running running] at among
      obtain ⟨i,inside,rfl⟩ := List.mem_map.mp among
      have below := List.mem_range.mp inside
      have there := List.getElem?_eq_getElem below
      have serving := inv.serving running there
      exact .inr ⟨i,_,rfl,there,(inv.attended_at there).placed.held_of_running serving.status⟩
  · have course := inv.course
    obtain ⟨unstopped,standing⟩ := inv.unstopped some
    refine ⟨unstopped,standing,fun i stops => ?_,fun i joins tid => inv.join_waits some joins⟩
    simp only [stops,Course] at course
    exact course.2.1

/-- A pool of one thread is started and stopped while its loop polls. The thread comes to
`~EventLoop` with the owner in `Join`. -/
theorem pool_never_stops_one : ∃ s : PoolThreads Nat, machine.Reachable s ∧ s.position = .inStop 0 ∧
    s.pool.status ≠ .kStopped ∧ s.enabled (.thread 0 .run) ∧
    s.step (.thread 0 .run) = .error (.assertion .channelDestructor) := by
  let proceeds (n : Nat) : List (Action Nat) := List.replicate n (.proceed 1)
  let runs (n : Nat) : List (Action Nat) := List.replicate n (.thread 0 .run)
  let turns (n : Nat) (active : List ActiveChannel) : List (Action Nat) :=
    List.replicate n (.thread 0 (.loop (.advance active)))
  let schedule : List (Action Nat) := List.flatten [[.start],proceeds 4,runs 3,proceeds 4,runs 1,turns 3 [],
    [.stop],proceeds 6,turns 1 [.wakeup],turns 8 [],runs 4,proceeds 1]
  have start : machine.Reachable (construct 0 0 1 : PoolThreads Nat) := .initial ⟨0,0,1,rfl⟩
  have reachable := start.follow schedule (by decide +kernel)
  have stops : (schedule.foldl machine.advance (construct 0 0 1)).position = .inStop 0 := by decide +kernel
  have last : ((schedule.foldl machine.advance (construct 0 0 1)).threads[0]?).map (·.body) = some .destroyLoop := by
    decide +kernel
  have enabled : (schedule.foldl machine.advance (construct 0 0 1)).enabled (.thread 0 .run) := by decide +kernel
  generalize schedule.foldl machine.advance (construct 0 0 1) = s at reachable stops last enabled
  obtain ⟨t,there,body⟩ := Option.map_eq_some_iff.mp last
  obtain ⟨-,unstopped,aborts,-⟩ := pool_never_stops reachable
  have some : s.threads ≠ [] := fun none => by simp [none] at there
  exact ⟨s,reachable,stops,(unstopped some).1,enabled,aborts 0 t there body⟩

end PoolThreads
end Evk
