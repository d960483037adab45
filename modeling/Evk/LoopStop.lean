import Evk.EventLoopThread

/-! What becomes of a stop request: whether the loop thread can overwrite it when it
starts, and whether a request can overwrite the status of a loop that has ended. -/
namespace Evk

def Position.iterates : Position → Bool
  | .outside | .storeStarting | .storeRunning | .storeStopped => false
  | _ => true

theorem Position.of_iterates {p : Position} (iterates : p.iterates = true) :
    p ≠ .outside ∧ p ≠ .storeStarting ∧ p ≠ .storeRunning ∧ p ≠ .storeStopped := by
  cases p <;> simp_all [Position.iterates]

namespace EventLoop

variable {F : Type} {s u : EventLoop F}

/-- What a step inside `Run` or a call does to the status. -/
inductive Course (s u : EventLoop F) : Action F → Prop where
  | keep : u.position = s.position ∨ s.position.iterates = true ∧ u.position.iterates = true →
    u.status = s.status → u.stops = s.stops → u.iterations = s.iterations → Course s u a
  | starting : s.position = .storeStarting → u.position = .storeRunning → u.status = .kStarting →
    u.stops = s.stops → u.iterations = s.iterations → Course s u a
  | running : s.position = .storeRunning → u.position.iterates = true → u.status = .kRunning →
    u.stops = s.stops → Course s u a
  | pass : s.position.iterates = true → s.status = .kRunning → u.position.iterates = true → u.status = s.status →
    u.stops = s.stops → Course s u a
  | exit : s.position.iterates = true → s.status ≠ .kRunning → u.position = .storeStopped → u.status = s.status →
    u.stops = s.stops → u.iterations = s.iterations → Course s u a
  | ended : s.position = .storeStopped → u.position = .outside → u.status = .kStopped →
    u.stops = s.stops → u.iterations = s.iterations → Course s u a
  | stop : u = s.stop t → Course s u (.stop t)

theorem Change.course (change : Change s a u) (inside : a ≠ .run) : Course s u a ∧ u.tid = s.tid := by
  cases change with
  | run => exact absurd rfl inside
  | storeStarting position => exact ⟨.starting position rfl rfl rfl rfl,rfl⟩
  | storeRunning position => exact ⟨.running position rfl rfl rfl,rfl⟩
  | pass position running => exact ⟨.pass (by simp [position,Position.iterates]) running rfl rfl rfl,rfl⟩
  | exit position stopped => exact ⟨.exit (by simp [position,Position.iterates]) stopped rfl rfl rfl rfl,rfl⟩
  | storeStopped position => exact ⟨.ended position rfl rfl rfl rfl,rfl⟩
  | stop => exact ⟨.stop rfl,rfl⟩
  | queueInLoop | runInLoop | runHere | waking | quiet | woken | stopped | returned =>
    exact ⟨.keep (.inl rfl) rfl rfl rfl,rfl⟩
  | poll position | handleRead position | handle position | dispatched position | setCalling position | swap position
  | call position | called position | clearCalling position | handled _ _ position | ran _ _ position =>
    exact ⟨.keep (.inr ⟨by simp [position,Position.iterates],rfl⟩) rfl rfl rfl,rfl⟩

end EventLoop

/-- The thread's own status is `kRunning`, unless it is asked to stop. -/
def ThreadPosition.afterNotify : ThreadPosition → Bool
  | .callRun | .looping | .assertStopped | .storeStopped => true
  | _ => false

namespace EventLoopThread

variable {F : Type} {s u : EventLoopThread F}

/-- `EventLoop::Run` has stored `kRunning`. -/
def hasStarted (s : EventLoopThread F) : Bool :=
  match s.body with
  | .unborn | .construct | .initCb | .notify | .callRun => false
  | .looping => s.loop.position ≠ .storeStarting ∧ s.loop.position ≠ .storeRunning
  | .assertStopped | .storeStopped | .reset | .destroyLoop | .finished => true

/-- `EventLoop::Run` has stored `kStopped`. -/
def hasReturned (s : EventLoopThread F) : Bool :=
  match s.body with
  | .unborn | .construct | .initCb | .notify | .callRun => false
  | .looping => s.loop.position = .outside
  | .assertStopped | .storeStopped | .reset | .destroyLoop | .finished => true

/-- How far the thread is, and what the status can be there. -/
structure Placed (s : EventLoopThread F) : Prop where
  tid : s.loop.tid = s.tid
  unborn : s.starter = .storeStarting ∨ s.starter = .spawn → s.body = .unborn
  parked : s.body ≠ .looping → s.loop.position = .outside
  early : s.hasStarted = false → s.loop.status ≠ .kRunning
  /-- Without a call of `Stop` the loop goes on. -/
  steady : s.loop.stops = [] → s.hasReturned = false ∧ s.loop.position ≠ .storeStopped ∧
    (s.hasStarted = true → s.loop.status = .kRunning)
  /-- The loop gets out of its `while` by a status other than `kRunning`. -/
  ending : s.loop.position = .storeStopped → s.loop.status ≠ .kRunning
  alive : s.held = false → s.body = .unborn ∨ s.body = .construct ∨ s.body = .destroyLoop
  running : s.status = .kRunning → s.body.afterNotify = true
  /-- `~EventLoop` does not return. -/
  unfinished : s.body ≠ .finished

theorem Placed.looping (inv : s.Placed) (inside : s.loop.position ≠ .outside) : s.body = .looping := by
  by_contra elsewhere
  exact inside (inv.parked elsewhere)

theorem hasStarted_setLoop
    (position : after.position = s.loop.position ∨ s.loop.position.iterates = true ∧ after.position.iterates = true) :
    hasStarted { s with loop := after } = s.hasStarted := by
  simp only [hasStarted]
  rcases position with same | ⟨before,within⟩
  · rw [same]
  · simp [Position.of_iterates before,Position.of_iterates within]

theorem hasReturned_setLoop
    (position : after.position = s.loop.position ∨ s.loop.position.iterates = true ∧ after.position.iterates = true) :
    hasReturned { s with loop := after } = s.hasReturned := by
  simp only [hasReturned]
  rcases position with same | ⟨before,within⟩
  · rw [same]
  · simp [Position.of_iterates before,Position.of_iterates within]

theorem Placed.stopLoop (inv : s.Placed) (t : ThreadId) : Placed { s with loop := s.loop.stop t } where
  tid := inv.tid
  unborn := inv.unborn
  parked := inv.parked
  early := fun _ => by simp [EventLoop.stop]
  steady := fun none => by simp [EventLoop.stop] at none
  ending := fun _ => by simp [EventLoop.stop]
  alive := inv.alive
  running := inv.running
  unfinished := inv.unfinished

theorem Placed.inside (inv : s.Placed) (body : s.body = .looping) (tid : after.tid = s.loop.tid)
    (early : after.position = .storeStarting ∨ after.position = .storeRunning → after.status ≠ .kRunning)
    (ending : after.position = .storeStopped → after.status ≠ .kRunning)
    (steady : after.stops = [] → after.position ≠ .outside ∧ after.position ≠ .storeStopped ∧
      (after.position ≠ .storeStarting → after.position ≠ .storeRunning → after.status = .kRunning)) :
    Placed { s with loop := after } where
  tid := tid.trans inv.tid
  unborn := inv.unborn
  parked := fun elsewhere => absurd body elsewhere
  early := by
    intro starting
    refine early ?_
    simp only [hasStarted,body,decide_eq_false_iff_not] at starting
    tauto
  steady := by
    intro none
    obtain ⟨going,notEnding,runs⟩ := steady none
    refine ⟨by simp [hasReturned,body,going],notEnding,fun started => ?_⟩
    simp only [hasStarted,body,decide_eq_true_eq] at started
    exact runs started.1 started.2
  ending := ending
  alive := inv.alive
  running := inv.running
  unfinished := inv.unfinished

theorem Placed.course (inv : s.Placed) (course : s.loop.Course after a) (tid : after.tid = s.loop.tid) :
    Placed { s with loop := after } := by
  cases course with
  | stop same => exact same ▸ inv.stopLoop _
  | keep position status stops _ =>
    rcases position with same | ⟨before,position⟩
    · have started : hasStarted { s with loop := after } = s.hasStarted := hasStarted_setLoop (.inl same)
      have returned : hasReturned { s with loop := after } = s.hasReturned := hasReturned_setLoop (.inl same)
      refine ⟨tid.trans inv.tid,inv.unborn,fun elsewhere => same.trans (inv.parked elsewhere),?_,?_,?_,inv.alive,
        inv.running,inv.unfinished⟩
      · simpa only [started,status] using inv.early
      · simpa only [started,returned,status,stops,same] using inv.steady
      · simpa only [status,same] using inv.ending
    · have old := Position.of_iterates before
      have new := Position.of_iterates position
      refine inv.inside (inv.looping old.1) tid (by simp [new]) (by simp [new]) fun none =>
        ⟨new.1,new.2.2.2,fun _ _ => ?_⟩
      have runs := (inv.steady (stops ▸ none)).2.2
      exact status.trans (runs (by simp [hasStarted,inv.looping old.1,old]))
  | starting before position status stops _ =>
    exact inv.inside (inv.looping (by simp [before])) tid (by simp [status]) (by simp [position]) (by simp [position])
  | running before position status stops =>
    have new := Position.of_iterates position
    exact inv.inside (inv.looping (by simp [before])) tid (by simp [new]) (by simp [new])
      fun _ => ⟨new.1,new.2.2.2,fun _ _ => status⟩
  | pass before running position status stops =>
    have new := Position.of_iterates position
    exact inv.inside (inv.looping (Position.of_iterates before).1) tid (by simp [new]) (by simp [new])
      fun _ => ⟨new.1,new.2.2.2,fun _ _ => status.trans running⟩
  | exit before stopped position status stops _ =>
    have old := Position.of_iterates before
    have body := inv.looping old.1
    refine inv.inside body tid (by simp [position]) (fun _ => status ▸ stopped) fun none => absurd ?_ stopped
    exact (inv.steady (stops ▸ none)).2.2 (by simp [hasStarted,body,old])
  | ended before position status stops _ =>
    refine inv.inside (inv.looping (by simp [before])) tid (by simp [position]) (by simp [position]) fun none => ?_
    exact absurd before (inv.steady (stops ▸ none)).2.1

theorem Placed.change (inv : s.Placed) (change : Change s a u) : u.Placed := by
  -- once the thread is born, `StartLoop` is past its spawn
  have born (body : s.body ≠ .unborn) : ¬(s.starter = .storeStarting ∨ s.starter = .spawn) :=
    fun starter => body (inv.unborn starter)
  cases change with
  | storeStarting starter =>
    exact ⟨inv.tid,fun _ => inv.unborn (.inl starter),inv.parked,inv.early,inv.steady,
      inv.ending,inv.alive,by simp,inv.unfinished⟩
  | spawn starter =>
    have body := inv.unborn (.inr starter)
    have position := inv.parked (by simp [body])
    exact ⟨inv.tid,by simp,fun _ => position,fun _ => inv.early (by simp [hasStarted,body]),
      fun _ => by simp [hasReturned,hasStarted,position],inv.ending,fun _ => .inr (.inl rfl),
      fun running => by simpa [body,ThreadPosition.afterNotify] using inv.running running,by simp⟩
  | released => exact ⟨inv.tid,by simp,inv.parked,inv.early,inv.steady,inv.ending,inv.alive,inv.running,inv.unfinished⟩
  | construct body =>
    exact ⟨rfl,fun starter => absurd starter (born (by simp [body])),fun _ => rfl,
      fun _ => by simp [EventLoop.construct],
      fun _ => by simp [hasReturned,hasStarted,EventLoop.construct],by simp [EventLoop.construct],by simp,
      fun running => by simpa [body,ThreadPosition.afterNotify] using inv.running running,by simp⟩
  | initialized body =>
    have position := inv.parked (by simp [body])
    exact ⟨inv.tid,fun starter => absurd starter (born (by simp [body])),fun _ => position,
      fun _ => inv.early (by simp [hasStarted,body]),fun _ => by simp [hasReturned,hasStarted,position],inv.ending,
      fun lost => by simpa [body] using inv.alive lost,
      fun running => by simpa [body,ThreadPosition.afterNotify] using inv.running running,by simp⟩
  | notify body =>
    have position := inv.parked (by simp [body])
    exact ⟨inv.tid,fun starter => absurd starter (born (by simp [body])),fun _ => position,
      fun _ => inv.early (by simp [hasStarted,body]),fun _ => by simp [hasReturned,hasStarted,position],inv.ending,
      fun lost => by simpa [body] using inv.alive lost,fun _ => rfl,by simp⟩
  | callRun body ready =>
    exact ⟨inv.tid,fun starter => absurd starter (born (by simp [body])),fun elsewhere => absurd rfl elsewhere,
      fun _ => ready,fun _ => by simp [hasReturned,hasStarted],by simp,
      fun lost => by simpa [body] using inv.alive lost,fun _ => rfl,by simp⟩
  | returned body position =>
    refine ⟨inv.tid,fun starter => absurd starter (born (by simp [body])),fun _ => position,by simp [hasStarted],
      fun none => ?_,inv.ending,fun lost => by simpa [body] using inv.alive lost,fun _ => rfl,by simp⟩
    simpa [hasReturned,body,position] using (inv.steady none).1
  | asserted body =>
    refine ⟨inv.tid,fun starter => absurd starter (born (by simp [body])),fun _ => inv.parked (by simp [body]),
      by simp [hasStarted],fun none => ?_,inv.ending,fun lost => by simpa [body] using inv.alive lost,fun _ =>
        rfl,by simp⟩
    simpa [hasReturned,body] using (inv.steady none).1
  | storeStopped body =>
    refine ⟨inv.tid,fun starter => absurd starter (born (by simp [body])),fun _ => inv.parked (by simp [body]),
      by simp [hasStarted],fun none => ?_,inv.ending,fun lost => by simpa [body] using inv.alive lost,by simp,by simp⟩
    simpa [hasReturned,body] using (inv.steady none).1
  | reset body =>
    refine ⟨inv.tid,fun starter => absurd starter (born (by simp [body])),fun _ => inv.parked (by simp [body]),
      by simp [hasStarted],fun none => ?_,inv.ending,fun _ => .inr (.inr rfl),
      fun running => by simpa [body,ThreadPosition.afterNotify] using inv.running running,by simp⟩
    simpa [hasReturned,body] using (inv.steady none).1
  | @loop a after may held change =>
    have inside : a ≠ .run := by
      rintro rfl
      exact may
    obtain ⟨course,tid⟩ := change.course inside
    exact inv.course course tid
  | stop | stopped | waited | joined =>
    exact ⟨inv.tid,inv.unborn,inv.parked,inv.early,inv.steady,inv.ending,inv.alive,inv.running,inv.unfinished⟩
  | storeStopping =>
    exact ⟨inv.tid,inv.unborn,inv.parked,inv.early,inv.steady,inv.ending,inv.alive,by simp,inv.unfinished⟩
  | @callStop t _ held =>
    have stopped := inv.stopLoop t
    exact ⟨stopped.tid,stopped.unborn,stopped.parked,stopped.early,stopped.steady,stopped.ending,stopped.alive,
      stopped.running,stopped.unfinished⟩

theorem reachable_placed (reachable : machine.Reachable s) : s.Placed := by
  refine reachable.invariant (fun s first => ?_) fun s a u inv enabled stepped =>
    inv.change (step_change enabled u stepped)
  obtain ⟨tid,rfl⟩ := first
  exact ⟨rfl,fun _ => rfl,fun _ => rfl,by simp [construct,EventLoop.construct],
    by simp [construct,EventLoop.construct,hasReturned,hasStarted],
      by simp [construct,EventLoop.construct],fun _ => .inl rfl,
    by simp [construct],by simp [construct]⟩

/-- The thread only moves on. -/
theorem Change.hasStarted (change : Change s a u) (inv : s.Placed) (started : s.hasStarted = true) :
    u.hasStarted = true := by
  cases change with
  | storeStarting | released | stop | storeStopping | callStop | stopped | waited | joined => exact started
  | spawn starter => simp [EventLoopThread.hasStarted,inv.unborn (.inr starter)] at started
  | construct body | initialized body | notify body | callRun body =>
    simp [EventLoopThread.hasStarted,body] at started
  | returned | asserted | storeStopped | reset => rfl
  | @loop a after may held change =>
    obtain ⟨course,-⟩ := change.course (by rintro rfl; exact may)
    cases course with
    | keep position => exact (hasStarted_setLoop position).trans started
    | stop same => exact (hasStarted_setLoop (.inl (by rw [same]; rfl))).trans started
    | starting before | running before =>
      simp [EventLoopThread.hasStarted,inv.looping (by simp [before]),before] at started
    | pass before _ position => exact (hasStarted_setLoop (.inr ⟨before,position⟩)).trans started
    | exit before _ position =>
      simp [EventLoopThread.hasStarted,inv.looping (Position.of_iterates before).1,position]
    | ended before position => simp [EventLoopThread.hasStarted,inv.looping (by simp [before]),position]

/-- Whoever is in `EventLoopThread::Stop` has found the loop running. -/
def Entered (s : EventLoopThread F) : Prop := ∀ t position, s.stoppers t = some position → s.hasStarted = true

theorem Entered.change (inv : s.Entered) (placed : s.Placed) (change : Change s a u) : u.Entered := by
  have forward := change.hasStarted placed
  -- a thread that goes on within `Stop` had entered it before
  have within {t : ThreadId} {position : StopPosition} {next : Option StopPosition}
    (before : s.stoppers t = some position) :
      ∀ t' position', Function.update s.stoppers t next t' = some position' → s.hasStarted = true := by
    intro t' position' entry
    by_cases same : t' = t
    · exact inv t position before
    · exact inv t' position' (by simpa [same] using entry)
  intro t position entry
  cases change with
  | stop _ _ runs =>
    refine forward ?_
    by_contra early
    exact placed.early (by simpa using early) runs
  | storeStopping before | callStop before | stopped before | waited before | joined before =>
    exact forward (within before t position entry)
  | _ => exact forward (inv t position entry)

theorem reachable_entered (reachable : machine.Reachable s) : s.Entered := by
  refine reachable.invariant_with (fun s first => ?_) (fun s before => reachable_placed before)
    fun s a u placed inv enabled stepped => inv.change placed (step_change enabled u stepped)
  obtain ⟨tid,rfl⟩ := first
  intro t position entry
  simp [construct] at entry

/-! ### No request is lost -/

/-- `EventLoop::Stop` is called once `EventLoop::Run` has stored `kRunning`. -/
def StopsStarted (s : EventLoopThread F) : Action F → Prop
  | .loop (.stop _) => s.hasStarted = true
  | _ => True

instance (s : EventLoopThread F) : (a : Action F) → Decidable (s.StopsStarted a)
  | .loop (.stop _) => inferInstanceAs (Decidable (_ = _))
  | .startLoop | .run | .stop _ | .proceedStop _ | .loop .run | .loop (.advance _) | .loop (.queueInLoop _ _)
  | .loop (.runInLoop _ _) | .loop (.proceed _) | .loop .leave => inferInstanceAs (Decidable True)

structure Requested (s : EventLoopThread F) : Prop where
  started : s.loop.stops ≠ [] → s.hasStarted = true ∧ s.loop.status ≠ .kRunning
  last : ∀ stop ∈ s.loop.stops, stop.iterations = s.loop.iterations

theorem Requested.keep (inv : s.Requested) (forward : s.hasStarted = true → u.hasStarted = true)
    (status : u.loop.status = s.loop.status) (stops : u.loop.stops = s.loop.stops)
    (iterations : u.loop.iterations = s.loop.iterations) : u.Requested where
  started := fun some => ⟨forward (inv.started (stops ▸ some)).1,status ▸ (inv.started (stops ▸ some)).2⟩
  last := by simpa only [stops,iterations] using inv.last

theorem Requested.free (none : u.loop.stops = []) : u.Requested where
  started := fun some => absurd none some
  last := by simp [none]

theorem Requested.stopLoop (inv : s.Requested) (loop : u.loop = s.loop.stop t) (started : u.hasStarted = true) :
    u.Requested where
  started := fun _ => ⟨started,by simp [loop,EventLoop.stop]⟩
  last := by
    intro stop among
    rw [loop] at among ⊢
    rcases List.mem_append.mp among with old | new
    · exact inv.last stop old
    · rw [List.mem_singleton.mp new]
      rfl

theorem Requested.change (inv : s.Requested) (placed : s.Placed) (entered : s.Entered) (ready : s.StopsStarted a)
    (change : Change s a u) : u.Requested := by
  have forward := change.hasStarted placed
  cases change with
  | construct => exact .free rfl
  | callStop before => exact inv.stopLoop rfl (forward (entered _ _ before))
  | @loop a after may held change =>
    obtain ⟨course,-⟩ := change.course (by rintro rfl; exact may)
    cases course with
    | stop same => exact inv.stopLoop same (forward ready)
    | keep _ status stops iterations => exact inv.keep forward status stops iterations
    | exit _ _ _ status stops iterations => exact inv.keep forward status stops iterations
    | starting before _ _ stops | running before _ _ stops =>
      refine .free (stops.trans ?_)
      by_contra some
      have started := (inv.started some).1
      simp [EventLoopThread.hasStarted,placed.looping (by simp [before]),before] at started
    | pass before running _ status stops =>
      refine .free (stops.trans ?_)
      by_contra some
      exact (inv.started some).2 running
    | ended _ _ status stops iterations =>
      refine ⟨fun some => ⟨forward (inv.started (stops ▸ some)).1,?_⟩,by simpa only [stops,iterations] using inv.last⟩
      simp [status]
  | _ => exact inv.keep forward rfl rfl rfl

theorem reachable_requested (reachable : (machine.restrict StopsStarted).Reachable s) : s.Requested := by
  refine reachable.invariant_with (fun s first => ?_)
    (fun s before => And.intro (reachable_placed before.of_restrict) (reachable_entered before.of_restrict))
    fun s a u known inv enabled stepped => inv.change known.1 known.2 enabled.2 (step_change enabled.1 u stepped)
  obtain ⟨tid,rfl⟩ := first
  exact .free rfl

/-- After a store of `kStopping` by `Stop` the loop's status is not `kRunning` again, and
the loop starts no iteration beyond the one in which the request came. -/
theorem stop_request_kept (reachable : (machine.restrict StopsStarted).Reachable s) (requested : s.loop.stops ≠ []) :
    s.loop.status ≠ .kRunning ∧ ∀ stop ∈ s.loop.stops, s.loop.iterations = stop.iterations := by
  have inv := reachable_requested reachable
  exact ⟨(inv.started requested).2,fun stop among => (inv.last stop among).symm⟩

/-- `StartLoop` and the thread, up to the return of the first and the call of `Run`. -/
def started : List (Action Nat) := [.startLoop,.startLoop,.run,.run,.run,.startLoop]

/-- Steps of the loop thread in which no poll reports anything. -/
def turns (n : Nat) : List (Action Nat) := List.replicate n (.loop (.advance []))

/-- The loop comes to its first poll and is stopped there. -/
def stopInPoll : List (Action Nat) :=
  List.flatten [started,[.run],turns 3,[.loop (.stop 1)]]

theorem stop_request_kept_poll : let s := stopInPoll.foldl machine.advance (construct 0)
    s.loop.stops ≠ [] ∧ s.loop.status ≠ .kRunning := by
  have start : (machine.restrict StopsStarted).Reachable (construct 0 : EventLoopThread Nat) := .initial ⟨0,rfl⟩
  have reachable := start.follow stopInPoll (by decide +kernel)
  rw [Machine.restrict_advance] at reachable
  have requested : (stopInPoll.foldl machine.advance (construct 0)).loop.stops ≠ [] := by decide +kernel
  exact ⟨requested,(stop_request_kept reachable requested).1⟩

/-- `StartLoop` has returned and the loop is stopped before its `Run` has begun. -/
def stopBeforeRun : List (Action Nat) :=
  List.flatten [started,[.loop (.stop 1),.loop (.proceed 1),.run],turns 3]

theorem stop_request_lost : ∃ s : EventLoopThread Nat, machine.Reachable s ∧ s.loop.stops ≠ [] ∧
    s.loop.status = .kRunning ∧ ∃ stop ∈ s.loop.stops, stop.iterations < s.loop.iterations := by
  have start : machine.Reachable (construct 0 : EventLoopThread Nat) := .initial ⟨0,rfl⟩
  exact ⟨_,start.follow stopBeforeRun (by decide +kernel),by decide +kernel,by decide +kernel,by decide +kernel⟩

/-! ### A loop that has ended -/

/-- `EventLoopThread::Stop` is entered once. `EventLoop::Stop` is called by nobody else
from its assertions to its own call, nor after `Run` has stored `kStopped`. -/
def StopsInTime (s : EventLoopThread F) : Action F → Prop
  | .loop (.stop _) => s.hasReturned = false ∧
    ∀ t ∈ s.entered, s.stoppers t ≠ some .storeStopping ∧ s.stoppers t ≠ some .callStop
  | .stop _ => s.entered = []
  | _ => True

instance (s : EventLoopThread F) : (a : Action F) → Decidable (s.StopsInTime a)
  | .loop (.stop _) => inferInstanceAs (Decidable (_ ∧ ∀ _ ∈ _, _))
  | .stop _ => inferInstanceAs (Decidable (_ = []))
  | .startLoop | .run | .proceedStop _ | .loop .run | .loop (.advance _) | .loop (.queueInLoop _ _)
  | .loop (.runInLoop _ _) | .loop (.proceed _) | .loop .leave => inferInstanceAs (Decidable True)

/-- Stores of `kStopping` come before those of `kStopped`. -/
structure Ended (s : EventLoopThread F) : Prop where
  alone : ∀ t, s.stoppers t ≠ none → s.entered = [t]
  before : ∀ t, s.stoppers t = some .storeStopping ∨ s.stoppers t = some .callStop → s.loop.status = .kRunning
  loop : s.hasReturned = true → s.loop.status = .kStopped
  thread : s.body = .reset ∨ s.body = .destroyLoop → s.status = .kStopped

theorem hasReturned_of_left (left : s.body = .reset ∨ s.body = .destroyLoop) : s.hasReturned = true := by
  rcases left with body | body <;> simp [hasReturned,body]

/-- Before the call of `EventLoop::Stop` the loop goes on. -/
theorem Ended.going (inv : s.Ended) (early : s.stoppers t = some .storeStopping ∨ s.stoppers t = some .callStop) :
    s.hasReturned = false := by
  by_contra late
  have stopped := inv.loop (by simpa using late)
  simp [inv.before t early] at stopped

theorem Ended.alone_of (inv : s.Ended) (before : s.stoppers t = some position) (next : Option StopPosition) :
    ∀ t', Function.update s.stoppers t next t' ≠ none → s.entered = [t'] := by
  intro t' entry
  by_cases same : t' = t
  · subst same
    exact inv.alone t' (by simp [before])
  · exact inv.alone t' (by simpa [same] using entry)

/-- A request that comes in time leaves a loop that goes on. -/
theorem Ended.stopLoop (inv : s.Ended) (body : u.body = s.body) (loop : u.loop = s.loop.stop t)
    (status : u.status = s.status) (going : s.hasReturned = false)
    (alone : ∀ t, u.stoppers t ≠ none → u.entered = [t])
    (after : ∀ t, u.stoppers t ≠ some .storeStopping ∧ u.stoppers t ≠ some .callStop) : u.Ended where
  alone := alone
  before := fun t position => absurd position (not_or.mpr (after t))
  loop := by
    have same : u.hasReturned = s.hasReturned := by simp only [hasReturned,body,loop]; rfl
    simp [same,going]
  thread := by simpa only [body,status] using inv.thread

theorem Ended.advance (inv : s.Ended) (stoppers : u.stoppers = s.stoppers) (entered : u.entered = s.entered)
    (status : s.loop.status = .kRunning → u.loop.status = .kRunning) (going : u.hasReturned = false) : u.Ended where
  alone := by simpa only [stoppers,entered] using inv.alone
  before := by
    rw [stoppers]
    exact fun t early => status (inv.before t early)
  loop := by simp [going]
  thread := fun left => by simp [hasReturned_of_left left] at going

theorem Ended.course (inv : s.Ended) (placed : s.Placed) (course : s.loop.Course after a) (going : ∀ t, a ≠ .stop t) :
    Ended { s with loop := after } := by
  cases course with
  | @stop t => exact absurd rfl (going t)
  | keep position status _ _ =>
    have same : hasReturned { s with loop := after } = s.hasReturned := hasReturned_setLoop position
    exact ⟨inv.alone,by simpa only [status] using inv.before,by simpa only [same,status] using inv.loop,inv.thread⟩
  | starting before position =>
    have body := placed.looping (by simp [before])
    have idle := placed.early (by simp [hasStarted,body,before])
    exact inv.advance rfl rfl (fun runs => absurd runs idle) (by simp [hasReturned,body,position])
  | running before position status =>
    have body := placed.looping (by simp [before])
    exact inv.advance rfl rfl (fun _ => status) (by simp [hasReturned,body,Position.of_iterates position])
  | pass before _ position status =>
    have body := placed.looping (Position.of_iterates before).1
    exact inv.advance rfl rfl (fun runs => status.trans runs) (by simp [hasReturned,body,Position.of_iterates position])
  | exit before _ position status =>
    have body := placed.looping (Position.of_iterates before).1
    exact inv.advance rfl rfl (fun runs => status.trans runs) (by simp [hasReturned,body,position])
  | ended before _ status =>
    exact ⟨inv.alone,fun t early => absurd (inv.before t early) (placed.ending before),fun _ => status,inv.thread⟩

theorem Ended.change (inv : s.Ended) (placed : s.Placed) (inTime : s.StopsInTime a)
    (change : Change s a u) : u.Ended := by
  cases change with
  | storeStarting starter =>
    have body := placed.unborn (.inl starter)
    exact ⟨inv.alone,inv.before,inv.loop,by simp [body]⟩
  | released => exact ⟨inv.alone,inv.before,inv.loop,inv.thread⟩
  | spawn | initialized | notify | callRun => exact inv.advance rfl rfl id (by simp [hasReturned])
  | construct body =>
    have idle := placed.early (by simp [hasStarted,body])
    exact inv.advance rfl rfl (fun runs => absurd runs idle) (by simp [hasReturned])
  | returned body position =>
    exact ⟨inv.alone,inv.before,fun _ => inv.loop (by simp [hasReturned,body,position]),by simp⟩
  | asserted body => exact ⟨inv.alone,inv.before,fun _ => inv.loop (by simp [hasReturned,body]),by simp⟩
  | storeStopped body => exact ⟨inv.alone,inv.before,fun _ => inv.loop (by simp [hasReturned,body]),fun _ => rfl⟩
  | reset body =>
    exact ⟨inv.alone,inv.before,fun _ => inv.loop (by simp [hasReturned,body]),fun _ => inv.thread (.inl body)⟩
  | @stop t _ _ runs =>
    have first : s.entered = [] := inTime
    refine ⟨fun t' entry => ?_,fun _ _ => runs,inv.loop,inv.thread⟩
    by_cases same : t' = t
    · simp [same,first]
    · have other := inv.alone t' (by simpa [setStopper,same] using entry)
      simp [first] at other
  | @storeStopping t before =>
    have runs := inv.before t (.inl before)
    refine ⟨inv.alone_of before _,fun _ _ => runs,inv.loop,fun left => ?_⟩
    have going := inv.going (.inl before)
    simp [hasReturned_of_left (s := s) left] at going
  | @callStop t before =>
    refine inv.stopLoop rfl rfl rfl (inv.going (.inr before)) (inv.alone_of before _) fun t' => ?_
    by_cases same : t' = t
    · simp [setStopper,same]
    · -- the other thread would be the one that entered
      have only := inv.alone t (by simp [before])
      have none : s.stoppers t' = none := by
        by_contra entry
        have other := inv.alone t' entry
        simp only [only,List.cons.injEq,and_true] at other
        exact same other.symm
      simp [setStopper,same,none]
  | @stopped t before | @waited t before | @joined t before =>
    refine ⟨inv.alone_of before _,fun t' position => ?_,inv.loop,inv.thread⟩
    by_cases same : t' = t
    · simp [setStopper,same] at position
    · exact inv.before t' (by simpa [setStopper,same] using position)
  | @loop a after may held change =>
    obtain ⟨course,-⟩ := change.course (by rintro rfl; exact may)
    by_cases stops : ∃ t, a = .stop t
    · obtain ⟨t,rfl⟩ := stops
      cases change with
      | stop =>
        obtain ⟨going,free⟩ := inTime
        refine inv.stopLoop rfl rfl rfl going inv.alone fun t' => ?_
        by_cases entry : s.stoppers t' = none
        · simp [entry]
        · exact free t' (by simp [inv.alone t' entry])
    · exact inv.course placed course fun t same => stops ⟨t,same⟩

theorem reachable_ended (reachable : (machine.restrict StopsInTime).Reachable s) : s.Ended := by
  refine reachable.invariant_with (fun s first => ?_) (fun s before => reachable_placed before.of_restrict)
    fun s a u placed inv enabled stepped => inv.change placed enabled.2 (step_change enabled.1 u stepped)
  obtain ⟨tid,rfl⟩ := first
  exact ⟨by simp [construct],by simp [construct],by simp [construct,hasReturned],by simp [construct]⟩

theorem Placed.held_of_running (placed : s.Placed) (running : s.status = .kRunning) : s.held = true := by
  by_contra lost
  have after := placed.running running
  rcases placed.alive (by simpa using lost) with body | body | body <;> simp [body,ThreadPosition.afterNotify] at after

theorem Ended.held (inv : s.Ended) (placed : s.Placed) (before : s.stoppers t = some .callStop) : s.held = true := by
  have runs := inv.before t (.inr before)
  by_contra lost
  rcases placed.alive (by simpa using lost) with body | body | body
  · exact placed.early (by simp [hasStarted,body]) runs
  · exact placed.early (by simp [hasStarted,body]) runs
  · have going := inv.going (.inr before)
    simp [hasReturned,body] at going

/-- The failures of a thread that finds its loop or itself not stopped, or its loop gone. -/
def endsBadly : Fault → Bool
  | .assertion .eventLoopThreadRun | .assertion .eventLoopDestructor | .nullPointer => true
  | _ => false

theorem not_bad (harmless : endsBadly fault = false) (bad : endsBadly e = true) : fault ≠ e := by
  rintro rfl
  simp [bad] at harmless

theorem Ended.run_safe (inv : s.Ended) (placed : s.Placed) (bad : endsBadly e = true) : Never e s.run := by
  rw [EventLoopThread.run]
  split
  · exact .ok
  · exact .ok
  · exact .ok
  · exact ((check_never (not_bad rfl bad)).bind fun _ _ => .ok).bind fun _ _ => .ok
  · exact .ok
  · rename_i body
    have stopped := inv.loop (by simp [hasReturned,body])
    simp only [assert_of stopped,ok_bind]
    exact .ok
  · exact .ok
  · exact .ok
  · rename_i body
    have stopped := inv.loop (by simp [hasReturned,body])
    rw [EventLoop.destroy_eq,assert_of stopped,check_of placed.tid.symm]
    have other : Fault.assertion .channelDestructor ≠ e := not_bad rfl bad
    exact fun failed => other (Except.error.inj failed)
  · exact .ok
  · exact .ok

theorem EventLoop.step_safe {s : EventLoop F} (bad : endsBadly e = true) (a : EventLoop.Action F) :
    Never e (s.step a) := by
  cases a with
  | run => exact (check_never (not_bad rfl bad)).bind fun _ _ => .ok
  | _ => exact .ok

theorem Ended.step_safe (inv : s.Ended) (placed : s.Placed) (bad : endsBadly e = true) (a : Action F) :
    Never e (s.step a) := by
  cases a with
  | startLoop =>
    simp only [step,startLoop]
    split
    · exact .ok
    · exact (check_never (not_bad rfl bad)).bind fun _ _ => .ok
    · exact .ok
    · exact .ok
  | run => exact inv.run_safe placed bad
  | loop a =>
    exact (check_never (not_bad rfl bad)).bind fun _ _ => (EventLoop.step_safe bad a).bind fun _ _ => .ok
  | stop t =>
    refine (check_never (not_bad rfl bad)).bind fun _ passed => ?_
    have held := placed.held_of_running (assert_ok_iff.mp passed)
    simp only [isRunning,eventLoop,check_of held,ok_bind,pure_eq_ok]
    exact (check_never (not_bad rfl bad)).bind fun _ _ => .ok
  | proceedStop t =>
    simp only [step,proceedStop]
    split
    · exact .ok
    · exact .ok
    · rename_i before
      simp only [eventLoop,check_of (inv.held placed before),ok_bind,pure_eq_ok]
      exact .ok
    · exact .ok
    · exact .ok
    · exact .ok

/-- Once the loop thread has stored `kStopped` into the status of the loop, or into its
own, the variable keeps it: a thread in `EventLoopThread::Stop` gets out of its wait, it
does not call `Stop` on a loop that was reset, and no assertion that a status is
`kStopped` fails. -/
theorem stopped_stays_stopped (reachable : (machine.restrict StopsInTime).Reachable s) :
    (s.hasReturned = true → s.loop.status = .kStopped) ∧
    (s.body = .reset ∨ s.body = .destroyLoop ∨ s.body = .finished → s.status = .kStopped ∧ s.destroy = .ok () ∧
      ∀ t, s.stoppers t = some .wait → s.enabled (.proceedStop t)) ∧
    (∀ t, s.stoppers t = some .callStop → s.held = true) ∧
    ∀ a e, endsBadly e = true → s.step a ≠ .error e := by
  have inv := reachable_ended reachable
  have placed := reachable_placed reachable.of_restrict
  refine ⟨inv.loop,fun left => ?_,fun t before => inv.held placed before,fun a e bad => inv.step_safe placed bad a⟩
  have stopped := inv.thread (left.imp_right fun later => later.resolve_right placed.unfinished)
  exact ⟨stopped,assert_of stopped,fun t waits => ⟨by simp [waits],by simp [waits],fun _ => stopped,by simp [waits]⟩⟩

/-- Thread 1 stops the loop by `EventLoopThread::Stop`, thread 2 once more when that call
has been made, and the loop ends. -/
def stopThread : List (Action Nat) :=
  List.flatten [started,[.run],turns 3,[.stop 1,.proceedStop 1,.proceedStop 1,.loop (.stop 2),.loop (.proceed 1),
    .loop (.proceed 2),.proceedStop 1,.loop (.advance [.wakeup])],turns 8,[.run,.run,.run,.run]]

theorem stopped_stays_stopped_thread : let s := stopThread.foldl machine.advance (construct 0)
    s.body = .destroyLoop ∧ s.stoppers 1 = some .wait ∧ s.status = .kStopped ∧ s.enabled (.proceedStop 1) := by
  have start : (machine.restrict StopsInTime).Reachable (construct 0 : EventLoopThread Nat) := .initial ⟨0,rfl⟩
  have reachable := start.follow stopThread (by decide +kernel)
  rw [Machine.restrict_advance] at reachable
  have body : (stopThread.foldl machine.advance (construct 0)).body = .destroyLoop := by decide +kernel
  have waits : (stopThread.foldl machine.advance (construct 0)).stoppers 1 = some .wait := by decide +kernel
  obtain ⟨-,left,-⟩ := stopped_stays_stopped reachable
  obtain ⟨status,-,released⟩ := left (.inr (.inl body))
  exact ⟨body,waits,status,released 1 waits⟩

/-- A thread enters `EventLoopThread::Stop`, and the loop ends by a `Stop` from elsewhere
before the thread goes on. -/
def stopTwice : List (Action Nat) :=
  List.flatten [started,[.run],turns 3,[.stop 1,.loop (.stop 2),.loop (.proceed 2),.loop (.advance [.wakeup])],turns 8,
    [.run,.run,.run,.proceedStop 1,.proceedStop 1]]

/-- A `Stop` that comes after the last store of the loop. -/
def stopEnded : List (Action Nat) :=
  List.flatten [started,[.run],turns 2,[.loop (.stop 2),.loop (.proceed 2)],turns 2,[.loop (.stop 3),.run]]

/-- The thread has stored `kStopped`, its status and that of its loop are `kStopping`, and
the assertion of `~EventLoop` is going to fail; or the loop has stored `kStopped`, its
status is `kStopping`, and the thread's assertion fails. -/
theorem stopped_is_overwritten :
    (∃ s u : EventLoopThread Nat, machine.Reachable s ∧ s.body = .reset ∧ s.status = .kStopping ∧
      s.loop.status = .kStopping ∧ machine.step s .run = .ok u ∧
      machine.step u .run = .error (.assertion .eventLoopDestructor)) ∧
    ∃ s : EventLoopThread Nat, machine.Reachable s ∧ s.hasReturned = true ∧ s.loop.status = .kStopping ∧
      machine.enabled s .run ∧ machine.step s .run = .error (.assertion .eventLoopThreadRun) := by
  have start : machine.Reachable (construct 0 : EventLoopThread Nat) := .initial ⟨0,rfl⟩
  refine ⟨⟨_,_,start.follow stopTwice (by decide +kernel),by decide +kernel,by decide +kernel,by decide +kernel,rfl,
    Machine.step_failure (by decide +kernel)⟩,?_⟩
  exact ⟨_,start.follow stopEnded (by decide +kernel),by decide +kernel,by decide +kernel,by decide +kernel,
    Machine.step_failure (by decide +kernel)⟩

end EventLoopThread
end Evk
