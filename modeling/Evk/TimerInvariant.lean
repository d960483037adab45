import Evk.TimerOwnership

/-! The invariant of the timer machine, and what each of its steps can do. Later results
read the four kinds of `Effect` and never unfold a step. -/
namespace Evk.TimerLoop

open TimerQueue Relation

structure Inv (s : TimerLoop) : Prop where
  owns : s.queue.Owns s.phase.batch s.queuedAdds
  ledger : s.queue.Ledger s.numCreated s.issued
  calling : s.queue.isCallingExpiredTimers = !s.phase.isIdle
  insertedBefore : ∀ n ∈ s.inserted, n < s.numCreated
  awaiting : ∀ a t, s.queue.heap a = some t → (t.created ∈ s.inserted ↔ a ∉ s.queuedAdds)
  cancels : ∀ e ∈ s.phase.batch, ∀ t, s.queue.heap (addr e) = some t →
    (activeTimer (addr e) t ∈ s.queue.cancelingTimers ↔ activeTimer (addr e) t ∈ s.cancelled)

/-- The pieces of the steps that leave the batch alone. What stands in the functor queue
matters only through the insertions in it. -/
inductive Quiet : TimerLoop → TimerLoop → Prop where
  | create (functors pendingFunctors : List TimerFunctor) (fresh : s.Fresh a)
      (adds : { s.newTimer a when interval with functors, pendingFunctors }.queuedAdds.Perm (a :: s.queuedAdds)) :
      Quiet s { s.newTimer a when interval with functors, pendingFunctors }
  | elsewhere : Quiet s { s with numCreated := s.numCreated + 1 }
  | requeue (functors pendingFunctors : List TimerFunctor)
      (adds : { s with functors, pendingFunctors }.queuedAdds = s.queuedAdds) :
      Quiet s { s with functors, pendingFunctors }
  | insert (functors : List TimerFunctor) (clock : Int) (live : s.queue.heap a = some t)
      (adds : s.queuedAdds.Perm (a :: { s with functors }.queuedAdds)) :
      Quiet s { s with functors, queue := s.queue.added clock a t, inserted := s.inserted ++ [t.created] }
  | cancel (live : s.queue.heap a = some t) (member : entry a t ∈ s.queue.timers) :
      Quiet s { s with
        queue := s.queue.unscheduling a t, cancelled := s.cancelled ++ [activeTimer a t] }
  | defer (id : InvokeTimerID) (missing : id ∉ s.queue.activeTimers) :
      Quiet s { s with queue := s.queue.deferring id, cancelled := s.cancelled ++ [id] }

inductive Effect (s : TimerLoop) : Action → TimerLoop → Prop where
  | quiet (other : (∀ now, act ≠ .handleRead now) ∧ act ≠ .onTimerTriggered ∧ ∀ clock, act ≠ .endHandleRead clock)
      (pieces : ReflTransGen Quiet s t) : Effect s act t
  | read (timers : OrderedSet Entry) (activeTimers : OrderedSet ActiveTimer) (idle : s.phase = .idle)
      (owns : { s.queue with timers, activeTimers }.Owns (s.queue.due now) s.queuedAdds)
      (members : ∀ e, e ∈ timers ↔ e ∈ s.queue.timers ∧ now < (ofLex e).1) :
      Effect s (.handleRead now) { s with
        queue := { s.queue with
          timers, activeTimers, isCallingExpiredTimers := true, cancelingTimers := .empty, armings := [] }
        phase := .calling now [] (s.queue.due now)
        cancelled := [] }
  | call (called waiting : List Entry) (phase : s.phase = .calling now called (entry a t :: waiting))
      (live : s.queue.heap a = some t) :
      Effect s .onTimerTriggered { s with
        phase := .calling now (called ++ [entry a t]) waiting, fired := s.fired ++ [t.firing now] }
  | finish (timers : OrderedSet Entry) (activeTimers : OrderedSet ActiveTimer) (called : List Entry)
      (deleted : List Nat) (phase : s.phase = .calling now called [])
      (owns : { s.queue with timers, activeTimers, heap := s.queue.resetHeap now called }.Owns [] s.queuedAdds)
      (ledger : { s.queue with heap := s.queue.resetHeap now called, deleted }.Ledger s.numCreated s.issued)
      (members : ∀ e, e ∈ timers ↔ e ∈ s.queue.timers ∨ ∃ a t u, entry a t ∈ called ∧
        s.queue.heap a = some t ∧ s.queue.kept now a t = some u ∧ e = entry a u) :
      Effect s (.endHandleRead clock) { s with
        queue := rearmed clock { s.queue with
          timers, activeTimers, deleted, isCallingExpiredTimers := false
          heap := s.queue.resetHeap now called }
        phase := .idle }

variable {s s' : TimerLoop}

theorem Inv.batch_live (inv : s.Inv) (member : e ∈ s.phase.batch) :
    ∃ t, s.queue.heap (addr e) = some t ∧ e = entry (addr e) t := by
  obtain ⟨a,t,live,rfl⟩ := inv.owns.keyed e member
  exact ⟨t,live,rfl⟩

theorem Inv.batch_apart (inv : s.Inv) (member : e ∈ s.phase.batch) : ¬s.queue.Scheduled (addr e) :=
  inv.owns.apart _ (List.mem_append_left _ (List.mem_map.mpr ⟨e,member,rfl⟩))

theorem inv_construct : construct.Inv := by
  constructor
  · constructor <;> simp [construct,TimerQueue.construct,Phase.batch,queuedAdds]
    exact ⟨by simp,by simp,rfl⟩
  · constructor <;> simp [construct,TimerQueue.construct]
  · rfl
  · simp [construct]
  · simp [construct,TimerQueue.construct]
  · simp [construct,Phase.batch]

theorem Inv.create (inv : s.Inv) (fresh : s.Fresh a) (functors pendingFunctors : List TimerFunctor)
    (adds : { s.newTimer a when interval with functors, pendingFunctors }.queuedAdds.Perm (a :: s.queuedAdds)) :
    { s.newTimer a when interval with functors, pendingFunctors }.Inv := by
  have member : ∀ b, b ∈ { s.newTimer a when interval with functors, pendingFunctors }.queuedAdds ↔
    b = a ∨ b ∈ s.queuedAdds := fun b => by rw [adds.mem_iff,List.mem_cons]
  constructor
  · exact (inv.owns.new fresh.1 fresh.2 _).perm adds.symm
  · exact inv.ledger.new a rfl
  · exact inv.calling
  · exact fun n member => (inv.insertedBefore n member).trans (Nat.lt_succ_self _)
  · intro b u live
    rw [member]
    rcases of_update_some live with ⟨rfl,rfl⟩ | ⟨differ,before⟩
    · have new : s.numCreated ∉ s.inserted := fun old => Nat.lt_irrefl _ (inv.insertedBefore _ old)
      simpa [newTimer,InvokeTimer.construct] using new
    · simpa [differ,newTimer] using inv.awaiting b u before
  · intro e inside u live
    obtain ⟨v,there,-⟩ := inv.batch_live inside
    rcases of_update_some live with ⟨eq,-⟩ | ⟨-,before⟩
    · rw [eq,fresh.1] at there
      cases there
    · exact inv.cancels e inside u before

theorem Inv.insert (inv : s.Inv) (functors : List TimerFunctor) (clock : Int) (live : s.queue.heap a = some t)
    (adds : s.queuedAdds.Perm (a :: { s with functors }.queuedAdds)) :
    { s with functors, queue := s.queue.added clock a t, inserted := s.inserted ++ [t.created] }.Inv := by
  have owns := (inv.owns.perm adds).added clock live
  obtain ⟨out,-⟩ := List.nodup_cons.mp (List.nodup_append'.mp (inv.owns.perm adds).distinct).2.1
  obtain ⟨armings,shape⟩ := added_cases clock a t s.queue
  rw [shape] at owns ⊢
  constructor
  · exact owns
  · exact inv.ledger.frame rfl rfl
  · exact inv.calling
  · intro n member
    rcases List.mem_append.mp member with member | last
    · exact inv.insertedBefore n member
    · exact List.mem_singleton.mp last ▸ inv.ledger.numbered a t live
  · intro b u there
    have before := inv.awaiting b u there
    rw [adds.mem_iff,List.mem_cons,not_or] at before
    simp only [List.mem_append,List.mem_singleton]
    by_cases eq : b = a
    · subst eq
      obtain rfl : t = u := Option.some.inj (live.symm.trans there)
      exact ⟨fun _ => out,fun _ => .inr rfl⟩
    · have other : u.created ≠ t.created := fun same => eq (inv.ledger.separate b u a t there live same)
      exact (or_iff_left other).trans (before.trans (and_iff_right eq))
  · exact inv.cancels

theorem Inv.cancel (inv : s.Inv) (live : s.queue.heap a = some t) (member : entry a t ∈ s.queue.timers) :
    { s with queue := s.queue.unscheduling a t, cancelled := s.cancelled ++ [activeTimer a t] }.Inv := by
  constructor
  · exact inv.owns.unscheduling live member
  · exact (inv.ledger.delete live).frame rfl rfl
  · exact inv.calling
  · exact inv.insertedBefore
  · exact fun b u there => inv.awaiting b u (of_update_none there).2
  · intro e inside u there
    have apart : addr e ≠ a := by
      rintro rfl
      exact inv.batch_apart inside ⟨t,live,member⟩
    have other : activeTimer (addr e) u ≠ activeTimer a t := fun eq => apart (activeTimer_inj.mp eq).1
    simpa [other,unscheduling] using inv.cancels e inside u (of_update_none there).2

theorem Inv.defer (inv : s.Inv) (id : InvokeTimerID) :
    { s with queue := s.queue.deferring id, cancelled := s.cancelled ++ [id] }.Inv := by
  have owns := inv.owns.deferring id
  by_cases idle : s.phase.isIdle = true
  · have calling : s.queue.isCallingExpiredTimers = false := by rw [inv.calling,idle]; rfl
    have same : s.queue.deferring id = s.queue := by simp [deferring,calling]
    have empty : s.phase.batch = [] := by
      cases phase : s.phase with
      | idle => rfl
      | calling => simp [phase,Phase.isIdle] at idle
    rw [same]
    refine ⟨inv.owns,inv.ledger,inv.calling,inv.insertedBefore,inv.awaiting,?_⟩
    simp [empty]
  · have calling : s.queue.isCallingExpiredTimers = true := by simp [inv.calling,idle]
    have shape : s.queue.deferring id =
        { s.queue with cancelingTimers := s.queue.cancelingTimers.insert id } := by simp [deferring,calling]
    rw [shape] at owns ⊢
    refine ⟨owns,inv.ledger.frame rfl rfl,inv.calling,inv.insertedBefore,inv.awaiting,fun e inside u there => ?_⟩
    have before := inv.cancels e inside u there
    simp only [OrderedSet.mem_insert,List.mem_append,List.mem_singleton,before]
    tauto

theorem Inv.quiet (inv : s.Inv) (piece : Quiet s s') : s'.Inv := by
  cases piece with
  | create functors pendingFunctors fresh adds => exact inv.create fresh functors pendingFunctors adds
  | elsewhere =>
    exact ⟨inv.owns,inv.ledger.createElsewhere,inv.calling,
      fun n member => (inv.insertedBefore n member).trans (Nat.lt_succ_self _),inv.awaiting,inv.cancels⟩
  | requeue functors pendingFunctors adds =>
    exact ⟨adds ▸ inv.owns,inv.ledger,inv.calling,inv.insertedBefore,adds ▸ inv.awaiting,inv.cancels⟩
  | insert functors clock live adds => exact inv.insert functors clock live adds
  | cancel live member => exact inv.cancel live member
  | defer id missing => exact inv.defer id

theorem Inv.quiets (inv : s.Inv) (pieces : ReflTransGen Quiet s s') : s'.Inv := by
  induction pieces with
  | refl => exact inv
  | tail _ piece ih => exact ih.quiet piece

theorem Inv.read (inv : s.Inv) (timers : OrderedSet Entry) (activeTimers : OrderedSet ActiveTimer)
    (owns : { s.queue with timers, activeTimers }.Owns (s.queue.due now) s.queuedAdds) :
    { s with
      queue := { s.queue with
        timers, activeTimers, isCallingExpiredTimers := true, cancelingTimers := .empty, armings := [] }
      phase := .calling now [] (s.queue.due now)
      cancelled := [] }.Inv := by
  refine ⟨owns.frame rfl rfl rfl,inv.ledger.frame rfl rfl,rfl,inv.insertedBefore,inv.awaiting,?_⟩
  intro e inside t live
  simp

/-- Every timer `Reset` keeps was in the heap before, under the same number. -/
theorem of_resetHeap (there : s.queue.resetHeap now called a = some u) :
    ∃ t, s.queue.heap a = some t ∧ t.created = u.created := by
  rw [resetHeap] at there
  split at there
  · obtain ⟨t,live,again⟩ := Option.bind_eq_some_iff.mp there
    refine ⟨t,live,?_⟩
    rw [kept] at again
    split at again
    · rw [← Option.some.inj again]
      rfl
    · cases again
  · exact ⟨u,there,rfl⟩

theorem Inv.effect (inv : s.Inv) (effect : Effect s act s') : s'.Inv := by
  cases effect with
  | quiet other pieces => exact inv.quiets pieces
  | read timers activeTimers idle owns members => exact inv.read timers activeTimers owns
  | @call now a t called waiting phase live =>
    have batch : s.phase.batch = (Phase.calling now (called ++ [entry a t]) waiting).batch := by
      simp [phase,Phase.batch]
    refine ⟨batch ▸ inv.owns,inv.ledger,?_,inv.insertedBefore,inv.awaiting,batch ▸ inv.cancels⟩
    rw [inv.calling,phase]
    rfl
  | @finish now clock timers activeTimers called deleted phase owns ledger members =>
    obtain ⟨armings,shape⟩ := rearmed_cases clock { s.queue with
      timers, activeTimers, deleted, isCallingExpiredTimers := false
      heap := s.queue.resetHeap now called }
    rw [shape]
    refine ⟨owns.frame rfl rfl rfl,ledger.frame rfl rfl,rfl,inv.insertedBefore,?_,by simp [Phase.batch]⟩
    intro a u there
    obtain ⟨t,live,number⟩ := of_resetHeap there
    exact number ▸ inv.awaiting a t live

theorem cancelInLoop_eq {id : InvokeTimerID} {queue : TimerQueue} (ran : s.queue.cancelInLoop id = .ok queue) :
    s.cancelInLoop id = .ok { s with queue, cancelled := s.cancelled ++ [id] } := by
  simp [TimerLoop.cancelInLoop,ran]

theorem Inv.cancelInLoop (inv : s.Inv) (id : InvokeTimerID) :
    ∃ s', s.cancelInLoop id = .ok s' ∧ Quiet s s' := by
  rcases cancelInLoop_spec inv.owns.wf id with ⟨a,t,live,rfl,member,done⟩ | ⟨missing,done⟩
  · exact ⟨_,cancelInLoop_eq done,.cancel live member⟩
  · exact ⟨_,cancelInLoop_eq done,.defer id missing⟩

theorem Inv.addTimerInLoop (inv : s.Inv) (functors : List TimerFunctor)
    (adds : s.queuedAdds.Perm (a :: { s with functors }.queuedAdds)) (clock : Int) :
    ∃ s', { s with functors }.addTimerInLoop clock a = .ok s' ∧ Quiet s s' := by
  have owns := inv.owns.perm adds
  obtain ⟨t,live⟩ := owns.awaited a (by simp)
  have done := addTimerInLoop_spec clock owns.wf live (owns.apart a (by simp))
  exact ⟨_,by simp [TimerLoop.addTimerInLoop,deref_of live,done],.insert functors clock live adds⟩

theorem Inv.runFunctor (inv : s.Inv) (clock : Int) :
    ∃ s', s.runFunctor clock = .ok s' ∧ ReflTransGen Quiet s s' := by
  cases run : s.functors with
  | nil => exact ⟨s,by simp [TimerLoop.runFunctor,run],.refl⟩
  | cons functor functors =>
    cases functor with
    | addTimerInLoop a =>
      have adds : s.queuedAdds.Perm (a :: { s with functors }.queuedAdds) := by simp [queuedAdds,run]
      obtain ⟨s',done,piece⟩ := inv.addTimerInLoop functors adds clock
      exact ⟨s',by simpa [TimerLoop.runFunctor,run] using done,.single piece⟩
    | cancelInLoop id =>
      have popped : Quiet s { s with functors } :=
        .requeue functors s.pendingFunctors (by simp [queuedAdds,run])
      obtain ⟨s',done,piece⟩ := (inv.quiet popped).cancelInLoop id
      exact ⟨s',by simpa [TimerLoop.runFunctor,run] using done,.head popped (.single piece)⟩

/-- Every enabled action succeeds, with one of the four effects. -/
theorem Inv.step (inv : s.Inv) (enabled : s.enabled act) : ∃ s', s.step act = .ok s' ∧ Effect s act s' := by
  have quiet : ∀ {act : Action}, ((∀ now, act ≠ .handleRead now) ∧ act ≠ .onTimerTriggered ∧
      ∀ clock, act ≠ .endHandleRead clock) → (∃ s', s.step act = .ok s' ∧ ReflTransGen Quiet s s') →
      ∃ s', s.step act = .ok s' ∧ Effect s act s' := by
    rintro act other ⟨s',done,pieces⟩
    exact ⟨s',done,.quiet other pieces⟩
  cases act with
  | addTimer a when interval clock =>
    refine quiet (by simp) ?_
    have created : Quiet s { s.newTimer a when interval with functors := .addTimerInLoop a :: s.functors } :=
      .create _ s.pendingFunctors enabled.1 (.refl _)
    obtain ⟨s',done,piece⟩ := (inv.quiet created).addTimerInLoop s.functors (.refl _) clock
    exact ⟨s',done,.head created (.single piece)⟩
  | cancel id =>
    obtain ⟨s',done,piece⟩ := inv.cancelInLoop id
    exact quiet (by simp) ⟨s',done,.single piece⟩
  | queueAddTimer a when interval =>
    refine quiet (by simp) ⟨_,rfl,.single (.create s.functors _ enabled ?_)⟩
    simp only [queuedAdds,newTimer,List.filterMap_append,List.filterMap_cons,List.filterMap_nil,
      ← List.append_assoc]
    exact List.perm_append_singleton a _
  | queueCancel id =>
    exact quiet (by simp) ⟨_,rfl,.single (.requeue _ _ (by simp [queuedAdds]))⟩
  | createElsewhere => exact quiet (by simp) ⟨_,rfl,.single .elsewhere⟩
  | doPendingFunctors =>
    exact quiet (by simp) ⟨_,rfl,.single (.requeue _ _ (by simp [queuedAdds,enabled.2]))⟩
  | runFunctor clock => exact quiet (by simp) (inv.runFunctor clock)
  | handleRead now =>
    have idle := Phase.eq_idle enabled.1
    have owns : s.queue.Owns [] s.queuedAdds := by simpa [idle,Phase.batch] using inv.owns
    obtain ⟨timers,activeTimers,done,expired,members⟩ := beginHandleRead_spec owns now
    exact ⟨_,by simp [TimerLoop.step,TimerLoop.handleRead,done],.read timers activeTimers idle expired members⟩
  | onTimerTriggered =>
    cases phase : s.phase with
    | idle => simp [TimerLoop.enabled,phase,Phase.waiting] at enabled
    | calling now called waiting =>
      cases waiting with
      | nil => simp [TimerLoop.enabled,phase,Phase.waiting] at enabled
      | cons it waiting =>
        obtain ⟨a,t,live,rfl⟩ := inv.owns.keyed it (by simp [phase,Phase.batch])
        have address : (ofLex (entry a t)).2 = a := rfl
        exact ⟨_,by simp [TimerLoop.step,TimerLoop.onTimerTriggered,phase,address,deref_of live],
          .call called waiting phase live⟩
  | endHandleRead clock =>
    cases phase : s.phase with
    | idle => simp [TimerLoop.enabled,phase,Phase.isIdle] at enabled
    | calling now called waiting =>
      obtain rfl : waiting = [] := by simpa [phase,Phase.waiting] using enabled.2
      have owns : s.queue.Owns called s.queuedAdds := by simpa [phase,Phase.batch] using inv.owns
      obtain ⟨timers,activeTimers,deleted,done,clean,books,members⟩ := endHandleRead_spec owns now clock
      exact ⟨_,by simp [TimerLoop.step,TimerLoop.endHandleRead,phase,done],
        .finish timers activeTimers called deleted phase clean (books inv.ledger) members⟩

theorem Inv.step_effect (inv : s.Inv) (enabled : s.enabled act) (stepped : s.step act = .ok s') :
    Effect s act s' := by
  obtain ⟨t,done,effect⟩ := inv.step enabled
  obtain rfl : t = s' := Except.ok.inj (done.symm.trans stepped)
  exact effect

theorem reachable_inv (reachable : machine.Reachable s) : s.Inv := by
  refine reachable.invariant (fun s first => ?_) fun s act s' inv enabled stepped =>
    inv.effect (inv.step_effect enabled stepped)
  obtain rfl : s = construct := first
  exact inv_construct

theorem Wf.same_timers {q : TimerQueue} (wf : q.Wf) (a : Address) :
    (∃ e ∈ q.timers, addr e = a) ↔ ∃ i ∈ q.activeTimers, (ofLex i).1 = a := by
  constructor
  · rintro ⟨e,member,rfl⟩
    obtain ⟨a,t,-,rfl,active⟩ := wf.keyed e member
    exact ⟨_,active,rfl⟩
  · rintro ⟨i,member,rfl⟩
    obtain ⟨a,t,-,rfl,entered⟩ := wf.listed i member
    exact ⟨_,entered,rfl⟩

theorem Wf.key_eq {q : TimerQueue} (wf : q.Wf) (member : e ∈ q.timers) :
    ∃ t, q.heap (addr e) = some t ∧ (ofLex e).1 = t.expiration := by
  obtain ⟨a,t,live,rfl,-⟩ := wf.keyed e member
  exact ⟨t,live,rfl⟩

/-- What the end of a batch makes of one of its timers. -/
theorem Inv.reset (inv : s.Inv) (phase : s.phase = .calling now called []) (member : e ∈ called)
    (stepped : s.step (.endHandleRead clock) = .ok s') : ∃ t, s.queue.heap (addr e) = some t ∧
      (t.repeats = true ∧ activeTimer (addr e) t ∉ s.cancelled →
        s'.queue.heap (addr e) = some (t.restart now) ∧ entry (addr e) (t.restart now) ∈ s'.queue.timers) ∧
      (t.repeats = false ∨ activeTimer (addr e) t ∈ s.cancelled → s'.queue.heap (addr e) = none) := by
  have inside : e ∈ s.phase.batch := by simpa [phase,Phase.batch] using member
  obtain ⟨t,live,eq⟩ := inv.batch_live inside
  have cancels := inv.cancels e inside t live
  have enabled : s.enabled (.endHandleRead clock) := by simp [TimerLoop.enabled,phase,Phase.isIdle,Phase.waiting]
  cases inv.step_effect enabled stepped with
  | quiet other => exact absurd rfl (other.2.2 clock)
  | @finish now' _ timers activeTimers called' deleted phase' owns ledger members =>
    obtain ⟨rfl,rfl⟩ : now = now' ∧ called = called' := by simpa [phase] using phase'
    obtain ⟨armings,shape⟩ := rearmed_cases clock { s.queue with
      timers, activeTimers, deleted, isCallingExpiredTimers := false
      heap := s.queue.resetHeap now called }
    have heap : s.queue.resetHeap now called (addr e) = s.queue.kept now (addr e) t := by
      simp only [resetHeap,List.mem_map.mpr ⟨e,member,rfl⟩,↓reduceIte,live,Option.bind_some]
    rw [shape]
    refine ⟨t,live,fun again => ?_,fun ends => ?_⟩
    · have kept : s.queue.kept now (addr e) t = some (t.restart now) := by
        simp [TimerQueue.kept,cancels,again]
      exact ⟨heap.trans kept,(members _).mpr (.inr ⟨addr e,t,_,eq ▸ member,live,kept,rfl⟩)⟩
    · have gone : ¬(t.repeats = true ∧ activeTimer (addr e) t ∉ s.cancelled) := by
        rcases ends with single | cancelled
        · simp [single]
        · simp [cancelled]
      exact heap.trans (by simp only [TimerQueue.kept,cancels,gone,↓reduceIte])

/-- Representation and ownership, in every reachable state: the two sets hold the same
timers, keyed by their current expirations and apart from the running batch; no step
fails an assertion or touches a dead timer; no timer is deleted twice; and the end of a
batch schedules its timers anew or deletes them. -/
theorem timer_queue_ownership (reachable : machine.Reachable s) :
    (∀ a, (∃ e ∈ s.queue.timers, addr e = a) ↔ ∃ i ∈ s.queue.activeTimers, (ofLex i).1 = a) ∧
    (∀ e ∈ s.queue.timers, ∃ t, s.queue.heap (addr e) = some t ∧ (ofLex e).1 = t.expiration) ∧
    (∀ e ∈ s.phase.batch, ∀ f ∈ s.queue.timers, addr f ≠ addr e) ∧
    (∀ act, s.enabled act → ∃ s', s.step act = .ok s') ∧
    s.queue.deleted.Nodup ∧ (∀ n ∈ s.queue.deleted, ∀ a t, s.queue.heap a = some t → t.created ≠ n) ∧
    ∀ now called clock s', s.phase = .calling now called [] → s.step (.endHandleRead clock) = .ok s' →
      ∀ e ∈ called, ∃ t, s.queue.heap (addr e) = some t ∧
        (t.repeats = true ∧ activeTimer (addr e) t ∉ s.cancelled →
          s'.queue.heap (addr e) = some (t.restart now) ∧ entry (addr e) (t.restart now) ∈ s'.queue.timers) ∧
        (t.repeats = false ∨ activeTimer (addr e) t ∈ s.cancelled → s'.queue.heap (addr e) = none) := by
  have inv := reachable_inv reachable
  refine ⟨Wf.same_timers inv.owns.wf,fun e => Wf.key_eq inv.owns.wf,?_,?_,inv.ledger.deletedOnce,
    fun n gone => (inv.ledger.dead n gone).2,fun now called clock s' phase stepped e member =>
      inv.reset phase member stepped⟩
  · intro e inside f member same
    exact inv.batch_apart inside (same ▸ inv.owns.wf.scheduled member)
  · intro act enabled
    obtain ⟨s',done,-⟩ := inv.step enabled
    exact ⟨s',done⟩

/-- A batch of two in which the first callback cancels both: the repeating timer and the
other one are deleted at its end. -/
theorem timer_queue_ownership_batch :
    let every : Interval := ⟨true,5,by decide⟩
    let once : Interval := ⟨false,0,by decide⟩
    let s := [.addTimer 8 10 every 3,.queueAddTimer 16 12 once,.doPendingFunctors,.runFunctor 4,.handleRead 12,
      .onTimerTriggered,.cancel (toLex (8,1)),.cancel (toLex (16,2)),.onTimerTriggered].foldl
        machine.advance construct
    machine.Reachable s ∧ ∃ s', s.step (.endHandleRead 13) = .ok s' ∧
      s'.queue.heap 8 = none ∧ s'.queue.heap 16 = none := by
  intro every once s
  have reachable : machine.Reachable s := Machine.Reachable.follow (.initial rfl) _ (by decide)
  have enabled : s.enabled (.endHandleRead 13) := by decide
  have phase : s.phase = .calling 12 [toLex (10,8),toLex (12,16)] [] := by decide
  have first : s.queue.heap 8 = some (.construct 0 10 every) := by decide
  have second : s.queue.heap 16 = some (.construct 1 12 once) := by decide
  have cancelled : s.cancelled = [toLex (8,1),toLex (16,2)] := by decide
  clear_value s
  obtain ⟨-,-,-,succeeds,-,-,ends⟩ := timer_queue_ownership reachable
  obtain ⟨s',stepped⟩ := succeeds (.endHandleRead 13) enabled
  have reset := ends 12 _ 13 s' phase stepped
  refine ⟨reachable,s',stepped,?_,?_⟩
  · obtain ⟨t,live,-,gone⟩ := reset (toLex (10,8)) (by simp)
    obtain rfl := Option.some.inj (first.symm.trans live)
    exact gone (.inr (by rw [cancelled]; decide))
  · obtain ⟨t,live,-,gone⟩ := reset (toLex (12,16)) (by simp)
    obtain rfl := Option.some.inj (second.symm.trans live)
    exact gone (.inl rfl)

end Evk.TimerLoop
