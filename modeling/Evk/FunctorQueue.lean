import Evk.EventLoop

/-! The queue of functors of one loop under every interleaving: in which order functors
run, when the loop thread has to be woken for them, and which of them a `Stop` leaves
behind. -/
namespace Evk
namespace Position

def willSwap : Position → Bool
  | .dispatch _ | .handle _ | .setCalling | .swap => true
  | _ => false

/-- A swap comes before the loop can end: outside `Run` with a start to come, or in an
iteration before its swap. -/
def leadsToSwap : Position → Bool
  | .outside | .storeStarting | .storeRunning | .poll | .dispatch _ | .handle _ | .setCalling | .swap => true
  | _ => false

/-- `is_calling_pending_functors_` is set. -/
def isBatch : Position → Bool
  | .swap | .call | .body | .clearCalling => true
  | _ => false

end Position

namespace EventLoop

variable {F : Type} {s u : EventLoop F}

def called (s : EventLoop F) : List (Queued F) := s.executed.map Prod.snd

/-- What was pushed has been called, is in the batch, or is pending, in this order. -/
structure InOrder (s : EventLoop F) : Prop where
  order : s.called ++ s.functors ++ s.pendingFunctors = s.pushed
  tickets : s.pushed.map Queued.ticket = List.range s.pushed.length
  earlier : ∀ run ∈ s.executed, run.2.round < run.1
  batch : ∀ q ∈ s.functors, q.round < s.rounds
  pending : ∀ q ∈ s.pendingFunctors, q.round ≤ s.rounds
  resting : s.position ≠ .call → s.position ≠ .body → s.functors = []

theorem InOrder.keep (inv : s.InOrder) (executed : u.executed = s.executed) (functors : u.functors = s.functors)
    (pending : u.pendingFunctors = s.pendingFunctors) (pushed : u.pushed = s.pushed) (rounds : u.rounds = s.rounds)
    (resting : u.position ≠ .call → u.position ≠ .body → s.functors = []) : u.InOrder where
  order := by simpa only [called,executed,functors,pending,pushed] using inv.order
  tickets := by simpa only [pushed] using inv.tickets
  earlier := by simpa only [executed] using inv.earlier
  batch := by simpa only [functors,rounds] using inv.batch
  pending := by simpa only [pending,rounds] using inv.pending
  resting := fun notCall notBody => functors.trans (resting notCall notBody)

theorem InOrder.push (inv : s.InOrder) : (s.queueInLoop t f).InOrder where
  order := by
    rw [queueInLoop,← List.append_assoc]
    exact congrArg (· ++ [_]) inv.order
  tickets := by simp [queueInLoop,inv.tickets,List.range_succ]
  earlier := inv.earlier
  batch := inv.batch
  pending := by
    intro q among
    rcases List.mem_append.mp among with old | new
    · exact inv.pending q old
    · rw [List.mem_singleton.mp new]
      exact Nat.le_refl _
  resting := inv.resting

theorem InOrder.swap (inv : s.InOrder) (position : s.position = .swap) :
    InOrder { s with
      functors := s.pendingFunctors, pendingFunctors := s.functors, rounds := s.rounds + 1, position := .call } := by
  have empty : s.functors = [] := inv.resting (by simp [position]) (by simp [position])
  exact {
    order := by simpa [called,empty] using inv.order
    tickets := inv.tickets
    earlier := inv.earlier
    batch := fun q among => Nat.lt_succ_of_le (inv.pending q among)
    pending := by simp [empty]
    resting := fun notCall => absurd rfl notCall }

theorem InOrder.call (inv : s.InOrder) (batch : s.functors = q :: rest) :
    InOrder { s with functors := rest, executed := s.executed ++ [(s.rounds,q)], position := .body } where
  order := by simpa [called,batch] using inv.order
  tickets := inv.tickets
  earlier := by
    intro run among
    rcases List.mem_append.mp among with old | new
    · exact inv.earlier run old
    · rw [List.mem_singleton.mp new]
      exact inv.batch q (by simp [batch])
  batch := fun q among => inv.batch q (by simp [batch,among])
  pending := inv.pending
  resting := fun _ notBody => absurd rfl notBody

theorem InOrder.change (inv : s.InOrder) (change : Change s a u) : u.InOrder := by
  cases change with
  | queueInLoop | runInLoop => exact inv.push
  | swap position => exact inv.swap position
  | call _ batch => exact inv.call batch
  | dispatched position =>
    have empty : s.functors = [] := inv.resting (by simp [position]) (by simp [position])
    exact inv.keep rfl empty.symm rfl rfl rfl fun _ _ => empty
  | called _ batch => exact inv.keep rfl rfl rfl rfl rfl fun _ _ => batch
  | ran => exact inv.keep rfl rfl rfl rfl rfl fun notCall => absurd rfl notCall
  | runHere | stop | waking | quiet | woken | stopped | returned => exact inv.keep rfl rfl rfl rfl rfl inv.resting
  | run position | storeStarting position | storeRunning position | pass position | exit position | poll position
  | handleRead position | handle position | setCalling position | clearCalling position | storeStopped position
  | handled _ _ position =>
    exact inv.keep rfl rfl rfl rfl rfl fun _ _ => inv.resting (by simp [position]) (by simp [position])

theorem reachable_inOrder (reachable : machine.Reachable s) : s.InOrder := by
  refine reachable.invariant (fun s first => ?_) fun s a u inv enabled stepped =>
    inv.change (step_change enabled u stepped)
  obtain ⟨tid,rfl⟩ := first
  exact ⟨rfl,rfl,by simp [construct],by simp [construct],by simp [construct],fun _ _ => rfl⟩

/-- The functors that were called, the rest of the batch and those that are pending are
the pushes in lock order. So a functor is called at most once, none is lost or overtaken,
those of one thread are called in the order it pushed them, and what is pushed while a
batch runs is not called in it. -/
theorem functors_in_push_order (reachable : machine.Reachable s) :
    s.called ++ s.functors ++ s.pendingFunctors = s.pushed ∧
    (s.called.map Queued.ticket).Nodup ∧
    s.called <+: s.pushed ∧
    (∀ thread, s.called.filter (·.thread = thread) <+: s.pushed.filter (·.thread = thread)) ∧
    ∀ run ∈ s.executed, run.2.round < run.1 := by
  have inv := reachable_inOrder reachable
  have first : s.called <+: s.pushed := ⟨s.functors ++ s.pendingFunctors,by rw [← inv.order,List.append_assoc]⟩
  have once : (s.pushed.map Queued.ticket).Nodup := inv.tickets ▸ List.nodup_range
  exact ⟨inv.order,once.sublist (first.map _).sublist,first,fun thread => first.filter _,inv.earlier⟩

/-- Two threads push, and the first of their functors pushes another. -/
def pushInBatch : List (Action Nat) :=
  [.queueInLoop 1 7,.proceed 1,.proceed 1,.queueInLoop 2 8,.run,.advance [],.advance [],.advance [],
    .advance [.wakeup],.advance [],.advance [],.advance [],.advance [],.advance [],.queueInLoop 0 9]

theorem functors_in_push_order_batch : let s := pushInBatch.foldl machine.advance (construct 0)
    s.called.map Queued.functor = [7] ∧ s.functors.map Queued.functor = [8] ∧
    s.pendingFunctors.map Queued.functor = [9] ∧ s.called ++ s.functors ++ s.pendingFunctors = s.pushed := by
  have start : machine.Reachable (construct 0 : EventLoop Nat) := .initial ⟨0,rfl⟩
  exact ⟨by decide,by decide,by decide,(functors_in_push_order (start.follow pushInBatch (by decide))).1⟩

/-! ### Wakeups -/

/-- The thread has pushed the functor and not come to the end of `Wakeup`. -/
def Between (t : ThreadId) (ticket : Nat) (s : EventLoop F) : Prop := ∃ call ∈ s.calls t, call.ticket? = some ticket

/-- The loop thread queues functors in handlers and functors only, not outside `Run`. -/
def QueuesInside (s : EventLoop F) : Action F → Prop
  | .queueInLoop t _ => t = s.tid → s.position.isCallback = true
  | _ => True

instance (s : EventLoop F) : (a : Action F) → Decidable (s.QueuesInside a)
  | .queueInLoop _ _ => inferInstanceAs (Decidable (_ → _))
  | .run | .advance _ | .runInLoop _ _ | .stop _ | .proceed _ | .leave => inferInstanceAs (Decidable True)

/-- A swap comes before the next poll, or a wakeup makes that poll return. -/
structure Awake (s : EventLoop F) : Prop where
  woken : s.position.willSwap = false → ∀ q ∈ s.pendingFunctors, s.wakeupFd ≠ 0 ∨ s.Between q.thread q.ticket
  inside : ∀ ticket, s.Between s.tid ticket → s.position.isCallback = true
  calling : s.position.isBatch = true → s.isCallingPendingFunctors = true

theorem not_between (free : s.calls t = none) : ¬s.Between t ticket := by
  rintro ⟨call,begun,-⟩
  simp [free] at begun

/-- Steps of the loop thread in which no call of its own is pending. -/
theorem Awake.move (inv : s.Awake) (tid : u.tid = s.tid) (calls : u.calls = s.calls)
    (own : ∀ ticket, ¬s.Between s.tid ticket)
    (pending : u.position.willSwap = false → u.pendingFunctors = [] ∨
      s.position.willSwap = false ∧ u.pendingFunctors = s.pendingFunctors ∧ u.wakeupFd = s.wakeupFd)
    (calling : u.position.isBatch = true → u.isCallingPendingFunctors = true) : u.Awake where
  woken := by
    intro after q among
    rcases pending after with none | ⟨before,same,fd⟩
    · simp [none] at among
    · simpa only [Between,fd,calls] using inv.woken before q (same ▸ among)
  inside := by
    intro ticket between
    exact absurd (by simpa only [Between,tid,calls] using between) (own ticket)
  calling := calling

/-- Steps within a call: the thread's push stays between, or the counter is up. -/
theorem Awake.recall (inv : s.Awake) (position : u.position = s.position) (tid : u.tid = s.tid)
    (flag : u.isCallingPendingFunctors = s.isCallingPendingFunctors) (pending : u.pendingFunctors = s.pendingFunctors)
    (between : ∀ t ticket, u.Between t ticket → s.Between t ticket)
    (kept : s.position.willSwap = false → u.wakeupFd ≠ 0 ∨
      u.wakeupFd = s.wakeupFd ∧ ∀ t ticket, s.Between t ticket → u.Between t ticket) : u.Awake where
  woken := by
    intro after q among
    rw [position] at after
    rw [pending] at among
    rcases kept after with up | ⟨fd,still⟩
    · exact .inl up
    · exact (inv.woken after q among).imp (fun up => fd ▸ up) (still _ _)
  inside := by
    intro ticket held
    rw [tid] at held
    rw [position]
    exact inv.inside ticket (between _ _ held)
  calling := by
    intro batch
    rw [position] at batch
    exact flag.trans (inv.calling batch)

theorem between_update (calls : u.calls = Function.update s.calls t call)
    (same : call.bind LoopCall.ticket? = (s.calls t).bind LoopCall.ticket?) (t' : ThreadId) (ticket : Nat) :
    u.Between t' ticket ↔ s.Between t' ticket := by
  have through (c : Option LoopCall) : (∃ b ∈ c, b.ticket? = some ticket) ↔ c.bind LoopCall.ticket? = some ticket := by
    cases c <;> simp
  simp only [Between,through,calls]
  by_cases own : t' = t
  · subst own
    simp [same]
  · simp [own]

theorem between_of_none (calls : u.calls = Function.update s.calls t none) (between : u.Between t' ticket) :
    s.Between t' ticket := by
  by_cases own : t' = t
  · exact absurd between (not_between (by simp [calls,own]))
  · simpa [Between,calls,own] using between

theorem wakeup_ne_zero (s : EventLoop F) : s.wakeup.wakeupFd ≠ 0 := by
  simp only [wakeup]
  split <;> omega

theorem Awake.push (inv : s.Awake) (free : s.calls t = none) (inside : t = s.tid → s.position.isCallback = true) :
    (s.queueInLoop t f).Awake where
  woken := by
    intro after q among
    rcases List.mem_append.mp among with old | new
    · refine (inv.woken after q old).imp id fun between => ?_
      have other : q.thread ≠ t := fun same => not_between free (same ▸ between)
      simpa [Between,queueInLoop,setCall,other] using between
    · refine .inr ?_
      rw [List.mem_singleton.mp new]
      exact ⟨.queued s.pushed.length,by simp [queueInLoop,setCall],rfl⟩
  inside := by
    intro ticket between
    by_cases own : s.tid = t
    · exact inside own.symm
    · exact inv.inside ticket (by simpa [Between,queueInLoop,setCall,own] using between)
  calling := inv.calling

theorem Awake.change (inv : s.Awake) (order : s.InOrder) (inside : s.QueuesInside a) (change : Change s a u) :
    u.Awake := by
  -- outside its callbacks the loop thread is in no call of its own
  have alone (position : s.position.isCallback = false) : ∀ ticket, ¬s.Between s.tid ticket := by
    intro ticket between
    simp [inv.inside ticket between] at position
  cases change with
  | queueInLoop may => exact inv.push may.1 inside
  | runInLoop may other => exact inv.push may.1 fun same => absurd same other
  | run position | storeStarting position | storeRunning position | pass position | exit position
  | storeStopped position =>
    exact inv.move rfl rfl (alone (by simp [position,Position.isCallback]))
      (fun _ => .inr ⟨by simp [position,Position.willSwap],rfl,rfl⟩) (by simp [Position.isBatch])
  | clearCalling position =>
    exact inv.move rfl rfl (alone (by simp [position,Position.isCallback]))
      (fun _ => .inr ⟨by simp [position,Position.willSwap],rfl,rfl⟩) (by simp [Position.isBatch])
  | poll position | handleRead position | handle position | dispatched position =>
    exact inv.move rfl rfl (alone (by simp [position,Position.isCallback])) (by simp [Position.willSwap])
      (by simp [Position.isBatch])
  | setCalling position =>
    exact inv.move rfl rfl (alone (by simp [position,Position.isCallback])) (by simp [Position.willSwap]) fun _ => rfl
  | swap position =>
    have empty : s.functors = [] := order.resting (by simp [position]) (by simp [position])
    exact inv.move rfl rfl (alone (by simp [position,Position.isCallback])) (fun _ => .inl empty)
      fun _ => inv.calling (by simp [position,Position.isBatch])
  | call position | called position =>
    exact inv.move rfl rfl (alone (by simp [position,Position.isCallback]))
      (fun _ => .inr ⟨by simp [position,Position.willSwap],rfl,rfl⟩)
      fun _ => inv.calling (by simp [position,Position.isBatch])
  | handled free _ position =>
    exact inv.move rfl rfl (fun ticket => not_between free) (by simp [Position.willSwap]) (by simp [Position.isBatch])
  | ran free _ position =>
    exact inv.move rfl rfl (fun ticket => not_between free)
      (fun _ => .inr ⟨by simp [position,Position.willSwap],rfl,rfl⟩)
      fun _ => inv.calling (by simp [position,Position.isBatch])
  | runHere | returned => exact ⟨inv.woken,inv.inside,inv.calling⟩
  | @stop t may =>
    have same := between_update (show (s.stop t).calls = _ from rfl) (by rw [may.1]; rfl)
    exact inv.recall rfl rfl rfl rfl (fun t ticket => (same t ticket).mp)
      fun _ => .inr ⟨rfl,fun t ticket => (same t ticket).mpr⟩
  | @waking t ticket begun =>
    have same := between_update (show (s.setCall t (some (.waking ticket))).calls = _ from rfl) (by rw [begun]; rfl)
    exact inv.recall rfl rfl rfl rfl (fun t ticket => (same t ticket).mp)
      fun _ => .inr ⟨rfl,fun t ticket => (same t ticket).mpr⟩
  | @stopped begun =>
    have same := between_update (show (s.setCall s.tid none).calls = _ from rfl) (by rw [begun]; rfl)
    exact inv.recall rfl rfl rfl rfl (fun t ticket => (same t ticket).mp)
      fun _ => .inr ⟨rfl,fun t ticket => (same t ticket).mpr⟩
  | woken => exact inv.recall rfl rfl rfl rfl (fun _ _ => between_of_none rfl) fun _ => .inl (wakeup_ne_zero s)
  | @quiet ticket begun clear =>
    -- the flag is down, so the thread is in a handler and the swap is still to come
    refine inv.recall rfl rfl rfl rfl (fun _ _ => between_of_none rfl) fun after => ?_
    have callback := inv.inside ticket ⟨_,begun,rfl⟩
    cases position : s.position with
    | body => simp [inv.calling (by simp [position,Position.isBatch])] at clear
    | handle => simp [position,Position.willSwap] at after
    | _ => simp [position,Position.isCallback] at callback

theorem reachable_awake (reachable : (machine.restrict QueuesInside).Reachable s) : s.Awake := by
  refine reachable.invariant_with (fun s first => ?_) (fun s before => reachable_inOrder before.of_restrict)
    fun s a u order inv enabled stepped => inv.change order enabled.2 (step_change enabled.1 u stepped)
  obtain ⟨tid,rfl⟩ := first
  exact ⟨by simp [construct],fun ticket between => absurd between (not_between rfl),
    by simp [construct,Position.isBatch]⟩

/-- When the loop thread enters a poll with functors pending, the eventfd is readable or
another thread is yet to write to it; and it is readable if the `QueueInLoop` of any of
the functors has returned. -/
theorem poll_is_woken (reachable : (machine.restrict QueuesInside).Reachable s) (polling : s.position = .poll) :
    (s.pendingFunctors ≠ [] → s.wakeupFd ≠ 0 ∨ ∃ t ≠ s.tid, ∃ ticket, s.Between t ticket) ∧
    ∀ q ∈ s.pendingFunctors, ¬s.Between q.thread q.ticket → s.wakeupFd ≠ 0 := by
  have inv := reachable_awake reachable
  have woken := inv.woken (by simp [polling,Position.willSwap])
  refine ⟨fun pending => ?_,fun q among returned => (woken q among).resolve_right returned⟩
  obtain ⟨q,among⟩ := List.exists_mem_of_ne_nil _ pending
  refine (woken q among).imp id fun between => ⟨q.thread,fun own => ?_,q.ticket,between⟩
  simpa [polling,Position.isCallback] using inv.inside q.ticket (own ▸ between)

/-- The loop thread comes to its first poll, and another thread pushes a functor. -/
def pollThenPush : List (Action Nat) :=
  [.run,.advance [],.advance [],.advance [],.queueInLoop 1 7]

theorem poll_is_woken_push : let s := pollThenPush.foldl machine.advance (construct 0)
    s.position = .poll ∧ s.pendingFunctors ≠ [] ∧ s.wakeupFd = 0 ∧ ∃ t ≠ s.tid, ∃ ticket, s.Between t ticket := by
  have start : (machine.restrict QueuesInside).Reachable (construct 0 : EventLoop Nat) := .initial ⟨0,rfl⟩
  have reachable := start.follow pollThenPush (by decide)
  rw [Machine.restrict_advance] at reachable
  have polling : (pollThenPush.foldl machine.advance (construct 0)).position = .poll := by decide
  have pending : (pollThenPush.foldl machine.advance (construct 0)).pendingFunctors ≠ [] := by decide
  have low : (pollThenPush.foldl machine.advance (construct 0)).wakeupFd = 0 := by decide
  exact ⟨polling,pending,low,((poll_is_woken reachable polling).1 pending).resolve_left (absurd low)⟩

/-! ### Functors and `Stop` -/

/-- A functor that its thread pushed before it called `Stop`. -/
def Owed (q : Queued F) (s : EventLoop F) : Prop := ∃ stop ∈ s.stops, stop.thread = q.thread ∧ q.ticket < stop.pushes

instance (q : Queued F) (s : EventLoop F) : Decidable (s.Owed q) := inferInstanceAs (Decidable (∃ _ ∈ s.stops, _))

/-- `Stop` is called outside `Run`, where the loop has yet to start, or between the status
test and the swap of an iteration; or no functor is pending that the caller or an earlier
caller of `Stop` has pushed. -/
def StopsInTime (s : EventLoop F) : Action F → Prop
  | .stop t => s.position.leadsToSwap = true ∨ ∀ q ∈ s.pendingFunctors, q.thread ≠ t ∧ ¬s.Owed q
  | _ => True

instance (s : EventLoop F) : (a : Action F) → Decidable (s.StopsInTime a)
  | .stop _ => inferInstanceAs (Decidable (_ ∨ ∀ _ ∈ _, _))
  | .run | .advance _ | .queueInLoop _ _ | .runInLoop _ _ | .proceed _ | .leave => inferInstanceAs (Decidable True)

/-- A functor that is owed waits for a swap that is sure to come. -/
structure Drains (s : EventLoop F) : Prop where
  known : ∀ stop ∈ s.stops, stop.pushes ≤ s.pushed.length
  ahead : ∀ q ∈ s.pendingFunctors, s.Owed q →
    s.position.leadsToSwap = true ∨ s.position = .test ∧ s.status = .kRunning

theorem Drains.keep (inv : s.Drains) (stops : u.stops = s.stops) (pushed : u.pushed = s.pushed)
    (pending : u.pendingFunctors = s.pendingFunctors)
    (position : s.position.leadsToSwap = true ∨ s.position = .test ∧ s.status = .kRunning →
      u.position.leadsToSwap = true ∨ u.position = .test ∧ u.status = .kRunning) : u.Drains where
  known := by simpa only [stops,pushed] using inv.known
  ahead := by
    intro q among owed
    exact position (inv.ahead q (pending ▸ among) (by simpa only [Owed,stops] using owed))

theorem Drains.push (inv : s.Drains) : (s.queueInLoop t f).Drains where
  known := by
    intro stop called
    have before := inv.known stop called
    simp only [queueInLoop,List.length_append,List.length_singleton]
    omega
  ahead := by
    intro q among owed
    rcases List.mem_append.mp among with old | new
    · exact inv.ahead q old owed
    · -- the new functor comes after every call of `Stop` so far
      obtain ⟨stop,called,-,before⟩ := owed
      rw [List.mem_singleton.mp new] at before
      exact absurd (inv.known stop called) (Nat.not_le.mpr before)

theorem Drains.stop (inv : s.Drains) (inTime : s.StopsInTime (.stop t)) : (s.stop t).Drains where
  known := by
    intro stop called
    rcases List.mem_append.mp called with old | new
    · exact inv.known stop old
    · rw [List.mem_singleton.mp new]
      exact Nat.le_refl _
  ahead := by
    intro q among owed
    rcases inTime with ahead | settled
    · exact .inl ahead
    · obtain ⟨other,unowed⟩ := settled q among
      obtain ⟨stop,called,same,before⟩ := owed
      rcases List.mem_append.mp called with old | new
      · exact absurd ⟨stop,old,same,before⟩ unowed
      · rw [List.mem_singleton.mp new] at same
        exact absurd same.symm other

theorem Drains.change (inv : s.Drains) (order : s.InOrder) (inTime : s.StopsInTime a) (change : Change s a u) :
    u.Drains := by
  cases change with
  | queueInLoop | runInLoop => exact inv.push
  | stop => exact inv.stop inTime
  | runHere | waking | quiet | woken | stopped | returned => exact inv.keep rfl rfl rfl id
  | run | storeStarting | pass | poll | handleRead | handle | dispatched | setCalling | storeStopped | handled =>
    exact inv.keep rfl rfl rfl fun _ => .inl rfl
  | storeRunning => exact inv.keep rfl rfl rfl fun _ => .inr ⟨rfl,rfl⟩
  | exit position stopped =>
    exact inv.keep rfl rfl rfl fun ahead => by simp [position,Position.leadsToSwap,stopped] at ahead
  | call position | called position | clearCalling position | ran _ _ position =>
    exact inv.keep rfl rfl rfl fun ahead => by simp [position,Position.leadsToSwap] at ahead
  | swap position =>
    have empty : s.functors = [] := order.resting (by simp [position]) (by simp [position])
    exact ⟨inv.known,by simp [empty]⟩

theorem reachable_drains (reachable : (machine.restrict StopsInTime).Reachable s) : s.Drains := by
  refine reachable.invariant_with (fun s first => ?_) (fun s before => reachable_inOrder before.of_restrict)
    fun s a u order inv enabled stepped => inv.change order enabled.2 (step_change enabled.1 u stepped)
  obtain ⟨tid,rfl⟩ := first
  exact ⟨by simp [construct],by simp [construct]⟩

/-- When `Run` is about to return, every functor that some thread pushed before it called
`Stop` has been called. -/
theorem stop_keeps_earlier_work (reachable : (machine.restrict StopsInTime).Reachable s)
    (returning : s.position = .storeStopped) : ∀ q ∈ s.pushed, s.Owed q → q ∈ s.called := by
  intro q among owed
  have order := reachable_inOrder reachable.of_restrict
  have empty : s.functors = [] := order.resting (by simp [returning]) (by simp [returning])
  rw [← order.order,empty,List.append_nil] at among
  refine (List.mem_append.mp among).resolve_right fun pending => ?_
  simpa [returning,Position.leadsToSwap] using (reachable_drains reachable).ahead q pending owed

/-- A thread pushes and stops the loop in its first poll. -/
def stopInPoll : List (Action Nat) :=
  [.run,.advance [],.advance [],.advance [],.queueInLoop 1 7,.proceed 1,.proceed 1,.stop 1,.proceed 1,
    .advance [.wakeup],.advance [],.advance [],.advance [],.advance [],.advance [],
      .leave,.advance [],.advance [],.advance []]

theorem stop_keeps_earlier_work_poll : let s := stopInPoll.foldl machine.advance (construct 0)
    s.position = .storeStopped ∧ (∃ q ∈ s.pushed, s.Owed q) ∧ ∀ q ∈ s.pushed, s.Owed q → q ∈ s.called := by
  have start : (machine.restrict StopsInTime).Reachable (construct 0 : EventLoop Nat) := .initial ⟨0,rfl⟩
  have reachable := start.follow stopInPoll (by decide)
  rw [Machine.restrict_advance] at reachable
  have returning : (stopInPoll.foldl machine.advance (construct 0)).position = .storeStopped := by decide
  exact ⟨returning,by decide,stop_keeps_earlier_work reachable returning⟩

/-- The same calls after the swap of the iteration. -/
def stopAfterSwap : List (Action Nat) :=
  [.run,.advance [],.advance [],.advance [],.advance [],.advance [],.advance [],.advance [],
    .queueInLoop 1 7,.proceed 1,.proceed 1,.stop 1,.proceed 1,.advance [],.advance [],.advance []]

theorem stop_drops_functor : ∃ s : EventLoop Nat, machine.Reachable s ∧ s.position = .storeStopped ∧
    ∃ q ∈ s.pushed, s.Owed q ∧ q ∉ s.called := by
  have start : machine.Reachable (construct 0 : EventLoop Nat) := .initial ⟨0,rfl⟩
  exact ⟨_,start.follow stopAfterSwap (by decide),by decide,by decide⟩

end EventLoop
end Evk
