import Evk.TimerFiring

/-! What a cancellation is good for. A timer whose insertion has run and whose id is
cancelled is deleted at once if it waits in the sets; if it stands in the batch whose
callbacks run it is deleted when the batch ends, and a callback it still has coming in
that batch is made. -/
namespace Evk.TimerLoop

open TimerQueue Relation

variable {s s₁ s' s'' : TimerLoop} {id : InvokeTimerID}

/-- The step runs `CancelInLoop(id)`, called directly or taken from the functor queue. -/
def Executes (id : InvokeTimerID) (s : TimerLoop) (act : Action) : Prop :=
  act = .cancel id ∨ ∃ clock functors, act = .runFunctor clock ∧ s.functors = .cancelInLoop id :: functors

/-- Timer `n` waits for its callback in the batch taken at `now`. -/
def Awaits (n : Nat) (now : Int) (s : TimerLoop) : Prop :=
  ∃ called waiting a t, s.phase = .calling now called waiting ∧ entry a t ∈ waiting ∧
    s.queue.heap a = some t ∧ t.created = n

/-- Timer `n` is in the running batch and will be deleted at its end. -/
def Doomed (n : Nat) (a : Address) (t : InvokeTimer) (now : Int) (s : TimerLoop) : Prop :=
  s.queue.heap a = some t ∧ t.created = n ∧ activeTimer a t ∈ s.queue.cancelingTimers ∧
  ∃ called waiting, s.phase = .calling now called waiting ∧ entry a t ∈ called ++ waiting

def Dead (n : Nat) (s : TimerLoop) : Prop := ∀ a t, s.queue.heap a = some t → t.created ≠ n

/-- A state after timer `n` was cancelled in state `s`, with the callbacks made since. -/
structure Cancelled (s : TimerLoop) (n : Nat) (later : List Firing) (s' : TimerLoop) : Prop where
  inv : s'.Inv
  made : n < s'.numCreated
  log : s'.fired = s.fired ++ later
  once : (runs n later).length ≤ 1
  origin : ∀ f ∈ runs n later, s.Awaits n f.now
  fate : s'.Dead n ∨ ∃ a t now, s'.Doomed n a t now ∧
    (entry a t ∈ s'.phase.waiting → runs n later = [] ∧ s.Awaits n now)

theorem Quiet.canceling (piece : Quiet s s') : ∀ id ∈ s.queue.cancelingTimers, id ∈ s'.queue.cancelingTimers := by
  intro id member
  cases piece with
  | create => exact member
  | elsewhere => exact member
  | requeue => exact member
  | insert functors clock live adds =>
    obtain ⟨armings,shape⟩ := added_cases clock _ _ s.queue
    rw [shape]
    exact member
  | cancel => exact member
  | defer other missing =>
    simp only [deferring]
    split
    · exact OrderedSet.mem_insert.mpr (.inr member)
    · exact member

theorem Cancelled.quiet (cancelled : Cancelled s n later s') (piece : Quiet s' s'') :
    Cancelled s n later s'' := by
  obtain ⟨phase,fired,grown,batch,heap⟩ := piece.frame cancelled.inv
  refine ⟨cancelled.inv.quiet piece,cancelled.made.trans_le grown,fired.trans cancelled.log,cancelled.once,
    cancelled.origin,?_⟩
  rcases cancelled.fate with dead | ⟨a,t,now,⟨live,number,canceling,called,waiting,at',inside⟩,turn⟩
  · refine .inl fun a t there => ?_
    rcases heap a t there with old | new
    · exact dead a t old
    · have := cancelled.made
      omega
  · have same := batch (entry a t) (by simpa [at',Phase.batch] using inside)
    exact .inr ⟨a,t,now,⟨same.trans live,number,piece.canceling _ canceling,called,waiting,phase.trans at',inside⟩,
      phase ▸ turn⟩

theorem Cancelled.call (cancelled : Cancelled s n later s') (called waiting : List Entry)
    (phase : s'.phase = .calling now called (entry a t :: waiting)) (live : s'.queue.heap a = some t) :
    Cancelled s n (later ++ [t.firing now]) { s' with
      phase := .calling now (called ++ [entry a t]) waiting, fired := s'.fired ++ [t.firing now] } := by
  have inv := cancelled.inv.effect (.call called waiting phase live)
  have log : s'.fired ++ [t.firing now] = s.fired ++ (later ++ [t.firing now]) := by
    rw [cancelled.log,List.append_assoc]
  by_cases same : t.created = n
  · -- the cancelled timer itself: its turn was still to come
    obtain ⟨b,u,now',⟨there,number,canceling,called',waiting',at',inside⟩,turn⟩ :=
      cancelled.fate.resolve_left fun dead => dead a t live same
    obtain ⟨rfl,rfl,rfl⟩ : now = now' ∧ called = called' ∧ entry a t :: waiting = waiting' := by
      simpa [phase] using at'
    obtain rfl : b = a := cancelled.inv.ledger.separate b u a t there live (number.trans same.symm)
    obtain rfl : u = t := Option.some.inj (there.symm.trans live)
    obtain ⟨none,awaits⟩ := turn (by simp [phase,Phase.waiting])
    have run : runs n (later ++ [u.firing now]) = [u.firing now] := by
      rw [runs_append,InvokeTimer.firing_created,if_pos same,none,List.nil_append]
    refine ⟨inv,cancelled.made,log,by simp [run],fun f member => ?_,.inr ⟨b,u,now,
      ⟨live,number,canceling,_,_,rfl,by simp⟩,fun waits => ?_⟩⟩
    · rw [run] at member
      rw [List.mem_singleton.mp member]
      exact awaits
    · have distinct := (List.nodup_append'.mp cancelled.inv.owns.distinct).1
      simp only [phase,Phase.batch,List.map_append,List.map_cons] at distinct
      exact absurd (List.mem_map.mpr ⟨_,waits,rfl⟩) (List.nodup_cons.mp (List.nodup_append'.mp distinct).2.1).1
  · have run : runs n (later ++ [t.firing now]) = runs n later := by
      rw [runs_append,InvokeTimer.firing_created,if_neg same]
    refine ⟨inv,cancelled.made,log,run ▸ cancelled.once,run ▸ cancelled.origin,?_⟩
    rcases cancelled.fate with dead | ⟨b,u,now',⟨there,number,canceling,called',waiting',at',inside⟩,turn⟩
    · exact .inl dead
    · obtain ⟨rfl,rfl,rfl⟩ : now = now' ∧ called = called' ∧ entry a t :: waiting = waiting' := by
        simpa [phase] using at'
      refine .inr ⟨b,u,now,⟨there,number,canceling,_,_,rfl,by simpa using inside⟩,fun waits => ?_⟩
      rw [run]
      exact turn (by simp [phase,Phase.waiting] at waits ⊢; exact .inr waits)

theorem Cancelled.finish (cancelled : Cancelled s n later s') (phase : s'.phase = .calling now called [])
    (effect : Effect s' (.endHandleRead clock) s'') (heap : s''.queue.heap = s'.queue.resetHeap now called)
    (fired : s''.fired = s'.fired) (numCreated : s''.numCreated = s'.numCreated) :
    Cancelled s n later s'' := by
  refine ⟨cancelled.inv.effect effect,numCreated ▸ cancelled.made,fired.trans cancelled.log,cancelled.once,
    cancelled.origin,.inl fun b v there => ?_⟩
  rw [heap] at there
  obtain ⟨u,before,number⟩ := of_resetHeap there
  rcases cancelled.fate with dead | ⟨a,t,now',⟨live,mine,canceling,called',waiting',at',inside⟩,-⟩
  · exact number ▸ dead b u before
  · intro same
    obtain ⟨rfl,rfl,rfl⟩ : now = now' ∧ called = called' ∧ [] = waiting' := by simpa [phase] using at'
    obtain rfl : b = a := cancelled.inv.ledger.separate b u a t before live (by omega)
    have member : b ∈ called.map addr := List.mem_map.mpr ⟨_,by simpa using inside,rfl⟩
    simp [resetHeap,member,live,kept,canceling] at there

theorem Cancelled.effect (cancelled : Cancelled s n later s') (effect : Effect s' act s'') :
    ∃ more, Cancelled s n more s'' := by
  cases effect with
  | quiet other pieces =>
    refine ⟨later,?_⟩
    induction pieces with
    | refl => exact cancelled
    | tail _ piece ih => exact ih.quiet piece
  | read timers activeTimers idle owns members =>
    refine ⟨later,cancelled.inv.read timers activeTimers owns,cancelled.made,cancelled.log,cancelled.once,
      cancelled.origin,?_⟩
    rcases cancelled.fate with dead | ⟨a,t,now,⟨-,-,-,called,waiting,at',-⟩,-⟩
    · exact .inl dead
    · simp [idle] at at'
  | call called waiting phase live => exact ⟨_,cancelled.call called waiting phase live⟩
  | finish timers activeTimers called deleted phase owns ledger members =>
    obtain ⟨armings,shape⟩ := rearmed_cases _ _
    exact ⟨later,cancelled.finish phase (.finish timers activeTimers called deleted phase owns ledger members)
      (by rw [shape]) rfl rfl⟩

/-- `CancelInLoop` with the id of a timer whose insertion has run. -/
theorem cancelled_start (inv : s.Inv) (issued : (n,id) ∈ s.issued) (inserted : n ∈ s.inserted)
    (done : s.cancelInLoop id = .ok s₁) : Cancelled s n [] s₁ := by
  obtain ⟨s₁',same,piece⟩ := inv.cancelInLoop id
  obtain rfl : s₁' = s₁ := Except.ok.inj (same.symm.trans done)
  obtain ⟨phase,fired,grown,-,heap⟩ := piece.frame inv
  have made := inv.ledger.issuedBefore n id issued
  refine ⟨inv.quiet piece,made.trans_le grown,by simpa using fired,by simp [runs],by simp [runs],?_⟩
  by_cases dead : s.Dead n
  · refine .inl fun a t there => ?_
    rcases heap a t there with old | new
    · exact dead a t old
    · omega
  · simp only [Dead,not_forall,not_not] at dead
    obtain ⟨a,t,live,number⟩ := dead
    have name : id = activeTimer a t :=
      inv.ledger.issuedOnce n id _ issued (number ▸ inv.ledger.named a t live)
    rcases cancelInLoop_spec inv.owns.wf id with ⟨b,u,there,eq,member,ran⟩ | ⟨missing,ran⟩
    · -- it waits in the sets
      obtain rfl : b = a := (activeTimer_inj.mp (eq.symm.trans name)).1
      obtain rfl : t = u := Option.some.inj (live.symm.trans there)
      obtain rfl : _ = s₁' := Except.ok.inj ((cancelInLoop_eq ran).symm.trans done)
      refine .inl fun c v left same => ?_
      obtain ⟨differ,left⟩ := of_update_none left
      exact differ (inv.ledger.separate c v b t left live (by omega))
    · -- it stands in the running batch
      have waits : ¬s.queue.Scheduled a := fun scheduled =>
        missing (name ▸ (inv.owns.wf.active live).mpr ((scheduled_iff live).mp scheduled))
      have free : a ∉ s.queuedAdds := (inv.awaiting a t live).mp (number ▸ inserted)
      obtain ⟨e,member,rfl⟩ : ∃ e ∈ s.phase.batch, addr e = a := by
        have held := (inv.owns.owned a t live).resolve_left waits
        exact List.mem_map.mp ((List.mem_append.mp held).resolve_right free)
      obtain ⟨v,there,key⟩ := inv.batch_live member
      obtain rfl : t = v := Option.some.inj (live.symm.trans there)
      cases running : s.phase with
      | idle => simp [running,Phase.batch] at member
      | calling now called waiting =>
        have calling : s.queue.isCallingExpiredTimers = true := by simp [inv.calling,running,Phase.isIdle]
        obtain rfl : _ = s₁' := Except.ok.inj ((cancelInLoop_eq ran).symm.trans done)
        refine .inr ⟨addr e,t,now,⟨?_,number,?_,called,waiting,running,?_⟩,fun turn => ⟨by simp [runs],?_⟩⟩
        · exact (congrFun (deferring_heap ..) _).trans live
        · simp [deferring,calling,name]
        · simpa [running,Phase.batch,← key] using member
        · exact ⟨called,waiting,addr e,t,running,by simpa [running,Phase.waiting] using turn,live,number⟩

/-- Cancellation: from the step that runs `CancelInLoop` for a timer whose insertion has
run, its callback is made at most once more in any continuation, and only as part of the
batch in which it was then waiting for its turn. -/
theorem cancel_effective (reachable : machine.Reachable s) (issued : (n,id) ∈ s.issued)
    (inserted : n ∈ s.inserted) (executes : s.Executes id act) (enabled : s.enabled act)
    (stepped : s.step act = .ok s₁) (path : machine.Path s₁ s') :
    ∃ later, s'.fired = s.fired ++ later ∧ (runs n later).length ≤ 1 ∧
      ∀ f ∈ runs n later, s.Awaits n f.now := by
  have inv := reachable_inv reachable
  have start : Cancelled s n [] s₁ := by
    rcases executes with rfl | ⟨clock,functors,rfl,run⟩
    · exact cancelled_start inv issued inserted stepped
    · have popped : Quiet s { s with functors } :=
        .requeue functors s.pendingFunctors (by simp [queuedAdds,run])
      have start := cancelled_start (inv.quiet popped) issued inserted
        (by simpa [TimerLoop.step,TimerLoop.runFunctor,run] using stepped)
      exact ⟨start.inv,start.made,start.log,start.once,start.origin,start.fate⟩
  have reach : ∃ later, Cancelled s n later s' := by
    induction path with
    | refl => exact ⟨[],start⟩
    | step _ enabled stepped ih =>
      obtain ⟨later,cancelled⟩ := ih
      exact cancelled.effect (cancelled.inv.step_effect enabled stepped)
  obtain ⟨later,cancelled⟩ := reach
  exact ⟨later,cancelled.log,cancelled.once,cancelled.origin⟩

/-- A repeating timer cancelled from another thread between two of its callbacks. -/
theorem cancel_effective_queued :
    let every : Interval := ⟨true,5,by decide⟩
    let s := [.addTimer 8 10 every 3,.handleRead 12,.onTimerTriggered,.endHandleRead 13,
      .queueCancel (toLex (8,1)),.doPendingFunctors].foldl machine.advance construct
    let s₁ := machine.advance s (.runFunctor 14)
    let s' := [.handleRead 30,.endHandleRead 31].foldl machine.advance s₁
    machine.Reachable s ∧ (0,toLex (8,1)) ∈ s.issued ∧ 0 ∈ s.inserted ∧
      s.Executes (toLex (8,1)) (.runFunctor 14) ∧ machine.Path s₁ s' ∧
      ∃ later, s'.fired = s.fired ++ later ∧ runs 0 later = [] := by
  intro every s s₁ s'
  have reachable : machine.Reachable s := Machine.Reachable.follow (.initial rfl) _ (by decide)
  have issued : (0,toLex (8,1)) ∈ s.issued := by decide
  have inserted : 0 ∈ s.inserted := by decide
  have executes : s.Executes (toLex (8,1)) (.runFunctor 14) := .inr ⟨14,[],rfl,by decide⟩
  have enabled : s.enabled (.runFunctor 14) := by decide
  have stepped : machine.step s (.runFunctor 14) = .ok s₁ := Machine.step_advance (by decide)
  have path : machine.Path s₁ s' := Machine.Path.follow .refl _ (by decide)
  have idle : s.phase = .idle := by decide
  clear_value s s₁ s'
  obtain ⟨later,log,-,origin⟩ := cancel_effective reachable issued inserted executes enabled stepped path
  refine ⟨reachable,issued,inserted,executes,path,later,log,List.eq_nil_iff_forall_not_mem.mpr ?_⟩
  intro f member
  obtain ⟨called,waiting,a,t,phase,-⟩ := origin f member
  simp [idle] at phase

/-- Two timers due in one batch: the callback of the first cancels the second, which is
called back all the same. -/
theorem cancel_misses_same_batch :
    let once : Interval := ⟨false,0,by decide⟩
    let s := [.addTimer 8 10 once 3,.addTimer 16 11 once 4,.handleRead 12,.onTimerTriggered].foldl
      machine.advance construct
    let s₁ := machine.advance s (.cancel (toLex (16,2)))
    let s' := [.onTimerTriggered].foldl machine.advance s₁
    machine.Reachable s ∧ (1,toLex (16,2)) ∈ s.issued ∧ 1 ∈ s.inserted ∧
      s.Executes (toLex (16,2)) (.cancel (toLex (16,2))) ∧
      machine.enabled s (.cancel (toLex (16,2))) ∧ machine.step s (.cancel (toLex (16,2))) = .ok s₁ ∧
      machine.Path s₁ s' ∧ s'.fired = s₁.fired ++ [⟨1,11,0,false,12⟩] := by
  intro once s s₁ s'
  have reachable : machine.Reachable s := Machine.Reachable.follow (.initial rfl) _ (by decide)
  have path : machine.Path s₁ s' := Machine.Path.follow .refl _ (by decide)
  have issued : (1,toLex (16,2)) ∈ s.issued := by decide
  have inserted : 1 ∈ s.inserted := by decide
  have enabled : machine.enabled s (.cancel (toLex (16,2))) := by decide
  have stepped : machine.step s (.cancel (toLex (16,2))) = .ok s₁ := Machine.step_advance (by decide)
  have called : s'.fired = s₁.fired ++ [⟨1,11,0,false,12⟩] := by decide
  clear_value s s₁ s'
  exact ⟨reachable,issued,inserted,.inl rfl,enabled,stepped,path,called⟩

end Evk.TimerLoop
