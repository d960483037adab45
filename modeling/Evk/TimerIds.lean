import Evk.TimerInvariant

/-! The ids that `AddTimer` returns. On a thread other than the loop's it makes the timer,
queues its insertion and reads the sequence number last, when the loop thread may have
deleted the timer and the allocator may have given its address to another one. -/
namespace Evk

theorem sequenceOf_inj {m n : Nat} (few : m < 2^32) (few' : n < 2^32) (same : sequenceOf m = sequenceOf n) : m = n := by
  norm_num at few few'
  have same : ((m : Int) + 1).bmod 4294967296 = ((n : Int) + 1).bmod 4294967296 := same
  have reduce (k : Int) : k.bmod 4294967296 % 4294967296 = k % 4294967296 := Int.bmod_emod
  have congr := congrArg (fun k : Int => k % 4294967296) same
  simp only [reduce] at congr
  omega

theorem sequence_activeTimer (a : Address) (t : InvokeTimer) :
    (ofLex (TimerQueue.activeTimer a t)).2 = sequenceOf t.created := by
  rw [TimerQueue.activeTimer,ofLex_toLex,InvokeTimer.sequence]

namespace TimerLoop

variable {s s' : TimerLoop}

def Action.isAdd : Action → Bool
  | .addTimer _ _ _ _ | .queueAddTimer _ _ _ => true
  | _ => false

def setPending (pendingFunctors : List TimerFunctor) (s : TimerLoop) : TimerLoop := { s with pendingFunctors }

theorem Inv.reorder (inv : s.Inv) (pending : List TimerFunctor)
    (perm : (s.setPending pending).queuedAdds.Perm s.queuedAdds) :
    (s.setPending pending).Inv where
  owns := inv.owns.perm perm.symm
  ledger := inv.ledger
  calling := inv.calling
  insertedBefore := inv.insertedBefore
  awaiting := fun a t live => (inv.awaiting a t live).trans (not_congr perm.mem_iff).symm
  cancels := inv.cancels

theorem addTimerInLoop_pending (clock : Int) (a : Address) (p : List TimerFunctor) :
    (s.setPending p).addTimerInLoop clock a = (s.addTimerInLoop clock a).map (setPending p) := by
  simp only [addTimerInLoop,setPending]
  cases s.queue.deref a with
  | error => rfl
  | ok t => cases s.queue.addTimerInLoop clock a <;> rfl

theorem cancelInLoop_pending (id : InvokeTimerID) (p : List TimerFunctor) :
    (s.setPending p).cancelInLoop id = (s.cancelInLoop id).map (setPending p) := by
  simp only [cancelInLoop,setPending]
  cases s.queue.cancelInLoop id <;> rfl

/-- The steps of the loop thread that look at no pending functor. -/
def Action.isLocal : Action → Bool
  | .addTimer _ _ _ _ | .cancel _ | .createElsewhere | .runFunctor _ | .handleRead _ | .onTimerTriggered
  | .endHandleRead _ => true
  | _ => false

theorem step_pending (act : Action) (loc : act.isLocal = true) (p : List TimerFunctor) :
    (s.setPending p).step act = (s.step act).map (setPending p) := by
  cases act with
  | queueAddTimer | queueCancel | doPendingFunctors => cases loc
  | createElsewhere => rfl
  | addTimer a when interval clock => exact addTimerInLoop_pending (s := s.newTimer a when interval) clock a p
  | cancel id => exact cancelInLoop_pending id p
  | runFunctor clock =>
    cases run : s.functors with
    | nil => simp [step,runFunctor,setPending,run,Except.map]
    | cons f functors =>
      cases f with
      | addTimerInLoop a =>
        simp only [step,runFunctor,setPending,run]
        exact addTimerInLoop_pending (s := { s with functors }) clock a p
      | cancelInLoop id =>
        simp only [step,runFunctor,setPending,run]
        exact cancelInLoop_pending (s := { s with functors }) id p
  | handleRead now =>
    simp only [step,handleRead,setPending]
    cases s.queue.beginHandleRead now <;> rfl
  | onTimerTriggered =>
    simp only [step,onTimerTriggered,setPending]
    split
    · cases s.queue.deref _ <;> rfl
    · rfl
  | endHandleRead clock =>
    simp only [step,endHandleRead,setPending]
    split
    · cases s.queue.endHandleRead _ _ _ <;> rfl
    · rfl

theorem pending_of_local (loc : act.isLocal = true) (stepped : s.step act = .ok s') :
    s'.pendingFunctors = s.pendingFunctors := by
  have same := step_pending (s := s) act loc s.pendingFunctors
  have kept : s.setPending s.pendingFunctors = s := rfl
  rw [kept,stepped] at same
  have fixed : s' = s'.setPending s.pendingFunctors := Except.ok.inj same
  rw [fixed]
  rfl

theorem addTimerInLoop_heap {q : TimerQueue} : Ensures (fun q' => q'.heap = q.heap) (q.addTimerInLoop clock a) := by
  have inserted : Ensures (fun result => result.1.heap = q.heap) (q.insert a) :=
    ensures_assert.bind fun _ _ => (Ensures.any _).bind fun _ _ => ensures_assert.bind fun _ _ =>
      ensures_assert.bind fun _ _ => ensures_assert.bind fun _ _ => .ok rfl
  refine inserted.bind fun result same => ?_
  obtain ⟨q',earliest⟩ := result
  dsimp only at same ⊢
  split
  · exact (Ensures.any _).bind fun _ _ => .ok same
  · exact .ok same

theorem addTimerInLoop_issued (s : TimerLoop) : Ensures (fun s' => s'.issued = s.issued ∧ s'.queue.heap = s.queue.heap)
    (s.addTimerInLoop clock a) :=
  (Ensures.any _).bind fun _ _ => addTimerInLoop_heap.bind fun _ heap => .ok ⟨rfl,heap⟩

theorem step_issued (add : act.isAdd = false) : Ensures (fun s' => s'.issued = s.issued) (s.step act) := by
  have cancels (s : TimerLoop) (id : InvokeTimerID) : Ensures (fun s' => s'.issued = s.issued) (s.cancelInLoop id) :=
    (Ensures.any _).bind fun _ _ => .ok rfl
  cases act with
  | addTimer | queueAddTimer => cases add
  | cancel id => exact cancels s id
  | queueCancel | createElsewhere | doPendingFunctors => exact .ok rfl
  | runFunctor clock =>
    simp only [step,runFunctor]
    split
    · exact .ok rfl
    · exact fun s' done => (addTimerInLoop_issued _ s' done).1
    · exact cancels _ _
  | handleRead now => exact (Ensures.any _).bind fun _ _ => .ok rfl
  | onTimerTriggered =>
    simp only [step,onTimerTriggered]
    split
    · exact (Ensures.any _).bind fun _ _ => .ok rfl
    · exact .ok rfl
  | endHandleRead clock =>
    simp only [step,endHandleRead]
    split
    · exact (Ensures.any _).bind fun _ _ => .ok rfl
    · exact .ok rfl

end TimerLoop

/-- A call of `AddTimer` on another thread, after its `new`. -/
structure AddCall where
  created : Nat
  timer : Address
  /-- The insertion is queued; what is left is to read the sequence number. -/
  queued : Bool
  deriving DecidableEq, Repr

structure TimerCalls where
  loop : TimerLoop
  calls : List AddCall
  /-- History: the ids returned, by creation. -/
  returned : List (Nat × InvokeTimerID)

namespace TimerCalls

open TimerQueue

def construct : TimerCalls := ⟨.construct,[],[]⟩

/-- `new InvokeTimer` in `AddTimer` on another thread. -/
def newTimer (a : Address) (when : Int) (interval : Interval) (s : TimerCalls) : TimerCalls :=
  { s with
    loop := s.loop.newTimer a when interval
    calls := s.calls ++ [⟨s.loop.numCreated,a,false⟩] }

/-- The push of `RunInLoop`. -/
def queueInLoop (call : AddCall) (s : TimerCalls) : TimerCalls :=
  { s with
    loop := s.loop.setPending (s.loop.pendingFunctors ++ [.addTimerInLoop call.timer])
    calls := s.calls.erase call ++ [{ call with queued := true }] }

/-- `return InvokeTimerID(timer, timer->Sequence())`. -/
def returnId (call : AddCall) (s : TimerCalls) : Except Fault TimerCalls := do
  let t ← s.loop.queue.deref call.timer
  return { s with
    calls := s.calls.erase call
    returned := s.returned ++ [(call.created,activeTimer call.timer t)] }

/-- `AddTimer` on the loop thread. -/
def addTimer (a : Address) (when : Int) (interval : Interval) (clock : Int) (s : TimerCalls) :
    Except Fault TimerCalls := do
  let loop ← s.loop.step (.addTimer a when interval clock)
  let t ← loop.queue.deref a
  return { s with loop, returned := s.returned ++ [(s.loop.numCreated,activeTimer a t)] }

inductive Action where
  | newTimer (a : Address) (when : Int) (interval : Interval)
  | queueInLoop (call : AddCall)
  | returnId (call : AddCall)
  | addTimer (a : Address) (when : Int) (interval : Interval) (clock : Int)
  | loop (act : TimerLoop.Action)

def step (s : TimerCalls) : Action → Except Fault TimerCalls
  | .newTimer a when interval => .ok (s.newTimer a when interval)
  | .queueInLoop call => .ok (s.queueInLoop call)
  | .returnId call => s.returnId call
  | .addTimer a when interval clock => s.addTimer a when interval clock
  | .loop act => do return { s with loop := ← s.loop.step act }

def enabled (s : TimerCalls) : Action → Prop
  | .newTimer a _ _ => s.loop.Fresh a
  | .queueInLoop call => call ∈ s.calls ∧ call.queued = false
  | .returnId call => call ∈ s.calls ∧ call.queued = true
  | .addTimer a when interval clock => s.loop.enabled (.addTimer a when interval clock)
  | .loop act => act.isAdd = false ∧ s.loop.enabled act

instance (s : TimerCalls) : (act : Action) → Decidable (s.enabled act)
  | .newTimer a _ _ => inferInstanceAs (Decidable (s.loop.Fresh a))
  | .queueInLoop _ | .returnId _ => inferInstanceAs (Decidable (_ ∧ _))
  | .addTimer a when interval clock => inferInstanceAs (Decidable (s.loop.enabled (.addTimer a when interval clock)))
  | .loop _ => inferInstanceAs (Decidable (_ ∧ _))

def machine : Machine TimerCalls Action Fault where
  initial s := s = construct
  enabled := enabled
  step := step

instance (s : TimerCalls) (act : Action) : Decidable (machine.enabled s act) :=
  inferInstanceAs (Decidable (s.enabled act))

def made (s : TimerCalls) : List TimerFunctor := (s.calls.filter (·.queued = false)).map (.addTimerInLoop ·.timer)

/-- The loop as if they were queued. -/
def whole (s : TimerCalls) : TimerLoop := s.loop.setPending (s.loop.pendingFunctors ++ s.made)

inductive Change (s : TimerCalls) : Action → TimerCalls → Prop where
  | newTimer : Change s (.newTimer a when interval) (s.newTimer a when interval)
  | queueInLoop : Change s (.queueInLoop call) (s.queueInLoop call)
  | returnId (live : s.loop.queue.heap call.timer = some t) :
      Change s (.returnId call) { s with
        calls := s.calls.erase call, returned := s.returned ++ [(call.created,activeTimer call.timer t)] }
  | addTimer (stepped : s.loop.step (.addTimer a when interval clock) = .ok after) :
      Change s (.addTimer a when interval clock) { s with
        loop := after
        returned := s.returned ++ [(s.loop.numCreated,activeTimer a (.construct s.loop.numCreated when interval))] }
  | loop (stepped : s.loop.step act = .ok after) : Change s (.loop act) { s with loop := after }

theorem deref_live {q : TimerQueue} : Ensures (fun t => q.heap a = some t) (q.deref a) := by
  unfold deref
  split
  · exact .ok ‹_›
  · exact .error _

theorem step_change (s : TimerCalls) (act : Action) : Ensures (Change s act) (s.step act) := by
  cases act with
  | newTimer | queueInLoop => exact .ok (by constructor)
  | returnId call => exact deref_live.bind fun t live => .ok (.returnId live)
  | addTimer a when interval clock =>
    intro s' done
    cases stepped : s.loop.step (.addTimer a when interval clock) with
    | error => simp [step,addTimer,stepped] at done
    | ok after =>
      have heap := (TimerLoop.addTimerInLoop_issued (s.loop.newTimer a when interval) after stepped).2
      have live : after.queue.deref a = .ok (.construct s.loop.numCreated when interval) :=
        deref_of (by simp [heap,TimerLoop.newTimer])
      simp only [step,addTimer,stepped,live,bind,Except.bind,pure,Except.pure,Except.ok.injEq] at done
      exact done ▸ .addTimer stepped
  | loop act =>
    have taken : Ensures (fun after => s.loop.step act = .ok after) (s.loop.step act) := fun _ done => done
    exact taken.bind fun after stepped => .ok (.loop stepped)

structure Inv (s : TimerCalls) : Prop where
  loop : s.whole.Inv
  given : ∀ n id, (n,id) ∈ s.loop.issued → (ofLex id).2 = sequenceOf n
  calls : ∀ call ∈ s.calls, (call.created,toLex (call.timer,sequenceOf call.created)) ∈ s.loop.issued

variable {s s' : TimerCalls}

theorem inv_construct : construct.Inv where
  loop := TimerLoop.inv_construct
  given n id member := by simp [construct,TimerLoop.construct] at member
  calls call member := by simp [construct] at member

theorem Inv.newTimer (inv : s.Inv) (fresh : s.loop.Fresh a) : (s.newTimer a when interval).Inv where
  loop := by
    have queued : s.whole.step (.queueAddTimer a when interval) = .ok (s.newTimer a when interval).whole := by
      simp [TimerLoop.step,whole,made,TimerCalls.newTimer,TimerLoop.newTimer,TimerLoop.setPending]
    have allowed : s.whole.enabled (.queueAddTimer a when interval) := fresh
    exact inv.loop.effect (inv.loop.step_effect allowed queued)
  given n id member := by
    rcases List.mem_append.mp member with old | new
    · exact inv.given n id old
    · obtain ⟨rfl,rfl⟩ := Prod.mk.inj (List.mem_singleton.mp new)
      exact sequence_activeTimer a (.construct s.loop.numCreated when interval)
  calls call member := by
    rcases List.mem_append.mp member with old | new
    · exact List.mem_append_left _ (inv.calls call old)
    · cases List.mem_singleton.mp new
      exact List.mem_append_right _ (List.mem_singleton.mpr rfl)

theorem made_perm (member : call ∈ s.calls) :
    s.made.Perm (((call :: s.calls.erase call).filter (·.queued = false)).map (.addTimerInLoop ·.timer)) :=
  ((List.perm_cons_erase member).filter _).map _

theorem queuedAdds_perm {loop : TimerLoop} {p q : List TimerFunctor} (perm : p.Perm q) :
    (loop.setPending p).queuedAdds.Perm (loop.setPending q).queuedAdds :=
  (perm.append_left loop.functors).filterMap _

theorem Inv.queueInLoop (inv : s.Inv) (member : call ∈ s.calls) (unqueued : call.queued = false) :
    (s.queueInLoop call).Inv where
  loop := by
    have perm := made_perm member
    simp only [List.filter_cons,unqueued,decide_true,if_true,List.map_cons] at perm
    refine inv.loop.reorder (s.queueInLoop call).whole.pendingFunctors (queuedAdds_perm ?_)
    refine (List.Perm.of_eq ?_).trans (perm.symm.append_left s.loop.pendingFunctors)
    simp [whole,made,TimerCalls.queueInLoop,TimerLoop.setPending]
  given := inv.given
  calls other there := by
    rcases List.mem_append.mp there with old | new
    · exact inv.calls other (List.mem_of_mem_erase old)
    · cases List.mem_singleton.mp new
      exact inv.calls call member

theorem Inv.returnId (inv : s.Inv) (member : call ∈ s.calls) (queued : call.queued = true)
    (returned : List (Nat × InvokeTimerID)) : { s with calls := s.calls.erase call, returned }.Inv where
  loop := by
    have perm := made_perm member
    simp only [List.filter_cons,queued,decide_false,Bool.false_eq_true,Bool.true_eq_false,if_false] at perm
    exact inv.loop.reorder _ (queuedAdds_perm (perm.symm.append_left s.loop.pendingFunctors))
  given := inv.given
  calls other there := inv.calls other (List.mem_of_mem_erase there)

/-- What the loop thread does leaves the calls of other threads alone. -/
theorem Inv.whole_step (inv : s.Inv) (inside : act.isAdd = false ∨ act.isLocal = true) (enabled : s.loop.enabled act)
    (stepped : s.loop.step act = .ok after) : { s with loop := after }.whole.Inv := by
  by_cases loc : act.isLocal = true
  · have done : s.whole.step act = .ok { s with loop := after }.whole := by
      rw [whole,TimerLoop.step_pending act loc,stepped]
      simp [whole,made,Except.map,TimerLoop.pending_of_local loc stepped]
    have allowed : s.whole.enabled act := by cases act <;> exact enabled
    exact inv.loop.effect (inv.loop.step_effect allowed done)
  · cases act with
    | queueCancel id =>
      cases stepped
      refine inv.loop.quiet (.requeue s.loop.functors _ ?_)
      simp [whole,made,TimerLoop.queuedAdds,TimerLoop.setPending]
    | doPendingFunctors =>
      cases stepped
      refine inv.loop.quiet (.requeue s.loop.pendingFunctors _ ?_)
      simp [whole,made,TimerLoop.queuedAdds,TimerLoop.setPending,enabled.2]
    | queueAddTimer => simp [TimerLoop.Action.isAdd,TimerLoop.Action.isLocal] at inside
    | addTimer | cancel | createElsewhere | runFunctor | handleRead | onTimerTriggered | endHandleRead => cases loc rfl

theorem Inv.change (inv : s.Inv) (enabled : s.enabled act) (change : Change s act s') : s'.Inv := by
  cases change with
  | newTimer => exact inv.newTimer enabled
  | queueInLoop => exact inv.queueInLoop enabled.1 enabled.2
  | returnId live => exact inv.returnId enabled.1 enabled.2 _
  | @addTimer a when interval clock after stepped =>
    have issued := (TimerLoop.addTimerInLoop_issued (s.loop.newTimer a when interval) after stepped).1
    have created : (s.newTimer a when interval).Inv := inv.newTimer enabled.1
    have allowed : s.loop.enabled (.addTimer a when interval clock) := enabled
    constructor
    · exact inv.whole_step (.inr rfl) allowed stepped
    · exact fun n id member => created.given n id (issued ▸ member)
    · exact fun call member => issued ▸ created.calls call (List.mem_append_left _ member)
  | @loop act after stepped =>
    have issued := TimerLoop.step_issued enabled.1 after stepped
    constructor
    · exact inv.whole_step (.inl enabled.1) enabled.2 stepped
    · exact fun n id member => inv.given n id (issued ▸ member)
    · exact fun call member => issued ▸ inv.calls call member

theorem reachable_inv (reachable : machine.Reachable s) : s.Inv := by
  refine reachable.invariant (fun s first => ?_) fun s act s' inv enabled stepped =>
    inv.change enabled (step_change s act s' stepped)
  cases first
  exact inv_construct

/-- The timers of the open calls stand in the heap, under the numbers they were given. -/
def Held (after : TimerLoop) (s : TimerCalls) : Prop :=
  ∀ call ∈ s.calls, (after.queue.heap call.timer).map InvokeTimer.created = some call.created

instance (after : TimerLoop) (s : TimerCalls) : Decidable (s.Held after) :=
  inferInstanceAs (Decidable (∀ call ∈ s.calls, _))

def Spares (s : TimerCalls) : Except Fault TimerLoop → Prop
  | .ok after => s.Held after
  | .error _ => True

instance (s : TimerCalls) : (result : Except Fault TimerLoop) → Decidable (s.Spares result)
  | .ok after => inferInstanceAs (Decidable (s.Held after))
  | .error _ => inferInstanceAs (Decidable True)

/-- The loop thread deletes no timer whose `AddTimer` has not returned. -/
def Lingers (s : TimerCalls) : Action → Prop
  | .loop act => s.Spares (s.loop.step act)
  | _ => True

instance (s : TimerCalls) : (act : Action) → Decidable (s.Lingers act)
  | .loop act => inferInstanceAs (Decidable (s.Spares (s.loop.step act)))
  | .newTimer _ _ _ | .queueInLoop _ | .returnId _ | .addTimer _ _ _ _ => inferInstanceAs (Decidable True)

structure Kept (s : TimerCalls) : Prop where
  held : s.Held s.loop
  owned : ∀ n id, (n,id) ∈ s.returned → (n,id) ∈ s.loop.issued

/-- A creation at a free address disturbs no open call. -/
theorem Kept.held_newTimer (kept : s.Kept) (fresh : s.loop.Fresh a) : s.Held (s.loop.newTimer a when interval) := by
  intro call member
  have there := kept.held call member
  have apart : call.timer ≠ a := by
    rintro rfl
    simp [fresh.1] at there
  simpa [TimerLoop.newTimer,apart] using there

theorem Kept.change (inv : s.Inv) (kept : s.Kept) (enabled : s.enabled act) (lingers : s.Lingers act)
    (change : Change s act s') : s'.Kept := by
  cases change with
  | @newTimer a when interval =>
    constructor
    · intro call member
      rcases List.mem_append.mp member with old | new
      · exact kept.held_newTimer enabled call old
      · cases List.mem_singleton.mp new
        simp [TimerCalls.newTimer,TimerLoop.newTimer,InvokeTimer.construct]
    · exact fun n id member => List.mem_append_left _ (kept.owned n id member)
  | @queueInLoop call =>
    refine ⟨fun other member => ?_,kept.owned⟩
    rcases List.mem_append.mp member with old | new
    · exact kept.held other (List.mem_of_mem_erase old)
    · cases List.mem_singleton.mp new
      exact kept.held call enabled.1
  | @returnId t call live =>
    refine ⟨fun other member => kept.held other (List.mem_of_mem_erase member),fun n id member => ?_⟩
    rcases List.mem_append.mp member with old | new
    · exact kept.owned n id old
    · have number : t.created = call.created := by simpa [live] using kept.held call enabled.1
      rw [List.mem_singleton.mp new,← number]
      exact inv.loop.ledger.named call.timer t live
  | @addTimer a when interval clock after stepped =>
    obtain ⟨issued,heap⟩ := TimerLoop.addTimerInLoop_issued (s.loop.newTimer a when interval) after stepped
    constructor
    · intro call member
      simpa [heap] using kept.held_newTimer enabled.1 call member
    · intro n id member
      rw [issued]
      rcases List.mem_append.mp member with old | new
      · exact List.mem_append_left _ (kept.owned n id old)
      · exact List.mem_append_right _ new
  | @loop act after stepped =>
    have issued := TimerLoop.step_issued enabled.1 after stepped
    refine ⟨?_,fun n id member => issued ▸ kept.owned n id member⟩
    rw [Lingers,stepped] at lingers
    exact lingers

theorem reachable_kept (reachable : (machine.restrict Lingers).Reachable s) : s.Kept := by
  refine reachable.invariant_with (fun s first => ?_) (fun s before => reachable_inv before.of_restrict)
    fun s act s' inv kept enabled stepped => kept.change inv enabled.1 enabled.2 (step_change s act s' stepped)
  cases first
  exact ⟨by simp [Held,construct],by simp [construct]⟩

/-- Below `2^32` creations an id matches no other timer. -/
theorem Inv.own (inv : s.Inv) (few : s.loop.numCreated < 2^32) (issued : (n,activeTimer a t) ∈ s.loop.issued)
    (live : s.loop.queue.heap a = some t) : t.created = n := by
  have bound := inv.loop.ledger.numbered a t live
  have bound' := inv.loop.ledger.issuedBefore n _ issued
  have same := inv.given n _ issued
  rw [sequence_activeTimer] at same
  exact sequenceOf_inj (bound.trans few) (bound'.trans few) same

/-- When the loop thread deletes no timer before its `AddTimer` has returned, each open
call will read its own timer, each id returned is the one its own timer was given, and
a cancellation of it touches no other timer. -/
theorem id_names_own_timer (reachable : (machine.restrict Lingers).Reachable s) :
    (∀ call ∈ s.calls, ∃ t, s.loop.queue.deref call.timer = .ok t ∧ t.created = call.created) ∧
    ∀ n id, (n,id) ∈ s.returned → (n,id) ∈ s.loop.issued ∧ (ofLex id).2 = sequenceOf n ∧
      (s.loop.numCreated < 2^32 →
        (∀ a t, s.loop.queue.heap a = some t → activeTimer a t = id → t.created = n) ∧
        ∃ after, s.loop.cancelInLoop id = .ok after ∧
          (∀ a t, s.loop.queue.heap a = some t → after.queue.heap a = some t ∨ t.created = n) ∧
          ∀ key ∈ after.queue.cancelingTimers, key ∈ s.loop.queue.cancelingTimers ∨ key = id) := by
  have inv := reachable_inv reachable.of_restrict
  have kept := reachable_kept reachable
  refine ⟨fun call member => ?_,fun n id member => ?_⟩
  · obtain ⟨t,live,number⟩ := Option.map_eq_some_iff.mp (kept.held call member)
    exact ⟨t,deref_of live,number⟩
  have issued := kept.owned n id member
  refine ⟨issued,inv.given n id issued,fun few => ?_⟩
  have own : ∀ a t, s.loop.queue.heap a = some t → activeTimer a t = id → t.created = n := by
    rintro a t live rfl
    exact inv.own few issued live
  refine ⟨own,?_⟩
  rcases cancelInLoop_spec (q := s.loop.queue) inv.loop.owns.wf id with ⟨a,t,live,rfl,-,done⟩ | ⟨-,done⟩
  · refine ⟨_,TimerLoop.cancelInLoop_eq done,fun b u there => ?_,fun key inside => .inl inside⟩
    by_cases eq : b = a
    · subst eq
      obtain rfl : t = u := Option.some.inj (live.symm.trans there)
      exact .inr (own b t live rfl)
    · exact .inl (by simpa [unscheduling,eq] using there)
  · refine ⟨_,TimerLoop.cancelInLoop_eq done,fun b u there => .inl ?_,fun key inside => ?_⟩
    · unfold deferring
      split <;> exact there
    · revert inside
      unfold deferring
      split
      · exact fun inside => (OrderedSet.mem_insert.mp inside).symm
      · exact .inl

/-- The loop thread inserts the timer while its `AddTimer` is still running. -/
theorem id_names_own_timer_inserted :
    let once : Interval := ⟨false,0,by decide⟩
    let s := [.newTimer 8 10 once,.queueInLoop ⟨0,8,false⟩,.loop .doPendingFunctors,.loop (.runFunctor 3),
      .returnId ⟨0,8,true⟩,.addTimer 16 12 once 4].foldl machine.advance construct
    (machine.restrict Lingers).Reachable s ∧ s.loop.numCreated < 2^32 ∧ (0,toLex (8,1)) ∈ s.returned ∧
      ∃ after, s.loop.cancelInLoop (toLex (8,1)) = .ok after ∧
        after.queue.heap 16 = some (.construct 1 12 once) := by
  intro once s
  have start : (machine.restrict Lingers).Reachable construct := .initial rfl
  have reachable := start.follow [.newTimer 8 10 once,.queueInLoop ⟨0,8,false⟩,.loop .doPendingFunctors,
    .loop (.runFunctor 3),.returnId ⟨0,8,true⟩,.addTimer 16 12 once 4] (by decide +kernel)
  rw [Machine.restrict_advance] at reachable
  have few : s.loop.numCreated < 2^32 := by decide +kernel
  have returned : (0,toLex (8,1)) ∈ s.returned := by decide +kernel
  have second : s.loop.queue.heap 16 = some (.construct 1 12 once) := by decide +kernel
  change (machine.restrict Lingers).Reachable s at reachable
  clear_value s
  obtain ⟨-,named⟩ := id_names_own_timer reachable
  obtain ⟨-,after,done,others,-⟩ := (named 0 _ returned).2.2 few
  refine ⟨reachable,few,returned,after,done,(others 16 _ second).resolve_right ?_⟩
  simp [InvokeTimer.construct]

/-- The loop thread fires and deletes the first timer before its `AddTimer` returns, and
the second timer is made at the same address: the first call returns the id of the
second timer, and cancelling it deletes that one. -/
theorem id_names_other_timer :
    let once : Interval := ⟨false,0,by decide⟩
    let s := [.newTimer 8 10 once,.queueInLoop ⟨0,8,false⟩,.loop .doPendingFunctors,.loop (.runFunctor 3),
      .loop (.handleRead 12),.loop .onTimerTriggered,.loop (.endHandleRead 13),.newTimer 8 20 once,
      .queueInLoop ⟨1,8,false⟩,.loop .doPendingFunctors,.loop (.runFunctor 14),.returnId ⟨0,8,true⟩].foldl
      machine.advance construct
    machine.Reachable s ∧ s.loop.numCreated = 2 ∧ s.returned = [(0,toLex (8,2))] ∧
      (1,toLex (8,2)) ∈ s.loop.issued ∧ s.loop.queue.heap 8 = some (.construct 1 20 once) ∧
      (machine.advance s (.loop (.cancel (toLex (8,2))))).loop.queue.heap 8 = none := by
  intro once s
  have reachable : machine.Reachable s := Machine.Reachable.follow (.initial rfl) _ (by decide +kernel)
  exact ⟨reachable,by decide +kernel,by decide +kernel,by decide +kernel,by decide +kernel,by decide +kernel⟩

end TimerCalls
end Evk
