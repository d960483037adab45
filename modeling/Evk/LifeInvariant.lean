import Evk.Lifecycle

/-! The invariant of every connection's life, whatever the threads, the kernel and the
server's owner do: it stands in order with its poller, and exactly one of the map, a
queued `OnConnectDestroyed` and its own end answers for its destruction. -/
namespace Evk

/-- `OnConnectDestroyed` before its status test, and after it. -/
def Task.isTest : Task → Bool
  | .functor (.onConnectDestroyed _) => true
  | _ => false

def Task.isDestroy : Task → Bool
  | .destroy _ _ => true
  | _ => false

/-- The tasks with a raw pointer to the channel. -/
def Task.isDispatch : Task → Bool
  | .handleEvent _ | .stage _ _ => true
  | _ => false

def Event.isTest : Event → Bool
  | .testDestroyed _ => true
  | _ => false

namespace Life

structure Inv (c : ConnId) (v : Life) : Prop where
  sound : v.link.Sound c
  concerns : ∀ task ∈ v.queue, task.concerns c = true
  /-- A connection waits for an IO loop to establish it; nothing else has happened. -/
  fresh : v.link.conn.status = .kConnecting → v.link.conn.loop ≠ 0 ∧ v.calls = [] ∧ v.removals = 0 ∧
    (v.queue = [.functor (.onConnectEstablished c)] ∨
      v.queue = [.functor (.onConnectEstablished c),.functor (.onConnectDestroyed c)]) ∧
    ∀ event ∈ v.trace, event.isQuiet = true
  awaited : v.mapped.toNat + v.queue.countP Task.isTest + v.trace.countP Event.isTest = 1
  tested : v.queue.countP Task.isDestroy + v.trace.count .destroyed = v.trace.countP Event.isTest
  torn : .destroyed ∈ v.trace ↔ v.link.conn.status = .kDisconnected ∧ v.link.conn.channel.addedToLoop = false
  handling : v.link.conn.channel.eventHandling = true → .stage c .done ∈ v.queue

variable {c : ConnId} {v w : Life}

/-- Quiet steps do not touch the other tasks and events. -/
theorem Quiet.countP_queue (quiet : Quiet c v w) (p : Task → Bool)
    (loud : ∀ task, task.isQuiet = true → p task = false) : w.queue.countP p = v.queue.countP p := by
  obtain ⟨front,rest,extra,before,after,popped,pushed⟩ := quiet.queue
  have none (tasks : List Task) (all : ∀ task ∈ tasks, task.isQuiet = true) : tasks.countP p = 0 :=
    List.countP_eq_zero.mpr fun task among => by simp [loud task (all task among)]
  rw [before,after,List.countP_append,List.countP_append,none front popped,none extra fun task among =>
    (pushed task among).1]
  omega

theorem Quiet.countP_trace (quiet : Quiet c v w) (p : Event → Bool)
    (loud : ∀ event, event.isQuiet = true → p event = false) : w.trace.countP p = v.trace.countP p := by
  obtain ⟨events,after,recorded⟩ := quiet.trace
  have none : events.countP p = 0 :=
    List.countP_eq_zero.mpr fun event among => by simp [loud event (recorded event among)]
  rw [after,List.countP_append,none]
  omega

theorem Quiet.mem_queue (quiet : Quiet c v w) {task : Task} (loud : task.isQuiet = false) :
    task ∈ w.queue ↔ task ∈ v.queue := by
  have same := quiet.countP_queue (· == task) fun other quietly => by
    simp only [beq_eq_false_iff_ne]
    rintro rfl
    simp [loud] at quietly
  rw [← List.one_le_count_iff,← List.one_le_count_iff]
  exact iff_of_eq (congrArg (1 ≤ ·) same)

theorem Quiet.mem_trace (quiet : Quiet c v w) {event : Event} (loud : event.isQuiet = false) :
    event ∈ w.trace ↔ event ∈ v.trace := by
  have same := quiet.countP_trace (· == event) fun other quietly => by
    simp only [beq_eq_false_iff_ne]
    rintro rfl
    simp [loud] at quietly
  rw [← List.one_le_count_iff,← List.one_le_count_iff]
  exact iff_of_eq (congrArg (1 ≤ ·) same)

theorem quiet_queue_subset (quiet : Quiet c v w) (among : task ∈ w.queue) :
    task ∈ v.queue ∨ task.isFunctor = true := by
  obtain ⟨front,rest,extra,before,after,-,pushed⟩ := quiet.queue
  rw [after] at among
  rcases List.mem_append.mp among with old | new
  · exact .inl (by rw [before]; exact List.mem_append_right _ old)
  · exact .inr (pushed task new).2.1

theorem functor_not_dispatch {task : Task} (functor : task.isFunctor = true) : task.isDispatch = false := by
  cases task <;> simp_all [Task.isFunctor,Task.isDispatch]

theorem quiet_not_test {task : Task} (quiet : task.isQuiet = true) : task.isTest = false := by
  cases task with
  | functor f => cases f <;> simp_all [Task.isQuiet,Task.isTest]
  | _ => rfl

theorem quiet_not_destroy {task : Task} (quiet : task.isQuiet = true) : task.isDestroy = false := by
  cases task <;> simp_all [Task.isQuiet,Task.isDestroy]

theorem quiet_not_tested {event : Event} (quiet : event.isQuiet = true) : event.isTest = false := by
  cases event <;> simp_all [Event.isQuiet,Event.isTest]

theorem Inv.quiet (inv : v.Inv c) (quiet : Quiet c v w) : w.Inv c where
  sound := quiet.link.sound
  concerns := by
    obtain ⟨front,rest,extra,before,after,-,pushed⟩ := quiet.queue
    intro task among
    rw [after] at among
    rcases List.mem_append.mp among with old | new
    · exact inv.concerns task (by rw [before]; exact List.mem_append_right _ old)
    · exact (pushed task new).2.2
  fresh := by
    intro connecting
    rw [quiet.link.status] at connecting
    obtain ⟨away,uncalled,none,queue,recorded⟩ := inv.fresh connecting
    obtain ⟨sameQueue,sameCalls⟩ := quiet.early connecting
    obtain ⟨events,after,quietly⟩ := quiet.trace
    refine ⟨by rwa [quiet.link.loop],sameCalls.trans uncalled,quiet.same.1.trans none,by rwa [sameQueue],?_⟩
    rw [after]
    exact fun event among => (List.mem_append.mp among).elim (recorded event) (quietly event)
  awaited := by
    rw [quiet.same.2.1,quiet.countP_queue _ fun _ => quiet_not_test,quiet.countP_trace _ fun _ => quiet_not_tested]
    exact inv.awaited
  tested := by
    rw [quiet.countP_queue _ fun _ => quiet_not_destroy,quiet.countP_trace _ fun _ => quiet_not_tested,List.count,
      quiet.countP_trace (· == .destroyed) fun event quietly => by cases event <;> simp_all [Event.isQuiet]]
    exact inv.tested
  torn := by
    rw [quiet.mem_trace rfl,quiet.link.status,quiet.link.added]
    exact inv.torn
  handling := by
    rw [quiet.link.handling,quiet.mem_queue rfl]
    exact inv.handling

/-- Any other task at the head of the queue finds the connection established. -/
theorem Inv.settled (inv : v.Inv c) (head : v.queue = task :: rest)
    (other : task ≠ .functor (.onConnectEstablished c)) : v.link.conn.status ≠ .kConnecting := by
  intro connecting
  obtain ⟨-,-,-,queue,-⟩ := inv.fresh connecting
  rcases queue with first | first
  · exact other (List.cons.inj (head.symm.trans first)).1
  · exact other (List.cons.inj (head.symm.trans first)).1

/-- A connection in the map, or about to be destroyed, still has its channel. -/
theorem Inv.not_torn (inv : v.Inv c) (up : v.link.conn.status ≠ .kDisconnected) : .destroyed ∉ v.trace :=
  fun ended => up (inv.torn.mp ended).1

theorem Inv.unregistered (inv : v.Inv c) (ended : .destroyed ∈ v.trace) :
    Channel.Unregistered v.link.conn.channel v.link.slot := by
  obtain ⟨status,removed⟩ := inv.torn.mp ended
  cases inv.sound.standing with
  | connecting same _ _ => simp [same] at status
  | up same _ _ => simp [Link.Up,status] at same
  | closed _ known _ => simp [known.added] at removed
  | removed _ unknown _ => exact unknown

theorem Inv.rest_concerns (inv : v.Inv c) (head : v.queue = task :: rest) : ∀ task ∈ rest, task.concerns c = true :=
  fun task among => inv.concerns task (by rw [head]; exact List.mem_cons_of_mem _ among)

theorem Inv.rest_handling (inv : v.Inv c) (head : v.queue = task :: rest) (other : task ≠ .stage c .done)
    (handling : v.link.conn.channel.eventHandling = true) : .stage c .done ∈ rest := by
  have among := inv.handling handling
  rw [head] at among
  exact (List.mem_cons.mp among).resolve_left other.symm

theorem concerns_test : (Task.functor (.onConnectDestroyed c)).concerns c = true := by
  simp [Task.concerns,Functor.about]

theorem Inv.closed (inv : v.Inv c) (head : v.queue = .stage d stage :: rest) (closes : v.link.Closes io stage)
    (up : v.link.Up) : v.link.conn.status ≠ .kDisconnected ∧ v.link.conn.channel.addedToLoop = true ∧
      (v.link.conn.channel.eventHandling = true → .stage c .done ∈ rest) := by
  refine ⟨fun down => by simp [Link.Up,down] at up,(inv.sound.known up).1.added,inv.rest_handling head ?_⟩
  rintro ⟨⟩
  exact closes

theorem Inv.untested (inv : v.Inv c) (waiting : 0 < v.mapped.toNat + v.queue.countP Task.isTest) :
    v.trace.countP Event.isTest = 0 := by
  have := inv.awaited
  omega

theorem Inv.unended (inv : v.Inv c) (head : v.queue = .destroy d b :: rest) :
    .destroyed ∉ v.trace ∧ 0 < v.trace.countP Event.isTest := by
  have awaited := inv.awaited
  have tested := inv.tested
  rw [head,List.countP_cons,Task.isDestroy,if_pos rfl] at tested
  refine ⟨fun among => ?_,by omega⟩
  have := List.one_le_count_iff.mpr among
  omega

theorem Inv.tested_of_destroy (inv : v.Inv c) (among : .destroy d b ∈ v.queue) : 0 < v.trace.countP Event.isTest := by
  have tested := inv.tested
  have := List.countP_pos_iff.mpr ⟨_,among,(rfl : (Task.destroy d b).isDestroy = true)⟩
  omega

theorem Inv.counts (inv : v.Inv c) (head : v.queue = task :: rest) :
    v.mapped.toNat + (task :: rest).countP Task.isTest + v.trace.countP Event.isTest = 1 ∧
    (task :: rest).countP Task.isDestroy + v.trace.count .destroyed = v.trace.countP Event.isTest :=
  head ▸ ⟨inv.awaited,inv.tested⟩

theorem concerns_append (concerns : ∀ task ∈ tasks, Task.concerns c task = true) :
    ∀ task ∈ tasks ++ [.functor (.onConnectDestroyed c)], task.concerns c = true := by
  intro task among
  rcases List.mem_append.mp among with old | new
  · exact concerns task old
  · rw [List.mem_singleton.mp new]
    exact concerns_test

theorem Inv.shutdown (inv : v.Inv c) (connected : v.link.conn.status = .kConnected)
    (quiet : Quiet c ((v.setLink (v.link.setStatus .kDisconnecting)).record (.shutdownCalled t true)) w) : w.Inv c := by
  refine Inv.quiet ?_ quiet
  exact { inv with
    sound := inv.sound.disconnecting connected
    fresh := fun connecting => by simp [setLink,record,Link.setStatus] at connecting
    awaited := by simpa [setLink,record,List.countP_append,Event.isTest] using inv.awaited
    tested := by simpa [setLink,record,List.countP_append,List.count_append,Event.isTest] using inv.tested
    torn := by simpa [setLink,record,Link.setStatus] using inv.not_torn (by simp [connected]) }

/-- What the kernel knows has been established. -/
theorem Inv.report (inv : v.Inv c) (interest : v.link.slot.interest = some (c,mask)) :
    ((v.setLink (v.link.setRevents revents)).before [.handleEvent c]).Inv c :=
  { inv with
    sound := inv.sound.setRevents _
    concerns := by simpa [setLink,before,Task.concerns] using inv.concerns
    fresh := by
      intro (connecting : v.link.conn.status = .kConnecting)
      cases inv.sound.standing with
      | connecting _ unknown _ => simp [unknown.slot,Slot.empty] at interest
      | up status _ _ => simp [Link.Up,connecting] at status
      | closed status _ _ | removed status _ _ => simp [connecting] at status
    awaited := by simpa [setLink,before,Task.isTest] using inv.awaited
    tested := by simpa [setLink,before,Task.isDestroy] using inv.tested
    handling := fun handling => List.mem_cons_of_mem _ (inv.handling handling) }

theorem Inv.begin (inv : v.Inv c) (head : v.queue = .handleEvent d :: rest) :
    (({ v with queue := rest }.setLink (v.link.setHandling true)).before (System.stages c)).Inv c := by
  obtain ⟨awaited,tested⟩ := inv.counts head
  exact { inv with
    sound := inv.sound.setHandling true
    concerns := by simpa [setLink,before,System.stages,Task.concerns] using inv.rest_concerns head
    fresh := fun connecting => absurd connecting (inv.settled head (by simp))
    awaited := by simpa [setLink,before,System.stages,Task.isTest] using awaited
    tested := by simpa [setLink,before,System.stages,Task.isDestroy] using tested
    handling := fun _ => by simp [setLink,before,System.stages] }

theorem Inv.done (inv : v.Inv c) (head : v.queue = .stage d .done :: rest) :
    ({ v with queue := rest }.setLink (v.link.setHandling false)).Inv c := by
  obtain ⟨awaited,tested⟩ := inv.counts head
  exact { inv with
    sound := inv.sound.setHandling false
    concerns := inv.rest_concerns head
    fresh := fun connecting => absurd connecting (inv.settled head (by simp))
    awaited := by simpa [setLink,Task.isTest] using awaited
    tested := by simpa [setLink,Task.isDestroy] using tested
    handling := fun handling => by simp [setLink,Link.setHandling,Link.setChannel] at handling }

theorem Inv.closeBase (inv : v.Inv c) (head : v.queue = .stage d stage :: rest) (closes : v.link.Closes io stage)
    (up : v.link.Up) (small : b.Small) (mapped : v.mapped = true) :
    (((({ v with queue := rest, mapped := false }.setLink ((v.link.setInput b).closed c)).record .closeCb).record
      .queueDestroyed).queueInLoop (.onConnectDestroyed c)).Inv c := by
  obtain ⟨connected,added,handling⟩ := inv.closed head closes up
  obtain ⟨awaited,tested⟩ := inv.counts head
  exact
  { sound := (inv.sound.setInput small).closed up
    concerns := concerns_append (inv.rest_concerns head)
    fresh := fun connecting => by cases connecting
    awaited := by simpa [setLink,record,queueInLoop,mapped,Task.isTest,Event.isTest,Nat.add_comm] using awaited
    tested := by simpa [setLink,record,queueInLoop,Task.isDestroy,Event.isTest] using tested
    torn := by simpa [setLink,record,queueInLoop,Link.closed,Link.setInput,added] using inv.not_torn connected
    handling := fun active => List.mem_append_left _ (handling active) }

theorem Inv.closeAway (inv : v.Inv c) (head : v.queue = .stage d stage :: rest) (closes : v.link.Closes io stage)
    (up : v.link.Up) (small : b.Small) : (({ v with queue := rest, removals := v.removals + 1 }.setLink
      ((v.link.setInput b).closed c)).record .closeCb).Inv c := by
  obtain ⟨connected,added,handling⟩ := inv.closed head closes up
  obtain ⟨awaited,tested⟩ := inv.counts head
  exact
  { sound := (inv.sound.setInput small).closed up
    concerns := inv.rest_concerns head
    fresh := fun connecting => by cases connecting
    awaited := by simpa [setLink,record,Task.isTest,Event.isTest] using awaited
    tested := by simpa [setLink,record,Task.isDestroy,Event.isTest] using tested
    torn := by simpa [setLink,record,Link.closed,Link.setInput,added] using inv.not_torn connected
    handling := handling }

theorem Inv.establish (inv : v.Inv c) (head : v.queue = .functor (.onConnectEstablished d) :: rest)
    (connecting : v.link.conn.status = .kConnecting) :
    (({ v with queue := rest }.setLink (v.link.established c)).record (.connCb true)).Inv c := by
  obtain ⟨awaited,tested⟩ := inv.counts head
  exact
  { sound := inv.sound.established
    concerns := inv.rest_concerns head
    fresh := fun connecting => by cases connecting
    awaited := by simpa [setLink,record,Task.isTest,Event.isTest] using awaited
    tested := by simpa [setLink,record,Task.isDestroy,Event.isTest] using tested
    torn := by simpa [setLink,record,Link.established] using inv.not_torn (by simp [connecting])
    handling := inv.rest_handling head (by simp) }

theorem Inv.test (inv : v.Inv c) (head : v.queue = .functor (.onConnectDestroyed d) :: rest) :
    (({ v with queue := rest }.record (.testDestroyed b)).before [.destroy c b]).Inv c := by
  obtain ⟨awaited,tested⟩ := inv.counts head
  exact { inv with
    concerns := by simpa [record,before,Task.concerns] using inv.rest_concerns head
    fresh := fun connecting => absurd connecting (inv.settled head (by simp))
    awaited := by
      simp only [List.countP_cons,Task.isTest,if_true] at awaited
      simp [record,before,Task.isTest,Event.isTest]
      omega
    tested := by
      simp only [List.countP_cons,Task.isDestroy,Bool.false_eq_true,if_false] at tested
      simp [record,before,List.countP_cons,Task.isDestroy,Event.isTest]
      omega
    torn := by simpa [record,before] using inv.torn
    handling := fun handling => List.mem_append_right _ (inv.rest_handling head (by simp) handling) }

theorem Inv.destroy (inv : v.Inv c) (head : v.queue = .destroy d b :: rest) (events : List Event)
    (told : ∀ event ∈ events, ∃ up, event = .connCb up) :
    Inv c { v with link := v.link.removed, queue := rest, trace := v.trace ++ events ++ [.destroyed] } := by
  obtain ⟨awaited,tested⟩ := inv.counts head
  have untested : events.countP Event.isTest = 0 := List.countP_eq_zero.mpr fun event among => by
    obtain ⟨up,rfl⟩ := told event among
    simp [Event.isTest]
  have unended : events.count .destroyed = 0 := List.count_eq_zero_of_not_mem fun among => by
    obtain ⟨up,same⟩ := told _ among
    cases same
  exact
  { sound := inv.sound.removed
    concerns := inv.rest_concerns head
    fresh := fun connecting => by cases connecting
    awaited := by simpa [untested,Task.isTest,Event.isTest] using awaited
    tested := by
      simp only [List.countP_cons,Task.isDestroy,if_true] at tested
      simp [untested,unended,Event.isTest]
      omega
    torn := by simp [Link.removed]
    handling := inv.rest_handling head (by simp) }

theorem Inv.remove (inv : v.Inv c) (positive : 0 < v.removals) (mapped : v.mapped = true) :
    (({ v with removals := v.removals - 1, mapped := false }.record .queueDestroyed).queueInLoop
      (.onConnectDestroyed c)).Inv c := by
  have awaited := inv.awaited
  exact { inv with
    concerns := concerns_append inv.concerns
    fresh := fun connecting => by
      obtain ⟨-,-,none,-⟩ := inv.fresh connecting
      omega
    awaited := by
      simp [record,queueInLoop,mapped,Task.isTest,Event.isTest] at awaited ⊢
      omega
    tested := by simpa [record,queueInLoop,Task.isDestroy,Event.isTest] using inv.tested
    torn := by simpa [record,queueInLoop] using inv.torn
    handling := fun handling => List.mem_append_left _ (inv.handling handling) }

theorem Inv.destroyBase (inv : v.Inv c) (mapped : v.mapped = true) (base : v.link.conn.loop = 0) :
    ({ v with alive := false, mapped := false }.before [.functor (.onConnectDestroyed c)]).Inv c := by
  have awaited := inv.awaited
  exact { inv with
    concerns := List.forall_mem_cons.mpr ⟨concerns_test,inv.concerns⟩
    fresh := fun connecting => absurd base (inv.fresh connecting).1
    awaited := by
      rw [mapped,Bool.toNat_true] at awaited
      simp only [before,List.cons_append,List.nil_append,List.countP_cons,Task.isTest,if_true,Bool.toNat_false]
      omega
    tested := by simpa [before,Task.isDestroy] using inv.tested
    handling := fun handling => List.mem_append_right _ (inv.handling handling) }

/-- A connection that waits to be established is destroyed behind that. -/
theorem Inv.destroyAway (inv : v.Inv c) (mapped : v.mapped = true) (away : v.link.conn.loop ≠ 0) :
    ({ v with alive := false, mapped := false }.queueInLoop (.onConnectDestroyed c)).Inv c := by
  have awaited := inv.awaited
  exact { inv with
    concerns := concerns_append inv.concerns
    fresh := fun connecting => by
      obtain ⟨_,uncalled,none,queue,quietly⟩ := inv.fresh connecting
      refine ⟨away,uncalled,none,.inr ?_,quietly⟩
      rcases queue with only | both
      · simp [queueInLoop,only]
      · rw [both,mapped] at awaited
        simp [Task.isTest] at awaited
        omega
    awaited := by
      simp [queueInLoop,mapped,Task.isTest] at awaited ⊢
      omega
    tested := by simpa [queueInLoop,Task.isDestroy] using inv.tested
    handling := fun handling => List.mem_append_left _ (inv.handling handling) }

theorem Inv.change (inv : v.Inv c) (change : Change c v a w) : w.Inv c := by
  cases change with
  | quiet quiet _ => exact inv.quiet quiet
  | shutdown connected quiet _ _ => exact inv.shutdown connected quiet
  | report _ _ interest _ => exact inv.report interest
  | begin _ head => exact inv.begin head
  | done _ head => exact inv.done head
  | closeBase _ head closes up small _ _ mapped => exact inv.closeBase head closes up small mapped
  | closeAway _ head closes up small _ _ => exact inv.closeAway head closes up small
  | establish _ head connecting => exact inv.establish head connecting
  | test _ head => exact inv.test head
  | destroyUp _ head => exact inv.destroy head [.connCb false] (by simp)
  | destroyClosed _ head _ _ => simpa [setLink,record] using inv.destroy head [] (by simp)
  | remove _ positive _ mapped => exact inv.remove positive mapped
  | destroyBase _ mapped base => exact inv.destroyBase mapped base
  | destroyAway _ mapped away => exact inv.destroyAway mapped away
  | destroyOther unmapped => exact { inv with awaited := by simpa [unmapped] using inv.awaited }
  | drop _ _ _ _ _ => exact { inv with }

/-- What the server has of a connection when `HandleNewConnection` is through with it. -/
theorem initial_cases (first : initial c v) : ∃ loop fd input output writeCompleteCb,
    let x : Link := ⟨TcpConnection.construct loop fd input output writeCompleteCb,.empty⟩
    x.Sound c ∧ output.readable = [] ∧
      (loop = 0 ∧ v = ((accepted x).setLink (x.established c)).record (.connCb true) ∨
        loop ≠ 0 ∧ v = (accepted x).queueInLoop (.onConnectEstablished c)) := by
  obtain ⟨loop,fd,input,output,writeCompleteCb,inputSmall,outputSmall,empty,made⟩ := first
  have sound : Link.Sound c ⟨TcpConnection.construct loop fd input output writeCompleteCb,.empty⟩ :=
    ⟨inputSmall,outputSmall,.connecting rfl ⟨rfl,rfl,rfl⟩ rfl⟩
  refine ⟨loop,fd,input,output,writeCompleteCb,sound,empty,?_⟩
  by_cases base : loop = 0
  · simp only [if_pos base,perform,accepted,deref,Bool.false_eq_true,if_false,ok_bind,
      Link.onConnectEstablished_eq sound rfl,applyEffects,applyEffect] at made
    exact .inl ⟨base,(Except.ok.inj made).symm⟩
  · simp only [if_neg base] at made
    exact .inr ⟨base,made⟩

theorem initial_inv (first : initial c v) : v.Inv c := by
  obtain ⟨loop,fd,input,output,writeCompleteCb,sound,-,⟨-,rfl⟩ | ⟨away,rfl⟩⟩ := initial_cases first
  · exact ⟨sound.established,by simp [setLink,record,accepted],fun connecting => (by cases connecting),rfl,rfl,
      by simp [setLink,record,accepted,Link.established],fun handling => by cases handling⟩
  · refine ⟨sound,?_,fun _ => ⟨away,rfl,rfl,.inl rfl,by simp [queueInLoop,accepted]⟩,rfl,rfl,
      by simp [queueInLoop,accepted,TcpConnection.construct],fun handling => by cases handling⟩
    simp [queueInLoop,accepted,Task.concerns,Functor.about]

theorem Inv.step_change (inv : v.Inv c) (allowed : v.enabled c a) : Ensures (Change c v a) (v.step c a) := by
  refine Life.step_change inv.sound inv.concerns (fun connecting => ?_) allowed
  obtain ⟨-,uncalled,-,queue,-⟩ := inv.fresh connecting
  rcases queue with first | first
  · exact ⟨⟨c,_,first⟩,uncalled⟩
  · exact ⟨⟨c,_,first⟩,uncalled⟩

theorem reachable_inv (reachable : (machine c).Reachable v) : v.Inv c :=
  reachable.invariant (fun _ => initial_inv) fun _ _ w inv allowed stepped =>
    inv.change (inv.step_change allowed w stepped)

/-- An iteration comes to its functors last, so that a connection is not destroyed in the
middle of a dispatch of its own. -/
structure Lined (v : Life) : Prop where
  ordered : v.queue.Pairwise fun first later => later.isDispatch = true → first.isDispatch = true
  rested : (∃ d b, .destroy d b ∈ v.queue) ∨ .destroyed ∈ v.trace → ∀ task ∈ v.queue, task.isDispatch = false

theorem Lined.later (lined : v.Lined) (head : v.queue = task :: rest) (functor : task.isDispatch = false) :
    ∀ task ∈ rest, task.isDispatch = false := by
  intro later among
  have ordered := lined.ordered
  rw [head,List.pairwise_cons] at ordered
  exact Bool.eq_false_iff.mpr fun dispatch => by simp [ordered.1 later among dispatch] at functor

/-- A dispatch that is still to run shows that the test has not been made. -/
theorem Lined.dispatching (lined : v.Lined) (head : v.queue = task :: rest) (dispatch : task.isDispatch = true) :
    (∀ d b, .destroy d b ∉ v.queue) ∧ .destroyed ∉ v.trace := by
  have among : task ∈ v.queue := by simp [head]
  constructor
  · intro d b destroy
    simp [lined.rested (.inl ⟨d,b,destroy⟩) task among] at dispatch
  · intro destroyed
    simp [lined.rested (.inr destroyed) task among] at dispatch

theorem Lined.keep (lined : v.Lined)
    (queue : ∃ front rest extra, v.queue = front ++ rest ∧ w.queue = rest ++ extra ∧
      ∀ task ∈ extra, task.isFunctor = true)
    (trace : .destroyed ∈ w.trace → (∃ d b, .destroy d b ∈ v.queue) ∨ .destroyed ∈ v.trace) : w.Lined := by
  obtain ⟨front,rest,extra,before,after,functors⟩ := queue
  have quiet (task : Task) (new : task ∈ extra) : task.isDispatch ≠ true := by
    simp [functor_not_dispatch (functors task new)]
  have old {task : Task} (among : task ∈ rest) : task ∈ v.queue := by
    rw [before]
    exact List.mem_append_right _ among
  have destroys {d b} (among : .destroy d b ∈ w.queue) : .destroy d b ∈ v.queue := by
    rw [after] at among
    refine (List.mem_append.mp among).elim old fun new => ?_
    simpa [Task.isFunctor] using functors _ new
  constructor
  · have ordered := lined.ordered
    rw [before,List.pairwise_append] at ordered
    rw [after,List.pairwise_append]
    refine ⟨ordered.2.1,?_,fun _ _ task new dispatch => absurd dispatch (quiet task new)⟩
    exact List.pairwise_of_forall_mem_list fun _ _ task new dispatch => absurd dispatch (quiet task new)
  · intro started task among
    rw [after] at among
    rcases List.mem_append.mp among with kept | new
    · exact lined.rested (started.elim (fun queued =>
        .inl (queued.imp fun d => Exists.imp fun b => destroys)) trace) task (old kept)
    · exact Bool.eq_false_iff.mpr (quiet task new)

theorem Lined.pop (lined : v.Lined) (head : v.queue = task :: rest) (queue : w.queue = rest)
    (trace : .destroyed ∈ w.trace → (∃ d b, .destroy d b ∈ v.queue) ∨ .destroyed ∈ v.trace) : w.Lined :=
  lined.keep ⟨[task],rest,[],head,queue.trans (List.append_nil _).symm,by simp⟩ trace

theorem Lined.quiet (lined : v.Lined) (quiet : Quiet c v w) : w.Lined := by
  obtain ⟨front,rest,extra,before,after,-,pushed⟩ := quiet.queue
  exact lined.keep ⟨front,rest,extra,before,after,fun task among => (pushed task among).2.1⟩
    fun ended => .inr ((quiet.mem_trace rfl).mp ended)

/-- Only a destructor that runs in a dispatch of one of its own connections puts a
teardown before it. -/
theorem Lined.change (lined : v.Lined) (inv : v.Inv c)
    (outside : a = .destroyServer → v.mapped = true → v.link.conn.loop = 0 → ∀ task ∈ v.queue, task.isDispatch = false)
    (change : Change c v a w) : w.Lined := by
  cases change with
  | quiet quiet _ => exact lined.quiet quiet
  | shutdown connected quiet _ _ =>
    refine Lined.quiet ?_ quiet
    refine ⟨lined.ordered,fun started => lined.rested (started.imp id fun ended => ?_)⟩
    simpa [setLink,record] using ended
  | report live functors interest reportable =>
    constructor
    · exact List.pairwise_cons.mpr ⟨fun _ _ _ => rfl,lined.ordered⟩
    · rintro (⟨d,b,among⟩ | ended)
      · have old : .destroy d b ∈ v.queue := by simpa [setLink,before] using among
        simpa [Task.isFunctor] using functors _ old
      · -- a channel that was removed is not in the interest set
        simp [(inv.unregistered ended).slot,Slot.empty] at interest
  | begin live head =>
    obtain ⟨none,unended⟩ := lined.dispatching head rfl
    have ordered := lined.ordered
    rw [head,List.pairwise_cons] at ordered
    constructor
    · simp only [setLink,before]
      refine List.pairwise_append.mpr ⟨by simp [System.stages,Task.isDispatch],ordered.2,fun stage among _ _ _ => ?_⟩
      rcases (by simpa [System.stages] using among : stage = _ ∨ stage = _ ∨ stage = _ ∨ stage = _ ∨ stage = _) with
        rfl | rfl | rfl | rfl | rfl
      all_goals rfl
    · rintro (⟨d,b,among⟩ | ended)
      · exact absurd (by simpa [setLink,before,System.stages,head] using among) (none d b)
      · exact absurd ended unended
  | done live head => exact lined.pop head rfl .inr
  | closeBase live head closes up small base alive mapped =>
    refine lined.keep ⟨[_],_,_,head,rfl,by simp [Task.isFunctor]⟩ fun ended => .inr ?_
    simpa [setLink,record,queueInLoop] using ended
  | closeAway live head closes up small away alive =>
    exact lined.pop head rfl fun ended => .inr (by simpa [setLink,record] using ended)
  | establish live head connecting =>
    exact lined.pop head rfl fun ended => .inr (by simpa [setLink,record] using ended)
  | test live head =>
    have still := lined.later head rfl
    have ordered := lined.ordered
    rw [head,List.pairwise_cons] at ordered
    constructor
    · exact List.pairwise_cons.mpr ⟨fun task among dispatch => by simp [still task among] at dispatch,ordered.2⟩
    · intro _ task among
      rcases List.mem_cons.mp among with rfl | old
      · rfl
      · exact still task old
  | destroyUp live head | destroyClosed live head =>
    exact lined.pop head rfl fun _ => .inl ⟨_,_,head ▸ List.mem_cons_self⟩
  | remove live positive alive mapped =>
    refine lined.keep ⟨[],_,_,rfl,rfl,by simp [Task.isFunctor]⟩ fun ended => .inr ?_
    simpa [record,queueInLoop] using ended
  | destroyBase live mapped base =>
    have none := outside rfl mapped base
    have still (task : Task) (among : task ∈ .functor (.onConnectDestroyed c) :: v.queue) :
        task.isDispatch = false := by
      rcases List.mem_cons.mp among with rfl | old
      · rfl
      · exact none task old
    refine ⟨List.pairwise_of_forall_mem_list fun _ _ task among dispatch => ?_,fun _ => still⟩
    simp [still task among] at dispatch
  | destroyAway live mapped away => exact lined.keep ⟨[],_,_,rfl,rfl,by simp [Task.isFunctor]⟩ .inr
  | destroyOther unmapped | drop live unmapped => exact ⟨lined.ordered,lined.rested⟩

theorem initial_lined (first : initial c v) : v.Lined := by
  obtain ⟨loop,fd,input,output,writeCompleteCb,-,-,⟨-,rfl⟩ | ⟨-,rfl⟩⟩ := initial_cases first
  · exact ⟨.nil,by simp [setLink,record,accepted]⟩
  · exact ⟨by simp [queueInLoop,accepted],by simp [queueInLoop,accepted]⟩

/-- While the server is there, only a closed connection is taken out of the map or
destroyed, and never in the middle of a dispatch: an iteration comes to its functors
last. -/
structure Running (v : Life) : Prop where
  unmapped : v.mapped = false → v.link.conn.status = .kDisconnected
  removing : 0 < v.removals → v.link.conn.status = .kDisconnected
  undestroyed : ∀ d, .destroy d true ∉ v.queue
  ordered : v.queue.Pairwise fun first later => later.isDispatch = true → first.isDispatch = true
  rested : (∃ d b, .destroy d b ∈ v.queue) ∨ .destroyed ∈ v.trace → ∀ task ∈ v.queue, task.isDispatch = false

theorem Running.lined (running : v.Running) : v.Lined := ⟨running.ordered,running.rested⟩

theorem Running.down_of_test (running : v.Running) (inv : v.Inv c)
    (head : v.queue = .functor (.onConnectDestroyed d) :: rest) :
    v.link.conn.status = .kDisconnected := by
  have awaited := inv.awaited
  rw [head,List.countP_cons,Task.isTest,if_pos rfl] at awaited
  refine running.unmapped (Bool.eq_false_iff.mpr fun mapped => ?_)
  rw [mapped,Bool.toNat_true] at awaited
  omega

theorem Running.change (running : v.Running) (inv : v.Inv c) (stays : a ≠ .destroyServer) (change : Change c v a w) :
    w.Running := by
  have lined := running.lined.change inv (fun leaves => absurd leaves stays) change
  have keep (unmapped : w.mapped = false → w.link.conn.status = .kDisconnected)
      (removing : 0 < w.removals → w.link.conn.status = .kDisconnected)
      (destroys : ∀ d, .destroy d true ∈ w.queue → .destroy d true ∈ v.queue) : w.Running :=
    ⟨unmapped,removing,fun d among => running.undestroyed d (destroys d among),lined.ordered,lined.rested⟩
  have later {task rest} (head : v.queue = task :: rest) (d : ConnId) (among : .destroy d true ∈ rest) :
      .destroy d true ∈ v.queue := by
    rw [head]
    exact List.mem_cons_of_mem _ among
  cases change with
  | quiet quiet _ =>
    obtain ⟨removals,mapped,-,-⟩ := quiet.same
    refine keep (fun gone => ?_) (fun some => ?_) fun d => (quiet.mem_queue rfl).mp
    · exact quiet.link.status.trans (running.unmapped (mapped ▸ gone))
    · exact quiet.link.status.trans (running.removing (removals ▸ some))
  | shutdown connected quiet queue _ =>
    have up : v.link.conn.status ≠ .kDisconnected := by simp [connected]
    obtain ⟨removals,mapped,-,-⟩ := quiet.same
    refine keep (fun gone => ?_) (fun some => ?_) fun d among => queue ▸ among
    · exact absurd (running.unmapped (mapped.symm.trans gone)) up
    · exact absurd (running.removing (removals ▸ some)) up
  | report live functors interest reportable =>
    exact keep running.unmapped running.removing fun d among => by simpa [setLink,before] using among
  | begin live head =>
    exact keep running.unmapped running.removing fun d among => by simpa [setLink,before,System.stages,head] using among
  | done live head => exact keep running.unmapped running.removing (later head)
  | closeBase live head closes up small base alive mapped =>
    exact keep (fun _ => rfl) (fun _ => rfl) fun d among =>
      later head d (by simpa [setLink,record,queueInLoop] using among)
  | closeAway live head closes up small away alive => exact keep (fun _ => rfl) (fun _ => rfl) (later head)
  | establish live head connecting =>
    have early : v.link.conn.status ≠ .kDisconnected := by simp [connecting]
    exact keep (fun gone => absurd (running.unmapped gone) early) (fun some => absurd (running.removing some) early)
      (later head)
  | test live head =>
    have down := running.down_of_test inv head
    refine keep (fun _ => down) (fun _ => down) fun d among => later head d ?_
    refine (List.mem_cons.mp among).resolve_left fun new => ?_
    simp [TcpConnection.isConnected,down] at new
  | destroyUp live head => exact absurd (head ▸ List.mem_cons_self) (running.undestroyed _)
  | destroyClosed live head closed known => exact keep (fun _ => rfl) (fun _ => rfl) (later head)
  | remove live positive alive mapped =>
    have down := running.removing positive
    exact keep (fun _ => down) (fun _ => down) fun d among => by simpa [record,queueInLoop] using among
  | destroyBase | destroyAway | destroyOther => exact absurd rfl stays
  | drop live unmapped unheld removals calls => exact keep running.unmapped running.removing fun _ => id

theorem initial_running (first : initial c v) : v.Running := by
  have lined := initial_lined first
  obtain ⟨loop,fd,input,output,writeCompleteCb,-,-,⟨-,rfl⟩ | ⟨-,rfl⟩⟩ := initial_cases first
  · exact ⟨fun unmapped => (by cases unmapped),by simp [setLink,record,accepted],by simp [setLink,record,accepted],
      lined.ordered,lined.rested⟩
  · exact ⟨fun unmapped => (by cases unmapped),by simp [queueInLoop,accepted],by simp [queueInLoop,accepted],
      lined.ordered,lined.rested⟩

theorem alive_of_change (change : Change c v a w) (alive : w.alive = true) : v.alive = true ∧ a ≠ .destroyServer := by
  cases change with
  | quiet quiet flow =>
    refine ⟨quiet.same.2.2.1 ▸ alive,?_⟩
    rintro rfl
    cases flow
  | shutdown connected quiet _ _ => exact ⟨quiet.same.2.2.1 ▸ alive,by simp⟩
  | destroyBase | destroyAway | destroyOther => cases alive
  | _ => exact ⟨alive,by simp⟩

theorem reachable_running (reachable : (machine c).Reachable v) (alive : v.alive = true) : v.Running := by
  induction reachable with
  | initial first => exact initial_running first
  | step before allowed stepped ih =>
    have inv := reachable_inv before
    have change := inv.step_change allowed _ stepped
    obtain ⟨there,stays⟩ := alive_of_change change alive
    exact (ih there).change inv stays change

structure Unreferenced (c : ConnId) (v : Life) : Prop where
  mapped : v.mapped = false
  removals : v.removals = 0
  calls : v.calls = []
  queue : ∀ task ∈ v.queue, task.holds c = false

/-- Nobody gets a reference to a connection that has been freed. -/
theorem unreferenced_of_freed (reachable : (machine c).Reachable v) (gone : v.freed = true) : v.Unreferenced c := by
  induction reachable with
  | initial first =>
    obtain ⟨loop,fd,input,output,writeCompleteCb,-,-,⟨-,rfl⟩ | ⟨-,rfl⟩⟩ := initial_cases first <;> cases gone
  | step before allowed stepped ih =>
    cases (reachable_inv before).step_change allowed _ stepped with
    | quiet quiet | shutdown _ quiet => simp [quiet.same.2.2.2,quiet.live] at gone
    | destroyOther unmapped => exact ⟨rfl,(ih gone).removals,(ih gone).calls,(ih gone).queue⟩
    | drop live unmapped unheld removals calls => exact ⟨unmapped,removals,calls,unheld⟩
    | report live | begin live | done live | closeBase live | closeAway live | establish live | test live
    | destroyUp live | destroyClosed live | remove live | destroyBase live | destroyAway live =>
      simp [setLink,record,Life.before,queueInLoop,live] at gone

end Life
end Evk
