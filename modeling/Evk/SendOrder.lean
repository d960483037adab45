import Evk.GracefulShutdown
import Evk.PerSource

/-! The order of messages. Threads send on one connection at the same time; off the loop
thread a message waits in the loop's queue, on it a message goes to the socket at once.
The stream is made of messages that were sent, none more often than it was sent, and keeps
the order of every thread. -/
namespace Evk

open PerSource

def Event.sending : Event → Option (Thread × Message)
  | .sendReturned t message => some (t,message)
  | _ => none

def returned (events : List Event) : List (Thread × Message) := events.filterMap Event.sending

theorem returned_append (first later : List Event) : returned (first ++ later) = returned first ++ returned later :=
  List.filterMap_append

theorem returned_quiet {events : List Event} (quiet : ∀ event ∈ events, event.sending = none) (before : List Event) :
    returned (before ++ events) = returned before := by
  rw [returned_append,returned,returned,List.filterMap_eq_nil_iff.mpr quiet,List.append_nil]

theorem waiting_append (first later : List Task) : waiting (first ++ later) = waiting first ++ waiting later :=
  List.filterMap_append

theorem waiting_quiet {tasks : List Task} (quiet : ∀ task ∈ tasks, task.message = none) : waiting tasks = [] :=
  List.filterMap_eq_nil_iff.mpr quiet

theorem waiting_pop {task : Task} (quiet : task.message = none) (rest : List Task) :
    waiting (task :: rest) = waiting rest := by
  simp [waiting,quiet]

namespace Life

/-- What is in the stream or waiting for it can be signed by the threads that sent it, so
that each of them finds its messages in order. Nobody on the loop thread waits. -/
structure Signed (v : Life) (front back : List (Thread × Message)) : Prop where
  accepted : front.map Prod.snd = v.link.conn.accepted
  queued : back.map Prod.snd = waiting v.queue
  away : ∀ entry ∈ back, entry.1 ≠ .loop v.link.conn.loop
  ordered : Ordered (returned v.trace) (front ++ back)

structure InOrder (v : Life) : Prop where
  stream : v.link.stream = v.link.conn.accepted.flatMap Message.bytes
  calls : ∀ call ∈ v.calls, call.2.isSending = true → call.1 ≠ .loop v.link.conn.loop
  signed : ∃ front back, v.Signed front back

variable {c : ConnId} {v w : Life} {front back : List (Thread × Message)} {io : Io}

/-- Most steps leave messages and calls of `Send` alone. -/
structure Apart (v w : Life) : Prop where
  loop : w.link.conn.loop = v.link.conn.loop
  stream : w.link.stream = v.link.stream
  accepted : w.link.conn.accepted = v.link.conn.accepted
  queued : waiting w.queue = waiting v.queue
  returned : returned w.trace = returned v.trace
  calls : ∀ call ∈ w.calls, call ∈ v.calls ∨ call.2.isSending = false

theorem InOrder.apart (inv : v.InOrder) (apart : Apart v w) : w.InOrder where
  stream := by rw [apart.stream,apart.accepted]; exact inv.stream
  calls := by
    intro call among sending
    rw [apart.loop]
    rcases apart.calls call among with old | other
    · exact inv.calls call old sending
    · simp [other] at sending
  signed := by
    obtain ⟨front,back,signed⟩ := inv.signed
    refine ⟨front,back,?_,?_,?_,?_⟩
    · rw [apart.accepted]; exact signed.accepted
    · rw [apart.queued]; exact signed.queued
    · rw [apart.loop]; exact signed.away
    · rw [apart.returned]; exact signed.ordered

theorem sending_effects (y : Link) (effects : List Effect) :
    ∀ event ∈ effects.filterMap (Effect.event y), event.sending = none := by
  intro event among
  obtain ⟨effect,-,same⟩ := List.mem_filterMap.mp among
  cases effect with
  | connCb | msgCb | closeCb | shutDownWrite => cases same; rfl
  | queueWriteComplete | queueHighWaterMark => cases same

theorem message_effects (effects : List Effect) : ∀ task ∈ effects.filterMap (Effect.task c), task.message = none := by
  intro task among
  obtain ⟨effect,-,same⟩ := List.mem_filterMap.mp among
  cases effect with
  | connCb | msgCb | closeCb | shutDownWrite => cases same
  | queueWriteComplete | queueHighWaterMark => cases same; rfl

theorem waiting_afterEffects (y : Link) (effects : List Effect) :
    waiting (v.afterEffects c y effects).queue = waiting v.queue := by
  rw [afterEffects,waiting_append,waiting_quiet (message_effects effects),List.append_nil]

theorem returned_afterEffects (y : Link) (effects : List Effect) :
    returned (v.afterEffects c y effects).trace = returned v.trace :=
  returned_quiet (sending_effects y effects) _

/-- `SendInLoop` takes a message as a whole or not at all. -/
theorem sendInLoop_takes {x y : Link} (ready : x.Ready c) (writes : x.Writes r message.bytes.length)
    (done : x.sendInLoop c alloc message r = .ok (y,effects)) : y.conn.loop = x.conn.loop ∧
      ((y.stream = x.stream ∧ y.conn.accepted = x.conn.accepted) ∨
        y.stream = x.stream ++ message.bytes ∧ y.conn.accepted = x.conn.accepted ++ [message]) := by
  refine ⟨Link.sendInLoop_steady x _ done,?_⟩
  by_cases down : x.conn.status = .kDisconnected
  · simp only [Link.sendInLoop,down,if_true] at done
    cases done
    exact .inl ⟨rfl,rfl⟩
  · rcases Link.sendInLoop_spec ready down alloc message r (fun _ => writes.1) with
      ⟨-,refused⟩ | ⟨y',effects',done',-,stream,accepted⟩
    · cases refused.symm.trans done
    · cases done'.symm.trans done
      by_cases dropped : x.Dropped r
      · rw [if_pos dropped,List.append_nil] at stream accepted
        exact .inl ⟨stream,accepted⟩
      · rw [if_neg dropped] at stream accepted
        exact .inr ⟨stream,accepted⟩

theorem InOrder.send (inv : v.InOrder) (ready : v.link.Ready c) (writes : v.link.Writes io.write message.bytes.length)
    (head : v.queue = .functor (.sendInLoop d message) :: rest)
    (done : v.link.sendInLoop c io.alloc message io.write = .ok (y,effects)) :
    ({ v with queue := rest }.afterEffects c y effects).InOrder := by
  obtain ⟨loop,taken⟩ := sendInLoop_takes ready writes done
  obtain ⟨front,back,signed⟩ := inv.signed
  have queued := signed.queued
  rw [head] at queued
  change back.map Prod.snd = message :: waiting rest at queued
  obtain ⟨first,back,rfl,same,others⟩ := List.map_eq_cons_iff.mp queued
  have away : ∀ entry ∈ back, entry.1 ≠ .loop y.conn.loop := by
    rw [loop]
    exact fun entry among => signed.away entry (List.mem_cons_of_mem _ among)
  have queue := (waiting_afterEffects (v := { v with queue := rest }) (c := c) y effects).symm
  have returned := returned_afterEffects (v := { v with queue := rest }) (c := c) y effects
  have calls : ∀ call ∈ v.calls, call.2.isSending = true → call.1 ≠ .loop y.conn.loop := by
    rw [loop]
    exact inv.calls
  rcases taken with ⟨stream,accepted⟩ | ⟨stream,accepted⟩
  · refine ⟨?_,calls,front,back,?_,others.trans queue,away,?_⟩
    · exact stream.trans (inv.stream.trans (by rw [← accepted]; rfl))
    · exact signed.accepted.trans accepted.symm
    · rw [returned]
      exact signed.ordered.drop ((List.sublist_cons_self _ _).append_left _)
  · refine ⟨?_,calls,front ++ [first],back,?_,others.trans queue,away,?_⟩
    · change y.stream = y.conn.accepted.flatMap Message.bytes
      rw [stream,accepted,inv.stream,List.flatMap_append,List.flatMap_singleton]
    · rw [List.map_append,List.map_singleton,signed.accepted,same]
      exact accepted.symm
    · rw [returned,List.append_assoc,List.singleton_append]
      exact signed.ordered

/-- On the loop thread a message overtakes those that wait, and they are not its own. -/
theorem InOrder.sendHere (inv : v.InOrder) (ready : v.link.Ready c)
    (writes : v.link.Writes io.write message.bytes.length)
    (here : t = .loop v.link.conn.loop) (done : v.link.sendInLoop c io.alloc message io.write = .ok (y,effects)) :
    ((v.afterEffects c y effects).record (.sendReturned t message)).InOrder := by
  obtain ⟨loop,taken⟩ := sendInLoop_takes ready writes done
  obtain ⟨front,back,signed⟩ := inv.signed
  have away : ∀ entry ∈ back, entry.1 ≠ .loop y.conn.loop := loop ▸ signed.away
  have queue := (waiting_afterEffects (v := v) (c := c) y effects).symm
  have returned : returned ((v.afterEffects c y effects).record (.sendReturned t message)).trace =
      returned v.trace ++ [(t,message)] := by
    rw [record,returned_append,returned_afterEffects]
    rfl
  have calls : ∀ call ∈ v.calls, call.2.isSending = true → call.1 ≠ .loop y.conn.loop := loop ▸ inv.calls
  rcases taken with ⟨stream,accepted⟩ | ⟨stream,accepted⟩
  · refine ⟨?_,calls,front,back,?_,signed.queued.trans queue,away,?_⟩
    · exact stream.trans (inv.stream.trans (by rw [← accepted]; rfl))
    · exact signed.accepted.trans accepted.symm
    · rw [returned]
      exact signed.ordered.give _
  · refine ⟨?_,calls,front ++ [(t,message)],back,?_,signed.queued.trans queue,away,?_⟩
    · change y.stream = y.conn.accepted.flatMap Message.bytes
      rw [stream,accepted,inv.stream,List.flatMap_append,List.flatMap_singleton]
    · rw [List.map_append,List.map_singleton,signed.accepted]
      exact accepted.symm
    · rw [returned,List.append_assoc,List.singleton_append]
      exact signed.ordered.insert (fun entry among => here ▸ signed.away entry among) message

theorem InOrder.pushSend (inv : v.InOrder) (called : (t,Call.sending d message) ∈ v.calls) :
    (({ v with calls := v.calls.filter (· ≠ (t,Call.sending d message)) }.queueInLoop
      (.sendInLoop c message)).record (.sendReturned t message)).InOrder := by
  obtain ⟨front,back,signed⟩ := inv.signed
  refine ⟨inv.stream,fun call among => inv.calls call (List.mem_filter.mp among).1,front,back ++ [(t,message)],
    signed.accepted,?_,?_,?_⟩
  · change _ = waiting (v.queue ++ [.functor (.sendInLoop c message)])
    rw [waiting_append,List.map_append,signed.queued]
    rfl
  · intro entry among
    rcases List.mem_append.mp among with old | last
    · exact signed.away entry old
    · rw [List.mem_singleton.mp last]
      exact inv.calls _ called rfl
  · change Ordered (returned (v.trace ++ [.sendReturned t message])) _
    rw [returned_append,← List.append_assoc]
    exact signed.ordered.push _

theorem removeConnectionInLoop_calls : Ensures (fun w => w.calls = v.calls) (v.removeConnectionInLoop c) :=
  ensures_check.bind fun _ _ => (Ensures.any _).bind fun _ _ => ensures_assert.bind fun _ _ => .ok rfl

theorem applyEffects_calls (x : Link) (effects : List Effect) :
    Ensures (fun w => w.calls = v.calls) (applyEffects c x effects v) := by
  induction effects generalizing v with
  | nil => exact .ok rfl
  | cons effect effects ih =>
    have first : Ensures (fun w => w.calls = v.calls) (v.applyEffect c x effect) := by
      cases effect with
      | connCb | msgCb | shutDownWrite | queueWriteComplete | queueHighWaterMark => exact .ok rfl
      | closeCb =>
        refine ensures_check.bind fun _ _ => ?_
        split
        · exact removeConnectionInLoop_calls (v := v.record .closeCb)
        · exact .ok rfl
    exact first.bind fun w same u done => (ih u done).trans same

/-- `Send` on the loop thread leaves no call behind. -/
theorem send_calls (own : t = .loop v.link.conn.loop) :
    Ensures (fun w => w.calls = v.calls) (v.send c t message io) := by
  refine v.deref_spec.bind fun x found => ?_
  obtain ⟨rfl,-⟩ := found
  rw [if_pos own]
  split
  · have performed : Ensures (fun w => w.calls = v.calls) (v.perform c (Link.sendInLoop c io.alloc message io.write)) :=
      (Ensures.any _).bind fun _ _ => (Ensures.any _).bind fun result _ => applyEffects_calls result.1 result.2
    exact performed.bind fun w same => .ok same
  · exact .ok rfl

theorem message_of_not_talk {task : Task} (kind : task.isTalk = false) : task.message = none := by
  cases task with
  | functor f =>
    cases f with
    | sendInLoop => cases kind
    | _ => rfl
  | _ => rfl

theorem InOrder.flow (inv : v.InOrder) (life : v.Inv c) (allowed : v.enabled c a) (stepped : v.step c a = .ok w)
    (flow : Flow c v a w) : w.InOrder := by
  have kept (call : Thread × Call) (among : call ∈ v.calls) : call ∈ v.calls ∨ call.2.isSending = false := .inl among
  cases flow with
  | nothing => exact inv
  | pop head kind events =>
    refine inv.apart ⟨rfl,rfl,rfl,?_,?_,kept⟩
    · rw [head,waiting_pop (message_of_not_talk kind)]
    · exact returned_quiet (fun event among => by rw [events event among]; rfl) _
  | write head wants done =>
    obtain ⟨y,effects,done',-,stream,accepted,-⟩ := Link.handleWrite_spec life.sound.ready _
    cases done'.symm.trans done
    refine inv.apart ⟨Link.handleWrite_steady v.link _ done,stream,accepted,?_,returned_afterEffects _ _,kept⟩
    rw [waiting_afterEffects,head,waiting_pop rfl]
  | send head done =>
    obtain ⟨task,rest,queue,permits⟩ := allowed
    obtain ⟨rfl,-⟩ := List.cons.inj (queue.symm.trans head)
    exact inv.send life.sound.ready permits head done
  | shutdownInLoop head =>
    have same : v.link.shutdownInLoop.1.stream = v.link.stream ∧
        v.link.shutdownInLoop.1.conn.accepted = v.link.conn.accepted := by
      rw [Link.shutdownInLoop]
      split <;> exact ⟨rfl,rfl⟩
    refine inv.apart ⟨v.link.shutdownInLoop_loop,same.1,same.2,?_,returned_afterEffects _ _,kept⟩
    rw [waiting_afterEffects,head,waiting_pop rfl]
  | sendHere connected here done => exact inv.sendHere life.sound.ready allowed.2 here done
  | @sendAway t message io connected =>
    have away : t ≠ .loop v.link.conn.loop := fun own => by
      have same := congrArg List.length (send_calls own _ stepped)
      simp [begin] at same
    obtain ⟨front,back,signed⟩ := inv.signed
    refine ⟨inv.stream,fun call among sending => ?_,front,back,signed.accepted,signed.queued,signed.away,signed.ordered⟩
    rcases List.mem_append.mp among with old | last
    · exact inv.calls call old sending
    · rw [List.mem_singleton.mp last]
      exact away
  | pushSend => exact inv.pushSend allowed
  | pushShutdown =>
    refine inv.apart ⟨rfl,rfl,rfl,?_,rfl,fun call among => .inl (List.mem_filter.mp among).1⟩
    exact (waiting_append _ _).trans (List.append_nil _)
  | refused => exact inv.apart ⟨rfl,rfl,rfl,rfl,returned_quiet (by simp [Event.sending]) _,kept⟩

theorem InOrder.change (inv : v.InOrder) (life : v.Inv c) (allowed : v.enabled c a) (stepped : v.step c a = .ok w)
    (change : Change c v a w) : w.InOrder := by
  have kept (call : Thread × Call) (among : call ∈ v.calls) : call ∈ v.calls ∨ call.2.isSending = false := .inl among
  have quiet {events : List Event} (all : ∀ event ∈ events, event.sending = none) :
      returned (v.trace ++ events) = returned v.trace :=
    returned_quiet all _
  cases change with
  | quiet _ flow => exact inv.flow life allowed stepped flow
  | @shutdown t w connected _ queue flow =>
    have same (x : Link) : x.shutdownInLoop.1.stream = x.stream ∧
        x.shutdownInLoop.1.conn.accepted = x.conn.accepted := by
      rw [Link.shutdownInLoop]
      split <;> exact ⟨rfl,rfl⟩
    have half (x : Link) : ∀ event ∈ [.shutdownCalled t true] ++ halfClose x, event.sending = none := by
      rw [halfClose]
      split <;> simp [Event.sending]
    rcases flow with ⟨-,link,calls,trace⟩ | ⟨link,calls,trace⟩
    · refine inv.apart ⟨?_,?_,?_,by rw [queue],?_,?_⟩
      · rw [link,Link.shutdownInLoop_loop]; rfl
      · rw [link,(same _).1]; rfl
      · rw [link,(same _).2]; rfl
      · rw [trace,List.append_assoc,quiet (half _)]
      · rw [calls]; exact kept
    · refine inv.apart ⟨by rw [link]; rfl,by rw [link]; rfl,by rw [link]; rfl,by rw [queue],?_,fun call among => ?_⟩
      · rw [trace,quiet (by simp [Event.sending])]
      · rw [calls] at among
        rcases List.mem_append.mp among with old | last
        · exact .inl old
        · rw [List.mem_singleton.mp last]
          exact .inr rfl
  | report => exact inv.apart ⟨rfl,rfl,rfl,rfl,rfl,kept⟩
  | begin live head => exact inv.apart ⟨rfl,rfl,rfl,by rw [head]; rfl,rfl,kept⟩
  | done live head => exact inv.apart ⟨rfl,rfl,rfl,by rw [head]; rfl,rfl,kept⟩
  | closeBase live head =>
    refine inv.apart ⟨rfl,rfl,rfl,?_,?_,kept⟩
    · rw [head,waiting_pop rfl]
      exact (waiting_append _ _).trans (List.append_nil _)
    · exact (returned_quiet (by simp [Event.sending]) _).trans (quiet (by simp [Event.sending]))
  | closeAway live head =>
    exact inv.apart ⟨rfl,rfl,rfl,by rw [head]; rfl,quiet (by simp [Event.sending]),kept⟩
  | establish live head =>
    exact inv.apart ⟨rfl,rfl,rfl,by rw [head]; rfl,quiet (by simp [Event.sending]),kept⟩
  | test live head => exact inv.apart ⟨rfl,rfl,rfl,by rw [head]; rfl,quiet (by simp [Event.sending]),kept⟩
  | destroyUp live head =>
    refine inv.apart ⟨rfl,rfl,rfl,by rw [head]; rfl,?_,kept⟩
    exact (returned_quiet (by simp [Event.sending]) _).trans (quiet (by simp [Event.sending]))
  | destroyClosed live head =>
    exact inv.apart ⟨rfl,rfl,rfl,by rw [head]; rfl,quiet (by simp [Event.sending]),kept⟩
  | remove =>
    refine inv.apart ⟨rfl,rfl,rfl,?_,quiet (by simp [Event.sending]),kept⟩
    exact (waiting_append _ _).trans (List.append_nil _)
  | destroyBase => exact inv.apart ⟨rfl,rfl,rfl,rfl,rfl,kept⟩
  | destroyAway => exact inv.apart ⟨rfl,rfl,rfl,(waiting_append _ _).trans (List.append_nil _),rfl,kept⟩
  | destroyOther => exact inv.apart ⟨rfl,rfl,rfl,rfl,rfl,kept⟩
  | drop => exact inv.apart ⟨rfl,rfl,rfl,rfl,rfl,kept⟩

theorem initial_inOrder (first : initial c v) : v.InOrder := by
  obtain ⟨loop,fd,input,output,writeCompleteCb,-,empty,⟨-,rfl⟩ | ⟨-,rfl⟩⟩ := initial_cases first
  · exact ⟨empty,by simp [accepted,setLink,record],[],[],rfl,rfl,by simp,.nil⟩
  · exact ⟨empty,by simp [accepted,queueInLoop],[],[],rfl,rfl,by simp,.nil⟩

theorem reachable_inOrder (reachable : (machine c).Reachable v) : v.InOrder := by
  induction reachable with
  | initial first => exact initial_inOrder first
  | step before allowed stepped inv =>
    have life := reachable_inv before
    exact inv.change life allowed stepped (life.step_change allowed _ stepped)

end Life

namespace System

def returnedOn (c : ConnId) (s : System) : List (Thread × Message) := returned (eventsOf c s.trace)

/-- In every run, what the kernel has of a connection and what waits for it are whole
messages one behind the other. They can be signed by the threads that sent them so that
each thread finds its own in the order of its calls, and no call counts twice. -/
theorem sends_in_order (reachable : machine.Reachable s) (held : s.conns c = some x) :
    x.conn.sent ++ x.conn.outputBuffer.readable = x.conn.accepted.flatMap Message.bytes ∧
    ∃ signed : List (Thread × Message), signed.map Prod.snd = x.conn.accepted ∧
      (∀ t, (part t signed).Sublist (part t (s.returnedOn c))) ∧
      ∀ entry, signed.count entry ≤ (s.returnedOn c).count entry := by
  have inv := Life.reachable_inOrder (life_reachable reachable (life_of_held held))
  obtain ⟨front,back,signed⟩ := inv.signed
  have ordered : Ordered (s.returnedOn c) front := signed.ordered.drop (List.sublist_append_left _ _)
  exact ⟨inv.stream,front,signed.accepted,ordered,ordered.count_le⟩

/-- Another thread sends twice, and the loop thread once in between. -/
theorem sends_in_order_overtaken : ∃ s x, machine.Reachable s ∧ s.conns 1 = some x ∧
    x.conn.accepted.map Message.tag = [1,0,2] ∧ (s.returnedOn 1).map Prod.fst = [.other 0,.loop 0,.other 0] ∧
    ∃ signed : List (Thread × Message), signed.map Prod.snd = x.conn.accepted ∧
      ∀ t, (part t signed).Sublist (part t (s.returnedOn 1)) := by
  let first : Message := ⟨0,[7,8],by decide⟩
  let second : Message := ⟨1,[9],by decide⟩
  let third : Message := ⟨2,[5],by decide⟩
  let schedule : List Action := [.accept 5 Io.idle.alloc,.send (.other 0) 1 first .idle,
    .push (.other 0) (.sending 1 first),.send (.loop 0) 1 second { Io.idle with write := .wrote 1 },
    .send (.other 0) 1 third .idle,.push (.other 0)
      (.sending 1 third),.poll 0 [],.run 0 .idle,.run 0 .idle,.run 0 .idle]
  have reachable := Machine.Reachable.follow (m := machine) (.initial ⟨0,false,rfl⟩) schedule (by decide +kernel)
  have threads : ((schedule.foldl machine.advance (construct 0 false)).returnedOn 1).map Prod.fst =
      [.other 0,.loop 0,.other 0] := by decide +kernel
  have tags : ((schedule.foldl machine.advance (construct 0 false)).conns 1).map (·.conn.accepted.map Message.tag) =
      some [1,0,2] := by decide +kernel
  obtain ⟨x,held,order⟩ := Option.map_eq_some_iff.mp tags
  obtain ⟨-,signed,same,sublists,-⟩ := sends_in_order reachable held
  exact ⟨_,x,reachable,held,order,threads,signed,same,sublists⟩

end System
end Evk
