import Evk.Life
import Evk.ServerHomes

/-! The server refines the lives of its connections: every step of the server is, for
each connection, a step of that connection's life or nothing. -/
namespace Evk

theorem Task.concerns_about {task : Task} (concerns : task.concerns c = true) : task.about = some c := by
  cases task with
  | functor f => cases f <;> simp_all [Task.concerns,Task.about]
  | _ => simp_all [Task.concerns,Task.about]

namespace System

variable {s t : System} {c d : ConnId} {x y : Link} {v : Life} {l : LoopId}

theorem setLoop_other {loop : Loop}
    (same : loop.work.filter (Task.concerns c) = (s.loops l).work.filter (Task.concerns c))
    (removals : loop.work.count (.functor (.removeConnectionInLoop c)) =
      (s.loops l).work.count (.functor (.removeConnectionInLoop c))) : (s.setLoop l loop).life c = s.life c := by
  have queue (k : LoopId) : ((s.setLoop l loop).loops k).work.filter (Task.concerns c) =
      (s.loops k).work.filter (Task.concerns c) := by
    by_cases own : k = l
    · simp [setLoop,own,same]
    · simp [setLoop,own]
  have count (k : LoopId) : ((s.setLoop l loop).loops k).work.count (.functor (.removeConnectionInLoop c)) =
      (s.loops k).work.count (.functor (.removeConnectionInLoop c)) := by
    by_cases own : k = l
    · simp [setLoop,own,removals]
    · simp [setLoop,own]
  refine congrArg (Option.map · (s.conns c)) (funext fun x => ?_)
  simp only [view,queue,count]
  rfl

theorem unconcerned {task : Task} (other : task.about ≠ some c) : task.concerns c = false :=
  Bool.eq_false_iff.mpr fun concerns => other (Task.concerns_about concerns)

theorem queueInLoop_other (other : f.about ≠ c) : (s.queueInLoop l f).life c = s.life c := by
  have about : (Task.functor f).about ≠ some c := by simpa [Task.about] using other
  refine setLoop_other ?_ ?_
  · simp [Loop.work,unconcerned about]
  · have : Task.functor f ≠ .functor (.removeConnectionInLoop c) := by
      rintro ⟨⟩
      exact other rfl
    simp [Loop.work,this]

theorem before_other {tasks : List Task} (other : ∀ task ∈ tasks, task.about ≠ some c) :
    (s.before l tasks).life c = s.life c := by
  refine setLoop_other ?_ ?_
  · have : tasks.filter (Task.concerns c) = [] := by
      simpa using fun task among => unconcerned (other task among)
    simp [Loop.work,this]
  · have : .functor (.removeConnectionInLoop c) ∉ tasks := fun among => other _ among rfl
    simp [Loop.work,List.count_eq_zero_of_not_mem this]

theorem setLink_other (other : d ≠ c) : (s.setLink d y).life c = s.life c := by
  simp [life,setLink,Function.update_of_ne other.symm]
  rfl

theorem record_other (other : d ≠ c) : (s.record d event).life c = s.life c := by
  refine congrArg (Option.map · (s.conns c)) (funext fun x => ?_)
  simp [view,eventsOf,record,other]

theorem begin_other (call : Call) (other : call.about ≠ c) : (s.begin thread call).life c = s.life c := by
  refine congrArg (Option.map · (s.conns c)) (funext fun x => ?_)
  simp [view,begin,other]

theorem unlist_other (other : d ≠ c) :
    life c { s with connections := s.connections.filter (· ≠ d) } = s.life c := by
  refine congrArg (Option.map · (s.conns c)) (funext fun x => ?_)
  have same : (s.connections.filter (· ≠ d)).contains c = s.connections.contains c := by
    simp [other.symm]
  simp only [view,same]

/-- A computation that does not touch a connection. -/
def Frames (c : ConnId) (s : System) (r : Except Fault System) : Prop := Ensures (fun t => t.life c = s.life c) r

theorem removeConnectionInLoop_frame (other : d ≠ c) : Frames c s (s.removeConnectionInLoop l d) := by
  refine ensures_check.bind fun _ _ => ensures_check.bind fun _ _ => (Ensures.any _).bind fun x _ =>
    ensures_assert.bind fun _ _ => .ok ?_
  rw [queueInLoop_other (by exact other),record_other other,unlist_other other]

theorem removeConnection_frame (other : d ≠ c) : Frames c s (s.removeConnection l d) := by
  refine ensures_check.bind fun _ _ => ?_
  split
  · exact removeConnectionInLoop_frame other
  · exact .ok (queueInLoop_other other)

theorem applyEffect_frame (other : d ≠ c) (effect : Effect) : Frames c s (s.applyEffect l d x effect) := by
  cases effect with
  | connCb | msgCb | shutDownWrite => exact .ok (record_other other)
  | queueWriteComplete | queueHighWaterMark => exact .ok (queueInLoop_other other)
  | closeCb =>
    intro t done
    rw [removeConnection_frame other t done,record_other other]

theorem applyEffects_frame (other : d ≠ c) (effects : List Effect) : Frames c s (applyEffects l d x effects s) := by
  induction effects generalizing s with
  | nil => exact .ok rfl
  | cons effect effects ih =>
    exact (applyEffect_frame other effect).bind fun t same u done => (ih u done).trans same

theorem perform_frame (other : d ≠ c) : Frames c s (s.perform l d method) := by
  refine (Ensures.any _).bind fun x _ => ensures_check.bind fun _ _ => (Ensures.any _).bind fun (y,effects) _ => ?_
  intro t done
  rw [applyEffects_frame other effects t done,setLink_other other]

theorem setHandling_frame (other : d ≠ c) : Frames c s (s.setHandling d b) :=
  (Ensures.any _).bind fun _ _ => .ok (setLink_other other)

theorem dispatch_frame (other : d ≠ c) : Frames c s (s.dispatch l d wants handler) := by
  refine (Ensures.any _).bind fun x _ => ?_
  split
  · exact perform_frame other
  · exact .ok rfl

theorem runTask_frame (other : task.about ≠ some c) : Frames c s (s.runTask l io task) := by
  cases task with
  | handleEvent d =>
    have other : d ≠ c := by simpa [Task.about] using other
    refine (setHandling_frame other).bind fun t same => .ok ?_
    rw [before_other (by simpa [stages,Task.about] using other),same]
  | stage d stage =>
    have apart : d ≠ c := by simpa [Task.about] using other
    cases stage with
    | done => exact setHandling_frame apart
    | _ => exact dispatch_frame apart
  | doPendingFunctors => exact .ok (setLoop_other (by simp [Loop.work]) (by simp [Loop.work]))
  | destroy d b =>
    have other : d ≠ c := by simpa [Task.about] using other
    exact (perform_frame other).bind fun t same => .ok ((record_other other).trans same)
  | functor f =>
    have other : f.about ≠ c := by simpa [Task.about] using other
    cases f with
    | onConnectEstablished | sendInLoop | shutdownInLoop => exact perform_frame other
    | removeConnectionInLoop => exact removeConnectionInLoop_frame other
    | writeComplete | highWaterMark => exact (Ensures.any _).bind fun _ _ => .ok rfl
    | onConnectDestroyed d =>
      have apart : d ≠ c := other
      refine (Ensures.any _).bind fun x _ => ensures_check.bind fun _ _ => .ok ?_
      rw [before_other (by simpa [Task.about] using apart),record_other apart]

theorem held_of_life (seen : s.life c = some v) : s.conns c = some v.link := by
  obtain ⟨x,held,rfl⟩ := Option.map_eq_some_iff.mp seen
  exact held

theorem life_of_held (held : s.conns c = some x) : s.life c = some (s.view c x) := by simp [life,held]

theorem view_of_life (seen : s.life c = some v) : v = s.view c v.link := by
  obtain ⟨x,held,rfl⟩ := Option.map_eq_some_iff.mp seen
  rfl

theorem deref_own (seen : s.life c = some v) : s.deref c = v.deref := by
  obtain ⟨x,held,rfl⟩ := Option.map_eq_some_iff.mp seen
  simp [deref,held,Life.deref,view]

theorem record_own (seen : s.life c = some v) (event : Event) :
    (s.record c event).life c = some (v.record event) := by
  obtain ⟨x,held,rfl⟩ := Option.map_eq_some_iff.mp seen
  refine (life_of_held (s := s.record c event) held).trans (congrArg some ?_)
  simp [view,eventsOf,record,Life.record]

theorem begin_own (seen : s.life c = some v) (own : call.about = c) :
    (s.begin thread call).life c = some (v.begin thread call) := by
  obtain ⟨x,held,rfl⟩ := Option.map_eq_some_iff.mp seen
  refine (life_of_held (s := s.begin thread call) held).trans (congrArg some ?_)
  simp [view,begin,Life.begin,own]

theorem setLink_own (seen : s.life c = some v) (same : y.conn.loop = v.link.conn.loop) :
    (s.setLink c y).life c = some (v.setLink y) := by
  obtain ⟨x,held,rfl⟩ := Option.map_eq_some_iff.mp seen
  rw [life_of_held (x := y) (by simp [setLink])]
  have same : y.conn.loop = x.conn.loop := same
  simp [view,setLink,Life.setLink,same]

theorem unlist_own (seen : s.life c = some v) :
    life c { s with connections := s.connections.filter (· ≠ c) } = some { v with mapped := false } := by
  obtain ⟨x,held,rfl⟩ := Option.map_eq_some_iff.mp seen
  refine (life_of_held (s := { s with connections := s.connections.filter (· ≠ c) }) held).trans (congrArg some ?_)
  simp [view]

theorem setLoop_own (seen : s.life c = some v) (loop : Loop) :
    (s.setLoop l loop).life c = some { v with
      queue := if v.link.conn.loop = l then loop.work.filter (Task.concerns c) else v.queue
      removals := if 0 = l then loop.work.count (.functor (.removeConnectionInLoop c)) else v.removals } := by
  obtain ⟨x,held,rfl⟩ := Option.map_eq_some_iff.mp seen
  refine (life_of_held (s := s.setLoop l loop) held).trans (congrArg some ?_)
  have work (k : LoopId) : ((s.setLoop l loop).loops k).work = if k = l then loop.work else (s.loops k).work := by
    by_cases own : k = l
    · simp [setLoop,own]
    · simp [setLoop,own]
  simp only [view,work,apply_ite (List.filter (Task.concerns c)),
    apply_ite (List.count (Task.functor (.removeConnectionInLoop c)))]
  rfl

theorem queueInLoop_own (seen : s.life c = some v) (loop : v.link.conn.loop = l)
    (concerns : (Task.functor f).concerns c = true) : (s.queueInLoop l f).life c = some (v.queueInLoop f) := by
  obtain ⟨x,held,rfl⟩ := Option.map_eq_some_iff.mp seen
  have loop : x.conn.loop = l := loop
  have kind : Task.functor f ≠ .functor (.removeConnectionInLoop c) := by
    rintro ⟨⟩
    simp [Task.concerns] at concerns
  refine (setLoop_own seen _).trans (congrArg some ?_)
  simp only [view,Life.queueInLoop,Loop.work,List.map_append,List.map_cons,List.map_nil,← List.append_assoc,loop,
    if_true,List.filter_append,List.filter_cons,concerns,List.filter_nil]
  congr 1
  by_cases base : 0 = l
  · subst base
    simp [kind]
  · simp [base]

theorem queueRemoval_own (seen : s.life c = some v) :
    (s.queueInLoop 0 (.removeConnectionInLoop c)).life c = some { v with removals := v.removals + 1 } := by
  obtain ⟨x,held,rfl⟩ := Option.map_eq_some_iff.mp seen
  refine (setLoop_own seen _).trans (congrArg some ?_)
  simp only [view,Loop.work,List.map_append,List.map_cons,List.map_nil,← List.append_assoc,if_true,
    List.filter_append,List.filter_cons,Task.concerns,List.filter_nil,List.count_append]
  congr 1
  · by_cases base : x.conn.loop = 0
    · simp [base]
    · simp [base]
  · simp

theorem before_own {tasks : List Task} (seen : s.life c = some v)
    (loop : tasks.filter (Task.concerns c) = [] ∨ v.link.conn.loop = l)
    (kind : .functor (.removeConnectionInLoop c) ∉ tasks) :
    (s.before l tasks).life c = some (v.before (tasks.filter (Task.concerns c))) := by
  obtain ⟨x,held,rfl⟩ := Option.map_eq_some_iff.mp seen
  refine (setLoop_own seen _).trans (congrArg some ?_)
  simp only [view,Life.before,Loop.work,List.append_assoc,List.filter_append tasks,List.count_append,
    List.count_eq_zero_of_not_mem kind,Nat.zero_add]
  congr 1
  · rcases loop with none | here
    · by_cases here : x.conn.loop = l
      · simp [none,here]
      · simp [none,here]
    · have here : x.conn.loop = l := here
      simp [here]
  · by_cases base : 0 = l
    · subst base
      simp
    · simp [base]

/-- The computation on the server does to the connection what its life does. -/
abbrev Follows (c : ConnId) : Except Fault System → Except Fault Life → Prop :=
  Agree fun s v => life c s = some v

theorem check_follows {p q : Prop} [Decidable p] [Decidable q] {fault : Fault} {r : Except Fault System}
    {r' : Except Fault Life} (same : p ↔ q) (rest : p → Follows c r r') :
    Follows c (check p fault >>= fun _ => r) (check q fault >>= fun _ => r') := by
  by_cases holds : p
  · simpa [check_of holds,check_of (same.mp holds)] using rest holds
  · simpa [check,holds,mt same.mpr holds] using Agree.error fault

theorem deref_follows (seen : s.life c = some v) {f : Link → Except Fault System} {g : Link → Except Fault Life}
    (rest : v.freed = false → Follows c (f v.link) (g v.link)) : Follows c (s.deref c >>= f) (v.deref >>= g) := by
  rw [deref_own seen,Life.deref]
  by_cases gone : v.freed = true
  · simpa [gone] using Agree.error _
  · simpa [gone] using rest (by simpa using gone)

theorem alive_of_life (seen : s.life c = some v) : v.alive = s.alive := by rw [view_of_life seen]; rfl

theorem mapped_of_life (seen : s.life c = some v) : v.mapped = true ↔ c ∈ s.connections := by
  rw [view_of_life seen]
  simp [view]

theorem removeConnectionInLoop_follows (seen : s.life c = some v) :
    Follows c (s.removeConnectionInLoop 0 c) (v.removeConnectionInLoop c) := by
  refine check_follows (by rw [alive_of_life seen]) fun _ => ?_
  rw [check_of rfl,ok_bind]
  refine deref_follows seen fun _ => check_follows (mapped_of_life seen).symm fun _ => .ok ?_
  exact queueInLoop_own (record_own (unlist_own seen) _) rfl (by simp [Task.concerns,Functor.about])

theorem removeConnection_follows (seen : s.life c = some v) (loop : v.link.conn.loop = l) :
    Follows c (s.removeConnection l c) (v.removeConnection c) := by
  refine check_follows (by rw [alive_of_life seen]) fun _ => ?_
  subst loop
  split
  · rename_i base
    rw [base]
    exact removeConnectionInLoop_follows seen
  · exact .ok (queueRemoval_own seen)

theorem removeConnection_link : Ensures (fun w : Life => w.link = v.link) (v.removeConnection c) := by
  refine ensures_check.bind fun _ _ => ?_
  split
  · exact ensures_check.bind fun _ _ => (Ensures.any _).bind fun _ _ => ensures_assert.bind fun _ _ => .ok rfl
  · exact .ok rfl

theorem applyEffect_follows (seen : s.life c = some v) (link : v.link = x) (loop : x.conn.loop = l) (effect : Effect) :
    Agree (fun t w => life c t = some w ∧ w.link = x) (s.applyEffect l c x effect) (v.applyEffect c x effect) := by
  subst link
  cases effect with
  | connCb | msgCb | shutDownWrite => exact .ok ⟨record_own seen _,rfl⟩
  | queueWriteComplete | queueHighWaterMark =>
    exact .ok ⟨queueInLoop_own seen rfl (by simp [Task.concerns,Functor.about]),rfl⟩
  | closeCb =>
    exact (removeConnection_follows (record_own seen .closeCb) loop).and_right removeConnection_link

theorem applyEffects_follows (seen : s.life c = some v) (link : v.link = x) (loop : x.conn.loop = l)
    (effects : List Effect) : Follows c (applyEffects l c x effects s) (v.applyEffects c x effects) := by
  induction effects generalizing s v with
  | nil => exact .ok seen
  | cons effect effects ih =>
    exact (applyEffect_follows seen link loop effect).bind fun t w ⟨seen',link'⟩ => ih seen' link'

theorem perform_follows (seen : s.life c = some v) (loop : v.link.conn.loop = l) (steady : Link.Steady method) :
    Follows c (s.perform l c method) (v.perform c method) := by
  refine deref_follows seen fun _ => ?_
  rw [check_of loop,ok_bind]
  cases done : method v.link with
  | error e => exact .error e
  | ok result =>
    have same := steady v.link result done
    exact applyEffects_follows (setLink_own seen same) rfl (same.trans loop) result.2

theorem dispatch_follows (seen : s.life c = some v) (loop : v.link.conn.loop = l) (steady : Link.Steady handler) :
    Follows c (s.dispatch l c wants handler) (v.dispatch c wants handler) := by
  refine deref_follows seen fun _ => ?_
  split
  · exact perform_follows seen loop steady
  · exact .ok seen

theorem setHandling_follows (seen : s.life c = some v) (b : Bool) :
    Agree (fun t w => life c t = some w ∧ w.link.conn.loop = v.link.conn.loop)
      (s.setHandling c b) (v.setHandling b) := by
  have follows : Follows c (s.setHandling c b) (v.setHandling b) :=
    deref_follows seen fun _ => .ok (setLink_own seen rfl)
  exact follows.and_right (v.deref_spec.bind fun x ⟨same,_⟩ => .ok (by rw [same]; rfl))

theorem runTask_follows (seen : s.life c = some v) (loop : v.link.conn.loop = l) (concerns : task.concerns c = true) :
    Follows c (s.runTask l io task) (v.runTask c io task) := by
  cases task with
  | handleEvent d =>
    obtain rfl : d = c := by simpa [Task.concerns] using concerns
    refine (setHandling_follows seen true).bind fun t w ⟨seen',same⟩ => .ok ?_
    have kind : .functor (.removeConnectionInLoop d) ∉ stages d := by simp [stages]
    simpa [stages,Task.concerns] using before_own seen' (.inr (same.trans loop)) kind
  | stage d stage =>
    obtain rfl : d = c := by simpa [Task.concerns] using concerns
    cases stage with
    | close => exact dispatch_follows seen loop Link.handleClose_steady
    | error => exact dispatch_follows seen loop Link.handleError_steady
    | read => exact dispatch_follows seen loop Link.handleRead_steady
    | write => exact dispatch_follows seen loop Link.handleWrite_steady
    | done =>
      exact deref_follows seen fun _ => .ok (setLink_own seen rfl)
  | doPendingFunctors => simp [Task.concerns] at concerns
  | destroy d b =>
    obtain rfl : d = c := by simpa [Task.concerns] using concerns
    exact (perform_follows seen loop Link.onConnectDestroyed_steady).bind fun t w seen' => .ok (record_own seen' _)
  | functor f =>
    obtain rfl : f.about = c := by simpa [Task.about] using Task.concerns_about concerns
    cases f with
    | onConnectEstablished => exact perform_follows seen loop Link.onConnectEstablished_steady
    | sendInLoop => exact perform_follows seen loop Link.sendInLoop_steady
    | shutdownInLoop => exact perform_follows seen loop Link.shutdownInLoop_steady
    | removeConnectionInLoop => simp [Task.concerns] at concerns
    | writeComplete | highWaterMark => exact deref_follows seen fun _ => .ok seen
    | onConnectDestroyed d =>
      refine deref_follows seen fun _ => ?_
      rw [check_of loop,ok_bind]
      have kind : .functor (.removeConnectionInLoop d) ∉ [Task.destroy d v.link.conn.isConnected] := by simp
      exact .ok (by simpa [Task.concerns,Functor.about] using before_own (record_own seen _) (.inr loop) kind)

/-- What a step of the server is to one connection. -/
def lifeAction (c : ConnId) (s : System) : Action → Option Life.Action
  | .poll _ reports => (reports.find? (·.1 = c)).map fun report => .report report.2
  | .run l io =>
    match (s.loops l).todo with
    | [] => none
    | task :: _ =>
      if task.concerns c then some (.work io)
      else if task = .functor (.removeConnectionInLoop c) then some .remove
      else none
  | .accept _ _ => none
  | .destroyServer _ => some .destroyServer
  | .send t d message io => if d = c then some (.send t message io) else none
  | .push t call => if call.about = c then some (.push t call) else none
  | .shutdown t d => if d = c then some (.shutdown t) else none
  | .drop d => if d = c then some .drop else none

/-- A task at the head of a loop, once popped, is at the head of the connection's queue. -/
theorem pop_concerns (seen : s.life c = some v) (loop : v.link.conn.loop = l) (head : (s.loops l).todo = task :: todo)
    (concerns : task.concerns c = true) : ∃ queue, v.queue = task :: queue ∧
      (s.setLoop l { s.loops l with todo }).life c = some { v with queue } := by
  have kind : task ≠ .functor (.removeConnectionInLoop c) := by
    rintro rfl
    simp [Task.concerns] at concerns
  refine ⟨(todo ++ (s.loops l).pending.map Task.functor).filter (Task.concerns c),?_,?_⟩
  · rw [view_of_life seen]
    simp [view,loop,Loop.work,head,concerns]
  · refine (setLoop_own seen _).trans (congrArg some ?_)
    rw [view_of_life seen]
    simp only [view,loop,Loop.work,if_true]
    congr 1
    by_cases base : 0 = l
    · subst base
      simp [head,kind]
    · simp [base]

theorem pop_removal (seen : s.life c = some v)
    (head : (s.loops 0).todo = .functor (.removeConnectionInLoop c) :: todo) :
    0 < v.removals ∧ (s.setLoop 0 { s.loops 0 with todo }).life c = some { v with removals := v.removals - 1 } := by
  obtain ⟨x,held,rfl⟩ := Option.map_eq_some_iff.mp seen
  refine ⟨by simp [view,Loop.work,head],(setLoop_own seen _).trans (congrArg some ?_)⟩
  simp only [view,Loop.work,if_true]
  congr 1
  · by_cases base : x.conn.loop = 0
    · simp [base,head,Task.concerns]
    · simp [base]
  · simp [head]

theorem pop_other (head : (s.loops l).todo = task :: todo) (other : task.about ≠ some c) :
    (s.setLoop l { s.loops l with todo }).life c = s.life c := by
  have kind : task ≠ .functor (.removeConnectionInLoop c) := by
    rintro rfl
    exact other rfl
  refine setLoop_other ?_ ?_
  · simp [Loop.work,head,unconcerned other]
  · simp [Loop.work,head,kind]

theorem about_cases {task : Task} (about : task.about = some c) :
    task.concerns c = true ∨ task = .functor (.removeConnectionInLoop c) := by
  cases task with
  | functor f => cases f <;> simp_all [Task.concerns,Task.about,Functor.about]
  | _ => simp_all [Task.concerns,Task.about]

theorem loop_of_head (placed : s.Placed) (seen : s.life c = some v) (head : (s.loops l).todo = task :: todo)
    (concerns : task.concerns c = true) : v.link.conn.loop = l := by
  obtain ⟨x,held,home⟩ := placed.tasks l task (by simp [Loop.work,head]) c (Task.concerns_about concerns)
  obtain rfl : v.link = x := Option.some.inj ((held_of_life seen).symm.trans held)
  cases task with
  | functor f =>
    cases f with
    | removeConnectionInLoop => simp [Task.concerns] at concerns
    | _ => exact home
  | _ => exact home

theorem work_follows (io : Io) (placed : s.Placed) (seen : s.life c = some v) (head : (s.loops l).todo = task :: todo)
    (concerns : task.concerns c = true) : v.link.conn.loop = l ∧ (∃ queue, v.queue = task :: queue) ∧
      Follows c (s.run l io) (v.work c io) := by
  have loop := loop_of_head placed seen head concerns
  obtain ⟨queue,queued,popped⟩ := pop_concerns seen loop head concerns
  refine ⟨loop,⟨queue,queued⟩,?_⟩
  simp only [run,head,Life.work,queued]
  exact runTask_follows popped loop concerns

theorem lifeAction_run (action : s.lifeAction c (.run l io) = some b) : b = .work io ∨ b = .remove := by
  simp only [lifeAction] at action
  split at action
  · cases action
  · split at action
    · exact .inl (Option.some.inj action).symm
    · split at action
      · exact .inr (Option.some.inj action).symm
      · cases action

/-- The connection's work is the work of its loop about it. -/
theorem lifeAction_work (placed : s.Placed) (seen : s.life c = some v)
    (action : s.lifeAction c a = some (.work io)) : ∃ l task todo, a = .run l io ∧ (s.loops l).todo = task :: todo ∧
      task.concerns c = true ∧
      v.queue = task :: (todo ++ (s.loops l).pending.map Task.functor).filter (Task.concerns c) := by
  cases a with
  | poll l reports => simp [lifeAction] at action
  | run l io' =>
    cases head : (s.loops l).todo with
    | nil => simp [lifeAction,head] at action
    | cons task todo =>
      by_cases concerns : task.concerns c = true
      · simp only [lifeAction,head,concerns,if_true,Option.some.injEq,Life.Action.work.injEq] at action
        subst action
        refine ⟨l,task,todo,rfl,head,concerns,?_⟩
        have loop := loop_of_head placed seen head concerns
        rw [view_of_life seen]
        simp [view,loop,Loop.work,head,concerns]
      · simp only [lifeAction,head,if_neg concerns] at action
        split at action <;> simp at action
  | accept | destroyServer => simp [lifeAction] at action
  | send t d message io' | push t call | shutdown t d | drop d =>
    simp only [lifeAction] at action
    split at action <;> simp at action

theorem remove_follows (io : Io) (placed : s.Placed) (seen : s.life c = some v)
    (head : (s.loops l).todo = .functor (.removeConnectionInLoop c) :: todo) :
    0 < v.removals ∧ Follows c (s.run l io) (v.step c .remove) := by
  obtain ⟨_,_,home⟩ := placed.tasks l _ (by simp [Loop.work,head]; exact .inl rfl) c rfl
  obtain rfl : 0 = l := home
  obtain ⟨positive,popped⟩ := pop_removal seen head
  refine ⟨positive,?_⟩
  simp only [run,head]
  exact removeConnectionInLoop_follows popped

/-- The reports of one poll name a connection at most once. -/
theorem fillActiveChannels_life (seen : s.life c = some v) (reports : List (ConnId × PollEvents))
    (nodup : (reports.map Prod.fst).Nodup) :
    Ensures (fun t => match reports.find? (·.1 = c) with
      | none => t.life c = some v
      | some report => v.freed = false ∧ ∃ channel,
        Channel.fillActive c v.link.conn.channel v.link.slot report.2 = .ok channel ∧
        t.life c = some (v.setLink (v.link.setChannel channel))) (fillActiveChannels reports s) := by
  induction reports generalizing s v with
  | nil => exact .ok seen
  | cons report reports ih =>
    obtain ⟨fresh,nodup⟩ := List.nodup_cons.mp nodup
    refine deref_spec.bind fun x ⟨held,live⟩ => ?_
    intro t done
    obtain ⟨channel,filled,done⟩ := bind_ok_iff.mp done
    by_cases own : report.1 = c
    · subst own
      obtain rfl : v.link = x := Option.some.inj ((held_of_life seen).symm.trans held)
      have rest : reports.find? (·.1 = report.1) = none := by
        simp only [List.find?_eq_none,decide_eq_true_eq]
        rintro other among same
        exact fresh (same ▸ List.mem_map_of_mem among)
      have later := ih (setLink_own seen (y := v.link.setChannel channel) rfl) nodup t done
      rw [rest] at later
      simp only [List.find?_cons,decide_true]
      refine ⟨?_,channel,filled,later⟩
      rw [view_of_life seen]
      simpa [view] using live
    · have later := ih ((setLink_other own).trans seen) nodup t done
      simpa [List.find?_cons,own] using later

theorem filter_handleEvents (reports : List (ConnId × PollEvents)) (nodup : (reports.map Prod.fst).Nodup) :
    (reports.map fun report => Task.handleEvent report.1).filter (Task.concerns c) =
      if (reports.find? (·.1 = c)).isSome then [.handleEvent c] else [] := by
  induction reports with
  | nil => rfl
  | cons report reports ih =>
    obtain ⟨fresh,nodup⟩ := List.nodup_cons.mp nodup
    by_cases own : report.1 = c
    · have rest : reports.find? (·.1 = c) = none := by
        simp only [List.find?_eq_none,decide_eq_true_eq]
        rintro other among same
        exact fresh (own ▸ same ▸ List.mem_map_of_mem among)
      have none := ih nodup
      rw [rest] at none
      simp only [List.map_cons,List.filter_cons,Task.concerns,own,decide_true,if_true,List.find?_cons,none]
      rfl
    · simp only [List.map_cons,List.filter_cons,Task.concerns,own,decide_false,Bool.false_eq_true,if_false,
        List.find?_cons,ih nodup]

/-- What an action means to the connection: a step of its life, or nothing. -/
def Moves (c : ConnId) (v : Life) : Option Life.Action → Life → Prop
  | some b, w => v.enabled c b ∧ v.step c b = .ok w
  | none, w => w = v

theorem poll_life (seen : s.life c = some v) (enabled : s.enabled (.poll l reports)) :
    Ensures (fun t => ∃ w, t.life c = some w ∧ Moves c v (s.lifeAction c (.poll l reports)) w) (s.poll l reports) := by
  obtain ⟨rested,-,nodup,reported⟩ := enabled
  have filtered := filter_handleEvents (c := c) reports nodup
  have kind : .functor (.removeConnectionInLoop c) ∉
      (reports.map fun report => Task.handleEvent report.1) ++ [.doPendingFunctors] := by simp
  refine (fillActiveChannels_life seen reports nodup).bind fun t filled => .ok ?_
  cases found : reports.find? (·.1 = c) with
  | none =>
    rw [found] at filled filtered
    refine ⟨v,?_,by simp [lifeAction,found,Moves]⟩
    have prepended := before_own (l := l) filled (.inl (by simp [filtered,Task.concerns])) kind
    simpa [filtered,Task.concerns,Life.before] using prepended
  | some report =>
    rw [found] at filled filtered
    obtain ⟨live,channel,active,seen'⟩ := filled
    obtain rfl : report.1 = c := by simpa using List.find?_some found
    obtain ⟨-,x,held,loop,entry,interest,named,reportable⟩ := reported report (List.mem_of_find?_eq_some found)
    obtain rfl : v.link = x := Option.some.inj ((held_of_life seen).symm.trans held)
    have prepended := before_own seen' (.inr loop) kind
    refine ⟨_,prepended,?_⟩
    simp only [lifeAction,found,Option.map_some,Moves,Life.step,Life.report,Life.deref,live,Bool.false_eq_true,
      if_false,ok_bind,active,List.filter_append,filtered]
    refine ⟨⟨live,?_,entry.2,?_,reportable⟩,by simp [Task.concerns]⟩
    · intro task among
      rw [view_of_life seen] at among
      simp only [view,loop,Loop.work,rested,List.nil_append,List.mem_filter,List.mem_map] at among
      obtain ⟨⟨f,-,rfl⟩,-⟩ := among
      rfl
    · rw [← named]
      exact interest

theorem destroyConnections_life (seen : s.life c = some v) (order : List ConnId) (nodup : order.Nodup) :
    Ensures (fun t => if c ∈ order then v.freed = false ∧ t.life c = some
        (if v.link.conn.loop = 0 then v.before [.functor (.onConnectDestroyed c)]
          else v.queueInLoop (.onConnectDestroyed c))
      else t.life c = some v) (destroyConnections order s) := by
  induction order with
  | nil => exact .ok seen
  | cons d order ih =>
    obtain ⟨fresh,nodup⟩ := List.nodup_cons.mp nodup
    refine (ih nodup).bind fun t later => deref_spec.bind fun x ⟨held,live⟩ => ?_
    by_cases own : d = c
    · subst own
      rw [if_neg fresh] at later
      obtain rfl : v.link = x := Option.some.inj ((held_of_life later).symm.trans held)
      have alive : v.freed = false := by
        rw [view_of_life later]
        simpa [view] using live
      simp only [List.mem_cons,true_or,if_true]
      split
      · rename_i base
        have kind : .functor (.removeConnectionInLoop d) ∉ [Task.functor (.onConnectDestroyed d)] := by simp
        refine .ok ⟨alive,?_⟩
        simpa [Task.concerns,Functor.about] using before_own later (.inr base) kind
      · exact .ok ⟨alive,queueInLoop_own later rfl (by simp [Task.concerns,Functor.about])⟩
    · have same : c ∈ d :: order ↔ c ∈ order := by simp [Ne.symm own]
      have framed : Frames c t (if x.conn.loop = 0 then pure (t.before 0 [.functor (.onConnectDestroyed d)])
          else pure (t.queueInLoop x.conn.loop (.onConnectDestroyed d))) := by
        split
        · exact .ok (before_other (by simpa [Task.about,Functor.about] using own))
        · exact .ok (queueInLoop_other own)
      intro u done
      rw [framed u done]
      simpa only [same] using later

theorem destroyServer_life (seen : s.life c = some v) (enabled : s.enabled (.destroyServer order)) :
    Ensures (fun t => ∃ w, t.life c = some w ∧ Moves c v (some .destroyServer) w) (s.destroyServer order) := by
  obtain ⟨alive,-,nodup,listed,all⟩ := enabled
  have mapped : v.mapped = true ↔ c ∈ order := (mapped_of_life seen).trans ⟨all c,listed c⟩
  have closed : life c { s with alive := false, connections := [] } =
      some { v with alive := false, mapped := false } := by
    obtain ⟨x,held,rfl⟩ := Option.map_eq_some_iff.mp seen
    exact life_of_held (s := { s with alive := false, connections := [] }) held
  intro t done
  have later := destroyConnections_life closed order nodup t done
  have running : v.enabled c .destroyServer := (alive_of_life seen).trans alive
  by_cases among : c ∈ order
  · simp only [if_pos among] at later
    obtain ⟨live,seen'⟩ := later
    refine ⟨_,seen',running,?_⟩
    have live : v.freed = false := live
    simp only [Life.step,Life.destroyServer,mapped.mpr among,if_true,Life.deref,live,
      Bool.false_eq_true,if_false,ok_bind]
    split <;> rfl
  · simp only [if_neg among] at later
    refine ⟨_,later,running,?_⟩
    simp [Life.step,Life.destroyServer,mt mapped.mp among]

theorem accept_other (old : c ≠ s.nextConnId) : Frames c s (s.handleNewConnection fd alloc) := by
  refine getNextLoop_spec.bind fun (ioLoop,t) ⟨next,same⟩ => (Ensures.any _).bind fun input _ =>
    (Ensures.any _).bind fun output _ => ?_
  obtain rfl : t = { s with next } := same
  have linked (x : Link) : life c (System.enlist x { s with next }) = s.life c := by
    rw [← setLink_other (s := s) (y := x) old.symm]
    refine congrArg (Option.map · _) (funext fun x => ?_)
    simp [view,enlist,setLink,old]
  dsimp only
  split
  · intro u done
    rw [perform_frame old.symm u done]
    exact linked _
  · exact .ok ((queueInLoop_other (f := .onConnectEstablished _) old.symm).trans (linked _))

theorem Placed.blank (placed : s.Placed) (x : Link) :
    s.view s.nextConnId x = { Life.accepted x with mapped := false, alive := s.alive } := by
  have unborn : ¬s.Born s.nextConnId := by
    rintro ⟨y,held⟩
    simp [placed.unborn] at held
  have untasked (l : LoopId) (task : Task) (among : task ∈ (s.loops l).work) : task.about ≠ some s.nextConnId := by
    intro about
    obtain ⟨y,held,-⟩ := placed.tasks l task among s.nextConnId about
    exact unborn ⟨y,held⟩
  have queue : (s.loops x.conn.loop).work.filter (Task.concerns s.nextConnId) = [] := by
    simpa using fun task among => unconcerned (untasked x.conn.loop task among)
  have removals : (s.loops 0).work.count (.functor (.removeConnectionInLoop s.nextConnId)) = 0 :=
    List.count_eq_zero_of_not_mem fun among => untasked 0 _ among rfl
  have unlisted : s.connections.contains s.nextConnId = false := by
    simpa using fun among => unborn (placed.listed _ among)
  have kept : s.freed.contains s.nextConnId = false := by
    simpa using fun among => unborn (placed.dropped _ among)
  have uncalled : s.calls.filter (·.2.about == s.nextConnId) = [] := by
    simp only [List.filter_eq_nil_iff,beq_iff_eq]
    exact fun call among own => unborn (own ▸ placed.called call among)
  have untraced : eventsOf s.nextConnId s.trace = [] := by
    simp only [eventsOf,List.filterMap_eq_nil_iff,ite_eq_right_iff,reduceCtorEq,imp_false,beq_iff_eq]
    exact fun entry among own => unborn (own ▸ placed.traced entry among)
  simp only [view,queue,removals,unlisted,kept,uncalled,untraced]
  rfl

theorem accept_own (placed : s.Placed) (alive : s.alive = true) :
    Ensures (fun t => ∃ w, t.life s.nextConnId = some w ∧ Life.initial s.nextConnId w)
      (s.handleNewConnection fd alloc) := by
  refine getNextLoop_spec.bind fun (ioLoop,t) ⟨next,same⟩ => ?_
  obtain rfl : t = { s with next } := same
  intro t done
  obtain ⟨input,first,done⟩ := bind_ok_iff.mp done
  obtain ⟨output,second,done⟩ := bind_ok_iff.mp done
  obtain ⟨inputSmall,-⟩ := Buffer.construct_returned first
  obtain ⟨outputSmall,empty⟩ := Buffer.construct_returned second
  let x : Link := ⟨TcpConnection.construct ioLoop fd input output s.writeCompleteCb,.empty⟩
  let u : System := System.enlist x { s with next }
  have done : (if ioLoop = 0 then u.perform 0 s.nextConnId (Link.onConnectEstablished s.nextConnId)
      else .ok (u.queueInLoop ioLoop (.onConnectEstablished s.nextConnId))) = .ok t := done
  have created : u.life s.nextConnId = some (Life.accepted x) := by
    have view := placed.blank x
    refine (life_of_held (s := u) (Function.update_self _ _ _)).trans (congrArg some ?_)
    have same : u.view s.nextConnId x = { s.view s.nextConnId x with mapped := true } := by
      simp [u,System.view,System.enlist,System.setLink]
    rw [same,view,alive]
    rfl
  by_cases base : ioLoop = 0
  · rw [if_pos base] at done
    have steady : Link.Steady (Link.onConnectEstablished s.nextConnId) := Link.onConnectEstablished_steady
    have follows := perform_follows created base steady
    rw [done] at follows
    obtain ⟨w,established,seen⟩ := follows.ok_left
    refine ⟨w,seen,ioLoop,fd,input,output,s.writeCompleteCb,inputSmall,outputSmall,empty,?_⟩
    simpa only [if_pos base] using established
  · rw [if_neg base] at done
    cases done
    refine ⟨_,queueInLoop_own created rfl (by simp [Task.concerns,Functor.about]),ioLoop,fd,input,output,
      s.writeCompleteCb,inputSmall,outputSmall,empty,?_⟩
    simp only [if_neg base]
    rfl

theorem send_follows (seen : s.life c = some v) :
    Follows c (s.send thread c message io) (v.send c thread message io) := by
  have tagged : life c { s with nextTag := s.nextTag + 1 } = some v := seen
  refine deref_follows seen fun _ => ?_
  dsimp only
  split
  · split
    · exact (perform_follows tagged rfl Link.sendInLoop_steady).bind fun t w seen' => .ok (record_own seen' _)
    · exact .ok (begin_own tagged rfl)
  · exact .ok tagged

theorem shutdown_follows (seen : s.life c = some v) : Follows c (s.shutdown thread c) (v.shutdown c thread) := by
  refine deref_follows seen fun _ => ?_
  cases flipped : v.link.shutdown with
  | none => exact .ok (record_own seen _)
  | some y =>
    have recorded := record_own (setLink_own seen (Link.shutdown_loop flipped)) (.shutdownCalled thread true)
    dsimp only
    split
    · exact perform_follows recorded rfl Link.shutdownInLoop_steady
    · exact .ok (begin_own recorded rfl)

theorem push_follows (seen : s.life c = some v) (own : call.about = c) :
    Follows c (s.push thread call) (v.push c thread call) := by
  have ended : life c { s with calls := s.calls.filter (· ≠ (thread,call)) } =
      some { v with calls := v.calls.filter (· ≠ (thread,call)) } := by
    obtain ⟨x,held,rfl⟩ := Option.map_eq_some_iff.mp seen
    refine (life_of_held (s := { s with calls := s.calls.filter (· ≠ (thread,call)) }) held).trans (congrArg some ?_)
    simp [view,Bool.and_comm]
  cases call with
  | sending d message =>
    obtain rfl : d = c := own
    refine deref_follows ended fun _ => .ok ?_
    exact record_own (queueInLoop_own ended rfl (by simp [Task.concerns,Functor.about])) _
  | shuttingDown d =>
    obtain rfl : d = c := own
    exact deref_follows ended fun _ => .ok (queueInLoop_own ended rfl (by simp [Task.concerns,Functor.about]))

theorem drop_follows (seen : s.life c = some v) : Follows c (s.drop c) v.drop := by
  refine deref_follows seen fun _ => check_follows Iff.rfl fun _ => ?_
  cases v.link.conn.channel.destroy with
  | error e => exact .error e
  | ok _ =>
    refine .ok ?_
    obtain ⟨x,held,rfl⟩ := Option.map_eq_some_iff.mp seen
    refine (life_of_held (s := { s with freed := c :: s.freed }) held).trans (congrArg some ?_)
    simp [view]

theorem send_frame (other : d ≠ c) : Frames c s (s.send thread d message io) := by
  refine (Ensures.any _).bind fun x _ => ?_
  dsimp only
  split
  · split
    · exact (perform_frame other).bind fun t same => .ok ((record_other other).trans same)
    · exact .ok (begin_other (.sending d message) other)
  · exact .ok rfl

theorem shutdown_frame (other : d ≠ c) : Frames c s (s.shutdown thread d) := by
  refine (Ensures.any _).bind fun x _ => ?_
  split
  · exact .ok (record_other other)
  · rename_i y _
    have recorded : ((s.setLink d y).record d (.shutdownCalled thread true)).life c = s.life c :=
      (record_other other).trans (setLink_other other)
    dsimp only
    split
    · exact fun t done => (perform_frame other t done).trans recorded
    · exact .ok ((begin_other (.shuttingDown d) other).trans recorded)

theorem push_frame (other : call.about ≠ c) : Frames c s (s.push thread call) := by
  have ended : life c { s with calls := s.calls.filter (· ≠ (thread,call)) } = s.life c := by
    refine congrArg (Option.map · (s.conns c)) (funext fun x => ?_)
    have same : (s.calls.filter (· ≠ (thread,call))).filter (·.2.about == c) = s.calls.filter (·.2.about == c) := by
      rw [List.filter_filter]
      refine List.filter_congr fun entry _ => ?_
      by_cases own : entry.2.about = c
      · have : entry ≠ (thread,call) := by
          rintro rfl
          exact other own
        simp [own,this]
      · simp [own]
    simp only [view,same]
  cases call with
  | sending d message =>
    exact (Ensures.any _).bind fun x _ => .ok ((record_other other).trans
      ((queueInLoop_other (f := .sendInLoop d message) other).trans ended))
  | shuttingDown d =>
    exact (Ensures.any _).bind fun x _ => .ok ((queueInLoop_other (f := .shutdownInLoop d) other).trans ended)

theorem drop_frame (other : d ≠ c) : Frames c s (s.drop d) := by
  refine (Ensures.any _).bind fun x _ => ensures_assert.bind fun _ _ => (Ensures.any _).bind fun _ _ => .ok ?_
  refine congrArg (Option.map · (s.conns c)) (funext fun x => ?_)
  simp [view,other.symm]

theorem live_of_life (seen : s.life c = some v) (present : s.Live c) : v.freed = false := by
  rw [view_of_life seen]
  simpa [view] using present.2

theorem drop_enabled (seen : s.life c = some v) (enabled : s.enabled (.drop c)) : v.enabled c .drop := by
  obtain ⟨present,unlisted,uncalled,unheld⟩ := enabled
  have idle := unheld v.link (held_of_life seen)
  refine ⟨live_of_life seen present,Bool.eq_false_iff.mpr fun mapped => unlisted ((mapped_of_life seen).mp mapped),?_⟩
  rw [view_of_life seen]
  refine ⟨?_,?_,?_⟩
  · refine List.count_eq_zero_of_not_mem fun among => ?_
    simpa [Task.holds,Functor.about] using idle _ (List.mem_append_right _ among)
  · simpa [view] using fun thread call among => uncalled (thread,call) among
  · exact fun task among => idle task (List.mem_append_left _ (List.mem_filter.mp among).1)

/-- A step about one connection, which is neither a poll nor the end of the server, does
to it what its life does, and fails as that fails. -/
theorem step_follows {a : Action} (placed : s.Placed) (enabled : s.enabled a) (seen : s.life c = some v)
    (action : s.lifeAction c a = some b) (nopoll : ∀ l reports, a ≠ .poll l reports)
    (running : ∀ order, a ≠ .destroyServer order) : v.enabled c b ∧ Follows c (s.step a) (v.step c b) := by
  cases a with
  | poll l reports => exact absurd rfl (nopoll l reports)
  | destroyServer order => exact absurd rfl (running order)
  | accept fd alloc => cases action
  | run l io =>
    obtain ⟨-,task,first,permits⟩ := enabled
    obtain ⟨todo,head⟩ : ∃ todo, (s.loops l).todo = task :: todo := List.head?_eq_some_iff.mp first
    simp only [lifeAction,head] at action
    split at action
    · cases action
      have concerns : task.concerns c = true := ‹_›
      obtain ⟨-,⟨queue,queued⟩,follows⟩ := work_follows io placed seen head concerns
      exact ⟨⟨task,queue,queued,permits c (Task.concerns_about concerns) v.link (held_of_life seen)⟩,follows⟩
    · split at action
      · cases action
        subst task
        exact remove_follows io placed seen head
      · cases action
  | send thread d message io =>
    rw [lifeAction] at action
    split at action
    · subst d
      cases action
      exact ⟨⟨live_of_life seen enabled.2.1,enabled.2.2.2 v.link (held_of_life seen)⟩,send_follows seen⟩
    · cases action
  | push thread call =>
    rw [lifeAction] at action
    split at action
    · have own : call.about = c := ‹_›
      cases action
      refine ⟨?_,push_follows seen own⟩
      rw [view_of_life seen]
      exact List.mem_filter.mpr ⟨enabled,by simpa using own⟩
    · cases action
  | shutdown thread d =>
    rw [lifeAction] at action
    split at action
    · subst d
      cases action
      exact ⟨live_of_life seen enabled.2,shutdown_follows seen⟩
    · cases action
  | drop d =>
    rw [lifeAction] at action
    split at action
    · subst d
      cases action
      exact ⟨drop_enabled seen enabled,drop_follows seen⟩
    · cases action

theorem step_frame {a : Action} (placed : s.Placed) (enabled : s.enabled a) (seen : s.life c = some v)
    (action : s.lifeAction c a = none) (nopoll : ∀ l reports, a ≠ .poll l reports) : Frames c s (s.step a) := by
  cases a with
  | poll l reports => exact absurd rfl (nopoll l reports)
  | destroyServer order => cases action
  | accept fd alloc =>
    refine accept_other ?_
    rintro rfl
    simpa [placed.unborn] using held_of_life seen
  | run l io =>
    obtain ⟨-,task,first,-⟩ := enabled
    obtain ⟨todo,head⟩ : ∃ todo, (s.loops l).todo = task :: todo := List.head?_eq_some_iff.mp first
    have other : task.about ≠ some c := fun about => by
      rcases about_cases about with concerns | removal
      · simp [lifeAction,head,concerns] at action
      · simp [lifeAction,head,removal,Task.concerns] at action
    intro t done
    simp only [step,run,head] at done
    exact (runTask_frame other t done).trans (pop_other head other)
  | send thread d message io => exact send_frame fun own => by simp [lifeAction,own] at action
  | push thread call => exact push_frame fun own => by simp [lifeAction,own] at action
  | shutdown thread d => exact shutdown_frame fun own => by simp [lifeAction,own] at action
  | drop d => exact drop_frame fun own => by simp [lifeAction,own] at action

/-- Every step of the server is a step of the connection's life or leaves it alone. -/
theorem step_life {a : Action} (placed : s.Placed) (enabled : s.enabled a) (seen : s.life c = some v) :
    Ensures (fun t => ∃ w, t.life c = some w ∧ Moves c v (s.lifeAction c a) w) (s.step a) := by
  by_cases polls : ∃ l reports, a = .poll l reports
  · obtain ⟨l,reports,rfl⟩ := polls
    exact poll_life seen enabled
  by_cases ends : ∃ order, a = .destroyServer order
  · obtain ⟨order,rfl⟩ := ends
    exact destroyServer_life seen enabled
  have nopoll : ∀ l reports, a ≠ .poll l reports := fun l reports same => polls ⟨l,reports,same⟩
  cases action : s.lifeAction c a with
  | none => exact fun t done => ⟨v,(step_frame placed enabled seen action nopoll t done).trans seen,rfl⟩
  | some b =>
    obtain ⟨allowed,follows⟩ := step_follows placed enabled seen action nopoll fun order same => ends ⟨order,same⟩
    intro t done
    rw [done] at follows
    obtain ⟨w,moved,seen'⟩ := follows.ok_left
    exact ⟨w,seen',allowed,moved⟩

theorem fillActiveChannels_frame (reports : List (ConnId × PollEvents)) (other : ∀ report ∈ reports, report.1 ≠ c) :
    Frames c s (fillActiveChannels reports s) := by
  induction reports generalizing s with
  | nil => exact .ok rfl
  | cons report reports ih =>
    obtain ⟨first,rest⟩ := List.forall_mem_cons.mp other
    refine (Ensures.any _).bind fun x _ => (Ensures.any _).bind fun channel _ => ?_
    exact fun t done => (ih rest t done).trans (setLink_other first)

theorem destroyConnections_frame (order : List ConnId) :
    Ensures (fun t => t.conns = s.conns ∧ t.freed = s.freed) (destroyConnections order s) := by
  induction order with
  | nil => exact .ok ⟨rfl,rfl⟩
  | cons d order ih =>
    refine ih.bind fun t same => (Ensures.any _).bind fun x _ => ?_
    split
    · exact .ok same
    · exact .ok same

/-- Only accepting a connection brings one into being. -/
theorem unborn_life (placed : s.Placed) (enabled : s.enabled a) (unborn : s.life c = none)
    (other : ∀ fd alloc, a = .accept fd alloc → c ≠ s.nextConnId) : Ensures (fun t => t.life c = none) (s.step a) := by
  have absent : s.conns c = none := Option.map_eq_none_iff.mp unborn
  have apart {d : ConnId} (born : s.Born d) : d ≠ c := by
    rintro rfl
    obtain ⟨x,held⟩ := born
    simp [absent] at held
  have live {d : ConnId} (present : s.Live d) : d ≠ c := apart (Option.isSome_iff_exists.mp present.1)
  have framed {r : Except Fault System} (frames : Frames c s r) : Ensures (fun t => t.life c = none) r :=
    fun t done => (frames t done).trans unborn
  cases a with
  | poll l reports =>
    have others : ∀ report ∈ reports, report.1 ≠ c := fun report among => by
      obtain ⟨-,x,held,-⟩ := enabled.2.2.2 report among
      exact apart ⟨x,held⟩
    refine framed ((fillActiveChannels_frame reports others).bind fun t same => .ok ((before_other ?_).trans same))
    intro task among
    rcases List.mem_append.mp among with active | last
    · obtain ⟨report,listed,rfl⟩ := List.mem_map.mp active
      simpa [Task.about] using others report listed
    · simp [List.mem_singleton.mp last,Task.about]
  | run l io =>
    obtain ⟨-,task,first,-⟩ := enabled
    obtain ⟨todo,head⟩ : ∃ todo, (s.loops l).todo = task :: todo := List.head?_eq_some_iff.mp first
    have other : task.about ≠ some c := fun about => by
      obtain ⟨x,held,-⟩ := placed.tasks l task (by simp [Loop.work,head]) c about
      exact apart ⟨x,held⟩ rfl
    refine framed fun t done => ?_
    simp only [step,run,head] at done
    exact (runTask_frame other t done).trans (pop_other head other)
  | accept fd alloc => exact framed (accept_other (other fd alloc rfl))
  | destroyServer order =>
    intro t done
    have same := (destroyConnections_frame order t done).1
    simp [life,same,absent]
  | send thread d message io => exact framed (send_frame (live enabled.2.1))
  | push thread call => exact framed (push_frame (apart (placed.called _ enabled)))
  | shutdown thread d => exact framed (shutdown_frame (live enabled.2))
  | drop d => exact framed (drop_frame (live enabled.1))

/-- The lives seen in a run of the server are runs of one connection's life; what the
server's steps observe carries over. -/
theorem reachable_life {allowed : System → Action → Prop} {permitted : Life → Life.Action → Prop}
    (carries : ∀ s a v b, s.Placed → s.life c = some v → s.enabled a → allowed s a → s.lifeAction c a = some b →
      permitted v b)
    (reachable : (machine.restrict allowed).Reachable s) (seen : s.life c = some v) :
    ((Life.machine c).restrict permitted).Reachable v := by
  refine Machine.Reachable.view ?_ ?_ reachable seen
  · rintro s ⟨poolSize,writeCompleteCb,rfl⟩
    rfl
  · intro s a t w before ⟨enabled,meets⟩ stepped seen'
    have placed := reachable_placed before.of_restrict
    cases seen : s.life c with
    | some v =>
      obtain ⟨w',seen'',moves⟩ := step_life placed enabled seen t stepped
      obtain rfl : w = w' := Option.some.inj (seen'.symm.trans seen'')
      refine .inr ⟨v,rfl,?_⟩
      cases action : s.lifeAction c a with
      | none =>
        rw [action] at moves
        exact .inl moves
      | some b =>
        rw [action] at moves
        exact .inr ⟨b,⟨moves.1,carries s a v b placed seen enabled meets action⟩,moves.2⟩
    | none =>
      by_cases birth : ∃ fd alloc, a = .accept fd alloc ∧ c = s.nextConnId
      · obtain ⟨fd,alloc,rfl,rfl⟩ := birth
        obtain ⟨w',seen'',initial⟩ := accept_own placed enabled.1 t stepped
        obtain rfl : w = w' := Option.some.inj (seen'.symm.trans seen'')
        exact .inl ⟨rfl,.initial initial⟩
      · have still := unborn_life placed enabled seen (fun fd alloc accepts same =>
          birth ⟨fd,alloc,accepts,same⟩) t stepped
        simp [seen'] at still

theorem life_reachable (reachable : machine.Reachable s) (seen : s.life c = some v) : (Life.machine c).Reachable v :=
  (reachable_life (fun _ _ _ _ _ _ _ _ _ => trivial) reachable.unrestricted seen).of_restrict

theorem life_of_event (reachable : machine.Reachable s) (recorded : (c,event) ∈ s.trace) :
    ∃ v, s.life c = some v ∧ v.trace = eventsOf c s.trace := by
  obtain ⟨x,held⟩ := (reachable_placed reachable).traced _ recorded
  exact ⟨_,life_of_held held,rfl⟩

theorem mem_eventsOf {history : List (ConnId × Event)} : event ∈ eventsOf c history ↔ (c,event) ∈ history := by
  simp [eventsOf]

end System
end Evk
