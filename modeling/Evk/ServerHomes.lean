import Evk.Server

/-! Every task stands in the loop it belongs to: what is about a connection in the loop
of that connection, removals in the base loop. So no handler runs on a foreign thread. -/
namespace Evk

namespace Link

/-- A method that leaves the connection on its loop. -/
def Steady (method : Link → Except Fault (Link × List Effect)) : Prop :=
  ∀ x, Ensures (fun result => result.1.conn.loop = x.conn.loop) (method x)

theorem onChannel_loop (x : Link) (f : Channel → Slot ConnId → Except Fault (Channel × Slot ConnId)) :
    Ensures (fun y : Link => y.conn.loop = x.conn.loop) (x.onChannel f) :=
  (Ensures.any _).bind fun _ _ => .ok rfl

variable {ptr : ConnId}

theorem onConnectEstablished_steady : Steady (onConnectEstablished ptr) := fun _ =>
  ensures_assert.bind fun _ _ => (onChannel_loop _ _).bind fun _ same => .ok same

theorem handleClose_steady : Steady (handleClose ptr) := fun _ =>
  ensures_assert.bind fun _ _ => (onChannel_loop _ _).bind fun _ same => .ok same

theorem onConnectDestroyed_steady : Steady (onConnectDestroyed ptr wasConnected) := by
  intro x
  cases wasConnected with
  | false =>
    simp only [onConnectDestroyed,Bool.false_eq_true,if_false,pure_eq_ok,ok_bind]
    exact (onChannel_loop _ _).bind fun _ same => .ok same
  | true =>
    simp only [onConnectDestroyed,if_true,pure_eq_ok,ok_bind]
    exact (onChannel_loop _ _).bind fun _ same => (onChannel_loop _ _).bind fun _ same' => .ok (same'.trans same)

theorem handleError_steady : Steady handleError := fun _ => .ok rfl

theorem handleRead_steady : Steady (handleRead ptr alloc r consumed) := by
  intro x
  refine (Ensures.any _).bind fun inputBuffer _ => ?_
  split
  · exact (Ensures.any _).bind fun _ _ => .ok rfl
  · exact handleClose_steady _
  · exact .ok rfl

theorem shutdownInLoop_loop (x : Link) : x.shutdownInLoop.1.conn.loop = x.conn.loop := by
  rw [shutdownInLoop]
  split <;> rfl

theorem handleWrite_steady : Steady (handleWrite ptr r) := by
  intro x
  rw [handleWrite]
  split
  swap
  · exact .ok rfl
  refine (Ensures.any _).bind fun data _ => ?_
  split
  swap
  · exact .ok rfl
  refine (Ensures.any _).bind fun outputBuffer _ => (Ensures.any _).bind fun size _ => ?_
  split
  swap
  · exact .ok rfl
  refine (onChannel_loop _ _).bind fun y same => ?_
  by_cases leaving : y.conn.status = .kDisconnecting
  · simp only [leaving,if_true]
    exact .ok ((shutdownInLoop_loop y).trans same)
  · simp only [leaving,if_false]
    exact .ok same

theorem appendOutput_steady : Steady (appendOutput ptr alloc bytes) := by
  intro x
  refine (Ensures.any _).bind fun _ _ => (Ensures.any _).bind fun _ _ => ?_
  dsimp only
  split
  · exact .ok rfl
  · exact (onChannel_loop _ _).bind fun _ same => .ok same

theorem sendRest_steady : Steady (sendRest ptr alloc message d) := by
  intro x
  refine ensures_assert.bind fun _ _ => ?_
  split
  · exact .ok rfl
  · split
    · exact (appendOutput_steady _).bind fun _ same => .ok same
    · exact .ok rfl

theorem sendInLoop_steady : Steady (sendInLoop ptr alloc message r) := by
  intro x
  rw [sendInLoop]
  split
  · exact .ok rfl
  · refine (Ensures.any _).bind fun _ _ => ?_
    split
    · exact sendRest_steady _
    · exact sendRest_steady _

theorem shutdownInLoop_steady : Steady (fun x => .ok x.shutdownInLoop) := fun x => .ok x.shutdownInLoop_loop

theorem shutdown_loop {x : Link} (done : x.shutdown = some y) : y.conn.loop = x.conn.loop := by
  rw [shutdown] at done
  split at done
  · cases done
    rfl
  · cases done

end Link

def Task.home (x : Link) : Task → LoopId
  | .functor (.removeConnectionInLoop _) => 0
  | _ => x.conn.loop

namespace System

def AtHome (s : System) (l : LoopId) (task : Task) : Prop :=
  ∀ c, task.about = some c → ∃ x, s.conns c = some x ∧ task.home x = l

def Born (s : System) (c : ConnId) : Prop := ∃ x, s.conns c = some x

/-- Tasks stand where they belong, and nothing mentions a connection before it exists. -/
structure Placed (s : System) : Prop where
  tasks : ∀ l, ∀ task ∈ (s.loops l).work, s.AtHome l task
  unborn : ∀ c, s.nextConnId ≤ c → s.conns c = none
  traced : ∀ entry ∈ s.trace, s.Born entry.1
  called : ∀ call ∈ s.calls, s.Born call.2.about
  listed : ∀ c ∈ s.connections, s.Born c
  dropped : ∀ c ∈ s.freed, s.Born c

variable {s : System} {c : ConnId} {x y : Link} {l : LoopId}

theorem deref_spec : Ensures (fun x => s.conns c = some x ∧ c ∉ s.freed) (s.deref c) := by
  intro x found
  rw [deref] at found
  split at found
  · split at found
    · cases found
    · cases found
      exact ⟨‹_›,‹_›⟩
  · cases found

theorem deref_of (held : s.conns c = some x) (live : c ∉ s.freed) : s.deref c = .ok x := by
  simp [deref,held,live]

theorem atHome (held : s.conns c = some x) (about : task.about = some c) (home : task.home x = l) :
    s.AtHome l task := by
  intro d about'
  obtain rfl : c = d := Option.some.inj (about.symm.trans about')
  exact ⟨x,held,home⟩

namespace Placed

theorem record (placed : s.Placed) (held : s.conns c = some x) (event : Event) : (s.record c event).Placed :=
  { placed with
    traced := by
      intro entry among
      simp only [System.record,List.mem_append,List.mem_singleton] at among
      rcases among with old | rfl
      · exact placed.traced entry old
      · exact ⟨x,held⟩ }

theorem born_setLink (born : s.Born d) : (s.setLink c y).Born d := by
  by_cases own : d = c
  · exact ⟨y,by simp [System.setLink,own]⟩
  · obtain ⟨z,held⟩ := born
    exact ⟨z,by simpa [System.setLink,own] using held⟩

theorem home_of_loop (same : y.conn.loop = x.conn.loop) (task : Task) : task.home y = task.home x := by
  cases task with
  | functor f => cases f <;> simp [Task.home,same]
  | _ => exact same

theorem setLink (placed : s.Placed) (held : s.conns c = some x) (same : y.conn.loop = x.conn.loop) :
    (s.setLink c y).Placed where
  tasks := by
    intro l task among d about
    obtain ⟨z,held',home⟩ := placed.tasks l task among d about
    by_cases own : d = c
    · subst own
      obtain rfl : x = z := Option.some.inj (held.symm.trans held')
      exact ⟨y,by simp [System.setLink],(home_of_loop same task).trans home⟩
    · exact ⟨z,by simpa [System.setLink,own] using held',home⟩
  unborn := by
    intro d late
    have own : d ≠ c := by
      rintro rfl
      simp [placed.unborn d late] at held
    simpa [System.setLink,own] using placed.unborn d late
  traced := fun entry among => born_setLink (placed.traced entry among)
  called := fun call among => born_setLink (placed.called call among)
  listed := fun d among => born_setLink (placed.listed d among)
  dropped := fun d among => born_setLink (placed.dropped d among)

theorem setLoop (placed : s.Placed) {loop : Loop}
    (allowed : ∀ task ∈ loop.work, task ∈ (s.loops l).work ∨ s.AtHome l task) : (s.setLoop l loop).Placed :=
  { placed with
    tasks := by
      intro l' task among
      by_cases own : l' = l
      · subst own
        simp only [System.setLoop,Function.update_self] at among
        rcases allowed task among with old | new
        · exact placed.tasks l' task old
        · exact new
      · simp only [System.setLoop,Function.update_of_ne own] at among
        exact placed.tasks l' task among }

theorem queueInLoop (placed : s.Placed) (home : s.AtHome l (.functor f)) : (s.queueInLoop l f).Placed := by
  refine placed.setLoop fun task among => ?_
  simp only [Loop.work,List.map_append,List.map_cons,List.map_nil,← List.append_assoc,List.mem_append,
    List.mem_singleton] at among ⊢
  rcases among with old | rfl
  · exact .inl old
  · exact .inr home

theorem before {tasks : List Task} (placed : s.Placed) (home : ∀ task ∈ tasks, s.AtHome l task) :
    (s.before l tasks).Placed := by
  refine placed.setLoop fun task among => ?_
  simp only [Loop.work,List.append_assoc,List.mem_append] at among ⊢
  rcases among with new | old
  · exact .inr (home task new)
  · exact .inl old

theorem begin (placed : s.Placed) (held : s.conns call.about = some x) : (s.begin t call).Placed :=
  { placed with
    called := by
      intro entry among
      simp only [System.begin,List.mem_append,List.mem_singleton] at among
      rcases among with old | rfl
      · exact placed.called entry old
      · exact ⟨x,held⟩ }

theorem unlist (placed : s.Placed) (fewer : List ConnId) (subset : ∀ c ∈ fewer, c ∈ s.connections) :
    Placed { s with connections := fewer } :=
  { placed with listed := fun c among => placed.listed c (subset c among) }

end Placed

theorem removeConnectionInLoop_placed (placed : s.Placed) : Ensures Placed (s.removeConnectionInLoop l c) := by
  refine ensures_check.bind fun _ _ => ensures_check.bind fun _ _ => deref_spec.bind fun x ⟨held,_⟩ =>
    ensures_assert.bind fun _ _ => .ok ?_
  have unlisted := placed.unlist (s.connections.filter (· ≠ c)) fun d among => (List.mem_filter.mp among).1
  exact (unlisted.record held .queueDestroyed).queueInLoop (atHome held rfl rfl)

theorem removeConnection_placed (placed : s.Placed) (held : s.conns c = some x) :
    Ensures Placed (s.removeConnection l c) := by
  refine ensures_check.bind fun _ _ => ?_
  split
  · exact removeConnectionInLoop_placed placed
  · exact .ok (placed.queueInLoop (atHome held rfl rfl))

/-- The functions below change no connection but their own. -/
theorem removeConnection_conns : Ensures (fun t => t.conns = s.conns) (s.removeConnection l c) := by
  refine ensures_check.bind fun _ _ => ?_
  split
  · exact ensures_check.bind fun _ _ => ensures_check.bind fun _ _ => (Ensures.any _).bind fun _ _ =>
      ensures_assert.bind fun _ _ => .ok rfl
  · exact .ok rfl

theorem applyEffect_placed (placed : s.Placed) (held : s.conns c = some x) (effect : Effect) :
    Ensures (fun t => t.Placed ∧ t.conns c = some x) (s.applyEffect l c x effect) := by
  cases effect with
  | connCb | msgCb | shutDownWrite => exact .ok ⟨placed.record held _,held⟩
  | queueWriteComplete | queueHighWaterMark => exact .ok ⟨placed.queueInLoop (atHome held rfl rfl),held⟩
  | closeCb =>
    have recorded := placed.record held .closeCb
    intro t done
    exact ⟨removeConnection_placed recorded held t done,by rw [removeConnection_conns t done]; exact held⟩

theorem applyEffects_placed (placed : s.Placed) (held : s.conns c = some x) (effects : List Effect) :
    Ensures (fun t => t.Placed ∧ t.conns c = some x) (applyEffects l c x effects s) := by
  induction effects generalizing s with
  | nil => exact .ok ⟨placed,held⟩
  | cons effect effects ih =>
    exact (applyEffect_placed placed held effect).bind fun t ⟨placed',held'⟩ => ih placed' held'

theorem perform_placed (placed : s.Placed) (steady : Link.Steady method) :
    Ensures (fun t => t.Placed ∧ t.Born c) (s.perform l c method) := by
  refine deref_spec.bind fun x ⟨held,_⟩ => ensures_check.bind fun _ _ => (steady x).bind fun (y,effects) same => ?_
  have linked : (s.setLink c y).conns c = some y := by simp [setLink]
  exact fun t done => (applyEffects_placed (placed.setLink held same) linked effects t done).imp_right
    fun held' => ⟨y,held'⟩

theorem runFunctor_placed (placed : s.Placed) : Ensures Placed (s.runFunctor l io f) := by
  have performs {method} (steady : Link.Steady method) : Ensures Placed (s.perform l f.about method) :=
    fun t done => (perform_placed placed steady t done).1
  cases f with
  | onConnectEstablished => exact performs Link.onConnectEstablished_steady
  | sendInLoop => exact performs Link.sendInLoop_steady
  | shutdownInLoop => exact performs Link.shutdownInLoop_steady
  | removeConnectionInLoop => exact removeConnectionInLoop_placed placed
  | writeComplete | highWaterMark => exact (Ensures.any _).bind fun _ _ => .ok placed
  | onConnectDestroyed c =>
    refine deref_spec.bind fun x ⟨held,_⟩ => ensures_check.bind fun _ loop => .ok ?_
    refine (placed.record held _).before fun task among => ?_
    rw [List.mem_singleton.mp among]
    exact atHome held rfl loop

theorem setHandling_placed (placed : s.Placed) :
    Ensures (fun t => t.Placed ∧ ∀ x, s.conns c = some x → ∃ y, t.conns c = some y ∧ y.conn.loop = x.conn.loop)
      (s.setHandling c b) := by
  refine deref_spec.bind fun x ⟨held,_⟩ => .ok ⟨placed.setLink held rfl,fun z held' => ?_⟩
  obtain rfl : x = z := Option.some.inj (held.symm.trans held')
  exact ⟨x.setHandling b,by simp [setLink],rfl⟩

theorem dispatch_placed (placed : s.Placed) (steady : Link.Steady handler) :
    Ensures Placed (s.dispatch l c wants handler) := by
  refine deref_spec.bind fun x _ => ?_
  split
  · exact fun t done => (perform_placed placed steady t done).1
  · exact .ok placed

theorem runTask_placed (placed : s.Placed) (home : s.AtHome l task) : Ensures Placed (s.runTask l io task) := by
  cases task with
  | handleEvent c =>
    obtain ⟨x,held,loop⟩ := home c rfl
    refine (setHandling_placed placed).bind fun t done => .ok ?_
    obtain ⟨placed',kept⟩ := done
    obtain ⟨y,held',same⟩ := kept x held
    refine placed'.before fun task among => ?_
    have about : task.about = some c ∧ task.home y = y.conn.loop := by
      simp only [stages,List.mem_cons,List.not_mem_nil,or_false] at among
      rcases among with rfl | rfl | rfl | rfl | rfl <;> exact ⟨rfl,rfl⟩
    exact atHome held' about.1 (about.2.trans (same.trans loop))
  | stage c stage =>
    cases stage with
    | close => exact dispatch_placed placed Link.handleClose_steady
    | error => exact dispatch_placed placed Link.handleError_steady
    | read => exact dispatch_placed placed Link.handleRead_steady
    | write => exact dispatch_placed placed Link.handleWrite_steady
    | done => exact fun t done => (setHandling_placed placed t done).1
  | doPendingFunctors => exact .ok (placed.setLoop fun task among => .inl (by simpa [Loop.work] using among))
  | functor f => exact runFunctor_placed placed
  | destroy c b =>
    refine (perform_placed placed Link.onConnectDestroyed_steady).bind fun t done => .ok ?_
    obtain ⟨placed',_,held⟩ := done
    exact placed'.record held _

theorem run_placed (placed : s.Placed) : Ensures Placed (s.run l io) := by
  rw [run]
  split
  · exact .ok placed
  · rename_i task todo head
    have popped : (s.setLoop l { s.loops l with todo }).Placed := placed.setLoop fun task among => by
      simp only [Loop.work,head,List.cons_append,List.mem_cons] at among ⊢
      exact .inl (.inr among)
    exact runTask_placed popped (placed.tasks l task (by simp [Loop.work,head]))

theorem fillActiveChannels_placed (placed : s.Placed) (reports : List (ConnId × PollEvents)) :
    Ensures (fun t => t.Placed ∧ ∀ d x, s.conns d = some x → ∃ y, t.conns d = some y ∧ y.conn.loop = x.conn.loop)
      (fillActiveChannels reports s) := by
  induction reports generalizing s with
  | nil => exact .ok ⟨placed,fun d x held => ⟨x,held,rfl⟩⟩
  | cons report reports ih =>
    refine deref_spec.bind fun x ⟨held,_⟩ => (Ensures.any _).bind fun channel _ => ?_
    intro t done
    have linked : (s.setLink report.1 (x.setChannel channel)).Placed := placed.setLink held rfl
    obtain ⟨placed',kept⟩ := ih linked t done
    refine ⟨placed',fun d z held' => ?_⟩
    by_cases own : d = report.1
    · subst own
      obtain rfl : x = z := Option.some.inj (held.symm.trans held')
      exact kept report.1 (x.setChannel channel) (by simp [setLink])
    · exact kept d z (by simpa [setLink,own] using held')

theorem poll_placed (placed : s.Placed) (reported : ∀ report ∈ reports, s.Reported l report) :
    Ensures Placed (s.poll l reports) := by
  refine (fillActiveChannels_placed placed reports).bind fun t ⟨placed',kept⟩ =>
    .ok (placed'.before fun task among => ?_)
  rcases List.mem_append.mp among with active | last
  · obtain ⟨report,listed,rfl⟩ := List.mem_map.mp active
    obtain ⟨-,x,held,loop,-⟩ := reported report listed
    obtain ⟨y,held',same⟩ := kept report.1 x held
    exact atHome held' rfl (same.trans loop)
  · rw [List.mem_singleton.mp last]
    nofun

theorem destroyConnections_placed (placed : s.Placed) (order : List ConnId) :
    Ensures Placed (destroyConnections order s) := by
  induction order with
  | nil => exact .ok placed
  | cons c order ih =>
    refine ih.bind fun t placed' => deref_spec.bind fun x ⟨held,_⟩ => ?_
    split
    · rename_i base
      refine .ok (placed'.before fun task among => ?_)
      rw [List.mem_singleton.mp among]
      exact atHome held rfl base
    · exact .ok (placed'.queueInLoop (atHome held rfl rfl))

theorem Placed.enlist (placed : s.Placed) (x : Link) : (s.enlist x).Placed where
  tasks := by
    intro l task among d about
    obtain ⟨z,held,home⟩ := placed.tasks l task among d about
    have own : d ≠ s.nextConnId := by
      rintro rfl
      simp [placed.unborn] at held
    exact ⟨z,by simpa [System.enlist,System.setLink,own] using held,home⟩
  unborn := by
    intro d late
    have own : d ≠ s.nextConnId := Nat.ne_of_gt late
    simpa [System.enlist,System.setLink,own] using placed.unborn d (Nat.le_of_succ_le late)
  traced := fun entry among => born_setLink (placed.traced entry among)
  called := fun call among => born_setLink (placed.called call among)
  listed := by
    intro d among
    rcases List.mem_append.mp among with old | new
    · exact born_setLink (placed.listed d old)
    · exact ⟨x,by simp [System.enlist,System.setLink,List.mem_singleton.mp new]⟩
  dropped := fun d among => born_setLink (placed.dropped d among)

/-- The round robin reads and writes the pool's counter only. -/
theorem getNextLoop_spec : Ensures (fun result => ∃ next, result.2 = { s with next }) s.getNextLoop := by
  rw [getNextLoop]
  split
  · exact .ok ⟨s.next,rfl⟩
  · exact ensures_check.bind fun _ _ => .ok ⟨_,rfl⟩

theorem handleNewConnection_placed (placed : s.Placed) : Ensures Placed (s.handleNewConnection fd alloc) := by
  refine getNextLoop_spec.bind fun (ioLoop,t) ⟨next,same⟩ => (Ensures.any _).bind fun input _ =>
    (Ensures.any _).bind fun output _ => ?_
  have placed' : t.Placed := by
    simp only at same
    subst same
    exact { placed with }
  have accepted := placed'.enlist ⟨TcpConnection.construct ioLoop fd input output t.writeCompleteCb,.empty⟩
  dsimp only
  split
  · exact fun t done => (perform_placed accepted Link.onConnectEstablished_steady t done).1
  · exact .ok (accepted.queueInLoop (atHome (Function.update_self _ _ _) rfl rfl))

theorem step_placed (placed : s.Placed) (enabled : s.enabled a) : Ensures Placed (s.step a) := by
  cases a with
  | poll l reports => exact poll_placed placed enabled.2.2.2
  | run l io => exact run_placed placed
  | accept fd alloc => exact handleNewConnection_placed placed
  | destroyServer order =>
    have unlisted : Placed { s with alive := false, connections := [] } := { placed.unlist [] nofun with }
    exact destroyConnections_placed unlisted order
  | send t c message io =>
    have tagged : Placed { s with nextTag := s.nextTag + 1 } := { placed with }
    refine deref_spec.bind fun x ⟨held,_⟩ => ?_
    dsimp only
    split
    swap
    · exact .ok tagged
    split
    · exact (perform_placed tagged Link.sendInLoop_steady).bind fun u ⟨placed',y,held'⟩ => .ok (placed'.record held' _)
    · exact .ok (tagged.begin held)
  | push t call =>
    have ended : Placed { s with calls := s.calls.filter (· ≠ (t,call)) } :=
      { placed with called := fun entry among => placed.called entry (List.mem_filter.mp among).1 }
    cases call with
    | sending c message =>
      refine deref_spec.bind fun x ⟨held,_⟩ => .ok ?_
      have queued := ended.queueInLoop (f := .sendInLoop c message) (atHome held rfl rfl)
      exact queued.record held _
    | shuttingDown c => exact deref_spec.bind fun x ⟨held,_⟩ => .ok (ended.queueInLoop (atHome held rfl rfl))
  | shutdown t c =>
    refine deref_spec.bind fun x ⟨held,_⟩ => ?_
    split
    · exact .ok (placed.record held _)
    · rename_i y flipped
      have linked : (s.setLink c y).conns c = some y := by simp [setLink]
      have recorded := (placed.setLink held (Link.shutdown_loop flipped)).record linked (.shutdownCalled t true)
      dsimp only
      split
      · exact fun u done => (perform_placed recorded Link.shutdownInLoop_steady u done).1
      · exact .ok (recorded.begin linked)
  | drop c =>
    refine deref_spec.bind fun x ⟨held,_⟩ => ensures_assert.bind fun _ _ => (Ensures.any _).bind fun _ _ => .ok ?_
    exact { placed with
      dropped := by
        intro d among
        rcases List.mem_cons.mp among with rfl | old
        · exact ⟨x,held⟩
        · exact placed.dropped d old }

theorem reachable_placed (reachable : machine.Reachable s) : s.Placed := by
  refine reachable.invariant ?_ fun s a t placed enabled stepped => step_placed placed enabled t stepped
  rintro s ⟨poolSize,writeCompleteCb,rfl⟩
  exact ⟨fun _ _ => nofun,fun _ _ => rfl,nofun,nofun,nofun,nofun⟩

end System
end Evk
