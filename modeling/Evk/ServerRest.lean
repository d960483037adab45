import Evk.LifeProgress
import Evk.ServerSpread

/-! A server that is left alone comes to rest. Every task and every call in progress has a
price that covers what it may queue; with no reports, accepts or new calls the price of
everything only falls. A step can be made as long as no loop comes to what the code cannot
do: those cases are named. In what is left when nothing is queued any more, no closed
connection has been forgotten. -/
namespace Evk

/-- A functor counts for more than all it can queue. -/
def Functor.effort : Functor → Nat
  | .onConnectEstablished _ | .shutdownInLoop _ | .writeComplete _ | .highWaterMark _ _ => 1
  | .onConnectDestroyed _ => 2
  | .removeConnectionInLoop _ => 5
  | .sendInLoop _ _ => 7

def Task.effort : Task → Nat
  | .handleEvent _ => 23
  | .stage _ .close | .stage _ .read => 8
  | .stage _ .write => 4
  | .stage _ .error | .stage _ .done => 1
  | .doPendingFunctors => 1
  | .functor f => f.effort
  | .destroy _ _ => 1

def Call.effort : Call → Nat
  | .sending _ _ => 10
  | .shuttingDown _ => 4

def Effect.effort : Effect → Nat
  | .closeCb => 7
  | .queueWriteComplete | .queueHighWaterMark _ => 3
  | .connCb _ | .msgCb | .shutDownWrite => 0

def totalEffort (effects : List Effect) : Nat := (effects.map Effect.effort).sum

@[simp] theorem totalEffort_nil : totalEffort [] = 0 := rfl

@[simp] theorem totalEffort_append (first second : List Effect) :
    totalEffort (first ++ second) = totalEffort first + totalEffort second := by simp [totalEffort]

namespace Loop

/-- Pending functors wait for a poll unless the iteration under way has still to come to
them. -/
def overhead (todo : List Task) : Nat := if .doPendingFunctors ∈ todo then 0 else 2

def effort (loop : Loop) : Nat :=
  (loop.todo.map Task.effort).sum + (loop.pending.map fun f => f.effort + overhead loop.todo).sum

theorem overhead_le (todo : List Task) : overhead todo ≤ 2 := by
  rw [overhead]
  split <;> omega

theorem effort_push (loop : Loop) (f : Functor) :
    Loop.effort { loop with pending := loop.pending ++ [f] } ≤ loop.effort + (f.effort + 2) := by
  have := overhead_le loop.todo
  simp only [effort,List.map_append,List.sum_append,List.map_cons,List.map_nil,List.sum_cons,List.sum_nil]
  omega

theorem effort_before (loop : Loop) (tasks : List Task) :
    Loop.effort { loop with todo := tasks ++ loop.todo } ≤ loop.effort + (tasks.map Task.effort).sum := by
  have fewer : overhead (tasks ++ loop.todo) ≤ overhead loop.todo := by
    simp only [overhead,List.mem_append]
    split <;> split <;> simp_all
  have pending : (loop.pending.map fun f => f.effort + overhead (tasks ++ loop.todo)).sum ≤
      (loop.pending.map fun f => f.effort + overhead loop.todo).sum :=
    List.sum_le_sum fun f _ => Nat.add_le_add_left fewer _
  simp only [effort,List.map_append,List.sum_append]
  omega

/-- Another task than the swap leaves the pending functors as they are. -/
theorem effort_pop {loop : Loop} {todo : List Task} (head : loop.todo = task :: todo)
    (other : task ≠ .doPendingFunctors) :
    Loop.effort { loop with todo } + task.effort = loop.effort := by
  have same : overhead loop.todo = overhead todo := by
    rw [overhead,overhead,head]
    simp [other.symm]
  simp only [effort,same]
  rw [head,List.map_cons,List.sum_cons]
  omega

theorem effort_swap {loop : Loop} {todo : List Task} (head : loop.todo = .doPendingFunctors :: todo) :
    (⟨todo ++ loop.pending.map .functor,[]⟩ : Loop).effort + 1 = loop.effort := by
  have near : overhead loop.todo = 0 := by simp [overhead,head]
  have same : (loop.pending.map .functor).map Task.effort = loop.pending.map fun f =>
    f.effort + 0 := by simp [Task.effort]
  simp only [effort,near]
  rw [head,List.map_append,same,List.map_cons,List.sum_cons,List.sum_append]
  simp only [Task.effort,List.map_nil,List.sum_nil]
  omega

theorem effort_poll {loop : Loop} (idle : loop.todo = []) (waiting : loop.pending ≠ []) :
    Loop.effort { loop with todo := [.doPendingFunctors] } < loop.effort := by
  have each : (loop.pending.map fun f => f.effort + 2).sum =
      (loop.pending.map fun f => f.effort).sum + loop.pending.length * 2 := by
    rw [List.sum_map_add]
    simp
  have some := List.length_pos_of_ne_nil waiting
  simp only [effort,idle,overhead]
  simp [each,Task.effort]
  omega

end Loop

namespace Link

/-- A method whose effects cost at most so much. -/
def Costs (method : Link → Except Fault (Link × List Effect)) (n : Nat) : Prop :=
  ∀ x, Ensures (fun result => totalEffort result.2 ≤ n) (method x)

variable {ptr : ConnId}

theorem onConnectEstablished_costs : Costs (onConnectEstablished ptr) 0 := fun _ =>
  ensures_assert.bind fun _ _ => (Ensures.any _).bind fun _ _ => .ok le_rfl

theorem onConnectDestroyed_costs : Costs (onConnectDestroyed ptr wasConnected) 0 := by
  intro x
  cases wasConnected with
  | false =>
    simp only [onConnectDestroyed,Bool.false_eq_true,if_false,pure_eq_ok,ok_bind]
    exact (Ensures.any _).bind fun _ _ => .ok le_rfl
  | true =>
    simp only [onConnectDestroyed,if_true,pure_eq_ok,ok_bind]
    exact (Ensures.any _).bind fun _ _ => (Ensures.any _).bind fun _ _ => .ok le_rfl

theorem handleClose_costs : Costs (handleClose ptr) 7 := fun _ =>
  ensures_assert.bind fun _ _ => (Ensures.any _).bind fun _ _ => .ok le_rfl

theorem handleError_costs : Costs handleError 0 := fun _ => .ok le_rfl

theorem handleRead_costs : Costs (handleRead ptr alloc r consumed) 7 := by
  intro x
  refine (Ensures.any _).bind fun inputBuffer _ => ?_
  split
  · exact (Ensures.any _).bind fun _ _ => .ok (Nat.zero_le _)
  · exact handleClose_costs _
  · exact .ok (Nat.zero_le _)

theorem shutdownInLoop_effects (x : Link) : totalEffort x.shutdownInLoop.2 = 0 := by
  rw [shutdownInLoop]
  split <;> rfl

theorem handleWrite_costs : Costs (handleWrite ptr r) 3 := by
  intro x
  have complete (y : Link) : totalEffort (if y.conn.writeCompleteCb then [Effect.queueWriteComplete] else []) ≤ 3 := by
    split <;> simp [totalEffort,Effect.effort]
  rw [handleWrite]
  split
  swap
  · exact .ok (Nat.zero_le _)
  refine (Ensures.any _).bind fun data _ => ?_
  split
  swap
  · exact .ok (Nat.zero_le _)
  refine (Ensures.any _).bind fun outputBuffer _ => (Ensures.any _).bind fun size _ => ?_
  split
  swap
  · exact .ok (Nat.zero_le _)
  refine (Ensures.any _).bind fun y _ => ?_
  have notice := complete y
  dsimp only
  generalize (if y.conn.writeCompleteCb then [Effect.queueWriteComplete] else []) = notices at notice ⊢
  split
  · apply Ensures.ok
    rw [totalEffort_append,shutdownInLoop_effects]
    exact notice
  · exact .ok notice

theorem directWrite_effects (conn : TcpConnection) (len : Nat) (r : WriteResult) :
    totalEffort (directWrite conn len r).effects ≤ 3 := by
  cases r with
  | wrote n =>
    simp only [directWrite]
    split <;> simp [totalEffort,Effect.effort]
  | failed e => exact Nat.zero_le _

theorem appendOutput_costs : Costs (appendOutput ptr alloc bytes) 3 := by
  intro x
  refine (Ensures.any _).bind fun size _ => (Ensures.any _).bind fun outputBuffer _ => ?_
  have mark : totalEffort (highWater x.conn size bytes.length) ≤ 3 := by
    rw [highWater]
    split <;> simp [totalEffort,Effect.effort]
  simp only
  split
  · exact .ok mark
  · exact (Ensures.any _).bind fun _ _ => .ok mark

theorem sendRest_costs (cheap : totalEffort d.effects ≤ 3) : Costs (sendRest ptr alloc message d) 6 := by
  intro x
  refine ensures_assert.bind fun _ _ => ?_
  split
  · exact .ok (cheap.trans (by decide))
  split
  · refine (appendOutput_costs _).bind fun result mark => .ok ?_
    rw [totalEffort_append]
    omega
  · exact .ok (cheap.trans (by decide))

theorem sendInLoop_costs : Costs (sendInLoop ptr alloc message r) 6 := by
  intro x
  rw [sendInLoop]
  split
  · exact .ok (Nat.zero_le _)
  refine (Ensures.any _).bind fun size _ => ?_
  split
  · exact sendRest_costs (directWrite_effects ..) _
  · exact sendRest_costs (Nat.zero_le _) x

end Link

namespace System

variable {s t : System} {c : ConnId} {l : LoopId} {x : Link}

open Finset in
/-- The loops of the pool and the base loop, and the calls in progress. -/
def effort (s : System) : Nat := ∑ l ∈ range (s.poolSize + 1), (s.loops l).effort + (s.calls.map (·.2.effort)).sum

theorem effort_congr (loops : t.loops = s.loops) (poolSize : t.poolSize = s.poolSize) (calls : t.calls = s.calls) :
    t.effort = s.effort := by
  rw [effort,effort,loops,poolSize,calls]

theorem effort_setLoop (inside : l ≤ s.poolSize) (loop : Loop) :
    (s.setLoop l loop).effort + (s.loops l).effort = s.effort + loop.effort := by
  have among : l ∈ Finset.range (s.poolSize + 1) := Finset.mem_range.mpr (Nat.lt_succ_of_le inside)
  have after := Finset.sum_update_of_mem among (fun m => (s.loops m).effort) loop.effort
  have before := Finset.sum_update_of_mem among (fun m => (s.loops m).effort) (s.loops l).effort
  have updated : (fun m => ((s.setLoop l loop).loops m).effort) =
      Function.update (fun m => (s.loops m).effort) l loop.effort :=
    Function.comp_update Loop.effort s.loops l loop
  rw [Function.update_eq_self] at before
  have total : (s.setLoop l loop).effort =
      ∑ m ∈ Finset.range (s.poolSize + 1), ((s.setLoop l loop).loops m).effort + (s.calls.map (·.2.effort)).sum := rfl
  rw [total,updated,after,effort,before]
  omega

theorem effort_setLoop_outside (outside : s.poolSize < l) (loop : Loop) : (s.setLoop l loop).effort = s.effort := by
  have same : ∑ m ∈ Finset.range (s.poolSize + 1), ((s.setLoop l loop).loops m).effort =
      ∑ m ∈ Finset.range (s.poolSize + 1), (s.loops m).effort := by
    apply Finset.sum_congr rfl
    intro m among
    have other : m ≠ l := by
      rintro rfl
      exact Nat.not_lt.mpr (Nat.lt_succ_iff.mp (Finset.mem_range.mp among)) outside
    simp [setLoop,other]
  exact congrArg (· + (s.calls.map (·.2.effort)).sum) same

theorem effort_setLoop_le {loop : Loop} (more : loop.effort ≤ (s.loops l).effort + n) :
    (s.setLoop l loop).effort ≤ s.effort + n := by
  by_cases inside : l ≤ s.poolSize
  · have same := effort_setLoop inside loop
    omega
  · rw [effort_setLoop_outside (Nat.lt_of_not_le inside)]
    omega

theorem queueInLoop_effort (f : Functor) : (s.queueInLoop l f).effort ≤ s.effort + (f.effort + 2) :=
  effort_setLoop_le ((s.loops l).effort_push f)

theorem before_effort (tasks : List Task) : (s.before l tasks).effort ≤ s.effort + (tasks.map Task.effort).sum :=
  effort_setLoop_le ((s.loops l).effort_before tasks)

/-- A piece that costs the loops at most so much. -/
def Costs (s : System) (r : Except Fault System) (n : Nat) : Prop := Ensures (fun t => t.effort ≤ s.effort + n) r

theorem removeConnectionInLoop_costs : s.Costs (s.removeConnectionInLoop l c) 4 := by
  refine ensures_check.bind fun _ _ => ensures_check.bind fun _ _ => (Ensures.any _).bind fun x _ =>
    ensures_assert.bind fun _ _ => .ok ?_
  have unlisted : ({ s with connections := s.connections.filter (· ≠ c) }.record c .queueDestroyed).effort = s.effort :=
    effort_congr rfl rfl rfl
  exact unlisted ▸ queueInLoop_effort (.onConnectDestroyed c)

theorem removeConnection_costs : s.Costs (s.removeConnection l c) 7 := by
  refine ensures_check.bind fun _ _ => ?_
  split
  · exact fun t done => (removeConnectionInLoop_costs t done).trans (by omega)
  · exact .ok (queueInLoop_effort (.removeConnectionInLoop c))

theorem applyEffect_costs (effect : Effect) : s.Costs (s.applyEffect l c x effect) effect.effort := by
  cases effect with
  | closeCb => exact removeConnection_costs (s := s.record c .closeCb)
  | queueWriteComplete => exact .ok (queueInLoop_effort (.writeComplete c))
  | queueHighWaterMark size => exact .ok (queueInLoop_effort (.highWaterMark c size))
  | connCb | msgCb | shutDownWrite => exact .ok le_rfl

theorem applyEffects_costs (effects : List Effect) : s.Costs (applyEffects l c x effects s) (totalEffort effects) := by
  induction effects generalizing s with
  | nil => exact .ok le_rfl
  | cons effect effects ih =>
    refine (applyEffect_costs effect).bind fun t first u done => ?_
    have later := ih u done
    simp only [totalEffort,List.map_cons,List.sum_cons] at later ⊢
    omega

theorem perform_costs (costs : Link.Costs method n) : s.Costs (s.perform l c method) n := by
  refine (Ensures.any _).bind fun x _ => ensures_check.bind fun _ _ => (costs x).bind fun result cheap t done => ?_
  have applied := applyEffects_costs (s := s.setLink c result.1) result.2 t done
  exact applied.trans (Nat.add_le_add_left cheap _)

theorem dispatch_costs (costs : Link.Costs handler n) : s.Costs (s.dispatch l c wants handler) n := by
  refine (Ensures.any _).bind fun x _ => ?_
  split
  · exact perform_costs costs
  · exact .ok (Nat.le_add_right ..)

theorem setHandling_costs : s.Costs (s.setHandling c b) 0 :=
  (Ensures.any _).bind fun _ _ => .ok le_rfl

/-- A functor queues less than it counts for. -/
theorem runFunctor_costs (f : Functor) : s.Costs (s.runFunctor l io f) (f.effort - 1) := by
  cases f with
  | onConnectEstablished => exact perform_costs Link.onConnectEstablished_costs
  | sendInLoop => exact perform_costs Link.sendInLoop_costs
  | shutdownInLoop => exact perform_costs fun x => .ok x.shutdownInLoop_effects.le
  | removeConnectionInLoop => exact removeConnectionInLoop_costs
  | onConnectDestroyed d =>
    refine (Ensures.any _).bind fun x _ => ensures_check.bind fun _ _ => .ok ?_
    exact before_effort (s := s.record d _) [.destroy d _]
  | writeComplete | highWaterMark => exact (Ensures.any _).bind fun _ _ => .ok le_rfl

theorem runTask_costs (task : Task) (other : task ≠ .doPendingFunctors) :
    s.Costs (s.runTask l io task) (task.effort - 1) := by
  cases task with
  | handleEvent d =>
    refine setHandling_costs.bind fun t handling => .ok ?_
    exact (before_effort (stages d)).trans (Nat.add_le_add_right handling _)
  | stage d stage =>
    cases stage with
    | close => exact dispatch_costs Link.handleClose_costs
    | error => exact dispatch_costs Link.handleError_costs
    | read => exact dispatch_costs Link.handleRead_costs
    | write => exact dispatch_costs Link.handleWrite_costs
    | done => exact setHandling_costs
  | doPendingFunctors => exact absurd rfl other
  | functor f => exact runFunctor_costs f
  | destroy d => exact (perform_costs Link.onConnectDestroyed_costs).bind fun t done => .ok done

theorem effort_pos (task : Task) : 0 < task.effort := by
  cases task with
  | stage d stage => cases stage <;> simp [Task.effort]
  | functor f => cases f <;> simp [Task.effort,Functor.effort]
  | handleEvent | doPendingFunctors | destroy => simp [Task.effort]

theorem run_effort (inside : l ≤ s.poolSize) (busy : (s.loops l).todo = task :: todo) :
    Ensures (fun t => t.effort < s.effort) (s.run l io) := by
  by_cases swaps : task = .doPendingFunctors
  · subst swaps
    have swapped := Loop.effort_swap busy
    have exchanged := effort_setLoop inside ⟨todo ++ (s.loops l).pending.map .functor,[]⟩
    have done : s.run l io = .ok (s.setLoop l ⟨todo ++ (s.loops l).pending.map .functor,[]⟩) := by
      simp [run,busy,runTask,setLoop]
    rw [done]
    apply Ensures.ok
    omega
  · intro t done
    rw [run,busy] at done
    have popped := effort_setLoop inside ⟨todo,(s.loops l).pending⟩
    have less := Loop.effort_pop busy swaps
    have cost : t.effort ≤ (s.setLoop l ⟨todo,(s.loops l).pending⟩).effort + (task.effort - 1) :=
      runTask_costs task swaps t done
    have some := effort_pos task
    omega

theorem push_effort {call : Call} (among : (thread,call) ∈ s.calls) :
    Ensures (fun t => t.effort < s.effort) (s.push thread call) := by
  have fewer : ({ s with calls := s.calls.filter (· ≠ (thread,call)) } : System).effort + call.effort ≤ s.effort := by
    have parts : _ + ((s.calls.filter (· ≠ (thread,call))).map fun entry => entry.2.effort).sum = _ :=
      List.sum_map_filter_add_sum_map_filter_not (· = (thread,call)) (fun entry => entry.2.effort) s.calls
    have own : call.effort ≤ ((s.calls.filter (· = (thread,call))).map fun entry => entry.2.effort).sum := by
      apply List.le_sum_of_mem
      exact List.mem_map.mpr ⟨(thread,call),List.mem_filter.mpr ⟨among,by simp⟩,rfl⟩
    simp only [effort]
    omega
  cases call with
  | sending d message =>
    refine (Ensures.any _).bind fun x _ => .ok ?_
    have queued := queueInLoop_effort (s := { s with calls := s.calls.filter (· ≠ (thread,.sending d message)) })
      (l := x.conn.loop) (.sendInLoop d message)
    exact lt_of_le_of_lt queued (by simp only [Functor.effort,Call.effort] at *; omega)
  | shuttingDown d =>
    refine (Ensures.any _).bind fun x _ => .ok ?_
    have queued := queueInLoop_effort (s := { s with calls := s.calls.filter (· ≠ (thread,.shuttingDown d)) })
      (l := x.conn.loop) (.shutdownInLoop d)
    exact lt_of_le_of_lt queued (by simp only [Functor.effort,Call.effort] at *; omega)

/-- What goes on when nobody adds anything: the loops work and poll in vain as long as
functors are pending, and calls come to their push. -/
def Draining (s : System) : Action → Prop
  | .run l _ => l ≤ s.poolSize
  | .poll l reports => l ≤ s.poolSize ∧ reports = [] ∧ (s.loops l).pending ≠ []
  | .push _ _ => True
  | .accept _ _ | .destroyServer _ | .send _ _ _ _ | .shutdown _ _ | .drop _ => False

instance (s : System) : DecidablePred s.Draining
  | .run _ _ => inferInstanceAs (Decidable (_ ≤ _))
  | .poll _ _ => inferInstanceAs (Decidable (_ ∧ _ ∧ _))
  | .push _ _ => inferInstanceAs (Decidable True)
  | .accept _ _ | .destroyServer _ | .send _ _ _ _ | .shutdown _ _ | .drop _ => inferInstanceAs (Decidable False)

theorem draining_effort (a : Action) (enabled : s.enabled a) (draining : s.Draining a) (stepped : s.step a = .ok t) :
    t.effort < s.effort := by
  cases a with
  | run l io =>
    obtain ⟨-,task,head,-⟩ := enabled
    obtain ⟨todo,busy⟩ := List.head?_eq_some_iff.mp head
    exact run_effort draining busy t stepped
  | poll l reports =>
    obtain ⟨inside,rfl,waiting⟩ := draining
    cases stepped
    have polled := effort_setLoop inside ⟨[.doPendingFunctors],(s.loops l).pending⟩
    have less := Loop.effort_poll enabled.1 waiting
    have same : s.before l [.doPendingFunctors] = s.setLoop l ⟨[.doPendingFunctors],(s.loops l).pending⟩ := by
      rw [before,enabled.1]
      rfl
    change (s.before l [.doPendingFunctors]).effort < s.effort
    rw [same]
    omega
  | push thread call => exact push_effort enabled t stepped
  | accept | destroyServer | send | shutdown | drop => exact draining.elim

def AtRest (s : System) : Prop := (∀ l ≤ s.poolSize, (s.loops l).todo = [] ∧ (s.loops l).pending = []) ∧ s.calls = []

instance (s : System) : Decidable s.AtRest := inferInstanceAs (Decidable ((∀ l ≤ s.poolSize, _) ∧ _))

theorem permits_refusing (task : Task) : s.Permits .refusing task := by
  intro c _ x _
  cases task with
  | stage d stage => cases stage <;> simp [Link.Permits,Link.Reads,Link.Writes,
      ReadResult.Legal,WriteResult.Legal,Io.refusing]
  | functor f => cases f <;> simp [Link.Permits,Link.Writes,WriteResult.Legal,Io.refusing]
  | handleEvent | doPendingFunctors | destroy => trivial

theorem loop_le_poolSize (reachable : machine.Reachable s) (held : s.conns c = some x) : x.conn.loop ≤ s.poolSize := by
  have homes := (reachable_spread reachable).homes c
  rw [home,held] at homes
  split at homes
  · have seated : x.conn.loop = s.seat c := Option.some.inj homes
    rw [seated,seat]
    split
    · exact Nat.zero_le _
    · exact Nat.mod_lt _ (Nat.pos_of_ne_zero (by assumption))
  · cases homes

/-- A loop is up against what the code cannot do, or against the dispatch of a connection
that has been freed. -/
def Hindered (s : System) (task : Task) : Prop := ∃ c ∈ task.about,
  (task.isDispatch = true ∧ c ∈ s.freed) ∨ ∃ x ∈ s.conns c, x.Hinders s.alive task

theorem push_succeeds (reachable : machine.Reachable s) (among : (thread,call) ∈ s.calls) :
    ∃ t, s.step (.push thread call) = .ok t := by
  obtain ⟨x,held⟩ := (reachable_placed reachable).called _ among
  have seen := life_of_held held
  have live : (s.view call.about x).freed = false := Bool.eq_false_iff.mpr fun gone => by
    have uncalled := (Life.unreferenced_of_freed (life_reachable reachable seen) gone).calls
    have mine : (thread,call) ∈ (s.view call.about x).calls := List.mem_filter.mpr ⟨among,by simp⟩
    simp [uncalled] at mine
  have done : ∃ w, (s.view call.about x).push call.about thread call = .ok w := by
    cases call with
    | sending d message => exact ⟨_,by simp [Life.push,Life.deref,live]; rfl⟩
    | shuttingDown d => exact ⟨_,by simp [Life.push,Life.deref,live]; rfl⟩
  obtain ⟨w,done⟩ := done
  have follows : Follows _ (s.push thread call) _ := push_follows seen rfl
  rw [done] at follows
  obtain ⟨t,stepped,-⟩ := follows.ok_right
  exact ⟨t,stepped⟩

theorem tested_eq {task : Task} (tests : c ∈ tested task) : task = .functor (.onConnectDestroyed c) := by
  cases task with
  | functor f => cases f <;> simp_all [tested]
  | _ => cases tests

/-- A loop can do what it comes to next unless it is hindered. -/
theorem run_succeeds (reachable : (machine.restrict Orderly).Reachable s) (head : (s.loops l).todo = task :: todo)
    (free : ¬s.Hindered task) : ∃ t, s.step (.run l .refusing) = .ok t := by
  have plain := reachable.of_restrict
  have placed := reachable_placed plain
  cases owner : task.about with
  | none =>
    cases task with
    | doPendingFunctors => exact ⟨_,by simp [step,run,head,runTask]; rfl⟩
    | _ => cases owner
  | some c =>
    obtain ⟨v,seen⟩ := placed.life_of_head head owner
    have lived := life_reachable plain seen
    have free' : ¬v.link.Hinders v.alive task := fun hinders => by
      rw [alive_of_life seen] at hinders
      exact free ⟨c,owner,.inr ⟨v.link,held_of_life seen,hinders⟩⟩
    rcases about_cases owner with concerns | rfl
    · obtain ⟨t,-,stepped,-⟩ := run_of_work (P := fun _ => True) placed seen head concerns fun rest queue => by
        have live : v.freed = false := Bool.eq_false_iff.mpr fun gone => by
          rcases Life.dispatch_or_holds concerns with dispatch | holds
          · rw [view_of_life seen] at gone
            exact free ⟨c,owner,.inl ⟨dispatch,by simpa [view] using gone⟩⟩
          · simp [(Life.unreferenced_of_freed lived gone).queue task (by simp [queue])] at holds
        exact (Life.work_succeeds lived (orderly_parted reachable seen) queue live free').imp fun _ done =>
          ⟨done,trivial⟩
      exact ⟨t,stepped⟩
    · obtain ⟨queued,follows⟩ := remove_follows .refusing placed seen head
      obtain ⟨w,done⟩ := Life.remove_succeeds lived queued ((Bool.not_eq_false _).mp free')
      rw [done] at follows
      obtain ⟨t,stepped,-⟩ := follows.ok_right
      exact ⟨t,stepped⟩

/-- A system that is not at rest can go on, unless a loop is hindered. -/
theorem rests_or_drains (reachable : (machine.restrict Orderly).Reachable s)
    (free : ∀ l ≤ s.poolSize, ∀ task ∈ (s.loops l).todo.head?, ¬s.Hindered task) :
    s.AtRest ∨ ∃ a t, s.enabled a ∧ s.Draining a ∧ s.Orderly a ∧ s.step a = .ok t := by
  rw [or_iff_not_imp_right]
  intro stuck
  have uncalled : s.calls = [] := by
    apply List.eq_nil_iff_forall_not_mem.mpr
    intro call among
    obtain ⟨t,stepped⟩ := push_succeeds reachable.of_restrict among
    exact stuck ⟨.push call.1 call.2,t,among,trivial,trivial,stepped⟩
  have idle (thread : Thread) : s.Idle thread := by simp [Idle,uncalled]
  refine ⟨fun l inside => ?_,uncalled⟩
  have done : (s.loops l).todo = [] := by
    cases todo : (s.loops l).todo with
    | nil => rfl
    | cons task rest =>
      have free := free l inside task (by rw [todo]; rfl)
      obtain ⟨t,stepped⟩ := run_succeeds reachable todo free
      have punctual : s.Punctual l := by
        intro first head c tests x held leaving
        obtain rfl : task = first := by simpa [todo] using head
        obtain rfl := tested_eq tests
        exact free ⟨c,rfl,.inr ⟨x,held,leaving⟩⟩
      exact absurd ⟨.run l .refusing,t,⟨idle _,task,by simp [todo],permits_refusing task⟩,inside,punctual,stepped⟩ stuck
  refine ⟨done,?_⟩
  by_contra waiting
  exact stuck ⟨.poll l [],_,⟨done,idle _,by simp,by simp⟩,⟨inside,rfl,waiting⟩,trivial,rfl⟩

theorem AtRest.work_nil (rest : s.AtRest) (inside : l ≤ s.poolSize) : (s.loops l).work = [] := by
  obtain ⟨todo,pending⟩ := rest.1 l inside
  simp [Loop.work,todo,pending]

theorem AtRest.unreferenced (rest : s.AtRest) (reachable : machine.Reachable s) (held : s.conns c = some x)
    (unlisted : c ∉ s.connections) : s.Unreferenced c := by
  refine ⟨unlisted,by simp [rest.2],fun y own => ?_⟩
  obtain rfl : x = y := Option.some.inj (held.symm.trans own)
  simp [rest.work_nil (loop_le_poolSize reachable held),rest.work_nil (Nat.zero_le _)]

/-- What becomes of a connection once all is done. -/
theorem AtRest.connection (rest : s.AtRest) (reachable : machine.Reachable s) (held : s.conns c = some x) :
    (c ∈ s.connections ∧ s.alive = true ∧ c ∉ s.freed ∧ x.Up ∧ Channel.Registered c x.conn.channel x.slot) ∨
    (c ∉ s.connections ∧ x.Clean ∧ (c ∈ s.freed ∨ s.enabled (.drop c) ∧ ∃ t, s.step (.drop c) = .ok t)) := by
  have seen := life_of_held held
  have lived := life_reachable reachable seen
  have inv := Life.reachable_inv lived
  have listed := Life.reachable_listed lived
  have queue : (s.view c x).queue = [] := by simp [view,rest.work_nil (loop_le_poolSize reachable held)]
  have removals : (s.view c x).removals = 0 := by simp [view,rest.work_nil (Nat.zero_le _)]
  rcases inv.at_rest listed queue removals with ⟨mapped,up⟩ | ⟨unmapped,clean,drops⟩
  · refine .inl ⟨(mapped_of_life seen).mp mapped,listed.alive mapped,fun gone => ?_,up,(inv.sound.known up).1⟩
    have unreferenced := Life.unreferenced_of_freed lived (by simpa [view] using gone)
    cases mapped.symm.trans unreferenced.mapped
  · have unlisted : c ∉ s.connections := by simpa [view] using unmapped
    refine .inr ⟨unlisted,clean,?_⟩
    by_cases gone : c ∈ s.freed
    · exact .inl gone
    · have live : (s.view c x).freed = false := by simpa [view] using gone
      obtain ⟨w,done⟩ := drops live
      have follows := drop_follows seen
      rw [done] at follows
      obtain ⟨t,stepped,-⟩ := follows.ok_right
      exact .inr ⟨⟨⟨by simp [held],gone⟩,rest.unreferenced reachable held unlisted⟩,t,stepped⟩

end System
end Evk
