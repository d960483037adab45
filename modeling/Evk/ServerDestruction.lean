import Evk.LifeFaults
import Evk.Registration

/-! Destroying the server. Handlers call it through `close_cb_` and functors through a raw
pointer, and it tears the base loop's own connections down on the spot: `~TcpServer` is
safe when no removal is queued, no peer closes afterwards, none of those connections
is being dispatched, and none has been shut down by its own side. -/
namespace Evk

/-- The functors with a raw pointer to the server. -/
def Task.isRemoval : Task → Bool
  | .functor (.removeConnectionInLoop _) => true
  | _ => false

namespace Life

variable {c : ConnId} {v w : Life} {task : Task} {rest : List Task}

/-- The destructor runs with no removal of the connection queued and, if it is to tear it
down itself, no dispatch of it; from then on the peer does not close it, and its
`OnConnectDestroyed` does not find it in `kDisconnecting`. -/
def Settled (v : Life) : Action → Prop
  | .work io => (v.alive = true ∨ ∀ task rest, v.queue = task :: rest → ¬v.link.ClosesIn io task) ∧ v.Punctual
  | .destroyServer => v.removals = 0 ∧
    (v.mapped = true → v.link.conn.loop = 0 → ∀ task ∈ v.queue, task.isDispatch = false)
  | _ => True

/-- What is left of a connection once the server has gone. -/
structure Released (v : Life) : Prop where
  unmapped : v.mapped = false
  removals : v.removals = 0

theorem released_of_change (released : v.alive = false → v.Released) (settled : v.Settled a)
    (change : Change c v a w) (dead : w.alive = false) : w.Released := by
  cases change with
  | quiet quiet _ | shutdown _ quiet _ _ =>
    obtain ⟨removals,mapped,alive,-⟩ := quiet.same
    have old := released (alive.symm.trans dead)
    exact ⟨mapped.trans old.unmapped,removals.trans old.removals⟩
  | closeBase live head closes up small base alive | closeAway live head closes up small away alive
  | remove live positive alive =>
    have dead : v.alive = false := dead
    simp [alive] at dead
  | destroyBase | destroyAway | destroyOther => exact ⟨rfl,settled.1⟩
  | _ => exact ⟨(released dead).unmapped,(released dead).removals⟩

theorem released_of_dead (reachable : ((machine c).restrict Settled).Reachable v) (dead : v.alive = false) :
    v.Released := by
  induction reachable with
  | initial first =>
    obtain ⟨loop,fd,input,output,writeCompleteCb,-,-,⟨-,rfl⟩ | ⟨-,rfl⟩⟩ := initial_cases first <;> cases dead
  | step before allowed stepped ih =>
    have inv := reachable_inv before.of_restrict
    exact released_of_change ih allowed.2 (inv.step_change allowed.1 _ stepped) dead

/-- What keeps the steps of a life away from a server and a connection that are gone. -/
structure Secure (c : ConnId) (v : Life) : Prop where
  inv : v.Inv c
  lined : v.Lined
  parted : v.Parted
  released : v.alive = false → v.Released
  unreferenced : v.freed = true → v.Unreferenced c

theorem reachable_secure (reachable : ((machine c).restrict Settled).Reachable v) : v.Secure c := by
  have plain := reachable.of_restrict
  refine ⟨reachable_inv plain,?_,reachable_parted (fun _ _ settled => settled.2) reachable,released_of_dead reachable,
    unreferenced_of_freed plain⟩
  refine reachable.invariant_with (fun _ => initial_lined) (fun _ reached => reachable_inv reached.of_restrict) ?_
  intro _ _ w inv lined ⟨allowed,settled⟩ stepped
  refine lined.change inv ?_ (inv.step_change allowed w stepped)
  rintro rfl
  exact settled.2

/-- A task that refers to the connection finds it there; one with a raw pointer to its
channel is gone before the connection is. -/
theorem Secure.live (secure : v.Secure c) (among : task ∈ v.queue) : v.freed = false := by
  refine Bool.eq_false_iff.mpr fun gone => ?_
  have unreferenced := secure.unreferenced gone
  have ended := secure.inv.ended_of_unheld unreferenced.mapped unreferenced.queue
  rcases dispatch_or_holds (secure.inv.concerns task among) with dispatch | holds
  · simp [secure.lined.rested (.inr ended) task among] at dispatch
  · simp [unreferenced.queue task among] at holds

/-- No step finds the connection freed, and none calls the server once it is gone. -/
theorem Secure.provided (secure : v.Secure c) (allowed : v.enabled c a) (settled : v.Settled a) :
    v.Provided .useAfterFree a where
  live := by
    intro _ mapped
    refine Bool.eq_false_iff.mpr fun gone => ?_
    have unreferenced := secure.unreferenced gone
    cases a with
    | report | send | drop => simp [allowed.1] at gone
    | shutdown =>
      have live : v.freed = false := allowed
      simp [live] at gone
    | work io =>
      obtain ⟨task,rest,head,-⟩ := allowed
      have live := secure.live (by rw [head]; exact List.mem_cons_self)
      simp [live] at gone
    | remove =>
      have queued : 0 < v.removals := allowed
      simp [unreferenced.removals] at queued
    | destroyServer => simpa [unreferenced.mapped] using mapped rfl
    | push t call =>
      have calling : (t,call) ∈ v.calls := allowed
      simp [unreferenced.calls] at calling
  alive := by
    intro _ calls
    refine (Bool.not_eq_false _).mp fun dead => ?_
    have released := secure.released dead
    rcases calls with rfl | closing
    · have queued : 0 < v.removals := allowed
      simp [released.removals] at queued
    · cases a with
      | work io =>
        obtain ⟨task,rest,head,closes⟩ := closing
        rcases settled.1 with alive | none
        · simp [alive] at dead
        · exact none task rest head closes
      | _ => exact closing
  up := by simp [closedTwice]

/-- Once `OnConnectDestroyed` has begun, no dispatch of the connection is left. -/
theorem Secure.undispatched (secure : v.Secure c) (tested : .testDestroyed b ∈ v.trace) :
    ∀ task ∈ v.queue, task.isDispatch = false := by
  have made : 0 < v.trace.countP Event.isTest := List.countP_pos_iff.mpr ⟨_,tested,rfl⟩
  have balance := secure.inv.tested
  refine secure.lined.rested ?_
  by_cases ended : .destroyed ∈ v.trace
  · exact .inr ended
  · rw [List.count_eq_zero_of_not_mem ended] at balance
    obtain ⟨task,among,kind⟩ := List.countP_pos_iff.mp (by omega : 0 < v.queue.countP Task.isDestroy)
    cases task with
    | destroy d b => exact .inl ⟨d,b,among⟩
    | _ => cases kind

end Life

namespace System

variable {c : ConnId} {s : System} {v : Life} {x : Link}

/-- `~TcpServer` runs when the base loop has no `RemoveConnectionInLoop` to do, and has
no connection of the map to dispatch or under dispatch; after it, no handler comes to
`HandleClose`, and no `OnConnectDestroyed` finds `kDisconnecting`. -/
def Settled (s : System) : Action → Prop
  | .run l io => (s.alive = true ∨
      ∀ task ∈ (s.loops l).todo.head?, ∀ c ∈ task.about, ∀ x ∈ s.conns c, ¬x.ClosesIn io task) ∧ s.Punctual l
  | .destroyServer _ => (∀ task ∈ (s.loops 0).work, task.isRemoval = false) ∧
    ∀ task ∈ (s.loops 0).todo, task.isDispatch = true → ∀ c ∈ task.about, c ∉ s.connections
  | _ => True

instance (s : System) : DecidablePred s.Settled
  | .run _ _ => inferInstanceAs (Decidable ((_ ∨ ∀ _ ∈ _, ∀ _ ∈ _, ∀ _ ∈ _, ¬_) ∧ s.Punctual _))
  | .destroyServer _ => inferInstanceAs (Decidable ((∀ _ ∈ _, _) ∧ ∀ _ ∈ _, _ → ∀ _ ∈ _, _))
  | .poll _ _ | .accept _ _ | .send _ _ _ _ | .push _ _ | .shutdown _ _ | .drop _ => inferInstanceAs (Decidable True)

theorem settled_life {a : Action} (placed : s.Placed) (seen : s.life c = some v) (settled : s.Settled a)
    (action : s.lifeAction c a = some b) : v.Settled b := by
  cases b with
  | work io =>
    obtain ⟨l,task,todo,rfl,head,concerns,queue⟩ := lifeAction_work placed seen action
    refine ⟨settled.1.imp (alive_of_life seen).trans fun none first rest same => ?_,
      punctual_life seen settled.2 head concerns queue⟩
    obtain ⟨rfl,-⟩ := List.cons.inj (queue.symm.trans same)
    exact none task (by rw [head]; rfl) c (Task.concerns_about concerns) v.link (held_of_life seen)
  | destroyServer =>
    cases a with
    | destroyServer order =>
      obtain ⟨removals,outside⟩ := settled
      have same := view_of_life seen
      constructor
      · rw [same]
        refine List.count_eq_zero_of_not_mem fun queued => ?_
        simpa [Task.isRemoval] using removals _ queued
      · intro mapped base task among
        rw [same] at among
        obtain ⟨queued,concerns⟩ := List.mem_filter.mp among
        rw [base] at queued
        refine Bool.eq_false_iff.mpr fun dispatch => ?_
        rcases List.mem_append.mp queued with now | later
        · exact outside task now dispatch c (Task.concerns_about concerns) ((mapped_of_life seen).mp mapped)
        · obtain ⟨f,-,rfl⟩ := List.mem_map.mp later
          simp [Task.isDispatch] at dispatch
    | run l io => rcases lifeAction_run action with same | same <;> cases same
    | poll l reports =>
      obtain ⟨report,-,same⟩ := Option.map_eq_some_iff.mp action
      cases same
    | accept => cases action
    | send | push | shutdown | drop =>
      simp only [lifeAction] at action
      split at action <;> cases action
  | _ => trivial

theorem known_secure (reachable : (machine.restrict Settled).Reachable s) (seen : s.life c = some v) : v.Secure c :=
  Life.reachable_secure (reachable_life (fun _ _ _ _ placed seen _ => settled_life placed seen) reachable seen)

/-- No step that the condition allows uses what has been destroyed. -/
theorem settled_never {a : Action} (reachable : (machine.restrict Settled).Reachable s) (enabled : s.enabled a)
    (settled : s.Settled a) : Never .useAfterFree (s.step a) := by
  have placed := reachable_placed reachable.of_restrict
  refine step_never useAfterFree_outside reachable.of_restrict enabled fun c v b seen action allowed => ?_
  exact (known_secure reachable seen).provided allowed (settled_life placed seen settled action)

theorem count_tests : (s.view c x).queue.countP Task.isTest =
    (s.loops x.conn.loop).work.count (.functor (.onConnectDestroyed c)) := by
  rw [view,List.countP_filter,List.count]
  refine List.countP_congr fun task _ => ?_
  cases task with
  | functor f =>
    cases f with
    | onConnectDestroyed d =>
      simp only [Task.isTest,Task.concerns,Functor.about,Bool.true_and,beq_iff_eq,Task.functor.injEq,
        Functor.onConnectDestroyed.injEq]
      exact decide_eq_true_iff
    | _ => simp [Task.isTest]
  | _ => simp [Task.isTest]

theorem count_destroys : (s.view c x).queue.countP Task.isDestroy =
    (s.loops x.conn.loop).work.count (.destroy c true) + (s.loops x.conn.loop).work.count (.destroy c false) := by
  rw [view,List.countP_filter,List.count,List.count]
  induction (s.loops x.conn.loop).work with
  | nil => rfl
  | cons task work ih =>
    simp only [List.countP_cons,ih]
    cases task with
    | destroy d b => by_cases own : d = c <;> cases b <;> simp [Task.isDestroy,Task.concerns,own] <;> omega
    | _ => simp [Task.isDestroy]

theorem removal_of_isRemoval {task : Task} (kind : task.isRemoval = true) :
    ∃ c, task = .functor (.removeConnectionInLoop c) := by
  cases task with
  | functor f => cases f <;> simp_all [Task.isRemoval]
  | _ => cases kind

/-- The `OnConnectDestroyed` of a connection: queued, past its status test, or through. -/
def teardowns (s : System) (c : ConnId) (x : Link) : Nat :=
  let work := (s.loops x.conn.loop).work
  work.count (.functor (.onConnectDestroyed c)) + (work.count (.destroy c true) + work.count (.destroy c false)) +
    (eventsOf c s.trace).count .destroyed

/-- In every run where `~TcpServer` finds things settled, nothing that has been destroyed
is used: after the destructor no `RemoveConnectionInLoop` is queued and no handler calls
`RemoveConnection`. Each connection has one `OnConnectDestroyed`, which is queued on its
loop, under way there or through; both its pieces succeed when the loop comes to them,
the connection is clean after the second, and no dispatch of it is left behind. -/
theorem destroy_server_safe (reachable : (machine.restrict Settled).Reachable s) :
    (∀ a, (machine.restrict Settled).enabled s a → s.step a ≠ .error .useAfterFree) ∧
    (s.alive = false → (∀ l, ∀ task ∈ (s.loops l).work, task.isRemoval = false) ∧
      ∀ c x, s.conns c = some x → s.teardowns c x = 1) ∧
    (∀ c l io todo, (s.loops l).todo = .functor (.onConnectDestroyed c) :: todo → ∃ t, s.step (.run l io) = .ok t) ∧
    (∀ c l io b todo, (s.loops l).todo = .destroy c b :: todo →
      ∃ t x, s.step (.run l io) = .ok t ∧ t.conns c = some x ∧ x.Clean) ∧
    ∀ c b, (c,.testDestroyed b) ∈ s.trace → ¬s.Dispatched c := by
  have plain := reachable.of_restrict
  have placed := reachable_placed plain
  refine ⟨fun a ⟨enabled,settled⟩ => settled_never reachable enabled settled,
    fun dead => ⟨fun l task among => ?_,fun c x held => ?_⟩,fun c l io todo => run_tests plain io,
    fun c l io b todo => run_destroys plain (fun _ seen => (known_secure reachable seen).parted) io,
      fun c b tested => ?_⟩
  · refine Bool.eq_false_iff.mpr fun kind => ?_
    obtain ⟨c,rfl⟩ := removal_of_isRemoval kind
    obtain ⟨x,held,rfl⟩ := placed.tasks l _ among c rfl
    have none := ((known_secure reachable (life_of_held held)).released dead).removals
    exact absurd among (List.count_eq_zero.mp none)
  · have secure := known_secure reachable (life_of_held held)
    have awaited := secure.inv.awaited
    have tested := secure.inv.tested
    rw [(secure.released dead).unmapped,count_tests,Bool.toNat_false,Nat.zero_add,
      ← tested,count_destroys,← Nat.add_assoc] at awaited
    exact awaited
  · rintro ⟨l,task,among,dispatch,about⟩
    obtain ⟨x,held⟩ := placed.traced _ tested
    have secure := known_secure reachable (life_of_held held)
    have queued := placed.dispatch_queued held among dispatch about
    simp [secure.undispatched (mem_eventsOf.mpr tested) task queued] at dispatch

/-- A server goes with a connection on an IO loop, which has a message to read first and
then runs the queued `OnConnectDestroyed`. -/
theorem destroy_server_safe_message : ∃ s, (machine.restrict Settled).Reachable s ∧
    s.alive = false ∧ (1,.msgCb) ∈ s.trace ∧
    (∃ b, (1,.testDestroyed b) ∈ s.trace) ∧ ¬s.Dispatched 1 ∧
    ∃ t x, s.step (.run 1 .idle) = .ok t ∧ t.conns 1 = some x ∧ x.Clean := by
  let schedule : List Action := [.accept 5 Io.idle.alloc,.poll 1 [],.run 1 .idle,.run 1 .idle,.destroyServer [1],
    .poll 1 [(1,{ pollin := true })],.run 1 .idle,.run 1 .idle,.run 1 .idle,.run 1 { Io.idle with read := .bytes [7] },
    .run 1 .idle,.run 1 .idle,.run 1 .idle,.run 1 .idle]
  have reachable : (machine.restrict Settled).Reachable (schedule.foldl machine.advance (construct 1 false)) :=
    Machine.Reachable.follow (m := machine.restrict Settled) (.initial ⟨1,false,rfl⟩) schedule (by decide +kernel)
  have dead : (schedule.foldl machine.advance (construct 1 false)).alive = false := by decide +kernel
  have read : (1,.msgCb) ∈ (schedule.foldl machine.advance (construct 1 false)).trace := by decide +kernel
  have tested : (1,.testDestroyed true) ∈
    (schedule.foldl machine.advance (construct 1 false)).trace := by decide +kernel
  have next : ((schedule.foldl machine.advance (construct 1 false)).loops 1).todo.head? = some (.destroy 1 true) := by
    decide +kernel
  generalize schedule.foldl machine.advance (construct 1 false) = s at reachable dead read tested next
  obtain ⟨todo,head⟩ := List.head?_eq_some_iff.mp next
  obtain ⟨-,-,-,destroys,undispatched⟩ := destroy_server_safe reachable
  exact ⟨s,reachable,dead,read,⟨true,tested⟩,undispatched 1 true tested,destroys 1 1 .idle true todo head⟩

/-- The peer closes after the destructor, and the handler calls a server that is gone; it
closes before, and the removal that is queued runs once the IO loop is through with the
connection; a handler on the base loop destroys the server, and another connection of
the same poll is destroyed and freed with its channel still to be dispatched. -/
theorem destroy_server_uses_freed : (∃ s eof, machine.Reachable s ∧ s.alive = false ∧ s.enabled (.run 1 eof) ∧
      (s.loops 1).todo.head? = some (.stage 1 .read) ∧ machine.step s (.run 1 eof) = .error .useAfterFree) ∧
    (∃ s, machine.Reachable s ∧ s.alive = false ∧ s.enabled (.run 0 .idle) ∧
      (s.loops 1).work = [] ∧ (s.loops 0).todo.head? = some (.functor (.removeConnectionInLoop 1)) ∧
      machine.step s (.run 0 .idle) = .error .useAfterFree) ∧
    ∃ s, machine.Reachable s ∧ s.alive = false ∧ (2,.destroyed) ∈ s.trace ∧ s.enabled (.run 0 .idle) ∧
      (s.loops 0).todo.head? = some (.handleEvent 2) ∧ machine.step s (.run 0 .idle) = .error .useAfterFree := by
  let eof : Io := { Io.idle with read := .bytes [] }
  let closing : List Action := [.accept 5 Io.idle.alloc,.poll 1 [],.run 1 .idle,.run 1 .idle,.destroyServer [1],
    .poll 1 [(1,{ pollin := true })],.run 1 .idle,.run 1 .idle,.run 1 .idle]
  let queued : List Action := [.accept 5 Io.idle.alloc,.poll 1 [],.run 1 .idle,.run 1 .idle,
    .poll 1 [(1,{ pollin := true })],.run 1 .idle,.run 1 .idle,.run 1 .idle,.run 1 eof,.destroyServer [1],
    -- the pool waits for its threads, so the IO loop comes to its end first
    .run 1 .idle,.run 1 .idle,.run 1 .idle,.run 1 .idle,.run 1 .idle,.poll 0 [],.run 0 .idle]
  let within : List Action := [.accept 5 Io.idle.alloc,.accept 6 Io.idle.alloc,
    .poll 0 [(1,{ pollin := true }),(2,{ pollin := true })],.run 0 .idle,.run 0 .idle,.run 0 .idle,
    .run 0 { Io.idle with read := .bytes [7] },.destroyServer [1,2],.run 0 .idle,.run 0 .idle,.run 0 .idle,.run 0 .idle,
    .drop 2,.run 0 .idle,.run 0 .idle]
  have closes := Machine.Reachable.follow (m := machine) (.initial ⟨1,false,rfl⟩) closing (by decide +kernel)
  have removes := Machine.Reachable.follow (m := machine) (.initial ⟨1,false,rfl⟩) queued (by decide +kernel)
  have dispatches := Machine.Reachable.follow (m := machine) (.initial ⟨0,false,rfl⟩) within (by decide +kernel)
  refine ⟨⟨_,eof,closes,?_⟩,⟨_,removes,?_⟩,⟨_,dispatches,?_⟩⟩
  · exact ⟨by decide +kernel,by decide +kernel,by decide +kernel,Machine.step_failure (by decide +kernel)⟩
  · exact ⟨by decide +kernel,by decide +kernel,by decide +kernel,by decide +kernel,
      Machine.step_failure (by decide +kernel)⟩
  · exact ⟨by decide +kernel,by decide +kernel,by decide +kernel,by decide +kernel,
      Machine.step_failure (by decide +kernel)⟩

end System
end Evk
