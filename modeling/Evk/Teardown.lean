import Evk.LifeInvariant
import Evk.ServerLife

/-! Teardown. `OnConnectDestroyed` takes a connection down cleanly if it does not find it
in `kDisconnecting`, where its mask is never cleared; the destructors behind it are right
if the last reference does not go in the middle of `HandleEvent`. -/
namespace Evk

/-- Down, without events of interest, and unknown to the poller and to the kernel. -/
structure Link.Clean (x : Link) : Prop where
  status : x.conn.status = .kDisconnected
  events : x.conn.channel.events = kNone
  channelMap : x.slot.channelMap = none
  interest : x.slot.interest = none

namespace Life

variable {c : ConnId} {v w : Life}

/-- `OnConnectDestroyed` does not find the connection half-closed by its own side. -/
def Punctual (v : Life) : Prop :=
  ∀ d rest, v.queue = .functor (.onConnectDestroyed d) :: rest → v.link.conn.status ≠ .kDisconnecting

def Orderly (v : Life) : Action → Prop
  | .work _ => v.Punctual
  | _ => True

/-- Past the status test with `false`, the connection is a closed one. -/
def Parted (v : Life) : Prop := ∀ d, .destroy d false ∈ v.queue → v.link.conn.status = .kDisconnected

theorem Parted.keep (parted : v.Parted) (status : w.link.conn.status = v.link.conn.status)
    (queue : ∀ d, .destroy d false ∈ w.queue → .destroy d false ∈ v.queue) : w.Parted :=
  fun d among => status.trans (parted d (queue d among))

theorem Parted.change (parted : v.Parted) (inv : v.Inv c) (punctual : ∀ io, a = .work io → v.Punctual)
    (change : Change c v a w) : w.Parted := by
  have later {task rest} (head : v.queue = task :: rest) (d : ConnId) (among : .destroy d false ∈ rest) :
      .destroy d false ∈ v.queue := by
    rw [head]
    exact List.mem_cons_of_mem _ among
  cases change with
  | quiet quiet _ => exact parted.keep quiet.link.status fun d => (quiet.mem_queue rfl).mp
  | shutdown connected quiet queue _ =>
    intro d among
    simpa [connected] using parted d (queue ▸ among)
  | report live functors interest reportable =>
    exact parted.keep rfl fun d among => by simpa [setLink,before] using among
  | begin live head =>
    exact parted.keep rfl fun d among => by simpa [setLink,before,System.stages,head] using among
  | done live head => exact parted.keep rfl (later head)
  | closeBase | closeAway | destroyUp | destroyClosed => exact fun _ _ => rfl
  | establish live head connecting =>
    intro d among
    have down := parted d (later head d among)
    simp [connecting] at down
  | test live head =>
    have settled := inv.settled head (by simp)
    have notLeaving := punctual _ rfl _ _ head
    intro d among
    rcases List.mem_cons.mp among with new | old
    · have down : v.link.conn.isConnected = false := (Task.destroy.inj new).2.symm
      cases status : v.link.conn.status <;> simp_all [TcpConnection.isConnected,before,record]
    · exact parted d (later head d old)
  | remove live positive alive mapped =>
    exact parted.keep rfl fun d among => by simpa [record,queueInLoop] using among
  | destroyBase live mapped base => exact parted.keep rfl fun d among => by simpa [before] using among
  | destroyAway live mapped away => exact parted.keep rfl fun d among => by simpa [queueInLoop] using among
  | destroyOther | drop => exact parted

theorem initial_parted (first : initial c v) : v.Parted := by
  obtain ⟨loop,fd,input,output,writeCompleteCb,-,-,⟨-,rfl⟩ | ⟨-,rfl⟩⟩ := initial_cases first
  · exact fun d among => by simp [setLink,record,accepted] at among
  · exact fun d among => by simp [queueInLoop,accepted] at among

theorem reachable_parted {allowed : Life → Action → Prop} (punctual : ∀ v io, allowed v (.work io) → v.Punctual)
    (reachable : ((machine c).restrict allowed).Reachable v) : v.Parted := by
  refine reachable.invariant_with (fun _ => initial_parted) (fun _ reached => reachable_inv reached.of_restrict) ?_
  intro v a w inv parted ⟨enabled,chosen⟩ stepped
  refine parted.change inv (fun io same => ?_) (inv.step_change enabled w stepped)
  subst same
  exact punctual v io chosen

theorem live_of_held (reachable : (machine c).Reachable v) (head : v.queue = task :: rest)
    (holds : task.holds c = true) :
    v.freed = false := by
  refine Bool.eq_false_iff.mpr fun gone => ?_
  simp [(unreferenced_of_freed reachable gone).queue task (by simp [head])] at holds

theorem test_succeeds (reachable : (machine c).Reachable v) (io : Io)
    (head : v.queue = .functor (.onConnectDestroyed c) :: rest) : ∃ w, v.work c io = .ok w := by
  have live := live_of_held reachable head (by simp [Task.holds,Functor.about])
  exact ⟨_,by simp [work,head,runTask,deref,live]; rfl⟩

theorem Inv.clean (inv : v.Inv c) (ended : .destroyed ∈ v.trace) : v.link.Clean := by
  obtain ⟨status,removed⟩ := inv.torn.mp ended
  cases inv.sound.standing with
  | connecting same _ _ => simp [same] at status
  | up same _ _ => simp [Link.Up,status] at same
  | closed _ known _ => simp [known.added] at removed
  | removed _ unknown idle => exact ⟨status,idle,by simp [unknown.slot,Slot.empty],by simp [unknown.slot,Slot.empty]⟩

theorem destroy_succeeds (reachable : (machine c).Reachable v) (parted : v.Parted) (io : Io)
    (head : v.queue = .destroy c b :: rest) : ∃ w, v.work c io = .ok w ∧ w.link.Clean := by
  have inv := reachable_inv reachable
  have live := live_of_held reachable head (by simp [Task.holds])
  cases b with
  | true =>
    refine ⟨(({ v with queue := rest }.setLink v.link.removed).record (.connCb false)).record .destroyed,
      ?_,rfl,rfl,rfl,rfl⟩
    simp [work,head,runTask,perform,deref,live,Link.onConnectDestroyed_true inv.sound,applyEffects,applyEffect]
  | false =>
    have status := parted c (by simp [head])
    obtain ⟨unended,-⟩ := inv.unended head
    have done : v.link.onConnectDestroyed c false = .ok (v.link.removed,[]) := by
      cases inv.sound.standing with
      | connecting same _ _ => simp [same] at status
      | up same _ _ => simp [Link.Up,status] at same
      | closed _ known idle => exact Link.onConnectDestroyed_false known idle status
      | removed _ unknown _ => exact absurd (inv.torn.mpr ⟨status,unknown.added⟩) unended
    refine ⟨({ v with queue := rest }.setLink v.link.removed).record .destroyed,?_,rfl,rfl,rfl,rfl⟩
    simp [work,head,runTask,perform,deref,live,done,applyEffects]

/-- A task of the connection has a raw pointer to its channel or owns a reference. -/
theorem dispatch_or_holds {task : Task} (concerns : task.concerns c = true) :
    task.isDispatch = true ∨ task.holds c = true := by
  cases task with
  | handleEvent | stage => exact .inl rfl
  | destroy => exact .inr concerns
  | doPendingFunctors => cases concerns
  | functor f =>
    cases f with
    | removeConnectionInLoop => cases concerns
    | _ => exact .inr concerns

theorem holds_of_destroying {task : Task} (concerns : task.concerns c = true)
    (destroying : task.isTest = true ∨ task.isDestroy = true) : task.holds c = true := by
  cases task with
  | functor f => cases f <;> simp_all [Task.isTest,Task.isDestroy,Task.concerns,Task.holds]
  | destroy => exact concerns
  | _ => simp [Task.isTest,Task.isDestroy] at destroying

/-- The references that destroy the connection do not go before `OnConnectDestroyed` is
through. -/
theorem Inv.ended_of_unheld (inv : v.Inv c) (unmapped : v.mapped = false)
    (unheld : ∀ task ∈ v.queue, task.holds c = false) :
    .destroyed ∈ v.trace := by
  have gone (task : Task) (among : task ∈ v.queue) : ¬(task.isTest = true ∨ task.isDestroy = true) :=
    fun destroying => by
    simpa [unheld task among] using holds_of_destroying (inv.concerns task among) destroying
  have awaited := inv.awaited
  have tested := inv.tested
  rw [List.countP_eq_zero.mpr fun task among test => gone task among (.inl test),unmapped] at awaited
  rw [List.countP_eq_zero.mpr fun task among rest => gone task among (.inr rest)] at tested
  simp only [Bool.toNat_false] at awaited
  exact List.one_le_count_iff.mp (by omega)

theorem Inv.drop_succeeds (inv : v.Inv c) (allowed : v.enabled c .drop) (outside : .stage c .done ∉ v.queue) :
    ∃ w, v.drop = .ok w := by
  have live : v.freed = false := allowed.1
  have ended := inv.ended_of_unheld allowed.2.1 allowed.2.2.2.2
  obtain ⟨status,removed⟩ := inv.torn.mp ended
  have idle : v.link.conn.channel.eventHandling = false :=
    Bool.eq_false_iff.mpr fun handling => outside (inv.handling handling)
  exact ⟨_,by simp [drop,deref,live,status,Channel.destroy,idle,removed]; rfl⟩

end Life

namespace System

variable {c : ConnId} {s : System} {v : Life}

def tested : Task → Option ConnId
  | .functor (.onConnectDestroyed c) => some c
  | _ => none

/-- No connection that a task begins to destroy is in `kDisconnecting`. -/
def Punctual (s : System) (l : LoopId) : Prop :=
  ∀ task ∈ (s.loops l).todo.head?, ∀ c ∈ tested task, ∀ x ∈ s.conns c, x.conn.status ≠ .kDisconnecting

/-- `OnConnectDestroyed` does not start on a connection in `kDisconnecting`, and the last
reference does not go while the loop is in `HandleEvent` of the connection's channel. -/
def Orderly (s : System) : Action → Prop
  | .run l _ => s.Punctual l
  | .drop c => ∀ x ∈ s.conns c, .stage c .done ∉ (s.loops x.conn.loop).todo
  | _ => True

instance (s : System) (l : LoopId) : Decidable (s.Punctual l) :=
  inferInstanceAs (Decidable (∀ _ ∈ _, ∀ _ ∈ _, ∀ _ ∈ _, _))

instance (s : System) : DecidablePred s.Orderly
  | .run _ _ => inferInstanceAs (Decidable (s.Punctual _))
  | .drop _ => inferInstanceAs (Decidable (∀ _ ∈ _, _))
  | .poll _ _ | .accept _ _ | .destroyServer _ | .send _ _ _ _ | .push _ _ | .shutdown _ _ =>
      inferInstanceAs (Decidable True)

theorem punctual_life (seen : s.life c = some v) (punctual : s.Punctual l) (head : (s.loops l).todo = task :: todo)
    (concerns : task.concerns c = true) (queue : v.queue = task :: rest) : v.Punctual := by
  intro d rest' first
  obtain ⟨rfl,-⟩ := List.cons.inj (queue.symm.trans first)
  obtain rfl : d = c := of_decide_eq_true concerns
  exact punctual _ (by rw [head]; rfl) d rfl _ (held_of_life seen)

theorem orderly_life {a : Action} (placed : s.Placed) (seen : s.life c = some v) (orderly : s.Orderly a)
    (action : s.lifeAction c a = some b) : v.Orderly b := by
  cases b with
  | work io =>
    obtain ⟨l,task,todo,rfl,head,concerns,queue⟩ := lifeAction_work placed seen action
    exact punctual_life seen orderly head concerns queue
  | _ => trivial

theorem orderly_parted (reachable : (machine.restrict Orderly).Reachable s) (seen : s.life c = some v) : v.Parted :=
  Life.reachable_parted (fun _ _ => id)
    (reachable_life (fun _ _ _ _ placed seen _ => orderly_life placed seen) reachable seen)

theorem Placed.life_of_head (placed : s.Placed) (head : (s.loops l).todo = task :: todo) (about : task.about = some c) :
    ∃ v, s.life c = some v := by
  obtain ⟨x,held,-⟩ := placed.tasks l task (by simp [Loop.work,head]) c about
  exact ⟨_,life_of_held held⟩

theorem run_of_work {P : Life → Prop} (placed : s.Placed) (seen : s.life c = some v)
    (head : (s.loops l).todo = task :: todo) (concerns : task.concerns c = true)
    (succeeds : ∀ rest, v.queue = task :: rest → ∃ w, v.work c io = .ok w ∧ P w) :
    ∃ t w, s.step (.run l io) = .ok t ∧ t.life c = some w ∧ P w := by
  obtain ⟨-,⟨rest,queue⟩,follows⟩ := work_follows io placed seen head concerns
  obtain ⟨w,done,holds⟩ := succeeds rest queue
  rw [done] at follows
  obtain ⟨t,stepped,seen'⟩ := follows.ok_right
  exact ⟨t,w,stepped,seen',holds⟩

theorem run_tests (reachable : machine.Reachable s) (io : Io)
    (head : (s.loops l).todo = .functor (.onConnectDestroyed c) :: todo) :
    ∃ t, s.step (.run l io) = .ok t := by
  have placed := reachable_placed reachable
  obtain ⟨v,seen⟩ := placed.life_of_head head rfl
  obtain ⟨t,-,stepped,-⟩ := run_of_work (P := fun _ => True) placed seen head (by simp [Task.concerns,Functor.about])
    fun rest queue => (Life.test_succeeds (life_reachable reachable seen) io queue).imp fun _ done => ⟨done,trivial⟩
  exact ⟨t,stepped⟩

theorem run_destroys (reachable : machine.Reachable s) (parted : ∀ v, s.life c = some v → v.Parted) (io : Io)
    (head : (s.loops l).todo = .destroy c b :: todo) :
    ∃ t x, s.step (.run l io) = .ok t ∧ t.conns c = some x ∧ x.Clean := by
  have placed := reachable_placed reachable
  obtain ⟨v,seen⟩ := placed.life_of_head head rfl
  obtain ⟨t,w,stepped,seen',clean⟩ := run_of_work placed seen head (by simp [Task.concerns])
    fun rest queue => Life.destroy_succeeds (life_reachable reachable seen) (parted v seen) io queue
  exact ⟨t,w.link,stepped,held_of_life seen',clean⟩

/-- In every run where `OnConnectDestroyed` finds no connection in `kDisconnecting`, it goes
through to the end and leaves the connection clean, and the destructors find it so
outside of its `HandleEvent`. -/
theorem teardown_clean (reachable : (machine.restrict Orderly).Reachable s) :
    (∀ l io todo, (s.loops l).todo = .functor (.onConnectDestroyed c) :: todo → ∃ t, s.step (.run l io) = .ok t) ∧
    (∀ l io b todo, (s.loops l).todo = .destroy c b :: todo →
      ∃ t x, s.step (.run l io) = .ok t ∧ t.conns c = some x ∧ x.Clean) ∧
    ((c,.destroyed) ∈ s.trace → ∀ x ∈ s.conns c, x.Clean) ∧
    ((machine.restrict Orderly).enabled s (.drop c) → ∃ t, s.step (.drop c) = .ok t) := by
  have plain := reachable.of_restrict
  refine ⟨fun l io todo => run_tests plain io,fun l io b todo => run_destroys plain (fun _ =>
    orderly_parted reachable) io,
    fun ended x held => ?_,fun ⟨enabled,outside⟩ => ?_⟩
  · exact (Life.reachable_inv (life_reachable plain (life_of_held held))).clean (mem_eventsOf.mpr ended)
  · obtain ⟨x,held⟩ := Option.isSome_iff_exists.mp enabled.1.1
    have seen := life_of_held held
    have inv := Life.reachable_inv (life_reachable plain seen)
    obtain ⟨w,done⟩ := inv.drop_succeeds (drop_enabled seen enabled) fun handling => by
      rcases List.mem_append.mp (List.mem_filter.mp handling).1 with now | later
      · exact outside x held now
      · simp at later
    have follows := drop_follows seen
    rw [done] at follows
    obtain ⟨t,stepped,-⟩ := follows.ok_right
    exact ⟨t,stepped⟩

/-- The peer closes and the connection goes down cleanly, to its last reference. -/
theorem teardown_clean_peer_close : ∃ s t, (machine.restrict Orderly).Reachable s ∧ (1,.destroyed) ∈ s.trace ∧
    (∀ x ∈ s.conns 1, x.Clean) ∧ s.step (.drop 1) = .ok t := by
  let eof : Io := { Io.idle with read := .bytes [] }
  let schedule : List Action := [.accept 5 Io.idle.alloc,.poll 0 [(1,{ pollin := true })],.run 0 .idle,.run 0 .idle,
    .run 0 .idle,.run 0 eof,.run 0 .idle,.run 0 .idle,.run 0 .idle,.run 0 .idle,.run 0 .idle]
  have reachable := Machine.Reachable.follow (m := machine.restrict Orderly) (.initial ⟨0,false,rfl⟩) schedule
    (by decide +kernel)
  have ended : (1,.destroyed) ∈ (schedule.foldl machine.advance (construct 0 false)).trace := by decide +kernel
  have unused : (machine.restrict Orderly).enabled (schedule.foldl machine.advance (construct 0 false)) (.drop 1) := by
    decide +kernel
  obtain ⟨-,-,clean,dropped⟩ := teardown_clean (c := 1) reachable
  obtain ⟨t,done⟩ := dropped unused
  exact ⟨_,t,reachable,ended,clean ended,done⟩

/-- A server that goes after a local `Shutdown`, with the peer still open, fails the
assertion of `Channel::Remove`; one that goes in a handler of its own connection fails
that of `~Channel`. -/
theorem teardown_fails : (∃ s, machine.Reachable s ∧ s.enabled (.run 0 .idle) ∧
      (s.loops 0).todo.head? = some (.destroy 1 false) ∧
        machine.step s (.run 0 .idle) = .error (.assertion .channelRemove)) ∧
    ∃ s, machine.Reachable s ∧ s.enabled (.drop 1) ∧ (1,.destroyed) ∈ s.trace ∧
      machine.step s (.drop 1) = .error (.assertion .channelDestructor) := by
  let leaving : List Action := [.accept 5 Io.idle.alloc,.shutdown (.loop 0) 1,.destroyServer [1],.run 0 .idle]
  let inside : List Action := [.accept 5 Io.idle.alloc,.poll 0 [(1,{ pollin := true })],.run 0 .idle,.run 0 .idle,
    .run 0 .idle,.run 0 { Io.idle with read := .bytes [1] },.destroyServer [1],.run 0 .idle,.run 0 .idle]
  have leaves := Machine.Reachable.follow (m := machine) (.initial ⟨0,false,rfl⟩) leaving (by decide +kernel)
  have within := Machine.Reachable.follow (m := machine) (.initial ⟨0,false,rfl⟩) inside (by decide +kernel)
  constructor
  · exact ⟨_,leaves,by decide +kernel,by decide +kernel,Machine.step_failure (by decide +kernel)⟩
  · exact ⟨_,within,by decide +kernel,by decide +kernel,Machine.step_failure (by decide +kernel)⟩

end System
end Evk
