import Evk.LifeInvariant
import Evk.ServerLife

/-! How a step can fail, read off the methods once. A connection in order fails for want
of memory and on its assertions. Beyond those, a step uses a connection that was freed,
or calls a server that is gone, or enters `HandleClose` a second time, only where it
is not provided for. -/
namespace Evk

/-- A second `HandleClose` is caught by its assertion. -/
def closedTwice : Fault := .assertion .handleClose

/-- The faults apart from a lack of memory and the other assertions. -/
structure Outside (e : Fault) : Prop where
  memory : .badAlloc ≠ e
  bounds : .outOfBounds ≠ e
  fatal : .fatal ≠ e
  sites : ∀ site ≠ .handleClose, .assertion site ≠ e

theorem closedTwice_outside : Outside closedTwice := by constructor <;> simp [closedTwice]

theorem useAfterFree_outside : Outside .useAfterFree := by constructor <;> simp

theorem Outside.assert_never (outside : Outside e) {p : Prop} [Decidable p] {site : Site}
    (other : site ≠ .handleClose) :
    Never e (assert p site) := check_never (outside.sites site other)

namespace Link

variable {c : ConnId} {x : Link} {e : Fault}

def ClosesIn (io : Io) (x : Link) : Task → Prop
  | .stage _ stage => x.Closes io stage
  | _ => False

instance (io : Io) (x : Link) : DecidablePred (x.ClosesIn io)
  | .stage _ stage => inferInstanceAs (Decidable (x.Closes io stage))
  | .handleEvent _ | .doPendingFunctors | .functor _ | .destroy _ _ => inferInstanceAs (Decidable False)

theorem remove_never {channel : Channel} {slot : Slot ConnId} (outside : Outside e) :
    Never e (Channel.remove c channel slot) := by
  refine (outside.assert_never (by decide)).bind fun _ _ => (outside.assert_never (by decide)).bind fun _ _ =>
    (outside.assert_never (by decide)).bind fun _ _ => (outside.assert_never (by decide)).bind fun _ _ => ?_
  dsimp only
  split
  · exact .ok
  · exact .ok

theorem onConnectEstablished_never (outside : Outside e) (sound : x.Sound c) : Never e (x.onConnectEstablished c) := by
  by_cases connecting : x.conn.status = .kConnecting
  · rw [onConnectEstablished_eq sound connecting]
    exact .ok
  · have refused : x.onConnectEstablished c = .error (.assertion .onConnectEstablished) := by
      simp [onConnectEstablished,assert,check,connecting]
    rw [refused]
    exact .other (outside.sites _ (by decide))

theorem onConnectDestroyed_never (outside : Outside e) (sound : x.Sound c) : Never e (x.onConnectDestroyed c b) := by
  cases b with
  | true =>
    rw [onConnectDestroyed_true sound]
    exact .ok
  | false =>
    simp only [onConnectDestroyed,Bool.false_eq_true,if_false,pure_eq_ok,ok_bind]
    exact ((remove_never outside).bind fun _ _ => .ok).bind fun _ _ => .ok

theorem sendInLoop_never (outside : Outside e) (sound : x.Sound c) (writes : x.Writes r message.bytes.length) :
    Never e (x.sendInLoop c alloc message r) := by
  by_cases down : x.conn.status = .kDisconnected
  · simp only [sendInLoop,down,if_true]
    exact .ok
  · rcases sendInLoop_spec sound.ready down alloc message r (fun _ => writes.1) with ⟨-,refused⟩ | ⟨y,effects,done,-⟩
    · rw [refused]
      exact .other outside.memory
    · rw [done]
      exact .ok

/-- A method that does not call the server. -/
def Inward (r : Except Fault (Link × List Effect)) : Prop := Ensures (fun result => .closeCb ∉ result.2) r

theorem inward_of_quiet {effects : List Effect} (quiet : ∀ effect ∈ effects, effect.isQuiet = true) :
    .closeCb ∉ effects := fun among => by simpa [Effect.isQuiet] using quiet _ among

theorem inward_of_notes {effects : List Effect} (notes : ∀ effect ∈ effects, effect.isNote = true) :
    .closeCb ∉ effects := inward_of_quiet fun effect among => Effect.quiet_of_note (notes effect among)

theorem onConnectEstablished_inward : Inward (x.onConnectEstablished c) :=
  ensures_assert.bind fun _ _ => (Ensures.any _).bind fun _ _ => .ok (by simp)

theorem onConnectDestroyed_inward (sound : x.Sound c) : Inward (x.onConnectDestroyed c b) := by
  cases b with
  | true =>
    rw [onConnectDestroyed_true sound]
    exact .ok (by simp)
  | false =>
    intro result done
    obtain ⟨rfl,-⟩ := onConnectDestroyed_false_spec sound result done
    simp

theorem sendInLoop_inward : Inward (x.sendInLoop c alloc message r) := fun result done =>
  inward_of_notes (sendInLoop_notes result done).1

theorem shutdownInLoop_inward : Inward (.ok x.shutdownInLoop) := .ok (inward_of_quiet shutdownInLoop_quiet)

theorem handleWrite_inward (sound : x.Sound c) : Inward (x.handleWrite c r) := by
  obtain ⟨y,effects,done,-,-,-,⟨notes,-⟩ | ⟨notes,rfl,quiet,-⟩⟩ := handleWrite_spec sound.ready r
  · rw [done]
    exact .ok (inward_of_notes notes)
  · rw [done]
    exact .ok (by simpa using inward_of_notes quiet)

end Link

namespace Life

variable {c : ConnId} {v : Life} {e : Fault}

def Closing (v : Life) : Action → Prop
  | .work io => ∃ task rest, v.queue = task :: rest ∧ v.link.ClosesIn io task
  | _ => False

/-- What keeps a step from one of the faults: the connection it uses is there, the server
it calls is there, and what it closes is open. -/
structure Provided (e : Fault) (v : Life) (a : Action) : Prop where
  live : .useAfterFree = e → (a = .destroyServer → v.mapped = true) → v.freed = false
  alive : .useAfterFree = e → a = .remove ∨ v.Closing a → v.alive = true
  up : closedTwice = e → v.Closing a → v.link.Up

theorem deref_never (live : .useAfterFree = e → v.freed = false) : Never e v.deref := by
  rw [deref]
  split
  · rename_i gone
    exact .other fun same => by simp [live same] at gone
  · exact .ok

theorem removeConnectionInLoop_never (outside : Outside e) (alive : .useAfterFree = e → v.alive = true)
    (live : .useAfterFree = e → v.freed = false) : Never e (v.removeConnectionInLoop c) :=
  (check_never_of alive).bind fun _ _ => (deref_never live).bind fun _ _ =>
    (outside.assert_never (by decide)).bind fun _ _ => .ok

theorem removeConnection_never (outside : Outside e) (alive : .useAfterFree = e → v.alive = true)
    (live : .useAfterFree = e → v.freed = false) : Never e (v.removeConnection c) := by
  refine (check_never_of alive).bind fun _ _ => ?_
  split
  · exact removeConnectionInLoop_never outside alive live
  · exact .ok

theorem applyEffects_inward (x : Link) (effects : List Effect) (inward : .closeCb ∉ effects) :
    ∃ w, applyEffects c x effects v = .ok w := by
  induction effects generalizing v with
  | nil => exact ⟨v,rfl⟩
  | cons effect effects ih =>
    have later := List.not_mem_of_not_mem_cons inward
    cases effect with
    | closeCb => exact absurd List.mem_cons_self inward
    | connCb | msgCb | queueWriteComplete | queueHighWaterMark | shutDownWrite =>
      simp only [applyEffects,applyEffect,ok_bind]
      exact ih later

theorem perform_inward (live : .useAfterFree = e → v.freed = false) (inward : Link.Inward (method v.link))
    (never : Never e (method v.link)) : Never e (v.perform c method) := by
  refine (deref_never live).bind fun x found => ?_
  rw [(deref_spec _ _ found).1]
  refine never.bind ?_
  rintro ⟨y,effects⟩ done
  obtain ⟨w,applied⟩ := applyEffects_inward (c := c) (v := v.setLink y) y effects (inward _ done)
  dsimp only
  rw [applied]
  exact .ok

/-- `HandleClose` closes a connection that is open, and calls a server that is there. -/
theorem perform_close (outside : Outside e) (live : .useAfterFree = e → v.freed = false)
    (alive : .useAfterFree = e → v.alive = true) (up : closedTwice = e → v.link.Up)
    (sound : (v.link.setInput b).Sound c) (same : method v.link = (v.link.setInput b).handleClose c) :
    Never e (v.perform c method) := by
  refine (deref_never live).bind fun x found => ?_
  rw [(deref_spec _ _ found).1,same]
  by_cases open_ : (v.link.setInput b).Up
  · rw [Link.handleClose_eq sound open_,ok_bind]
    refine Never.bind (removeConnection_never outside ?_ ?_) fun _ _ => .ok
    · exact alive
    · exact live
  · rw [Link.handleClose_down open_]
    exact .other fun same => open_ (up same)

theorem dispatch_never (live : .useAfterFree = e → v.freed = false)
    (never : wants v.link.conn.channel.revents = true → Never e (v.perform c handler)) :
    Never e (v.dispatch c wants handler) := by
  refine (deref_never live).bind fun x found => ?_
  rw [(deref_spec _ _ found).1]
  split
  · exact never ‹_›
  · exact .ok

theorem stage_never (outside : Outside e) (sound : v.link.Sound c) (permits : v.link.Permits io (.stage d stage))
    (live : .useAfterFree = e → v.freed = false) (alive : .useAfterFree = e → v.link.Closes io stage → v.alive = true)
    (up : closedTwice = e → v.link.Closes io stage → v.link.Up) : Never e (v.runTask c io (.stage d stage)) := by
  cases stage with
  | close =>
    refine dispatch_never live fun wants => ?_
    exact perform_close outside live (fun same => alive same wants) (fun same => up same wants)
      (sound.setInput sound.input) rfl
  | error => exact dispatch_never live fun _ => perform_inward live (.ok (by simp)) .ok
  | read =>
    refine dispatch_never live fun wants => ?_
    rcases Link.handleRead_spec sound io.alloc io.read io.consumed permits with
      refused | ⟨b,small,⟨eof,closed⟩ | ⟨effects,kinds,done⟩⟩
    · exact perform_inward live (refused ▸ .error _) (refused ▸ .other outside.memory)
    · exact perform_close outside live (fun same => alive same ⟨wants,eof⟩) (fun same => up same ⟨wants,eof⟩)
        (sound.setInput small) closed
    · refine perform_inward live (done ▸ .ok ?_) (done ▸ .ok)
      rcases kinds with rfl | rfl <;> simp
  | write =>
    obtain ⟨y,effects,done,-⟩ := Link.handleWrite_spec sound.ready io.write
    exact dispatch_never live fun _ => perform_inward live (Link.handleWrite_inward sound) (done ▸ .ok)
  | done => exact (deref_never live).bind fun _ _ => .ok

theorem work_never (outside : Outside e) (inv : v.Inv c) (allowed : v.enabled c (.work io))
    (provided : v.Provided e (.work io)) : Never e (v.work c io) := by
  obtain ⟨task,rest,head,permits⟩ := allowed
  have sound := inv.sound
  have live (same : .useAfterFree = e) : { v with queue := rest }.freed = false := provided.live same (by simp)
  simp only [work,head]
  cases task with
  | handleEvent d => exact ((deref_never live).bind fun _ _ => .ok).bind fun _ _ => .ok
  | stage d stage =>
    refine stage_never (v := { v with queue := rest }) outside sound permits live (fun same closes =>
      ?_) fun same closes => ?_
    · exact provided.alive same (.inr ⟨_,_,head,closes⟩)
    · exact provided.up same ⟨_,_,head,closes⟩
  | doPendingFunctors => exact .ok
  | destroy d b =>
    refine Never.bind (perform_inward live ?_ ?_) fun _ _ => .ok
    · exact Link.onConnectDestroyed_inward sound
    · exact Link.onConnectDestroyed_never outside sound
  | functor f =>
    cases f with
    | onConnectEstablished d =>
      exact perform_inward live Link.onConnectEstablished_inward (Link.onConnectEstablished_never outside sound)
    | sendInLoop d message =>
      exact perform_inward live Link.sendInLoop_inward (Link.sendInLoop_never outside sound permits)
    | shutdownInLoop d => exact perform_inward live Link.shutdownInLoop_inward .ok
    | onConnectDestroyed d | writeComplete d | highWaterMark d size => exact (deref_never live).bind fun _ _ => .ok
    | removeConnectionInLoop d => exact .ok

theorem step_never (outside : Outside e) (inv : v.Inv c) (allowed : v.enabled c a) (provided : v.Provided e a) :
    Never e (v.step c a) := by
  have sound := inv.sound
  cases a with
  | report revents =>
    exact (deref_never fun _ => allowed.1).bind fun _ _ => ((outside.assert_never (by decide)).bind fun _ _ =>
      (outside.assert_never (by decide)).bind fun _ _ => .ok).bind fun _ _ => .ok
  | work io => exact work_never outside inv allowed provided
  | remove =>
    refine removeConnectionInLoop_never outside (fun same => ?_) fun same => ?_
    · exact provided.alive same (.inl rfl)
    · exact provided.live same (by simp)
  | destroyServer =>
    simp only [step,destroyServer]
    split
    · rename_i mapped
      refine Never.bind (deref_never fun same => provided.live same fun _ => mapped) fun x _ => ?_
      split
      · exact .ok
      · exact .ok
    · exact .ok
  | send t message io =>
    refine (deref_never fun _ => allowed.1).bind fun x _ => ?_
    split
    · split
      · refine Never.bind (perform_inward (fun _ => allowed.1) Link.sendInLoop_inward ?_) fun _ _ => .ok
        exact Link.sendInLoop_never outside sound allowed.2
      · exact .ok
    · exact .ok
  | push t call =>
    refine Never.bind (deref_never fun same => provided.live same (by simp)) fun x _ => ?_
    cases call <;> exact .ok
  | shutdown t =>
    refine (deref_never fun _ => allowed).bind fun x _ => ?_
    split
    · exact .ok
    · dsimp only
      split
      · exact perform_inward (fun _ => allowed) Link.shutdownInLoop_inward .ok
      · exact .ok
  | drop =>
    exact (deref_never fun _ => allowed.1).bind fun x _ => (outside.assert_never (by decide)).bind fun _ _ =>
      ((outside.assert_never (by decide)).bind fun _ _ => outside.assert_never (by decide)).bind fun _ _ => .ok

end Life

namespace System

variable {c : ConnId} {s : System} {e : Fault}

theorem deref_never (live : s.Live c) : Never e (s.deref c) := by
  obtain ⟨x,held⟩ := Option.isSome_iff_exists.mp live.1
  rw [deref_of held live.2]
  exact .ok

theorem fillActiveChannels_never (outside : Outside e) (reports : List (ConnId × PollEvents))
    (live : ∀ report ∈ reports, s.Live report.1) : Never e (fillActiveChannels reports s) := by
  induction reports generalizing s with
  | nil => exact .ok
  | cons report reports ih =>
    obtain ⟨first,others⟩ := List.forall_mem_cons.mp live
    refine (deref_never first).bind fun _ _ => ((outside.assert_never (by decide)).bind fun _ _ =>
      (outside.assert_never (by decide)).bind fun _ _ => .ok).bind fun _ _ =>
        ih fun other among => ⟨?_,(others other among).2⟩
    exact Option.isSome_iff_exists.mpr (Placed.born_setLink (Option.isSome_iff_exists.mp (others other among).1))

theorem handleNewConnection_never (outside : Outside e) (placed : s.Placed) :
    Never e (s.handleNewConnection fd alloc) := by
  have loop : Never e s.getNextLoop := by
    rw [getNextLoop]
    split
    · exact .ok
    · exact (check_never outside.bounds).bind fun _ _ => .ok
  have buffer : Never e (Buffer.construct alloc Buffer.kInitialSize Buffer.kCheapPrependSize) := by
    rcases Buffer.construct_spec alloc Buffer.kInitialSize Buffer.kCheapPrependSize (by decide) with
      ⟨-,refused⟩ | ⟨b,done,-⟩
    · exact refused ▸ .other outside.memory
    · exact done ▸ .ok
  have unfreed : s.nextConnId ∉ s.freed := fun gone => by
    obtain ⟨y,held⟩ := placed.dropped _ gone
    simp [placed.unborn _ (Nat.le_refl _)] at held
  refine loop.bind fun result chosen => buffer.bind fun input first => buffer.bind fun output second => ?_
  obtain ⟨ioLoop,t⟩ := result
  obtain ⟨next,rfl⟩ : ∃ next, t = { s with next } := getNextLoop_spec _ chosen
  dsimp only
  split
  swap
  · exact .ok
  have fresh : ({ s with next }.enlist ⟨TcpConnection.construct ioLoop fd input output s.writeCompleteCb,.empty⟩).conns
      s.nextConnId = some ⟨TcpConnection.construct ioLoop fd input output s.writeCompleteCb,.empty⟩ :=
    Function.update_self _ _ _
  have present : ({ s with next }.enlist ⟨TcpConnection.construct ioLoop fd input output s.writeCompleteCb,.empty⟩).Live
      s.nextConnId := ⟨Option.isSome_iff_exists.mpr ⟨_,fresh⟩,unfreed⟩
  refine (deref_never present).bind fun x found => (check_never outside.fatal).bind fun _ _ => ?_
  obtain rfl := Option.some.inj (fresh.symm.trans (deref_spec _ found).1)
  have sound : Link.Sound s.nextConnId ⟨TcpConnection.construct ioLoop fd input output s.writeCompleteCb,.empty⟩ :=
    ⟨(Buffer.construct_returned first).1,(Buffer.construct_returned second).1,.connecting rfl ⟨rfl,rfl,rfl⟩ rfl⟩
  rw [Link.onConnectEstablished_eq sound rfl]
  exact .ok

theorem destroyConnections_never (order : List ConnId) (live : ∀ c ∈ order, s.Live c) :
    Never e (destroyConnections order s) := by
  induction order with
  | nil => exact .ok
  | cons c order ih =>
    obtain ⟨first,others⟩ := List.forall_mem_cons.mp live
    refine (ih others).bind fun t done => ?_
    obtain ⟨conns,freed⟩ := destroyConnections_frame order t done
    refine (deref_never (by rwa [Live,conns,freed])).bind fun x _ => ?_
    split
    · exact .ok
    · exact .ok

/-- A step of the server does not fail in a way that it is provided for in the life of
every connection it is about. -/
theorem step_never {a : Action} (outside : Outside e) (reachable : machine.Reachable s) (enabled : s.enabled a)
    (provided : ∀ c v b, s.life c = some v → s.lifeAction c a = some b → v.enabled c b → v.Provided e b) :
    Never e (s.step a) := by
  have placed := reachable_placed reachable
  have about {c : ConnId} {b : Life.Action} (born : s.Born c) (action : s.lifeAction c a = some b)
      (nopoll : ∀ l reports, a ≠ .poll l reports) (running : ∀ order, a ≠ .destroyServer order) :
      Never e (s.step a) := by
    obtain ⟨x,held⟩ := born
    have seen := life_of_held held
    obtain ⟨allowed,follows⟩ := step_follows placed enabled seen action nopoll running
    exact follows.never (Life.step_never outside (Life.reachable_inv (life_reachable reachable seen)) allowed
      (provided c _ b seen action allowed))
  cases a with
  | poll l reports =>
    refine (fillActiveChannels_never outside reports fun report among => ?_).bind fun _ _ => .ok
    obtain ⟨live,x,held,-⟩ := enabled.2.2.2 report among
    exact ⟨Option.isSome_iff_exists.mpr ⟨x,held⟩,live⟩
  | accept fd alloc => exact handleNewConnection_never outside placed
  | destroyServer order =>
    refine destroyConnections_never order fun c among => ?_
    have mapped := enabled.2.2.2.1 c among
    obtain ⟨x,held⟩ := placed.listed c mapped
    refine ⟨Option.isSome_iff_exists.mpr ⟨x,held⟩,fun gone => ?_⟩
    have unmapped := (Life.unreferenced_of_freed (life_reachable reachable (life_of_held held))
      (by simpa [view] using gone)).mapped
    simp [view,mapped] at unmapped
  | run l io =>
    obtain ⟨task,first,-⟩ := enabled.2
    obtain ⟨todo,head⟩ : ∃ todo, (s.loops l).todo = task :: todo := List.head?_eq_some_iff.mp first
    cases owner : task.about with
    | none =>
      cases task with
      | doPendingFunctors => simp only [step,run,head,runTask]; exact .ok
      | _ => cases owner
    | some c =>
      obtain ⟨x,held,-⟩ := placed.tasks l task (by simp [Loop.work,head]) c owner
      rcases about_cases owner with concerns | removal
      · exact about ⟨x,held⟩ (b := .work io) (by simp [lifeAction,head,concerns]) (by simp) (by simp)
      · exact about ⟨x,held⟩ (b := .remove) (by simp [lifeAction,head,removal,Task.concerns]) (by simp) (by simp)
  | send t d message io => exact about (Option.isSome_iff_exists.mp enabled.2.1.1) (if_pos rfl) (by simp) (by simp)
  | push t call => exact about (placed.called _ enabled) (if_pos rfl) (by simp) (by simp)
  | shutdown t d => exact about (Option.isSome_iff_exists.mp enabled.2.1) (if_pos rfl) (by simp) (by simp)
  | drop d => exact about (Option.isSome_iff_exists.mp enabled.1.1) (if_pos rfl) (by simp) (by simp)

end System
end Evk
