import Evk.PollerTurns
import Evk.Registration

/-! The pollers of a server. The model gives each connection the slot of its descriptor;
in the program the slots of a loop are one channel map and one interest set. The two
come to the same as long as no two connections that are there share a descriptor, and
that rests on when connections close theirs: not before they are removed and freed.
What a step of the server does to a connection's slot is a turn of its channel, which
the poller of the loop follows by its own calls. -/
namespace Evk

namespace Link

variable {c : ConnId} {x y : Link}

def fd (x : Link) : Nat := x.conn.channel.fd

/-- Dealings with the poller that lead from one state of a connection to another. -/
def Turn (c : ConnId) (x y : Link) : Prop := Channel.Turn c x.conn.channel x.slot y.conn.channel y.slot

theorem onChannel_turn (x : Link) (interest : Interest) : Ensures (x.Turn c) (x.onChannel (interest.run c)) := by
  intro y done
  obtain ⟨⟨channel,slot⟩,ran,last⟩ := bind_ok_iff.mp done
  cases last
  exact .update interest ran

theorem onConnectEstablished_turn : Ensures (fun result => x.Turn c result.1) (x.onConnectEstablished c) := by
  refine ensures_assert.bind fun _ _ => ?_
  exact (onChannel_turn (x.setStatus .kConnected) .enableReadEvent).bind fun y turn => .ok turn

theorem handleClose_turn : Ensures (fun result => x.Turn c result.1) (x.handleClose c) := by
  refine ensures_assert.bind fun _ _ => ?_
  exact (onChannel_turn (x.setStatus .kDisconnected) .disableAllEvent).bind fun y turn => .ok turn

theorem onConnectDestroyed_turn (wasConnected : Bool) :
    Ensures (fun result => x.Turn c result.1) (x.onConnectDestroyed c wasConnected) := by
  have last (y : Link) (effects : List Effect) (turn : x.Turn c y) : Ensures (fun result => x.Turn c result.1) (do
      let z ← y.onChannel (Channel.remove c)
      return (z,effects)) := by
    intro result done
    obtain ⟨z,removed,⟨⟩⟩ := bind_ok_iff.mp done
    obtain ⟨⟨channel,slot⟩,ran,⟨⟩⟩ := bind_ok_iff.mp removed
    exact turn.trans (.remove ran)
  cases wasConnected with
  | true => exact (onChannel_turn (x.setStatus .kDisconnected) .disableAllEvent).bind fun y turn => last y _ turn
  | false => exact last x [] .refl

theorem shutdownInLoop_turn : x.Turn c x.shutdownInLoop.1 := by
  rw [shutdownInLoop]
  split
  · exact .refl
  · exact .refl

theorem handleWrite_turn : Ensures (fun result => x.Turn c result.1) (x.handleWrite c r) := by
  rw [handleWrite]
  split
  · refine (Ensures.any _).bind fun data _ => ?_
    split
    · rename_i n
      refine (Ensures.any _).bind fun b _ => (Ensures.any _).bind fun size _ => ?_
      split
      · refine (onChannel_turn ((x.takeSent (data.take (n + 1))).setOutput b) .disableWriteEvent).bind
          fun y (turn : x.Turn c y) => ?_
        dsimp only
        split
        · exact .ok (turn.trans shutdownInLoop_turn)
        · exact .ok turn
      · exact .ok .refl
    · exact .ok .refl
  · exact .ok .refl

theorem appendOutput_turn : Ensures (fun result => x.Turn c result.1) (x.appendOutput c alloc bytes) := by
  refine (Ensures.any _).bind fun size _ => (Ensures.any _).bind fun b _ => ?_
  dsimp only
  split
  · exact .ok .refl
  · exact (onChannel_turn (x.setOutput b) .enableWriteEvent).bind fun y turn => .ok turn

theorem sendInLoop_turn : Ensures (fun result => x.Turn c result.1) (x.sendInLoop c alloc message r) := by
  have rest (y : Link) (d : Direct) : Ensures (fun result => y.Turn c result.1) (y.sendRest c alloc message d) := by
    refine (Ensures.any _).bind fun _ _ => ?_
    split
    · exact .ok .refl
    · split
      · exact (appendOutput_turn (x := y.accept message)).bind fun result turn => .ok turn
      · exact .ok .refl
  rw [sendInLoop]
  split
  · exact .ok .refl
  · refine (Ensures.any _).bind fun _ _ => ?_
    split
    · exact rest _ _
    · exact rest _ _

end Link

namespace Life

variable {c : ConnId} {v w : Life}

def Action.isOwn : Action → Bool
  | .report _ | .destroyServer => false
  | _ => true

theorem Flow.isOwn (flow : Flow c v a w) : a.isOwn = true := by cases flow <;> rfl

theorem Flow.turn (flow : Flow c v a w) : v.link.Turn c w.link := by
  cases flow with
  | nothing | pop | sendAway | pushSend | pushShutdown | refused => exact .refl
  | write _ _ done => exact Link.handleWrite_turn _ done
  | send _ done | sendHere _ _ done => exact Link.sendInLoop_turn _ done
  | shutdownInLoop => exact Link.shutdownInLoop_turn

/-- What a step leaves as it is with the poller: at most marks are set in the channel. -/
structure Unturned (v w : Life) : Prop where
  channel : ∃ revents eventHandling, w.link.conn.channel = { v.link.conn.channel with revents, eventHandling }
  slot : w.link.slot = v.link.slot
  live : w.freed = false → v.freed = false

/-- A step leaves the poller alone, or is a turn of a connection that is there. -/
theorem Change.turn (change : Change c v a w) (inv : v.Inv c) : w.link.conn.loop = v.link.conn.loop ∧
    (v.Unturned w ∨ a.isOwn = true ∧ v.freed = false ∧ w.freed = false ∧ v.link.Turn c w.link) := by
  cases change with
  | quiet quiet flow => exact ⟨quiet.link.loop,.inr ⟨flow.isOwn,quiet.live,quiet.same.2.2.2.trans quiet.live,flow.turn⟩⟩
  | shutdown _ quiet _ flow =>
    refine ⟨quiet.link.loop,.inr ⟨rfl,quiet.live,quiet.same.2.2.2.trans quiet.live,?_⟩⟩
    rcases flow with ⟨-,link,-⟩ | ⟨link,-⟩
    · rw [link]
      exact Link.shutdownInLoop_turn (x := v.link.setStatus .kDisconnecting)
    · rw [link]
      exact .refl
  | report live => exact ⟨rfl,.inl ⟨⟨_,_,rfl⟩,rfl,fun _ => live⟩⟩
  | begin live => exact ⟨rfl,.inl ⟨⟨_,_,rfl⟩,rfl,fun _ => live⟩⟩
  | done live => exact ⟨rfl,.inl ⟨⟨_,_,rfl⟩,rfl,fun _ => live⟩⟩
  | closeBase live head closes up small | closeAway live head closes up small =>
    have closed := Link.handleClose_eq (inv.sound.setInput small) up
    exact ⟨rfl,.inr ⟨rfl,live,live,Link.handleClose_turn (x := v.link.setInput _) _ closed⟩⟩
  | establish live head connecting =>
    have established := Link.onConnectEstablished_eq inv.sound connecting
    exact ⟨rfl,.inr ⟨rfl,live,live,Link.onConnectEstablished_turn _ established⟩⟩
  | destroyUp live head =>
    have destroyed := Link.onConnectDestroyed_true inv.sound
    exact ⟨rfl,.inr ⟨rfl,live,live,Link.onConnectDestroyed_turn true _ destroyed⟩⟩
  | destroyClosed live head closed known =>
    have idle : v.link.conn.channel.events = kNone := by
      cases inv.sound.standing with
      | up status => simp [Link.Up,closed] at status
      | connecting _ _ idle | closed _ _ idle | removed _ _ idle => exact idle
    have destroyed := Link.onConnectDestroyed_false known idle closed
    exact ⟨rfl,.inr ⟨rfl,live,live,Link.onConnectDestroyed_turn false _ destroyed⟩⟩
  | test live | remove live | destroyBase live | destroyAway live | drop live =>
    exact ⟨rfl,.inl ⟨⟨_,_,rfl⟩,rfl,fun _ => live⟩⟩
  | destroyOther => exact ⟨rfl,.inl ⟨⟨_,_,rfl⟩,rfl,id⟩⟩

theorem unknown_of_freed (reachable : (machine c).Reachable v) (gone : v.freed = true) :
    Channel.Unregistered v.link.conn.channel v.link.slot := by
  have inv := reachable_inv reachable
  obtain ⟨unmapped,-,-,unheld⟩ := unreferenced_of_freed reachable gone
  exact inv.unregistered (inv.ended_of_unheld unmapped unheld)

end Life

namespace System

/-- What a step leaves as it is with the poller of a connection. -/
inductive Rests (c : ConnId) (s t : System) : Prop where
  | absent (before : s.conns c = none) (after : t.conns c = none)
  | kept (before : s.conns c = some x) (after : t.conns c = some y) (home : y.conn.loop = x.conn.loop)
      (channel : ∃ revents eventHandling, y.conn.channel = { x.conn.channel with revents, eventHandling })
      (slot : y.slot = x.slot) (live : c ∉ t.freed → c ∉ s.freed)

/-- Everything a step can do to a connection and its poller. -/
inductive Meets (c : ConnId) (s : System) (a : Action) (t : System) : Prop where
  | rests (rests : Rests c s t)
  | turned (before : s.conns c = some x) (after : t.conns c = some y) (home : y.conn.loop = x.conn.loop)
      (acts : s.lifeAction c a = some b) (own : b.isOwn = true) (live : c ∉ s.freed) (still : c ∉ t.freed)
      (turn : x.Turn c y)
  | born (before : s.conns c = none) (after : t.conns c = some y) (new : c = s.nextConnId) (still : c ∉ t.freed)
      (accepts : a = .accept y.fd alloc) (turn : Channel.Turn c (.construct y.fd) .empty y.conn.channel y.slot)

variable {s t : System} {c d : ConnId} {l : LoopId} {x y : Link}

theorem applyEffects_conns (effects : List Effect) : Ensures (fun t => t.conns = s.conns)
    (applyEffects l c x effects s) := by
  induction effects generalizing s with
  | nil => exact .ok rfl
  | cons effect effects ih =>
    have first : Ensures (fun t => t.conns = s.conns) (s.applyEffect l c x effect) := by
      cases effect with
      | closeCb => exact removeConnection_conns (s := s.record c .closeCb)
      | connCb | msgCb | queueWriteComplete | queueHighWaterMark | shutDownWrite => exact .ok rfl
    exact first.bind fun t same u done => (ih u done).trans same

/-- The connection that an accept makes has the descriptor that was accepted, and its
channel is new but for what establishing it does. -/
theorem handleNewConnection_turn : Ensures (fun t => ∀ y, t.conns s.nextConnId = some y →
    y.fd = fd ∧ Channel.Turn s.nextConnId (.construct fd) .empty y.conn.channel y.slot)
      (s.handleNewConnection fd alloc) := by
  refine getNextLoop_spec.bind fun (ioLoop,t) ⟨next,same⟩ => ?_
  obtain rfl : t = { s with next } := same
  refine (Ensures.any _).bind fun input _ => (Ensures.any _).bind fun output _ => ?_
  dsimp only
  generalize built : Link.mk (TcpConnection.construct ioLoop fd input output s.writeCompleteCb) .empty = x
  have own : x.conn.channel = .construct fd ∧ x.slot = .empty := by
    rw [← built]
    exact ⟨rfl,rfl⟩
  have listed : ({ s with next }.enlist x).conns s.nextConnId = some x := Function.update_self _ _ _
  split
  · refine deref_spec.bind fun x' held => ensures_check.bind fun _ _ => ?_
    obtain rfl : x = x' := Option.some.inj (listed.symm.trans held.1)
    refine Link.onConnectEstablished_turn.bind fun result turn t done y found => ?_
    rw [applyEffects_conns result.2 t done] at found
    obtain rfl : result.1 = y := by simpa [System.setLink] using found
    rw [Link.Turn,own.1,own.2] at turn
    exact ⟨turn.fd,turn⟩
  · refine .ok fun y found => ?_
    obtain rfl : x = y := Option.some.inj (listed.symm.trans found)
    rw [Link.fd,own.1,own.2]
    exact ⟨rfl,.refl⟩

theorem step_meets (reachable : machine.Reachable s) (enabled : s.enabled a) (stepped : s.step a = .ok t) (c : ConnId) :
    Meets c s a t := by
  have placed := reachable_placed reachable
  cases seen : s.life c with
  | some v =>
    obtain ⟨w,seen',moves⟩ := step_life placed enabled seen t stepped
    have live (unfreed : v.freed = false) : c ∉ s.freed := by
      rw [view_of_life seen] at unfreed
      simpa [view] using unfreed
    have still : w.freed = false ↔ c ∉ t.freed := by
      rw [view_of_life seen']
      simp [view]
    cases action : s.lifeAction c a with
    | none =>
      rw [action] at moves
      obtain rfl : w = v := moves
      exact .rests (.kept (held_of_life seen) (held_of_life seen') rfl ⟨_,_,rfl⟩ rfl fun there =>
        live (still.mpr there))
    | some b =>
      rw [action] at moves
      have inv := Life.reachable_inv (life_reachable reachable seen)
      obtain ⟨home,unturned | ⟨own,unfreed,kept,turn⟩⟩ := (inv.step_change moves.1 w moves.2).turn inv
      · exact .rests (.kept (held_of_life seen) (held_of_life seen') home unturned.channel unturned.slot fun there =>
          live (unturned.live (still.mpr there)))
      · exact .turned (held_of_life seen) (held_of_life seen') home action own (live unfreed) (still.mp kept) turn
  | none =>
    have absent : s.conns c = none := Option.map_eq_none_iff.mp seen
    cases after : t.conns c with
    | none => exact .rests (.absent absent after)
    | some y =>
      by_cases birth : ∃ fd alloc, a = .accept fd alloc ∧ c = s.nextConnId
      · obtain ⟨fd,alloc,rfl,rfl⟩ := birth
        obtain ⟨rfl,turn⟩ := handleNewConnection_turn t stepped y after
        obtain ⟨w,seen',initial⟩ := accept_own placed enabled.1 t stepped
        have there : w.freed = false := by
          obtain ⟨_,_,_,_,_,-,-,⟨-,rfl⟩ | ⟨-,rfl⟩⟩ := Life.initial_cases initial
          · rfl
          · rfl
        rw [view_of_life seen'] at there
        exact .born absent after rfl (by simpa [view] using there) rfl turn
      · have still := unborn_life placed enabled seen (fun fd alloc accepts same =>
          birth ⟨fd,alloc,accepts,same⟩) t stepped
        simp [life_of_held after] at still

/-- A connection that is there after a step was there before, with its descriptor, or the
step accepted it. -/
theorem Meets.origin (meets : Meets c s a t) (held : t.conns c = some y) (live : c ∉ t.freed) :
    (∃ x, s.conns c = some x ∧ y.fd = x.fd ∧ c ∉ s.freed) ∨ c = s.nextConnId ∧ ∃ alloc, a = .accept y.fd alloc := by
  cases meets with
  | rests rests =>
    cases rests with
    | absent _ after => simp [held] at after
    | kept before after _ channel _ unfreed =>
      obtain rfl := Option.some.inj (after.symm.trans held)
      obtain ⟨_,_,channel⟩ := channel
      exact .inl ⟨_,before,by rw [Link.fd,channel,Link.fd],unfreed live⟩
  | turned before after _ _ _ unfreed _ turn =>
    obtain rfl := Option.some.inj (after.symm.trans held)
    exact .inl ⟨_,before,turn.fd,unfreed⟩
  | born _ after new _ accepts _ =>
    obtain rfl := Option.some.inj (after.symm.trans held)
    exact .inr ⟨new,_,accepts⟩

def Apart (s : System) : Prop :=
  ∀ c d x y, s.conns c = some x → s.conns d = some y → c ∉ s.freed → d ∉ s.freed → x.fd = y.fd → c = d

theorem Placed.fresh (placed : s.Placed) (enabled : s.enabled (.accept fd alloc)) (held : s.conns c = some x)
    (live : c ∉ s.freed) : x.fd ≠ fd := by
  refine enabled.2.2 c ?_ live x held
  by_contra above
  simp [placed.unborn c (Nat.not_lt.mp above)] at held

theorem reachable_apart (reachable : machine.Reachable s) : s.Apart := by
  induction reachable with
  | initial first =>
    obtain ⟨poolSize,writeCompleteCb,rfl⟩ := first
    intro c d x y held
    cases held
  | @step s a t before enabled stepped ih =>
    have placed := reachable_placed before
    have enabled : s.enabled a := enabled
    intro c d x y held held' live live' same
    have first := (step_meets before enabled stepped c).origin held live
    have second := (step_meets before enabled stepped d).origin held' live'
    rcases first with ⟨x₀,old,kept,live₀⟩ | ⟨new,alloc,accepts⟩
    · rcases second with ⟨y₀,old',kept',live₀'⟩ | ⟨-,alloc,rfl⟩
      · exact ih c d x₀ y₀ old old' live₀ live₀' (kept.symm.trans (same.trans kept'))
      · exact absurd (kept.symm.trans same) (placed.fresh enabled old live₀)
    · rcases second with ⟨y₀,old',kept',live₀'⟩ | ⟨new',-⟩
      · subst accepts
        exact absurd (kept'.symm.trans same.symm) (placed.fresh enabled old' live₀')
      · exact new.trans new'.symm

/-- Whether the poller of loop `l` has connection `c` at a descriptor. -/
def Has (l : LoopId) (fd : Nat) (s : System) (c : ConnId) : Prop :=
  ∃ x ∈ s.conns c, x.conn.loop = l ∧ x.fd = fd ∧ x.slot ≠ .empty

instance (l : LoopId) (fd : Nat) (s : System) : DecidablePred (s.Has l fd) := fun _ =>
  inferInstanceAs (Decidable (∃ _ ∈ _, _))

/-- The poller of a loop, put together from the slots of the loop's connections. -/
def poller (l : LoopId) (s : System) : EPoller.State ConnId where
  channel c :=
    match s.conns c with
    | some x => if x.conn.loop = l then x.conn.channel else .construct 0
    | none => .construct 0
  slot fd :=
    match (List.range s.nextConnId).find? (s.Has l fd) with
    | some c => ((s.conns c).map (·.slot)).getD .empty
    | none => .empty
  eventListSize := EPoller.kInitEventListSize

theorem poller_channel (held : s.conns c = some x) (home : x.conn.loop = l) :
    (s.poller l).channel c = x.conn.channel := by
  simp [poller,held,home]

theorem consistent_of_held (reachable : machine.Reachable s) (held : s.conns c = some x) :
    Channel.Consistent c x.conn.channel x.slot :=
  (Life.reachable_inv (life_reachable reachable (life_of_held held))).sound.standing.consistent

theorem registered_of_slot (reachable : machine.Reachable s) (held : s.conns c = some x) (used : x.slot ≠ .empty) :
    Channel.Registered c x.conn.channel x.slot ∧ c ∉ s.freed := by
  constructor
  · rcases consistent_of_held reachable held with registered | unknown
    · exact registered
    · exact absurd unknown.slot used
  · intro gone
    have unknown := Life.unknown_of_freed (life_reachable reachable (life_of_held held)) (by simpa [view] using gone)
    exact used unknown.slot

/-- The poller's slot of a descriptor is empty, or that of the one connection it has there. -/
theorem poller_slot (reachable : machine.Reachable s) (l : LoopId) (fd : Nat) :
    ((s.poller l).slot fd = .empty ∧ ∀ c, ¬s.Has l fd c) ∨
    ∃ c x, s.conns c = some x ∧ x.conn.loop = l ∧ x.fd = fd ∧ (s.poller l).slot fd = x.slot ∧
      Channel.Registered c x.conn.channel x.slot ∧ c ∉ s.freed := by
  cases found : (List.range s.nextConnId).find? (s.Has l fd) with
  | none =>
    left
    refine ⟨by simp [poller,found],fun c has => ?_⟩
    have below : c < s.nextConnId := by
      obtain ⟨x,held,-⟩ := has
      by_contra above
      simp [(reachable_placed reachable).unborn c (Nat.not_lt.mp above)] at held
    simpa [has] using List.find?_eq_none.mp found c (List.mem_range.mpr below)
  | some c =>
    right
    obtain ⟨x,held,home,same,used⟩ : s.Has l fd c := by simpa using List.find?_some found
    exact ⟨c,x,held,home,same,by simp [poller,found,Option.mem_def.mp held],registered_of_slot reachable held used⟩

theorem poller_slot_own (reachable : machine.Reachable s) (held : s.conns c = some x) (live : c ∉ s.freed) :
    (s.poller x.conn.loop).slot x.fd = x.slot := by
  rcases poller_slot reachable x.conn.loop x.fd with ⟨empty,none⟩ | ⟨d,y,held',-,same,slot,-,live'⟩
  · rw [empty]
    by_contra used
    exact none c ⟨x,held,rfl,rfl,Ne.symm used⟩
  · obtain rfl : d = c := reachable_apart reachable d c y x held' held live' live same
    obtain rfl : y = x := Option.some.inj (held'.symm.trans held)
    exact slot

theorem held_of_known (reachable : machine.Reachable s) (mapped : ((s.poller l).slot fd).channelMap = some c) :
    ∃ x, s.conns c = some x ∧ x.conn.loop = l ∧ x.fd = fd ∧ Channel.Registered c x.conn.channel x.slot ∧
      c ∉ s.freed := by
  rcases poller_slot reachable l fd with ⟨empty,-⟩ | ⟨d,x,held,home,same,slot,registered,live⟩
  · simp [empty,Slot.empty] at mapped
  · rw [slot,registered.mapped] at mapped
    cases mapped
    exact ⟨x,held,home,same,registered,live⟩

def UsedAt (l : LoopId) (fd : Nat) (slot : Slot ConnId) (s : System) (c : ConnId) : Prop :=
  ∃ x, s.conns c = some x ∧ x.conn.loop = l ∧ x.fd = fd ∧ x.slot = slot ∧ slot ≠ .empty

theorem UsedAt.poller_slot (used : s.UsedAt l fd slot c) (reachable : machine.Reachable s) :
    (s.poller l).slot fd = slot := by
  obtain ⟨x,held,rfl,rfl,rfl,used⟩ := used
  exact poller_slot_own reachable held (registered_of_slot reachable held used).2

theorem empty_or_usedAt (reachable : machine.Reachable s) (l : LoopId) (fd : Nat) :
    (s.poller l).slot fd = .empty ∨ ∃ slot c, s.UsedAt l fd slot c := by
  rcases poller_slot reachable l fd with ⟨empty,-⟩ | ⟨c,x,held,home,own,-,registered,-⟩
  · exact .inl empty
  · refine .inr ⟨x.slot,c,x,held,home,own,rfl,fun empty => ?_⟩
    simpa [empty,Slot.empty] using registered.mapped

/-- The poller's slot rests on what the connections have at the descriptor. -/
theorem poller_slot_congr (first : machine.Reachable s) (second : machine.Reachable t)
    (same : ∀ slot c, s.UsedAt l fd slot c ↔ t.UsedAt l fd slot c) : (t.poller l).slot fd = (s.poller l).slot fd := by
  rcases empty_or_usedAt first l fd with empty | ⟨slot,c,used⟩
  · rcases empty_or_usedAt second l fd with empty' | ⟨slot,c,used⟩
    · rw [empty,empty']
    · rw [used.poller_slot second,((same slot c).mpr used).poller_slot first]
  · rw [used.poller_slot first,((same slot c).mp used).poller_slot second]

theorem Rests.usedAt (rests : Rests c s t) : s.UsedAt l fd slot c ↔ t.UsedAt l fd slot c := by
  cases rests with
  | absent before after => simp [UsedAt,before,after]
  | kept before after home channel same _ =>
    obtain ⟨_,_,channel⟩ := channel
    simp [UsedAt,before,after,home,channel,same,Link.fd]

theorem lifeAction_alone (first : s.lifeAction c a = some b) (own : b.isOwn = true)
    (second : s.lifeAction d a = some b') :
    d = c := by
  cases a with
  | poll l reports =>
    obtain ⟨report,-,rfl⟩ := Option.map_eq_some_iff.mp first
    cases own
  | destroyServer order =>
    cases first
    cases own
  | accept => cases first
  | run l io =>
    cases head : (s.loops l).todo with
    | nil => simp [lifeAction,head] at first
    | cons task todo =>
      have about {e : ConnId} {b : Life.Action} (acts : s.lifeAction e (.run l io) = some b) : task.about = some e := by
        by_contra other
        have unlike : task ≠ .functor (.removeConnectionInLoop e) := by
          rintro rfl
          exact other rfl
        simp [lifeAction,head,unconcerned other,unlike] at acts
      exact Option.some.inj ((about second).symm.trans (about first))
  | send t e message io | push t call | shutdown t e | drop e =>
    simp only [lifeAction,Option.ite_none_right_eq_some] at first second
    exact second.1.symm.trans first.1

/-- No two connections have dealings with their pollers in one step. -/
theorem Meets.alone (first : Meets c s a t) (second : Meets d s a t) (apart : d ≠ c) : Rests c s t ∨ Rests d s t := by
  cases first with
  | rests rests => exact .inl rests
  | turned _ _ _ acts own =>
    cases second with
    | rests rests => exact .inr rests
    | turned _ _ _ acts' => exact absurd (lifeAction_alone acts own acts') apart
    | born _ _ _ _ accepts =>
      subst accepts
      cases acts
  | born _ _ new _ accepts =>
    cases second with
    | rests rests => exact .inr rests
    | turned _ _ _ acts =>
      subst accepts
      cases acts
    | born _ _ new' => exact absurd (new'.trans new.symm) apart

theorem step_alone (reachable : machine.Reachable s) (enabled : s.enabled a) (stepped : s.step a = .ok t) :
    ∃ c, ∀ d, d ≠ c → Rests d s t := by
  by_cases all : ∀ d, Rests d s t
  · exact ⟨0,fun d _ => all d⟩
  · obtain ⟨c,moves⟩ := not_forall.mp all
    have meets := step_meets reachable enabled stepped
    exact ⟨c,fun d apart => ((meets c).alone (meets d) apart).resolve_left moves⟩

/-- No connection gets lost in a step, or another descriptor. -/
theorem Meets.later (meets : Meets c s a t) (held : s.conns c = some x) : ∃ y, t.conns c = some y ∧ y.fd = x.fd := by
  cases meets with
  | rests rests =>
    cases rests with
    | absent before _ => simp [held] at before
    | kept before after _ channel _ _ =>
      obtain rfl := Option.some.inj (before.symm.trans held)
      obtain ⟨_,_,channel⟩ := channel
      exact ⟨_,after,by rw [Link.fd,channel,Link.fd]⟩
  | turned before after _ _ _ _ _ turn =>
    obtain rfl := Option.some.inj (before.symm.trans held)
    exact ⟨_,after,turn.fd⟩
  | born before => simp [held] at before

/-- A poller of the backend stands for that of a loop. The channels still to come have the
descriptors they will get. -/
structure Stands (fds : ConnId → Nat) (l : LoopId) (s : System) (p : EPoller.State ConnId) : Prop where
  slots : p.slot = (s.poller l).slot
  channels : ∀ c x, s.conns c = some x → x.conn.loop = l →
    ∃ revents eventHandling, x.conn.channel = { p.channel c with revents, eventHandling }
  unborn : ∀ c, s.conns c = none → p.channel c = .construct (fds c)

theorem Stands.rest_channel (stands : s.Stands fds l p) (rests : Rests c s t) (after : t.conns c = some y)
    (home : y.conn.loop = l) : ∃ revents eventHandling, y.conn.channel =
      { p.channel c with revents, eventHandling } := by
  cases rests with
  | absent _ gone => simp [after] at gone
  | kept old new loop marked _ _ =>
    obtain rfl := Option.some.inj (new.symm.trans after)
    obtain ⟨_,_,marked⟩ := marked
    obtain ⟨_,_,same⟩ := stands.channels c _ old (loop.symm.trans home)
    exact ⟨_,_,by rw [marked,same]⟩

theorem Stands.rest_unborn (stands : s.Stands fds l p) (rests : Rests c s t) (absent : t.conns c = none) :
    p.channel c = .construct (fds c) := by
  cases rests with
  | absent old _ => exact stands.unborn c old
  | kept _ new => simp [absent] at new

/-- The poller stands for the loop after a step in which one connection has had dealings
with it, if it does so for that connection. -/
theorem Stands.advance (stands : s.Stands fds l p) (first : machine.Reachable s) (second : machine.Reachable t)
    (others : ∀ d, d ≠ c → Rests d s t) (leaves : EPoller.State.Leaves c p q)
    (slots : ∀ fd, q.slot fd = (t.poller l).slot fd ∨
      q.slot fd = p.slot fd ∧ ∀ slot, s.UsedAt l fd slot c ↔ t.UsedAt l fd slot c)
    (channel : ∀ y, t.conns c = some y → y.conn.loop = l →
      ∃ revents eventHandling, y.conn.channel = { q.channel c with revents, eventHandling })
    (unborn : t.conns c = none → q.channel c = .construct (fds c)) : t.Stands fds l q where
  slots := by
    funext fd
    rcases slots fd with same | ⟨same,own⟩
    · exact same
    · rw [same,stands.slots]
      refine (poller_slot_congr first second fun slot d => ?_).symm
      by_cases self : d = c
      · rw [self]
        exact own slot
      · exact (others d self).usedAt
  channels d z found home := by
    by_cases self : d = c
    · subst self
      exact channel z found home
    · rw [leaves.channel d self]
      exact stands.rest_channel (others d self) found home
  unborn d absent := by
    by_cases self : d = c
    · subst self
      exact unborn absent
    · rw [leaves.channel d self]
      exact stands.rest_unborn (others d self) absent

theorem Stands.follow (stands : s.Stands fds l p) (first : machine.Reachable s) (second : machine.Reachable t)
    (others : ∀ d, d ≠ c → Rests d s t) (after : t.conns c = some y) (home : y.conn.loop = l) (still : c ∉ t.freed)
    (before : ∀ x, s.conns c = some x → x.fd = y.fd) (holds : p.Holds c ch at_)
    (turn : Channel.Turn c ch at_ y.conn.channel y.slot) :
    ∃ q, (EPoller.machine ConnId).Path p q ∧ t.Stands fds l q := by
  obtain ⟨q,path,held,leaves⟩ := holds.follow turn
  have own : (p.channel c).fd = y.fd := holds.fd.trans turn.fd.symm
  refine ⟨q,path,stands.advance first second others leaves (fun fd => ?_) (fun z found _ => ?_) fun absent => ?_⟩
  · by_cases same : fd = y.fd
    · subst same home
      exact .inl (held.slot.trans (poller_slot_own second after still).symm)
    · refine .inr ⟨leaves.slot fd (own ▸ same),fun slot => ⟨?_,?_⟩⟩
      · rintro ⟨x,found,-,rfl,-⟩
        exact absurd (before x found) same
      · rintro ⟨z,found,-,rfl,-⟩
        exact absurd (congrArg Link.fd (Option.some.inj (found.symm.trans after))) same
  · obtain rfl : y = z := Option.some.inj (after.symm.trans found)
    exact held.channel
  · simp [absent] at after

/-- A connection of another loop does what it likes. -/
theorem Stands.away (stands : s.Stands fds l p) (first : machine.Reachable s) (second : machine.Reachable t)
    (others : ∀ d, d ≠ c → Rests d s t) (after : t.conns c = some y) (away : y.conn.loop ≠ l)
    (before : ∀ x, s.conns c = some x → x.conn.loop = y.conn.loop) : t.Stands fds l p := by
  have elsewhere {z : Link} (found : t.conns c = some z) : z.conn.loop ≠ l := by
    obtain rfl : y = z := Option.some.inj (after.symm.trans found)
    exact away
  refine stands.advance first second others .refl (fun fd => .inr ⟨rfl,fun slot => ⟨?_,?_⟩⟩)
    (fun z found home => absurd home (elsewhere found)) fun absent => by simp [absent] at after
  · rintro ⟨x,found,home,-⟩
    exact absurd ((before x found).symm.trans home) away
  · rintro ⟨z,found,home,-⟩
    exact absurd home (elsewhere found)

/-- Each step of the server is matched by calls of the poller of each loop, all within the
rules for its users. -/
theorem step_simulated (reachable : machine.Reachable s) (enabled : s.enabled a) (stepped : s.step a = .ok t)
    (foretold : ∀ c y, t.conns c = some y → y.fd = fds c) (stands : s.Stands fds l p) :
    ∃ q, (EPoller.machine ConnId).Path p q ∧ t.Stands fds l q := by
  have second : machine.Reachable t := .step reachable enabled stepped
  obtain ⟨c,others⟩ := step_alone reachable enabled stepped
  cases step_meets reachable enabled stepped c with
  | rests rests =>
    exact ⟨p,.refl,stands.advance reachable second others .refl (fun fd => .inr ⟨rfl,fun slot => rests.usedAt⟩)
      (fun y after home => stands.rest_channel rests after home) (stands.rest_unborn rests)⟩
  | @turned x y _ before after home _ _ live still turn =>
    have only {z : Link} (found : s.conns c = some z) : x = z := Option.some.inj (before.symm.trans found)
    by_cases own : y.conn.loop = l
    · have holds : p.Holds c x.conn.channel x.slot := by
        refine ⟨stands.channels c x before (home.symm.trans own),consistent_of_held reachable before,?_⟩
        rw [stands.slots,← own,home]
        exact poller_slot_own reachable before live
      exact stands.follow reachable second others after own still (fun z found => only found ▸ turn.fd.symm) holds turn
    · exact ⟨p,.refl,stands.away reachable second others after own fun z found => only found ▸ home.symm⟩
  | @born y _ before after new still accepts turn =>
    have unborn {z : Link} (found : s.conns c = some z) : False := by simp [before] at found
    by_cases own : y.conn.loop = l
    · have empty : (s.poller l).slot y.fd = .empty := by
        rcases poller_slot reachable l y.fd with ⟨empty,-⟩ | ⟨d,x,held,-,same,-,-,live⟩
        · exact empty
        · subst accepts
          exact absurd same ((reachable_placed reachable).fresh enabled held live)
      have holds : p.Holds c (.construct y.fd) .empty := by
        refine ⟨⟨kNone,false,?_⟩,.inr ⟨rfl,rfl,rfl⟩,(congrFun stands.slots y.fd).trans empty⟩
        rw [stands.unborn c before,← foretold c y after]
        rfl
      exact stands.follow reachable second others after own still (fun z found => (unborn found).elim) holds turn
    · exact ⟨p,.refl,stands.away reachable second others after own fun z found => (unborn found).elim⟩

/-- In every state of the server, each loop's poller is one that its own calls lead to. -/
theorem poller_reached (fds : ConnId → Nat) (reachable : machine.Reachable s)
    (foretold : ∀ c x, s.conns c = some x → x.fd = fds c) (l : LoopId) :
      ∃ p, (EPoller.machine ConnId).Reachable p ∧ s.Stands fds l p := by
  induction reachable with
  | initial first =>
    obtain ⟨poolSize,writeCompleteCb,rfl⟩ := first
    refine ⟨.construct fds,.initial ⟨fds,rfl⟩,?_,fun c x held => (by cases held),fun _ _ => rfl⟩
    funext fd
    rcases empty_or_usedAt (.initial ⟨poolSize,writeCompleteCb,rfl⟩) l fd with empty | ⟨_,_,_,held,-⟩
    · exact empty.symm
    · cases held
  | @step s a t before enabled stepped ih =>
    have earlier (c : ConnId) (x : Link) (held : s.conns c = some x) : x.fd = fds c := by
      obtain ⟨y,after,same⟩ := (step_meets before enabled stepped c).later held
      exact same.symm.trans (foretold c y after)
    obtain ⟨p,reached,stands⟩ := ih earlier
    obtain ⟨q,path,stands⟩ := step_simulated before enabled stepped foretold stands
    exact ⟨q,reached.path path,stands⟩

theorem poller_inStep (reachable : machine.Reachable s) (l : LoopId) : (s.poller l).InStep where
  kernel fd := by
    rcases poller_slot reachable l fd with ⟨empty,-⟩ | ⟨c,x,held,home,-,slot,registered,-⟩
    · simp [empty,Slot.empty]
    · simp [slot,registered.mapped,registered.interest,poller_channel held home]
  keyed fd c mapped := by
    obtain ⟨x,held,home,same,-⟩ := held_of_known reachable mapped
    rw [poller_channel held home]
    exact same
  known c known := by
    obtain ⟨x,held,home,-,registered,-⟩ := held_of_known reachable known
    rw [poller_channel held home]
    exact ⟨registered.index,registered.added⟩
  unknown c unknown := by
    by_cases own : ∃ x, s.conns c = some x ∧ x.conn.loop = l
    · obtain ⟨x,held,rfl⟩ := own
      rw [poller_channel held rfl]
      rcases consistent_of_held reachable held with registered | idle
      · have used : x.slot ≠ .empty := fun empty => by simpa [empty,Slot.empty] using registered.mapped
        have slot := poller_slot_own reachable held (registered_of_slot reachable held used).2
        refine absurd ?_ unknown
        rw [EPoller.State.Known,poller_channel held rfl]
        exact (congrArg Slot.channelMap slot).trans registered.mapped
      · exact ⟨idle.index,idle.added⟩
    · have foreign : (s.poller l).channel c = .construct 0 := by
        simp only [poller]
        split
        · rename_i x held
          exact if_neg fun home => own ⟨x,held,home⟩
        · rfl
      rw [foreign]
      exact ⟨rfl,rfl⟩

/-- In every state a server can get into, also after its destructor, the slots of a loop's
connections are one epoll instance whose channel map, kernel interest set and channels are
in step, and which the backend's own calls lead to. Each connection that is there finds its
own slot under its descriptor and may update it; neither map nor kernel refers to a
connection that was freed. -/
theorem pollers_of_server (reachable : machine.Reachable s) (l : LoopId) :
    (s.poller l).InStep ∧
    (∃ p, (EPoller.machine ConnId).Reachable p ∧ p.slot = (s.poller l).slot ∧
      ∀ c x, s.conns c = some x → x.conn.loop = l →
        ∃ revents eventHandling, x.conn.channel = { p.channel c with revents, eventHandling }) ∧
    (∀ c x, s.conns c = some x → x.conn.loop = l → c ∉ s.freed → (s.poller l).slot x.conn.channel.fd = x.slot ∧
      ∀ interest, (s.poller l).Allowed (.update interest c)) ∧
    ∀ c ∈ s.freed, ∀ fd, ((s.poller l).slot fd).channelMap ≠ some c ∧
      ∀ events, ((s.poller l).slot fd).interest ≠ some (c,events) := by
  have inStep := poller_inStep reachable l
  have unmapped (c : ConnId) (gone : c ∈ s.freed) (fd : Nat) :
      ((s.poller l).slot fd).channelMap ≠ some c := fun mapped => by
    obtain ⟨-,-,-,-,-,live⟩ := held_of_known reachable mapped
    exact live gone
  refine ⟨inStep,?_,?_,fun c gone fd => ⟨unmapped c gone fd,fun events entry => ?_⟩⟩
  · obtain ⟨p,reached,stands⟩ := poller_reached (fun c => ((s.conns c).map Link.fd).getD 0) reachable
      (fun c x held => by simp [held]) l
    exact ⟨p,reached,stands.slots,stands.channels⟩
  · rintro c x held rfl live
    refine ⟨poller_slot_own reachable held live,fun interest other known same => ?_⟩
    obtain ⟨y,held',-,fd,-,live'⟩ := held_of_known reachable known
    rw [same,poller_channel held rfl] at fd
    exact reachable_apart reachable other c y x held' held live' live fd
  · rw [inStep.kernel,Option.map_eq_some_iff] at entry
    obtain ⟨d,mapped,same⟩ := entry
    obtain rfl : d = c := congrArg Prod.fst same
    exact unmapped d gone fd mapped

/-- A descriptor that is used again: the first connection has been closed, destroyed and
freed, and the poller has the second one at its place. -/
theorem pollers_of_server_reused : ∃ s x, machine.Reachable s ∧ 1 ∈ s.freed ∧
    s.conns 1 = some x ∧ x.conn.channel.fd = 5 ∧
    ((s.poller 0).slot 5).channelMap = some 2 ∧ (s.poller 0).InStep := by
  let schedule : List Action := [.accept 5 Io.idle.alloc,.poll 0 [(1,{ pollin := true })],.run 0 .idle,.run 0 .idle,
    .run 0 .idle,.run 0 { Io.idle with read := .bytes [] },.run 0 .idle,.run 0 .idle,
      .run 0 .idle,.run 0 .idle,.run 0 .idle,
    .drop 1,.accept 5 Io.idle.alloc]
  have reachable := Machine.Reachable.follow (m := machine) (.initial ⟨0,false,rfl⟩) schedule (by decide +kernel)
  have first : 1 ∈ (schedule.foldl machine.advance (construct 0 false)).freed ∧
      ∃ x ∈ (schedule.foldl machine.advance (construct 0 false)).conns 1, x.conn.channel.fd = 5 := by decide +kernel
  have second : 2 ∉ (schedule.foldl machine.advance (construct 0 false)).freed ∧
      ∃ y ∈ (schedule.foldl machine.advance (construct 0 false)).conns 2, y.conn.loop = 0 ∧ y.conn.channel.fd = 5 ∧
        y.slot.channelMap = some 2 := by decide +kernel
  generalize schedule.foldl machine.advance (construct 0 false) = s at reachable first second
  obtain ⟨gone,x,held,fd⟩ := first
  obtain ⟨live,y,held',home,fd',mapped⟩ := second
  obtain ⟨inStep,-,own,-⟩ := pollers_of_server reachable 0
  refine ⟨s,x,reachable,gone,held,fd,?_,inStep⟩
  rw [← fd',(own 2 y held' home live).1]
  exact mapped

end System
end Evk
