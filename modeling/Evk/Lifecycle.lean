import Evk.Life
import Evk.OutputStream
import Evk.ServerHomes

/-! What a step can do to a connection, read off its methods once. A connection stands
in one of four ways with its poller, and every step of its life is quiet or one of a
few that move it on. -/
namespace Evk
namespace Link

def Up (x : Link) : Prop := x.conn.status = .kConnected ∨ x.conn.status = .kDisconnecting

instance (x : Link) : Decidable x.Up := inferInstanceAs (Decidable (_ ∨ _))

/-- How a connection stands with its poller in the course of its life. -/
inductive Standing (c : ConnId) (x : Link) : Prop where
  | connecting (status : x.conn.status = .kConnecting) (unknown : Channel.Unregistered x.conn.channel x.slot)
      (idle : x.conn.channel.events = kNone)
  | up (status : x.Up) (known : Channel.Registered c x.conn.channel x.slot)
      (reading : x.conn.channel.events.pollin = true)
  | closed (status : x.conn.status = .kDisconnected) (known : Channel.Registered c x.conn.channel x.slot)
      (idle : x.conn.channel.events = kNone)
  | removed (status : x.conn.status = .kDisconnected) (unknown : Channel.Unregistered x.conn.channel x.slot)
      (idle : x.conn.channel.events = kNone)

structure Sound (c : ConnId) (x : Link) : Prop where
  input : x.conn.inputBuffer.Small
  output : x.conn.outputBuffer.Small
  standing : x.Standing c

/-- The connection after `OnConnectEstablished`, `HandleClose` and `OnConnectDestroyed`. -/
def established (c : ConnId) (x : Link) : Link where
  conn := { x.conn with
    status := .kConnected
    channel := { x.conn.channel with events := kReadable, addedToLoop := true, index := kAdded } }
  slot := ⟨some c,some (c,kReadable)⟩

def closed (c : ConnId) (x : Link) : Link where
  conn := { x.conn with status := .kDisconnected, channel := { x.conn.channel with events := kNone } }
  slot := { x.slot with interest := some (c,kNone) }

def removed (x : Link) : Link where
  conn := { x.conn with
    status := .kDisconnected
    channel := { x.conn.channel with events := kNone, addedToLoop := false, index := kNew } }
  slot := .empty

def setInput (x : Link) (inputBuffer : Buffer) : Link := { x with conn := { x.conn with inputBuffer } }

variable {c : ConnId} {x y : Link}

theorem Standing.consistent (standing : x.Standing c) : Channel.Consistent c x.conn.channel x.slot := by
  cases standing with
  | connecting _ unknown _ | removed _ unknown _ => exact .inr unknown
  | up _ known _ | closed _ known _ => exact .inl known

theorem Sound.ready (sound : x.Sound c) : x.Ready c := ⟨sound.output,sound.standing.consistent⟩

theorem Sound.known (sound : x.Sound c) (up : x.Up) :
    Channel.Registered c x.conn.channel x.slot ∧ x.conn.channel.events.pollin = true := by
  cases sound.standing with
  | up _ known reading => exact ⟨known,reading⟩
  | connecting status _ _ | closed status _ _ | removed status _ _ => simp [Up,status] at up

/-- The standing rests on the status, the mask and the poller's records alone. -/
theorem Standing.congr (standing : x.Standing c) (status : y.conn.status = x.conn.status)
    (events : y.conn.channel.events = x.conn.channel.events)
    (added : y.conn.channel.addedToLoop = x.conn.channel.addedToLoop)
    (index : y.conn.channel.index = x.conn.channel.index) (slot : y.slot = x.slot) : y.Standing c := by
  have unregistered (unknown : Channel.Unregistered x.conn.channel x.slot) :
      Channel.Unregistered y.conn.channel y.slot :=
    ⟨added.trans unknown.added,index.trans unknown.index,slot.trans unknown.slot⟩
  have registered (known : Channel.Registered c x.conn.channel x.slot) : Channel.Registered c y.conn.channel y.slot :=
    ⟨added.trans known.added,index.trans known.index,by rw [slot]; exact known.mapped,
      by rw [slot,events]; exact known.interest⟩
  cases standing with
  | connecting same unknown idle => exact .connecting (status.trans same) (unregistered unknown) (events.trans idle)
  | up same known reading => exact .up (by simpa [Up,status] using same) (registered known) (events ▸ reading)
  | closed same known idle => exact .closed (status.trans same) (registered known) (events.trans idle)
  | removed same unknown idle => exact .removed (status.trans same) (unregistered unknown) (events.trans idle)

theorem Sound.setInput (sound : x.Sound c) (small : b.Small) : (x.setInput b).Sound c :=
  ⟨small,sound.output,sound.standing.congr rfl rfl rfl rfl rfl⟩

theorem Sound.setRevents (sound : x.Sound c) (revents : PollEvents) : (x.setRevents revents).Sound c :=
  ⟨sound.input,sound.output,sound.standing.congr rfl rfl rfl rfl rfl⟩

theorem Sound.setHandling (sound : x.Sound c) (b : Bool) : (x.setHandling b).Sound c :=
  ⟨sound.input,sound.output,sound.standing.congr rfl rfl rfl rfl rfl⟩

theorem Sound.disconnecting (sound : x.Sound c) (connected : x.conn.status = .kConnected) :
    (x.setStatus .kDisconnecting).Sound c := by
  obtain ⟨known,reading⟩ := sound.known (.inl connected)
  exact ⟨sound.input,sound.output,.up (.inr rfl) known reading⟩

theorem Sound.established (sound : x.Sound c) : (x.established c).Sound c :=
  ⟨sound.input,sound.output,.up (.inl rfl) ⟨rfl,rfl,rfl,rfl⟩ rfl⟩

theorem Sound.closed (sound : x.Sound c) (up : x.Up) : (x.closed c).Sound c :=
  ⟨sound.input,sound.output,.closed rfl (Channel.registered_update (sound.known up).1 kNone) rfl⟩

theorem Sound.removed (sound : x.Sound c) : x.removed.Sound c :=
  ⟨sound.input,sound.output,.removed rfl ⟨rfl,rfl,rfl⟩ rfl⟩

theorem onConnectEstablished_eq (sound : x.Sound c) (connecting : x.conn.status = .kConnecting) :
    x.onConnectEstablished c = .ok (x.established c,[.connCb true]) := by
  cases sound.standing with
  | connecting _ unknown idle =>
    have readable : x.conn.channel.events.union kReadable = kReadable := by rw [idle]; rfl
    have update : Channel.update c { x.conn.channel with events := kReadable } x.slot = _ :=
      Channel.update_unregistered unknown kReadable
    simp [onConnectEstablished,connecting,onChannel,setStatus,Channel.enableReadEvent,readable,update,
      Link.established,TcpConnection.isConnected]
  | up status _ _ => simp [Up,connecting] at status
  | closed status _ _ | removed status _ _ => simp [connecting] at status

theorem handleClose_eq (sound : x.Sound c) (up : x.Up) : x.handleClose c = .ok (x.closed c,[.closeCb]) := by
  have update := Channel.update_registered (sound.known up).1 kNone
  have entry : x.conn.status = .kConnected ∨ x.conn.status = .kDisconnecting := up
  simp [handleClose,entry,onChannel,setStatus,Channel.disableAllEvent,update,Link.closed]

theorem handleClose_down (down : ¬x.Up) : x.handleClose c = .error (.assertion .handleClose) := by
  simp [handleClose,assert,check,show ¬(x.conn.status = .kConnected ∨ x.conn.status = .kDisconnecting) from down]

theorem onConnectDestroyed_true (sound : x.Sound c) :
    x.onConnectDestroyed c true = .ok (x.removed,[.connCb false]) := by
  obtain ⟨channel,slot,update,registered,shape⟩ := Channel.update_consistent sound.standing.consistent kNone
  have remove := Channel.remove_registered registered (by rw [shape])
  subst shape
  simp [onConnectDestroyed,onChannel,setStatus,Channel.disableAllEvent,update,remove,Link.removed,
    TcpConnection.isConnected]

theorem onConnectDestroyed_false (known : Channel.Registered c x.conn.channel x.slot)
    (idle : x.conn.channel.events = kNone) (status : x.conn.status = .kDisconnected) :
    x.onConnectDestroyed c false = .ok (x.removed,[]) := by
  have remove := Channel.remove_registered known idle
  simp only [onConnectDestroyed,Bool.false_eq_true,if_false,pure_eq_ok,ok_bind,onChannel,remove]
  simp [Link.removed,← status,← idle]

/-- Without the status test's branch, only a closed connection can be removed. -/
theorem onConnectDestroyed_false_spec (sound : x.Sound c) :
    Ensures (fun result => result = (x.removed,[]) ∧ x.conn.status = .kDisconnected ∧
      Channel.Registered c x.conn.channel x.slot) (x.onConnectDestroyed c false) := by
  have fails (asserts : ∀ result, Channel.remove c x.conn.channel x.slot ≠ .ok result) :
      Ensures (fun result => result = (x.removed,[]) ∧ x.conn.status = .kDisconnected ∧
        Channel.Registered c x.conn.channel x.slot) (x.onConnectDestroyed c false) := by
    intro result done
    simp only [onConnectDestroyed,Bool.false_eq_true,if_false,pure_eq_ok,ok_bind,onChannel,bind_ok_iff] at done
    obtain ⟨_,⟨removed,called,-⟩,-⟩ := done
    exact absurd called (asserts removed)
  have unknown (unknown : Channel.Unregistered x.conn.channel x.slot) (result : Channel × Slot ConnId) :
      Channel.remove c x.conn.channel x.slot ≠ .ok result := by
    simp only [Channel.remove,EPoller.removeChannel,unknown.slot,Slot.empty,ne_eq,bind_ok_iff]
    rintro ⟨_,-,_,asserted,-⟩
    simpa using assert_ok_iff.mp asserted
  cases sound.standing with
  | connecting _ unknown' _ | removed _ unknown' _ => exact fails (unknown unknown')
  | closed status known idle =>
    rw [onConnectDestroyed_false known idle status]
    exact .ok ⟨rfl,status,known⟩
  | up _ _ reading =>
    refine fails fun result called => ?_
    obtain ⟨_,asserted,-⟩ := bind_ok_iff.mp called
    have idle := assert_ok_iff.mp asserted
    have idle : x.conn.channel.events = kNone := by simpa [Channel.isNoneEvent] using idle
    simp [idle,kNone] at reading

structure Calm (c : ConnId) (x y : Link) : Prop where
  loop : y.conn.loop = x.conn.loop
  status : y.conn.status = x.conn.status
  revents : y.conn.channel.revents = x.conn.channel.revents
  handling : y.conn.channel.eventHandling = x.conn.channel.eventHandling
  added : y.conn.channel.addedToLoop = x.conn.channel.addedToLoop
  sound : y.Sound c

theorem Sound.calm (sound : x.Sound c) : Calm c x x := ⟨rfl,rfl,rfl,rfl,rfl,sound⟩

theorem Output.calm (sound : x.Sound c) (up : x.Up) (output : Output c x y) : Calm c x y := by
  obtain ⟨known,reading⟩ := sound.known up
  obtain ⟨sent,writeShut,outputBuffer,channel,accepted,same⟩ := output.same
  obtain ⟨pollout,addedToLoop,index,shape⟩ := output.rearmed
  have registered := output.registered known
  have status : y.conn.status = x.conn.status := by rw [same]
  refine ⟨by rw [same],status,by rw [shape],by rw [shape],registered.added.trans known.added.symm,
    ⟨by simpa [same] using sound.input,output.ready.output,.up (by simpa [Up,status] using up) registered ?_⟩⟩
  rw [shape]
  exact reading

theorem handleWrite_idle (off : x.conn.channel.isWriting = false) : x.handleWrite c r = .ok (x,[]) := by
  simp [handleWrite,off]

theorem Standing.not_writing (standing : x.Standing c) (down : ¬x.Up) : x.conn.channel.isWriting = false := by
  cases standing with
  | up status _ _ => exact absurd status down
  | connecting _ _ idle | closed _ _ idle | removed _ _ idle => simp [Channel.isWriting,idle,kNone]

/-- `HandleRead` refuses for lack of memory, closes at the end of the stream, or
changes the input buffer only. -/
theorem handleRead_spec (sound : x.Sound c) (alloc : Allocator) (r : ReadResult) (consumed : Nat) (reads : x.Reads r) :
    x.handleRead c alloc r consumed = .error .badAlloc ∨
    ∃ b, b.Small ∧ ((r = .bytes [] ∧ x.handleRead c alloc r consumed = (x.setInput b).handleClose c) ∨
      ∃ effects, (effects = [] ∨ effects = [.msgCb]) ∧
        x.handleRead c alloc r consumed = .ok (x.setInput b,effects)) := by
  rcases sound.input.readFromFD_spec alloc r reads with ⟨-,refused⟩ | ⟨b,done,small,-⟩
  · exact .inl (by simp [handleRead,refused])
  · right
    rcases r with (_ | ⟨byte,data⟩) | e
    · exact ⟨b,small,.inl ⟨rfl,by simp [handleRead,done,setInput]⟩⟩
    · obtain ⟨b',skipped,small',-⟩ := small.skip_spec consumed
      exact ⟨b',small',.inr ⟨_,.inr rfl,by simp [handleRead,done,Buffer.retrieve,skipped,setInput]⟩⟩
    · exact ⟨x.conn.inputBuffer,sound.input,.inr ⟨_,.inl rfl,by simp [handleRead,done,handleError,setInput]⟩⟩

theorem shutdownInLoop_calm (sound : x.Sound c) : Calm c x x.shutdownInLoop.1 := by
  rw [shutdownInLoop]
  split
  · exact sound.calm
  · exact ⟨rfl,rfl,rfl,rfl,rfl,sound.input,sound.output,sound.standing.congr rfl rfl rfl rfl rfl⟩

theorem highWater_notes (conn : TcpConnection) (oldLen remaining : Nat) :
    ∀ effect ∈ highWater conn oldLen remaining, effect.isNote = true := by
  rw [highWater]
  split <;> simp [Effect.isNote]

/-- What `SendInLoop` asks for are notices, and it never half-closes. -/
theorem sendInLoop_notes : Ensures (fun result => (∀ effect ∈ result.2, effect.isNote = true) ∧
    result.1.conn.writeShut = x.conn.writeShut) (x.sendInLoop c alloc message r) := by
  have append (bytes : List UInt8) (y : Link) : Ensures (fun result => (∀ effect ∈ result.2, effect.isNote = true) ∧
      result.1.conn.writeShut = y.conn.writeShut) (y.appendOutput c alloc bytes) := by
    refine (Ensures.any _).bind fun size _ => (Ensures.any _).bind fun b _ => ?_
    dsimp only
    split
    · exact .ok ⟨highWater_notes _ _ _,rfl⟩
    · refine Ensures.bind (fun z (done : _ = _) => ?_) fun z (same : z.conn.writeShut = y.conn.writeShut) =>
        .ok ⟨highWater_notes _ _ _,same⟩
      obtain ⟨_,_,last⟩ := bind_ok_iff.mp done
      cases last
      rfl
  have rest (y : Link) (d : Direct) (notes : ∀ effect ∈ d.effects, effect.isNote = true) :
      Ensures (fun result => (∀ effect ∈ result.2, effect.isNote = true) ∧
        result.1.conn.writeShut = y.conn.writeShut) (y.sendRest c alloc message d) := by
    refine (Ensures.any _).bind fun _ _ => ?_
    split
    · exact .ok ⟨notes,rfl⟩
    · split
      · refine (append _ _).bind fun result added => .ok ⟨?_,added.2⟩
        exact fun effect among => (List.mem_append.mp among).elim (notes effect) (added.1 effect)
      · exact .ok ⟨notes,rfl⟩
  have direct (len : Nat) : ∀ effect ∈ (directWrite x.conn len r).effects, effect.isNote = true := by
    cases r with
    | wrote n => simp only [directWrite]; split <;> simp [Effect.isNote]
    | failed e => simp [directWrite]
  rw [sendInLoop]
  split
  · exact .ok ⟨by simp,rfl⟩
  · refine (Ensures.any _).bind fun _ _ => ?_
    split
    · exact rest _ _ (direct _)
    · refine rest _ _ ?_
      simp [notWritten]

end Link

/-- The effects, tasks and events that do not move a connection on. -/
def Effect.isQuiet : Effect → Bool
  | .connCb _ | .closeCb => false
  | _ => true

theorem Effect.quiet_of_note {effect : Effect} (note : effect.isNote = true) : effect.isQuiet = true := by
  cases effect <;> simp_all [Effect.isNote,Effect.isQuiet]

theorem Link.shutdownInLoop_quiet {x : Link} : ∀ effect ∈ x.shutdownInLoop.2, effect.isQuiet = true := by
  rw [Link.shutdownInLoop]
  split <;> simp [Effect.isQuiet]

def Task.isQuiet : Task → Bool
  | .stage _ .done => false
  | .stage _ _ => true
  | .functor (.onConnectEstablished _) | .functor (.onConnectDestroyed _) => false
  | .functor _ => true
  | .handleEvent _ | .destroy _ _ | .doPendingFunctors => false

def Task.Pushed (c : ConnId) (task : Task) : Prop :=
  task.isQuiet = true ∧ task.isFunctor = true ∧ task.concerns c = true

def Event.isQuiet : Event → Bool
  | .msgCb | .sendReturned _ _ | .shutDownWrite _ | .shutdownCalled _ false => true
  | _ => false

/-- Whether a stage of `HandleEvent` leads to `HandleClose`. -/
def Link.Closes (io : Io) (x : Link) : Stage → Prop
  | .close => Channel.wantsClose x.conn.channel.revents = true
  | .read => Channel.wantsRead x.conn.channel.revents = true ∧ io.read = .bytes []
  | _ => False

instance (io : Io) (x : Link) : DecidablePred (x.Closes io)
  | .close => inferInstanceAs (Decidable (_ = _))
  | .read => inferInstanceAs (Decidable (_ ∧ _))
  | .error | .write | .done => inferInstanceAs (Decidable False)

/-- The functor an effect queues, and the event it stands for. -/
def Effect.task (c : ConnId) : Effect → Option Task
  | .queueWriteComplete => some (.functor (.writeComplete c))
  | .queueHighWaterMark size => some (.functor (.highWaterMark c size))
  | .connCb _ | .msgCb | .closeCb | .shutDownWrite => none

def Effect.event (x : Link) : Effect → Option Event
  | .connCb isConnected => some (.connCb isConnected)
  | .msgCb => some .msgCb
  | .closeCb => some .closeCb
  | .shutDownWrite => some (.shutDownWrite x.conn.sent.length)
  | .queueWriteComplete | .queueHighWaterMark _ => none

/-- The functors that `Send` and `Shutdown` queue. -/
def Task.isTalk : Task → Bool
  | .functor (.sendInLoop _ _) | .functor (.shutdownInLoop _) => true
  | _ => false

namespace Life

def afterEffects (c : ConnId) (x : Link) (effects : List Effect) (v : Life) : Life :=
  { v with link := x, queue := v.queue ++ effects.filterMap (Effect.task c),
           trace := v.trace ++ effects.filterMap (Effect.event x) }

/-- A step that takes at most quiet tasks from the queue and leaves the connection
standing as it stood. -/
structure Quiet (c : ConnId) (v w : Life) : Prop where
  live : v.freed = false
  link : v.link.Calm c w.link
  queue : ∃ front rest extra, v.queue = front ++ rest ∧ w.queue = rest ++ extra ∧
    (∀ task ∈ front, task.isQuiet = true) ∧ ∀ task ∈ extra, task.Pushed c
  trace : ∃ events, w.trace = v.trace ++ events ∧ ∀ event ∈ events, event.isQuiet = true
  early : v.link.conn.status = .kConnecting → w.queue = v.queue ∧ w.calls = v.calls
  same : w.removals = v.removals ∧ w.mapped = v.mapped ∧ w.alive = v.alive ∧ w.freed = v.freed

/-- What a quiet step does to the stream of messages. -/
inductive Flow (c : ConnId) (v : Life) : Action → Life → Prop where
  | nothing : Flow c v (.send t message io) v
  | pop (head : v.queue = task :: rest) (kind : task.isTalk = false) (events : ∀ event ∈ recorded, event = .msgCb) :
      Flow c v (.work io) { v with link := v.link.setInput b, queue := rest, trace := v.trace ++ recorded }
  | write (head : v.queue = .stage d .write :: rest) (wants : Channel.wantsWrite v.link.conn.channel.revents = true)
      (done : v.link.handleWrite c io.write = .ok (y,effects)) :
      Flow c v (.work io) ({ v with queue := rest }.afterEffects c y effects)
  | send (head : v.queue = .functor (.sendInLoop d message) :: rest)
      (done : v.link.sendInLoop c io.alloc message io.write = .ok (y,effects)) :
      Flow c v (.work io) ({ v with queue := rest }.afterEffects c y effects)
  | shutdownInLoop (head : v.queue = .functor (.shutdownInLoop d) :: rest) :
      Flow c v (.work io) ({ v with queue := rest }.afterEffects c v.link.shutdownInLoop.1 v.link.shutdownInLoop.2)
  | sendHere (connected : v.link.conn.status = .kConnected) (here : t = .loop v.link.conn.loop)
      (done : v.link.sendInLoop c io.alloc message io.write = .ok (y,effects)) :
      Flow c v (.send t message io) ((v.afterEffects c y effects).record (.sendReturned t message))
  | sendAway (connected : v.link.conn.status = .kConnected) :
      Flow c v (.send t message io) (v.begin t (.sending c message))
  | pushSend : Flow c v (.push t (.sending d message))
      (({ v with calls := v.calls.filter (· ≠ (t,Call.sending d message)) }.queueInLoop
      (.sendInLoop c message)).record (.sendReturned t message))
  | pushShutdown : Flow c v (.push t (.shuttingDown d))
      ({ v with calls := v.calls.filter (· ≠ (t,Call.shuttingDown d)) }.queueInLoop (.shutdownInLoop c))
  | refused : Flow c v (.shutdown t) (v.record (.shutdownCalled t false))

/-- What `ShutdownInLoop` does to the history. -/
def halfClose (x : Link) : List Event :=
  if x.conn.channel.isWriting then [] else [.shutDownWrite x.conn.sent.length]

inductive Change (c : ConnId) (v : Life) : Action → Life → Prop where
  | quiet (quiet : Quiet c v w) (flow : Flow c v a w) : Change c v a w
  | shutdown (connected : v.link.conn.status = .kConnected)
      (quiet : Quiet c ((v.setLink (v.link.setStatus .kDisconnecting)).record (.shutdownCalled t true)) w)
      (queue : w.queue = v.queue)
      (flow : (t = .loop v.link.conn.loop ∧ w.link = (v.link.setStatus .kDisconnecting).shutdownInLoop.1 ∧
          w.calls = v.calls ∧
          w.trace = v.trace ++ [.shutdownCalled t true] ++ halfClose (v.link.setStatus .kDisconnecting)) ∨
        w.link = v.link.setStatus .kDisconnecting ∧ w.calls = v.calls ++ [(t,.shuttingDown c)] ∧
          w.trace = v.trace ++ [.shutdownCalled t true]) : Change c v (.shutdown t) w
  | report (live : v.freed = false) (functors : ∀ task ∈ v.queue, task.isFunctor = true)
      (interest : v.link.slot.interest = some (c,mask)) (reportable : revents.Reportable mask) :
      Change c v (.report revents) ((v.setLink (v.link.setRevents revents)).before [.handleEvent c])
  | begin (live : v.freed = false) (head : v.queue = .handleEvent d :: rest) :
      Change c v (.work io) (({ v with queue := rest }.setLink (v.link.setHandling true)).before (System.stages c))
  | done (live : v.freed = false) (head : v.queue = .stage d .done :: rest) :
      Change c v (.work io) ({ v with queue := rest }.setLink (v.link.setHandling false))
  /-- `HandleClose` on the base loop removes the connection from the map itself. -/
  | closeBase (live : v.freed = false) (head : v.queue = .stage d stage :: rest) (closes : v.link.Closes io stage)
      (up : v.link.Up) (small : b.Small) (base : v.link.conn.loop = 0) (alive : v.alive = true)
      (mapped : v.mapped = true) :
      Change c v (.work io) (((({ v with queue := rest, mapped := false }.setLink
        ((v.link.setInput b).closed c)).record .closeCb).record .queueDestroyed).queueInLoop (.onConnectDestroyed c))
  | closeAway (live : v.freed = false) (head : v.queue = .stage d stage :: rest) (closes : v.link.Closes io stage)
      (up : v.link.Up) (small : b.Small) (away : v.link.conn.loop ≠ 0) (alive : v.alive = true) :
      Change c v (.work io) (({ v with queue := rest, removals := v.removals + 1 }.setLink
        ((v.link.setInput b).closed c)).record .closeCb)
  | establish (live : v.freed = false) (head : v.queue = .functor (.onConnectEstablished d) :: rest)
      (connecting : v.link.conn.status = .kConnecting) :
      Change c v (.work io) (({ v with queue := rest }.setLink (v.link.established c)).record (.connCb true))
  | test (live : v.freed = false) (head : v.queue = .functor (.onConnectDestroyed d) :: rest) :
      Change c v (.work io) (({ v with queue := rest }.record (.testDestroyed v.link.conn.isConnected)).before
        [.destroy c v.link.conn.isConnected])
  | destroyUp (live : v.freed = false) (head : v.queue = .destroy d true :: rest) :
      Change c v (.work io)
        ((({ v with queue := rest }.setLink v.link.removed).record (.connCb false)).record .destroyed)
  | destroyClosed (live : v.freed = false) (head : v.queue = .destroy d false :: rest)
      (closed : v.link.conn.status = .kDisconnected) (known : Channel.Registered c v.link.conn.channel v.link.slot) :
      Change c v (.work io) (({ v with queue := rest }.setLink v.link.removed).record .destroyed)
  | remove (live : v.freed = false) (positive : 0 < v.removals) (alive : v.alive = true) (mapped : v.mapped = true) :
      Change c v .remove (({ v with removals := v.removals - 1, mapped := false }.record .queueDestroyed).queueInLoop
        (.onConnectDestroyed c))
  | destroyBase (live : v.freed = false) (mapped : v.mapped = true) (base : v.link.conn.loop = 0) :
      Change c v .destroyServer ({ v with alive := false, mapped := false }.before [.functor (.onConnectDestroyed c)])
  | destroyAway (live : v.freed = false) (mapped : v.mapped = true) (away : v.link.conn.loop ≠ 0) :
      Change c v .destroyServer ({ v with alive := false, mapped := false }.queueInLoop (.onConnectDestroyed c))
  | destroyOther (unmapped : v.mapped = false) : Change c v .destroyServer { v with alive := false, mapped := false }
  | drop (live : v.freed = false) (unmapped : v.mapped = false) (unheld : ∀ task ∈ v.queue, task.holds c = false)
      (removals : v.removals = 0) (calls : v.calls = []) : Change c v .drop { v with freed := true }

variable {c : ConnId} {v w : Life}

theorem deref_live (live : v.freed = false) : v.deref = .ok v.link := by simp [deref,live]

theorem applyEffects_quiet (x : Link) (effects : List Effect) (quiet : ∀ effect ∈ effects, effect.isQuiet = true)
    (v : Life) : applyEffects c x effects v = .ok { v with
      queue := v.queue ++ effects.filterMap (Effect.task c), trace :=
        v.trace ++ effects.filterMap (Effect.event x) } := by
  induction effects generalizing v with
  | nil => simp [applyEffects]
  | cons effect effects ih =>
    obtain ⟨first,later⟩ := List.forall_mem_cons.mp quiet
    cases effect with
    | connCb | closeCb => simp [Effect.isQuiet] at first
    | msgCb | shutDownWrite | queueWriteComplete | queueHighWaterMark =>
      simp [applyEffects,applyEffect,ih later,record,queueInLoop,Effect.task,Effect.event,List.filterMap_cons]

theorem pushed_of_effect {effects : List Effect} (among : task ∈ effects.filterMap (Effect.task c)) :
    task.Pushed c := by
  obtain ⟨effect,-,same⟩ := List.mem_filterMap.mp among
  cases effect <;> simp only [Effect.task,reduceCtorEq,Option.some.injEq] at same
  all_goals
    subst same
    simp [Task.Pushed,Task.isQuiet,Task.isFunctor,Task.concerns,Functor.about]

theorem quiet_of_effect {effects : List Effect} (quiet : ∀ effect ∈ effects, effect.isQuiet = true)
    (among : event ∈ effects.filterMap (Effect.event x)) : event.isQuiet = true := by
  obtain ⟨effect,listed,same⟩ := List.mem_filterMap.mp among
  have quietly := quiet effect listed
  cases effect with
  | connCb | closeCb => cases quietly
  | queueWriteComplete | queueHighWaterMark => cases same
  | msgCb | shutDownWrite =>
    cases same
    rfl

theorem Quiet.of_pop (live : v.freed = false) (head : v.queue = task :: rest) (kind : task.isQuiet = true)
    (settled : v.link.conn.status ≠ .kConnecting) (calm : v.link.Calm c y)
    (tasks : ∀ task ∈ extra, task.Pushed c)
    (quietly : ∀ event ∈ events, event.isQuiet = true) :
    Quiet c v { v with link := y, queue := rest ++ extra, trace := v.trace ++ events } where
  live := live
  link := calm
  queue := ⟨[task],rest,extra,head,rfl,by simpa using kind,tasks⟩
  trace := ⟨events,rfl,quietly⟩
  early := fun connecting => absurd connecting settled
  same := ⟨rfl,rfl,rfl,rfl⟩

theorem perform_eq (live : v.freed = false) (done : method v.link = .ok (y,effects))
    (quiet : ∀ effect ∈ effects, effect.isQuiet = true) : v.perform c method = .ok (v.afterEffects c y effects) := by
  simpa [perform,deref_live live,done,setLink,afterEffects] using applyEffects_quiet
    (c := c) y effects quiet (v.setLink y)

theorem perform_quiet (live : v.freed = false) (head : v.queue = task :: rest) (kind : task.isQuiet = true)
    (settled : v.link.conn.status ≠ .kConnecting) (calm : v.link.Calm c y)
    (done : method v.link = .ok (y,effects)) (quiet : ∀ effect ∈ effects, effect.isQuiet = true)
    (flow : Flow c v (.work io) ({ v with queue := rest }.afterEffects c y effects)) :
    Ensures (Change c v (.work io)) ({ v with queue := rest }.perform c method) := by
  rw [perform_eq (c := c) (v := { v with queue := rest }) live done quiet]
  exact .ok (.quiet (.of_pop live head kind settled calm (fun _ => pushed_of_effect) fun _ =>
    quiet_of_effect quiet) flow)

theorem pop_quiet (sound : v.link.Sound c) (live : v.freed = false) (head : v.queue = task :: rest)
    (kind : task.isQuiet = true) (plain : task.isTalk = false) (settled : v.link.conn.status ≠ .kConnecting) :
    Change c v (.work io) { v with queue := rest } := by
  have quiet : Quiet c v { v with link := v.link, queue := rest ++ [], trace := v.trace ++ [] } :=
    .of_pop live head kind settled sound.calm nofun nofun
  have flow : Flow c v (.work io)
      { v with link := v.link.setInput v.link.conn.inputBuffer, queue := rest, trace := v.trace ++ [] } :=
    .pop head plain nofun
  simp only [List.append_nil] at quiet flow
  exact .quiet quiet flow

theorem pop_flow (head : v.queue = task :: rest) (plain : task.isTalk = false)
    (kinds : effects = [] ∨ effects = [.msgCb]) :
    Flow c v (.work io) ({ v with queue := rest }.afterEffects c (v.link.setInput b) effects) := by
  have events : ∀ event ∈ effects.filterMap (Effect.event (v.link.setInput b)), event = .msgCb := by
    rcases kinds with rfl | rfl <;> simp [Effect.event]
  have tasks : effects.filterMap (Effect.task c) = [] := by
    rcases kinds with rfl | rfl <;> simp [Effect.task]
  have flow : Flow c v (.work io) _ := .pop (b := b) head plain events
  simpa [afterEffects,tasks] using flow

theorem handleClose_change (sound : v.link.Sound c) (live : v.freed = false) (head : v.queue = .stage d stage :: rest)
    (closes : v.link.Closes io stage) (small : b.Small)
    (same : method v.link = (v.link.setInput b).handleClose c) :
    Ensures (Change c v (.work io)) ({ v with queue := rest }.perform c method) := by
  refine (deref_spec _).bind fun x ⟨link,_⟩ => ?_
  subst link
  by_cases up : v.link.Up
  swap
  · have down : ¬(v.link.setInput b).Up := up
    simp only [same,Link.handleClose_down down]
    exact .error _
  simp only [same,Link.handleClose_eq (sound.setInput small) up,ok_bind]
  refine Ensures.bind (fun w (removed : removeConnection c _ = .ok w) => ?_) fun w change => .ok change
  obtain ⟨_,alive,removed⟩ := bind_ok_iff.mp removed
  have alive : v.alive = true := check_ok_iff.mp alive
  by_cases base : v.link.conn.loop = 0
  · obtain ⟨_,-,removed⟩ := bind_ok_iff.mp ((if_pos base).symm.trans removed)
    obtain ⟨_,-,removed⟩ := bind_ok_iff.mp removed
    obtain ⟨_,mapped,last⟩ := bind_ok_iff.mp removed
    cases last
    exact .closeBase live head closes up small base alive (assert_ok_iff.mp mapped)
  · cases (if_neg base).symm.trans removed
    exact .closeAway live head closes up small base alive

theorem stage_change (sound : v.link.Sound c) (head : v.queue = .stage d stage :: rest)
    (settled : v.link.conn.status ≠ .kConnecting) (permits : v.link.Permits io (.stage d stage)) :
    Ensures (Change c v (.work io)) ({ v with queue := rest }.runTask c io (.stage d stage)) := by
  have pop (live : v.freed = false) (kind : (Task.stage d stage).isQuiet = true) :
      Change c v (.work io) { v with queue := rest } := pop_quiet sound live head kind rfl settled
  cases stage with
  | done =>
    refine (deref_spec _).bind fun x ⟨link,live⟩ => ?_
    subst link
    exact .ok (.done live head)
  | error =>
    refine (deref_spec _).bind fun x ⟨_,live⟩ => ?_
    split
    · have done : Link.handleError v.link = .ok (v.link,[]) := rfl
      exact perform_quiet live head rfl settled sound.calm done nofun (pop_flow head rfl (.inl rfl))
    · exact .ok (pop live rfl)
  | close =>
    refine (deref_spec _).bind fun x ⟨link,live⟩ => ?_
    subst link
    split
    · rename_i wants
      exact handleClose_change sound live head wants sound.input rfl
    · exact .ok (pop live rfl)
  | read =>
    refine (deref_spec _).bind fun x ⟨link,live⟩ => ?_
    subst link
    split
    swap
    · exact .ok (pop live rfl)
    rename_i wants
    rcases Link.handleRead_spec sound io.alloc io.read io.consumed permits with
      refused | ⟨b,small,⟨eof,same⟩ | ⟨effects,kinds,done⟩⟩
    · refine (deref_spec _).bind fun x ⟨link,_⟩ => ?_
      subst link
      simp only [refused]
      exact .error _
    · exact handleClose_change sound live head ⟨wants,eof⟩ small same
    · have calm : v.link.Calm c (v.link.setInput b) := ⟨rfl,rfl,rfl,rfl,rfl,sound.setInput small⟩
      refine perform_quiet live head rfl settled calm done ?_ (pop_flow head rfl kinds)
      rcases kinds with rfl | rfl <;> simp [Effect.isQuiet]
  | write =>
    refine (deref_spec _).bind fun x ⟨link,live⟩ => ?_
    subst link
    split
    swap
    · exact .ok (pop live rfl)
    rename_i wants
    by_cases up : v.link.Up
    · obtain ⟨y,effects,done,output,-,-,kinds⟩ := Link.handleWrite_spec sound.ready io.write
      refine perform_quiet live head rfl settled (output.calm sound up) done ?_ (.write head wants done)
      rcases kinds with ⟨notes,-⟩ | ⟨notes,rfl,quiet,-⟩
      · exact fun effect among => Effect.quiet_of_note (notes effect among)
      · intro effect among
        rcases List.mem_append.mp among with note | last
        · exact Effect.quiet_of_note (quiet effect note)
        · rw [List.mem_singleton.mp last]
          rfl
    · have idle := Link.handleWrite_idle (c := c) (r := io.write) (sound.standing.not_writing up)
      exact perform_quiet live head rfl settled sound.calm idle nofun (.write head wants idle)

theorem functor_change (sound : v.link.Sound c) (head : v.queue = .functor f :: rest)
    (settled : v.link.conn.status = .kConnecting → ∃ d, f = .onConnectEstablished d)
    (concerns : (Task.functor f).concerns c = true) (permits : v.link.Permits io (.functor f)) :
    Ensures (Change c v (.work io)) ({ v with queue := rest }.runTask c io (.functor f)) := by
  cases f with
  | removeConnectionInLoop => simp [Task.concerns] at concerns
  | onConnectEstablished d =>
    refine (deref_spec _).bind fun x found => ?_
    obtain ⟨rfl,live⟩ := found
    by_cases connecting : v.link.conn.status = .kConnecting
    · simp only [Link.onConnectEstablished_eq sound connecting,ok_bind,applyEffects,applyEffect]
      exact .ok (.establish live head connecting)
    · have refused : v.link.onConnectEstablished c = .error (.assertion .onConnectEstablished) := by
        simp [Link.onConnectEstablished,assert,check,connecting]
      simp only [refused]
      exact .error _
  | onConnectDestroyed d =>
    refine (deref_spec _).bind fun x found => ?_
    obtain ⟨rfl,live⟩ := found
    exact .ok (.test live head)
  | sendInLoop d message =>
    have settled : v.link.conn.status ≠ .kConnecting := fun connecting => by simpa using settled connecting
    by_cases live : v.freed = false
    swap
    · exact (deref_spec _).bind fun x found => absurd found.2 live
    by_cases down : v.link.conn.status = .kDisconnected
    · have done : v.link.sendInLoop c io.alloc message io.write = .ok (v.link,[]) := by simp [Link.sendInLoop,down]
      exact perform_quiet live head rfl settled sound.calm done (by simp) (.send head done)
    have up : v.link.Up := by
      cases sound.standing with
      | connecting status _ _ => exact absurd status settled
      | up status _ _ => exact status
      | closed status _ _ | removed status _ _ => exact absurd status down
    rcases Link.sendInLoop_spec sound.ready down io.alloc message io.write (fun _ => permits.1) with
      ⟨-,refused⟩ | ⟨y,effects,done,output,-,-⟩
    · refine (deref_spec _).bind fun x found => ?_
      obtain ⟨rfl,-⟩ := found
      simp only [refused]
      exact .error _
    · have notes := (Link.sendInLoop_notes _ done).1
      exact perform_quiet live head rfl settled (output.calm sound up) done
        (fun effect among => Effect.quiet_of_note (notes effect among)) (.send head done)
  | shutdownInLoop d =>
    have settled : v.link.conn.status ≠ .kConnecting := fun connecting => by simpa using settled connecting
    by_cases live : v.freed = false
    swap
    · exact (deref_spec _).bind fun x found => absurd found.2 live
    exact perform_quiet live head rfl settled (Link.shutdownInLoop_calm sound) rfl Link.shutdownInLoop_quiet
      (.shutdownInLoop head)
  | writeComplete d | highWaterMark d size =>
    have settled : v.link.conn.status ≠ .kConnecting := fun connecting => by simpa using settled connecting
    exact (deref_spec _).bind fun x found => .ok (pop_quiet sound found.2 head rfl rfl settled)

theorem destroy_change (sound : v.link.Sound c) (head : v.queue = .destroy d b :: rest) :
    Ensures (Change c v (.work io)) ({ v with queue := rest }.runTask c io (.destroy d b)) := by
  by_cases live : v.freed = false
  swap
  · refine Ensures.bind (fun w (done : perform _ _ _ = .ok w) => ?_) fun w => .ok
    obtain ⟨_,found,-⟩ := bind_ok_iff.mp done
    exact absurd (deref_spec _ _ found).2 live
  cases b with
  | true =>
    have done := Link.onConnectDestroyed_true sound
    simp only [runTask,perform,deref_live (v := { v with queue := rest }) live,ok_bind,done,applyEffects,applyEffect]
    exact .ok (.destroyUp live head)
  | false =>
    intro w stepped
    obtain ⟨u,performed,last⟩ := bind_ok_iff.mp stepped
    obtain ⟨x,found,performed⟩ := bind_ok_iff.mp performed
    obtain ⟨result,called,applied⟩ := bind_ok_iff.mp performed
    obtain ⟨rfl,-⟩ := deref_spec _ _ found
    obtain ⟨rfl,closed,known⟩ := Link.onConnectDestroyed_false_spec sound _ called
    cases applied
    cases last
    exact .destroyClosed live head closed known

theorem Quiet.of_push (extra : List Task) (events : List Event) (later : List (Thread × Call))
    (live : v.freed = false) (calm : v.link.Calm c y) (settled : v.link.conn.status ≠ .kConnecting)
    (tasks : ∀ task ∈ extra, task.Pushed c)
    (quietly : ∀ event ∈ events, event.isQuiet = true) :
    Quiet c v { v with link := y, queue := v.queue ++ extra, calls := later, trace := v.trace ++ events } where
  live := live
  link := calm
  queue := ⟨[],v.queue,extra,rfl,rfl,nofun,tasks⟩
  trace := ⟨events,rfl,quietly⟩
  early := fun connecting => absurd connecting settled
  same := ⟨rfl,rfl,rfl,rfl⟩

theorem Quiet.of_record (events : List Event) (live : v.freed = false) (sound : v.link.Sound c)
    (quietly : ∀ event ∈ events, event.isQuiet = true) : Quiet c v { v with trace := v.trace ++ events } where
  live := live
  link := sound.calm
  queue := ⟨[],v.queue,[],rfl,by simp,nofun,nofun⟩
  trace := ⟨events,rfl,quietly⟩
  early := fun _ => ⟨rfl,rfl⟩
  same := ⟨rfl,rfl,rfl,rfl⟩

theorem send_change (sound : v.link.Sound c) (writes : v.link.Writes io.write message.bytes.length) :
    Ensures (Change c v (.send t message io)) (v.send c t message io) := by
  refine (deref_spec _).bind fun x ⟨link,live⟩ => ?_
  subst link
  split
  swap
  · have quiet := Quiet.of_record [] live sound nofun
    simp only [List.append_nil] at quiet
    exact .ok (.quiet quiet .nothing)
  rename_i connected
  have up : v.link.Up := .inl connected
  have settled : v.link.conn.status ≠ .kConnecting := by simp [connected]
  split
  · rcases Link.sendInLoop_spec sound.ready (by simp [connected]) io.alloc message io.write (fun _ => writes.1) with
      ⟨-,refused⟩ | ⟨y,effects,done,output,-,-⟩
    · simp only [perform,deref_live live,ok_bind,refused]
      exact .error _
    · have notes := (Link.sendInLoop_notes _ done).1
      have quietly : ∀ effect ∈ effects, effect.isQuiet = true := fun effect among =>
        Effect.quiet_of_note (notes effect among)
      rw [perform_eq (c := c) live done quietly,ok_bind]
      refine .ok (.quiet ?_ (.sendHere connected ‹_› done))
      simp only [afterEffects,record,List.append_assoc]
      refine .of_push _ _ _ live (output.calm sound up) settled (fun _ => pushed_of_effect) ?_
      intro event among
      rcases List.mem_append.mp among with old | last
      · exact quiet_of_effect quietly old
      · simp [List.mem_singleton.mp last,Event.isQuiet]
  · have quiet := Quiet.of_push [] [] (v.calls ++ [(t,.sending c message)]) live sound.calm settled nofun nofun
    simp only [List.append_nil] at quiet
    exact .ok (.quiet quiet (.sendAway connected))

theorem halfClose_quiet {x : Link} : ∀ event ∈ halfClose x, event.isQuiet = true := by
  rw [halfClose]
  split <;> simp [Event.isQuiet]

theorem perform_shutdownInLoop (live : v.freed = false) : v.perform c (fun x => .ok x.shutdownInLoop) =
    .ok { v with link := v.link.shutdownInLoop.1, trace := v.trace ++ halfClose v.link } := by
  simp only [perform,deref_live live,ok_bind,Link.shutdownInLoop,halfClose]
  split <;> simp [applyEffects,applyEffect,setLink,record]

theorem shutdown_change (sound : v.link.Sound c) : Ensures (Change c v (.shutdown t)) (v.shutdown c t) := by
  refine (deref_spec _).bind fun x found => ?_
  obtain ⟨rfl,live⟩ := found
  by_cases connected : v.link.conn.status = .kConnected
  swap
  · have failed : v.link.shutdown = none := by simp [Link.shutdown,connected]
    simp only [failed]
    exact .ok (.quiet (.of_record [.shutdownCalled t false] live sound (by simp [Event.isQuiet])) .refused)
  have flipped : v.link.shutdown = some (v.link.setStatus .kDisconnecting) := by simp [Link.shutdown,connected]
  have sound' := sound.disconnecting connected
  have live' : ((v.setLink (v.link.setStatus .kDisconnecting)).record (.shutdownCalled t true)).freed = false := live
  have settled : (v.link.setStatus .kDisconnecting).conn.status ≠ .kConnecting := by simp [Link.setStatus]
  simp only [flipped]
  split
  · rw [perform_shutdownInLoop live']
    have quiet := Quiet.of_push [] (halfClose (v.link.setStatus .kDisconnecting)) v.calls live'
      (Link.shutdownInLoop_calm sound') settled (by simp) halfClose_quiet
    simp only [List.append_nil] at quiet
    exact .ok (.shutdown connected quiet rfl (.inl ⟨‹_›,rfl,rfl,rfl⟩))
  · have quiet := Quiet.of_push [] [] (v.calls ++ [(t,.shuttingDown c)]) live' sound'.calm settled (by simp) (by simp)
    simp only [List.append_nil] at quiet
    exact .ok (.shutdown connected quiet rfl (.inr ⟨rfl,rfl,rfl⟩))

theorem push_change (sound : v.link.Sound c) (settled : v.link.conn.status ≠ .kConnecting) :
    Ensures (Change c v (.push t call)) (v.push c t call) := by
  refine (deref_spec _).bind fun x ⟨_,live⟩ => ?_
  have live : v.freed = false := live
  cases call with
  | sending d message =>
    exact .ok (.quiet (.of_push [.functor (.sendInLoop c message)] [.sendReturned t message]
      (v.calls.filter (· ≠ (t,.sending d message))) live sound.calm settled
      (by simp [Task.Pushed,Task.isQuiet,Task.isFunctor,Task.concerns,Functor.about])
        (by simp [Event.isQuiet])) .pushSend)
  | shuttingDown d =>
    have quiet := Quiet.of_push (v := v) [.functor (.shutdownInLoop c)] [] (v.calls.filter (· ≠ (t,.shuttingDown d)))
      live sound.calm settled (by simp [Task.Pushed,Task.isQuiet,Task.isFunctor,Task.concerns,Functor.about]) nofun
    simp only [List.append_nil] at quiet
    exact .ok (.quiet quiet .pushShutdown)

/-- Inversion: a step that succeeds is one of the changes. Before it is established, a
connection has nothing to do but that, and no calls. -/
theorem step_change (sound : v.link.Sound c) (concerns : ∀ task ∈ v.queue, task.concerns c = true)
    (fresh : v.link.conn.status = .kConnecting →
      (∃ d rest, v.queue = .functor (.onConnectEstablished d) :: rest) ∧ v.calls = [])
    (allowed : v.enabled c a) : Ensures (Change c v a) (v.step c a) := by
  cases a with
  | report revents =>
    obtain ⟨-,functors,mask,interest,reportable⟩ := allowed
    refine (deref_spec _).bind fun x ⟨link,live⟩ => ?_
    subst link
    refine Ensures.bind (fun channel (filled : Channel.fillActive _ _ _ _ = .ok channel) => ?_) fun channel
      (same : channel = { v.link.conn.channel with revents }) => .ok (by
        subst same
        exact .report live functors interest reportable)
    obtain ⟨_,-,filled⟩ := bind_ok_iff.mp filled
    obtain ⟨_,-,filled⟩ := bind_ok_iff.mp filled
    exact (Except.ok.inj filled).symm
  | work io =>
    obtain ⟨task,rest,head,permits⟩ := allowed
    have concerned := concerns task (by simp [head])
    have early (connecting : v.link.conn.status = .kConnecting) : ∃ d, task = .functor (.onConnectEstablished d) := by
      obtain ⟨⟨d,later,first⟩,-⟩ := fresh connecting
      exact ⟨d,(List.cons.inj (head.symm.trans first)).1⟩
    simp only [step,work,head]
    cases task with
    | handleEvent d =>
      refine Ensures.bind (fun w (done : setHandling _ _ = .ok w) => ?_) fun w
        (same : w = { v with queue := rest }.setLink (v.link.setHandling true) ∧ v.freed = false) => .ok (by
          rw [same.1]
          exact .begin same.2 head)
      obtain ⟨x,found,last⟩ := bind_ok_iff.mp done
      obtain ⟨rfl,live⟩ := deref_spec _ _ found
      exact ⟨(Except.ok.inj last).symm,live⟩
    | stage d stage =>
      exact stage_change sound head (fun connecting => by simpa using early connecting) permits
    | doPendingFunctors => simp [Task.concerns] at concerned
    | functor f => exact functor_change sound head (fun connecting => by simpa using early connecting) concerned permits
    | destroy d b => exact destroy_change sound head
  | remove =>
    refine ensures_check.bind fun _ alive => (deref_spec _).bind fun x ⟨_,live⟩ =>
      ensures_assert.bind fun _ mapped => .ok ?_
    exact .remove live allowed alive mapped
  | destroyServer =>
    simp only [step,destroyServer]
    split
    · rename_i mapped
      refine (deref_spec _).bind fun x ⟨link,live⟩ => ?_
      subst link
      split
      · exact .ok (.destroyBase live mapped ‹_›)
      · exact .ok (.destroyAway live mapped ‹_›)
    · exact .ok (.destroyOther (by simpa using ‹¬v.mapped = true›))
  | send t message io => exact send_change sound allowed.2
  | push t call =>
    refine push_change sound fun connecting => ?_
    have among : (t,call) ∈ v.calls := allowed
    simp [(fresh connecting).2] at among
  | shutdown t => exact shutdown_change sound
  | drop =>
    obtain ⟨live,unmapped,removals,calls,unheld⟩ := allowed
    exact (deref_spec _).bind fun x _ => ensures_assert.bind fun _ _ => (Ensures.any _).bind fun _ _ =>
      .ok (.drop live unmapped unheld removals calls)

end Life
end Evk
