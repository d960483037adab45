import Evk.Machine
import Evk.TcpConnection

/-! A `TcpServer` with its loops, its connections and the threads that use them. A loop
thread works through the list of what its iteration still has to do; other threads push
functors. One action is one atomic piece: a handler, a functor, a status test, a push.
User code runs on a loop thread between any two of its pieces. Descriptors of open
connections differ, so each connection has a slot of its poller to itself. -/
namespace Evk

inductive Thread where
  | loop (l : LoopId)
  | other (k : Nat)
  deriving DecidableEq, Repr

inductive Functor where
  | onConnectEstablished (c : ConnId)
  | onConnectDestroyed (c : ConnId)
  | removeConnectionInLoop (c : ConnId)
  | sendInLoop (c : ConnId) (message : Message)
  | shutdownInLoop (c : ConnId)
  | writeComplete (c : ConnId)
  | highWaterMark (c : ConnId) (size : Nat)
  deriving DecidableEq, Repr

def Functor.about : Functor → ConnId
  | .onConnectEstablished c | .onConnectDestroyed c | .removeConnectionInLoop c | .sendInLoop c _
  | .shutdownInLoop c | .writeComplete c | .highWaterMark c _ => c

/-- The tests of `HandleEvent`, in order, and its end. -/
inductive Stage where
  | close | error | read | write | done
  deriving DecidableEq, Repr

/-- What a loop thread has left to do before it polls again. -/
inductive Task where
  /-- An entry of `active_channels_`. -/
  | handleEvent (c : ConnId)
  /-- The rest of a `HandleEvent` that has begun. -/
  | stage (c : ConnId) (stage : Stage)
  | doPendingFunctors
  | functor (f : Functor)
  /-- `OnConnectDestroyed` after its status test. -/
  | destroy (c : ConnId) (wasConnected : Bool)
  deriving DecidableEq, Repr

def Task.about : Task → Option ConnId
  | .handleEvent c | .stage c _ | .destroy c _ => some c
  | .doPendingFunctors => none
  | .functor f => some f.about

/-- The tasks that own a reference to the connection; a dispatch has a raw pointer. -/
def Task.holds (c : ConnId) : Task → Bool
  | .functor f => f.about = c
  | .destroy d _ => d = c
  | _ => false

structure Loop where
  todo : List Task
  pending : List Functor
  deriving Repr

def Loop.work (loop : Loop) : List Task := loop.todo ++ loop.pending.map .functor

/-- A call made off the loop thread, between its atomic step on the status and its push. -/
inductive Call where
  | sending (c : ConnId) (message : Message)
  | shuttingDown (c : ConnId)
  deriving DecidableEq, Repr

def Call.about : Call → ConnId
  | .sending c _ | .shuttingDown c => c

inductive Event where
  | connCb (isConnected : Bool)
  | msgCb
  /-- `HandleClose` got past its assertion and called `close_cb_`. -/
  | closeCb
  | queueDestroyed
  | testDestroyed (wasConnected : Bool)
  | destroyed
  | sendReturned (t : Thread) (message : Message)
  | shutdownCalled (t : Thread) (first : Bool)
  /-- The half-close, with the number of bytes the kernel had by then. -/
  | shutDownWrite (sent : Nat)
  deriving DecidableEq, Repr

structure Io where
  alloc : Allocator
  write : WriteResult
  read : ReadResult
  /-- How much of the input the message callback takes. -/
  consumed : Nat

/-- A host with memory for small buffers, where reads and writes would block. -/
def Io.idle : Io := ⟨Allocator.zeroed 4096 (by decide),.failed .EAGAIN,.failed .EAGAIN,0⟩

/-- The outcomes the kernel can give the system call of a task. -/
def Link.Permits (io : Io) (x : Link) : Task → Prop
  | .functor (.sendInLoop _ message) => x.Writes io.write message.bytes.length
  | .stage _ .read => x.Reads io.read
  | .stage _ .write => x.Writes io.write x.conn.outputBuffer.readable.length
  | _ => True

instance (io : Io) (x : Link) : DecidablePred (x.Permits io)
  | .functor (.sendInLoop _ _) | .stage _ .write => inferInstanceAs (Decidable (x.Writes _ _))
  | .stage _ .read => inferInstanceAs (Decidable (x.Reads _))
  | .functor (.onConnectEstablished _) | .functor (.onConnectDestroyed _)
  | .functor (.removeConnectionInLoop _) | .functor (.shutdownInLoop _) | .functor (.writeComplete _)
  | .functor (.highWaterMark _ _) | .stage _ .close | .stage _ .error | .stage _ .done | .handleEvent _
  | .doPendingFunctors | .destroy _ _ => inferInstanceAs (Decidable True)

structure System where
  loops : LoopId → Loop
  /-- `loops_.size()` and `next_` of the pool. -/
  poolSize : Nat
  next : Nat
  conns : ConnId → Option Link
  freed : List ConnId
  /-- `connections_`, by the number in each name. -/
  connections : List ConnId
  /-- `next_conn_id_`, without the limit of an `int`. -/
  nextConnId : ConnId
  alive : Bool
  writeCompleteCb : Bool
  calls : List (Thread × Call)
  /-- Tells the calls of `Send` apart. -/
  nextTag : Nat
  trace : List (ConnId × Event)

namespace System

def construct (poolSize : Nat) (writeCompleteCb : Bool) : System where
  loops _ := ⟨[],[]⟩
  poolSize := poolSize
  next := 0
  conns _ := none
  freed := []
  connections := []
  nextConnId := 1
  alive := true
  writeCompleteCb := writeCompleteCb
  calls := []
  nextTag := 0
  trace := []

/-- A use of the connection through a reference or a raw pointer. -/
def deref (c : ConnId) (s : System) : Except Fault Link :=
  match s.conns c with
  | some x => if c ∈ s.freed then .error .useAfterFree else .ok x
  | none => .error .useAfterFree

def setLink (c : ConnId) (x : Link) (s : System) : System :=
  { s with conns := Function.update s.conns c (some x) }

def record (c : ConnId) (event : Event) (s : System) : System := { s with trace := s.trace ++ [(c,event)] }

def setLoop (l : LoopId) (loop : Loop) (s : System) : System := { s with loops := Function.update s.loops l loop }

def queueInLoop (l : LoopId) (f : Functor) (s : System) : System :=
  s.setLoop l { s.loops l with pending := (s.loops l).pending ++ [f] }

/-- Work the loop thread does before anything else it has to do. -/
def before (l : LoopId) (tasks : List Task) (s : System) : System :=
  s.setLoop l { s.loops l with todo := tasks ++ (s.loops l).todo }

def removeConnectionInLoop (l : LoopId) (c : ConnId) (s : System) : Except Fault System := do
  check s.alive .useAfterFree
  check (l = 0) .fatal
  let x ← s.deref c
  assert (c ∈ s.connections) .removeConnectionInLoop
  let s := { s with connections := s.connections.filter (· ≠ c) }
  return (s.record c .queueDestroyed).queueInLoop x.conn.loop (.onConnectDestroyed c)

def removeConnection (l : LoopId) (c : ConnId) (s : System) : Except Fault System := do
  check s.alive .useAfterFree
  if l = 0 then s.removeConnectionInLoop l c
  else return s.queueInLoop 0 (.removeConnectionInLoop c)

def applyEffect (l : LoopId) (c : ConnId) (x : Link) (s : System) : Effect → Except Fault System
  | .connCb isConnected => .ok (s.record c (.connCb isConnected))
  | .msgCb => .ok (s.record c .msgCb)
  | .closeCb => (s.record c .closeCb).removeConnection l c
  | .queueWriteComplete => .ok (s.queueInLoop x.conn.loop (.writeComplete c))
  | .queueHighWaterMark size => .ok (s.queueInLoop x.conn.loop (.highWaterMark c size))
  | .shutDownWrite => .ok (s.record c (.shutDownWrite x.conn.sent.length))

def applyEffects (l : LoopId) (c : ConnId) (x : Link) : List Effect → System → Except Fault System
  | [], s => .ok s
  | effect :: effects, s => do applyEffects l c x effects (← s.applyEffect l c x effect)

/-- A method of the connection on thread `l`, which has to be its loop's. -/
def perform (l : LoopId) (c : ConnId) (method : Link → Except Fault (Link × List Effect)) (s : System) :
    Except Fault System := do
  let x ← s.deref c
  check (x.conn.loop = l) .fatal
  let (x,effects) ← method x
  applyEffects l c x effects (s.setLink c x)

def runFunctor (l : LoopId) (io : Io) (f : Functor) (s : System) : Except Fault System :=
  match f with
  | .onConnectEstablished c => s.perform l c (Link.onConnectEstablished c)
  | .onConnectDestroyed c => do
    let x ← s.deref c
    check (x.conn.loop = l) .fatal
    let wasConnected := x.conn.isConnected
    return (s.record c (.testDestroyed wasConnected)).before l [.destroy c wasConnected]
  | .removeConnectionInLoop c => s.removeConnectionInLoop l c
  | .sendInLoop c message => s.perform l c (Link.sendInLoop c io.alloc message io.write)
  | .shutdownInLoop c => s.perform l c (fun x => .ok x.shutdownInLoop)
  -- the user's callbacks
  | .writeComplete c | .highWaterMark c _ => do
    let _ ← s.deref c
    return s

/-- One test of `HandleEvent` and the handler behind it. -/
def dispatch (l : LoopId) (c : ConnId) (wants : PollEvents → Bool)
    (handler : Link → Except Fault (Link × List Effect)) (s : System) : Except Fault System := do
  let x ← s.deref c
  if wants x.conn.channel.revents then s.perform l c handler else return s

def setHandling (c : ConnId) (eventHandling : Bool) (s : System) : Except Fault System := do
  let x ← s.deref c
  return s.setLink c (x.setHandling eventHandling)

def stages (c : ConnId) : List Task := [.stage c .close,.stage c .error,.stage c .read,.stage c .write,.stage c .done]

def runTask (l : LoopId) (io : Io) (task : Task) (s : System) : Except Fault System :=
  match task with
  | .handleEvent c => do return (← s.setHandling c true).before l (stages c)
  | .stage c .close => s.dispatch l c Channel.wantsClose (Link.handleClose c)
  | .stage c .error => s.dispatch l c Channel.wantsError Link.handleError
  | .stage c .read => s.dispatch l c Channel.wantsRead (Link.handleRead c io.alloc io.read io.consumed)
  | .stage c .write => s.dispatch l c Channel.wantsWrite (Link.handleWrite c io.write)
  | .stage c .done => s.setHandling c false
  -- the swap of `DoPendingFunctors`, which ends the iteration
  | .doPendingFunctors =>
    .ok (s.setLoop l ⟨(s.loops l).todo ++ (s.loops l).pending.map .functor,[]⟩)
  | .functor f => s.runFunctor l io f
  | .destroy c wasConnected => do
    return (← s.perform l c (Link.onConnectDestroyed c wasConnected)).record c .destroyed

def run (l : LoopId) (io : Io) (s : System) : Except Fault System :=
  match (s.loops l).todo with
  | [] => .ok s
  | task :: todo => (s.setLoop l { s.loops l with todo }).runTask l io task

def fillActiveChannels : List (ConnId × PollEvents) → System → Except Fault System
  | [], s => .ok s
  | (c,revents) :: reports, s => do
    let x ← s.deref c
    let channel ← Channel.fillActive c x.conn.channel x.slot revents
    fillActiveChannels reports (s.setLink c (x.setChannel channel))

def poll (l : LoopId) (reports : List (ConnId × PollEvents)) (s : System) : Except Fault System := do
  let s ← fillActiveChannels reports s
  return s.before l (reports.map (.handleEvent ·.1) ++ [.doPendingFunctors])

/-- The base loop if the pool is empty, else the pool's loops in turn. -/
def getNextLoop (s : System) : Except Fault (LoopId × System) :=
  if s.poolSize = 0 then .ok (0,s)
  else do
    check (s.next < s.poolSize) .outOfBounds
    let next := s.next + 1
    return (next,{ s with next := if next ≥ s.poolSize then 0 else next })

/-- `connections_[connName] = conn`, with the next number in the name. -/
def enlist (x : Link) (s : System) : System :=
  { s.setLink s.nextConnId x with
    nextConnId := s.nextConnId + 1, connections := s.connections ++ [s.nextConnId] }

def handleNewConnection (fd : Nat) (alloc : Allocator) (s : System) : Except Fault System := do
  let (ioLoop,s) ← s.getNextLoop
  let c := s.nextConnId
  let input ← Buffer.construct alloc Buffer.kInitialSize Buffer.kCheapPrependSize
  let output ← Buffer.construct alloc Buffer.kInitialSize Buffer.kCheapPrependSize
  let s := s.enlist ⟨TcpConnection.construct ioLoop fd input output s.writeCompleteCb,.empty⟩
  if ioLoop = 0 then s.perform 0 c (Link.onConnectEstablished c)
  else return s.queueInLoop ioLoop (.onConnectEstablished c)

/-- The loop of `~TcpServer`: a connection of the base loop is next to be destroyed, one
of another loop has its functor queued there. -/
def destroyConnections : List ConnId → System → Except Fault System
  | [], s => .ok s
  | c :: order, s => do
    let s ← destroyConnections order s
    let x ← s.deref c
    if x.conn.loop = 0 then return s.before 0 [.functor (.onConnectDestroyed c)]
    else return s.queueInLoop x.conn.loop (.onConnectDestroyed c)

def destroyServer (order : List ConnId) (s : System) : Except Fault System :=
  destroyConnections order { s with alive := false, connections := [] }

def begin (t : Thread) (call : Call) (s : System) : System := { s with calls := s.calls ++ [(t,call)] }

def send (t : Thread) (c : ConnId) (message : Message) (io : Io) (s : System) : Except Fault System := do
  let x ← s.deref c
  let s := { s with nextTag := s.nextTag + 1 }
  if x.conn.status = .kConnected then
    if t = .loop x.conn.loop then
      let s ← s.perform x.conn.loop c (Link.sendInLoop c io.alloc message io.write)
      return s.record c (.sendReturned t message)
    else return s.begin t (.sending c message)
  else return s

def shutdown (t : Thread) (c : ConnId) (s : System) : Except Fault System := do
  let x ← s.deref c
  match x.shutdown with
  | none => return s.record c (.shutdownCalled t false)
  | some y =>
    let s := (s.setLink c y).record c (.shutdownCalled t true)
    if t = .loop y.conn.loop then s.perform y.conn.loop c (fun x => .ok x.shutdownInLoop)
    else return s.begin t (.shuttingDown c)

/-- The push that ends a call. The functor of `Send` has the message as it was passed; that it
captures a reference is in the model of the overloads. -/
def push (t : Thread) (call : Call) (s : System) : Except Fault System := do
  let s := { s with calls := s.calls.filter (· ≠ (t,call)) }
  match call with
  | .sending c message =>
    let x ← s.deref c
    return (s.queueInLoop x.conn.loop (.sendInLoop c message)).record c (.sendReturned t message)
  | .shuttingDown c =>
    let x ← s.deref c
    return s.queueInLoop x.conn.loop (.shutdownInLoop c)

/-- The last reference goes: `~TcpConnection`, then `~Channel`. -/
def drop (c : ConnId) (s : System) : Except Fault System := do
  let x ← s.deref c
  assert (x.conn.status = .kDisconnected) .connectionDestructor
  x.conn.channel.destroy
  return { s with freed := c :: s.freed }

inductive Action where
  | poll (l : LoopId) (reports : List (ConnId × PollEvents))
  | run (l : LoopId) (io : Io)
  /-- `HandleNewConnection` on the base loop's thread. -/
  | accept (fd : Nat) (alloc : Allocator)
  /-- `~TcpServer` on the base loop's thread. The connections of the base loop are destroyed
  in this order; those of other loops have their functors queued in the reverse. -/
  | destroyServer (order : List ConnId)
  | send (t : Thread) (c : ConnId) (message : Message) (io : Io)
  | push (t : Thread) (call : Call)
  | shutdown (t : Thread) (c : ConnId)
  | drop (c : ConnId)

def step (s : System) : Action → Except Fault System
  | .poll l reports => s.poll l reports
  | .run l io => s.run l io
  | .accept fd alloc => s.handleNewConnection fd alloc
  | .destroyServer order => s.destroyServer order
  | .send t c message io => s.send t c message io
  | .push t call => s.push t call
  | .shutdown t c => s.shutdown t c
  | .drop c => s.drop c

def Live (c : ConnId) (s : System) : Prop := (s.conns c).isSome = true ∧ c ∉ s.freed

def Idle (t : Thread) (s : System) : Prop := ∀ call ∈ s.calls, call.1 ≠ t

/-- What `epoll_wait` may say of a connection of loop `l`. -/
def Reported (l : LoopId) (s : System) (report : ConnId × PollEvents) : Prop :=
  report.1 ∉ s.freed ∧ ∃ x ∈ s.conns report.1, x.conn.loop = l ∧
    ∃ entry ∈ x.slot.interest, entry.1 = report.1 ∧ report.2.Reportable entry.2

/-- The kernel's answers suit the connection a task is about. -/
def Permits (io : Io) (s : System) (task : Task) : Prop := ∀ c ∈ task.about, ∀ x ∈ s.conns c, x.Permits io task

/-- No functor and no call has the connection, and neither has the map. -/
def Unreferenced (c : ConnId) (s : System) : Prop :=
  c ∉ s.connections ∧ (∀ call ∈ s.calls, call.2.about ≠ c) ∧
  ∀ x ∈ s.conns c, ∀ task ∈ (s.loops x.conn.loop).work ++ (s.loops 0).work, task.holds c = false

def enabled (s : System) : Action → Prop
  | .poll l reports => (s.loops l).todo = [] ∧ s.Idle (.loop l) ∧ (reports.map Prod.fst).Nodup ∧
    ∀ report ∈ reports, s.Reported l report
  | .run l io => s.Idle (.loop l) ∧ ∃ task ∈ (s.loops l).todo.head?, s.Permits io task
  -- the kernel gives out a descriptor that is not open
  | .accept fd _ => s.alive = true ∧ s.Idle (.loop 0) ∧
    ∀ d < s.nextConnId, d ∉ s.freed → ∀ x ∈ s.conns d, x.conn.channel.fd ≠ fd
  | .destroyServer order => s.alive = true ∧ s.Idle (.loop 0) ∧ order.Nodup ∧
    (∀ c ∈ order, c ∈ s.connections) ∧ ∀ c ∈ s.connections, c ∈ order
  | .send t c message io => s.Idle t ∧ s.Live c ∧ message.tag = s.nextTag ∧
    ∀ x ∈ s.conns c, x.Writes io.write message.bytes.length
  | .push t call => (t,call) ∈ s.calls
  | .shutdown t c => s.Idle t ∧ s.Live c
  | .drop c => s.Live c ∧ s.Unreferenced c

instance (c : ConnId) (s : System) : Decidable (s.Live c) := inferInstanceAs (Decidable (_ ∧ _))
instance (t : Thread) (s : System) : Decidable (s.Idle t) := inferInstanceAs (Decidable (∀ _ ∈ s.calls, _))
instance (l : LoopId) (s : System) : DecidablePred (s.Reported l) := fun _ =>
  inferInstanceAs (Decidable (_ ∧ ∃ _ ∈ _, _ ∧ ∃ _ ∈ _, _ ∧ _))
instance (c : ConnId) (s : System) : Decidable (s.Unreferenced c) :=
  inferInstanceAs (Decidable (_ ∧ (∀ _ ∈ _, _) ∧ ∀ _ ∈ _, ∀ _ ∈ _, _))

instance (io : Io) (s : System) : DecidablePred (s.Permits io) := fun _ =>
  inferInstanceAs (Decidable (∀ _ ∈ _, ∀ _ ∈ _, _))

instance (s : System) : (a : Action) → Decidable (s.enabled a)
  | .poll _ _ => inferInstanceAs (Decidable (_ ∧ _ ∧ _ ∧ ∀ _ ∈ _, _))
  | .run _ _ => inferInstanceAs (Decidable (_ ∧ ∃ _ ∈ _, _))
  | .accept _ _ => inferInstanceAs (Decidable (_ ∧ _ ∧ ∀ _ < _, _ → ∀ _ ∈ _, _))
  | .destroyServer _ => inferInstanceAs (Decidable (_ ∧ _ ∧ _ ∧ (∀ _ ∈ _, _) ∧ ∀ _ ∈ _, _))
  | .send _ _ _ _ => inferInstanceAs (Decidable (_ ∧ _ ∧ _ ∧ ∀ _ ∈ _, _))
  | .push _ _ => inferInstanceAs (Decidable (_ ∈ _))
  | .shutdown _ _ => inferInstanceAs (Decidable (_ ∧ _))
  | .drop _ => inferInstanceAs (Decidable (_ ∧ _))

def machine : Machine System Action Fault where
  initial s := ∃ poolSize writeCompleteCb, s = construct poolSize writeCompleteCb
  enabled := enabled
  step := step

instance (s : System) (a : Action) : Decidable (machine.enabled s a) :=
  inferInstanceAs (Decidable (s.enabled a))

end System
end Evk
