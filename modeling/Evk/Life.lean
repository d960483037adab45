import Evk.Server
import Evk.Simulation

/-! The life of one connection, with all others forgotten: the connection, what its
loop still has to do for it, the removals queued in the base loop, whether the map has
it, and the calls on it in progress. -/
namespace Evk

/-- Whether a task is about the connection and belongs on its loop. -/
def Task.concerns (c : ConnId) : Task → Bool
  | .handleEvent d | .stage d _ | .destroy d _ => d = c
  | .functor (.removeConnectionInLoop _) | .doPendingFunctors => false
  | .functor f => f.about = c

def Task.isFunctor : Task → Bool
  | .functor _ => true
  | _ => false

structure Life where
  link : Link
  /-- The tasks about the connection on its loop. -/
  queue : List Task
  /-- Its `RemoveConnectionInLoop` functors on the base loop. -/
  removals : Nat
  mapped : Bool
  alive : Bool
  freed : Bool
  calls : List (Thread × Call)
  trace : List Event

namespace Life

def deref (v : Life) : Except Fault Link := if v.freed then .error .useAfterFree else .ok v.link

theorem deref_spec (v : Life) : Ensures (fun x => x = v.link ∧ v.freed = false) v.deref := by
  intro x found
  rw [deref] at found
  split at found
  · cases found
  · rename_i live
    cases found
    exact ⟨rfl,Bool.eq_false_iff.mpr live⟩

def setLink (x : Link) (v : Life) : Life := { v with link := x }
def record (event : Event) (v : Life) : Life := { v with trace := v.trace ++ [event] }
def queueInLoop (f : Functor) (v : Life) : Life := { v with queue := v.queue ++ [.functor f] }
def before (tasks : List Task) (v : Life) : Life := { v with queue := tasks ++ v.queue }
def begin (t : Thread) (call : Call) (v : Life) : Life := { v with calls := v.calls ++ [(t,call)] }

variable (c : ConnId)

def removeConnectionInLoop (v : Life) : Except Fault Life := do
  check v.alive .useAfterFree
  let _ ← v.deref
  assert (v.mapped = true) .removeConnectionInLoop
  return ({ v with mapped := false }.record .queueDestroyed).queueInLoop (.onConnectDestroyed c)

def removeConnection (v : Life) : Except Fault Life := do
  check v.alive .useAfterFree
  if v.link.conn.loop = 0 then v.removeConnectionInLoop c
  else return { v with removals := v.removals + 1 }

def applyEffect (x : Link) (v : Life) : Effect → Except Fault Life
  | .connCb isConnected => .ok (v.record (.connCb isConnected))
  | .msgCb => .ok (v.record .msgCb)
  | .closeCb => (v.record .closeCb).removeConnection c
  | .queueWriteComplete => .ok (v.queueInLoop (.writeComplete c))
  | .queueHighWaterMark size => .ok (v.queueInLoop (.highWaterMark c size))
  | .shutDownWrite => .ok (v.record (.shutDownWrite x.conn.sent.length))

def applyEffects (x : Link) : List Effect → Life → Except Fault Life
  | [], v => .ok v
  | effect :: effects, v => do applyEffects x effects (← v.applyEffect c x effect)

def perform (method : Link → Except Fault (Link × List Effect)) (v : Life) : Except Fault Life := do
  let x ← v.deref
  let (x,effects) ← method x
  applyEffects c x effects (v.setLink x)

def dispatch (wants : PollEvents → Bool) (handler : Link → Except Fault (Link × List Effect)) (v : Life) :
    Except Fault Life := do
  let x ← v.deref
  if wants x.conn.channel.revents then v.perform c handler else return v

def setHandling (eventHandling : Bool) (v : Life) : Except Fault Life := do
  let x ← v.deref
  return v.setLink (x.setHandling eventHandling)

def runTask (io : Io) (task : Task) (v : Life) : Except Fault Life :=
  match task with
  | .handleEvent _ => do return (← v.setHandling true).before (System.stages c)
  | .stage _ .close => v.dispatch c Channel.wantsClose (Link.handleClose c)
  | .stage _ .error => v.dispatch c Channel.wantsError Link.handleError
  | .stage _ .read => v.dispatch c Channel.wantsRead (Link.handleRead c io.alloc io.read io.consumed)
  | .stage _ .write => v.dispatch c Channel.wantsWrite (Link.handleWrite c io.write)
  | .stage _ .done => v.setHandling false
  | .functor (.onConnectEstablished _) => v.perform c (Link.onConnectEstablished c)
  | .functor (.onConnectDestroyed _) => do
    let x ← v.deref
    let wasConnected := x.conn.isConnected
    return (v.record (.testDestroyed wasConnected)).before [.destroy c wasConnected]
  | .functor (.sendInLoop _ message) => v.perform c (Link.sendInLoop c io.alloc message io.write)
  | .functor (.shutdownInLoop _) => v.perform c (fun x => .ok x.shutdownInLoop)
  | .functor (.writeComplete _) | .functor (.highWaterMark _ _) => do
    let _ ← v.deref
    return v
  | .destroy _ wasConnected => do
    return (← v.perform c (Link.onConnectDestroyed c wasConnected)).record .destroyed
  -- not among the tasks that concern the connection on its loop
  | .functor (.removeConnectionInLoop _) | .doPendingFunctors => .ok v

def work (io : Io) (v : Life) : Except Fault Life :=
  match v.queue with
  | [] => .ok v
  | task :: queue => { v with queue }.runTask c io task

def report (revents : PollEvents) (v : Life) : Except Fault Life := do
  let x ← v.deref
  let channel ← Channel.fillActive c x.conn.channel x.slot revents
  return (v.setLink (x.setChannel channel)).before [.handleEvent c]

def destroyServer (v : Life) : Except Fault Life := do
  let w := { v with alive := false, mapped := false }
  if v.mapped then
    let x ← w.deref
    if x.conn.loop = 0 then return w.before [.functor (.onConnectDestroyed c)]
    else return w.queueInLoop (.onConnectDestroyed c)
  else return w

def send (t : Thread) (message : Message) (io : Io) (v : Life) : Except Fault Life := do
  let x ← v.deref
  if x.conn.status = .kConnected then
    if t = .loop x.conn.loop then
      let v ← v.perform c (Link.sendInLoop c io.alloc message io.write)
      return v.record (.sendReturned t message)
    else return v.begin t (.sending c message)
  else return v

def shutdown (t : Thread) (v : Life) : Except Fault Life := do
  let x ← v.deref
  match x.shutdown with
  | none => return v.record (.shutdownCalled t false)
  | some y =>
    let v := (v.setLink y).record (.shutdownCalled t true)
    if t = .loop y.conn.loop then v.perform c (fun x => .ok x.shutdownInLoop)
    else return v.begin t (.shuttingDown c)

def push (t : Thread) (call : Call) (v : Life) : Except Fault Life := do
  let v := { v with calls := v.calls.filter (· ≠ (t,call)) }
  let _ ← v.deref
  match call with
  | .sending _ message => return (v.queueInLoop (.sendInLoop c message)).record (.sendReturned t message)
  | .shuttingDown _ => return v.queueInLoop (.shutdownInLoop c)

def drop (v : Life) : Except Fault Life := do
  let x ← v.deref
  assert (x.conn.status = .kDisconnected) .connectionDestructor
  x.conn.channel.destroy
  return { v with freed := true }

inductive Action where
  | report (revents : PollEvents)
  | work (io : Io)
  /-- The base loop runs a `RemoveConnectionInLoop` of the connection. -/
  | remove
  | destroyServer
  | send (t : Thread) (message : Message) (io : Io)
  | push (t : Thread) (call : Call)
  | shutdown (t : Thread)
  | drop

def step (v : Life) : Action → Except Fault Life
  | .report revents => v.report c revents
  | .work io => v.work c io
  | .remove => { v with removals := v.removals - 1 }.removeConnectionInLoop c
  | .destroyServer => v.destroyServer c
  | .send t message io => v.send c t message io
  | .push t call => v.push c t call
  | .shutdown t => v.shutdown c t
  | .drop => v.drop

def enabled (v : Life) : Action → Prop
  -- a loop polls when it has nothing but pending functors
  | .report revents => v.freed = false ∧ (∀ task ∈ v.queue, task.isFunctor = true) ∧
    ∃ mask, v.link.slot.interest = some (c,mask) ∧ revents.Reportable mask
  | .work io => ∃ task queue, v.queue = task :: queue ∧ v.link.Permits io task
  | .remove => 0 < v.removals
  | .destroyServer => v.alive = true
  | .send _ message io => v.freed = false ∧ v.link.Writes io.write message.bytes.length
  | .push t call => (t,call) ∈ v.calls
  | .shutdown _ => v.freed = false
  | .drop => v.freed = false ∧ v.mapped = false ∧ v.removals = 0 ∧ v.calls = [] ∧
    ∀ task ∈ v.queue, task.holds c = false

def accepted (x : Link) : Life := ⟨x,[],0,true,true,false,[],[]⟩

/-- A connection of an IO loop waits for that loop; one of the base loop is established
at once. -/
def initial (v : Life) : Prop :=
  ∃ loop fd input output writeCompleteCb, Buffer.Small input ∧ Buffer.Small output ∧ output.readable = [] ∧
    let w := accepted ⟨TcpConnection.construct loop fd input output writeCompleteCb,.empty⟩
    if loop = 0 then w.perform c (Link.onConnectEstablished c) = .ok v
    else v = w.queueInLoop (.onConnectEstablished c)

def machine : Machine Life Action Fault where
  initial := initial c
  enabled := enabled c
  step := step c

end Life

def eventsOf (c : ConnId) (trace : List (ConnId × Event)) : List Event :=
  trace.filterMap fun entry => if entry.1 == c then some entry.2 else none

namespace System

def view (c : ConnId) (s : System) (x : Link) : Life where
  link := x
  queue := (s.loops x.conn.loop).work.filter (Task.concerns c)
  removals := (s.loops 0).work.count (.functor (.removeConnectionInLoop c))
  mapped := s.connections.contains c
  alive := s.alive
  freed := s.freed.contains c
  calls := s.calls.filter (·.2.about == c)
  trace := eventsOf c s.trace

/-- The server as one of its connections sees it. -/
def life (c : ConnId) (s : System) : Option Life := (s.conns c).map (s.view c)

end System
end Evk
