import Evk.BufferInvariant
import Evk.Channel

/-! The methods of `TcpConnection` that run on the connection's loop thread. Each works
on the connection and on the poller's slot for its descriptor, takes the results of
its system calls as arguments, and lists the callbacks and queued functors it asks for
in order; what those do is left to the caller. -/
namespace Evk

abbrev LoopId := Nat
abbrev ConnId := Nat

inductive Status where
  | kDisconnected | kConnecting | kConnected | kDisconnecting
  deriving DecidableEq, Repr

/-- One call of `Send`: the bytes, an object in the sender's memory, and a tag that
tells the call from others with the same bytes. -/
structure Message where
  tag : Nat
  bytes : List UInt8
  object : bytes.length < 2^62
  deriving DecidableEq, Repr

structure TcpConnection where
  loop : LoopId
  status : Status
  channel : Channel
  inputBuffer : Buffer
  outputBuffer : Buffer
  highWaterMark : Nat
  /-- Whether the optional callbacks are set. -/
  writeCompleteCb : Bool
  highWaterMarkCb : Bool
  /-- The socket: bytes the kernel has taken, and whether its write side is shut. -/
  sent : List UInt8
  writeShut : Bool
  /-- History: the messages `SendInLoop` took over, in order. -/
  accepted : List Message
  deriving Repr

/-- A connection with what its poller keeps for its descriptor. -/
structure Link where
  conn : TcpConnection
  slot : Slot ConnId

inductive Effect where
  | connCb (isConnected : Bool)
  | msgCb
  | closeCb
  | queueWriteComplete
  | queueHighWaterMark (size : Nat)
  | shutDownWrite
  deriving DecidableEq, Repr

/-- The effects that only queue a notice to the user. -/
def Effect.isNote : Effect → Bool
  | .queueWriteComplete | .queueHighWaterMark _ => true
  | _ => false

namespace TcpConnection

def kHighWaterMark : Nat := 64 * 1024 * 1024

def construct (loop : LoopId) (fd : Nat) (input output : Buffer) (writeCompleteCb : Bool) : TcpConnection where
  loop := loop
  status := .kConnecting
  channel := Channel.construct fd
  inputBuffer := input
  outputBuffer := output
  highWaterMark := kHighWaterMark
  writeCompleteCb := writeCompleteCb
  highWaterMarkCb := false
  sent := []
  writeShut := false
  accepted := []

def isConnected (c : TcpConnection) : Bool := c.status == .kConnected

/-- `SendInLoop` writes to the socket itself only when nothing is waiting. -/
def writesDirectly (c : TcpConnection) : Bool := !c.channel.isWriting && c.outputBuffer.readable.isEmpty

end TcpConnection

namespace Link

def setStatus (x : Link) (status : Status) : Link := { x with conn := { x.conn with status } }

def setChannel (x : Link) (channel : Channel) : Link := { x with conn := { x.conn with channel } }

def setHandling (x : Link) (eventHandling : Bool) : Link := x.setChannel { x.conn.channel with eventHandling }

def setRevents (x : Link) (revents : PollEvents) : Link := x.setChannel { x.conn.channel with revents }

def onChannel (x : Link) (f : Channel → Slot ConnId → Except Fault (Channel × Slot ConnId)) :
    Except Fault Link := do
  let (channel,slot) ← f x.conn.channel x.slot
  return { conn := { x.conn with channel }, slot }

def setOutput (x : Link) (outputBuffer : Buffer) : Link := { x with conn := { x.conn with outputBuffer } }

def takeSent (x : Link) (bytes : List UInt8) : Link :=
  { x with conn := { x.conn with sent := x.conn.sent ++ bytes } }

variable (ptr : ConnId)

def onConnectEstablished (x : Link) : Except Fault (Link × List Effect) := do
  assert (x.conn.status = .kConnecting) .onConnectEstablished
  let x ← (x.setStatus .kConnected).onChannel (Channel.enableReadEvent ptr)
  return (x,[.connCb x.conn.isConnected])

/-- `OnConnectDestroyed` after its status test; another thread can change the status
between the test and the rest. -/
def onConnectDestroyed (wasConnected : Bool) (x : Link) : Except Fault (Link × List Effect) := do
  let (x,effects) ← if wasConnected then do
      let x ← (x.setStatus .kDisconnected).onChannel (Channel.disableAllEvent ptr)
      pure (x,[Effect.connCb x.conn.isConnected])
    else pure (x,[])
  let x ← x.onChannel (Channel.remove ptr)
  return (x,effects)

def handleClose (x : Link) : Except Fault (Link × List Effect) := do
  assert (x.conn.status = .kConnected ∨ x.conn.status = .kDisconnecting) .handleClose
  let x ← (x.setStatus .kDisconnected).onChannel (Channel.disableAllEvent ptr)
  return (x,[.closeCb])

/-- Reads and logs the socket error. -/
def handleError (x : Link) : Except Fault (Link × List Effect) := .ok (x,[])

/-- The message callback may consume any part of the input. -/
def handleRead (alloc : Allocator) (r : ReadResult) (consumed : Nat) (x : Link) :
    Except Fault (Link × List Effect) := do
  let inputBuffer ← x.conn.inputBuffer.readFromFD alloc r
  match r with
  | .bytes (_ :: _) =>
    let inputBuffer ← inputBuffer.retrieve consumed
    return ({ x with conn := { x.conn with inputBuffer } },[.msgCb])
  | .bytes [] => handleClose ptr { x with conn := { x.conn with inputBuffer } }
  | .failed _ => handleError x

def shutdownInLoop (x : Link) : Link × List Effect :=
  if x.conn.channel.isWriting then (x,[])
  else ({ x with conn := { x.conn with writeShut := true } },[.shutDownWrite])

def handleWrite (r : WriteResult) (x : Link) : Except Fault (Link × List Effect) := do
  if x.conn.channel.isWriting then
    let data ← x.conn.outputBuffer.toSlice
    match r with
    | .wrote (n + 1) =>
      let x := x.takeSent (data.take (n + 1))
      let x := x.setOutput (← x.conn.outputBuffer.skip (n + 1))
      if (← x.conn.outputBuffer.size) = 0 then
        let x ← x.onChannel (Channel.disableWriteEvent ptr)
        let complete := if x.conn.writeCompleteCb then [Effect.queueWriteComplete] else []
        if x.conn.status = .kDisconnecting then
          let (x,effects) := x.shutdownInLoop
          return (x,complete ++ effects)
        else
          return (x,complete)
      else
        return (x,[])
    -- a count of zero and an error are only logged
    | _ => return (x,[])
  else
    return (x,[])

/-- The locals of `SendInLoop` after the direct write. -/
structure Direct where
  nwrote : Nat
  remaining : Nat
  faultError : Bool
  effects : List Effect

def notWritten (len : Nat) : Direct := ⟨0,len,false,[]⟩

def directWrite (c : TcpConnection) (len : Nat) : WriteResult → Direct
  | .wrote n =>
    ⟨n,len - n,false,if len - n = 0 ∧ c.writeCompleteCb then [.queueWriteComplete] else []⟩
  | .failed e => ⟨0,len,e ≠ .EWOULDBLOCK ∧ (e = .EPIPE ∨ e = .ECONNRESET),[]⟩

def highWater (c : TcpConnection) (oldLen remaining : Nat) : List Effect :=
  if sizeAdd oldLen remaining ≥ c.highWaterMark ∧ oldLen < c.highWaterMark ∧ c.highWaterMarkCb then
    [.queueHighWaterMark (sizeAdd oldLen remaining)]
  else []

/-- The append of `SendInLoop`, with the high-water test made before it. -/
def appendOutput (alloc : Allocator) (bytes : List UInt8) (x : Link) : Except Fault (Link × List Effect) := do
  let mark := highWater x.conn (← x.conn.outputBuffer.size) bytes.length
  let x := x.setOutput (← x.conn.outputBuffer.append alloc bytes)
  if x.conn.channel.isWriting then return (x,mark)
  else return (← x.onChannel (Channel.enableWriteEvent ptr),mark)

/-- History: a message that was not dropped. -/
def accept (x : Link) (message : Message) : Link :=
  { x with conn := { x.conn with accepted := x.conn.accepted ++ [message] } }

/-- The second half of `SendInLoop`: what the direct write left is appended, shifted by
what it took. -/
def sendRest (alloc : Allocator) (message : Message) (d : Direct) (x : Link) :
    Except Fault (Link × List Effect) := do
  assert (d.remaining ≤ message.bytes.length) .sendInLoop
  if d.faultError then
    return (x,d.effects)
  else if d.remaining > 0 then
    let (x,mark) ← (x.accept message).appendOutput ptr alloc
      (Region.slice message.bytes d.nwrote d.remaining)
    return (x,d.effects ++ mark)
  else
    return (x.accept message,d.effects)

def sendInLoop (alloc : Allocator) (message : Message) (r : WriteResult) (x : Link) :
    Except Fault (Link × List Effect) := do
  let len := message.bytes.length
  if x.conn.status = .kDisconnected then
    return (x,[])
  else if !x.conn.channel.isWriting ∧ (← x.conn.outputBuffer.size) = 0 then
    let d := directWrite x.conn len r
    (x.takeSent (message.bytes.take d.nwrote)).sendRest ptr alloc message d
  else
    x.sendRest ptr alloc message (notWritten len)

def Reads (x : Link) (r : ReadResult) : Prop :=
  r.Legal (Buffer.readLimit (x.conn.inputBuffer.capacity - x.conn.inputBuffer.writeIndex))

instance (x : Link) (r : ReadResult) : Decidable (x.Reads r) := inferInstanceAs (Decidable (r.Legal _))

/-- What a write to the socket can come to: after its write side was shut, `EPIPE`. -/
def Writes (x : Link) (r : WriteResult) (len : Nat) : Prop :=
  r.Legal len ∧ (x.conn.writeShut = true → r = .failed .EPIPE)

instance (x : Link) (r : WriteResult) (len : Nat) : Decidable (x.Writes r len) :=
  inferInstanceAs (Decidable (_ ∧ (_ → _)))

/-- The compare-and-exchange of `Shutdown`; it succeeds on a connected socket only. -/
def shutdown (x : Link) : Option Link :=
  if x.conn.status = .kConnected then some (x.setStatus .kDisconnecting) else none

end Link
end Evk
