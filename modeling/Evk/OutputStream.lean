import Evk.TcpConnection

/-! Output stream integrity. Whatever the kernel takes of each write, the bytes it has
taken followed by the bytes still buffered are the messages accepted so far. -/
namespace Evk.Link

open Region

/-- A connection whose output buffer and channel are in order. -/
structure Ready (ptr : ConnId) (x : Link) : Prop where
  output : x.conn.outputBuffer.Small
  channel : Channel.Consistent ptr x.conn.channel x.slot

/-- Everything handed to the socket or waiting for it. -/
def stream (x : Link) : List UInt8 := x.conn.sent ++ x.conn.outputBuffer.readable

variable {ptr : ConnId} {x : Link}

theorem writesDirectly_iff :
    (!x.conn.channel.isWriting ∧ x.conn.outputBuffer.readable.length = 0) ↔
      x.conn.writesDirectly = true := by
  simp [TcpConnection.writesDirectly]

theorem union_kWritable (events : PollEvents) : events.union kWritable = { events with pollout := true } := by
  simp [PollEvents.union,kWritable]

theorem diff_kWritable (events : PollEvents) : events.diff kWritable = { events with pollout := false } := by
  simp [PollEvents.diff,kWritable]

theorem appendOutput_spec (ready : x.Ready ptr) (alloc : Allocator) (bytes : List UInt8)
    (object : bytes.length < 2^62) :
    (x.conn.outputBuffer.Unserved alloc bytes.length ∧ x.appendOutput ptr alloc bytes = .error .badAlloc) ∨
    ∃ outputBuffer channel slot, x.appendOutput ptr alloc bytes =
        .ok (⟨{ x.conn with outputBuffer, channel },slot⟩,
          highWater x.conn x.conn.outputBuffer.readable.length bytes.length) ∧
      outputBuffer.Small ∧ outputBuffer.readable = x.conn.outputBuffer.readable ++ bytes ∧
      Channel.Consistent ptr channel slot ∧ channel.isWriting = true ∧
      (Channel.Registered ptr x.conn.channel x.slot → Channel.Registered ptr channel slot) ∧
      x.conn.channel.Rearmed channel := by
  have size := Buffer.size_eq ready.output.valid
  rcases ready.output.write_spec alloc bytes object with ⟨unserved,refused⟩ | ⟨b,served,small,contents⟩
  · exact .inl ⟨unserved,by simp [appendOutput,size,Buffer.append,refused]⟩
  · right
    by_cases writing : x.conn.channel.isWriting = true
    · refine ⟨b,x.conn.channel,x.slot,?_,small,contents,ready.channel,writing,id,Channel.Rearmed.refl⟩
      simp [appendOutput,size,Buffer.append,served,setOutput,writing]
    · obtain ⟨channel,slot,enabled,registered,shape⟩ :=
        Channel.update_consistent ready.channel (x.conn.channel.events.union kWritable)
      rw [union_kWritable] at shape
      refine ⟨b,channel,slot,?_,small,contents,.inl registered,by simp [shape,Channel.isWriting],fun _ => registered,
        ⟨_,_,_,shape⟩⟩
      simp [appendOutput,size,Buffer.append,served,setOutput,writing,onChannel,
        Channel.enableWriteEvent,enabled]

/-- A message is dropped as a whole exactly when its direct write fails for good. -/
def Dropped (x : Link) (r : WriteResult) : Prop :=
  x.conn.writesDirectly = true ∧ (r = .failed .EPIPE ∨ r = .failed .ECONNRESET)

instance (x : Link) (r : WriteResult) : Decidable (x.Dropped r) :=
  inferInstanceAs (Decidable (_ ∧ _))

def Matched (x : Link) : Prop := x.conn.channel.isWriting = true ↔ x.conn.outputBuffer.readable ≠ []

/-- A connection after output work: only the socket, the output buffer, the write event
and the history have changed. -/
structure Output (ptr : ConnId) (x x' : Link) : Prop where
  ready : x'.Ready ptr
  same : ∃ sent writeShut outputBuffer channel accepted,
    x'.conn = { x.conn with sent, writeShut, outputBuffer, channel, accepted }
  rearmed : x.conn.channel.Rearmed x'.conn.channel
  registered : Channel.Registered ptr x.conn.channel x.slot → Channel.Registered ptr x'.conn.channel x'.slot
  matched : x.Matched → x'.Matched

theorem Output.refl (ready : x.Ready ptr) : Output ptr x x :=
  ⟨ready,⟨_,_,_,_,_,rfl⟩,Channel.Rearmed.refl,id,id⟩

theorem appendRest_spec (ready : x.Ready ptr) (alloc : Allocator) (message : Message)
    (nwrote : Nat) (rest : nwrote < message.bytes.length) :
    (x.conn.outputBuffer.Unserved alloc (message.bytes.length - nwrote) ∧ x.appendOutput ptr alloc
        (slice message.bytes nwrote (message.bytes.length - nwrote)) = .error .badAlloc) ∨
    ∃ x' mark, x.appendOutput ptr alloc
        (slice message.bytes nwrote (message.bytes.length - nwrote)) = .ok (x',mark) ∧
      Output ptr x x' ∧ x'.stream = x.stream ++ message.bytes.drop nwrote ∧
      x'.conn.accepted = x.conn.accepted := by
  have object := message.object
  have tail : slice message.bytes nwrote (message.bytes.length - nwrote) = message.bytes.drop nwrote := by
    rw [slice,List.take_of_length_le (by simp)]
  rw [tail]
  rcases appendOutput_spec ready alloc (message.bytes.drop nwrote) (by simp only [List.length_drop]; omega) with
    refused | ⟨outputBuffer,channel,slot,done,small,contents,consistent,writing,registered,rearmed⟩
  · exact .inl (by simpa using refused)
  · refine .inr ⟨_,_,done,⟨⟨small,consistent⟩,⟨_,_,_,_,_,rfl⟩,rearmed,registered,fun _ => ?_⟩,?_,rfl⟩
    · have waiting : outputBuffer.readable ≠ [] := by
        rw [contents]
        simp only [ne_eq,List.append_eq_nil_iff,List.drop_eq_nil_iff]
        omega
      exact ⟨fun _ => waiting,fun _ => writing⟩
    · simp [stream,contents]

theorem accept_ready (ready : x.Ready ptr) (message : Message) : (x.accept message).Ready ptr :=
  ⟨ready.output,ready.channel⟩

theorem takeSent_ready (ready : x.Ready ptr) (bytes : List UInt8) : (x.takeSent bytes).Ready ptr :=
  ⟨ready.output,ready.channel⟩

theorem Output.of_accept (output : Output ptr (x.accept message) x') : Output ptr x x' := by
  obtain ⟨sent,writeShut,outputBuffer,channel,accepted,same⟩ := output.same
  exact { output with same := ⟨sent,writeShut,outputBuffer,channel,accepted,same⟩ }

theorem Output.of_takeSent (output : Output ptr (x.takeSent bytes) x') : Output ptr x x' := by
  obtain ⟨sent,writeShut,outputBuffer,channel,accepted,same⟩ := output.same
  exact { output with same := ⟨sent,writeShut,outputBuffer,channel,accepted,same⟩ }

theorem Output.accept (ready : x.Ready ptr) : Output ptr x (x.accept message) :=
  { Output.refl ready with ready := accept_ready ready _, same := ⟨_,_,_,_,_,rfl⟩ }

theorem sendRest_spec (ready : x.Ready ptr) (alloc : Allocator) (message : Message) (d : Direct)
    (split : d.faultError = false) (shift : d.nwrote + d.remaining = message.bytes.length) :
    (x.conn.outputBuffer.Unserved alloc (message.bytes.length - d.nwrote) ∧
      x.sendRest ptr alloc message d = .error .badAlloc) ∨
    ∃ x' effects, x.sendRest ptr alloc message d = .ok (x',effects) ∧ Output ptr x x' ∧
      x'.stream = x.stream ++ message.bytes.drop d.nwrote ∧
      x'.conn.accepted = x.conn.accepted ++ [message] := by
  have remaining : d.remaining = message.bytes.length - d.nwrote := by omega
  have bound : d.remaining ≤ message.bytes.length := by omega
  by_cases rest : d.remaining > 0
  · rcases appendRest_spec (accept_ready ready message) alloc message d.nwrote (by omega) with
      ⟨unserved,refused⟩ | ⟨x',mark,done,output,stream,accepted⟩
    · rw [← remaining] at refused
      exact .inl ⟨unserved,by simp [sendRest,split,bound,rest,refused]⟩
    · rw [← remaining] at done
      exact .inr ⟨x',d.effects ++ mark,by simp [sendRest,split,bound,rest,done],output.of_accept,
        stream,accepted⟩
  · refine .inr ⟨_,_,by simp [sendRest,split,bound,rest]; rfl,Output.accept ready,?_,rfl⟩
    have all : message.bytes.drop d.nwrote = [] := by simp; omega
    simp [all,accept,Link.stream]

/-- How much of a message of `len` bytes the kernel has before the rest goes to the output
buffer. -/
def takenAtOnce (x : Link) (len : Nat) (r : WriteResult) : Nat :=
  if x.conn.writesDirectly then (directWrite x.conn len r).nwrote else 0

/-- The output buffer has to grow for that rest, and the allocation is refused. -/
def SendRefused (x : Link) (alloc : Allocator) (len : Nat) (r : WriteResult) : Prop :=
  x.conn.outputBuffer.Unserved alloc (len - x.takenAtOnce len r)

/-- With nothing waiting the message goes to the socket first. -/
theorem sendInLoop_direct (ready : x.Ready ptr) (up : x.conn.status ≠ .kDisconnected)
    (direct : x.conn.writesDirectly = true) : x.sendInLoop ptr alloc message r =
      (x.takeSent (message.bytes.take (directWrite x.conn message.bytes.length r).nwrote)).sendRest
        ptr alloc message (directWrite x.conn message.bytes.length r) := by
  have size := Buffer.size_eq ready.output.valid
  have test := (writesDirectly_iff).mpr direct
  simp [sendInLoop,up,size,test]

theorem sendInLoop_waits (ready : x.Ready ptr) (up : x.conn.status ≠ .kDisconnected)
    (waits : ¬x.conn.writesDirectly = true) :
    x.sendInLoop ptr alloc message r = x.sendRest ptr alloc message (notWritten message.bytes.length) := by
  have size := Buffer.size_eq ready.output.valid
  have test : ¬(!x.conn.channel.isWriting ∧ x.conn.outputBuffer.readable.length = 0) :=
    fun h => waits ((writesDirectly_iff).mp h)
  simp only [sendInLoop,up,if_false,size,ok_bind,if_neg test]

/-- `SendInLoop` on an open connection: a message the kernel takes whole, in part or
not at all; one that waits behind earlier output; or one lost to a dead peer. -/
theorem sendInLoop_spec (ready : x.Ready ptr) (up : x.conn.status ≠ .kDisconnected)
    (alloc : Allocator) (message : Message) (r : WriteResult)
    (legal : x.conn.writesDirectly = true → r.Legal message.bytes.length) :
    (x.SendRefused alloc message.bytes.length r ∧ x.sendInLoop ptr alloc message r = .error .badAlloc) ∨
    ∃ x' effects, x.sendInLoop ptr alloc message r = .ok (x',effects) ∧ Output ptr x x' ∧
      x'.stream = x.stream ++ (if x.Dropped r then [] else message.bytes) ∧
      x'.conn.accepted = x.conn.accepted ++ (if x.Dropped r then [] else [message]) := by
  by_cases direct : x.conn.writesDirectly = true
  · have empty : x.conn.outputBuffer.readable = [] :=
      List.length_eq_zero_iff.mp ((writesDirectly_iff).mpr direct).2
    rw [sendInLoop_direct ready up direct]
    cases r with
    | wrote n =>
      have taken : n ≤ message.bytes.length := legal direct
      have kept : ¬x.Dropped (.wrote n) := by simp [Dropped]
      rcases sendRest_spec (takeSent_ready ready (message.bytes.take n)) alloc message
        (directWrite x.conn message.bytes.length (.wrote n)) rfl (by simp [directWrite]; omega) with
        ⟨unserved,refused⟩ | ⟨x',effects,done,output,stream,accepted⟩
      · exact .inl ⟨by simpa [SendRefused,takenAtOnce,direct,takeSent] using unserved,refused⟩
      · refine .inr ⟨x',effects,done,output.of_takeSent,?_,by simpa [kept,takeSent] using accepted⟩
        rw [stream]
        simp [kept,Link.stream,takeSent,empty,directWrite]
    | failed e =>
      by_cases dead : e = .EPIPE ∨ e = .ECONNRESET
      · have lost : x.Dropped (.failed e) := ⟨direct,by simpa using dead⟩
        have fault : (directWrite x.conn message.bytes.length (.failed e)).faultError = true := by
          rcases dead with rfl | rfl <;> simp [directWrite]
        refine .inr ⟨x,[],?_,Output.refl ready,by simp [lost],by simp [lost]⟩
        simp [sendRest,fault]
        simp [directWrite,takeSent]
      · have kept : ¬x.Dropped (.failed e) := by simpa [Dropped,direct] using dead
        have fault : (directWrite x.conn message.bytes.length (.failed e)).faultError = false := by
          simpa [directWrite] using fun _ => not_or.mp dead
        rcases sendRest_spec (takeSent_ready ready []) alloc message
          (directWrite x.conn message.bytes.length (.failed e)) fault (by simp [directWrite]) with
          ⟨unserved,refused⟩ | ⟨x',effects,done,output,stream,accepted⟩
        · exact .inl ⟨by simpa [SendRefused,takenAtOnce,direct,takeSent] using unserved,refused⟩
        · refine .inr ⟨x',effects,done,output.of_takeSent,?_,by simpa [kept,takeSent] using accepted⟩
          rw [stream]
          simp [kept,Link.stream,takeSent,directWrite]
  · have kept : ¬x.Dropped r := by simp [Dropped,direct]
    rw [sendInLoop_waits ready up direct]
    rcases sendRest_spec ready alloc message (notWritten message.bytes.length) rfl
      (by simp [notWritten]) with ⟨unserved,refused⟩ | ⟨x',effects,done,output,stream,accepted⟩
    · exact .inl ⟨by simpa [SendRefused,takenAtOnce,direct,notWritten] using unserved,refused⟩
    · exact .inr ⟨x',effects,done,output,by simpa [kept,notWritten] using stream,
        by simpa [kept] using accepted⟩

/-- The ways `HandleWrite` goes: it is not waiting for the event or the write brings
nothing, it moves a part, or it drains the buffer. -/
inductive Wrote (ptr : ConnId) (x : Link) : WriteResult → Link × List Effect → Prop where
  | nothing (idle : x.conn.channel.isWriting = true → ∀ n, r ≠ .wrote (n + 1)) : Wrote ptr x r (x,[])
  | part (n : Nat) (b : Buffer) (writing : x.conn.channel.isWriting = true) (small : b.Small)
      (contents : b.readable = x.conn.outputBuffer.readable.drop (n + 1)) (waiting : b.readable ≠ []) :
      Wrote ptr x (.wrote (n + 1)) ((x.takeSent (x.conn.outputBuffer.readable.take (n + 1))).setOutput b,[])
  | all (n : Nat) (b : Buffer) (channel : Channel) (slot : Slot ConnId)
      (writing : x.conn.channel.isWriting = true) (small : b.Small)
      (contents : b.readable = x.conn.outputBuffer.readable.drop (n + 1)) (empty : b.readable = [])
      (registered : Channel.Registered ptr channel slot) (rearmed : x.conn.channel.Rearmed channel)
      (off : channel.isWriting = false) :
      Wrote ptr x (.wrote (n + 1))
        (⟨{ x.conn with
            sent := x.conn.sent ++ x.conn.outputBuffer.readable.take (n + 1)
            outputBuffer := b
            channel
            writeShut := x.conn.writeShut || x.conn.status == .kDisconnecting },slot⟩,
          (if x.conn.writeCompleteCb then [.queueWriteComplete] else []) ++
            if x.conn.status = .kDisconnecting then [.shutDownWrite] else [])

theorem handleWrite_wrote (ready : x.Ready ptr) (r : WriteResult) :
    ∃ result, x.handleWrite ptr r = .ok result ∧ Wrote ptr x r result := by
  by_cases writing : x.conn.channel.isWriting = true
  swap
  · exact ⟨(x,[]),by simp [handleWrite,writing],.nothing fun on => absurd on writing⟩
  have data := Buffer.toSlice_eq ready.output.valid
  rcases r with (_ | n) | e
  · exact ⟨(x,[]),by simp [handleWrite,writing,data],.nothing (by simp)⟩
  swap
  · exact ⟨(x,[]),by simp [handleWrite,writing,data],.nothing (by simp)⟩
  obtain ⟨b,skipped,small,contents⟩ := ready.output.skip_spec (n + 1)
  have size := Buffer.size_eq small.valid
  by_cases drained : b.readable.length = 0
  · obtain ⟨channel,slot,disabled,registered,shape⟩ :=
      Channel.update_consistent ready.channel (x.conn.channel.events.diff kWritable)
    rw [diff_kWritable] at shape
    have off : channel.isWriting = false := by simp [shape,Channel.isWriting]
    have empty := List.length_eq_zero_iff.mp drained
    refine ⟨_,?_,.all n b channel slot writing small contents empty registered ⟨_,_,_,shape⟩ off⟩
    by_cases leaving : x.conn.status = .kDisconnecting
    · simp [handleWrite,writing,data,takeSent,setOutput,skipped,size,drained,onChannel,
        Channel.disableWriteEvent,disabled,leaving,shutdownInLoop,off]
    · simp [handleWrite,writing,data,takeSent,setOutput,skipped,size,drained,onChannel,
        Channel.disableWriteEvent,disabled,leaving]
  · have waiting : b.readable ≠ [] := fun h => drained (by simp [h])
    refine ⟨_,?_,.part n b writing small contents waiting⟩
    simp [handleWrite,writing,data,takeSent,setOutput,skipped,size,drained]

/-- `HandleWrite` moves bytes from the buffer to the socket and turns the write event
off when it has drained the buffer; only then, and only in `kDisconnecting`, it
half-closes. -/
theorem handleWrite_spec (ready : x.Ready ptr) (r : WriteResult) :
    ∃ x' effects, x.handleWrite ptr r = .ok (x',effects) ∧ Output ptr x x' ∧
      x'.stream = x.stream ∧ x'.conn.accepted = x.conn.accepted ∧
      (((∀ effect ∈ effects, effect.isNote = true) ∧ x'.conn.writeShut = x.conn.writeShut) ∨
        ∃ notes, effects = notes ++ [.shutDownWrite] ∧ (∀ effect ∈ notes, effect.isNote = true) ∧
          x.conn.status = .kDisconnecting ∧ x.conn.channel.isWriting = true ∧
          r.Drains x.conn.outputBuffer.readable.length ∧ x'.conn.outputBuffer.readable = [] ∧
          x'.conn.writeShut = true) := by
  obtain ⟨⟨x',effects⟩,done,wrote⟩ := handleWrite_wrote ready r
  refine ⟨x',effects,done,?_⟩
  have moved (n : Nat) : x.conn.sent ++ x.conn.outputBuffer.readable.take (n + 1) ++
      x.conn.outputBuffer.readable.drop (n + 1) = x.stream := by
    rw [List.append_assoc,List.take_append_drop]; rfl
  cases wrote with
  | nothing => exact ⟨Output.refl ready,rfl,rfl,.inl ⟨by simp,rfl⟩⟩
  | part n b writing small contents waiting =>
    refine ⟨⟨⟨small,ready.channel⟩,⟨_,_,_,_,_,rfl⟩,Channel.Rearmed.refl,id,fun _ => ?_⟩,?_,rfl,.inl ⟨by simp,rfl⟩⟩
    · exact ⟨fun _ => waiting,fun _ => writing⟩
    · rw [← moved n,← contents]
      rfl
  | all n b channel slot writing small contents empty registered rearmed off =>
    refine ⟨⟨⟨small,.inl registered⟩,⟨_,_,_,_,_,rfl⟩,rearmed,fun _ => registered,
      fun _ => by simp [Matched,off,empty]⟩,?_,rfl,?_⟩
    · rw [← moved n,← contents]
      rfl
    have notes : ∀ effect ∈ (if x.conn.writeCompleteCb then [Effect.queueWriteComplete] else []),
        effect.isNote = true := by
      split <;> simp [Effect.isNote]
    by_cases leaving : x.conn.status = .kDisconnecting
    · have drains : (WriteResult.wrote (n + 1)).Drains x.conn.outputBuffer.readable.length := by
        rw [empty,eq_comm,List.drop_eq_nil_iff] at contents
        exact ⟨by omega,contents⟩
      rw [if_pos leaving]
      exact .inr ⟨_,rfl,notes,leaving,writing,drains,empty,by simp [leaving]⟩
    · rw [if_neg leaving,List.append_nil]
      exact .inl ⟨notes,by simp [leaving]⟩

/-- What the loop thread does to the output, and the one status change that can fall
between two such steps. -/
inductive OutputEvent where
  | sendInLoop (alloc : Allocator) (message : Message) (r : WriteResult)
  | handleWrite (r : WriteResult)
  | shutdown
  | shutdownInLoop

namespace OutputEvent

def perform (ptr : ConnId) (x : Link) : OutputEvent → Except Fault Link
  | .sendInLoop alloc message r => return (← x.sendInLoop ptr alloc message r).1
  | .handleWrite r => return (← x.handleWrite ptr r).1
  | .shutdown => return x.shutdown.getD x
  | .shutdownInLoop => return x.shutdownInLoop.1

def Legal : OutputEvent → Prop
  | .sendInLoop _ message r => r.Legal message.bytes.length
  | _ => True

def Refused (x : Link) : OutputEvent → Prop
  | .sendInLoop alloc message r => x.SendRefused alloc message.bytes.length r
  | _ => False

def kept (x : Link) : OutputEvent → List Message
  | .sendInLoop _ message r => if x.Dropped r then [] else [message]
  | _ => []

/-- Runs the events in order and collects the messages that were not dropped. -/
def run (ptr : ConnId) : List OutputEvent → Link → Except Fault (Link × List Message)
  | [], x => .ok (x,[])
  | event :: events, x => do
    let (x',messages) ← run ptr events (← event.perform ptr x)
    return (x',event.kept x ++ messages)

/-- The events run up to one that fails because the allocation it asks for is refused in
the state reached. -/
def OutOfMemory (ptr : ConnId) (events : List OutputEvent) (x : Link) : Prop :=
  ∃ before event after y messages, events = before ++ event :: after ∧ run ptr before x = .ok (y,messages) ∧
    event.Refused y ∧ event.perform ptr y = .error .badAlloc

theorem OutOfMemory.cons (memory : OutOfMemory ptr events y) (done : event.perform ptr x = .ok y) :
    OutOfMemory ptr (event :: events) x := by
  obtain ⟨before,failing,after,z,messages,rfl,ran,failed⟩ := memory
  exact ⟨event :: before,failing,after,z,event.kept x ++ messages,rfl,by simp [run,done,ran],failed⟩

end OutputEvent

/-- One step of the stream; the connection stays up, since only `HandleClose` and
`OnConnectDestroyed` take it down. -/
theorem perform_spec (ready : x.Ready ptr) (up : x.conn.status ≠ .kDisconnected)
    (event : OutputEvent) (legal : event.Legal) :
    (event.Refused x ∧ event.perform ptr x = .error .badAlloc) ∨
    ∃ x', event.perform ptr x = .ok x' ∧ x'.Ready ptr ∧ x'.conn.status ≠ .kDisconnected ∧
      x'.stream = x.stream ++ (event.kept x).flatMap Message.bytes := by
  cases event with
  | sendInLoop alloc message r =>
    rcases sendInLoop_spec ready up alloc message r (fun _ => legal) with
      ⟨unserved,refused⟩ | ⟨x',effects,done,output,stream,-⟩
    · exact .inl ⟨unserved,by simp [OutputEvent.perform,refused]⟩
    · obtain ⟨_,_,_,_,_,same⟩ := output.same
      refine .inr ⟨x',by simp [OutputEvent.perform,done],output.ready,by simpa [same] using up,?_⟩
      rw [stream,OutputEvent.kept]
      split <;> simp
  | handleWrite r =>
    obtain ⟨x',effects,done,output,stream,-⟩ := handleWrite_spec ready r
    obtain ⟨_,_,_,_,_,same⟩ := output.same
    exact .inr ⟨x',by simp [OutputEvent.perform,done],output.ready,by simpa [same] using up,
      by simp [stream,OutputEvent.kept]⟩
  | shutdown =>
    refine .inr ⟨_,rfl,?_⟩
    rw [shutdown]
    split
    · exact ⟨⟨ready.output,ready.channel⟩,by simp [setStatus],by simp [OutputEvent.kept]; rfl⟩
    · exact ⟨ready,up,by simp [OutputEvent.kept]⟩
  | shutdownInLoop =>
    refine .inr ⟨_,rfl,?_⟩
    rw [shutdownInLoop]
    split
    · exact ⟨ready,up,by simp [OutputEvent.kept]⟩
    · exact ⟨⟨ready.output,ready.channel⟩,up,by simp [OutputEvent.kept]; rfl⟩

/-- Output stream integrity, over runs of any length: unless an allocation asked for on the
way is refused, the kernel's bytes followed by the buffered ones are what they were
followed by the messages kept, in call order. -/
theorem output_stream_integrity (ready : x.Ready ptr) (up : x.conn.status ≠ .kDisconnected)
    (events : List OutputEvent) (legal : ∀ event ∈ events, event.Legal) :
    (OutputEvent.OutOfMemory ptr events x ∧ OutputEvent.run ptr events x = .error .badAlloc) ∨
    ∃ x' messages, OutputEvent.run ptr events x = .ok (x',messages) ∧
      x'.conn.sent ++ x'.conn.outputBuffer.readable =
        x.conn.sent ++ x.conn.outputBuffer.readable ++ messages.flatMap Message.bytes := by
  induction events generalizing x with
  | nil => exact .inr ⟨x,[],rfl,by simp⟩
  | cons event events ih =>
    have ⟨head,tail⟩ := List.forall_mem_cons.mp legal
    rcases perform_spec ready up event head with ⟨refused,failed⟩ | ⟨y,done,ready',up',stream⟩
    · exact .inl ⟨⟨[],event,events,x,[],rfl,rfl,refused,failed⟩,by simp [OutputEvent.run,failed]⟩
    rcases ih ready' up' tail with ⟨memory,failed⟩ | ⟨x',messages,rest,eq⟩
    · exact .inl ⟨memory.cons done,by simp [OutputEvent.run,done,failed]⟩
    · refine .inr ⟨x',event.kept x ++ messages,by simp [OutputEvent.run,done,rest],?_⟩
      rw [eq,List.flatMap_append,← List.append_assoc]
      exact congrArg (· ++ _) stream

/-- A partial direct write, an append behind it, a drain in two steps and a dropped
message, on a connection that has just been established. -/
theorem output_stream_integrity_partial_writes :
    let alloc := Allocator.zeroed 64 (by decide)
    let buffer : Buffer := ⟨[0,0,0,0],4,1,1,1⟩
    let channel : Channel := ⟨5,kReadable,kNone,kAdded,false,true⟩
    let x : Link := ⟨{ TcpConnection.construct 0 5 buffer buffer false with status := .kConnected, channel },
      ⟨some 0,some (0,kReadable)⟩⟩
    let first : Message := ⟨0,[1,2,3],by decide⟩
    let second : Message := ⟨1,[4,5],by decide⟩
    let third : Message := ⟨2,[6],by decide⟩
    let events : List OutputEvent := [.sendInLoop alloc first (.wrote 1),.sendInLoop alloc second (.wrote 0),
      .handleWrite (.wrote 3),.handleWrite (.failed .EAGAIN),.handleWrite (.wrote 1),
      .sendInLoop alloc third (.failed .EPIPE)]
    x.Ready 0 ∧ x.conn.status ≠ .kDisconnected ∧
    ∃ x', OutputEvent.run 0 events x = .ok (x',[first,second]) ∧
      x'.conn.sent ++ x'.conn.outputBuffer.readable = [1,2,3,4,5] := by
  intro alloc buffer channel x first second third events
  have ready : x.Ready 0 := ⟨⟨⟨rfl,by decide,by decide,by decide,by decide⟩,by decide⟩,.inl ⟨rfl,rfl,rfl,rfl⟩⟩
  have up : x.conn.status ≠ .kDisconnected := by decide
  have legal : ∀ event ∈ events, event.Legal := by
    simp [events,OutputEvent.Legal,WriteResult.Legal,first,second,third]
  have kept : (OutputEvent.run 0 events x).map Prod.snd = .ok [first,second] := by decide
  refine ⟨ready,up,?_⟩
  rcases output_stream_integrity ready up events legal with ⟨-,failed⟩ | ⟨x',messages,done,stream⟩
  · simp [failed,Except.map] at kept
  · rw [done] at kept
    obtain rfl : messages = [first,second] := by simpa [Except.map] using kept
    exact ⟨x',done,stream⟩

end Evk.Link
