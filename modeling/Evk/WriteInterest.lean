import Evk.Lifecycle

/-! Write interest. The methods of a connection run in any order from its construction
on, and their writes come to anything. While the connection is up its write event is
on, in the channel and in the kernel's mask, exactly while output is waiting. -/
namespace Evk.Link

/-- The methods, with what their system calls come to. `Shutdown` stands for its change
of the status; the functor it then runs is `shutdownInLoop`. -/
inductive Method where
  | onConnectEstablished
  | sendInLoop (alloc : Allocator) (message : Message) (r : WriteResult)
  | handleRead (alloc : Allocator) (r : ReadResult) (consumed : Nat)
  | handleWrite (r : WriteResult)
  | shutdown
  | shutdownInLoop
  | handleClose
  | setWriteCompleteCallback (cb : Bool)
  | setHighWaterMarkCallback (cb : Bool) (highWaterMark : Nat)

namespace Method

def run (ptr : ConnId) (x : Link) : Method → Except Fault (Link × List Effect)
  | .onConnectEstablished => x.onConnectEstablished ptr
  | .sendInLoop alloc message r => x.sendInLoop ptr alloc message r
  | .handleRead alloc r consumed => x.handleRead ptr alloc r consumed
  | .handleWrite r => x.handleWrite ptr r
  | .shutdown => .ok (x.shutdown.getD x,[])
  | .shutdownInLoop => .ok x.shutdownInLoop
  | .handleClose => x.handleClose ptr
  | .setWriteCompleteCallback cb => .ok ({ x with conn := { x.conn with writeCompleteCb := cb } },[])
  | .setHighWaterMarkCallback cb highWaterMark =>
    .ok ({ x with conn := { x.conn with highWaterMarkCb := cb, highWaterMark } },[])

def Legal (x : Link) : Method → Prop
  | .sendInLoop _ message r => r.Legal message.bytes.length
  | .handleRead _ r _ => x.Reads r
  | .handleWrite r => r.Legal x.conn.outputBuffer.readable.length
  | _ => True

instance (x : Link) : (method : Method) → Decidable (method.Legal x)
  | .sendInLoop _ message r => inferInstanceAs (Decidable (r.Legal message.bytes.length))
  | .handleRead _ r _ => inferInstanceAs (Decidable (x.Reads r))
  | .handleWrite r => inferInstanceAs (Decidable (r.Legal x.conn.outputBuffer.readable.length))
  | .onConnectEstablished | .shutdown | .shutdownInLoop | .handleClose | .setWriteCompleteCallback _
  | .setHighWaterMarkCallback _ _ => inferInstanceAs (Decidable True)

/-- The call of `sock::Write` a method makes: the bytes it passes, and the result. -/
def writes (x : Link) : Method → Option (List UInt8 × WriteResult)
  | .sendInLoop _ message r =>
    if x.conn.status ≠ .kDisconnected ∧ x.conn.writesDirectly = true then some (message.bytes,r) else none
  | .handleWrite r => if x.conn.channel.isWriting then some (x.conn.outputBuffer.readable,r) else none
  | _ => none

end Method

/-- A connection as its constructor leaves it, with a descriptor its poller does not know. -/
def Constructed (x : Link) : Prop :=
  ∃ first second loop fd input output writeCompleteCb,
    Buffer.construct first Buffer.kInitialSize Buffer.kCheapPrependSize = .ok input ∧
    Buffer.construct second Buffer.kInitialSize Buffer.kCheapPrependSize = .ok output ∧
    x = ⟨TcpConnection.construct loop fd input output writeCompleteCb,.empty⟩

def machine (ptr : ConnId) : Machine Link Method Fault where
  initial := Constructed
  enabled x method := method.Legal x
  step x method := return (← method.run ptr x).1

instance (x : Link) (method : Method) : Decidable ((machine ptr).enabled x method) :=
  inferInstanceAs (Decidable (method.Legal x))

structure Kept (ptr : ConnId) (x : Link) : Prop where
  ready : x.Ready ptr
  registered : x.Up → Channel.Registered ptr x.conn.channel x.slot
  matched : x.conn.status ≠ .kDisconnected → x.Matched
  down : x.conn.status = .kDisconnected → x.conn.channel.isWriting = false
  whole : x.stream = x.conn.accepted.flatMap Message.bytes

variable {ptr : ConnId} {x y : Link} {method : Method}

theorem Kept.pending (kept : x.Kept ptr) (writing : x.conn.channel.isWriting = true) :
    x.conn.outputBuffer.readable ≠ [] := by
  by_cases off : x.conn.status = .kDisconnected
  · simp [kept.down off] at writing
  · exact (kept.matched off).mp writing

theorem Constructed.kept (constructed : x.Constructed) : x.Kept ptr := by
  obtain ⟨_,_,loop,fd,input,output,cb,-,built,rfl⟩ := constructed
  obtain ⟨small,empty⟩ := Buffer.construct_returned built
  refine ⟨⟨small,.inr ⟨rfl,rfl,rfl⟩⟩,?_,fun _ => ?_,fun _ => rfl,?_⟩
  · simp [Up,TcpConnection.construct]
  · simp [Matched,TcpConnection.construct,Channel.construct,Channel.isWriting,kNone,empty]
  · simp [stream,TcpConnection.construct,empty]

/-- What the invariant speaks about is untouched by most methods. -/
theorem Kept.congr (kept : x.Kept ptr) (status : y.conn.status = x.conn.status)
    (channel : y.conn.channel = x.conn.channel) (slot : y.slot = x.slot)
    (output : y.conn.outputBuffer = x.conn.outputBuffer) (sent : y.conn.sent = x.conn.sent)
    (accepted : y.conn.accepted = x.conn.accepted) : y.Kept ptr where
  ready := ⟨output ▸ kept.ready.output,by rw [channel,slot]; exact kept.ready.channel⟩
  registered up := by rw [channel,slot]; exact kept.registered (by rwa [Up,status] at up)
  matched up := by rw [Matched,channel,output]; exact kept.matched (status ▸ up)
  down off := by rw [channel]; exact kept.down (status ▸ off)
  whole := by rw [stream,sent,output,accepted]; exact kept.whole

theorem Kept.onConnectEstablished (kept : x.Kept ptr) :
    Ensures (fun result => result.1.Kept ptr ∧ .shutDownWrite ∉ result.2) (x.onConnectEstablished ptr) := by
  intro result done
  obtain ⟨_,asserted,done⟩ := bind_ok_iff.mp done
  have connecting : x.conn.status = .kConnecting := assert_ok_iff.mp asserted
  obtain ⟨channel,slot,updated,registered,shape⟩ :=
    Channel.update_consistent kept.ready.channel (x.conn.channel.events.union kReadable)
  have writing : channel.isWriting = x.conn.channel.isWriting := by
    simp [shape,Channel.isWriting,PollEvents.union,kReadable]
  have matched := kept.matched (by simp [connecting])
  simp only [onChannel,setStatus,Channel.enableReadEvent,updated,ok_bind,pure_eq_ok,Except.ok.injEq] at done
  subst done
  refine ⟨⟨⟨kept.ready.output,.inl registered⟩,fun _ => registered,fun _ => ?_,by simp,kept.whole⟩,by simp⟩
  rw [Matched,writing]
  exact matched

theorem Kept.handleClose (kept : x.Kept ptr) :
    Ensures (fun result => result.1.Kept ptr ∧ .shutDownWrite ∉ result.2) (x.handleClose ptr) := by
  intro result done
  obtain ⟨_,-,done⟩ := bind_ok_iff.mp done
  obtain ⟨channel,slot,updated,registered,shape⟩ := Channel.update_consistent kept.ready.channel kNone
  have off : channel.isWriting = false := by rw [shape]; rfl
  simp only [onChannel,setStatus,Channel.disableAllEvent,updated,ok_bind,pure_eq_ok,Except.ok.injEq] at done
  subst done
  exact ⟨⟨⟨kept.ready.output,.inl registered⟩,fun _ => registered,by simp,fun _ => off,kept.whole⟩,by simp⟩

theorem Kept.handleRead (kept : x.Kept ptr) :
    Ensures (fun result => result.1.Kept ptr ∧ .shutDownWrite ∉ result.2) (x.handleRead ptr alloc r consumed) := by
  have input (b : Buffer) : (x.setInput b).Kept ptr := kept.congr rfl rfl rfl rfl rfl rfl
  refine (Ensures.any _).bind fun b _ => ?_
  split
  · exact (Ensures.any _).bind fun b' _ => .ok ⟨input b',by simp⟩
  · exact (input b).handleClose
  · exact .ok ⟨kept,by simp⟩

/-- Output work keeps the invariant when the stream grows by what was accepted. -/
theorem Kept.output (kept : x.Kept ptr) (up : x.conn.status ≠ .kDisconnected) (output : Output ptr x y)
    (whole : y.stream = y.conn.accepted.flatMap Message.bytes) : y.Kept ptr := by
  obtain ⟨_,_,_,_,_,same⟩ := output.same
  have status : y.conn.status = x.conn.status := by rw [same]
  refine ⟨output.ready,fun open' => ?_,fun _ => output.matched (kept.matched up),fun off => ?_,whole⟩
  · exact output.registered (kept.registered (by rwa [Up,status] at open'))
  · exact absurd (status ▸ off) up

theorem Kept.sendInLoop (kept : x.Kept ptr) (legal : r.Legal message.bytes.length) :
    Ensures (fun result => result.1.Kept ptr) (x.sendInLoop ptr alloc message r) := by
  intro result done
  by_cases off : x.conn.status = .kDisconnected
  · simp only [Link.sendInLoop,off,if_true,pure_eq_ok,Except.ok.injEq] at done
    exact done ▸ kept
  rcases sendInLoop_spec kept.ready off alloc message r (fun _ => legal) with
    ⟨-,refused⟩ | ⟨y,effects,done',output,stream,accepted⟩
  · cases refused.symm.trans done
  · cases done'.symm.trans done
    apply kept.output off output
    rw [stream,accepted,kept.whole]
    split <;> simp

/-- `HandleWrite` half-closes a drained connection only. -/
theorem Kept.handleWrite (kept : x.Kept ptr) :
    Ensures (fun result => result.1.Kept ptr ∧
      (.shutDownWrite ∈ result.2 → result.1.conn.outputBuffer.readable = [])) (x.handleWrite ptr r) := by
  intro result done
  by_cases off : x.conn.status = .kDisconnected
  · cases (handleWrite_idle (kept.down off)).symm.trans done
    exact ⟨kept,by simp⟩
  obtain ⟨y,effects,done',output,stream,accepted,kind⟩ := handleWrite_spec kept.ready r
  cases done'.symm.trans done
  refine ⟨kept.output off output (by rw [stream,accepted,kept.whole]),fun among => ?_⟩
  rcases kind with ⟨notes,-⟩ | ⟨notes,-,-,-,-,-,drained,-⟩
  · simpa [Effect.isNote] using notes _ among
  · exact drained

theorem Kept.shutdown (kept : x.Kept ptr) : (x.shutdown.getD x).Kept ptr := by
  rw [Link.shutdown]
  split
  · rename_i connected
    have up : x.conn.status ≠ .kDisconnected := by simp [connected]
    exact ⟨⟨kept.ready.output,kept.ready.channel⟩,fun _ => kept.registered (.inl connected),
      fun _ => kept.matched up,by simp [setStatus],kept.whole⟩
  · exact kept

theorem shutdownInLoop_cases : (x.shutdownInLoop = (x,[]) ∧ x.conn.channel.isWriting = true) ∨
    (x.shutdownInLoop = ({ x with conn := { x.conn with writeShut := true } },[.shutDownWrite]) ∧
      x.conn.channel.isWriting = false) := by
  cases writing : x.conn.channel.isWriting <;> simp [Link.shutdownInLoop,writing]

theorem Kept.shutdownInLoop (kept : x.Kept ptr) : x.shutdownInLoop.1.Kept ptr := by
  rcases shutdownInLoop_cases (x := x) with ⟨same,-⟩ | ⟨shut,-⟩
  · rwa [same]
  · rw [shut]
    exact kept.congr rfl rfl rfl rfl rfl rfl

theorem Kept.run (kept : x.Kept ptr) (method : Method) (legal : method.Legal x) :
    Ensures (fun result => result.1.Kept ptr) (method.run ptr x) := by
  intro result done
  cases method with
  | onConnectEstablished => exact (kept.onConnectEstablished result done).1
  | sendInLoop alloc message r => exact kept.sendInLoop legal result done
  | handleRead alloc r consumed => exact (kept.handleRead result done).1
  | handleWrite r => exact (kept.handleWrite result done).1
  | handleClose => exact (kept.handleClose result done).1
  | shutdown => cases done; exact kept.shutdown
  | shutdownInLoop => cases done; exact kept.shutdownInLoop
  | setWriteCompleteCallback cb => cases done; exact kept.congr rfl rfl rfl rfl rfl rfl
  | setHighWaterMarkCallback cb mark => cases done; exact kept.congr rfl rfl rfl rfl rfl rfl

theorem reachable_kept (reachable : (machine ptr).Reachable x) : x.Kept ptr := by
  induction reachable with
  | initial constructed => exact constructed.kept
  | step _ legal stepped kept =>
    obtain ⟨result,done,⟨⟩⟩ := bind_ok_iff.mp stepped
    exact kept.run _ legal result done

theorem highWater_nothing (conn : TcpConnection) (size : Nat) (word : size < 2^64) : highWater conn size 0 = [] := by
  rw [highWater,sizeAdd_of_lt (by omega)]
  exact if_neg (by omega)

theorem Ready.size_lt (ready : x.Ready ptr) : x.conn.outputBuffer.readable.length < 2^62 := by
  have small := ready.output.served
  have bounded := ready.output.valid.bounded
  rw [Buffer.length_readable ready.output.valid]
  omega

/-- The second half of `SendInLoop` writes nothing; it appends what remains unless the
first half failed for good. -/
theorem sendRest_returned (ready : x.Ready ptr) (inside : d.nwrote + d.remaining ≤ message.bytes.length)
    (done : x.sendRest ptr alloc message d = .ok (y,effects)) :
    y.conn.sent = x.conn.sent ∧
    y.conn.outputBuffer.readable.length = x.conn.outputBuffer.readable.length +
      (if d.faultError = true then 0 else d.remaining) ∧
    effects = d.effects ++ highWater x.conn x.conn.outputBuffer.readable.length
      (y.conn.outputBuffer.readable.length - x.conn.outputBuffer.readable.length) := by
  have object := message.object
  have none := highWater_nothing x.conn _ (Nat.lt_trans ready.size_lt (by decide))
  obtain ⟨_,-,done⟩ := bind_ok_iff.mp done
  split at done
  · rename_i fault
    cases done
    simp [fault,none]
  rename_i fault
  split at done
  · have size := Region.length_slice message.bytes d.nwrote d.remaining inside
    obtain ⟨⟨z,mark⟩,appended,⟨⟩⟩ := bind_ok_iff.mp done
    rcases appendOutput_spec (accept_ready ready message) alloc _ (by rw [size]; omega) with
      ⟨-,refused⟩ | ⟨outputBuffer,channel,slot,appended',-,contents,-⟩
    · cases refused.symm.trans appended
    · cases appended'.symm.trans appended
      have longer : outputBuffer.readable.length = x.conn.outputBuffer.readable.length + d.remaining := by
        simp [contents,size,accept]
      refine ⟨rfl,by rw [if_neg fault]; exact longer,?_⟩
      rw [size,longer,Nat.add_sub_cancel_left]
      rfl
  · rename_i all
    cases done
    have all : d.remaining = 0 := by omega
    simp [accept,fault,all,none]

/-- What the kernel takes of a call of `sock::Write`. -/
def taken : Option (List UInt8 × WriteResult) → List UInt8
  | some (data,.wrote n) => data.take n
  | _ => []

/-- `SendInLoop` by what it passes to the kernel, what it keeps and what it queues. -/
theorem sendInLoop_returned (ready : x.Ready ptr) (legal : r.Legal message.bytes.length)
    (done : x.sendInLoop ptr alloc message r = .ok (y,effects)) :
    y.conn.sent = x.conn.sent ++ taken ((Method.sendInLoop alloc message r).writes x) ∧
    x.conn.outputBuffer.readable.length ≤ y.conn.outputBuffer.readable.length ∧
    effects = (if (Method.sendInLoop alloc message r).writes x = some (message.bytes,.wrote message.bytes.length) ∧
        x.conn.writeCompleteCb = true then [.queueWriteComplete] else []) ++
      highWater x.conn x.conn.outputBuffer.readable.length
        (y.conn.outputBuffer.readable.length - x.conn.outputBuffer.readable.length) := by
  by_cases off : x.conn.status = .kDisconnected
  · have none := highWater_nothing x.conn _ (Nat.lt_trans ready.size_lt (by decide))
    simp only [sendInLoop,off,if_true,pure_eq_ok,Except.ok.injEq] at done
    cases done
    simp [Method.writes,off,taken,none]
  by_cases direct : x.conn.writesDirectly = true
  · have called : (Method.sendInLoop alloc message r).writes x = some (message.bytes,r) := by
      simp [Method.writes,off,direct]
    rw [sendInLoop_direct ready off direct] at done
    rw [called]
    cases r with
    | wrote n =>
      have legal : n ≤ message.bytes.length := legal
      obtain ⟨sent,size,notes⟩ := sendRest_returned (takeSent_ready ready _) (by simp [directWrite]; omega) done
      have whole : message.bytes.length - n = 0 ↔ n = message.bytes.length := by omega
      refine ⟨by simpa [takeSent,directWrite,taken] using sent,Nat.le.intro size.symm,?_⟩
      simpa [directWrite,takeSent,highWater,whole] using notes
    | failed e =>
      obtain ⟨sent,size,notes⟩ := sendRest_returned (takeSent_ready ready _) (by simp [directWrite]) done
      refine ⟨by simpa [takeSent,directWrite,taken] using sent,Nat.le.intro size.symm,?_⟩
      simpa [directWrite,takeSent,highWater] using notes
  · have waits : (Method.sendInLoop alloc message r).writes x = none := by simp [Method.writes,direct]
    rw [sendInLoop_waits ready off direct] at done
    rw [waits]
    obtain ⟨sent,size,notes⟩ := sendRest_returned ready (by simp [notWritten]) done
    exact ⟨by simpa [taken] using sent,Nat.le.intro size.symm,by simpa [notWritten] using notes⟩

/-- `HandleWrite` by what it passes to the kernel, what it keeps and what it queues. -/
theorem handleWrite_returned (ready : x.Ready ptr)
    (pending : x.conn.channel.isWriting = true → x.conn.outputBuffer.readable ≠ [])
    (done : x.handleWrite ptr r = .ok (y,effects)) :
    y.conn.sent = x.conn.sent ++ taken ((Method.handleWrite r).writes x) ∧
    y.conn.outputBuffer.readable.length ≤ x.conn.outputBuffer.readable.length ∧
    effects.filter Effect.isNote =
      if x.conn.channel.isWriting = true ∧ y.conn.outputBuffer.readable = [] ∧ x.conn.writeCompleteCb = true then
        [.queueWriteComplete] else [] := by
  obtain ⟨result,done',wrote⟩ := handleWrite_wrote ready r
  cases done'.symm.trans done
  cases wrote with
  | nothing idle =>
    by_cases writing : x.conn.channel.isWriting = true
    · have none : taken (some (x.conn.outputBuffer.readable,r)) = [] := by
        rcases r with (_ | n) | e
        · rfl
        · exact absurd rfl (idle writing n)
        · rfl
      simp [Method.writes,writing,none,pending writing]
    · simp [Method.writes,writing,taken]
  | part n b writing small contents waiting =>
    refine ⟨by simp [Method.writes,writing,taken,takeSent,setOutput],?_,?_⟩
    · simp [setOutput,contents]
    · simp [setOutput,waiting]
  | all n b channel slot writing small contents empty =>
    refine ⟨by simp [Method.writes,writing,taken],by simp [empty],?_⟩
    rw [List.filter_append]
    cases x.conn.writeCompleteCb <;> by_cases leaving : x.conn.status = .kDisconnecting <;>
      simp [writing,empty,leaving,List.filter,Effect.isNote]

/-- A call that leaves the output alone. -/
structure Aside (x y : Link) (effects : List Effect) : Prop where
  sent : y.conn.sent = x.conn.sent
  output : y.conn.outputBuffer = x.conn.outputBuffer
  quiet : effects.filter Effect.isNote = []

theorem onChannel_returned (done : x.onChannel f = .ok y) :
    ∃ channel slot, y = ⟨{ x.conn with channel },slot⟩ := by
  obtain ⟨⟨channel,slot⟩,-,⟨⟩⟩ := bind_ok_iff.mp done
  exact ⟨channel,slot,rfl⟩

theorem handleClose_aside (done : x.handleClose ptr = .ok (y,effects)) : Aside x y effects := by
  simp only [handleClose,bind_ok_iff] at done
  obtain ⟨_,-,z,changed,⟨⟩⟩ := done
  obtain ⟨channel,slot,rfl⟩ := onChannel_returned changed
  exact ⟨rfl,rfl,rfl⟩

theorem handleRead_aside (done : x.handleRead ptr alloc r consumed = .ok (y,effects)) : Aside x y effects := by
  obtain ⟨b,-,done⟩ := bind_ok_iff.mp done
  split at done
  · obtain ⟨b',-,⟨⟩⟩ := bind_ok_iff.mp done
    exact ⟨rfl,rfl,rfl⟩
  · obtain ⟨sent,output,quiet⟩ := handleClose_aside done
    exact ⟨sent,output,quiet⟩
  · cases done
    exact ⟨rfl,rfl,rfl⟩

theorem shutdownInLoop_aside (done : x.shutdownInLoop = (y,effects)) : Aside x y effects := by
  rcases shutdownInLoop_cases (x := x) with ⟨same,-⟩ | ⟨shut,-⟩
  · cases same.symm.trans done
    exact ⟨rfl,rfl,rfl⟩
  · cases shut.symm.trans done
    exact ⟨rfl,rfl,rfl⟩

def Method.isOutput : Method → Bool
  | .sendInLoop _ _ _ | .handleWrite _ => true
  | _ => false

theorem Method.writes_none (other : method.isOutput = false) : method.writes x = none := by
  cases method <;> simp_all [isOutput,writes]

theorem Method.run_aside (other : method.isOutput = false) (done : method.run ptr x = .ok (y,effects)) :
    Aside x y effects := by
  cases method with
  | sendInLoop alloc message r => simp [isOutput] at other
  | handleWrite r => simp [isOutput] at other
  | handleRead alloc r consumed => exact handleRead_aside done
  | handleClose => exact handleClose_aside done
  | onConnectEstablished =>
    simp only [run,Link.onConnectEstablished,bind_ok_iff] at done
    obtain ⟨_,-,z,changed,⟨⟩⟩ := done
    obtain ⟨channel,slot,rfl⟩ := onChannel_returned changed
    exact ⟨rfl,rfl,rfl⟩
  | shutdown =>
    cases done
    rw [Link.shutdown]
    split <;> exact ⟨rfl,rfl,rfl⟩
  | shutdownInLoop => exact shutdownInLoop_aside (Except.ok.inj done)
  | setWriteCompleteCallback cb => cases done; exact ⟨rfl,rfl,rfl⟩
  | setHighWaterMarkCallback cb mark => cases done; exact ⟨rfl,rfl,rfl⟩

/-- A connection hands bytes to its socket in those calls only. -/
theorem Kept.run_sent (kept : x.Kept ptr) (legal : method.Legal x) (done : method.run ptr x = .ok (y,effects)) :
    y.conn.sent = x.conn.sent ++ taken (method.writes x) := by
  cases other : method.isOutput with
  | false => simp [(Method.run_aside other done).sent,Method.writes_none other,taken]
  | true =>
    cases method with
    | sendInLoop alloc message r => exact (sendInLoop_returned kept.ready legal done).1
    | handleWrite r => exact (handleWrite_returned kept.ready kept.pending done).1
    | _ => simp [Method.isOutput] at other

/-- Whoever shuts the write side finds nothing left to write. -/
theorem Kept.shut_drained (kept : x.Kept ptr) (up : x.conn.status ≠ .kDisconnected)
    (done : method.run ptr x = .ok (y,effects)) (shut : .shutDownWrite ∈ effects) :
    y.conn.outputBuffer.readable = [] := by
  cases method with
  | onConnectEstablished => exact absurd shut (kept.onConnectEstablished _ done).2
  | sendInLoop alloc message r => simpa [Effect.isNote] using (sendInLoop_notes _ done).1 _ shut
  | handleRead alloc r consumed => exact absurd shut (kept.handleRead _ done).2
  | handleWrite r => exact (kept.handleWrite _ done).2 shut
  | handleClose => exact absurd shut (kept.handleClose _ done).2
  | shutdownInLoop =>
    have done : x.shutdownInLoop = (y,effects) := Except.ok.inj done
    rw [(shutdownInLoop_aside done).output]
    rcases shutdownInLoop_cases (x := x) with ⟨same,-⟩ | ⟨-,off⟩
    · cases same.symm.trans done
      simp at shut
    · by_contra waiting
      simp [(kept.matched up).mpr waiting] at off
  | shutdown => cases done; simp at shut
  | setWriteCompleteCallback cb => cases done; simp at shut
  | setHighWaterMarkCallback cb mark => cases done; simp at shut

/-- In every state of a run in which the connection is up, the write event is on exactly
while output is waiting, and the kernel has it. So `HandleWrite` never writes an empty
buffer, and the write side is shut only with nothing left to write. -/
theorem write_interest (reachable : (machine ptr).Reachable x) (up : x.Up) :
    (x.conn.channel.events.pollout = true ↔ x.conn.outputBuffer.readable ≠ []) ∧
    (∃ mask, x.slot.interest = some (ptr,mask) ∧
      (mask.pollout = true ↔ x.conn.outputBuffer.readable ≠ [])) ∧
    (∀ r data r', (Method.handleWrite r).writes x = some (data,r') → data ≠ []) ∧
    (∀ (method : Method) y effects, method.run ptr x = .ok (y,effects) → .shutDownWrite ∈ effects →
      y.conn.outputBuffer.readable = []) := by
  have kept := reachable_kept reachable
  have open' : x.conn.status ≠ .kDisconnected := by rcases up with status | status <;> simp [status]
  have matched := kept.matched open'
  refine ⟨matched,⟨_,(kept.registered up).interest,matched⟩,?_,?_⟩
  · intro r data r' called
    simp only [Method.writes] at called
    split at called
    · rename_i writing
      cases called
      exact kept.pending writing
    · simp at called
  · intro method y effects done shut
    exact kept.shut_drained open' done shut

/-- A connection that was asked to shut down with one byte of its message still to go. -/
theorem write_interest_leaving :
    ∃ x, (machine 0).Reachable x ∧ x.Up ∧ x.conn.outputBuffer.readable = [3] ∧
      x.conn.channel.events.pollout = true := by
  let alloc := Allocator.zeroed 4096 (by decide)
  let schedule : List Method := [.onConnectEstablished,.sendInLoop alloc ⟨0,[1,2,3],by decide⟩ (.wrote 1),
    .handleWrite (.wrote 1),.handleRead alloc (.bytes [7]) 1,.shutdown,.shutdownInLoop]
  let buffer : Buffer := ⟨List.replicate 1032 0,1032,8,8,8⟩
  let start : Link := ⟨TcpConnection.construct 0 5 buffer buffer true,.empty⟩
  have built : Buffer.construct alloc Buffer.kInitialSize Buffer.kCheapPrependSize = .ok buffer := by decide +kernel
  have reachable : (machine 0).Reachable (schedule.foldl (machine 0).advance start) :=
    Machine.Reachable.follow (m := machine 0) (.initial ⟨alloc,alloc,0,5,buffer,buffer,true,built,built,rfl⟩) schedule
      (by decide +kernel)
  have up : (schedule.foldl (machine 0).advance start).Up := by decide +kernel
  have waiting : (schedule.foldl (machine 0).advance start).conn.outputBuffer.readable = [3] := by decide +kernel
  exact ⟨_,reachable,up,waiting,(write_interest reachable up).1.mpr (by simp [waiting])⟩

end Evk.Link
