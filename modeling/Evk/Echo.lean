import Evk.BufferSpace
import Evk.WriteInterest

/-! What a peer gets back. The message callbacks of the repository take everything that was
read: the default one drops it and that of `EchoServer` sends a copy. Over whole runs the
input buffer is empty between the handlers and does not grow, and the peer gets back the
chunks that were read, each whole or not at all. -/
namespace Evk

/-- `internal::DefaultMessageCallback` and `EchoServer::OnMessage`. -/
inductive MessageCallback where
  | defaultMessageCallback
  | onMessage
  deriving DecidableEq, Repr

namespace Link

variable (ptr : ConnId)

/-- `Send` of a string, called on the loop thread. -/
def send (alloc : Allocator) (tag : Nat) (msg : List UInt8) (w : WriteResult) (x : Link) :
    Except Fault (Link × List Effect) :=
  if object : msg.length < 2^62 then
    if x.conn.status = .kConnected then x.sendInLoop ptr alloc ⟨tag,msg,object⟩ w else .ok (x,[])
  -- the copy is an allocation as well
  else .error .badAlloc

def msgCb (alloc : Allocator) (tag : Nat) (w : WriteResult) (x : Link) :
    MessageCallback → Except Fault (Link × List Effect)
  | .defaultMessageCallback => .ok (x.setInput x.conn.inputBuffer.reset,[])
  | .onMessage => do
    let (msg,inputBuffer) ← x.conn.inputBuffer.nextAllString
    (x.setInput inputBuffer).send ptr alloc tag msg w

def handleReadWith (cb : MessageCallback) (alloc : Allocator) (r : ReadResult)
    (tag : Nat) (w : WriteResult) (x : Link) :
    Except Fault (Link × List Effect) := do
  let inputBuffer ← x.conn.inputBuffer.readFromFD alloc r
  match r with
  | .bytes (_ :: _) => (x.setInput inputBuffer).msgCb ptr alloc tag w cb
  | .bytes [] => handleClose ptr (x.setInput inputBuffer)
  | .failed _ => handleError x

end Link

/-- A read that brought something, with the status of the connection at that time and the
result of the write if `SendInLoop` was going to write at once. -/
structure Exchange where
  chunk : List UInt8
  status : Status
  direct : Option WriteResult
  deriving DecidableEq, Repr

def Exchange.answered (cb : MessageCallback) (e : Exchange) : Bool :=
  cb = .onMessage ∧ e.status = .kConnected ∧ e.direct ≠ some (.failed .EPIPE) ∧ e.direct ≠ some (.failed .ECONNRESET)

structure Session where
  link : Link
  received : List Exchange

namespace Session

inductive Action where
  | handleRead (alloc : Allocator) (r : ReadResult) (w : WriteResult)
  | method (m : Link.Method)

/-- The methods that bring in nothing new. -/
def passes : Link.Method → Bool
  | .sendInLoop _ _ _ | .handleRead _ _ _ => false
  | _ => true

def exchange (x : Link) (w : WriteResult) : ReadResult → List Exchange
  | .bytes (byte :: data) => [⟨byte :: data,x.conn.status,if x.conn.writesDirectly then some w else none⟩]
  | _ => []

def step (ptr : ConnId) (cb : MessageCallback) (s : Session) : Action → Except Fault Session
  | .handleRead alloc r w => do
    let (link,_) ← s.link.handleReadWith ptr cb alloc r s.received.length w
    return ⟨link,s.received ++ exchange s.link w r⟩
  | .method m => do
    let (link,_) ← m.run ptr s.link
    return { s with link }

/-- What the kernel may answer; nobody else sends on the connection. -/
def Allowed (s : Session) : Action → Prop
  | .handleRead _ r w => s.link.Reads r ∧ w.Legal (s.link.conn.inputBuffer.readable ++ r.delivered).length
  | .method m => passes m = true ∧ m.Legal s.link

instance (s : Session) : (a : Action) → Decidable (s.Allowed a)
  | .handleRead _ _ _ => inferInstanceAs (Decidable (_ ∧ _))
  | .method _ => inferInstanceAs (Decidable (_ ∧ _))

def machine (ptr : ConnId) (cb : MessageCallback) : Machine Session Action Fault where
  initial s := s.link.Constructed ∧ s.received = []
  enabled := Allowed
  step := step ptr cb

instance (s : Session) (a : Action) : Decidable ((machine ptr cb).enabled s a) :=
  inferInstanceAs (Decidable (s.Allowed a))

end Session

open Buffer in
/-- The most an input buffer comes to: twice an allocation with less than the stack buffer
to spare, and the stack buffer. -/
def inputLimit : Nat := 2 * (kCheapPrependSize + (extrabufSize - 1)) + extrabufSize

namespace Buffer

variable {b b' : Buffer} {alloc : Allocator}

/-- An empty input buffer with its indices at the default reserve. -/
structure Rewound (b : Buffer) : Prop where
  small : b.Small
  read : b.readIndex = kCheapPrependSize
  written : b.writeIndex = kCheapPrependSize
  reserve : b.reservedPrependSize = kCheapPrependSize
  modest : b.capacity ≤ inputLimit

theorem Rewound.empty (rewound : b.Rewound) : b.readable = [] := by
  simp [readable,rewound.read,rewound.written]

theorem Small.held (small : b.Small) : b.Held := by
  obtain ⟨⟨storage,word,reserved,ordered,bounded⟩,served⟩ := small
  exact ⟨ordered.trans bounded,bounded,reserved,served⟩

theorem construct_rewound (done : construct alloc kInitialSize kCheapPrependSize = .ok b) : b.Rewound := by
  obtain ⟨small,-⟩ := construct_returned done
  simp only [construct,bind_ok_iff] at done
  obtain ⟨_,_,_,_,_,_,_,_,_,_,_,_,⟨⟩⟩ := done
  have size : sizeAdd kCheapPrependSize kInitialSize ≤ inputLimit := by decide
  exact ⟨small,rfl,rfl,rfl,size⟩

/-- A read into a rewound buffer: it holds what was delivered, in an allocation that is
larger only if less than the stack buffer could have been written. -/
theorem Rewound.readFromFD (rewound : b.Rewound) (legal : r.Legal (readLimit (b.capacity - b.writeIndex)))
    (done : b.readFromFD alloc r = .ok b') :
    b'.Small ∧ b'.readable = r.delivered ∧ b'.reservedPrependSize = kCheapPrependSize ∧ b'.capacity ≤ inputLimit := by
  obtain ⟨small,read,written,reserve,modest⟩ := id rewound
  have grew := small.held.readFromFD done
  rcases small.readFromFD_spec alloc r legal with ⟨-,refused⟩ | ⟨c,done',small',contents⟩
  · cases refused.symm.trans done
  cases done'.symm.trans done
  rw [rewound.empty,List.nil_append] at contents
  refine ⟨small',contents,grew.reserve.trans reserve,?_⟩
  cases r with
  | failed e =>
    obtain ⟨_,-,⟨⟩⟩ := bind_ok_iff.mp done
    exact modest
  | bytes data =>
    by_cases fits : data.length ≤ b.capacity - b.writeIndex
    · obtain ⟨mem,rfl⟩ := readFromFD_inside fits done
      exact modest
    · obtain ⟨mem,-,-,space⟩ := small.held.overflow (by omega) done
      have legal : data.length ≤ readLimit (b.capacity - b.writeIndex) := legal
      unfold readLimit at legal
      split at legal
      · simp only [inputLimit] at modest ⊢
        simp only at space
        omega
      · omega

theorem Rewound.readNothing (rewound : b.Rewound) (done : b.readFromFD alloc (.bytes []) = .ok b') : b'.Rewound := by
  obtain ⟨small,-,-,-⟩ := rewound.readFromFD (Nat.zero_le _) done
  obtain ⟨mem,rfl⟩ := readFromFD_inside (Nat.zero_le _) done
  refine ⟨small,rewound.read,?_,rewound.reserve,rewound.modest⟩
  simp only [rewound.written]
  decide

theorem Small.reset_rewound (small : b.Small) (reserve : b.reservedPrependSize = kCheapPrependSize)
    (modest : b.capacity ≤ inputLimit) : b.reset.Rewound :=
  ⟨⟨reset_valid small.valid,small.served⟩,reserve,reserve,reserve,modest⟩

end Buffer

namespace Link

variable {ptr : ConnId} {x y : Link} {cb : MessageCallback}

/-- The input buffer has to grow for what the kernel put behind it, and the allocation is
refused. -/
def ReadRefused (x : Link) (alloc : Allocator) (chunk : List UInt8) : Prop :=
  let b := x.conn.inputBuffer
  Buffer.Unserved { b with writeIndex := b.capacity } alloc (chunk.length - (b.capacity - b.writeIndex))

/-- A read that brings something is a read whose callback consumes the whole input, and
for an echo the call of `SendInLoop` behind it. -/
theorem handleReadWith_bytes (input : x.conn.inputBuffer.Rewound) (reads : x.Reads (.bytes (byte :: data)))
    (ptr : ConnId) (cb : MessageCallback) (alloc : Allocator) (tag : Nat) (w : WriteResult) :
    (x.ReadRefused alloc (byte :: data) ∧
      x.handleReadWith ptr cb alloc (.bytes (byte :: data)) tag w = .error .badAlloc) ∨
    ∃ (inputBuffer : Buffer) (object : (byte :: data).length < 2^62), inputBuffer.Rewound ∧
      x.handleRead ptr alloc (.bytes (byte :: data)) (data.length + 1) = .ok (x.setInput inputBuffer,[.msgCb]) ∧
      x.handleReadWith ptr cb alloc (.bytes (byte :: data)) tag w =
        if cb = .onMessage ∧ x.conn.status = .kConnected then
          (x.setInput inputBuffer).sendInLoop ptr alloc ⟨tag,byte :: data,object⟩ w
        else .ok (x.setInput inputBuffer,[]) := by
  rcases input.small.readFromFD_spec alloc _ reads with ⟨unserved,refused⟩ | ⟨b,read,-⟩
  · exact .inl ⟨unserved,by simp [handleReadWith,refused]⟩
  right
  obtain ⟨small,contents,reserve,modest⟩ := input.readFromFD reads read
  have contents : b.readable = byte :: data := contents
  have object : (byte :: data).length < 2^62 := by
    have bounded := small.valid.bounded
    have served := small.served
    rw [← contents,Buffer.length_readable small.valid]
    omega
  refine ⟨b.reset,object,small.reset_rewound reserve modest,?_,?_⟩
  · simp [handleRead,read,Buffer.retrieve,Buffer.skip,Buffer.length_eq small.valid,contents,setInput]
  · cases cb with
    | defaultMessageCallback => simp [handleReadWith,read,msgCb,setInput]
    | onMessage =>
      have passed : x.handleReadWith ptr .onMessage alloc (.bytes (byte :: data)) tag w =
          (x.setInput b.reset).send ptr alloc tag (byte :: data) w := by
        simp [handleReadWith,read,msgCb,Buffer.nextAllString,setInput,Buffer.nextAll_spec small.valid,contents]
      rw [passed,send,dif_pos object]
      by_cases connected : x.conn.status = .kConnected
      · simp [setInput,connected]
      · simp [setInput,connected]

theorem run_passes (ready : x.Ready ptr) (m : Method) (passes : Session.passes m = true) :
    Ensures (fun result => result.1.conn.inputBuffer = x.conn.inputBuffer ∧ result.1.conn.accepted = x.conn.accepted)
      (m.run ptr x) := by
  have onChannel (x : Link) (f : Channel → Slot ConnId → Except Fault (Channel × Slot ConnId)) :
      Ensures (fun y => y.conn.inputBuffer = x.conn.inputBuffer ∧ y.conn.accepted = x.conn.accepted) (x.onChannel f) :=
    (Ensures.any _).bind fun _ _ => .ok ⟨rfl,rfl⟩
  cases m with
  | sendInLoop _ _ _ | handleRead _ _ _ => cases passes
  | onConnectEstablished => exact ensures_assert.bind fun _ _ => (onChannel _ _).bind fun y same => .ok same
  | handleClose => exact ensures_assert.bind fun _ _ => (onChannel _ _).bind fun y same => .ok same
  | handleWrite r =>
    intro result done
    obtain ⟨y,effects,done',output,-,accepted,-⟩ := handleWrite_spec ready r
    cases done'.symm.trans done
    obtain ⟨_,_,_,_,_,same⟩ := output.same
    exact ⟨by rw [same],accepted⟩
  | shutdown =>
    refine .ok ?_
    rw [Link.shutdown]
    split <;> exact ⟨rfl,rfl⟩
  | shutdownInLoop =>
    refine .ok ?_
    rw [Link.shutdownInLoop]
    split <;> exact ⟨rfl,rfl⟩
  | setWriteCompleteCallback _ | setHighWaterMarkCallback _ _ => exact .ok ⟨rfl,rfl⟩

theorem handleReadWith_end (rest : ∀ byte data, r ≠ .bytes (byte :: data)) :
    x.handleReadWith ptr cb alloc r tag w = x.handleRead ptr alloc r 0 := by
  cases r with
  | failed e => rfl
  | bytes data =>
    cases data with
    | nil => rfl
    | cons byte data => exact absurd rfl (rest byte data)

theorem reachable_run (reachable : (machine ptr).Reachable x) (m : Method) (legal : m.Legal x)
    (done : m.run ptr x = .ok (y,effects)) : (machine ptr).Reachable y :=
  .step reachable legal (by simp [machine,done])

end Link

namespace Session

variable {ptr : ConnId} {cb : MessageCallback} {s t : Session}

/-- The connection of a session runs through methods of connections only: a read with its
callback is one that consumes everything, with a send behind it. -/
theorem step_link (reachable : (Link.machine ptr).Reachable s.link) (input : s.link.conn.inputBuffer.Rewound)
    (allowed : s.Allowed a) (stepped : step ptr cb s a = .ok t) : (Link.machine ptr).Reachable t.link := by
  cases a with
  | method m =>
    obtain ⟨⟨y,effects⟩,done,⟨⟩⟩ := bind_ok_iff.mp stepped
    exact Link.reachable_run reachable m allowed.2 done
  | handleRead alloc r w =>
    obtain ⟨⟨y,effects⟩,done,⟨⟩⟩ := bind_ok_iff.mp stepped
    obtain ⟨reads,legal⟩ := allowed
    rw [input.empty,List.nil_append] at legal
    by_cases some : ∃ byte data, r = .bytes (byte :: data)
    · obtain ⟨byte,data,rfl⟩ := some
      rcases Link.handleReadWith_bytes input reads ptr cb alloc s.received.length w with
        ⟨-,refused⟩ | ⟨b,object,rewound,read,result⟩
      · cases refused.symm.trans done
      have taken := Link.reachable_run reachable (.handleRead alloc _ (data.length + 1)) reads read
      rw [result] at done
      split at done
      · exact Link.reachable_run taken (.sendInLoop alloc ⟨s.received.length,byte :: data,object⟩ w) legal done
      · cases done
        exact taken
    · rw [Link.handleReadWith_end fun byte data same => some ⟨byte,data,same⟩] at done
      exact Link.reachable_run reachable (.handleRead alloc r 0) reads done

structure Answers (ptr : ConnId) (cb : MessageCallback) (s : Session) : Prop where
  reachable : (Link.machine ptr).Reachable s.link
  input : s.link.conn.inputBuffer.Rewound
  answered : s.link.conn.accepted.map Message.bytes = (s.received.filter (Exchange.answered cb)).map Exchange.chunk

theorem Answers.method (answers : s.Answers ptr cb) (passed : passes m = true)
    (done : m.run ptr s.link = .ok (y,effects)) :
    y.conn.inputBuffer.Rewound ∧ y.conn.accepted.map Message.bytes =
      (s.received.filter (Exchange.answered cb)).map Exchange.chunk := by
  have ready := (Link.reachable_kept answers.reachable).ready
  obtain ⟨input,accepted⟩ := Link.run_passes ready m passed _ done
  simp only at input accepted
  exact ⟨input ▸ answers.input,accepted ▸ answers.answered⟩

theorem answered_exchange (cb : MessageCallback) (x : Link) (w : WriteResult) (byte : UInt8) (data : List UInt8) :
    ((exchange x w (.bytes (byte :: data))).filter (Exchange.answered cb)).map Exchange.chunk =
      if (cb = .onMessage ∧ x.conn.status = .kConnected) ∧ ¬x.Dropped w then [byte :: data] else [] := by
  have answered : Exchange.answered cb ⟨byte :: data,x.conn.status,
    if x.conn.writesDirectly then some w else none⟩ = true ↔
      (cb = .onMessage ∧ x.conn.status = .kConnected) ∧ ¬x.Dropped w := by
    by_cases direct : x.conn.writesDirectly = true
    · simp [Exchange.answered,Link.Dropped,direct,and_assoc]
    · simp [Exchange.answered,Link.Dropped,direct]
  rw [exchange]
  by_cases answer : (cb = .onMessage ∧ x.conn.status = .kConnected) ∧ ¬x.Dropped w
  · rw [List.filter_cons_of_pos (answered.mpr answer),if_pos answer]
    rfl
  · rw [List.filter_cons_of_neg (mt answered.mp answer),if_neg answer]
    rfl

theorem Answers.bytes (answers : s.Answers ptr cb) (reads : s.link.Reads (.bytes (byte :: data)))
    (legal : w.Legal (byte :: data).length)
    (done : s.link.handleReadWith ptr cb alloc (.bytes (byte :: data)) s.received.length w = .ok (y,effects)) :
    y.conn.inputBuffer.Rewound ∧ y.conn.accepted.map Message.bytes =
      ((s.received ++ exchange s.link w (.bytes (byte :: data))).filter (Exchange.answered cb)).map Exchange.chunk := by
  have ready := (Link.reachable_kept answers.reachable).ready
  rcases Link.handleReadWith_bytes answers.input reads ptr cb alloc s.received.length w with
    ⟨-,refused⟩ | ⟨b,object,rewound,-,result⟩
  · cases refused.symm.trans done
  rw [result] at done
  rw [List.filter_append,List.map_append,← answers.answered,answered_exchange]
  split at done
  · rename_i sends
    have ready' : (s.link.setInput b).Ready ptr := ⟨ready.output,ready.channel⟩
    have up : (s.link.setInput b).conn.status ≠ .kDisconnected := by simp [Link.setInput,sends.2]
    rcases Link.sendInLoop_spec ready' up alloc ⟨s.received.length,byte :: data,object⟩ w (fun _ => legal) with
      ⟨-,refused⟩ | ⟨z,notes,done',output,-,accepted⟩
    · cases refused.symm.trans done
    cases done'.symm.trans done
    obtain ⟨_,_,_,_,_,same⟩ := output.same
    refine ⟨by rw [same]; exact rewound,?_⟩
    have accepted : y.conn.accepted = s.link.conn.accepted ++
      if s.link.Dropped w then [] else [⟨s.received.length,byte :: data,object⟩] := accepted
    rw [accepted,List.map_append]
    by_cases dropped : s.link.Dropped w
    · simp [dropped]
    · simp [dropped,sends]
  · rename_i silent
    cases done
    exact ⟨rewound,by simp [silent,Link.setInput]⟩

theorem Answers.step (answers : s.Answers ptr cb) (allowed : s.Allowed a) (stepped : step ptr cb s a = .ok t) :
    t.Answers ptr cb := by
  have reachable := step_link answers.reachable answers.input allowed stepped
  have ready := (Link.reachable_kept answers.reachable).ready
  cases a with
  | method m =>
    obtain ⟨⟨y,effects⟩,done,⟨⟩⟩ := bind_ok_iff.mp stepped
    obtain ⟨input,answered⟩ := answers.method allowed.1 done
    exact ⟨reachable,input,answered⟩
  | handleRead alloc r w =>
    obtain ⟨⟨y,effects⟩,done,⟨⟩⟩ := bind_ok_iff.mp stepped
    obtain ⟨reads,legal⟩ := allowed
    rw [answers.input.empty,List.nil_append] at legal
    rcases r with (_ | ⟨byte,data⟩) | e
    · obtain ⟨b,read,closed⟩ := bind_ok_iff.mp done
      obtain ⟨same,accepted⟩ := Link.run_passes (x := s.link.setInput b)
        ⟨ready.output,ready.channel⟩ .handleClose rfl _ closed
      simp only at same accepted
      refine ⟨reachable,same ▸ answers.input.readNothing read,?_⟩
      rw [accepted,show exchange s.link w (.bytes []) = [] from rfl,List.append_nil]
      exact answers.answered
    · obtain ⟨input,answered⟩ := answers.bytes reads legal done
      exact ⟨reachable,input,answered⟩
    · obtain ⟨b,read,⟨⟩⟩ := bind_ok_iff.mp done
      exact ⟨reachable,answers.input,by simpa [exchange] using answers.answered⟩

theorem reachable_answers (reachable : (machine ptr cb).Reachable s) : s.Answers ptr cb := by
  induction reachable with
  | initial first =>
    obtain ⟨constructed,none⟩ := first
    have reachable : (Link.machine ptr).Reachable _ := .initial constructed
    obtain ⟨_,_,loop,fd,input,output,writeCompleteCb,built,-,same⟩ := constructed
    refine ⟨reachable,?_,?_⟩
    · rw [same]
      exact Buffer.construct_rewound built
    · rw [same,none]
      rfl
  | step _ allowed stepped answers => exact answers.step allowed stepped

/-- An allocation a read asks for is refused: for the input, or for the output that an echo
leaves behind. -/
def Refused (s : Session) (cb : MessageCallback) (alloc : Allocator) (chunk : List UInt8) (w : WriteResult) : Prop :=
  s.link.ReadRefused alloc chunk ∨
  (cb = .onMessage ∧ s.link.conn.status = .kConnected) ∧ s.link.SendRefused alloc chunk.length w

/-- A read that brings something runs to its end unless memory runs out. -/
theorem Answers.reads (answers : s.Answers ptr cb) (allowed : s.Allowed (.handleRead alloc (.bytes (byte :: data)) w)) :
    (∃ t, Session.step ptr cb s (.handleRead alloc (.bytes (byte :: data)) w) = .ok t) ∨
    (s.Refused cb alloc (byte :: data) w ∧
      Session.step ptr cb s (.handleRead alloc (.bytes (byte :: data)) w) = .error .badAlloc) := by
  have ready := (Link.reachable_kept answers.reachable).ready
  obtain ⟨reads,legal⟩ := allowed
  rw [answers.input.empty,List.nil_append] at legal
  rcases Link.handleReadWith_bytes answers.input reads ptr cb alloc s.received.length w with
    ⟨unserved,refused⟩ | ⟨b,object,rewound,-,result⟩
  · exact .inr ⟨.inl unserved,by simp [Session.step,refused]⟩
  split at result
  · rename_i sends
    have up : (s.link.setInput b).conn.status ≠ .kDisconnected := by simp [Link.setInput,sends.2]
    rcases Link.sendInLoop_spec (x := s.link.setInput b) ⟨ready.output,ready.channel⟩ up alloc
      ⟨s.received.length,byte :: data,object⟩ w (fun _ => legal) with ⟨unserved,refused⟩ | ⟨y,effects,done,-⟩
    · exact .inr ⟨.inr ⟨sends,unserved⟩,by simp [Session.step,result,refused]⟩
    · exact .inl ⟨_,by simp [Session.step,result,done]; rfl⟩
  · exact .inl ⟨_,by simp [Session.step,result]; rfl⟩

/-- Between the handlers of a connection with one of the repository's message callbacks its
input buffer is empty and within a fixed size. With that of `EchoServer` the socket and the
output buffer have what was read while the connection was up, chunk by chunk and in order,
but for the chunks whose write failed for good; with the default one nothing. A read that
brings something fails only when an allocation it asks for is refused. -/
theorem chunks_returned (reachable : (machine ptr cb).Reachable s) :
    s.link.conn.inputBuffer.readable = [] ∧ s.link.conn.inputBuffer.capacity ≤ inputLimit ∧
    s.link.conn.sent ++ s.link.conn.outputBuffer.readable =
      (s.received.filter (Exchange.answered cb)).flatMap Exchange.chunk ∧
    ∀ alloc byte data w, s.Allowed (.handleRead alloc (.bytes (byte :: data)) w) →
      (∃ t, step ptr cb s (.handleRead alloc (.bytes (byte :: data)) w) = .ok t) ∨
      (s.Refused cb alloc (byte :: data) w ∧
        step ptr cb s (.handleRead alloc (.bytes (byte :: data)) w) = .error .badAlloc) := by
  have answers := reachable_answers reachable
  have whole := (Link.reachable_kept answers.reachable).whole
  refine ⟨answers.input.empty,answers.input.modest,?_,fun _ _ _ _ allowed => answers.reads allowed⟩
  calc s.link.conn.sent ++ s.link.conn.outputBuffer.readable
    _ = (s.link.conn.accepted.map Message.bytes).flatten := by rw [← List.flatMap_def]; exact whole
    _ = (s.received.filter (Exchange.answered cb)).flatMap Exchange.chunk := by rw [answers.answered,List.flatMap_def]

/-- A chunk whose echo goes out in two writes, one that waits behind it, one that is lost to
a dead peer and one read after a local shutdown. -/
theorem chunks_returned_two :
    ∃ s, (machine 0 .onMessage).Reachable s ∧ s.received.map Exchange.chunk = [[1,2,3],[4,5],[6],[7]] ∧
      s.link.conn.sent ++ s.link.conn.outputBuffer.readable = [1,2,3,4,5] ∧
        s.link.conn.inputBuffer.capacity ≤ inputLimit := by
  let alloc := Allocator.zeroed 4096 (by decide)
  let schedule : List Action := [.method .onConnectEstablished,.handleRead alloc (.bytes [1,2,3]) (.wrote 1),
    .handleRead alloc (.bytes [4,5]) (.wrote 0),.method (.handleWrite (.wrote 4)),
    .handleRead alloc (.bytes [6]) (.failed .EPIPE),.method .shutdown,.handleRead alloc (.bytes [7]) (.wrote 1)]
  let buffer : Buffer := ⟨List.replicate 1032 0,1032,8,8,8⟩
  let start : Session := ⟨⟨TcpConnection.construct 0 5 buffer buffer false,.empty⟩,[]⟩
  have built : Buffer.construct alloc Buffer.kInitialSize Buffer.kCheapPrependSize = .ok buffer := by decide +kernel
  have reachable : (machine 0 .onMessage).Reachable (schedule.foldl (machine 0 .onMessage).advance start) :=
    Machine.Reachable.follow (m := machine 0 .onMessage)
      (.initial ⟨⟨alloc,alloc,0,5,buffer,buffer,false,built,built,rfl⟩,rfl⟩) schedule (by decide +kernel)
  have received : (schedule.foldl (machine 0 .onMessage).advance start).received =
      [⟨[1,2,3],.kConnected,some (.wrote 1)⟩,⟨[4,5],.kConnected,none⟩,⟨[6],.kConnected,some (.failed .EPIPE)⟩,
        ⟨[7],.kDisconnecting,some (.wrote 1)⟩] := by decide +kernel
  generalize schedule.foldl (machine 0 .onMessage).advance start = s at reachable received
  obtain ⟨-,modest,returned,-⟩ := chunks_returned reachable
  refine ⟨s,reachable,?_,?_,modest⟩
  · rw [received]
    rfl
  · rw [returned,received]
    decide

end Session
end Evk
