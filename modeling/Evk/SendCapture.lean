import Evk.TcpConnection

/-! The three overloads of `Send`. On the loop thread the message is read at once; on
another thread a functor is queued that has captured a reference, to the `Slice` or to
the parameter itself, and reads it when the loop runs it. References are addresses in
a memory that the sender goes on using once `Send` has returned. -/
namespace Evk

structure Pointer where
  storage : Address
  offset : Nat
  deriving DecidableEq, Repr

structure Slice where
  data : Pointer
  size : Nat
  deriving DecidableEq, Repr

inductive Cell where
  | bytes (content : List UInt8)
  | slice (slice : Slice)
  | buffer (buffer : Buffer)
  | pointer (target : Address)
  deriving DecidableEq, Repr

abbrev Memory := Address → Option Cell

namespace Memory

def bytesAt (mem : Memory) (p : Pointer) (n : Nat) : Except Fault (List UInt8) :=
  match mem p.storage with
  | some (.bytes content) => copyOut content p.offset n
  | _ => .error .useAfterFree

def sliceAt (mem : Memory) (a : Address) : Except Fault Slice :=
  match mem a with
  | some (.slice slice) => .ok slice
  | _ => .error .useAfterFree

def bufferAt (mem : Memory) (a : Address) : Except Fault Buffer :=
  match mem a with
  | some (.buffer b) => .ok b
  | _ => .error .useAfterFree

def pointerAt (mem : Memory) (a : Address) : Except Fault Address :=
  match mem a with
  | some (.pointer target) => .ok target
  | _ => .error .useAfterFree

/-- What `SendInLoop(const Slice&)` hands to `SendInLoop(const void*, size_t)`. -/
def readSlice (mem : Memory) (message : Address) : Except Fault (List UInt8) := do
  let slice ← mem.sliceAt message
  mem.bytesAt slice.data slice.size

def set (mem : Memory) (a : Address) (cell : Option Cell) : Memory := Function.update mem a cell

@[simp] theorem set_same (mem : Memory) (a : Address) (cell : Option Cell) : mem.set a cell a = cell := by
  simp [set]

theorem set_other {mem : Memory} {cell : Option Cell} (other : b ≠ a) : mem.set a cell b = mem b := by
  simp [set,other]

end Memory

/-- The arguments of the overloads. -/
inductive Argument where
  | bytes (message : Pointer) (len : Int)
  | slice (message : Address)
  | buffer (message : Address)
  deriving DecidableEq, Repr

inductive Captured where
  | slice (message : Address)
  | buffer (message : Address)
  deriving DecidableEq, Repr

namespace Argument

/-- The conversion of an `int` to `size_t`. -/
def sizeOfInt (len : Int) : Nat := (len % 2^64).toNat

def contents (mem : Memory) : Argument → Except Fault (List UInt8)
  | .bytes message len => mem.bytesAt message (sizeOfInt len)
  | .slice message => mem.readSlice message
  | .buffer message => do (← mem.bufferAt message).toSlice

/-- The object the third overload changes. -/
def target? : Argument → Option Address
  | .buffer message => some message
  | _ => none

/-- Entering `Send`: the temporary `Slice` of the first overload and the parameter of
the third stand in the frame of the call. -/
def enter (frame : Address) (mem : Memory) : Argument → Memory × Captured
  | .bytes message len => (mem.set frame (some (.slice ⟨message,sizeOfInt len⟩)),.slice frame)
  | .slice message => (mem,.slice message)
  | .buffer message => (mem.set frame (some (.pointer message)),.buffer frame)

end Argument

namespace Captured

def isBuffer : Captured → Bool
  | .slice _ => false
  | .buffer _ => true

/-- The branch for the loop thread: what it gives to `SendInLoop`, and the memory after. -/
def sendHere (mem : Memory) : Captured → Except Fault (List UInt8 × Memory)
  | .slice message => do return (← mem.readSlice message,mem)
  | .buffer message => do
    let target ← mem.pointerAt message
    let b ← mem.bufferAt target
    return (← b.toSlice,mem.set target (some (.buffer b.reset)))

/-- The body of the queued functor. -/
def run (mem : Memory) : Captured → Except Fault (List UInt8 × Memory)
  | .slice message => do return (← mem.readSlice message,mem)
  | .buffer message => do
    let target ← mem.pointerAt message
    let (bytes,b) ← (← mem.bufferAt target).nextAll
    return (bytes,mem.set target (some (.buffer b)))

/-- The addresses the functor goes through. -/
def reads (mem : Memory) : Captured → List Address
  | .slice message => message :: match mem message with
    | some (.slice view) => [view.data.storage]
    | _ => []
  | .buffer message => message :: match mem message with
    | some (.pointer target) => [target]
    | _ => []

/-- The queued functor does to a memory what the loop thread's own branch does. -/
theorem run_eq_sendHere (mem : Memory) (captured : Captured) : captured.run mem = captured.sendHere mem := by
  cases captured with
  | slice message => rfl
  | buffer message =>
    simp only [run,sendHere,Buffer.nextAll,Buffer.toSlice,bind_assoc,pure_bind]

/-- How a functor gets at its bytes. -/
inductive Reads (mem : Memory) : Captured → List UInt8 → Memory → Prop where
  | slice (view : mem message = some (.slice ⟨⟨storage,offset⟩,size⟩)) (there : mem storage = some (.bytes content))
      (inside : offset + size ≤ content.length) : Reads mem (.slice message) (Region.slice content offset size) mem
  | buffer (param : mem message = some (.pointer target)) (there : mem target = some (.buffer b))
      (taken : b.nextAll = .ok (bytes,b')) : Reads mem (.buffer message) bytes (mem.set target (some (.buffer b')))

theorem Reads.run (reads : Reads mem captured bytes mem') : captured.run mem = .ok (bytes,mem') := by
  cases reads with
  | slice view there inside =>
    simp [Captured.run,Memory.readSlice,Memory.sliceAt,Memory.bytesAt,view,there,copyOut_of inside]
  | buffer param there taken => simp [Captured.run,Memory.pointerAt,Memory.bufferAt,param,there,taken]

end Captured

theorem Memory.pointerAt_ensures : Ensures (fun target => mem a = some (.pointer target)) (Memory.pointerAt mem a) := by
  unfold pointerAt
  split
  · exact .ok ‹_›
  · exact .error _

theorem Memory.bufferAt_ensures : Ensures (fun b => mem a = some (.buffer b)) (Memory.bufferAt mem a) := by
  unfold bufferAt
  split
  · exact .ok ‹_›
  · exact .error _

theorem Memory.sliceAt_ensures : Ensures (fun slice => mem a = some (.slice slice)) (Memory.sliceAt mem a) := by
  unfold sliceAt
  split
  · exact .ok ‹_›
  · exact .error _

theorem Memory.bytesAt_ensures {p : Pointer} : Ensures (fun bytes => ∃ content, mem p.storage = some (.bytes content) ∧
    p.offset + n ≤ content.length ∧ bytes = Region.slice content p.offset n) (Memory.bytesAt mem p n) := by
  unfold bytesAt
  split
  · exact ensures_check.bind fun _ inside => .ok ⟨_,‹_›,inside,rfl⟩
  · exact .error _

namespace Captured

theorem run_reads (mem : Memory) (captured : Captured) :
    Ensures (fun r => Reads mem captured r.1 r.2) (captured.run mem) := by
  cases captured with
  | slice message =>
    have viewed : Ensures (fun bytes => Reads mem (.slice message) bytes mem) (mem.readSlice message) := by
      refine Memory.sliceAt_ensures.bind fun view seen => ?_
      intro bytes done
      obtain ⟨content,there,inside,rfl⟩ := Memory.bytesAt_ensures bytes done
      exact .slice seen there inside
    exact viewed.bind fun bytes reads => .ok reads
  | buffer message =>
    refine Memory.pointerAt_ensures.bind fun target param => Memory.bufferAt_ensures.bind fun b there => ?_
    have taken : Ensures (fun r => b.nextAll = .ok r) b.nextAll := fun _ done => done
    exact taken.bind fun r done => .ok (.buffer param there done)

theorem reads_slice (view : mem message = some (.slice v)) :
    (Captured.slice message).reads mem = [message,v.data.storage] := by simp [reads,view]

theorem reads_buffer (param : mem message = some (.pointer target)) :
    (Captured.buffer message).reads mem = [message,target] := by simp [reads,param]

/-- A functor sees only the cells it goes through. -/
theorem Reads.frame (reads : Reads mem captured bytes mem') (same : ∀ a ∈ captured.reads mem, later a = mem a) :
    ∃ mem'', Reads later captured bytes mem'' := by
  cases reads with
  | @slice message storage offset size content view there inside =>
    rw [reads_slice view] at same
    exact ⟨_,.slice ((same message (by simp)).trans view) ((same storage (by simp)).trans there) inside⟩
  | @buffer message target b bytes b' param there taken =>
    rw [reads_buffer param] at same
    exact ⟨_,.buffer ((same message (by simp)).trans param) ((same target (by simp)).trans there) taken⟩

theorem Reads.set (reads : Reads mem captured bytes mem') (out : a ∉ captured.reads mem) (cell : Option Cell) :
    ∃ mem'', Reads (mem.set a cell) captured bytes mem'' :=
  reads.frame fun _ member => Memory.set_other fun eq => out (eq ▸ member)

theorem Reads.live (reads : Reads mem captured bytes mem') (free : mem a = none) : a ∉ captured.reads mem := by
  intro member
  cases reads with
  | slice view there inside =>
    rw [reads_slice view] at member
    rcases List.mem_pair.mp member with rfl | rfl
    · cases free.symm.trans view
    · cases free.symm.trans there
  | buffer param there taken =>
    rw [reads_buffer param] at member
    rcases List.mem_pair.mp member with rfl | rfl
    · cases free.symm.trans param
    · cases free.symm.trans there

theorem Reads.not_buffer (reads : Reads mem captured bytes mem') (other : captured.isBuffer = false)
    (held : mem a = some (.buffer b)) : a ∉ captured.reads mem := by
  intro member
  cases reads with
  | slice view there inside =>
    rw [reads_slice view] at member
    rcases List.mem_pair.mp member with rfl | rfl
    · cases held.symm.trans view
    · cases held.symm.trans there
  | buffer => cases other

end Captured

theorem Buffer.nextAll_of_toSlice {b : Buffer} (taken : b.toSlice = .ok text) : b.nextAll = .ok (text,b.reset) := by
  have shape : b.nextAll = b.toSlice >>= fun text => .ok (text,b.reset) := by
    simp only [Buffer.nextAll,Buffer.toSlice,bind_assoc,pure_eq_ok]
  rw [shape,taken]
  rfl

/-- Right after the call the captured reference leads to the message. -/
theorem Argument.enter_reads {argument : Argument} (message : argument.contents mem = .ok text)
    (free : mem frame = none) :
    ∃ mem', Captured.Reads (argument.enter frame mem).1 (argument.enter frame mem).2 text mem' := by
  cases argument with
  | bytes p len =>
    obtain ⟨content,there,inside,rfl⟩ := Memory.bytesAt_ensures text message
    have apart : p.storage ≠ frame := fun eq => by cases free.symm.trans (eq ▸ there)
    exact ⟨_,.slice (Memory.set_same _ _ _) ((Memory.set_other apart).trans there) inside⟩
  | slice a =>
    have ran : (Captured.slice a).run mem = .ok (text,mem) := by
      simp only [contents] at message
      simp [Captured.run,message]
    exact ⟨_,Captured.run_reads mem (.slice a) _ ran⟩
  | buffer a =>
    obtain ⟨b,held,taken⟩ := bind_ok_iff.mp message
    have there := Memory.bufferAt_ensures b held
    have apart : a ≠ frame := fun eq => by cases free.symm.trans (eq ▸ there)
    exact ⟨_,.buffer (Memory.set_same _ _ _) ((Memory.set_other apart).trans there) (Buffer.nextAll_of_toSlice taken)⟩

theorem Argument.enter_other {argument : Argument} (out : a ≠ frame) : (argument.enter frame mem).1 a = mem a := by
  cases argument with
  | bytes | buffer => exact Memory.set_other out
  | slice => rfl

theorem Argument.target_buffer {argument : Argument} (message : argument.contents mem = .ok text)
    (target : a ∈ argument.target?) :
    ∃ b, mem a = some (.buffer b) := by
  cases argument with
  | bytes | slice => cases target
  | buffer =>
    cases target
    obtain ⟨b,held,-⟩ := bind_ok_iff.mp message
    exact ⟨b,Memory.bufferAt_ensures b held⟩

/-- The loop thread's branch gives the message to `SendInLoop` and changes nothing but
the buffer it was passed. -/
theorem Argument.sendHere_spec {argument : Argument} (message : argument.contents mem = .ok text)
    (free : mem frame = none)
    (here : (argument.enter frame mem).2.sendHere (argument.enter frame mem).1 = .ok (given,memory)) :
    given = text ∧ ∀ a, a ≠ frame → a ∉ argument.target? → memory a = mem a := by
  rw [← Captured.run_eq_sendHere] at here
  obtain ⟨mem',reads⟩ := argument.enter_reads message free
  obtain ⟨rfl,rfl⟩ := Prod.mk.inj (Except.ok.inj (here.symm.trans reads.run))
  refine ⟨rfl,fun a out other => ?_⟩
  cases argument with
  | bytes p len =>
    cases reads with
    | slice => exact Memory.set_other out
  | slice message =>
    cases reads with
    | slice => rfl
  | buffer passed =>
    cases reads with
    | @buffer _ target b _ b' param =>
      obtain rfl : passed = target := by simpa [enter] using param
      have apart : a ≠ passed := fun eq => other (by simp [target?,eq])
      exact (Memory.set_other apart).trans (Memory.set_other out)

/-- A `Send` in progress on the sender thread. -/
structure SendCall where
  tag : Nat
  frame : Address
  captured : Captured
  queued : Bool
  deriving DecidableEq, Repr

structure Sender where
  memory : Memory
  status : Status
  call : Option SendCall
  pendingFunctors : List (Nat × Captured)
  /-- History: the message of each call, by the call's tag. -/
  passed : List (List UInt8)
  /-- History: the arguments of `SendInLoop`, with the call they came from. -/
  given : List (Nat × List UInt8)

namespace Sender

def construct : Sender := ⟨fun _ => none,.kConnecting,none,[],[],[]⟩

/-- `Send` on the sender thread, up to the call of `RunInLoop`. -/
def send (argument : Argument) (frame : Address) (s : Sender) : Except Fault Sender := do
  let bytes ← argument.contents s.memory
  if s.status = .kConnected then
    let (memory,captured) := argument.enter frame s.memory
    return { s with
      memory
      call := some ⟨s.passed.length,frame,captured,false⟩
      passed := s.passed ++ [bytes] }
  else
    return s

def sendHere (argument : Argument) (frame : Address) (s : Sender) : Except Fault Sender := do
  let message ← argument.contents s.memory
  if s.status = .kConnected then
    let (memory,captured) := argument.enter frame s.memory
    let (bytes,memory) ← captured.sendHere memory
    return { s with
      memory := memory.set frame none
      passed := s.passed ++ [message]
      given := s.given ++ [(s.passed.length,bytes)] }
  else
    return s

def queueInLoop (s : Sender) : Sender :=
  match s.call with
  | some call => { s with
      call := some { call with queued := true }
      pendingFunctors := s.pendingFunctors ++ [(call.tag,call.captured)] }
  | none => s

def returnSend (s : Sender) : Sender :=
  match s.call with
  | some call => { s with call := none, memory := s.memory.set call.frame none }
  | none => s

def runFunctor (s : Sender) : Except Fault Sender :=
  match s.pendingFunctors with
  | [] => .ok s
  | (tag,captured) :: pendingFunctors => do
    let (bytes,memory) ← captured.run s.memory
    return { s with memory, pendingFunctors, given := s.given ++ [(tag,bytes)] }

inductive Action where
  | send (argument : Argument) (frame : Address)
  | queueInLoop
  | returnSend
  | runFunctor
  | sendHere (argument : Argument) (frame : Address)
  /-- The user's code writes, allocates or frees. -/
  | assign (a : Address) (cell : Option Cell)
  | setStatus (status : Status)

def step (s : Sender) : Action → Except Fault Sender
  | .send argument frame => s.send argument frame
  | .queueInLoop => .ok s.queueInLoop
  | .returnSend => .ok s.returnSend
  | .runFunctor => s.runFunctor
  | .sendHere argument frame => s.sendHere argument frame
  | .assign a cell => .ok { s with memory := s.memory.set a cell }
  | .setStatus status => .ok { s with status }

/-- Nobody changes what a `Send` in progress was passed. -/
def Free (s : Sender) (a : Address) : Prop :=
  ∀ call ∈ s.call, a ≠ call.frame ∧ a ∉ call.captured.reads s.memory

instance (s : Sender) (a : Address) : Decidable (s.Free a) :=
  inferInstanceAs (Decidable (∀ call ∈ s.call, _))

def enabled (s : Sender) : Action → Prop
  | .send argument frame => s.call = none ∧ s.memory frame = none ∧ (argument.contents s.memory).toBool = true
  | .queueInLoop => ∃ call ∈ s.call, call.queued = false
  | .returnSend => ∃ call ∈ s.call, call.queued = true
  | .runFunctor => s.pendingFunctors ≠ []
  | .sendHere argument frame => s.memory frame = none ∧ s.Free frame ∧ (argument.contents s.memory).toBool = true ∧
      ∀ message ∈ argument.target?, s.Free message
  | .assign a _ => s.Free a
  | .setStatus _ => True

instance (s : Sender) : (act : Action) → Decidable (s.enabled act)
  | .send _ _ => inferInstanceAs (Decidable (_ ∧ _ ∧ _))
  | .queueInLoop | .returnSend => inferInstanceAs (Decidable (∃ call ∈ s.call, _))
  | .runFunctor => inferInstanceAs (Decidable (_ ≠ _))
  | .sendHere argument _ => inferInstanceAs (Decidable (_ ∧ _ ∧ _ ∧ ∀ message ∈ argument.target?, _))
  | .assign a _ => inferInstanceAs (Decidable (s.Free a))
  | .setStatus _ => inferInstanceAs (Decidable True)

def machine : Machine Sender Action Fault where
  initial s := s = construct
  enabled := enabled
  step := step

instance (s : Sender) (act : Action) : Decidable (machine.enabled s act) :=
  inferInstanceAs (Decidable (s.enabled act))

/-- The sender waits: what a queued functor is going to read stays as it is. -/
def Waits (s : Sender) : Action → Prop
  | .returnSend => ∀ call ∈ s.call, ∀ e ∈ s.pendingFunctors, call.frame ∉ e.2.reads s.memory
  | .assign a _ => ∀ e ∈ s.pendingFunctors, a ∉ e.2.reads s.memory
  | _ => True

instance (s : Sender) : (act : Action) → Decidable (s.Waits act)
  | .returnSend => inferInstanceAs (Decidable (∀ call ∈ s.call, _))
  | .assign _ _ => inferInstanceAs (Decidable (∀ e ∈ s.pendingFunctors, _))
  | .send _ _ | .queueInLoop | .runFunctor | .sendHere _ _ | .setStatus _ => inferInstanceAs (Decidable True)

inductive Change (s : Sender) : Action → Sender → Prop where
  | ignored (refused : s.status ≠ .kConnected) : Change s act s
  | send (message : argument.contents s.memory = .ok text) :
      Change s (.send argument frame) { s with
        memory := (argument.enter frame s.memory).1
        call := some ⟨s.passed.length,frame,(argument.enter frame s.memory).2,false⟩
        passed := s.passed ++ [text] }
  | queueInLoop (call : SendCall) (calling : s.call = some call) :
      Change s .queueInLoop { s with
        call := some { call with queued := true }
        pendingFunctors := s.pendingFunctors ++ [(call.tag,call.captured)] }
  | returnSend (call : SendCall) (calling : s.call = some call) :
      Change s .returnSend { s with call := none, memory := s.memory.set call.frame none }
  | runFunctor (queue : s.pendingFunctors = (tag,captured) :: rest) (reads : captured.Reads s.memory bytes later) :
      Change s .runFunctor { s with memory := later, pendingFunctors := rest, given := s.given ++ [(tag,bytes)] }
  | sendHere (message : argument.contents s.memory = .ok text)
      (here : (argument.enter frame s.memory).2.sendHere (argument.enter frame s.memory).1 = .ok (bytes,later)) :
      Change s (.sendHere argument frame) { s with
        memory := later.set frame none
        passed := s.passed ++ [text]
        given := s.given ++ [(s.passed.length,bytes)] }
  | assign : Change s (.assign a cell) { s with memory := s.memory.set a cell }
  | setStatus (status : Status) : Change s (.setStatus status) { s with status }

theorem step_change (s : Sender) (act : Action) (enabled : s.enabled act) : Ensures (Change s act) (s.step act) := by
  have taken {α : Type} (r : Except Fault α) : Ensures (fun a => r = .ok a) r := fun _ done => done
  cases act with
  | send argument frame =>
    refine (taken _).bind fun text message => ?_
    split
    · exact .ok (.send message)
    · exact .ok (.ignored ‹_›)
  | queueInLoop =>
    obtain ⟨call,calling,-⟩ := enabled
    simp only [step,queueInLoop,Option.mem_def.mp calling]
    exact .ok (.queueInLoop call calling)
  | returnSend =>
    obtain ⟨call,calling,-⟩ := enabled
    simp only [step,returnSend,Option.mem_def.mp calling]
    exact .ok (.returnSend call calling)
  | runFunctor =>
    simp only [step,runFunctor]
    split
    · exact absurd ‹_› enabled
    · exact (Captured.run_reads _ _).bind fun r reads => .ok (.runFunctor ‹_› reads)
  | sendHere argument frame =>
    refine (taken _).bind fun text message => ?_
    split
    · exact (taken _).bind fun r here => .ok (.sendHere message here)
    · exact .ok (.ignored ‹_›)
  | assign a cell => exact .ok .assign
  | setStatus status => exact .ok (.setStatus status)

/-- A functor that, run now, gives the message of its call. -/
def Delivers (mem : Memory) (messages : List (List UInt8)) (tag : Nat) (captured : Captured) : Prop :=
  ∃ bytes mem', captured.Reads mem bytes mem' ∧ messages[tag]? = some bytes

theorem message_append {tag : Nat} {messages : List (List UInt8)}
    (there : messages[tag]? = some bytes) (more : List (List UInt8)) :
    (messages ++ more)[tag]? = some bytes := by
  rw [List.getElem?_append_left (List.getElem?_eq_some_iff.mp there).1]
  exact there

theorem Delivers.frame (delivers : Delivers mem messages tag captured)
    (same : ∀ a ∈ captured.reads mem, later a = mem a)
    (more : List (List UInt8)) : Delivers later (messages ++ more) tag captured := by
  obtain ⟨bytes,mem',reads,there⟩ := delivers
  obtain ⟨mem'',reads⟩ := reads.frame same
  exact ⟨bytes,mem'',reads,message_append there more⟩

theorem Delivers.live (delivers : Delivers mem messages tag captured) (free : mem a = none) :
    a ∉ captured.reads mem := by
  obtain ⟨bytes,mem',reads,-⟩ := delivers
  exact reads.live free

theorem Delivers.set (delivers : Delivers mem messages tag captured) (out : a ∉ captured.reads mem)
    (cell : Option Cell) :
    Delivers (mem.set a cell) messages tag captured := by
  obtain ⟨bytes,mem',reads,there⟩ := delivers
  obtain ⟨mem'',reads⟩ := reads.set out cell
  exact ⟨bytes,mem'',reads,there⟩

/-- Another functor changes a buffer at most, which only a functor with a buffer sees. -/
theorem Delivers.run {captured : Captured} (delivers : Delivers mem messages tag other)
    (reads : captured.Reads mem bytes later)
    (apart : captured.isBuffer = true → other.isBuffer = false) : Delivers later messages tag other := by
  cases reads with
  | slice => exact delivers
  | buffer param there taken =>
    obtain ⟨text,mem',own,-⟩ := id delivers
    exact delivers.set (own.not_buffer (apart rfl) there) _

structure Faithful (s : Sender) : Prop where
  pending : ∀ e ∈ s.pendingFunctors, Delivers s.memory s.passed e.1 e.2
  calling : ∀ call ∈ s.call, call.queued = false → Delivers s.memory s.passed call.tag call.captured
  given : ∀ e ∈ s.given, s.passed[e.1]? = some e.2
  /-- A queued functor with a buffer belongs to the call in progress, and is the only one. -/
  buffers : ∀ e ∈ s.pendingFunctors, e.2.isBuffer = true → ∃ call ∈ s.call, call.queued = true ∧ e.2 = call.captured
  framed : ∀ call ∈ s.call, call.captured.isBuffer = true → call.captured = .buffer call.frame
  single : s.pendingFunctors.Pairwise fun e f => e.2.isBuffer = true → f.2.isBuffer = false

variable {s s' : Sender}

/-- Without a call in progress only functors with a `Slice` are queued. -/
theorem Faithful.slices (faithful : s.Faithful) (none : s.call = none) (member : e ∈ s.pendingFunctors) :
    e.2.isBuffer = false := by
  by_contra buffer
  obtain ⟨call,calling,-⟩ := faithful.buffers e member (by simpa using buffer)
  simp [none] at calling

theorem Faithful.send {argument : Argument} (faithful : s.Faithful) (idle : s.call = none)
    (free : s.memory frame = none)
    (message : argument.contents s.memory = .ok text) : Faithful { s with
      memory := (argument.enter frame s.memory).1
      call := some ⟨s.passed.length,frame,(argument.enter frame s.memory).2,false⟩
      passed := s.passed ++ [text] } where
  pending e member := by
    have out := (faithful.pending e member).live free
    exact (faithful.pending e member).frame (fun a inside => Argument.enter_other (ne_of_mem_of_not_mem inside out)) _
  calling call there unqueued := by
    cases Option.mem_def.mp there
    obtain ⟨mem',reads⟩ := argument.enter_reads message free
    exact ⟨text,mem',reads,by simp⟩
  given e member := message_append (faithful.given e member) _
  buffers e member buffer := by simp [faithful.slices idle member] at buffer
  framed call there buffer := by
    cases Option.mem_def.mp there
    cases argument with
    | bytes | slice => cases buffer
    | buffer => rfl
  single := faithful.single

theorem Faithful.queueInLoop {call : SendCall} (faithful : s.Faithful)
    (calling : s.call = some call) (unqueued : call.queued = false) :
    Faithful { s with
      call := some { call with queued := true }
      pendingFunctors := s.pendingFunctors ++ [(call.tag,call.captured)] } := by
  -- the call in progress owns every queued buffer, and it has queued nothing yet
  have slices : ∀ e ∈ s.pendingFunctors, e.2.isBuffer = false := by
    intro e member
    by_contra buffer
    obtain ⟨other,there,queued,-⟩ := faithful.buffers e member (by simpa using buffer)
    rw [calling] at there
    cases Option.mem_def.mp there
    simp [unqueued] at queued
  constructor
  · intro e member
    rcases List.mem_append.mp member with old | new
    · exact faithful.pending e old
    · cases List.mem_singleton.mp new
      exact faithful.calling call calling unqueued
  · intro other there again
    cases Option.mem_def.mp there
    cases again
  · exact faithful.given
  · intro e member buffer
    rcases List.mem_append.mp member with old | new
    · simp [slices e old] at buffer
    · cases List.mem_singleton.mp new
      exact ⟨_,rfl,rfl,rfl⟩
  · intro other there buffer
    cases Option.mem_def.mp there
    exact faithful.framed call calling buffer
  · refine List.pairwise_append.mpr ⟨faithful.single,List.pairwise_singleton _ _,fun e member f _ buffer => ?_⟩
    simp [slices e member] at buffer

theorem Faithful.returnSend {call : SendCall} (faithful : s.Faithful) (calling : s.call = some call)
    (waits : ∀ e ∈ s.pendingFunctors, call.frame ∉ e.2.reads s.memory) :
    Faithful { s with call := none, memory := s.memory.set call.frame none } where
  pending e member := (faithful.pending e member).set (waits e member) none
  calling other there := by simp at there
  given := faithful.given
  buffers e member buffer := by
    obtain ⟨other,there,-,eq⟩ := faithful.buffers e member buffer
    cases Option.some.inj (calling.symm.trans there)
    have framed := faithful.framed call calling (eq ▸ buffer)
    refine absurd ?_ (waits e member)
    simp [eq,framed,Captured.reads]
  framed other there := by simp at there
  single := faithful.single

theorem Faithful.assign (faithful : s.Faithful) (free : s.Free a)
    (waits : ∀ e ∈ s.pendingFunctors, a ∉ e.2.reads s.memory) (cell : Option Cell) :
    Faithful { s with memory := s.memory.set a cell } where
  pending e member := (faithful.pending e member).set (waits e member) cell
  calling call there unqueued := (faithful.calling call there unqueued).set (free call there).2 cell
  given := faithful.given
  buffers := faithful.buffers
  framed := faithful.framed
  single := faithful.single

theorem Faithful.runFunctor (faithful : s.Faithful) (queue : s.pendingFunctors = (tag,captured) :: rest)
    (reads : captured.Reads s.memory bytes later) :
    Faithful { s with memory := later, pendingFunctors := rest, given := s.given ++ [(tag,bytes)] } := by
  have behind : ∀ e ∈ rest, e ∈ s.pendingFunctors := fun e member => queue ▸ List.mem_cons_of_mem _ member
  obtain ⟨alone,single⟩ := List.pairwise_cons.mp (queue ▸ faithful.single)
  constructor
  · exact fun e member => (faithful.pending e (behind e member)).run reads (alone e member)
  · intro call there unqueued
    refine (faithful.calling call there unqueued).run reads fun buffer => ?_
    -- a queued buffer is that of the call in progress, which has queued nothing yet
    obtain ⟨other,calling,queued,-⟩ := faithful.buffers (tag,captured) (by simp [queue]) buffer
    cases Option.some.inj (Option.mem_def.mp calling ▸ Option.mem_def.mp there : some other = some call)
    simp [unqueued] at queued
  · intro e member
    rcases List.mem_append.mp member with old | new
    · exact faithful.given e old
    · cases List.mem_singleton.mp new
      obtain ⟨text,mem',own,there⟩ := faithful.pending (tag,captured) (by simp [queue])
      obtain ⟨rfl,-⟩ := Prod.mk.inj (Except.ok.inj (own.run.symm.trans reads.run))
      exact there
  · exact fun e member => faithful.buffers e (behind e member)
  · exact faithful.framed
  · exact single

theorem Faithful.sendHere {argument : Argument} (faithful : s.Faithful) (free : s.memory frame = none)
    (owned : ∀ a ∈ argument.target?, s.Free a) (message : argument.contents s.memory = .ok text)
    (here : (argument.enter frame s.memory).2.sendHere (argument.enter frame s.memory).1 = .ok (bytes,later)) :
    Faithful { s with
      memory := later.set frame none
      passed := s.passed ++ [text]
      given := s.given ++ [(s.passed.length,bytes)] } := by
  obtain ⟨rfl,rest⟩ := argument.sendHere_spec message free here
  have undisturbed : ∀ tag captured, Delivers s.memory s.passed tag captured →
      (∀ a ∈ argument.target?, a ∉ captured.reads s.memory) →
      Delivers (later.set frame none) (s.passed ++ [bytes]) tag captured := by
    intro tag captured delivers clear
    refine delivers.frame (fun a inside => ?_) _
    have out : a ≠ frame := ne_of_mem_of_not_mem inside (delivers.live free)
    exact (Memory.set_other out).trans (rest a out fun target => clear a target inside)
  constructor
  · intro e member
    refine undisturbed e.1 e.2 (faithful.pending e member) fun a target => ?_
    cases buffer : e.2.isBuffer with
    | false =>
      obtain ⟨b,held⟩ := argument.target_buffer message target
      obtain ⟨_,_,reads,-⟩ := faithful.pending e member
      exact reads.not_buffer buffer held
    | true =>
      obtain ⟨call,there,-,eq⟩ := faithful.buffers e member buffer
      exact eq ▸ (owned a target call there).2
  · exact fun call there unqueued => undisturbed call.tag call.captured (faithful.calling call there unqueued)
      fun a target => (owned a target call there).2
  · intro e member
    rcases List.mem_append.mp member with old | new
    · exact message_append (faithful.given e old) _
    · cases List.mem_singleton.mp new
      simp
  · exact faithful.buffers
  · exact faithful.framed
  · exact faithful.single

theorem Faithful.change (faithful : s.Faithful) (enabled : s.enabled act)
    (waits : s.Waits act) (change : Change s act s') :
    s'.Faithful := by
  cases change with
  | ignored => exact faithful
  | send message => exact faithful.send enabled.1 enabled.2.1 message
  | queueInLoop call calling =>
    obtain ⟨other,there,unqueued⟩ := enabled
    cases Option.some.inj (calling.symm.trans there)
    exact faithful.queueInLoop calling unqueued
  | returnSend call calling => exact faithful.returnSend calling (waits call calling)
  | runFunctor queue reads => exact faithful.runFunctor queue reads
  | sendHere message here => exact faithful.sendHere enabled.1 enabled.2.2.2 message here
  | assign => exact faithful.assign enabled waits _
  | setStatus status =>
    exact ⟨faithful.pending,faithful.calling,faithful.given,faithful.buffers,faithful.framed,faithful.single⟩

theorem reachable_faithful (reachable : (machine.restrict Waits).Reachable s) : s.Faithful := by
  refine Machine.Reachable.invariant (m := machine.restrict Waits) (fun s first => ?_)
    (fun s act s' faithful enabled stepped =>
    faithful.change enabled.1 enabled.2 (step_change s act enabled.1 s' stepped)) reachable
  cases first
  constructor <;> simp [construct]

/-- When what a queued functor is going to read stays as it is until it has run, every
call of `SendInLoop` is given the message of its `Send`, every queued functor is about
to give it, and both are what the loop thread's own branch would have sent. -/
theorem send_gives_message (reachable : (machine.restrict Waits).Reachable s) :
    (∀ e ∈ s.given, s.passed[e.1]? = some e.2) ∧
    (∀ e ∈ s.pendingFunctors, ∃ bytes memory, e.2.run s.memory = .ok (bytes,memory) ∧ s.passed[e.1]? = some bytes) ∧
    ∀ (argument : Argument) frame text, argument.contents s.memory = .ok text → s.memory frame = none →
      ∃ memory, (argument.enter frame s.memory).2.sendHere (argument.enter frame s.memory).1 = .ok (text,memory) := by
  have faithful := reachable_faithful reachable
  refine ⟨faithful.given,fun e member => ?_,fun argument frame text message free => ?_⟩
  · obtain ⟨bytes,memory,reads,there⟩ := faithful.pending e member
    exact ⟨bytes,memory,reads.run,there⟩
  · obtain ⟨memory,reads⟩ := argument.enter_reads message free
    exact ⟨memory,(Captured.run_eq_sendHere _ _).symm.trans reads.run⟩

/-- Bytes sent and delivered before `Send` returns, then a `Slice` that outlives its call. -/
theorem send_gives_message_both :
    let s := [.setStatus .kConnected,.assign 1 (some (.bytes [7,8,9])),.send (.bytes ⟨1,1⟩ 2) 100,.queueInLoop,
      .runFunctor,.returnSend,.assign 2 (some (.slice ⟨⟨1,0⟩,3⟩)),.send (.slice 2) 100,.queueInLoop,
      .returnSend].foldl machine.advance construct
    (machine.restrict Waits).Reachable s ∧ s.given = [(0,[8,9])] ∧ s.pendingFunctors = [(1,.slice 2)] ∧
      s.passed[0]? = some [8,9] ∧
      ∃ bytes memory, (Captured.slice 2).run s.memory = .ok (bytes,memory) ∧ s.passed[1]? = some bytes := by
  intro s
  have start : (machine.restrict Waits).Reachable construct := .initial rfl
  have reachable : (machine.restrict Waits).Reachable s := start.follow [.setStatus .kConnected,
    .assign 1 (some (.bytes [7,8,9])),.send (.bytes ⟨1,1⟩ 2) 100,.queueInLoop,.runFunctor,.returnSend,
    .assign 2 (some (.slice ⟨⟨1,0⟩,3⟩)),.send (.slice 2) 100,.queueInLoop,.returnSend] (by decide +kernel)
  have given : s.given = [(0,[8,9])] := by decide +kernel
  have pending : s.pendingFunctors = [(1,.slice 2)] := by decide +kernel
  clear_value s
  obtain ⟨messages,functors,-⟩ := send_gives_message reachable
  exact ⟨reachable,given,pending,messages (0,[8,9]) (by simp [given]),functors (1,.slice 2) (by simp [pending])⟩

/-- After `Send` has returned the address of its temporary holds another `Slice`, the
storage of the message other bytes, the address of its parameter another `Buffer*`:
for each overload `SendInLoop` is given what was never passed. -/
theorem send_gives_other_bytes :
    let passed : Buffer := ⟨[1,2],2,0,2,0⟩
    let other : Buffer := ⟨[3,4],2,0,2,0⟩
    let bytes := [.setStatus .kConnected,.assign 1 (some (.bytes [1,2,3,4])),.send (.bytes ⟨1,0⟩ 2) 100,.queueInLoop,
      .returnSend,.assign 100 (some (.slice ⟨⟨1,2⟩,2⟩)),.runFunctor].foldl machine.advance construct
    let slice := [.setStatus .kConnected,.assign 1 (some (.bytes [1,2])),.assign 2 (some (.slice ⟨⟨1,0⟩,2⟩)),
      .send (.slice 2) 100,.queueInLoop,.returnSend,.assign 1 (some (.bytes [3,4])),.runFunctor].foldl
      machine.advance construct
    let buffer := [.setStatus .kConnected,.assign 1 (some (.buffer passed)),.assign 2 (some (.buffer other)),
      .send (.buffer 1) 100,.queueInLoop,.returnSend,.assign 100 (some (.pointer 2)),.runFunctor].foldl
      machine.advance construct
    (machine.Reachable bytes ∧ bytes.passed = [[1,2]] ∧ bytes.given = [(0,[3,4])]) ∧
    (machine.Reachable slice ∧ slice.passed = [[1,2]] ∧ slice.given = [(0,[3,4])]) ∧
    (machine.Reachable buffer ∧ buffer.passed = [[1,2]] ∧ buffer.given = [(0,[3,4])]) := by
  intro passed other bytes slice buffer
  have first : machine.Reachable bytes := Machine.Reachable.follow (.initial rfl) _ (by decide +kernel)
  have second : machine.Reachable slice := Machine.Reachable.follow (.initial rfl) _ (by decide +kernel)
  have third : machine.Reachable buffer := Machine.Reachable.follow (.initial rfl) _ (by decide +kernel)
  exact ⟨⟨first,by decide +kernel,by decide +kernel⟩,⟨second,by decide +kernel,by decide +kernel⟩,
    third,by decide +kernel,by decide +kernel⟩

end Sender
end Evk
