import Evk.BufferInvariant
import Evk.Machine

/-! Input stream integrity. `ReadFromFD` leaves what `readv` delivers behind the contents,
whether it fits the writable part, fits after a move or needs a larger allocation. A
consumer that reads and skips sees the stream as it was sent. -/
namespace Evk.Buffer

/-- `ReadFromFD` with its result and `*savedErrno`, where `none` is the value it came in with. -/
def readFromFDSaving (b : Buffer) (alloc : Allocator) (r : ReadResult) (savedErrno : Option Errno) :
    Except Fault (Int × Option Errno × Buffer) := do
  let b' ← b.readFromFD alloc r
  match r with
  | .bytes data => return (data.length,savedErrno,b')
  | .failed errno => return (-1,some errno,b')

variable {b : Buffer}

/-- A call of `readv` that succeeds: its bytes go behind the contents, unless they need an
allocation that is turned down. -/
theorem Small.readFromFDSaving_bytes (small : b.Small) (alloc : Allocator) (savedErrno : Option Errno)
    (data : List UInt8) (room : data.length ≤ readLimit (b.capacity - b.writeIndex)) :
    (Unserved { b with writeIndex := b.capacity } alloc (data.length - (b.capacity - b.writeIndex)) ∧
      b.readFromFDSaving alloc (.bytes data) savedErrno = .error .badAlloc) ∨
    ∃ b', b.readFromFDSaving alloc (.bytes data) savedErrno = .ok (data.length,savedErrno,b') ∧ b'.Small ∧
      b'.readable = b.readable ++ data := by
  rcases small.readFromFD_spec alloc (.bytes data) room with ⟨unserved,refused⟩ | ⟨b',done,small',contents⟩
  · exact .inl ⟨unserved,by simp [readFromFDSaving,refused]⟩
  · exact .inr ⟨b',by simp [readFromFDSaving,done],small',contents⟩

theorem readFromFD_of_saving (done : b.readFromFDSaving alloc r savedErrno = .ok (n,errno,b')) :
    b.readFromFD alloc r = .ok b' := by
  obtain ⟨c,read,returned⟩ := bind_ok_iff.mp done
  cases r <;> cases returned <;> exact read

theorem Valid.readFromFDSaving_failed (valid : b.Valid) (alloc : Allocator) (savedErrno : Option Errno)
    (errno : Errno) : b.readFromFDSaving alloc (.failed errno) savedErrno = .ok (-1,some errno,b) := by
  simp [readFromFDSaving,readFromFD,writableBytes_eq valid]

end Evk.Buffer

namespace Evk

/-- A consumer with its buffer, what the kernel has yet to deliver to it, and what it has
seen and skipped. -/
structure Reader where
  buffer : Buffer
  stream : List UInt8
  seen : List UInt8

namespace Reader

inductive Action where
  | readFromFD (alloc : Allocator) (r : ReadResult)
  | skip (len : Nat)

def step (s : Reader) : Action → Except Fault Reader
  | .readFromFD alloc r => do
    let (_,_,buffer) ← s.buffer.readFromFDSaving alloc r none
    return { s with buffer, stream := s.stream.drop r.delivered.length }
  | .skip len => do
    let data ← s.buffer.toSlice
    return { s with buffer := ← s.buffer.skip len, seen := s.seen ++ data.take len }

/-- The kernel delivers the next bytes of the stream, as many as the iovecs take at most. -/
def Allowed (s : Reader) : Action → Prop
  | .readFromFD _ r => r.Legal (Buffer.readLimit (s.buffer.capacity - s.buffer.writeIndex)) ∧ r.delivered <+: s.stream
  | .skip _ => True

instance (s : Reader) : (action : Action) → Decidable (s.Allowed action)
  | .readFromFD _ _ => inferInstanceAs (Decidable (_ ∧ _))
  | .skip _ => inferInstanceAs (Decidable True)

def machine (b : Buffer) (stream : List UInt8) : Machine Reader Action Fault where
  initial s := s = ⟨b,stream,[]⟩
  enabled := Allowed
  step := step

instance (b : Buffer) (bytes : List UInt8) (s : Reader) (action : Action) :
    Decidable ((machine b bytes).enabled s action) :=
  inferInstanceAs (Decidable (s.Allowed action))

variable {b : Buffer} {bytes : List UInt8}

/-- Nothing is lost, doubled or out of order. -/
structure Intact (total : List UInt8) (s : Reader) : Prop where
  small : s.buffer.Small
  order : s.seen ++ s.buffer.readable ++ s.stream = total

theorem Intact.step {s t : Reader} (intact : s.Intact total) (allowed : s.Allowed action)
    (stepped : s.step action = .ok t) : t.Intact total := by
  obtain ⟨small,order⟩ := intact
  cases action with
  | readFromFD alloc r =>
    obtain ⟨legal,rest,next⟩ := allowed
    obtain ⟨⟨n,errno,b⟩,read,⟨⟩⟩ := bind_ok_iff.mp stepped
    have read := Buffer.readFromFD_of_saving read
    rcases small.readFromFD_spec alloc r legal with ⟨-,refused⟩ | ⟨b',done,small',contents⟩
    · cases refused.symm.trans read
    · cases done.symm.trans read
      refine ⟨small',?_⟩
      rw [contents,← order,← next,List.drop_left]
      simp
  | skip len =>
    obtain ⟨b,skipped,small',contents⟩ := small.skip_spec len
    simp only [Reader.step,Buffer.toSlice_eq small.valid,skipped,ok_bind] at stepped
    cases stepped
    refine ⟨small',?_⟩
    rw [contents,List.append_assoc s.seen,List.take_append_drop]
    exact order

theorem reachable_intact (small : b.Small) {s : Reader} (reachable : (machine b bytes).Reachable s) :
    s.Intact (b.readable ++ bytes) := by
  induction reachable with
  | initial first => exact first ▸ ⟨small,rfl⟩
  | step _ allowed stepped intact => exact intact.step allowed stepped

/-- A successful read appends what it was given and returns its length; a failed one only
saves the error. Over any reads and skips, what the consumer has seen, followed by the
contents and by what is still to come, is the stream. -/
theorem readFromFD_loses_nothing (small : b.Small) :
    (∀ alloc savedErrno (data : List UInt8), data.length ≤ Buffer.readLimit (b.capacity - b.writeIndex) →
      (Buffer.Unserved { b with writeIndex := b.capacity } alloc (data.length - (b.capacity - b.writeIndex)) ∧
        b.readFromFDSaving alloc (.bytes data) savedErrno = .error .badAlloc) ∨
      ∃ b', b.readFromFDSaving alloc (.bytes data) savedErrno = .ok (data.length,savedErrno,b') ∧ b'.Small ∧
        b'.readable = b.readable ++ data) ∧
    (∀ alloc savedErrno errno,
      b.readFromFDSaving alloc (.failed errno) savedErrno = .ok (-1,some errno,b)) ∧
    (∀ bytes s, (machine b bytes).Reachable s → s.buffer.Small ∧
      s.seen ++ s.buffer.readable ++ s.stream = b.readable ++ bytes) := by
  refine ⟨small.readFromFDSaving_bytes,small.valid.readFromFDSaving_failed,fun bytes s reachable => ?_⟩
  obtain ⟨small',order⟩ := reachable_intact small reachable
  exact ⟨small',order⟩

/-- Reads that fit, fit after a move and need a larger allocation, with skips and a failure
between them. -/
theorem readFromFD_loses_nothing_growing :
    let b : Buffer := ⟨List.replicate 8 0,8,2,2,2⟩
    ∃ s, (machine b [1,2,3,4,5,6,7,8,9,10,11,12,13,14]).Reachable s ∧ s.seen = [1,2,3,4] ∧ s.stream = [13,14] ∧
      s.buffer.readable = [5,6,7,8,9,10,11,12] := by
  intro b
  let bytes : List UInt8 := [1,2,3,4,5,6,7,8,9,10,11,12,13,14]
  let alloc := Allocator.zeroed 1024 (by decide)
  let schedule : List Action := [.readFromFD alloc (.bytes [1,2,3,4,5]),.skip 4,
    .readFromFD alloc (.bytes [6,7,8]),.readFromFD alloc (.failed .EAGAIN),
    .readFromFD alloc (.bytes [9,10,11,12])]
  have small : b.Small := ⟨⟨rfl,by decide,by decide,by decide,by decide⟩,by decide⟩
  have reachable : (machine b bytes).Reachable (schedule.foldl (machine b bytes).advance ⟨b,bytes,[]⟩) :=
    Machine.Reachable.follow (m := machine b bytes) (.initial rfl) schedule (by decide +kernel)
  have rest : (schedule.foldl (machine b bytes).advance ⟨b,bytes,[]⟩).seen = [1,2,3,4] ∧
      (schedule.foldl (machine b bytes).advance ⟨b,bytes,[]⟩).stream = [13,14] := by decide +kernel
  generalize schedule.foldl (machine b bytes).advance ⟨b,bytes,[]⟩ = s at reachable rest
  obtain ⟨seen,left⟩ := rest
  obtain ⟨-,order⟩ := (readFromFD_loses_nothing small).2.2 bytes s reachable
  have order : [1,2,3,4] ++ (s.buffer.readable ++ [13,14]) = [1,2,3,4] ++ ([5,6,7,8,9,10,11,12] ++ [13,14]) := by
    rw [seen,left,List.append_assoc] at order
    exact order.trans (by decide)
  exact ⟨s,reachable,seen,left,List.append_cancel_right (List.append_cancel_left order)⟩

end Reader
end Evk
