import Evk.BufferQueue
import Evk.TypedIntegers

/-! The room in front of the contents. Whatever is done to a buffer but writing there
itself, the read index stays behind the reserve of the buffer. `Shrink` is the one
operation that changes the reserve, to the default one. -/
namespace Evk.Buffer

open Region

/-- Both indices are inside the storage and the read index is behind a reserve of at
least `r` bytes. The indices may have crossed. -/
structure Placed (r : Nat) (b : Buffer) : Prop where
  storage : b.storage.length = b.capacity
  word : b.capacity < 2^64
  inside : b.readIndex ≤ b.capacity
  bounded : b.writeIndex ≤ b.capacity
  kept : r ≤ b.reservedPrependSize
  front : b.reservedPrependSize ≤ b.readIndex

variable {b b' : Buffer} {order : ByteOrder} {r : Nat}

theorem Placed.valid (placed : b.Placed r) (ordered : b.readIndex ≤ b.writeIndex) : b.Valid :=
  ⟨placed.storage,placed.word,placed.front.trans placed.inside,ordered,placed.bounded⟩

theorem copyOut_returned (done : copyOut mem start count = .ok data) :
    start + count ≤ mem.length ∧ data = slice mem start count := by
  simp only [copyOut,bind_ok_iff] at done
  obtain ⟨_,inside,taken⟩ := done
  cases taken
  exact ⟨check_ok_iff.mp inside,rfl⟩

theorem length_returned (done : b.length = .ok n) : b.readIndex ≤ b.writeIndex ∧ n = b.writeIndex - b.readIndex := by
  simp only [length,bind_ok_iff] at done
  obtain ⟨_,ordered,size⟩ := done
  cases size
  exact ⟨assert_ok_iff.mp ordered,rfl⟩

theorem writableBytes_returned (done : b.writableBytes = .ok n) : n = b.capacity - b.writeIndex := by
  simp only [writableBytes,bind_ok_iff] at done
  obtain ⟨_,_,⟨⟩⟩ := done
  rfl

theorem Placed.advance (placed : b.Placed r) (enough : b.readIndex + n ≤ b.writeIndex) :
    Placed r { b with readIndex := sizeAdd b.readIndex n } := by
  obtain ⟨storage,word,inside,bounded,kept,front⟩ := placed
  rw [sizeAdd_of_lt (by omega)]
  exact ⟨storage,word,by simp only; omega,bounded,kept,by simp only; omega⟩

theorem Placed.setWriteIndex (placed : b.Placed r) (bounded : n ≤ b.capacity) : Placed r { b with writeIndex := n } :=
  ⟨placed.storage,placed.word,placed.inside,bounded,placed.kept,placed.front⟩

theorem Placed.store (placed : b.Placed r) (stored : copyIn b.storage b.writeIndex d = .ok mem)
    (bounded : n ≤ b.capacity) :
    Placed r { b with storage := mem, writeIndex := n } := by
  obtain ⟨inside,rfl⟩ := copyIn_returned stored
  exact ⟨by simp only [length_store _ _ _ inside,placed.storage],placed.word,placed.inside,
    bounded,placed.kept,placed.front⟩

theorem Placed.storeBehind (placed : b.Placed r) (stored : copyIn b.storage b.writeIndex d = .ok mem) :
    Placed r { b with storage := mem, writeIndex := sizeAdd b.writeIndex d.length } := by
  apply placed.store stored
  have inside := (copyIn_returned stored).1
  have sum := sizeAdd_le b.writeIndex d.length
  rw [placed.storage] at inside
  omega

theorem Placed.truncate (placed : b.Placed r) (n : Nat) : (b.truncate n).Placed r := by
  obtain ⟨storage,word,inside,bounded,kept,front⟩ := placed
  unfold Buffer.truncate
  split
  · exact ⟨storage,word,by simp only; omega,by simp only; omega,kept,Nat.le_refl _⟩
  · split
    · exact ⟨storage,word,inside,by simp only; omega,kept,front⟩
    · exact ⟨storage,word,inside,bounded,kept,front⟩

theorem Placed.reset (placed : b.Placed r) : b.reset.Placed r := placed.truncate 0

theorem Placed.skip (placed : b.Placed r) (done : b.skip n = .ok b') : b'.Placed r := by
  simp only [Buffer.skip,bind_ok_iff] at done
  obtain ⟨size,measured,done⟩ := done
  obtain ⟨ordered,rfl⟩ := length_returned measured
  split at done <;> cases done
  · exact placed.advance (by omega)
  · exact placed.reset

theorem Placed.nextAll (placed : b.Placed r) (done : b.nextAll = .ok (l,b')) : b'.Placed r := by
  simp only [Buffer.nextAll,bind_ok_iff] at done
  obtain ⟨_,_,_,_,⟨⟩⟩ := done
  exact placed.reset

theorem Placed.next (placed : b.Placed r) (done : b.next n = .ok (l,b')) : b'.Placed r := by
  simp only [Buffer.next,bind_ok_iff] at done
  obtain ⟨size,measured,done⟩ := done
  obtain ⟨ordered,rfl⟩ := length_returned measured
  split at done
  · simp only [bind_ok_iff] at done
    obtain ⟨_,_,⟨⟩⟩ := done
    exact placed.advance (by omega)
  · exact placed.nextAll done

theorem Placed.readByte (placed : b.Placed r) (done : b.readByte = .ok (byte,b')) : b'.Placed r := by
  simp only [Buffer.readByte,bind_ok_iff] at done
  obtain ⟨size,measured,_,some,_,_,done⟩ := done
  obtain ⟨ordered,rfl⟩ := length_returned measured
  have some : 1 ≤ b.writeIndex - b.readIndex := assert_ok_iff.mp some
  split at done
  · cases done
    exact placed
  · split at done <;> cases done
    exact placed.advance (by omega)

theorem Placed.unwriteBytes (placed : b.Placed r) (done : b.unwriteBytes n = .ok b') : b'.Placed r := by
  simp only [Buffer.unwriteBytes,bind_ok_iff] at done
  obtain ⟨_,_,_,_,⟨⟩⟩ := done
  have bounded := placed.bounded
  exact placed.setWriteIndex (by omega)

theorem Placed.writeBytes (placed : b.Placed r) (done : b.writeBytes n = .ok b') : b'.Placed r := by
  simp only [Buffer.writeBytes,bind_ok_iff] at done
  obtain ⟨room,measured,_,enough,⟨⟩⟩ := done
  cases writableBytes_returned measured
  have enough : n ≤ b.capacity - b.writeIndex := assert_ok_iff.mp enough
  have sum := sizeAdd_le b.writeIndex n
  have bounded := placed.bounded
  exact placed.setWriteIndex (by omega)

/-- Both branches of `grow` lay the contents down at the reserve. -/
theorem Placed.laid (kept : r ≤ reserved) (sized : d.length = n) (word : n < 2^64)
    (stored : copyIn d reserved data = .ok d') (written : w ≤ reserved + data.length) :
    Placed r ⟨d',n,reserved,w,reserved⟩ := by
  obtain ⟨inside,rfl⟩ := copyIn_returned stored
  subst sized
  exact ⟨by simp only [length_store _ _ _ inside],word,by simp only; omega,by simp only; omega,kept,Nat.le_refl _⟩

theorem Placed.grow (placed : b.Placed r) (done : b.grow alloc len = .ok b') : b'.Placed r := by
  simp only [Buffer.grow,bind_ok_iff] at done
  obtain ⟨_,-,done⟩ := done
  split at done
  · simp only [bind_ok_iff] at done
    obtain ⟨m,-,d,allocated,data,copied,d',stored,⟨⟩⟩ := done
    obtain ⟨sized,served⟩ := allocate_returned allocated
    obtain ⟨inside,rfl⟩ := copyOut_returned copied
    apply Placed.laid placed.kept sized (by omega) stored
    rw [length_slice _ _ _ inside,Nat.add_comm]
    exact sizeAdd_le _ _
  · simp only [bind_ok_iff] at done
    obtain ⟨_,-,m,-,data,copied,moved,stored,_,-,_,-,_,-,_,-,⟨⟩⟩ := done
    obtain ⟨inside,rfl⟩ := copyOut_returned copied
    apply Placed.laid placed.kept placed.storage placed.word stored
    rw [length_slice _ _ _ inside]
    exact sizeAdd_le _ _

theorem Placed.reserve (placed : b.Placed r) (done : b.reserve alloc len = .ok b') : b'.Placed r := by
  rw [Buffer.reserve] at done
  split at done
  · cases done
    exact placed
  · exact placed.grow done

theorem Placed.ensureWritableBytes (placed : b.Placed r) (done : b.ensureWritableBytes alloc len = .ok b') :
    b'.Placed r := by
  simp only [Buffer.ensureWritableBytes,bind_ok_iff] at done
  obtain ⟨_,-,done⟩ := done
  split at done <;> simp only [bind_ok_iff] at done
  · obtain ⟨c,grown,_,-,_,-,⟨⟩⟩ := done
    exact placed.grow grown
  · obtain ⟨c,⟨⟩,_,-,_,-,⟨⟩⟩ := done
    exact placed

theorem Placed.write (placed : b.Placed r) (done : b.write alloc d = .ok b') : b'.Placed r := by
  simp only [Buffer.write,bind_ok_iff] at done
  obtain ⟨c,grown,mem,stored,_,-,⟨⟩⟩ := done
  exact (placed.ensureWritableBytes grown).storeBehind stored

theorem Placed.toText (placed : b.Placed r) (done : b.toText order alloc = .ok b') : b'.Placed r := by
  simp only [Buffer.toText,bind_ok_iff] at done
  obtain ⟨c,written,taken⟩ := done
  exact (placed.write written).unwriteBytes taken

theorem Placed.readFromFD (placed : b.Placed r) (done : b.readFromFD alloc result = .ok b') : b'.Placed r := by
  simp only [Buffer.readFromFD,bind_ok_iff] at done
  obtain ⟨writable,-,done⟩ := done
  cases result with
  | failed e =>
    cases done
    exact placed
  | bytes data =>
    simp only at done
    split at done <;> simp only [bind_ok_iff] at done
    · obtain ⟨mem,stored,⟨⟩⟩ := done
      exact placed.storeBehind stored
    · obtain ⟨mem,stored,appended⟩ := done
      exact (placed.store stored (Nat.le_refl _)).write appended

theorem Placed.construct (done : Buffer.construct alloc initialSize r = .ok b) : b.Placed r := by
  obtain ⟨valid,-⟩ := (construct_returned done).1
  simp only [Buffer.construct,bind_ok_iff] at done
  obtain ⟨_,_,_,_,_,_,_,_,_,_,_,_,⟨⟩⟩ := done
  exact ⟨valid.storage,valid.word,valid.reserved,valid.bounded,Nat.le_refl _,Nat.le_refl _⟩

/-- `Shrink` leaves the default reserve, whatever the buffer was built with. -/
theorem Placed.shrink (done : b.shrink first second k = .ok b') : b'.Placed kCheapPrependSize := by
  simp only [Buffer.shrink,bind_ok_iff] at done
  obtain ⟨_,-,other,built,_,-,appended⟩ := done
  exact (Placed.construct built).write appended

theorem Placed.mono (placed : b.Placed r) (less : n ≤ r) : b.Placed n :=
  ⟨placed.storage,placed.word,placed.inside,placed.bounded,less.trans placed.kept,placed.front⟩

def Op.isPrepend : Op → Bool
  | .prepend _ | .prependInt64 _ | .prependInt32 _ | .prependInt16 _ | .prependInt8 _ => true
  | _ => false

def Op.isShrink : Op → Bool
  | .shrink _ _ _ => true
  | _ => false

/-- `Shrink` is for buffers that ask for no more than the default reserve. -/
def Op.Reserves (r : Nat) (op : Op) : Prop := op.isShrink = true → r ≤ kCheapPrependSize

instance (r : Nat) (op : Op) : Decidable (op.Reserves r) := inferInstanceAs (Decidable (_ → _))

theorem Placed.perform (placed : b.Placed r) (op : Op) (behind : op.isPrepend = false) (reserves : op.Reserves r)
    (done : b.perform order op = .ok (b',value)) : b'.Placed r := by
  cases op with
  | prepend _ | prependInt64 _ | prependInt32 _ | prependInt16 _ | prependInt8 _ => cases behind
  | write _ _ | append _ _ | appendInt64 _ _ | appendInt32 _ _ | appendInt16 _ _ | appendInt8 _ _ =>
    simp only [Buffer.perform,bind_ok_iff] at done
    obtain ⟨c,written,⟨⟩⟩ := done
    exact placed.write written
  | skip _ | retrieve _ =>
    simp only [Buffer.perform,bind_ok_iff] at done
    obtain ⟨c,skipped,⟨⟩⟩ := done
    exact placed.skip skipped
  | next _ | nextString _ =>
    simp only [Buffer.perform,bind_ok_iff] at done
    obtain ⟨c,taken,⟨⟩⟩ := done
    exact placed.next taken
  | nextAll | nextAllString =>
    simp only [Buffer.perform,bind_ok_iff] at done
    obtain ⟨c,taken,⟨⟩⟩ := done
    exact placed.nextAll taken
  | readInt64 | readInt32 | readInt16 | readInt8 =>
    simp only [Buffer.perform,readInt64,readInt32,readInt16,readInt8,bind_ok_iff] at done
    obtain ⟨_,⟨_,_,c,skipped,⟨⟩⟩,⟨⟩⟩ := done
    exact placed.skip skipped
  | readByte =>
    simp only [Buffer.perform,bind_ok_iff] at done
    obtain ⟨c,taken,⟨⟩⟩ := done
    exact placed.readByte taken
  | unwriteBytes _ =>
    simp only [Buffer.perform,bind_ok_iff] at done
    obtain ⟨c,taken,⟨⟩⟩ := done
    exact placed.unwriteBytes taken
  | truncate n =>
    cases done
    exact placed.truncate n
  | reset =>
    cases done
    exact placed.reset
  | reserve _ _ =>
    simp only [Buffer.perform,bind_ok_iff] at done
    obtain ⟨c,grown,⟨⟩⟩ := done
    exact placed.reserve grown
  | ensureWritableBytes _ _ =>
    simp only [Buffer.perform,bind_ok_iff] at done
    obtain ⟨c,grown,⟨⟩⟩ := done
    exact placed.ensureWritableBytes grown
  | toText _ =>
    simp only [Buffer.perform,bind_ok_iff] at done
    obtain ⟨c,ended,_,_,⟨⟩⟩ := done
    exact placed.toText ended
  | shrink _ _ _ =>
    simp only [Buffer.perform,bind_ok_iff] at done
    obtain ⟨c,rebuilt,⟨⟩⟩ := done
    exact (Placed.shrink rebuilt).mono (reserves rfl)
  | peekInt64 | peekInt32 | peekInt16 | peekInt8 | length | toSlice | toString | findCRLFFrom _ | findEOL
  | findEOLFrom _ =>
    simp only [Buffer.perform,bind_ok_iff] at done
    obtain ⟨_,_,⟨⟩⟩ := done
    exact placed
  | findCRLF =>
    cases done
    exact placed

/-- What is done to a buffer that is never swapped. -/
inductive Use where
  | perform (op : Op)
  | writeBytes (n : Nat)
  | readFromFD (alloc : Allocator) (result : ReadResult)

namespace Use

def run (order : ByteOrder) (b : Buffer) : Use → Except Fault Buffer
  | .perform op => do let (b,_) ← b.perform order op; return b
  | .writeBytes n => b.writeBytes n
  | .readFromFD alloc result => b.readFromFD alloc result

/-- Nothing is written in front of the contents, and `readv` fills no more than it was given. -/
def Allowed (b : Buffer) : Use → Prop
  | .perform op => op.isPrepend = false
  | .writeBytes _ => True
  | .readFromFD _ result => result.Legal (readLimit (b.capacity - b.writeIndex))

def Reserves (r : Nat) : Use → Prop
  | .perform op => op.Reserves r
  | _ => True

instance (b : Buffer) : (u : Use) → Decidable (u.Allowed b)
  | .perform op => inferInstanceAs (Decidable (op.isPrepend = false))
  | .writeBytes _ => inferInstanceAs (Decidable True)
  | .readFromFD _ result => inferInstanceAs (Decidable (result.Legal _))

instance (r : Nat) : (u : Use) → Decidable (u.Reserves r)
  | .perform op => inferInstanceAs (Decidable (op.Reserves r))
  | .writeBytes _ => inferInstanceAs (Decidable True)
  | .readFromFD _ _ => inferInstanceAs (Decidable True)

end Use

def usage (order : ByteOrder) (r : Nat) : Machine Buffer Use Fault where
  initial b := ∃ alloc initialSize, construct alloc initialSize r = .ok b
  enabled b u := u.Allowed b
  step b u := u.run order b

instance (order : ByteOrder) (r : Nat) (b : Buffer) (u : Use) : Decidable ((usage order r).enabled b u) :=
  inferInstanceAs (Decidable (u.Allowed b))

theorem Placed.run (placed : b.Placed r) (order : ByteOrder) (u : Use) (allowed : u.Allowed b) (reserves : u.Reserves r)
    (done : u.run order b = .ok b') : b'.Placed r := by
  cases u with
  | perform op =>
    simp only [Use.run,bind_ok_iff] at done
    obtain ⟨⟨c,value⟩,performed,⟨⟩⟩ := done
    exact placed.perform op allowed reserves performed
  | writeBytes n => exact placed.writeBytes done
  | readFromFD alloc result => exact placed.readFromFD done

theorem Placed.prepend (placed : b.Placed r) (d : List UInt8) (short : d.length ≤ r) : ∃ b', b.prepend d = .ok b' := by
  have room : d.length ≤ b.readIndex := short.trans (placed.kept.trans placed.front)
  have inside : b.readIndex - d.length + d.length ≤ b.storage.length := by
    rw [placed.storage,Nat.sub_add_cancel room]
    exact placed.inside
  exact ⟨_,by simp [Buffer.prepend,prependableBytes,room,copyIn_of inside]; rfl⟩

/-- As long as `Shrink` is left to buffers with at most the default reserve, the reserve
stays free through every run: a header that fits it can be prepended at any time. And
while the indices are in order, `Shrink` keeps the contents and leaves the room it was
asked for, unless the size of the new buffer wraps. -/
theorem reserve_kept_for_life (reachable : ((usage order r).restrict fun _ u => u.Reserves r).Reachable b) :
    r ≤ b.prependableBytes ∧
    (∀ d : List UInt8, d.length ≤ r → ∃ b', b.prepend d = .ok b') ∧
    (b.readIndex ≤ b.writeIndex → ∀ first second k, kCheapPrependSize + (b.readable.length + k) < 2^64 →
      (first.new (kCheapPrependSize + (b.readable.length + k)) = none ∧ b.shrink first second k = .error .badAlloc) ∨
      ∃ b', b.shrink first second k = .ok b' ∧ b'.readable = b.readable ∧ b'.writableBytes = .ok k) := by
  have placed : b.Placed r := by
    induction reachable with
    | initial first =>
      obtain ⟨alloc,initialSize,built⟩ := first
      exact Placed.construct built
    | step _ enabled stepped placed => exact placed.run order _ enabled.1 enabled.2 stepped
  constructor
  · exact placed.kept.trans placed.front
  constructor
  · exact placed.prepend
  · intro ordered first second k fits
    rcases shrink_exact (placed.valid ordered) first second k fits with refused | ⟨b',done,valid,contents,room⟩
    · exact .inl refused
    · exact .inr ⟨b',done,contents,by rw [writableBytes_eq valid,room]⟩

/-- Bytes come from a socket, some are read, the buffer is rebuilt and truncated; four
bytes still fit in front of what is reached. -/
theorem reserve_kept_for_life_four :
    let alloc := Allocator.zeroed 4096 (by decide)
    let b : Buffer := ⟨List.replicate 12 0,12,4,4,4⟩
    let schedule : List Use := [.readFromFD alloc (.bytes (List.replicate 20 7)),
      .perform (.skip 18),.perform (.shrink alloc alloc 3),
      .perform (.truncate 1)]
    let reached := schedule.foldl (usage .little 4).advance b
    4 ≤ reached.prependableBytes ∧ (∃ c, reached.prepend [1,2,3,4] = .ok c) ∧
      ∃ c, reached.shrink alloc alloc 5 = .ok c ∧ c.readable = [7] ∧ c.writableBytes = .ok 5 := by
  intro alloc b schedule reached
  have reachable : ((usage .little 4).restrict fun _ u => u.Reserves 4).Reachable reached :=
    Machine.Reachable.follow (m := (usage .little 4).restrict fun _ u => u.Reserves 4)
      (.initial ⟨alloc,8,by decide +kernel⟩)
      schedule (by decide +kernel)
  have contents : reached.readable = [7] := by decide +kernel
  obtain ⟨room,header,shrunk⟩ := reserve_kept_for_life reachable
  refine ⟨room,header _ (by decide),?_⟩
  rcases shrunk (by decide +kernel) alloc alloc 5 (by rw [contents]; decide) with ⟨refused,-⟩ | ⟨c,done,same,writable⟩
  · rw [contents] at refused
    exact absurd refused (by decide)
  · exact ⟨c,done,same.trans contents,writable⟩

/-- `Shrink` of a buffer with a reserve of sixteen bytes leaves eight, and a header of
sixteen no longer fits; asked for room up to the word size, it leaves what `grow` made. -/
theorem shrink_forgets_reserve :
    let alloc := Allocator.zeroed 4096 (by decide)
    (∃ b, (usage .little 16).Reachable b ∧ b.prependableBytes = 8 ∧
      b.prepend (List.replicate 16 0) = .error (.assertion .prepend)) ∧
    (do let b ← construct alloc 64 16
        let b ← b.append alloc (List.replicate 16 0)
        let b ← b.shrink alloc alloc (2^64 - 8)
        b.writableBytes) = .ok 24 := by
  intro alloc
  constructor
  · let b : Buffer := ⟨List.replicate 80 0,80,16,16,16⟩
    let schedule : List Use := [.perform (.append alloc [1,2]),.perform (.shrink alloc alloc 0)]
    have reachable : (usage .little 16).Reachable (schedule.foldl (usage .little 16).advance b) :=
      Machine.Reachable.follow (m := usage .little 16)
        (.initial ⟨alloc,64,by decide +kernel⟩) schedule (by decide +kernel)
    exact ⟨_,reachable,by decide +kernel,by decide +kernel⟩
  · decide +kernel

end Evk.Buffer
