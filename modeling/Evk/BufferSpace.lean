import Evk.PrependReserve

/-! How much memory a buffer takes. `grow` asks for a larger allocation only when the
contents, the request and the reserve do not fit the one at hand, and then at least
doubles it. So over whole runs the capacity stays within a multiple of the most that was
asked for at one time, and the number of reallocations within its logarithm. -/
namespace Evk.Buffer

variable {b b' c : Buffer} {order : ByteOrder} {alloc : Allocator} {len n : Nat}

/-- The number of readable bytes; none when the indices have crossed. -/
def count (b : Buffer) : Nat := b.writeIndex - b.readIndex

/-- What the bounds need of a buffer. The indices may have crossed. -/
structure Held (b : Buffer) : Prop where
  inside : b.readIndex ≤ b.capacity
  bounded : b.writeIndex ≤ b.capacity
  reserved : b.reservedPrependSize ≤ b.capacity
  served : b.capacity < 2^62

/-- A buffer after an operation that asked for room for `len` bytes behind the contents. -/
structure Grew (len : Nat) (b b' : Buffer) : Prop where
  held : b'.Held
  reserve : b'.reservedPrependSize = b.reservedPrependSize
  space : b'.capacity = b.capacity ∨
    b.capacity < b.count + len + b.reservedPrependSize ∧ b'.capacity ≤ 2 * b.capacity + len ∧
      (len < 2^63 → 2 * b.capacity ≤ b'.capacity)

theorem Held.same (held : b.Held) (capacity : b'.capacity = b.capacity)
    (reserve : b'.reservedPrependSize = b.reservedPrependSize) (inside : b'.readIndex ≤ b.capacity)
    (bounded : b'.writeIndex ≤ b.capacity) : Grew len b b' :=
  ⟨⟨capacity ▸ inside,capacity ▸ bounded,by rw [reserve,capacity]; exact held.reserved,capacity ▸ held.served⟩,reserve,
    .inl capacity⟩

theorem Held.refl (held : b.Held) : Grew len b b := held.same rfl rfl held.inside held.bounded

/-- An operation that keeps the memory, behind one that may have grown it. -/
theorem Grew.same (grew : Grew len b c) (kept : Grew 0 c b') (capacity : b'.capacity = c.capacity) : Grew len b b' :=
  ⟨kept.held,kept.reserve.trans grew.reserve,by rw [capacity]; exact grew.space⟩

theorem Grew.mono (grew : Grew len b b') (less : len ≤ n) : Grew n b b' :=
  ⟨grew.held,grew.reserve,grew.space.imp id fun ⟨tight,most,least⟩ => ⟨by omega,by omega,fun word => least (by omega)⟩⟩

theorem Grew.stored (grew : Grew len b c) (bounded : n ≤ c.capacity) :
    Grew len b { c with storage := mem, writeIndex := n } :=
  ⟨⟨grew.held.inside,bounded,grew.held.reserved,grew.held.served⟩,grew.reserve,grew.space⟩

theorem writableBytes_bounded (done : b.writableBytes = .ok n) : b.writeIndex ≤ b.capacity := by
  simp only [writableBytes,bind_ok_iff] at done
  obtain ⟨_,bounded,-⟩ := done
  exact assert_ok_iff.mp bounded

/-- `(capacity_ << 1) + len`. -/
theorem doubled_le (m len : Nat) : sizeAdd (sizeAdd m m) len ≤ 2 * m + len := by
  have outer := sizeAdd_le (sizeAdd m m) len
  have inner := sizeAdd_le m m
  omega

/-- For an allocation the host could serve, only a huge request makes the sum wrap. -/
theorem doubled_eq (served : m < 2^62) (word : len < 2^63) : sizeAdd (sizeAdd m m) len = 2 * m + len := by
  have inner : sizeAdd m m = m + m := sizeAdd_of_lt (by omega)
  rw [inner,sizeAdd_of_lt (by omega)]
  omega

theorem Held.grow (held : b.Held) (done : b.grow alloc len = .ok b') : Grew len b b' := by
  obtain ⟨inside,bounded,reserved,served⟩ := id held
  simp only [Buffer.grow,bind_ok_iff] at done
  obtain ⟨writable,measured,done⟩ := done
  cases writableBytes_returned measured
  split at done
  · rename_i tight
    have free : b.capacity - b.writeIndex + b.readIndex < len + b.reservedPrependSize := by
      have request := sizeAdd_le len b.reservedPrependSize
      rw [prependableBytes,sizeAdd_of_lt (by omega)] at tight
      omega
    simp only [bind_ok_iff] at done
    obtain ⟨m,-,d,allocated,data,copied,d',stored,⟨⟩⟩ := done
    obtain ⟨sized,fits⟩ := allocate_returned allocated
    obtain ⟨within,rfl⟩ := copyOut_returned copied
    have laid := (copyIn_returned stored).1
    rw [Region.length_slice _ _ _ within,sized] at laid
    have contents := sizeAdd_le m b.reservedPrependSize
    refine ⟨⟨?_,?_,?_,fits⟩,rfl,.inr ⟨?_,doubled_le _ _,fun word => ?_⟩⟩
    · simp only; omega
    · simp only; omega
    · simp only; omega
    · unfold count; omega
    · simp only [doubled_eq served word]; omega
  · simp only [bind_ok_iff] at done
    obtain ⟨_,-,m,-,data,-,moved,-,_,-,_,-,room,measured,_,-,⟨⟩⟩ := done
    exact held.same rfl rfl reserved (writableBytes_bounded measured)

theorem Held.ensureWritableBytes (held : b.Held) (done : b.ensureWritableBytes alloc len = .ok b') : Grew len b b' := by
  simp only [Buffer.ensureWritableBytes,bind_ok_iff] at done
  obtain ⟨_,-,done⟩ := done
  split at done <;> simp only [bind_ok_iff] at done
  · obtain ⟨c,grown,_,-,_,-,⟨⟩⟩ := done
    exact held.grow grown
  · obtain ⟨c,⟨⟩,_,-,_,-,⟨⟩⟩ := done
    exact held.refl

theorem Held.write (held : b.Held) (done : b.write alloc d = .ok b') : Grew d.length b b' := by
  simp only [Buffer.write,bind_ok_iff] at done
  obtain ⟨c,grown,mem,-,_,bounded,⟨⟩⟩ := done
  exact (held.ensureWritableBytes grown).stored (assert_ok_iff.mp bounded)

theorem Held.reserve (held : b.Held) (done : b.reserve alloc len = .ok b') :
    Grew (sizeAdd len b.reservedPrependSize) b b' := by
  rw [Buffer.reserve] at done
  split at done
  · cases done
    exact held.refl
  · exact held.grow done

theorem readFromFD_inside (fits : data.length ≤ b.capacity - b.writeIndex)
    (done : b.readFromFD alloc (.bytes data) = .ok b') :
    ∃ mem, b' = { b with storage := mem, writeIndex := sizeAdd b.writeIndex data.length } := by
  obtain ⟨writable,measured,done⟩ := bind_ok_iff.mp done
  cases writableBytes_returned measured
  simp only [if_pos fits] at done
  obtain ⟨mem,-,⟨⟩⟩ := bind_ok_iff.mp done
  exact ⟨mem,rfl⟩

/-- What landed in the stack buffer is asked for on top of a full allocation. -/
theorem Held.overflow (held : b.Held) (long : b.capacity - b.writeIndex < data.length)
    (done : b.readFromFD alloc (.bytes data) = .ok b') :
    ∃ mem, Grew (data.length - (b.capacity - b.writeIndex)) { b with storage := mem, writeIndex := b.capacity } b' := by
  simp only [Buffer.readFromFD,bind_ok_iff] at done
  obtain ⟨writable,measured,done⟩ := done
  cases writableBytes_returned measured
  simp only [if_neg (Nat.not_le.mpr long)] at done
  obtain ⟨mem,-,appended⟩ := bind_ok_iff.mp done
  have full : Held { b with storage := mem, writeIndex := b.capacity } :=
    ⟨held.inside,Nat.le_refl _,held.reserved,held.served⟩
  have grew := full.write appended
  rw [List.length_drop] at grew
  exact ⟨mem,grew⟩

theorem Held.readFromFD (held : b.Held) (done : b.readFromFD alloc r = .ok b') : Grew r.delivered.length b b' := by
  have bounded := held.bounded
  cases r with
  | failed e =>
    obtain ⟨_,-,⟨⟩⟩ := bind_ok_iff.mp done
    exact held.refl
  | bytes data =>
    by_cases fits : data.length ≤ b.capacity - b.writeIndex
    · obtain ⟨mem,rfl⟩ := readFromFD_inside fits done
      have sum := sizeAdd_le b.writeIndex data.length
      exact held.refl.stored (by omega)
    · obtain ⟨mem,held',reserve,space⟩ := held.overflow (by omega) done
      refine ⟨held',reserve,space.imp id fun ⟨tight,most,least⟩ => ?_⟩
      simp only [count,ReadResult.delivered] at tight most least ⊢
      exact ⟨by omega,by omega,fun word => least (by omega)⟩

theorem Held.truncate (held : b.Held) (n : Nat) : Grew 0 b (b.truncate n) := by
  obtain ⟨inside,bounded,reserved,-⟩ := id held
  unfold Buffer.truncate
  split
  · exact held.same rfl rfl reserved reserved
  · split
    · exact held.same rfl rfl inside (by simp only; omega)
    · exact held.refl

theorem Held.advance (held : b.Held) (enough : b.readIndex + n ≤ b.writeIndex) :
    Grew 0 b { b with readIndex := sizeAdd b.readIndex n } := by
  have sum := sizeAdd_le b.readIndex n
  have bounded := held.bounded
  exact held.same rfl rfl (by simp only; omega) bounded

theorem Held.skip (held : b.Held) (done : b.skip n = .ok b') : Grew 0 b b' := by
  simp only [Buffer.skip,bind_ok_iff] at done
  obtain ⟨size,measured,done⟩ := done
  obtain ⟨ordered,rfl⟩ := length_returned measured
  split at done <;> cases done
  · exact held.advance (by omega)
  · exact held.truncate 0

theorem Held.nextAll (held : b.Held) (done : b.nextAll = .ok (l,b')) : Grew 0 b b' := by
  simp only [Buffer.nextAll,bind_ok_iff] at done
  obtain ⟨_,_,_,_,⟨⟩⟩ := done
  exact held.truncate 0

theorem Held.next (held : b.Held) (done : b.next n = .ok (l,b')) : Grew 0 b b' := by
  simp only [Buffer.next,bind_ok_iff] at done
  obtain ⟨size,measured,done⟩ := done
  obtain ⟨ordered,rfl⟩ := length_returned measured
  split at done
  · simp only [bind_ok_iff] at done
    obtain ⟨_,_,⟨⟩⟩ := done
    exact held.advance (by omega)
  · exact held.nextAll done

theorem Held.readByte (held : b.Held) (done : b.readByte = .ok (byte,b')) : Grew 0 b b' := by
  simp only [Buffer.readByte,bind_ok_iff] at done
  obtain ⟨size,measured,_,some,_,_,done⟩ := done
  obtain ⟨ordered,rfl⟩ := length_returned measured
  have some : 1 ≤ b.writeIndex - b.readIndex := assert_ok_iff.mp some
  split at done
  · cases done
    exact held.refl
  · split at done <;> cases done
    exact held.advance (by omega)

theorem Held.unwriteBytes (held : b.Held) (done : b.unwriteBytes n = .ok b') : Grew 0 b b' := by
  simp only [Buffer.unwriteBytes,bind_ok_iff] at done
  obtain ⟨_,_,_,_,⟨⟩⟩ := done
  have bounded := held.bounded
  exact held.same rfl rfl held.inside (by simp only; omega)

theorem Held.writeBytes (held : b.Held) (done : b.writeBytes n = .ok b') : Grew 0 b b' := by
  simp only [Buffer.writeBytes,bind_ok_iff] at done
  obtain ⟨room,measured,_,enough,⟨⟩⟩ := done
  cases writableBytes_returned measured
  have enough : n ≤ b.capacity - b.writeIndex := assert_ok_iff.mp enough
  have sum := sizeAdd_le b.writeIndex n
  have bounded := held.bounded
  exact held.same rfl rfl held.inside (by simp only; omega)

theorem Held.prepend (held : b.Held) (done : b.prepend d = .ok b') : Grew 0 b b' := by
  simp only [Buffer.prepend,bind_ok_iff] at done
  obtain ⟨_,-,_,-,⟨⟩⟩ := done
  have inside := held.inside
  exact held.same rfl rfl (by simp only; omega) held.bounded

theorem Held.unreadBytes (held : b.Held) (done : b.unreadBytes n = .ok b') : Grew 0 b b' := by
  simp only [Buffer.unreadBytes,bind_ok_iff] at done
  obtain ⟨_,-,⟨⟩⟩ := done
  have inside := held.inside
  exact held.same rfl rfl (by simp only; omega) held.bounded

theorem unwriteBytes_capacity (done : b.unwriteBytes n = .ok b') : b'.capacity = b.capacity := by
  simp only [Buffer.unwriteBytes,bind_ok_iff] at done
  obtain ⟨_,_,_,_,⟨⟩⟩ := done
  rfl

theorem Held.toText (held : b.Held) (done : b.toText order alloc = .ok b') : Grew 1 b b' := by
  simp only [Buffer.toText,bind_ok_iff] at done
  obtain ⟨c,written,taken⟩ := done
  have grew := held.write written
  rw [length_hostBytes] at grew
  exact grew.same (grew.held.unwriteBytes taken) (unwriteBytes_capacity taken)

theorem construct_shape (done : construct alloc initialSize r = .ok b) :
    b.Held ∧ b.capacity = sizeAdd r initialSize ∧ b.count = 0 ∧ b.reservedPrependSize = r := by
  obtain ⟨⟨valid,served⟩,-⟩ := construct_returned done
  simp only [construct,bind_ok_iff] at done
  obtain ⟨_,_,_,_,_,_,_,_,_,_,_,_,⟨⟩⟩ := done
  exact ⟨⟨valid.reserved,valid.bounded,valid.reserved,served⟩,rfl,Nat.sub_self _,rfl⟩

/-- A rebuilt buffer is measured by its contents and the room it was asked for. -/
theorem shrink_space (done : b.shrink first second k = .ok b') :
    b'.Held ∧ b'.reservedPrependSize = kCheapPrependSize ∧ b'.capacity ≤ 3 * (b.count + k) + 2 * kCheapPrependSize := by
  simp only [Buffer.shrink,bind_ok_iff] at done
  obtain ⟨m,measured,other,built,data,sliced,appended⟩ := done
  obtain ⟨-,rfl⟩ := length_returned measured
  obtain ⟨held,capacity,empty,reserve⟩ := construct_shape built
  have size : data.length = b.count := by
    simp only [toSlice,bind_ok_iff] at sliced
    obtain ⟨n,measured,copied⟩ := sliced
    obtain ⟨-,rfl⟩ := length_returned measured
    obtain ⟨inside,rfl⟩ := copyOut_returned copied
    exact Region.length_slice _ _ _ inside
  obtain ⟨held',reserve',space⟩ := held.write appended
  refine ⟨held',reserve'.trans reserve,?_⟩
  have outer := sizeAdd_le kCheapPrependSize (sizeAdd (b.writeIndex - b.readIndex) k)
  have inner := sizeAdd_le (b.writeIndex - b.readIndex) k
  rw [empty,reserve] at space
  unfold count at size ⊢
  omega

def Op.asked : Op → Nat
  | .write _ d | .append _ d => d.length
  | .appendInt64 _ _ => 8
  | .appendInt32 _ _ => 4
  | .appendInt16 _ _ => 2
  | .appendInt8 _ _ | .toText _ => 1
  | .reserve _ len | .ensureWritableBytes _ len | .shrink _ _ len => len
  | _ => 0

/-- `Reserve` asks for its argument and the reserve, the others for less. -/
theorem Held.perform (held : b.Held) (op : Op) (kept : op.isShrink = false)
    (done : b.perform order op = .ok (b',value)) :
    Grew (op.asked + b.reservedPrependSize) b b' := by
  cases op with
  | shrink _ _ _ => cases kept
  | write _ _ | append _ _ =>
    simp only [Buffer.perform,bind_ok_iff] at done
    obtain ⟨c,written,⟨⟩⟩ := done
    exact (held.write written).mono (by simp [Op.asked])
  | appendInt64 _ _ | appendInt32 _ _ | appendInt16 _ _ | appendInt8 _ _ =>
    simp only [Buffer.perform,bind_ok_iff] at done
    obtain ⟨c,written,⟨⟩⟩ := done
    exact (held.write written).mono (by simp [Op.asked])
  | prepend _ | prependInt64 _ | prependInt32 _ | prependInt16 _ | prependInt8 _ =>
    simp only [Buffer.perform,bind_ok_iff] at done
    obtain ⟨c,prepended,⟨⟩⟩ := done
    exact (held.prepend prepended).mono (Nat.zero_le _)
  | skip _ | retrieve _ =>
    simp only [Buffer.perform,bind_ok_iff] at done
    obtain ⟨c,skipped,⟨⟩⟩ := done
    exact (held.skip skipped).mono (Nat.zero_le _)
  | next _ | nextString _ =>
    simp only [Buffer.perform,bind_ok_iff] at done
    obtain ⟨c,taken,⟨⟩⟩ := done
    exact (held.next taken).mono (Nat.zero_le _)
  | nextAll | nextAllString =>
    simp only [Buffer.perform,bind_ok_iff] at done
    obtain ⟨c,taken,⟨⟩⟩ := done
    exact (held.nextAll taken).mono (Nat.zero_le _)
  | readInt64 | readInt32 | readInt16 | readInt8 =>
    simp only [Buffer.perform,readInt64,readInt32,readInt16,readInt8,bind_ok_iff] at done
    obtain ⟨_,⟨_,_,c,skipped,⟨⟩⟩,⟨⟩⟩ := done
    exact (held.skip skipped).mono (Nat.zero_le _)
  | readByte =>
    simp only [Buffer.perform,bind_ok_iff] at done
    obtain ⟨c,taken,⟨⟩⟩ := done
    exact (held.readByte taken).mono (Nat.zero_le _)
  | unwriteBytes _ =>
    simp only [Buffer.perform,bind_ok_iff] at done
    obtain ⟨c,taken,⟨⟩⟩ := done
    exact (held.unwriteBytes taken).mono (Nat.zero_le _)
  | truncate n =>
    cases done
    exact (held.truncate n).mono (Nat.zero_le _)
  | reset =>
    cases done
    exact (held.truncate 0).mono (Nat.zero_le _)
  | reserve _ len =>
    simp only [Buffer.perform,bind_ok_iff] at done
    obtain ⟨c,grown,⟨⟩⟩ := done
    exact (held.reserve grown).mono (sizeAdd_le _ _)
  | ensureWritableBytes _ _ =>
    simp only [Buffer.perform,bind_ok_iff] at done
    obtain ⟨c,grown,⟨⟩⟩ := done
    exact (held.ensureWritableBytes grown).mono (Nat.le_add_right _ _)
  | toText _ =>
    simp only [Buffer.perform,bind_ok_iff] at done
    obtain ⟨c,ended,_,_,⟨⟩⟩ := done
    exact (held.toText ended).mono (Nat.le_add_right _ _)
  | peekInt64 | peekInt32 | peekInt16 | peekInt8 | length | toSlice | toString | findCRLFFrom _ | findEOL
  | findEOLFrom _ =>
    simp only [Buffer.perform,bind_ok_iff] at done
    obtain ⟨_,_,⟨⟩⟩ := done
    exact held.refl
  | findCRLF =>
    cases done
    exact held.refl

/-- What is done to one buffer, writing in front of the contents included. -/
inductive Handling where
  | use (u : Use)
  | unreadBytes (n : Nat)

namespace Handling

def run (order : ByteOrder) (b : Buffer) : Handling → Except Fault Buffer
  | .use u => u.run order b
  | .unreadBytes n => b.unreadBytes n

def asked : Handling → Nat
  | .use (.perform op) => op.asked
  | .use (.readFromFD _ result) => result.delivered.length
  | .use (.writeBytes _) | .unreadBytes _ => 0

def isShrink : Handling → Bool
  | .use (.perform op) => op.isShrink
  | _ => false

/-- `readv` fills no more than it was given. -/
def Delivers (b : Buffer) : Handling → Prop
  | .use (.readFromFD _ result) => result.Legal (readLimit (b.capacity - b.writeIndex))
  | _ => True

instance (b : Buffer) : (h : Handling) → Decidable (h.Delivers b)
  | .use (.readFromFD _ result) => inferInstanceAs (Decidable (result.Legal _))
  | .use (.perform _) | .use (.writeBytes _) | .unreadBytes _ => inferInstanceAs (Decidable True)

end Handling

theorem Held.run (held : b.Held) (h : Handling) (kept : h.isShrink = false) (done : h.run order b = .ok b') :
    Grew (h.asked + b.reservedPrependSize) b b' := by
  cases h with
  | unreadBytes n => exact (held.unreadBytes done).mono (Nat.zero_le _)
  | use u =>
    cases u with
    | perform op =>
      simp only [Handling.run,Use.run,bind_ok_iff] at done
      obtain ⟨⟨c,value⟩,performed,⟨⟩⟩ := done
      exact held.perform op kept performed
    | writeBytes n => exact (held.writeBytes done).mono (Nat.zero_le _)
    | readFromFD alloc result => exact (held.readFromFD done).mono (Nat.le_add_right _ _)

theorem shrink_run (h : Handling) (rebuilds : h.isShrink = true) (done : h.run order b = .ok b') :
    b'.Held ∧ b'.reservedPrependSize = kCheapPrependSize ∧
      b'.capacity ≤ 3 * (b.count + h.asked) + 2 * kCheapPrependSize := by
  rcases h with (op | n | ⟨alloc,result⟩) | n
  · cases op with
    | shrink first second k =>
      simp only [Handling.run,Use.run,Buffer.perform,bind_ok_iff] at done
      obtain ⟨_,⟨c,rebuilt,⟨⟩⟩,⟨⟩⟩ := done
      exact shrink_space rebuilt
    | _ => cases rebuilds
  all_goals cases rebuilds

structure Measured where
  buffer : Buffer
  /-- The capacity it was built with, or rebuilt with by the last `Shrink`. -/
  built : Nat
  /-- The larger allocations taken since. -/
  growths : Nat

namespace Measured

def step (order : ByteOrder) (s : Measured) (h : Handling) : Except Fault Measured := do
  let buffer ← h.run order s.buffer
  if h.isShrink then return ⟨buffer,buffer.capacity,0⟩
  else if buffer.capacity = s.buffer.capacity then return { s with buffer }
  else return ⟨buffer,s.built,s.growths + 1⟩

def machine (order : ByteOrder) (initialSize r : Nat) : Machine Measured Handling Fault where
  initial s := ∃ alloc, construct alloc initialSize r = .ok s.buffer ∧ s.built = s.buffer.capacity ∧ s.growths = 0
  enabled s h := h.Delivers s.buffer
  step := step order

instance (s : Measured) (h : Handling) : Decidable ((machine order initialSize r).enabled s h) :=
  inferInstanceAs (Decidable (h.Delivers s.buffer))

def demand (s : Measured) (h : Handling) : Nat := s.buffer.count + h.asked

/-- The most a buffer with that initial size and reserve takes while nothing asks for more
than `peak` bytes. -/
def limit (initialSize r peak : Nat) : Nat := max (r + initialSize) (3 * peak + 5 * max r kCheapPrependSize)

structure Bounded (initialSize r peak : Nat) (s : Measured) : Prop where
  held : s.buffer.Held
  reserve : s.buffer.reservedPrependSize ≤ max r kCheapPrependSize
  most : s.buffer.capacity ≤ limit initialSize r peak
  doubled : 2^s.growths * s.built ≤ s.buffer.capacity

variable {s t : Measured} {initialSize r peak : Nat}

theorem Bounded.construct (done : Buffer.construct alloc initialSize r = .ok s.buffer)
    (built : s.built = s.buffer.capacity)
    (none : s.growths = 0) : s.Bounded initialSize r peak := by
  obtain ⟨held,capacity,-,reserve⟩ := construct_shape done
  have sum := sizeAdd_le r initialSize
  refine ⟨held,by omega,?_,by simp [built,none]⟩
  unfold limit
  omega

theorem Bounded.step (bounded : s.Bounded initialSize r peak) (word : peak < 2^62) (h : Handling)
    (demanded : s.demand h ≤ peak) (stepped : step order s h = .ok t) : t.Bounded initialSize r peak := by
  obtain ⟨held,reserve,most,doubled⟩ := bounded
  obtain ⟨b,run,stepped⟩ := bind_ok_iff.mp stepped
  unfold demand at demanded
  cases rebuilds : h.isShrink with
  | true =>
    obtain ⟨held',reserve',space⟩ := shrink_run h rebuilds run
    simp only [rebuilds,if_true,pure_eq_ok,Except.ok.injEq] at stepped
    subst stepped
    refine ⟨held',by simp only; omega,?_,by simp⟩
    simp only [limit]
    omega
  | false =>
    obtain ⟨held',reserve',space⟩ := held.run h rebuilds run
    simp only [rebuilds,Bool.false_eq_true,if_false] at stepped
    split at stepped
    · rename_i same
      cases stepped
      exact ⟨held',by simp only; omega,by simp only; omega,by simp only [same]; exact doubled⟩
    · rename_i changed
      cases stepped
      obtain ⟨tight,upper,lower⟩ := space.resolve_left changed
      have reserved := held.reserved
      have served := held.served
      have lower := lower (by omega)
      refine ⟨held',by simp only; omega,?_,?_⟩
      · simp only [limit]
        omega
      · calc 2^(s.growths + 1) * s.built = 2 * (2^s.growths * s.built) := by ring
          _ ≤ 2 * s.buffer.capacity := Nat.mul_le_mul_left 2 doubled
          _ ≤ b.capacity := lower

theorem reachable_bounded (word : peak < 2^62)
    (reachable : ((machine order initialSize r).restrict fun s h => s.demand h ≤ peak).Reachable s) :
    s.Bounded initialSize r peak := by
  induction reachable with
  | initial first =>
    obtain ⟨alloc,done,built,none⟩ := first
    exact .construct done built none
  | step _ enabled stepped bounded => exact bounded.step word _ enabled.2 stepped

end Measured

/-- As long as the contents and what is asked for on top of them come to at most `peak`
bytes, the memory of a buffer stays below three times that and a few reserves, however long
it is used and however it is read; and it is moved to a larger allocation only as often as
that bound can be halved down to the size it was built with. -/
theorem memory_bounded {s : Measured} (word : peak < 2^62)
    (reachable : ((Measured.machine order initialSize r).restrict fun s h => s.demand h ≤ peak).Reachable s) :
    s.buffer.capacity ≤ Measured.limit initialSize r peak ∧
    2^s.growths * s.built ≤ Measured.limit initialSize r peak ∧
    (0 < s.built → s.growths ≤ Nat.log 2 (Measured.limit initialSize r peak)) := by
  obtain ⟨-,-,most,doubled⟩ := Measured.reachable_bounded word reachable
  have total := doubled.trans most
  refine ⟨most,total,fun some => ?_⟩
  apply Nat.le_log_of_pow_le Nat.one_lt_two
  exact (Nat.le_mul_of_pos_right _ some).trans total

/-- Twelve bytes at most at a time, in a buffer built for four: one reallocation, and none
for what is written after bytes were read. -/
theorem memory_bounded_twelve :
    let alloc := Allocator.zeroed 4096 (by decide)
    let b : Buffer := ⟨List.replicate 5 0,5,1,1,1⟩
    let schedule : List Handling := [.use (.perform (.append alloc [1,2,3,4,5])),.use (.perform (.skip 4)),
      .use (.readFromFD alloc (.bytes [6,7,8,9,10,11])),.unreadBytes 1,.use (.perform (.reserve alloc 4)),
      .use (.perform (.skip 7)),.use (.perform (.append alloc [12,13,14]))]
    let s := schedule.foldl (Measured.machine .little 4 1).advance ⟨b,5,0⟩
    s.buffer.readable = [11,12,13,14] ∧ s.buffer.capacity ≤ 76 ∧ s.growths ≤ 6 := by
  intro alloc b schedule s
  have reachable : ((Measured.machine .little 4 1).restrict fun s h => s.demand h ≤ 12).Reachable s :=
    Machine.Reachable.follow (m := (Measured.machine .little 4 1).restrict fun s h => s.demand h ≤ 12)
      (.initial ⟨alloc,by decide +kernel,rfl,rfl⟩) schedule (by decide +kernel)
  obtain ⟨most,-,often⟩ := memory_bounded (by decide) reachable
  exact ⟨by decide +kernel,most,often (by decide +kernel)⟩

end Evk.Buffer
