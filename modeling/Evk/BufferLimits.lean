import Evk.TypedIntegers

/-! Three limits of the buffer, each with the exact condition. `UnreadBytes` takes back a read
whose bytes are still in front of the read index, not one that rewound the indices.
`EnsureWritableBytes` and `Reserve` make room as long as none of their sums wraps. `Skip`
and `Next` clamp every length they are given, `Truncate` only those whose sum with the read
index is a word. -/
namespace Evk.Buffer

inductive Read where
  | skip (n : Nat)
  | next (n : Nat)
  | nextAll
  | readByte
  | readInt (w : Width)
  deriving DecidableEq, Repr

namespace Read

def run (order : ByteOrder) (b : Buffer) : Read → Except Fault Buffer
  | .skip n => b.skip n
  | .next n => do let (_,b) ← b.next n; return b
  | .nextAll => do let (_,b) ← b.nextAll; return b
  | .readByte => do let (_,b) ← b.readByte; return b
  | .readInt w => do let (_,b) ← w.read order b; return b

def count (b : Buffer) : Read → Nat
  | .skip n | .next n => n
  | .nextAll => b.readable.length
  | .readByte => 1
  | .readInt w => w.size

/-- All but `ReadByte` rewind the indices when they drain the buffer. -/
def Rewinds (b : Buffer) (read : Read) : Prop := read ≠ .readByte ∧ b.readable.length ≤ read.count b

instance (b : Buffer) (read : Read) : Decidable (read.Rewinds b) := inferInstanceAs (Decidable (_ ∧ _))

/-- The bytes read stand in front of the read index afterwards, and not at the very start
of the storage. -/
def Undoable (b : Buffer) (read : Read) : Prop :=
  (¬read.Rewinds b → 0 < b.readIndex) ∧
  (read.Rewinds b → (read.count b = 0 ∨ b.writeIndex = b.reservedPrependSize) ∧
    read.count b < b.reservedPrependSize)

instance (b : Buffer) (read : Read) : Decidable (read.Undoable b) :=
  inferInstanceAs (Decidable ((_ → _) ∧ (_ → _)))

end Read

variable {b : Buffer} {alloc : Allocator} {read : Read}

theorem skip_eq (valid : b.Valid) (n : Nat) : b.skip n = .ok (if b.readable.length ≤ n then b.reset
    else { b with readIndex := sizeAdd b.readIndex n }) := by
  by_cases drains : b.readable.length ≤ n
  · simp [skip,valid,drains]
  · simp [skip,valid,drains,Nat.lt_of_not_le drains]

theorem next_eq (valid : b.Valid) (n : Nat) : ∃ bytes, b.next n = .ok (bytes,if b.readable.length ≤ n then b.reset
    else { b with readIndex := sizeAdd b.readIndex n }) := by
  by_cases drains : b.readable.length ≤ n
  · exact ⟨b.readable,by simp [next,valid,drains,nextAll_spec valid]⟩
  · have short := Nat.lt_of_not_le drains
    exact ⟨b.readable.take n,by simp [next,valid,drains,short,readable_copyOut valid n (Nat.le_of_lt short)]⟩

theorem readByte_eq (valid : b.Valid) (enough : 1 ≤ b.readable.length) :
    ∃ byte, b.readByte = .ok (byte,{ b with readIndex := sizeAdd b.readIndex 1 }) := by
  have size := length_readable valid
  have inside : b.readIndex < b.storage.length := by
    have := valid.storage
    have := valid.bounded
    omega
  have some : b.readable.length ≠ 0 := by omega
  exact ⟨b.storage[b.readIndex],by simp [readByte,valid,enough,some,List.getElem?_eq_getElem inside]⟩

/-- A read moves the read index over its bytes or rewinds both indices. -/
theorem Read.run_eq (valid : b.Valid) (order : ByteOrder) (read : Read) (enough : read.count b ≤ b.readable.length) :
    read.run order b = .ok (if read.Rewinds b then b.reset
      else { b with readIndex := sizeAdd b.readIndex (read.count b) }) := by
  cases read with
  | skip n => simp [Read.run,Rewinds,count,skip_eq valid]
  | next n =>
    obtain ⟨bytes,done⟩ := next_eq valid n
    simp [Read.run,Rewinds,count,done]
  | nextAll => simp [Read.run,Rewinds,count,nextAll_spec valid]
  | readByte =>
    obtain ⟨byte,done⟩ := readByte_eq valid enough
    simp [Read.run,Rewinds,count,done]
  | readInt w =>
    simp [Read.run,Rewinds,count,w.read_eq valid order enough (skip_eq valid w.size)]

/-- Read without rewinding, the buffer gets its bytes back from `UnreadBytes`. -/
theorem unreadBytes_advanced (valid : b.Valid) (n : Nat) (enough : n ≤ b.readable.length) (ahead : 0 < b.readIndex) :
    unreadBytes { b with readIndex := sizeAdd b.readIndex n } n = .ok b := by
  have size := length_readable valid
  have word := valid.word
  have ordered := valid.ordered
  have bounded := valid.bounded
  have sum : sizeAdd b.readIndex n = b.readIndex + n := sizeAdd_of_lt (by omega)
  have passes : n < b.readIndex + n := by omega
  simp [unreadBytes,sum,passes]

/-- Rewound to the reserve, it gets what stands in front of the reserve. -/
theorem unreadBytes_rewound (n : Nat) (room : n < b.reservedPrependSize) : ∃ b', b.reset.unreadBytes n = .ok b' ∧
    b'.readable = Region.slice b.storage (b.reservedPrependSize - n) n := by
  refine ⟨{ b with readIndex := b.reservedPrependSize - n, writeIndex := b.reservedPrependSize },?_,?_⟩
  · simp [unreadBytes,reset,truncate,room]
  · have width : b.reservedPrependSize - (b.reservedPrependSize - n) = n := by omega
    simp only [readable,width]

/-- The read and an immediate `UnreadBytes` of its bytes return, and give the contents back. -/
def Read.Undone (order : ByteOrder) (b : Buffer) (read : Read) : Prop :=
  ∃ b' b'', read.run order b = .ok b' ∧ b'.unreadBytes (read.count b) = .ok b'' ∧ b''.readable = b.readable

theorem Read.Undoable.undone (valid : b.Valid) (order : ByteOrder) (enough : read.count b ≤ b.readable.length)
    (undoable : read.Undoable b) : read.Undone order b := by
  have done := read.run_eq valid order enough
  by_cases rewinds : read.Rewinds b
  · rw [if_pos rewinds] at done
    obtain ⟨place,room⟩ := undoable.2 rewinds
    obtain ⟨b'',unread,contents⟩ := unreadBytes_rewound (read.count b) room
    refine ⟨b.reset,b'',done,unread,?_⟩
    have all : read.count b = b.readable.length := Nat.le_antisymm enough rewinds.2
    rcases place with nothing | place
    · rw [contents,nothing,Region.slice_zero,eq_comm,← List.length_eq_zero_iff,← all,nothing]
    · have size := length_readable valid
      have ordered := valid.ordered
      rw [contents,all,← place,size,readable]
      congr 1
      omega
  · rw [if_neg rewinds] at done
    exact ⟨_,b,done,unreadBytes_advanced valid _ enough (undoable.1 rewinds),rfl⟩

/-- A read that did not rewind is taken back only in front of a read index that was not zero. -/
theorem Read.Undone.ahead (undone : read.Undone order b) (valid : b.Valid) (enough : read.count b ≤ b.readable.length)
    (stays : ¬read.Rewinds b) : 0 < b.readIndex := by
  obtain ⟨b',b'',done,unread,-⟩ := undone
  rw [read.run_eq valid order enough,if_neg stays] at done
  cases done
  obtain ⟨_,passes,-⟩ := bind_ok_iff.mp unread
  have passes : read.count b < sizeAdd b.readIndex (read.count b) := assert_ok_iff.mp passes
  have sum := sizeAdd_le b.readIndex (read.count b)
  omega

/-- One that rewound is answered with what stands in front of the reserve. -/
theorem Read.Undone.reserve (undone : read.Undone order b) (valid : b.Valid) (enough : read.count b ≤ b.readable.length)
    (rewinds : read.Rewinds b) : read.count b < b.reservedPrependSize ∧
      Region.slice b.storage (b.reservedPrependSize - read.count b) (read.count b) = b.readable := by
  obtain ⟨b',b'',done,unread,contents⟩ := undone
  rw [read.run_eq valid order enough,if_pos rewinds] at done
  cases done
  obtain ⟨_,passes,-⟩ := bind_ok_iff.mp unread
  have room : read.count b < b.reservedPrependSize := assert_ok_iff.mp passes
  obtain ⟨c,unread',contents'⟩ := unreadBytes_rewound (read.count b) room
  cases unread'.symm.trans unread
  exact ⟨room,contents'.symm.trans contents⟩

/-- Which bytes the storage holds makes no difference to what a read consumes. -/
theorem Read.other_storage (valid : b.Valid) (read : Read) (sized : mem.length = b.storage.length) :
    Valid { b with storage := mem } ∧ (readable { b with storage := mem }).length = b.readable.length ∧
    read.count { b with storage := mem } = read.count b ∧
    (read.Rewinds { b with storage := mem } ↔ read.Rewinds b) := by
  have valid' : Valid { b with storage := mem } :=
    ⟨sized.trans valid.storage,valid.word,valid.reserved,valid.ordered,valid.bounded⟩
  have size : (readable { b with storage := mem }).length = b.readable.length := by
    rw [length_readable valid',length_readable valid]
  have counts : read.count { b with storage := mem } = read.count b := by
    cases read with
    | nextAll => exact size
    | _ => rfl
  refine ⟨valid',size,counts,?_⟩
  rw [Read.Rewinds,Read.Rewinds,size,counts]

/-- An immediate `UnreadBytes` undoes a read, whatever the bytes are, exactly when they are
still in front of the read index: the read left a byte unread or was a `ReadByte`, of a
buffer that does not start at index zero; or it drained bytes standing right in front of
the reserve. -/
theorem unreadBytes_undoes (valid : b.Valid) (order : ByteOrder) (read : Read)
    (enough : read.count b ≤ b.readable.length) :
    read.Undoable b ↔
      ∀ mem, mem.length = b.storage.length → read.Undone order { b with storage := mem } := by
  constructor
  · intro undoable mem sized
    obtain ⟨valid',size,counts,rewinds⟩ := read.other_storage valid sized
    apply Read.Undoable.undone valid' order
    · rwa [counts,size]
    · rwa [Read.Undoable,rewinds,counts]
  · intro undone
    refine ⟨(undone b.storage rfl).ahead valid enough,fun rewinds => ?_⟩
    have room : read.count b < b.reservedPrependSize := ((undone b.storage rfl).reserve valid enough rewinds).1
    have all : read.count b = b.readable.length := Nat.le_antisymm enough rewinds.2
    have size := length_readable valid
    obtain ⟨stored,word,reserved,ordered,bounded⟩ := id valid
    refine ⟨?_,room⟩
    -- with other bytes in the storage two places give different answers
    have agree (mem : List UInt8) (sized : mem.length = b.storage.length) :
        Region.slice mem (b.reservedPrependSize - read.count b) (read.count b) =
          Region.slice mem b.readIndex (read.count b) := by
      obtain ⟨valid',size',counts,rewinds'⟩ := read.other_storage valid sized
      obtain ⟨-,answer⟩ := (undone mem sized).reserve valid' (by rwa [counts,size']) (rewinds'.mpr rewinds)
      rw [counts] at answer
      rw [answer,all,size]
      rfl
    have distinct : (0 : UInt8) ≠ 1 := by decide
    rcases Region.same_place distinct (by omega) (by omega) agree with nothing | place
    · exact .inl nothing
    · right
      omega

/-- A skip inside the contents, and a drain of bytes that were prepended. -/
theorem unreadBytes_undoes_twice :
    let b : Buffer := ⟨[0,0,0,0,1,2,3,0],8,4,7,4⟩
    let c : Buffer := ⟨[0,0,1,2,0,0,0,0],8,2,4,4⟩
    (∃ b' b'', b.skip 2 = .ok b' ∧ b'.unreadBytes 2 = .ok b'' ∧ b''.readable = [1,2,3]) ∧
    ∃ c' c'', Read.run .little c .nextAll = .ok c' ∧ c'.unreadBytes 2 = .ok c'' ∧ c''.readable = [1,2] := by
  intro b c
  have valid : b.Valid := ⟨rfl,by decide,by decide,by decide,by decide⟩
  have valid' : c.Valid := ⟨rfl,by decide,by decide,by decide,by decide⟩
  exact ⟨(unreadBytes_undoes valid .little (.skip 2) (by decide)).mp (by decide) b.storage rfl,
    (unreadBytes_undoes valid' .little .nextAll (by decide)).mp (by decide) c.storage rfl⟩

/-- With nothing reserved the first read cannot be taken back; and a read that drains the
buffer is answered with bytes of the reserve. -/
theorem unreadBytes_fails :
    let alloc := Allocator.zeroed 64 (by decide)
    (do let b ← construct alloc 4 0
        let b ← b.append alloc [1,2]
        let b ← b.skip 1
        b.unreadBytes 1) = .error (.assertion .unreadBytes) ∧
    (do let b ← construct alloc 4 kCheapPrependSize
        let b ← b.append alloc [1,2]
        let b ← b.skip 2
        let b ← b.unreadBytes 2
        b.toSlice) = .ok [0,0] := by
  decide +kernel

/-- `EnsureWritableBytes` returns with the room it promises, the same contents, ordered
indices and no less capacity. -/
def MakesRoom (b : Buffer) (alloc : Allocator) (len : Nat) : Prop :=
  ∃ b', b.ensureWritableBytes alloc len = .ok b' ∧ len ≤ b'.capacity - b'.writeIndex ∧
    b'.readable = b.readable ∧ b.capacity ≤ b'.capacity ∧ b'.Valid

def Reserves (b : Buffer) (alloc : Allocator) (len : Nat) : Prop :=
  ∃ b', b.reserve alloc len = .ok b' ∧ len ≤ b'.capacity ∧
    b'.readable = b.readable ∧ b.capacity ≤ b'.capacity ∧ b'.Valid

theorem makesRoom_of (valid : b.Valid) (fits : b.WriteFits len) (serves : ¬b.Unserved alloc len) :
    b.MakesRoom alloc len := by
  rcases ensureWritableBytes_spec valid alloc len fits with ⟨unserved,-⟩ | ⟨b',done,grown⟩
  · exact absurd unserved serves
  · exact ⟨b',done,grown.room,grown.readable,grown.capacity,grown.valid⟩

theorem reserves_of (valid : b.Valid) (fits : b.ReserveFits len) (serves : ¬b.ReserveUnserved alloc len) :
    b.Reserves alloc len := by
  rcases reserve_spec valid alloc len fits with ⟨unserved,-⟩ | ⟨b',done,valid',contents,room,capacity⟩
  · exact absurd unserved serves
  · exact ⟨b',done,room,contents,capacity,valid'⟩

/-- Room for `len` bytes in an allocation that the host served: the sums are words. -/
theorem Small.makesRoom_iff (small : b.Small) (alloc : Allocator) (len : Nat) :
    b.MakesRoom alloc len ↔ b.WriteFits len ∧ ¬b.Unserved alloc len := by
  refine ⟨fun ⟨b',done,room,_⟩ => ?_,fun ⟨fits,serves⟩ => makesRoom_of small.valid fits serves⟩
  have served := (small.ensureWritableBytes_returned done).1.served
  have reserved := small.valid.reserved
  have capacity := small.served
  have fits : b.WriteFits len := fun _ => ⟨by omega,fun _ => by omega⟩
  refine ⟨fits,fun unserved => ?_⟩
  have failed := unserved.grow small.valid (fits unserved.short)
  simp [ensureWritableBytes,small.valid,unserved.short,failed] at done

theorem Small.reserves_iff (small : b.Small) (alloc : Allocator) (len : Nat) :
    b.Reserves alloc len ↔ b.ReserveFits len ∧ ¬b.ReserveUnserved alloc len := by
  refine ⟨fun ⟨b',done,room,_⟩ => ?_,fun ⟨fits,serves⟩ => reserves_of small.valid fits serves⟩
  have served := (small.reserve_returned done).1.served
  have reserved := small.valid.reserved
  have capacity := small.served
  have fits : b.ReserveFits len := ⟨by omega,fun _ => ⟨by omega,fun _ => by omega⟩⟩
  refine ⟨fits,fun ⟨growing,unserved⟩ => ?_⟩
  have failed := unserved.grow small.valid (fits.2 growing)
  rw [reserve,sizeAdd_of_lt fits.1,if_neg (Nat.not_le.mpr growing),failed] at done
  cases done

/-- As long as no sum wraps and the allocation that is asked for is served, both return as
they promise; and on an allocation that the host served, only then. -/
theorem growing_keeps_contents (valid : b.Valid) (alloc : Allocator) (len : Nat) :
    (b.WriteFits len → ¬b.Unserved alloc len → b.MakesRoom alloc len) ∧
    (b.ReserveFits len → ¬b.ReserveUnserved alloc len → b.Reserves alloc len) ∧
    (b.capacity < 2^62 →
      (b.MakesRoom alloc len ↔ b.WriteFits len ∧ ¬b.Unserved alloc len) ∧
      (b.Reserves alloc len ↔ b.ReserveFits len ∧ ¬b.ReserveUnserved alloc len)) := by
  refine ⟨makesRoom_of valid,reserves_of valid,fun served => ?_⟩
  have small : b.Small := ⟨valid,served⟩
  exact ⟨small.makesRoom_iff alloc len,small.reserves_iff alloc len⟩

/-- Room made by a move, a larger allocation, and a length whose sum would wrap. -/
theorem growing_keeps_contents_twice :
    let b : Buffer := ⟨[0,0,0,0,0,0,1,2],8,6,8,2⟩
    let alloc := Allocator.zeroed 64 (by decide)
    b.MakesRoom alloc 4 ∧ b.Reserves alloc 20 ∧ ¬b.MakesRoom alloc (2^64 - 1) := by
  intro b alloc
  have valid : b.Valid := ⟨rfl,by decide,by decide,by decide,by decide⟩
  refine ⟨?_,?_,?_⟩
  · apply (growing_keeps_contents valid alloc 4).1 (by decide)
    intro unserved
    exact absurd unserved.tight (by decide)
  · apply (growing_keeps_contents valid alloc 20).2.1 (by decide)
    intro refused
    exact absurd refused.unserved.refused (by decide)
  · intro room
    obtain ⟨-,-,exactly⟩ := growing_keeps_contents valid alloc (2^64 - 1)
    exact absurd ((exactly (by decide)).1.mp room).1 (by decide)

/-- Asked for `2^64 - 2056` bytes, a buffer with one byte in it allocates eight and copies
that byte behind them; asked to reserve all of the address space, it does nothing. -/
theorem growing_wraps :
    let alloc := Allocator.zeroed 4096 (by decide)
    (do let b ← construct alloc kInitialSize kCheapPrependSize
        let b ← b.append alloc [1]
        b.ensureWritableBytes alloc (2^64 - 2056)) = .error .outOfBounds ∧
    (do let b ← construct alloc kInitialSize kCheapPrependSize
        let b ← b.reserve alloc (2^64 - 1)
        return b.capacity) = .ok 1032 := by
  decide +kernel

/-- Asked to keep more than there is, `Truncate` does nothing. -/
theorem truncate_all (valid : b.Valid) (n : Nat) (fits : b.readIndex + n < 2^64)
    (long : b.readable.length < n) : b.truncate n = b := by
  have size := length_readable valid
  have some : n ≠ 0 := by omega
  have inside : b.writeIndex ≤ b.readIndex + n := by omega
  simp [truncate,some,sizeAdd_of_lt fits,inside]

/-- A sum that wraps ends up in front of the read index, and the write index follows it. -/
theorem truncate_wrapped (valid : b.Valid) (n : Nat) (word : n < 2^64) (wraps : 2^64 ≤ b.readIndex + n) :
    (b.truncate n).writeIndex < (b.truncate n).readIndex := by
  have ordered := valid.ordered
  have bounded := valid.bounded
  have capacity := valid.word
  have some : n ≠ 0 := by omega
  have sum : sizeAdd b.readIndex n = b.readIndex + n - 2^64 := by
    rw [sizeAdd,Nat.mod_eq_sub_mod wraps,Nat.mod_eq_of_lt (by omega)]
  have front : b.readIndex + n - 2^64 < b.readIndex := by omega
  have taken : b.readIndex + n - 2^64 < b.writeIndex := by omega
  rw [truncate,if_neg some,sum,if_pos taken]
  exact front

/-- Exactly the lengths whose sum with the read index is a word leave the indices in order. -/
theorem truncate_valid_iff (valid : b.Valid) (n : Nat) (word : n < 2^64) :
    (b.truncate n).Valid ↔ b.readIndex + n < 2^64 := by
  constructor
  · intro kept
    by_contra wraps
    have crossed := truncate_wrapped valid n word (Nat.le_of_not_lt wraps)
    exact absurd kept.ordered (Nat.not_le_of_lt crossed)
  · exact truncate_valid valid n

/-- `Skip`, `Retrieve` and `Next` clamp every length to that of the contents. `Truncate`
does exactly when the sum it compares with the write index does not wrap. -/
theorem clamps_to_length (valid : b.Valid) (n : Nat) :
    (∃ b', b.skip n = .ok b' ∧ b.retrieve n = .ok b' ∧ b'.Valid ∧
      b'.readable = b.readable.drop (min n b.readable.length)) ∧
    (∃ b', b.next n = .ok (b.readable.take (min n b.readable.length),b') ∧ b'.Valid ∧
      b'.readable = b.readable.drop (min n b.readable.length)) ∧
    (n < 2^64 → (b.readIndex + n < 2^64 ↔ (b.truncate n).Valid ∧
      (b.truncate n).readable = b.readable.take (min n b.readable.length) ∧
      (b.readable.length < n → b.truncate n = b))) := by
  have taken : b.readable.take (min n b.readable.length) = b.readable.take n := by
    rw [← List.take_eq_take_min]
  have dropped : b.readable.drop (min n b.readable.length) = b.readable.drop n := by
    rw [← List.drop_eq_drop_min]
  rw [taken,dropped]
  refine ⟨?_,next_spec valid n,?_⟩
  · obtain ⟨b',done,valid',contents⟩ := skip_spec valid n
    exact ⟨b',done,done,valid',contents⟩
  · intro word
    refine ⟨fun fits => ?_,fun ⟨kept,_⟩ => (truncate_valid_iff valid n word).mp kept⟩
    exact ⟨truncate_valid valid n fits,readable_truncate valid n fits,truncate_all valid n fits⟩

/-- Two bytes out of three, and more than there are. -/
theorem clamps_to_length_twice :
    let b : Buffer := ⟨[0,0,0,0,1,2,3,0],8,4,7,4⟩
    (b.truncate 2).readable = [1,2] ∧ b.truncate (2^64 - 5) = b ∧
    (∃ b', b.skip 2 = .ok b' ∧ b'.readable = [3]) ∧
    ∃ b', b.next (2^64 - 1) = .ok ([1,2,3],b') ∧ b'.Valid := by
  intro b
  have valid : b.Valid := ⟨rfl,by decide,by decide,by decide,by decide⟩
  obtain ⟨⟨skipped,done,-,-,rest⟩,-,kept⟩ := clamps_to_length valid 2
  obtain ⟨-,⟨drained,all,valid',-⟩,-⟩ := clamps_to_length valid (2^64 - 1)
  obtain ⟨-,-,whole⟩ := clamps_to_length valid (2^64 - 5)
  exact ⟨((kept (by decide)).mp (by decide)).2.1,((whole (by decide)).mp (by decide)).2.2 (by decide),
    ⟨skipped,done,rest⟩,drained,all,valid'⟩

/-- Told to keep `2^64 - 1` bytes, a buffer with one byte in it moves its write index in
front of its read index, and the next call that asks for its length fails. -/
theorem truncate_crosses :
    let alloc := Allocator.zeroed 4096 (by decide)
    let one := do
      let b ← construct alloc kInitialSize kCheapPrependSize
      b.append alloc [1]
    (do let b ← one
        return (b.readIndex,b.writeIndex)) = .ok (8,9) ∧
    (do let b ← one
        let b := b.truncate (2^64 - 1)
        return (b.readIndex,b.writeIndex)) = .ok (8,7) ∧
    (do let b ← one
        (b.truncate (2^64 - 1)).skip 1) = .error (.assertion .length) := by
  decide +kernel

end Evk.Buffer
