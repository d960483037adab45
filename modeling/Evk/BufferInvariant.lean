import Evk.Buffer

/-! The index invariant of the buffer and one specification per operation. Each says
that the operation returns, keeps the invariant and what it does to the readable
bytes; a growing operation can also be refused its allocation. -/
namespace Evk.Buffer

open Region

structure Valid (b : Buffer) : Prop where
  storage : b.storage.length = b.capacity
  word : b.capacity < 2^64
  reserved : b.reservedPrependSize ≤ b.capacity
  ordered : b.readIndex ≤ b.writeIndex
  bounded : b.writeIndex ≤ b.capacity

def readable (b : Buffer) : List UInt8 := slice b.storage b.readIndex (b.writeIndex - b.readIndex)

variable {b : Buffer}

theorem length_readable (valid : b.Valid) : b.readable.length = b.writeIndex - b.readIndex := by
  have := valid.ordered
  have := valid.bounded
  exact length_slice _ _ _ (by rw [valid.storage]; omega)

@[simp] theorem length_eq (valid : b.Valid) : b.length = .ok b.readable.length := by
  simp [length,valid.ordered,length_readable valid]

@[simp] theorem size_eq (valid : b.Valid) : b.size = .ok b.readable.length := length_eq valid

@[simp] theorem writableBytes_eq (valid : b.Valid) :
    b.writableBytes = .ok (b.capacity - b.writeIndex) := by
  simp [writableBytes,valid.bounded]

theorem readable_copyOut (valid : b.Valid) (n : Nat) (enough : n ≤ b.readable.length) :
    copyOut b.storage b.readIndex n = .ok (b.readable.take n) := by
  rw [length_readable valid] at enough
  have := valid.ordered
  have := valid.bounded
  rw [copyOut_of (by rw [valid.storage]; omega),readable,slice_take,Nat.min_eq_left enough]

@[simp] theorem toSlice_eq (valid : b.Valid) : b.toSlice = .ok b.readable := by
  simp [toSlice,valid,readable_copyOut valid _ (Nat.le_refl _)]

theorem construct_spec (alloc : Allocator) (initialSize reserved : Nat)
    (fits : reserved + initialSize < 2^64) :
    (alloc.new (reserved + initialSize) = none ∧
      construct alloc initialSize reserved = .error .badAlloc) ∨
    ∃ b, construct alloc initialSize reserved = .ok b ∧ b.Valid ∧ b.readable = [] ∧
      b.capacity = reserved + initialSize ∧ b.readIndex = reserved ∧
      b.writeIndex = reserved ∧ b.reservedPrependSize = reserved := by
  rcases alloc.allocate_cases (reserved + initialSize) with ⟨none,refused⟩ | ⟨d,-,sized,served⟩
  · exact .inl ⟨none,by simp [construct,sizeAdd_of_lt fits,refused]⟩
  · right
    refine ⟨⟨d,reserved + initialSize,reserved,reserved,reserved⟩,?_,
      ⟨sized,fits,by simp,by simp,by simp⟩,by simp [readable],rfl,rfl,rfl,rfl⟩
    simp [construct,sizeAdd_of_lt fits,served,length,writableBytes,prependableBytes]

theorem truncate_valid (valid : b.Valid) (n : Nat) (fits : b.readIndex + n < 2^64) :
    (b.truncate n).Valid := by
  obtain ⟨storage,word,reserved,ordered,bounded⟩ := valid
  unfold truncate
  split
  · exact ⟨storage,word,reserved,Nat.le_refl _,reserved⟩
  · rw [sizeAdd_of_lt fits]
    split
    · exact ⟨storage,word,reserved,Nat.le_add_right _ _,by simp only; omega⟩
    · exact ⟨storage,word,reserved,ordered,bounded⟩

theorem readable_truncate (valid : b.Valid) (n : Nat) (fits : b.readIndex + n < 2^64) :
    (b.truncate n).readable = b.readable.take n := by
  have := valid.ordered
  unfold truncate
  split
  · simp [readable, *]
  · rw [sizeAdd_of_lt fits]
    split
    · simp only [readable,slice_take]
      congr 1
      omega
    · simp only [readable,slice_take]
      congr 1
      omega

theorem reset_valid (valid : b.Valid) : b.reset.Valid :=
  truncate_valid valid 0 (by have := valid.ordered; have := valid.bounded; have := valid.word; omega)

@[simp] theorem readable_reset : b.reset.readable = [] := by simp [reset,truncate,readable]

theorem advance_valid (valid : b.Valid) (n : Nat) (enough : n ≤ b.readable.length) :
    Valid { b with readIndex := sizeAdd b.readIndex n } ∧
    readable { b with readIndex := sizeAdd b.readIndex n } = b.readable.drop n := by
  rw [length_readable valid] at enough
  obtain ⟨storage,word,reserved,ordered,bounded⟩ := valid
  rw [sizeAdd_of_lt (by omega)]
  refine ⟨⟨storage,word,reserved,by simp only; omega,bounded⟩,?_⟩
  simp only [readable,slice_drop]
  congr 1
  omega

theorem skip_spec (valid : b.Valid) (len : Nat) :
    ∃ b', b.skip len = .ok b' ∧ b'.Valid ∧ b'.readable = b.readable.drop len := by
  by_cases short : len < b.readable.length
  · exact ⟨_,by simp [skip,valid,short],advance_valid valid len (by omega)⟩
  · refine ⟨b.reset,by simp [skip,valid,short],reset_valid valid,?_⟩
    simp [List.drop_eq_nil_of_le (Nat.le_of_not_lt short)]

theorem nextAll_spec (valid : b.Valid) :
    b.nextAll = .ok (b.readable,b.reset) := by
  simp [nextAll,valid,readable_copyOut valid _ (Nat.le_refl _)]

theorem next_spec (valid : b.Valid) (len : Nat) :
    ∃ b', b.next len = .ok (b.readable.take len,b') ∧ b'.Valid ∧ b'.readable = b.readable.drop len := by
  by_cases short : len < b.readable.length
  · exact ⟨_,by simp [next,valid,short,readable_copyOut valid len (by omega)],
      advance_valid valid len (by omega)⟩
  · have long : b.readable.length ≤ len := by omega
    refine ⟨b.reset,?_,reset_valid valid,by simp [List.drop_eq_nil_of_le long]⟩
    simp [next,valid,short,nextAll_spec valid,List.take_of_length_le long]

/-- The sums `grow` computes on the branch it takes. -/
def GrowFits (b : Buffer) (len : Nat) : Prop :=
  len + b.reservedPrependSize < 2^64 ∧
  (b.capacity - b.writeIndex + b.readIndex < len + b.reservedPrependSize →
    2 * b.capacity + len < 2^64)

instance (b : Buffer) (len : Nat) : Decidable (b.GrowFits len) :=
  inferInstanceAs (Decidable (_ ∧ (_ → _)))

/-- What a growing operation leaves: the same contents and reserve, room for `len`. -/
structure Grown (b b' : Buffer) (len : Nat) : Prop where
  valid : b'.Valid
  readable : b'.readable = b.readable
  room : len ≤ b'.capacity - b'.writeIndex
  reserve : b'.reservedPrependSize = b.reservedPrependSize
  capacity : b.capacity ≤ b'.capacity
  served : b'.capacity = b.capacity ∨ b'.capacity < 2^62

/-- Room for `len` bytes takes a new allocation, and that is turned down. -/
structure Unserved (b : Buffer) (alloc : Allocator) (len : Nat) : Prop where
  short : b.capacity - b.writeIndex < len
  tight : b.capacity - b.writeIndex + b.readIndex < len + b.reservedPrependSize
  refused : alloc.new (2 * b.capacity + len) = none

/-- Contents laid down at the reserve of an allocation of `n` bytes. -/
theorem laid_valid {d contents : List UInt8} (sized : d.length = n) (inside : reserved + contents.length ≤ n)
    (word : n < 2^64) :
    Valid ⟨store d reserved contents,n,reserved,reserved + contents.length,reserved⟩ ∧
    readable ⟨store d reserved contents,n,reserved,reserved + contents.length,reserved⟩ = contents := by
  subst sized
  refine ⟨⟨by simp only [length_store _ _ _ inside],word,by simp only; omega,by simp,inside⟩,?_⟩
  simp only [readable,Nat.add_sub_cancel_left]
  exact slice_store_same d _ _ (by omega)

theorem free_eq (valid : b.Valid) :
    sizeAdd (b.capacity - b.writeIndex) b.readIndex = b.capacity - b.writeIndex + b.readIndex := by
  have := valid.word
  have := valid.ordered
  have := valid.bounded
  exact sizeAdd_of_lt (by omega)

theorem doubled_of_lt (total : 2 * b.capacity + len < 2^64) :
    sizeAdd (sizeAdd b.capacity b.capacity) len = 2 * b.capacity + len := by
  rw [sizeAdd_of_lt (a := b.capacity) (by omega),sizeAdd_of_lt (by omega)]
  omega

theorem Unserved.grow (unserved : b.Unserved alloc len) (valid : b.Valid) (fits : b.GrowFits len) :
    b.grow alloc len = .error .badAlloc := by
  obtain ⟨short,tight,refused⟩ := unserved
  obtain ⟨request,total⟩ := fits
  have fails : alloc.allocate (2 * b.capacity + len) = .error .badAlloc := by simp [Allocator.allocate,refused]
  simp [Buffer.grow,valid,prependableBytes,free_eq valid,sizeAdd_of_lt request,tight,doubled_of_lt (total tight),fails]

/-- Too little free space on both sides: the contents move to a larger allocation. -/
theorem grow_reallocates (valid : b.Valid) (alloc : Allocator) (len : Nat)
    (short : b.capacity - b.writeIndex < len)
    (tight : b.capacity - b.writeIndex + b.readIndex < len + b.reservedPrependSize)
    (request : len + b.reservedPrependSize < 2^64) (total : 2 * b.capacity + len < 2^64) :
    (b.Unserved alloc len ∧ b.grow alloc len = .error .badAlloc) ∨
    ∃ b', b.grow alloc len = .ok b' ∧ Grown b b' len := by
  have size := length_readable valid
  have copied := readable_copyOut valid b.readable.length (Nat.le_refl _)
  have sides := free_eq valid
  obtain ⟨storage,word,reserved,ordered,bounded⟩ := id valid
  have twice := doubled_of_lt total
  rcases alloc.allocate_cases (2 * b.capacity + len) with ⟨none,-⟩ | ⟨d,new,sized,served⟩
  · have unserved : b.Unserved alloc len := ⟨short,tight,none⟩
    exact .inl ⟨unserved,unserved.grow valid ⟨request,fun _ => total⟩⟩
  · right
    have inside : b.reservedPrependSize + b.readable.length ≤ 2 * b.capacity + len := by omega
    have written : sizeAdd b.readable.length b.reservedPrependSize = b.reservedPrependSize + b.readable.length := by
      rw [sizeAdd_of_lt (by omega),Nat.add_comm]
    obtain ⟨laid,contents⟩ := laid_valid sized inside total
    refine ⟨_,?_,laid,contents,by simp only; omega,rfl,by simp only; omega,.inr (alloc.bounded _ _ new)⟩
    simp [grow,valid,prependableBytes,sides,sizeAdd_of_lt request,tight,twice,served,copied,
      copyIn_of (sized ▸ inside),written]

/-- Enough free space on both sides: the contents move to the front. -/
theorem grow_moves (valid : b.Valid) (alloc : Allocator) (len : Nat)
    (short : b.capacity - b.writeIndex < len)
    (loose : ¬b.capacity - b.writeIndex + b.readIndex < len + b.reservedPrependSize)
    (request : len + b.reservedPrependSize < 2^64) : ∃ b', b.grow alloc len = .ok b' ∧ Grown b b' len := by
  have size := length_readable valid
  have copied := readable_copyOut valid b.readable.length (Nat.le_refl _)
  have sides := free_eq valid
  obtain ⟨storage,word,reserved,ordered,bounded⟩ := id valid
  have inside : b.reservedPrependSize + b.readable.length ≤ b.capacity := by omega
  have shifted : sizeAdd b.reservedPrependSize b.readable.length =
      b.reservedPrependSize + b.readable.length := sizeAdd_of_lt (by omega)
  have ahead : b.reservedPrependSize < b.readIndex := by omega
  have room : len ≤ b.capacity - (b.reservedPrependSize + b.readable.length) := by omega
  obtain ⟨laid,contents⟩ := laid_valid storage inside word
  refine ⟨_,?_,laid,contents,room,rfl,Nat.le_refl _,.inl rfl⟩
  simp [grow,valid,prependableBytes,sides,sizeAdd_of_lt request,loose,ahead,copied,
    copyIn_of (storage ▸ inside),shifted,length_eq laid,writableBytes_eq laid,contents,room]

/-- Both callers of `grow` find the writable part too short for `len`. -/
theorem grow_spec (valid : b.Valid) (alloc : Allocator) (len : Nat)
    (short : b.capacity - b.writeIndex < len) (fits : b.GrowFits len) :
    (b.Unserved alloc len ∧ b.grow alloc len = .error .badAlloc) ∨
    ∃ b', b.grow alloc len = .ok b' ∧ Grown b b' len := by
  obtain ⟨request,doubled⟩ := fits
  by_cases tight : b.capacity - b.writeIndex + b.readIndex < len + b.reservedPrependSize
  · exact grow_reallocates valid alloc len short tight request (doubled tight)
  · exact .inr (grow_moves valid alloc len short tight request)

theorem Grown.refl (valid : b.Valid) (room : len ≤ b.capacity - b.writeIndex) : Grown b b len :=
  ⟨valid,rfl,room,rfl,Nat.le_refl _,.inl rfl⟩

/-- The sums of `EnsureWritableBytes`, and of `Write` with `len` bytes. -/
def WriteFits (b : Buffer) (len : Nat) : Prop := b.capacity - b.writeIndex < len → b.GrowFits len

instance (b : Buffer) (len : Nat) : Decidable (b.WriteFits len) :=
  inferInstanceAs (Decidable (_ → _))

theorem ensureWritableBytes_spec (valid : b.Valid) (alloc : Allocator) (len : Nat)
    (fits : b.WriteFits len) :
    (b.Unserved alloc len ∧ b.ensureWritableBytes alloc len = .error .badAlloc) ∨
    ∃ b', b.ensureWritableBytes alloc len = .ok b' ∧ Grown b b' len := by
  by_cases short : b.capacity - b.writeIndex < len
  · rcases grow_spec valid alloc len short (fits short) with ⟨unserved,refused⟩ | ⟨b',served,grown⟩
    · exact .inl ⟨unserved,by simp [ensureWritableBytes,valid,short,refused]⟩
    · refine .inr ⟨b',?_,grown⟩
      simp [ensureWritableBytes,valid,short,served,writableBytes_eq grown.valid,grown.room]
  · have room : len ≤ b.capacity - b.writeIndex := by omega
    exact .inr ⟨b,by simp [ensureWritableBytes,valid,short,room],Grown.refl valid room⟩

theorem store_behind (valid : b.Valid) (d : List UInt8) (room : d.length ≤ b.capacity - b.writeIndex) :
    Valid { b with storage := store b.storage b.writeIndex d,
                   writeIndex := sizeAdd b.writeIndex d.length } ∧
    readable { b with storage := store b.storage b.writeIndex d,
                      writeIndex := sizeAdd b.writeIndex d.length } = b.readable ++ d := by
  obtain ⟨storage,word,reserved,ordered,bounded⟩ := valid
  have inside : b.writeIndex + d.length ≤ b.storage.length := by omega
  rw [sizeAdd_of_lt (by omega)]
  refine ⟨⟨by simp only [length_store _ _ _ inside,storage],word,reserved,by simp only; omega,
    by simp only; omega⟩,?_⟩
  simp only [readable]
  rw [show b.writeIndex + d.length - b.readIndex = b.writeIndex - b.readIndex + d.length by omega,
    slice_add,slice_store_before _ _ _ _ _ (by omega) (by omega),
    show b.readIndex + (b.writeIndex - b.readIndex) = b.writeIndex by omega,
    slice_store_same _ _ _ (by omega)]

theorem write_spec (valid : b.Valid) (alloc : Allocator) (d : List UInt8)
    (fits : b.WriteFits d.length) :
    (b.Unserved alloc d.length ∧ b.write alloc d = .error .badAlloc) ∨
    ∃ b', b.write alloc d = .ok b' ∧ b'.Valid ∧ b'.readable = b.readable ++ d ∧
      (b'.capacity = b.capacity ∨ b'.capacity < 2^62) := by
  rcases ensureWritableBytes_spec valid alloc d.length fits with ⟨unserved,refused⟩ | ⟨b',served,grown⟩
  · exact .inl ⟨unserved,by simp [write,refused]⟩
  · right
    have size := grown.valid.storage
    have bounded := grown.valid.bounded
    have word := grown.valid.word
    have room := grown.room
    have inside : b'.writeIndex + d.length ≤ b'.storage.length := by omega
    have total : sizeAdd b'.writeIndex d.length ≤ b'.capacity := by
      rw [sizeAdd_of_lt (by omega)]; omega
    obtain ⟨valid',contents⟩ := store_behind grown.valid d room
    exact ⟨_,by simp [write,served,copyIn_of inside,total],valid',by rw [contents,grown.readable],
      grown.served⟩

/-- A buffer whose allocation the host could serve. Sums over such sizes cannot wrap. -/
structure Small (b : Buffer) : Prop where
  valid : b.Valid
  served : b.capacity < 2^62

theorem allocate_returned {alloc : Allocator} (done : alloc.allocate n = .ok d) : d.length = n ∧ n < 2^62 := by
  cases new : alloc.new n with
  | none => simp [Allocator.allocate,new] at done
  | some fresh =>
    simp only [Allocator.allocate,new,Except.ok.injEq] at done
    subst done
    exact ⟨alloc.sized _ _ new,alloc.bounded _ _ new⟩

/-- Whatever sizes it was given, a buffer that could be built is empty and small. -/
theorem construct_returned (done : construct alloc initialSize reserved = .ok b) : b.Small ∧ b.readable = [] := by
  simp only [construct,bind_ok_iff] at done
  obtain ⟨d,allocated,_,_,_,_,writable,room,_,_,_,_,⟨⟩⟩ := done
  obtain ⟨sized,served⟩ := allocate_returned allocated
  simp only [writableBytes,bind_ok_iff] at room
  obtain ⟨_,bounded,_⟩ := room
  have bounded : reserved ≤ sizeAdd reserved initialSize := assert_ok_iff.mp bounded
  exact ⟨⟨⟨sized,by simp only; omega,bounded,Nat.le_refl _,bounded⟩,served⟩,by simp [readable]⟩

theorem Small.write_spec (small : b.Small) (alloc : Allocator) (d : List UInt8)
    (object : d.length < 2^62) :
    (b.Unserved alloc d.length ∧ b.write alloc d = .error .badAlloc) ∨
    ∃ b', b.write alloc d = .ok b' ∧ b'.Small ∧ b'.readable = b.readable ++ d := by
  obtain ⟨valid,served⟩ := small
  have reserved := valid.reserved
  rcases Buffer.write_spec valid alloc d (fun _ => ⟨by omega,fun _ => by omega⟩) with
    refused | ⟨b',done,valid',contents,capacity⟩
  · exact .inl refused
  · exact .inr ⟨b',done,⟨valid',by omega⟩,contents⟩

theorem skip_capacity (done : b.skip len = .ok b') : b'.capacity = b.capacity := by
  simp only [skip,bind_ok_iff] at done
  obtain ⟨n,-,done⟩ := done
  split at done <;> cases done
  · rfl
  · simp [reset,truncate]

theorem Small.skip_spec (small : b.Small) (len : Nat) :
    ∃ b', b.skip len = .ok b' ∧ b'.Small ∧ b'.readable = b.readable.drop len := by
  obtain ⟨b',done,valid,contents⟩ := Buffer.skip_spec small.valid len
  exact ⟨b',done,⟨valid,skip_capacity done ▸ small.served⟩,contents⟩

theorem readLimit_le (writable : Nat) : readLimit writable ≤ writable + 65536 := by
  unfold readLimit extrabufSize
  split <;> omega

/-- A read goes behind the contents, whether or not it fits the writable part. -/
theorem Small.readFromFD_spec (small : b.Small) (alloc : Allocator) (r : ReadResult)
    (legal : r.Legal (readLimit (b.capacity - b.writeIndex))) :
    (Unserved { b with writeIndex := b.capacity } alloc (r.delivered.length - (b.capacity - b.writeIndex)) ∧
      b.readFromFD alloc r = .error .badAlloc) ∨
    ∃ b', b.readFromFD alloc r = .ok b' ∧ b'.Small ∧ b'.readable = b.readable ++ r.delivered := by
  have writable := writableBytes_eq small.valid
  have storage := small.valid.storage
  have bounded := small.valid.bounded
  cases r with
  | failed e => exact .inr ⟨b,by simp [readFromFD,writable],small,by simp [ReadResult.delivered]⟩
  | bytes d =>
    by_cases fits : d.length ≤ b.capacity - b.writeIndex
    · obtain ⟨valid,contents⟩ := store_behind small.valid d fits
      have inside : b.writeIndex + d.length ≤ b.storage.length := by omega
      exact .inr ⟨_,by simp [readFromFD,writable,fits,copyIn_of inside],⟨valid,small.served⟩,contents⟩
    · have first : (d.take (b.capacity - b.writeIndex)).length = b.capacity - b.writeIndex := by
        rw [List.length_take]; omega
      have inside : b.writeIndex + (d.take (b.capacity - b.writeIndex)).length ≤ b.storage.length := by omega
      obtain ⟨valid,contents⟩ := store_behind small.valid (d.take (b.capacity - b.writeIndex)) (by omega)
      have full : sizeAdd b.writeIndex (d.take (b.capacity - b.writeIndex)).length = b.capacity := by
        rw [first,sizeAdd_of_lt (by have := small.valid.word; omega)]; omega
      rw [full] at valid contents
      have rest : (d.drop (b.capacity - b.writeIndex)).length < 2^62 := by
        have limit := readLimit_le (b.capacity - b.writeIndex)
        have legal : d.length ≤ readLimit (b.capacity - b.writeIndex) := legal
        rw [List.length_drop]
        omega
      have same : b.readFromFD alloc (.bytes d) = Buffer.append
          { b with
            storage := store b.storage b.writeIndex (d.take (b.capacity - b.writeIndex))
            writeIndex := b.capacity }
          alloc (d.drop (b.capacity - b.writeIndex)) := by
        simp [readFromFD,writable,fits,copyIn_of inside]
      rw [same]
      rcases Small.write_spec ⟨valid,small.served⟩ alloc _ rest with ⟨unserved,refused⟩ | ⟨b',done,small',readable'⟩
      · rw [List.length_drop] at unserved
        exact .inl ⟨⟨unserved.short,unserved.tight,unserved.refused⟩,refused⟩
      · refine .inr ⟨b',done,small',?_⟩
        rw [readable',contents,List.append_assoc,List.take_append_drop]
        rfl

def ReserveFits (b : Buffer) (len : Nat) : Prop :=
  len + b.reservedPrependSize < 2^64 ∧
  (b.capacity < len + b.reservedPrependSize → b.GrowFits (len + b.reservedPrependSize))

instance (b : Buffer) (len : Nat) : Decidable (b.ReserveFits len) :=
  inferInstanceAs (Decidable (_ ∧ (_ → _)))

/-- `Reserve` has to grow, and the allocation it asks for is refused. -/
structure ReserveUnserved (b : Buffer) (alloc : Allocator) (len : Nat) : Prop where
  small : b.capacity < len + b.reservedPrependSize
  unserved : b.Unserved alloc (len + b.reservedPrependSize)

theorem reserve_spec (valid : b.Valid) (alloc : Allocator) (len : Nat) (fits : b.ReserveFits len) :
    (b.ReserveUnserved alloc len ∧ b.reserve alloc len = .error .badAlloc) ∨
    ∃ b', b.reserve alloc len = .ok b' ∧ b'.Valid ∧ b'.readable = b.readable ∧ len ≤ b'.capacity ∧
      b.capacity ≤ b'.capacity := by
  obtain ⟨request,growing⟩ := fits
  by_cases small : b.capacity < len + b.reservedPrependSize
  · have growing' : b.reserve alloc len = b.grow alloc (len + b.reservedPrependSize) := by
      rw [reserve,sizeAdd_of_lt request,if_neg (by omega)]
    rcases grow_spec valid alloc _ (by omega) (growing small) with ⟨unserved,refused⟩ | ⟨b',served,grown⟩
    · exact .inl ⟨⟨small,unserved⟩,growing'.trans refused⟩
    · refine .inr ⟨b',growing'.trans served,grown.valid,grown.readable,?_,grown.capacity⟩
      have := grown.room
      omega
  · right
    refine ⟨b,?_,valid,rfl,by omega,Nat.le_refl _⟩
    rw [reserve,sizeAdd_of_lt request,if_pos (by omega)]

theorem prepend_spec (valid : b.Valid) (d : List UInt8) (room : d.length ≤ b.prependableBytes) :
    ∃ b', b.prepend d = .ok b' ∧ b'.Valid ∧ b'.readable = d ++ b.readable := by
  obtain ⟨storage,word,reserved,ordered,bounded⟩ := valid
  unfold prependableBytes at room
  have inside : b.readIndex - d.length + d.length ≤ b.storage.length := by omega
  refine ⟨{ b with storage := store b.storage (b.readIndex - d.length) d,
                   readIndex := b.readIndex - d.length },?_,?_,?_⟩
  · simp [prepend,prependableBytes,room,copyIn_of inside]
  · exact ⟨by simp only [length_store _ _ _ inside,storage],word,reserved,by simp only; omega,bounded⟩
  · simp only [readable]
    rw [show b.writeIndex - (b.readIndex - d.length) = d.length + (b.writeIndex - b.readIndex) by omega,
      slice_add,slice_store_same _ _ _ (by omega),slice_store_after _ _ _ _ _ inside (Nat.le_refl _)]
    congr 2
    omega

theorem unwriteBytes_spec (valid : b.Valid) (n : Nat) (enough : n ≤ b.readable.length) :
    ∃ b', b.unwriteBytes n = .ok b' ∧ b'.Valid ∧
      b'.readable = b.readable.take (b.readable.length - n) := by
  have size := length_readable valid
  refine ⟨{ b with writeIndex := b.writeIndex - n },by simp [unwriteBytes,valid,enough],?_,?_⟩
  · obtain ⟨storage,word,reserved,ordered,bounded⟩ := valid
    exact ⟨storage,word,reserved,by simp only; omega,by simp only; omega⟩
  · rw [size]
    simp only [readable,slice_take]
    congr 1
    omega

/-- After `ToText` the byte behind the contents terminates them. -/
theorem toText_spec (order : ByteOrder) (valid : b.Valid) (alloc : Allocator) (fits : b.WriteFits 1) :
    (b.Unserved alloc 1 ∧ b.toText order alloc = .error .badAlloc) ∨
    ∃ b', b.toText order alloc = .ok b' ∧ b'.Valid ∧ b'.readable = b.readable ∧
      b'.storage[b'.readIndex + b'.readable.length]? = some 0 := by
  have terminator : hostBytes order 1 0#8 = [0] := by cases order <;> rfl
  rcases write_spec valid alloc [0] fits with ⟨unserved,refused⟩ | ⟨w,served,valid',contents,-⟩
  · exact .inl ⟨unserved,by simp [toText,appendInt8,terminator,refused]⟩
  · right
    obtain ⟨b',taken,valid'',kept⟩ := unwriteBytes_spec valid' 1 (by simp [contents])
    have size : w.readable.length = b.readable.length + 1 := by simp [contents]
    have same : b'.readable = b.readable := by simp [kept,contents]
    refine ⟨b',by simp [toText,appendInt8,terminator,served,taken],valid'',same,?_⟩
    have fields : b'.storage = w.storage ∧ b'.readIndex = w.readIndex := by
      have : b' = { w with writeIndex := w.writeIndex - 1 } := by
        simpa [unwriteBytes,valid',size] using taken.symm
      exact this ▸ ⟨rfl,rfl⟩
    rw [fields.1,fields.2,same,← getElem?_slice _ _ (w.writeIndex - w.readIndex) _
      (by rw [← length_readable valid',size]; omega)]
    change w.readable[b.readable.length]? = some 0
    simp [contents]

/-- The new buffer is built with room for the contents, so the append to it never grows. -/
theorem shrink_exact (valid : b.Valid) (first second : Allocator) (reserve : Nat)
    (fits : kCheapPrependSize + (b.readable.length + reserve) < 2^64) :
    (first.new (kCheapPrependSize + (b.readable.length + reserve)) = none ∧
      b.shrink first second reserve = .error .badAlloc) ∨
    ∃ b', b.shrink first second reserve = .ok b' ∧ b'.Valid ∧ b'.readable = b.readable ∧
      b'.capacity - b'.writeIndex = reserve := by
  have sum : sizeAdd b.readable.length reserve = b.readable.length + reserve :=
    sizeAdd_of_lt (by omega)
  rcases construct_spec first (b.readable.length + reserve) kCheapPrependSize fits with
    ⟨none,refused⟩ | ⟨other,built,validOther,empty,capacity,-,written,-⟩
  · exact .inl ⟨none,by simp [shrink,valid,sum,refused]⟩
  · right
    have room : b.readable.length ≤ other.capacity - other.writeIndex := by omega
    have inside : other.writeIndex + b.readable.length ≤ other.storage.length := by
      rw [validOther.storage]
      omega
    have moved : sizeAdd other.writeIndex b.readable.length = other.writeIndex + b.readable.length :=
      sizeAdd_of_lt (by omega)
    have total : other.writeIndex + b.readable.length ≤ other.capacity := by omega
    obtain ⟨valid',contents⟩ := store_behind validOther b.readable room
    refine ⟨_,?_,valid',by rw [contents,empty,List.nil_append],by simp only [moved]; omega⟩
    simp [shrink,valid,sum,built,append,write,ensureWritableBytes,writableBytes_eq validOther,Nat.not_lt.mpr room,room,
      copyIn_of inside,moved,total]

theorem peekBytes_eq (valid : b.Valid) (n : Nat) (enough : n ≤ b.readable.length) :
    b.peekBytes n = .ok (b.readable.take n) := by
  simp [peekBytes,valid,enough,readable_copyOut valid n enough]

theorem readByte_spec (valid : b.Valid) (byte : UInt8) (rest : List UInt8)
    (front : b.readable = byte :: rest) :
    ∃ b', b.readByte = .ok (byte,b') ∧ b'.Valid ∧ b'.readable = rest := by
  have enough : 1 ≤ b.readable.length := by simp [front]
  obtain ⟨valid',dropped⟩ := advance_valid valid 1 enough
  have head : b.storage[b.readIndex]? = some byte := by
    have inside : 0 < b.writeIndex - b.readIndex := by rw [← length_readable valid]; omega
    have := getElem?_slice b.storage b.readIndex (b.writeIndex - b.readIndex) 0 inside
    rw [Nat.add_zero] at this
    rw [← this]
    change b.readable[0]? = some byte
    simp [front]
  refine ⟨_,?_,valid',by rw [dropped,front]; rfl⟩
  simp [readByte,valid,front,head]

end Evk.Buffer
