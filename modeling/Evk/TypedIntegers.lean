import Evk.BufferInvariant

/-! Typed integers in a buffer. They are appended in network order between reads of
what was there before and while the storage grows, moves and shrinks; reading them
back afterwards returns the same values. -/
namespace Evk.Buffer

open Region

variable {b b' : Buffer} {order : ByteOrder}

theorem copyIn_returned (done : copyIn mem start data = .ok mem') :
    start + data.length ≤ mem.length ∧ mem' = store mem start data := by
  simp only [copyIn,bind_ok_iff] at done
  obtain ⟨_,inside,stored⟩ := done
  cases stored
  exact ⟨check_ok_iff.mp inside,rfl⟩

/-- Whenever `grow` returns, its copy stayed inside the allocation and the contents are
the same, even if its sums have wrapped. -/
theorem Small.grow_returned (small : b.Small) (done : b.grow alloc len = .ok b') :
    b'.Small ∧ b'.readable = b.readable := by
  have valid := small.valid
  have copied := readable_copyOut valid b.readable.length (Nat.le_refl _)
  have bound := small.served
  simp only [grow,writableBytes_eq valid,length_eq valid,ok_bind,copied,List.take_length] at done
  split at done
  · simp only [bind_ok_iff] at done
    obtain ⟨d,allocated,d',stored,⟨⟩⟩ := done
    obtain ⟨sized,served⟩ := allocate_returned allocated
    obtain ⟨inside,rfl⟩ := copyIn_returned stored
    have end_ : sizeAdd b.readable.length b.reservedPrependSize = b.reservedPrependSize + b.readable.length := by
      rw [sizeAdd_of_lt (by omega),Nat.add_comm]
    rw [end_]
    obtain ⟨valid',contents⟩ := laid_valid sized (sized ▸ inside) (by omega)
    exact ⟨⟨valid',served⟩,contents⟩
  · simp only [bind_ok_iff] at done
    obtain ⟨_,_,moved,stored,done⟩ := done
    obtain ⟨inside,rfl⟩ := copyIn_returned stored
    have storage := valid.storage
    have end_ : sizeAdd b.reservedPrependSize b.readable.length = b.reservedPrependSize + b.readable.length :=
      sizeAdd_of_lt (by omega)
    obtain ⟨valid',contents⟩ := laid_valid storage (storage ▸ inside) valid.word
    rw [end_] at done
    obtain ⟨_,_,_,_,_,_,_,_,⟨⟩⟩ := done
    exact ⟨⟨valid',bound⟩,contents⟩

theorem Small.ensureWritableBytes_returned (small : b.Small) (done : b.ensureWritableBytes alloc len = .ok b') :
    b'.Small ∧ b'.readable = b.readable := by
  simp only [ensureWritableBytes,writableBytes_eq small.valid,ok_bind] at done
  split at done
  · simp only [bind_ok_iff] at done
    obtain ⟨c,grown,_,_,_,_,⟨⟩⟩ := done
    exact small.grow_returned grown
  · simp only [bind_ok_iff] at done
    obtain ⟨_,_,⟨⟩⟩ := done
    exact ⟨small,rfl⟩

theorem Small.reserve_returned (small : b.Small) (done : b.reserve alloc len = .ok b') :
    b'.Small ∧ b'.readable = b.readable := by
  rw [reserve] at done
  split at done
  · cases done
    exact ⟨small,rfl⟩
  · exact small.grow_returned done

theorem Small.write_returned (small : b.Small) (done : b.write alloc d = .ok b') :
    b'.Small ∧ b'.readable = b.readable ++ d := by
  simp only [write,bind_ok_iff] at done
  obtain ⟨c,grown,storage,stored,_,_,⟨⟩⟩ := done
  obtain ⟨small',contents⟩ := small.ensureWritableBytes_returned grown
  obtain ⟨inside,rfl⟩ := copyIn_returned stored
  rw [small'.valid.storage] at inside
  obtain ⟨valid',appended⟩ := store_behind small'.valid d (by omega)
  exact ⟨⟨valid',small'.served⟩,by rw [appended,contents]⟩

theorem Small.shrink_returned (small : b.Small) (done : b.shrink first second n = .ok b') :
    b'.Small ∧ b'.readable = b.readable := by
  simp only [shrink,length_eq small.valid,toSlice_eq small.valid,ok_bind,bind_ok_iff] at done
  obtain ⟨other,built,appended⟩ := done
  obtain ⟨small',empty⟩ := construct_returned built
  obtain ⟨small'',contents⟩ := small'.write_returned appended
  exact ⟨small'',by rw [contents,empty,List.nil_append]⟩

/-- A value of one of the four widths; its sign is in the two's complement. -/
inductive Typed where
  | int64 (x : BitVec 64)
  | int32 (x : BitVec 32)
  | int16 (x : BitVec 16)
  | int8 (x : BitVec 8)
  deriving DecidableEq, Repr

inductive Width where
  | int64 | int32 | int16 | int8
  deriving DecidableEq, Repr

def Width.size : Width → Nat
  | .int64 => 8
  | .int32 => 4
  | .int16 => 2
  | .int8 => 1

/-- `ReadInt64` to `ReadInt8`. -/
def Width.read (order : ByteOrder) (b : Buffer) : Width → Except Fault (Typed × Buffer)
  | .int64 => do let (x,b) ← b.readInt64 order; return (.int64 x,b)
  | .int32 => do let (x,b) ← b.readInt32 order; return (.int32 x,b)
  | .int16 => do let (x,b) ← b.readInt16 order; return (.int16 x,b)
  | .int8 => do let (x,b) ← b.readInt8 order; return (.int8 x,b)

namespace Typed

def width : Typed → Width
  | .int64 _ => .int64
  | .int32 _ => .int32
  | .int16 _ => .int16
  | .int8 _ => .int8

/-- `AppendInt64` to `AppendInt8`. -/
def append (order : ByteOrder) (b : Buffer) (alloc : Allocator) : Typed → Except Fault Buffer
  | .int64 x => b.appendInt64 order alloc x
  | .int32 x => b.appendInt32 order alloc x
  | .int16 x => b.appendInt16 order alloc x
  | .int8 x => b.appendInt8 order alloc x

/-- `PrependInt64` to `PrependInt8`. -/
def prepend (order : ByteOrder) (b : Buffer) : Typed → Except Fault Buffer
  | .int64 x => b.prependInt64 order x
  | .int32 x => b.prependInt32 order x
  | .int16 x => b.prependInt16 order x
  | .int8 x => b.prependInt8 order x

def encode (order : ByteOrder) : Typed → List UInt8
  | .int64 x => hostBytes order 8 (bswap64 x)
  | .int32 x => hostBytes order 4 (htonl order x)
  | .int16 x => hostBytes order 2 (htons order x)
  | .int8 x => hostBytes order 1 x

@[simp] theorem length_encode (order : ByteOrder) (v : Typed) : (v.encode order).length = v.width.size := by
  cases v <;> simp [encode,width,Width.size]

theorem append_eq (order : ByteOrder) (b : Buffer) (alloc : Allocator) (v : Typed) :
    v.append order b alloc = b.write alloc (v.encode order) := by
  cases v <;> rfl

theorem prepend_eq (order : ByteOrder) (b : Buffer) (v : Typed) : v.prepend order b = b.prepend (v.encode order) := by
  cases v <;> rfl

end Typed

def Width.decode (order : ByteOrder) (bytes : List UInt8) : Width → Typed
  | .int64 => .int64 (bswap64 (ofHostBytes order 64 bytes))
  | .int32 => .int32 (ntohl order (ofHostBytes order 32 bytes))
  | .int16 => .int16 (ntohs order (ofHostBytes order 16 bytes))
  | .int8 => .int8 (ofHostBytes order 8 bytes)

theorem decode_encode (order : ByteOrder) (v : Typed) : v.width.decode order (v.encode order) = v := by
  cases v with
  | int64 x =>
    exact congrArg Typed.int64 ((congrArg bswap64 (ofHostBytes_hostBytes order 8 _)).trans (bswap64_bswap64 x))
  | int32 x =>
    exact congrArg Typed.int32 ((congrArg (ntohl order) (ofHostBytes_hostBytes order 4 _)).trans (ntohl_htonl order x))
  | int16 x =>
    exact congrArg Typed.int16 ((congrArg (ntohs order) (ofHostBytes_hostBytes order 2 _)).trans (ntohs_htons order x))
  | int8 x => exact congrArg Typed.int8 (ofHostBytes_hostBytes order 1 x)

theorem Width.read_eq (valid : b.Valid) (order : ByteOrder) (w : Width) (enough : w.size ≤ b.readable.length)
    (skipped : b.skip w.size = .ok b') : w.read order b = .ok (w.decode order (b.readable.take w.size),b') := by
  have peeked := peekBytes_eq valid w.size enough
  cases w
  all_goals
    simp only [Width.size] at peeked skipped
    simp [Width.read,readInt64,readInt32,readInt16,readInt8,peekInt64,peekInt32,
      peekInt16,peekInt8,Width.decode,Width.size,
      peeked,skipped]

theorem Small.read_spec (small : b.Small) (order : ByteOrder) (w : Width) (enough : w.size ≤ b.readable.length) :
    ∃ b', w.read order b = .ok (w.decode order (b.readable.take w.size),b') ∧ b'.Small ∧
      b'.readable = b.readable.drop w.size := by
  obtain ⟨b',skipped,small',dropped⟩ := small.skip_spec w.size
  exact ⟨b',w.read_eq small.valid order enough skipped,small',dropped⟩

/-- The read of its width returns a value that stands at the front. -/
theorem Small.read_front (small : b.Small) (v : Typed) (front : b.readable = v.encode order ++ rest) :
    ∃ b', v.width.read order b = .ok (v,b') ∧ b'.Small ∧ b'.readable = rest := by
  have size := Typed.length_encode order v
  obtain ⟨b',read,small',dropped⟩ := small.read_spec order v.width (by simp [front])
  rw [front,List.take_left' size,decode_encode] at read
  exact ⟨b',read,small',by rw [dropped,front,List.drop_left' size]⟩

def readAll (order : ByteOrder) (b : Buffer) : List Width → Except Fault (List Typed × Buffer)
  | [] => return ([],b)
  | w :: ws => do
    let (v,b) ← w.read order b
    let (vs,b) ← readAll order b ws
    return (v :: vs,b)

theorem Small.readAll_spec (small : b.Small) (vs : List Typed)
    (front : b.readable = vs.flatMap (Typed.encode order) ++ rest) :
    ∃ b', readAll order b (vs.map Typed.width) = .ok (vs,b') ∧ b'.Small ∧ b'.readable = rest := by
  induction vs generalizing b with
  | nil => exact ⟨b,rfl,small,by simpa using front⟩
  | cons v vs ih =>
    rw [List.flatMap_cons,List.append_assoc] at front
    obtain ⟨c,read,small',front'⟩ := small.read_front v front
    obtain ⟨b',reads,small'',contents⟩ := ih small' front'
    exact ⟨b',by simp [readAll,read,reads],small'',contents⟩

/-- What may happen to a buffer between the appends of typed values. -/
inductive Edit where
  | append (alloc : Allocator) (v : Typed)
  | skip (n : Nat)
  | next (n : Nat)
  | readByte
  | readInt (w : Width)
  | reserve (alloc : Allocator) (n : Nat)
  | ensureWritableBytes (alloc : Allocator) (n : Nat)
  | shrink (first second : Allocator) (n : Nat)

namespace Edit

def run (order : ByteOrder) (b : Buffer) : Edit → Except Fault Buffer
  | .append alloc v => v.append order b alloc
  | .skip n => b.skip n
  | .next n => do let (_,b) ← b.next n; return b
  | .readByte => do let (_,b) ← b.readByte; return b
  | .readInt w => do let (_,b) ← w.read order b; return b
  | .reserve alloc n => b.reserve alloc n
  | .ensureWritableBytes alloc n => b.ensureWritableBytes alloc n
  | .shrink first second n => b.shrink first second n

def consumed : Edit → Nat
  | .skip n | .next n => n
  | .readByte => 1
  | .readInt w => w.size
  | _ => 0

def appended : Edit → List Typed
  | .append _ v => [v]
  | _ => []

/-- A request to grow is for a size that an object can have. -/
def Modest : Edit → Prop
  | .reserve _ n | .ensureWritableBytes _ n | .shrink _ _ n => n < 2^62
  | _ => True

/-- The allocation the edit asks for in this state is refused. -/
def Refused (b : Buffer) : Edit → Prop
  | .append alloc v => b.Unserved alloc v.width.size
  | .reserve alloc n => b.ReserveUnserved alloc n
  | .ensureWritableBytes alloc n => b.Unserved alloc n
  | .shrink first _ n => first.new (kCheapPrependSize + (b.readable.length + n)) = none
  | _ => False

end Edit

theorem next_capacity (done : b.next len = .ok (bytes,b')) : b'.capacity = b.capacity := by
  simp only [next,bind_ok_iff] at done
  obtain ⟨n,-,done⟩ := done
  split at done
  · simp only [bind_ok_iff] at done
    obtain ⟨_,_,⟨⟩⟩ := done
    rfl
  · simp only [nextAll,bind_ok_iff] at done
    obtain ⟨_,_,_,_,⟨⟩⟩ := done
    simp [reset,truncate]

theorem Small.next_spec (small : b.Small) (len : Nat) :
    ∃ b', b.next len = .ok (b.readable.take len,b') ∧ b'.Small ∧ b'.readable = b.readable.drop len := by
  obtain ⟨b',done,valid,contents⟩ := Buffer.next_spec small.valid len
  exact ⟨b',done,⟨valid,next_capacity done ▸ small.served⟩,contents⟩

theorem readByte_capacity (done : b.readByte = .ok (byte,b')) : b'.capacity = b.capacity := by
  simp only [readByte,bind_ok_iff] at done
  obtain ⟨_,_,_,_,_,_,done⟩ := done
  split at done
  · cases done
    rfl
  · split at done <;> cases done
    rfl

theorem Small.readByte_spec (small : b.Small) (enough : 1 ≤ b.readable.length) :
    ∃ byte b', b.readByte = .ok (byte,b') ∧ b'.Small ∧ b'.readable = b.readable.drop 1 := by
  cases front : b.readable with
  | nil => simp [front] at enough
  | cons byte rest =>
    obtain ⟨b',done,valid,contents⟩ := Buffer.readByte_spec small.valid byte rest front
    exact ⟨byte,b',done,⟨valid,readByte_capacity done ▸ small.served⟩,contents⟩

theorem Small.edit_returned (small : b.Small) (e : Edit) (enough : e.consumed ≤ b.readable.length)
    (done : e.run order b = .ok b') :
    b'.Small ∧ b'.readable = b.readable.drop e.consumed ++ e.appended.flatMap (Typed.encode order) := by
  cases e with
  | append alloc v =>
    rw [Edit.run,Typed.append_eq] at done
    simpa [Edit.consumed,Edit.appended] using small.write_returned done
  | skip n =>
    obtain ⟨c,skipped,small',contents⟩ := small.skip_spec n
    cases skipped.symm.trans done
    exact ⟨small',by simp [contents,Edit.consumed,Edit.appended]⟩
  | next n =>
    obtain ⟨c,taken,small',contents⟩ := small.next_spec n
    simp only [Edit.run,taken,ok_bind] at done
    cases done
    exact ⟨small',by simp [contents,Edit.consumed,Edit.appended]⟩
  | readByte =>
    obtain ⟨_,c,taken,small',contents⟩ := small.readByte_spec enough
    simp only [Edit.run,taken,ok_bind] at done
    cases done
    exact ⟨small',by simp [contents,Edit.consumed,Edit.appended]⟩
  | readInt w =>
    obtain ⟨c,taken,small',contents⟩ := small.read_spec order w enough
    simp only [Edit.run,taken,ok_bind] at done
    cases done
    exact ⟨small',by simp [contents,Edit.consumed,Edit.appended]⟩
  | reserve alloc n => simpa [Edit.consumed,Edit.appended] using small.reserve_returned done
  | ensureWritableBytes alloc n => simpa [Edit.consumed,Edit.appended] using small.ensureWritableBytes_returned done
  | shrink first second n => simpa [Edit.consumed,Edit.appended] using small.shrink_returned done

/-- An edit of modest size returns unless its allocation is refused. -/
theorem Small.edit_returns (small : b.Small) (order : ByteOrder) (e : Edit) (enough : e.consumed ≤ b.readable.length)
    (modest : e.Modest) : (e.Refused b ∧ e.run order b = .error .badAlloc) ∨ ∃ b', e.run order b = .ok b' := by
  have reserved := small.valid.reserved
  have bounded := small.valid.bounded
  have served := small.served
  cases e with
  | append alloc v =>
    have object : (v.encode order).length < 2^62 := by
      rw [Typed.length_encode]
      cases v <;> simp [Typed.width,Width.size]
    rcases small.write_spec alloc _ object with ⟨unserved,refused⟩ | ⟨b',done,_⟩
    · exact .inl ⟨by simpa [Edit.Refused] using unserved,by rwa [Edit.run,Typed.append_eq]⟩
    · exact .inr ⟨b',by rwa [Edit.run,Typed.append_eq]⟩
  | skip n =>
    obtain ⟨b',done,_⟩ := small.skip_spec n
    exact .inr ⟨b',done⟩
  | next n =>
    obtain ⟨b',done,_⟩ := small.next_spec n
    exact .inr ⟨b',by simp [Edit.run,done]⟩
  | readByte =>
    obtain ⟨_,b',done,_⟩ := small.readByte_spec enough
    exact .inr ⟨b',by simp [Edit.run,done]⟩
  | readInt w =>
    obtain ⟨b',done,_⟩ := small.read_spec order w enough
    exact .inr ⟨b',by simp [Edit.run,done]⟩
  | reserve alloc n =>
    have modest : n < 2^62 := modest
    rcases reserve_spec small.valid alloc n ⟨by omega,fun _ => ⟨by omega,fun _ => by omega⟩⟩ with
      ⟨unserved,refused⟩ | ⟨b',done,_⟩
    · exact .inl ⟨unserved,refused⟩
    · exact .inr ⟨b',done⟩
  | ensureWritableBytes alloc n =>
    have modest : n < 2^62 := modest
    rcases ensureWritableBytes_spec small.valid alloc n (fun _ => ⟨by omega,fun _ => by omega⟩) with
      ⟨unserved,refused⟩ | ⟨b',done,_⟩
    · exact .inl ⟨unserved,refused⟩
    · exact .inr ⟨b',done⟩
  | shrink first second n =>
    have modest : n < 2^62 := modest
    have length := length_readable small.valid
    rcases shrink_exact small.valid first second n (by unfold kCheapPrependSize; omega) with refused | ⟨b',done,_⟩
    · exact .inl refused
    · exact .inr ⟨b',done⟩

theorem prepend_capacity (done : b.prepend d = .ok b') : b'.capacity = b.capacity := by
  simp only [prepend,bind_ok_iff] at done
  obtain ⟨_,_,_,_,⟨⟩⟩ := done
  rfl

theorem Small.prepend_spec (small : b.Small) (d : List UInt8) (room : d.length ≤ b.prependableBytes) :
    ∃ b', b.prepend d = .ok b' ∧ b'.Small ∧ b'.readable = d ++ b.readable := by
  obtain ⟨b',done,valid,contents⟩ := Buffer.prepend_spec small.valid d room
  exact ⟨b',done,⟨valid,prepend_capacity done ▸ small.served⟩,contents⟩

def runEdits (order : ByteOrder) (b : Buffer) (edits : List Edit) : Except Fault Buffer :=
  edits.foldlM (Edit.run order) b

/-- The reads stay within the first `left` bytes. -/
def Within : Nat → List Edit → Prop
  | _, [] => True
  | left, e :: edits => e.consumed ≤ left ∧ Within (left - e.consumed) edits

/-- After any edits the values stand behind what is left of the earlier contents. -/
theorem Small.edits_returned (small : b.Small) (edits : List Edit)
    (contents : b.readable = earlier ++ values.flatMap (Typed.encode order))
    (within : Within earlier.length edits) (done : runEdits order b edits = .ok b') : b'.Small ∧ b'.readable =
      earlier.drop (edits.map Edit.consumed).sum ++ (values ++ edits.flatMap Edit.appended).flatMap
        (Typed.encode order) := by
  induction edits generalizing b earlier values with
  | nil =>
    cases done
    exact ⟨small,by simpa using contents⟩
  | cons e edits ih =>
    obtain ⟨enough,within⟩ := within
    simp only [runEdits,List.foldlM_cons,bind_ok_iff] at done
    obtain ⟨c,ran,done⟩ := done
    obtain ⟨small',contents'⟩ := small.edit_returned e (by simp only [contents,List.length_append]; omega) ran
    rw [contents,List.drop_append_of_le_length enough,List.append_assoc,← List.flatMap_append] at contents'
    obtain ⟨small'',final⟩ := ih small' contents' (by simpa using within) done
    refine ⟨small'',?_⟩
    rw [final,List.drop_drop]
    simp

/-- The edits run up to one that fails because its allocation is refused in the state reached. -/
def EditRefused (order : ByteOrder) (b : Buffer) (edits : List Edit) : Prop :=
  ∃ before e after c, edits = before ++ e :: after ∧ runEdits order b before = .ok c ∧
    e.Refused c ∧ e.run order c = .error .badAlloc

theorem EditRefused.cons (stops : EditRefused order c edits) (ran : e.run order b = .ok c) :
    EditRefused order b (e :: edits) := by
  obtain ⟨before,f,after,d,rfl,done,refused,failed⟩ := stops
  exact ⟨e :: before,f,after,d,rfl,by simpa [runEdits,ran] using done,refused,failed⟩

theorem Small.edits_returns (small : b.Small) (edits : List Edit) (enough : budget ≤ b.readable.length)
    (within : Within budget edits) (modest : ∀ e ∈ edits, e.Modest) :
    (EditRefused order b edits ∧ runEdits order b edits = .error .badAlloc) ∨
    ∃ b', runEdits order b edits = .ok b' := by
  induction edits generalizing b budget with
  | nil => exact .inr ⟨b,rfl⟩
  | cons e edits ih =>
    obtain ⟨here,within⟩ := within
    rcases small.edit_returns order e (here.trans enough) (modest e List.mem_cons_self) with ⟨refused,failed⟩ | ⟨c,ran⟩
    · exact .inl ⟨⟨[],e,edits,b,rfl,rfl,refused,failed⟩,by simp [runEdits,failed]⟩
    · obtain ⟨small',contents⟩ := small.edit_returned e (here.trans enough) ran
      have enough' : budget - e.consumed ≤ c.readable.length := by
        rw [contents,List.length_append,List.length_drop]
        omega
      have later : ∀ e ∈ edits, e.Modest := fun e among => modest e (List.mem_cons_of_mem _ among)
      rcases ih small' enough' within later with ⟨stops,failed⟩ | ⟨b',done⟩
      · exact .inl ⟨stops.cons ran,by simpa [runEdits,ran] using failed⟩
      · exact .inr ⟨b',by simpa [runEdits,ran] using done⟩

/-- Appended values are read back in order behind the earlier contents, whatever is read
of these and however the storage grows and moves meanwhile; a prepended value is read
back at once. -/
theorem typed_round_trip (small : b.Small) (order : ByteOrder) :
    (∀ edits, Within b.readable.length edits →
      ((∀ e ∈ edits, e.Modest) →
        (EditRefused order b edits ∧ runEdits order b edits = .error .badAlloc) ∨
        ∃ b', runEdits order b edits = .ok b') ∧
      ∀ b', runEdits order b edits = .ok b' → ∃ c d,
        b'.skip (b.readable.length - (edits.map Edit.consumed).sum) = .ok c ∧
        readAll order c ((edits.flatMap Edit.appended).map Typed.width) = .ok (edits.flatMap Edit.appended,d) ∧
        c.readable.length = ((edits.flatMap Edit.appended).map fun v => v.width.size).sum ∧ d.readable = []) ∧
    ∀ v : Typed, v.width.size ≤ b.prependableBytes → ∃ b' b'',
      v.prepend order b = .ok b' ∧ v.width.read order b' = .ok (v,b'') ∧ b''.readable = b.readable := by
  constructor
  · intro edits within
    refine ⟨small.edits_returns edits (Nat.le_refl _) within,fun b' done => ?_⟩
    have start : b.readable = b.readable ++ ([] : List Typed).flatMap (Typed.encode order) := by simp
    obtain ⟨small',contents⟩ := small.edits_returned edits start within done
    obtain ⟨c,skipped,small'',rest⟩ := small'.skip_spec (b.readable.length - (edits.map Edit.consumed).sum)
    have values : c.readable = (edits.flatMap Edit.appended).flatMap (Typed.encode order) ++ [] := by
      rw [rest,contents,List.drop_left' (by simp)]
      simp
    obtain ⟨d,read,_,empty⟩ := small''.readAll_spec _ values
    refine ⟨c,d,skipped,read,?_,empty⟩
    rw [values]
    simp [List.length_flatMap]
  · intro v room
    obtain ⟨b',prepended,small',contents⟩ := small.prepend_spec (v.encode order) (by simpa using room)
    obtain ⟨b'',read,_,rest⟩ := small'.read_front v contents
    exact ⟨b',b'',by rw [Typed.prepend_eq,prepended],read,rest⟩

/-- A buffer that holds three bytes and is almost full: both appends have to make room, one
by moving the contents and one in a new allocation. -/
theorem typed_round_trip_growing : ∃ b' c d,
    runEdits .little ⟨List.replicate 16 7,16,10,13,4⟩ [.skip 1,.append (.zeroed 1024 (by decide)) (.int32 (-5)),
      .readByte,.append (.zeroed 1024 (by decide)) (.int64 (-2)),.reserve (.zeroed 1024 (by decide)) 100] = .ok b' ∧
    b'.skip 1 = .ok c ∧ readAll .little c [.int32,.int64] = .ok ([.int32 (-5),.int64 (-2)],d) ∧ d.readable = [] := by
  let start : Buffer := ⟨List.replicate 16 7,16,10,13,4⟩
  let edits : List Edit := [.skip 1,.append (.zeroed 1024 (by decide)) (.int32 (-5)),
      .readByte,.append (.zeroed 1024 (by decide)) (.int64 (-2)),.reserve (.zeroed 1024 (by decide)) 100]
  have small : start.Small := ⟨⟨by simp [start],by decide,by decide,by decide,by decide⟩,by decide⟩
  have within : Within start.readable.length edits := ⟨by decide,by decide,by decide,by decide,by decide,trivial⟩
  have returns : (runEdits .little start edits).toBool = true := by decide +kernel
  cases done : runEdits .little start edits with
  | error e => simp [done,Except.toBool] at returns
  | ok b' =>
    obtain ⟨c,d,skipped,read,-,empty⟩ := ((typed_round_trip small .little).1 edits within).2 b' done
    exact ⟨b',c,d,rfl,skipped,read,empty⟩

end Evk.Buffer
