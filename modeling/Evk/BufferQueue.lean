import Evk.BufferInvariant

/-! The buffer as a queue of bytes. `apply` says what each operation does to a plain
list; `exec_refines` compares it with the indices, for any number of buffers and any
sequence of operations, including swaps between them. -/
namespace Evk.Buffer

open Region

def leftmost (pattern l : List UInt8) : Option Nat :=
  (List.range l.length).find? fun i => pattern.isPrefixOf (l.drop i)

theorem leftmost_cons (pattern : List UInt8) (x : UInt8) (l : List UInt8) :
    leftmost pattern (x :: l) =
      if pattern.isPrefixOf (x :: l) then some 0 else (leftmost pattern l).map (· + 1) := by
  simp only [leftmost,List.length_cons,List.range_succ_eq_map,List.find?_cons,List.drop_zero,
    List.find?_map,Function.comp_def,List.drop_succ_cons]
  split <;> simp_all

theorem slice_succ (mem : List UInt8) (first count : Nat) (inside : first < mem.length) :
    slice mem first (count + 1) = mem[first] :: slice mem (first + 1) count := by
  rw [slice,List.drop_eq_getElem_cons inside,List.take_succ_cons,slice]

theorem matchesAt_eq (mem pattern : List UInt8) (it count : Nat) (inside : it + count ≤ mem.length) :
    matchesAt mem pattern it count = pattern.isPrefixOf (slice mem it count) := by
  induction pattern generalizing it count with
  | nil => simp [matchesAt]
  | cons p pattern ih =>
    cases count with
    | zero => simp [matchesAt]
    | succ count =>
      have here : it < mem.length := by omega
      simp [matchesAt,slice_succ mem it count here,ih (it + 1) count (by omega),
        List.getElem?_eq_getElem here,List.isPrefixOf]
      rw [Bool.beq_comm]

/-- `std::search` stops at the leftmost occurrence inside the range, or at its end. -/
theorem search_eq (mem pattern : List UInt8) (first count : Nat) (inside : first + count ≤ mem.length) :
    search mem pattern first count =
      ((leftmost pattern (slice mem first count)).map (first + ·)).getD (first + count) := by
  induction count generalizing first with
  | zero => simp [search,leftmost]
  | succ count ih =>
    rw [search,matchesAt_eq mem pattern first (count + 1) inside,
      slice_succ mem first count (by omega),leftmost_cons]
    split
    · simp
    · rw [ih (first + 1) (by omega)]
      cases leftmost pattern (slice mem (first + 1) count) <;> simp <;> omega

theorem memchr_eq (mem : List UInt8) (c : UInt8) (first count : Nat) (inside : first + count ≤ mem.length) :
    memchr mem c first count = (leftmost [c] (slice mem first count)).map (first + ·) := by
  induction count generalizing first with
  | zero => simp [memchr,leftmost]
  | succ count ih =>
    have here : first < mem.length := by omega
    rw [memchr,slice_succ mem first count here,leftmost_cons,List.getElem?_eq_getElem here]
    by_cases found : mem[first] = c
    · simp [found,List.isPrefixOf]
    · have missed : ¬c = mem[first] := fun h => found h.symm
      simp only [Option.some.injEq,found,if_false,List.isPrefixOf,Bool.and_true,beq_iff_eq,missed]
      rw [ih (first + 1) (by omega)]
      cases leftmost [c] (slice mem (first + 1) count) <;> simp
      omega

theorem leftmost_lt {pattern l : List UInt8} (h : leftmost pattern l = some i) : i < l.length := by
  simpa using List.mem_of_find?_eq_some h

/-- The public operations, with the allocators that serve them. The three `Append`
overloads are `write`, and positions are relative to `data()`. -/
inductive Op where
  | write (alloc : Allocator) (d : List UInt8)
  | append (alloc : Allocator) (d : List UInt8)
  | appendInt64 (alloc : Allocator) (x : BitVec 64)
  | appendInt32 (alloc : Allocator) (x : BitVec 32)
  | appendInt16 (alloc : Allocator) (x : BitVec 16)
  | appendInt8 (alloc : Allocator) (x : BitVec 8)
  | prepend (d : List UInt8)
  | prependInt64 (x : BitVec 64)
  | prependInt32 (x : BitVec 32)
  | prependInt16 (x : BitVec 16)
  | prependInt8 (x : BitVec 8)
  | skip (len : Nat)
  | retrieve (len : Nat)
  | next (len : Nat)
  | nextAll
  | nextString (len : Nat)
  | nextAllString
  | readInt64
  | readInt32
  | readInt16
  | readInt8
  | peekInt64
  | peekInt32
  | peekInt16
  | peekInt8
  | readByte
  | unwriteBytes (n : Nat)
  | truncate (n : Nat)
  | reset
  | reserve (alloc : Allocator) (len : Nat)
  | ensureWritableBytes (alloc : Allocator) (len : Nat)
  | toText (alloc : Allocator)
  | shrink (first second : Allocator) (reserve : Nat)
  | length
  | toSlice
  | toString
  | findCRLF
  | findCRLFFrom (offset : Nat)
  | findEOL
  | findEOLFrom (offset : Nat)

/-- What an operation returns. After `ToText` the caller reads `data()[length()]`. -/
inductive Value where
  | unit
  | count (n : Nat)
  | bytes (l : List UInt8)
  | byte (x : UInt8)
  | word {w : Nat} (x : BitVec w)
  | position (p : Option Nat)
  | terminator (x : Option UInt8)
  deriving DecidableEq

def relative (b : Buffer) (p : Option Nat) : Value := .position (p.map (· - b.readIndex))

def perform (order : ByteOrder) (b : Buffer) : Op → Except Fault (Buffer × Value)
  | .write alloc d => do return (← b.write alloc d,.unit)
  | .append alloc d => do return (← b.append alloc d,.unit)
  | .appendInt64 alloc x => do return (← b.appendInt64 order alloc x,.unit)
  | .appendInt32 alloc x => do return (← b.appendInt32 order alloc x,.unit)
  | .appendInt16 alloc x => do return (← b.appendInt16 order alloc x,.unit)
  | .appendInt8 alloc x => do return (← b.appendInt8 order alloc x,.unit)
  | .prepend d => do return (← b.prepend d,.unit)
  | .prependInt64 x => do return (← b.prependInt64 order x,.unit)
  | .prependInt32 x => do return (← b.prependInt32 order x,.unit)
  | .prependInt16 x => do return (← b.prependInt16 order x,.unit)
  | .prependInt8 x => do return (← b.prependInt8 order x,.unit)
  | .skip len => do return (← b.skip len,.unit)
  | .retrieve len => do return (← b.retrieve len,.unit)
  | .next len => do let (l,b) ← b.next len; return (b,.bytes l)
  | .nextAll => do let (l,b) ← b.nextAll; return (b,.bytes l)
  | .nextString len => do let (l,b) ← b.nextString len; return (b,.bytes l)
  | .nextAllString => do let (l,b) ← b.nextAllString; return (b,.bytes l)
  | .readInt64 => do let (x,b) ← b.readInt64 order; return (b,.word x)
  | .readInt32 => do let (x,b) ← b.readInt32 order; return (b,.word x)
  | .readInt16 => do let (x,b) ← b.readInt16 order; return (b,.word x)
  | .readInt8 => do let (x,b) ← b.readInt8 order; return (b,.word x)
  | .peekInt64 => do return (b,.word (← b.peekInt64 order))
  | .peekInt32 => do return (b,.word (← b.peekInt32 order))
  | .peekInt16 => do return (b,.word (← b.peekInt16 order))
  | .peekInt8 => do return (b,.word (← b.peekInt8 order))
  | .readByte => do let (x,b) ← b.readByte; return (b,.byte x)
  | .unwriteBytes n => do return (← b.unwriteBytes n,.unit)
  | .truncate n => .ok (b.truncate n,.unit)
  | .reset => .ok (b.reset,.unit)
  | .reserve alloc len => do return (← b.reserve alloc len,.unit)
  | .ensureWritableBytes alloc len => do return (← b.ensureWritableBytes alloc len,.unit)
  | .toText alloc => do
    let b ← b.toText order alloc
    return (b,.terminator b.storage[b.readIndex + (← b.length)]?)
  | .shrink first second reserve => do return (← b.shrink first second reserve,.unit)
  | .length => do return (b,.count (← b.length))
  | .toSlice => do return (b,.bytes (← b.toSlice))
  | .toString => do return (b,.bytes (← b.toString))
  | .findCRLF => .ok (b,b.relative b.findCRLF)
  | .findCRLFFrom offset => do return (b,b.relative (← b.findCRLFFrom (b.readIndex + offset)))
  | .findEOL => do return (b,b.relative (← b.findEOL))
  | .findEOLFrom offset => do return (b,b.relative (← b.findEOLFrom (b.readIndex + offset)))

/-- The same operations on a queue of bytes: append at the back, push at the front,
take and drop at the front. -/
def apply (order : ByteOrder) (l : List UInt8) : Op → List UInt8 × Value
  | .write _ d | .append _ d => (l ++ d,.unit)
  | .appendInt64 _ x => (l ++ hostBytes order 8 (bswap64 x),.unit)
  | .appendInt32 _ x => (l ++ hostBytes order 4 (htonl order x),.unit)
  | .appendInt16 _ x => (l ++ hostBytes order 2 (htons order x),.unit)
  | .appendInt8 _ x => (l ++ hostBytes order 1 x,.unit)
  | .prepend d => (d ++ l,.unit)
  | .prependInt64 x => (hostBytes order 8 (bswap64 x) ++ l,.unit)
  | .prependInt32 x => (hostBytes order 4 (htonl order x) ++ l,.unit)
  | .prependInt16 x => (hostBytes order 2 (htons order x) ++ l,.unit)
  | .prependInt8 x => (hostBytes order 1 x ++ l,.unit)
  | .skip len | .retrieve len => (l.drop len,.unit)
  | .next len | .nextString len => (l.drop len,.bytes (l.take len))
  | .nextAll | .nextAllString => ([],.bytes l)
  | .readInt64 => (l.drop 8,.word (bswap64 (ofHostBytes order 64 (l.take 8))))
  | .readInt32 => (l.drop 4,.word (ntohl order (ofHostBytes order 32 (l.take 4))))
  | .readInt16 => (l.drop 2,.word (ntohs order (ofHostBytes order 16 (l.take 2))))
  | .readInt8 => (l.drop 1,.word (ofHostBytes order 8 (l.take 1)))
  | .peekInt64 => (l,.word (bswap64 (ofHostBytes order 64 (l.take 8))))
  | .peekInt32 => (l,.word (ntohl order (ofHostBytes order 32 (l.take 4))))
  | .peekInt16 => (l,.word (ntohs order (ofHostBytes order 16 (l.take 2))))
  | .peekInt8 => (l,.word (ofHostBytes order 8 (l.take 1)))
  | .readByte => (l.drop 1,.byte (l.headD 0))
  | .unwriteBytes n => (l.take (l.length - n),.unit)
  | .truncate n => (l.take n,.unit)
  | .reset => ([],.unit)
  | .reserve _ _ | .ensureWritableBytes _ _ | .shrink _ _ _ => (l,.unit)
  | .toText _ => (l,.terminator (some 0))
  | .length => (l,.count l.length)
  | .toSlice | .toString => (l,.bytes l)
  | .findCRLF => (l,.position (leftmost kCRLF l))
  | .findCRLFFrom offset => (l,.position ((leftmost kCRLF (l.drop offset)).map (offset + ·)))
  | .findEOL => (l,.position (leftmost [newline] l))
  | .findEOLFrom offset => (l,.position ((leftmost [newline] (l.drop offset)).map (offset + ·)))

/-- What callers owe: room in front for a prepend, enough bytes for a read. -/
def Pre (b : Buffer) : Op → Prop
  | .prepend d => d.length ≤ b.prependableBytes
  | .prependInt64 _ => 8 ≤ b.prependableBytes
  | .prependInt32 _ => 4 ≤ b.prependableBytes
  | .prependInt16 _ => 2 ≤ b.prependableBytes
  | .prependInt8 _ => 1 ≤ b.prependableBytes
  | .readInt64 | .peekInt64 => 8 ≤ b.readable.length
  | .readInt32 | .peekInt32 => 4 ≤ b.readable.length
  | .readInt16 | .peekInt16 => 2 ≤ b.readable.length
  | .readInt8 | .peekInt8 | .readByte => 1 ≤ b.readable.length
  | .unwriteBytes n => n ≤ b.readable.length
  | .findCRLFFrom offset | .findEOLFrom offset => offset ≤ b.readable.length
  | _ => True

/-- The `size_t` sums the operation computes stay below the word size. -/
def Fits (b : Buffer) : Op → Prop
  | .write _ d | .append _ d => b.WriteFits d.length
  | .appendInt64 _ _ => b.WriteFits 8
  | .appendInt32 _ _ => b.WriteFits 4
  | .appendInt16 _ _ => b.WriteFits 2
  | .appendInt8 _ _ | .toText _ => b.WriteFits 1
  | .truncate n => b.readIndex + n < 2^64
  | .reserve _ len => b.ReserveFits len
  | .ensureWritableBytes _ len => b.WriteFits len
  | .shrink _ _ reserve => kCheapPrependSize + (b.readable.length + reserve) < 2^64
  | _ => True

instance (b : Buffer) (op : Op) : Decidable (b.Pre op) := by
  cases op <;> (dsimp only [Pre]; infer_instance)

instance (b : Buffer) (op : Op) : Decidable (b.Fits op) := by
  cases op <;> (dsimp only [Fits]; infer_instance)

/-- The allocation the operation asks for in this state is refused. -/
def Refused (b : Buffer) : Op → Prop
  | .write alloc d | .append alloc d => b.Unserved alloc d.length
  | .appendInt64 alloc _ => b.Unserved alloc 8
  | .appendInt32 alloc _ => b.Unserved alloc 4
  | .appendInt16 alloc _ => b.Unserved alloc 2
  | .appendInt8 alloc _ | .toText alloc => b.Unserved alloc 1
  | .reserve alloc len => b.ReserveUnserved alloc len
  | .ensureWritableBytes alloc len => b.Unserved alloc len
  -- the append to the new buffer fits into it, so `second` is never asked
  | .shrink first _ reserve => first.new (kCheapPrependSize + (b.readable.length + reserve)) = none
  | _ => False

def Agrees (order : ByteOrder) (b : Buffer) (op : Op) : Prop :=
  (b.Refused op ∧ b.perform order op = .error .badAlloc) ∨
  ∃ b', b.perform order op = .ok (b',(apply order b.readable op).2) ∧ b'.Valid ∧
    b'.readable = (apply order b.readable op).1

variable {b : Buffer} {order : ByteOrder} {op : Op}

theorem write_agrees (valid : b.Valid) (alloc : Allocator) (d : List UInt8)
    (fits : b.WriteFits d.length)
    (run : b.perform order op = do return (← b.write alloc d,.unit))
    (refuse : b.Unserved alloc d.length → b.Refused op)
    (model : apply order b.readable op = (b.readable ++ d,.unit)) : Agrees order b op := by
  rcases write_spec valid alloc d fits with ⟨unserved,refused⟩ | ⟨b',served,valid',contents,-⟩
  · exact .inl ⟨refuse unserved,by simp [run,refused]⟩
  · exact .inr ⟨b',by simp [run,served,model],valid',by simp [model,contents]⟩

theorem prepend_agrees (valid : b.Valid) (d : List UInt8) (room : d.length ≤ b.prependableBytes)
    (run : b.perform order op = do return (← b.prepend d,.unit))
    (model : apply order b.readable op = (d ++ b.readable,.unit)) : Agrees order b op := by
  obtain ⟨b',served,valid',contents⟩ := prepend_spec valid d room
  exact .inr ⟨b',by simp [run,served,model],valid',by simp [model,contents]⟩

theorem read_agrees (valid : b.Valid) (n : Nat) (enough : n ≤ b.readable.length)
    (decode : List UInt8 → BitVec w)
    (run : b.perform order op = do
      let (x,b') ← (do return (← (do return decode (← b.peekBytes n)),← b.skip n))
      return (b',.word x))
    (model : apply order b.readable op = (b.readable.drop n,.word (decode (b.readable.take n)))) :
    Agrees order b op := by
  obtain ⟨b',skipped,valid',contents⟩ := skip_spec valid n
  exact .inr ⟨b',by simp [run,peekBytes_eq valid n enough,skipped,model],valid',by simp [model,contents]⟩

theorem peek_agrees (valid : b.Valid) (n : Nat) (enough : n ≤ b.readable.length)
    (decode : List UInt8 → BitVec w)
    (run : b.perform order op = do let x ← (do return decode (← b.peekBytes n)); return (b,.word x))
    (model : apply order b.readable op = (b.readable,.word (decode (b.readable.take n)))) :
    Agrees order b op :=
  .inr ⟨b,by simp [run,peekBytes_eq valid n enough,model],valid,by simp [model]⟩

/-- The search functions see only the readable bytes behind their start. -/
theorem findCRLF_eq (valid : b.Valid) (offset : Nat) (inside : offset ≤ b.readable.length) :
    (let crlf := search b.storage kCRLF (b.readIndex + offset) (b.writeIndex - (b.readIndex + offset))
     if crlf = b.writeIndex then none else some crlf) =
      (leftmost kCRLF (b.readable.drop offset)).map (b.readIndex + offset + ·) := by
  rw [length_readable valid] at inside
  obtain ⟨storage,word,reserved,ordered,bounded⟩ := id valid
  have tail : slice b.storage (b.readIndex + offset) (b.writeIndex - (b.readIndex + offset)) =
      b.readable.drop offset := by
    rw [readable,slice_drop]; congr 1; omega
  simp only [search_eq _ _ _ _ (by omega : b.readIndex + offset +
    (b.writeIndex - (b.readIndex + offset)) ≤ b.storage.length),tail]
  cases found : leftmost kCRLF (b.readable.drop offset) with
  | none =>
    simp only [Option.map_none,Option.getD_none]
    rw [if_pos (by omega)]
  | some i =>
    have bound := leftmost_lt found
    rw [List.length_drop,length_readable valid] at bound
    simp only [Option.map_some,Option.getD_some]
    rw [if_neg (by omega)]

theorem findEOL_eq (valid : b.Valid) (offset : Nat) (inside : offset ≤ b.readable.length) :
    memchr b.storage newline (b.readIndex + offset) (b.writeIndex - (b.readIndex + offset)) =
      (leftmost [newline] (b.readable.drop offset)).map (b.readIndex + offset + ·) := by
  rw [length_readable valid] at inside
  obtain ⟨storage,word,reserved,ordered,bounded⟩ := id valid
  have tail : slice b.storage (b.readIndex + offset) (b.writeIndex - (b.readIndex + offset)) =
      b.readable.drop offset := by
    rw [readable,slice_drop]; congr 1; omega
  rw [memchr_eq _ _ _ _ (by omega),tail]

theorem relative_map (b : Buffer) (p : Option Nat) (offset : Nat) :
    b.relative (p.map (b.readIndex + offset + ·)) = .position (p.map (offset + ·)) := by
  cases p <;> simp [relative]
  omega

/-- Every operation of a valid buffer agrees with the queue. -/
theorem perform_agrees (order : ByteOrder) (valid : b.Valid) (pre : b.Pre op) (fits : b.Fits op) :
    Agrees order b op := by
  have ordered := valid.ordered
  have size := length_readable valid
  cases op with
  | write alloc d | append alloc d => exact write_agrees valid alloc d fits rfl id rfl
  | appendInt64 alloc x | appendInt32 alloc x | appendInt16 alloc x | appendInt8 alloc x =>
    exact write_agrees valid alloc _ (by simpa [Fits] using fits) rfl (by simp [Refused]) rfl
  | prepend d => exact prepend_agrees valid d pre rfl rfl
  | prependInt64 x | prependInt32 x | prependInt16 x | prependInt8 x =>
    exact prepend_agrees valid _ (by simpa [Pre] using pre) rfl rfl
  | skip len | retrieve len =>
    obtain ⟨b',skipped,valid',contents⟩ := skip_spec valid len
    exact .inr ⟨b',by simp [perform,retrieve,skipped,apply],valid',contents⟩
  | next len | nextString len =>
    obtain ⟨b',taken,valid',contents⟩ := next_spec valid len
    exact .inr ⟨b',by simp [perform,nextString,taken,apply],valid',contents⟩
  | nextAll | nextAllString =>
    exact .inr ⟨b.reset,by simp [perform,nextAllString,nextAll_spec valid,apply],
      reset_valid valid,readable_reset⟩
  | readInt64 => exact read_agrees valid 8 pre (fun l => bswap64 (ofHostBytes order 64 l)) rfl rfl
  | readInt32 => exact read_agrees valid 4 pre (fun l => ntohl order (ofHostBytes order 32 l)) rfl rfl
  | readInt16 => exact read_agrees valid 2 pre (fun l => ntohs order (ofHostBytes order 16 l)) rfl rfl
  | readInt8 => exact read_agrees valid 1 pre (ofHostBytes order 8) rfl rfl
  | peekInt64 => exact peek_agrees valid 8 pre (fun l => bswap64 (ofHostBytes order 64 l)) rfl rfl
  | peekInt32 => exact peek_agrees valid 4 pre (fun l => ntohl order (ofHostBytes order 32 l)) rfl rfl
  | peekInt16 => exact peek_agrees valid 2 pre (fun l => ntohs order (ofHostBytes order 16 l)) rfl rfl
  | peekInt8 => exact peek_agrees valid 1 pre (ofHostBytes order 8) rfl rfl
  | readByte =>
    cases front : b.readable with
    | nil => simp [Pre,front] at pre
    | cons x rest =>
      obtain ⟨b',taken,valid',contents⟩ := readByte_spec valid x rest front
      exact .inr ⟨b',by simp [perform,taken,apply,front],valid',by simp [contents,apply,front]⟩
  | unwriteBytes n =>
    obtain ⟨b',taken,valid',contents⟩ := unwriteBytes_spec valid n pre
    exact .inr ⟨b',by simp [perform,taken,apply],valid',contents⟩
  | truncate n =>
    exact .inr ⟨b.truncate n,rfl,truncate_valid valid n fits,readable_truncate valid n fits⟩
  | reset => exact .inr ⟨b.reset,rfl,reset_valid valid,readable_reset⟩
  | reserve alloc len =>
    rcases reserve_spec valid alloc len fits with ⟨unserved,refused⟩ | ⟨b',served,valid',contents,-⟩
    · exact .inl ⟨unserved,by simp [perform,refused]⟩
    · exact .inr ⟨b',by simp [perform,served,apply],valid',contents⟩
  | ensureWritableBytes alloc len =>
    rcases ensureWritableBytes_spec valid alloc len fits with ⟨unserved,refused⟩ | ⟨b',served,grown⟩
    · exact .inl ⟨unserved,by simp [perform,refused]⟩
    · exact .inr ⟨b',by simp [perform,served,apply],grown.valid,grown.readable⟩
  | toText alloc =>
    rcases toText_spec order valid alloc fits with ⟨unserved,refused⟩ | ⟨b',served,valid',contents,ended⟩
    · exact .inl ⟨unserved,by simp [perform,refused]⟩
    · exact .inr ⟨b',by simp [perform,served,apply,valid',ended],valid',contents⟩
  | shrink first second reserve =>
    rcases shrink_exact valid first second reserve fits with ⟨none,refused⟩ | ⟨b',served,valid',contents,-⟩
    · exact .inl ⟨none,by simp [perform,refused]⟩
    · exact .inr ⟨b',by simp [perform,served,apply],valid',contents⟩
  | length => exact .inr ⟨b,by simp [perform,valid,apply],valid,rfl⟩
  | toSlice | toString => exact .inr ⟨b,by simp [perform,toString,valid,apply],valid,rfl⟩
  | findCRLF =>
    have found := findCRLF_eq valid 0 (Nat.zero_le _)
    refine .inr ⟨b,?_,valid,rfl⟩
    simp only [Nat.add_zero,List.drop_zero] at found
    have shifted := relative_map b (leftmost kCRLF b.readable) 0
    simp only [Nat.add_zero,Nat.zero_add,Option.map_id_fun',id] at shifted
    simp only [perform,findCRLF,apply,found,shifted]
  | findCRLFFrom offset =>
    have found := findCRLF_eq valid offset pre
    have inside : b.readIndex + offset ≤ b.writeIndex := by simp only [Pre] at pre; omega
    refine .inr ⟨b,?_,valid,rfl⟩
    simp only [perform,findCRLFFrom,Nat.le_add_right,assert_of,inside,ok_bind,pure_eq_ok]
    rw [found,relative_map]
    rfl
  | findEOL =>
    have found := findEOL_eq valid 0 (Nat.zero_le _)
    refine .inr ⟨b,?_,valid,rfl⟩
    rw [Nat.add_zero,← size] at found
    simp only [perform,findEOL,length_eq valid,ok_bind,pure_eq_ok,found,List.drop_zero]
    have shifted := relative_map b (leftmost [newline] b.readable) 0
    simp only [Nat.add_zero,Nat.zero_add,Option.map_id_fun',id] at shifted
    simp only [apply,shifted]
  | findEOLFrom offset =>
    have found := findEOL_eq valid offset pre
    have inside : b.readIndex + offset ≤ b.writeIndex := by simp only [Pre] at pre; omega
    refine .inr ⟨b,?_,valid,rfl⟩
    simp only [perform,findEOLFrom,Nat.le_add_right,assert_of,inside,ok_bind,pure_eq_ok]
    rw [found,relative_map]
    rfl

/-- `Swap` exchanges the five fields one by one. -/
def swap (lhs rhs : Buffer) : Buffer × Buffer :=
  (⟨rhs.storage,rhs.capacity,rhs.readIndex,rhs.writeIndex,rhs.reservedPrependSize⟩,
   ⟨lhs.storage,lhs.capacity,lhs.readIndex,lhs.writeIndex,lhs.reservedPrependSize⟩)

inductive Action (ι : Type) where
  | on (i : ι) (op : Op)
  | swap (i j : ι)

variable {ι : Type} [DecidableEq ι]

def step (order : ByteOrder) (s : ι → Buffer) : Action ι → Except Fault ((ι → Buffer) × Value)
  | .on i op => do
    let (b,v) ← (s i).perform order op
    return (Function.update s i b,v)
  | .swap i j =>
    let (a,b) := (s i).swap (s j)
    .ok (Function.update (Function.update s i a) j b,.unit)

def queueStep (order : ByteOrder) (q : ι → List UInt8) : Action ι → (ι → List UInt8) × Value
  | .on i op => (Function.update q i (apply order (q i) op).1,(apply order (q i) op).2)
  | .swap i j => (Function.update (Function.update q i (q j)) j (q i),.unit)

def exec (order : ByteOrder) : List (Action ι) → (ι → Buffer) → Except Fault ((ι → Buffer) × List Value)
  | [], s => .ok (s,[])
  | a :: rest, s => do
    let (s,v) ← step order s a
    let (s,vs) ← exec order rest s
    return (s,v :: vs)

def queueExec (order : ByteOrder) : List (Action ι) → (ι → List UInt8) → (ι → List UInt8) × List Value
  | [], q => (q,[])
  | a :: rest, q =>
    let (q,v) := queueStep order q a
    let (q,vs) := queueExec order rest q
    (q,v :: vs)

def Permitted (s : ι → Buffer) : Action ι → Prop
  | .on i op => (s i).Pre op ∧ (s i).Fits op
  | .swap _ _ => True

instance (s : ι → Buffer) (a : Action ι) : Decidable (Permitted s a) := by
  cases a <;> (dsimp only [Permitted]; infer_instance)

/-- Every operation of the program meets its precondition where it is reached. -/
def Admitted (order : ByteOrder) : List (Action ι) → (ι → Buffer) → Prop
  | [], _ => True
  | a :: rest, s => Permitted s a ∧
    match step order s a with
    | .ok (s,_) => Admitted order rest s
    | .error _ => True

instance (order : ByteOrder) (actions : List (Action ι)) (s : ι → Buffer) :
    Decidable (Admitted order actions s) := by
  induction actions generalizing s with
  | nil => exact inferInstanceAs (Decidable True)
  | cons a rest ih =>
    dsimp only [Admitted]
    cases step order s a with
    | error _ => infer_instance
    | ok r => exact @instDecidableAnd _ _ _ (ih r.1)

def Action.Refused (s : ι → Buffer) : Action ι → Prop
  | .on i op => (s i).Refused op
  | .swap _ _ => False

/-- The program runs up to an action that fails because its allocation is refused in the
state reached. -/
def OutOfMemory (order : ByteOrder) (actions : List (Action ι)) (s : ι → Buffer) : Prop :=
  ∃ before a after s' vs, actions = before ++ a :: after ∧ exec order before s = .ok (s',vs) ∧
    a.Refused s' ∧ step order s' a = .error .badAlloc

theorem OutOfMemory.cons {s s' : ι → Buffer} (memory : OutOfMemory order actions s')
    (done : step order s a = .ok (s',v)) : OutOfMemory order (a :: actions) s := by
  obtain ⟨before,b,after,t,vs,rfl,ran,refused⟩ := memory
  exact ⟨a :: before,b,after,t,v :: vs,rfl,by simp [exec,done,ran],refused⟩

/-- The refinement relation: valid indices, and the list between them. -/
def Represents (s : ι → Buffer) (q : ι → List UInt8) : Prop :=
  ∀ i, (s i).Valid ∧ (s i).readable = q i

theorem Represents.update {s : ι → Buffer} {q : ι → List UInt8} (rep : Represents s q) (i : ι)
    (valid : b.Valid) (contents : b.readable = l) :
    Represents (Function.update s i b) (Function.update q i l) := by
  intro j
  by_cases same : j = i
  · subst same; simp [valid,contents]
  · simpa [Function.update_of_ne same] using rep j

theorem step_refines (order : ByteOrder) {s : ι → Buffer} {q : ι → List UInt8} (a : Action ι)
    (rep : Represents s q) (permitted : Permitted s a) :
    (a.Refused s ∧ step order s a = .error .badAlloc) ∨
    ∃ s', step order s a = .ok (s',(queueStep order q a).2) ∧ Represents s' (queueStep order q a).1 := by
  cases a with
  | on i op =>
    rcases perform_agrees order (rep i).1 permitted.1 permitted.2 with
      ⟨refused,failed⟩ | ⟨b',done,valid,contents⟩
    · exact .inl ⟨refused,by simp [step,failed]⟩
    · rw [(rep i).2] at done contents
      exact .inr ⟨_,by simp [step,done,queueStep],rep.update i valid contents⟩
  | swap i j =>
    exact .inr ⟨_,rfl,(rep.update i (rep j).1 (rep j).2).update j (rep i).1 (rep i).2⟩

theorem exec_refines (order : ByteOrder) (actions : List (Action ι)) (s : ι → Buffer) (q : ι → List UInt8)
    (rep : Represents s q) (admitted : Admitted order actions s) :
    (OutOfMemory order actions s ∧ exec order actions s = .error .badAlloc) ∨
    ∃ s', exec order actions s = .ok (s',(queueExec order actions q).2) ∧
      Represents s' (queueExec order actions q).1 := by
  induction actions generalizing s q with
  | nil => exact .inr ⟨s,rfl,rep⟩
  | cons a rest ih =>
    rcases step_refines order a rep admitted.1 with ⟨refused,failed⟩ | ⟨s',done,rep'⟩
    · exact .inl ⟨⟨[],a,rest,s,[],rfl,rfl,refused,failed⟩,by simp [exec,failed]⟩
    · have later := admitted.2
      rw [done] at later
      rcases ih s' _ rep' later with ⟨memory,failed⟩ | ⟨s'',finished,rep''⟩
      · exact .inl ⟨memory.cons done,by simp [exec,done,failed]⟩
      · exact .inr ⟨s'',by simp [exec,done,finished,queueExec],rep''⟩

/-- Buffers built with any sizes behave as queues of bytes under any admitted program:
nothing but the refusal of an allocation it asks for stops it, all indices stay in order and in bounds,
and every value returned is the one the lists give. -/
theorem buffer_refines_queue (order : ByteOrder) (alloc : ι → Allocator) (initialSize reserved : ι → Nat)
    (fits : ∀ i, reserved i + initialSize i < 2^64) :
    (∀ i, ((alloc i).new (reserved i + initialSize i) = none ∧
        construct (alloc i) (initialSize i) (reserved i) = .error .badAlloc) ∨
      ∃ b, construct (alloc i) (initialSize i) (reserved i) = .ok b) ∧
    ∀ s, (∀ i, construct (alloc i) (initialSize i) (reserved i) = .ok (s i)) →
      ∀ actions, Admitted order actions s →
        (OutOfMemory order actions s ∧ exec order actions s = .error .badAlloc) ∨
        ∃ s', exec order actions s = .ok (s',(queueExec order actions fun _ => []).2) ∧
          ∀ i, (s' i).Valid ∧ (s' i).readable = (queueExec order actions fun _ => []).1 i := by
  refine ⟨fun i => ?_,fun s built actions admitted => exec_refines order actions s _ (fun i => ?_) admitted⟩
  · rcases construct_spec (alloc i) (initialSize i) (reserved i) (fits i) with refused | ⟨b,built,-⟩
    · exact .inl refused
    · exact .inr ⟨b,built⟩
  · rcases construct_spec (alloc i) (initialSize i) (reserved i) (fits i) with
      ⟨-,failed⟩ | ⟨b,built',valid,empty,-⟩
    · rw [built i] at failed; cases failed
    · rw [built i] at built'
      cases built'
      exact ⟨valid,empty⟩

/-- Growth, a prepend into the reserve, a swap, a terminator and a drain in one program. -/
theorem buffer_refines_queue_program :
    let alloc := Allocator.zeroed 4096 (by decide)
    let fresh : Buffer := ⟨[0,0,0,0,0,0],6,2,2,2⟩
    let program : List (Action Bool) := [.on true (.write alloc [1,2,13,10,3]),.on true (.prepend [9]),
      .swap true false,.on false .findCRLF,.on false .readByte,.on false (.appendInt32 alloc 7),
      .on false .readInt16,.on false (.toText alloc),.on false .nextAll]
    construct alloc 4 2 = .ok fresh ∧ Admitted .little program (fun _ => fresh) ∧
    ∃ s', exec .little program (fun _ => fresh) = .ok (s',[.unit,.unit,.unit,.position (some 3),
        .byte 9,.unit,.word 0x0102#16,.terminator (some 0),.bytes [13,10,3,0,0,0,7]]) ∧
      ∀ i, (s' i).Valid ∧ (s' i).readable = [] := by
  intro alloc fresh program
  have built : construct alloc 4 2 = .ok fresh := by decide
  have admitted : Admitted .little program (fun _ => fresh) := by decide
  have returns : (exec .little program fun _ => fresh).toBool = true := by decide
  have values : (queueExec .little program fun _ => []).2 = [.unit,.unit,.unit,.position (some 3),
      .byte 9,.unit,.word 0x0102#16,.terminator (some 0),.bytes [13,10,3,0,0,0,7]] := by decide
  have drained : ∀ i, (queueExec .little program fun _ => []).1 i = [] := by decide
  refine ⟨built,admitted,?_⟩
  rcases (buffer_refines_queue .little (fun _ : Bool => alloc) (fun _ => 4) (fun _ => 2)
    (fun _ => by decide)).2 (fun _ => fresh) (fun _ => built) program admitted with
    ⟨-,failed⟩ | ⟨s',done,represents⟩
  · rw [failed] at returns
    simp [Except.toBool] at returns
  · rw [values] at done
    exact ⟨s',done,fun i => ⟨(represents i).1,(represents i).2.trans (drained i)⟩⟩

end Evk.Buffer
