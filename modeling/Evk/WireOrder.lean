import Evk.TypedIntegers

/-! The bytes of a typed integer on the wire. The narrow widths go through the
conversions of the host and are in network order everywhere; the 64-bit operations
always swap, which is network order on a little-endian host only. -/
namespace Evk.Buffer

variable {b : Buffer} {order : ByteOrder}

/-- The signed integer a value stands for. -/
def Typed.toInt : Typed → Int
  | .int64 x => x.toInt
  | .int32 x => x.toInt
  | .int16 x => x.toInt
  | .int8 x => x.toInt

def Typed.network (v : Typed) : List UInt8 := networkBytes v.width.size v.toInt

/-- The operations of the width put network order into the buffer on such a host. -/
def Width.Ordered (order : ByteOrder) (w : Width) : Prop := w = .int64 → order = .little

instance (order : ByteOrder) (w : Width) : Decidable (w.Ordered order) := inferInstanceAs (Decidable (_ → _))

theorem Typed.encode_network (v : Typed) (ordered : v.width.Ordered order) : v.encode order = v.network := by
  cases v with
  | int64 x =>
    cases ordered rfl
    exact hostBytes_bswap64 .little x
  | int32 x => exact hostBytes_hostToNetwork order 4 x
  | int16 x => exact hostBytes_hostToNetwork order 2 x
  | int8 x =>
    -- One byte has no order: the conversion would change nothing.
    have same : hostBytes order 1 x = hostBytes .big 1 (hostToNetwork .big 1 x) := by cases order <;> rfl
    exact same.trans (hostBytes_hostToNetwork .big 1 x)

theorem Typed.encode_int64_big (x : BitVec 64) : (Typed.int64 x).encode .big = (Typed.int64 x).network.reverse :=
  hostBytes_bswap64 .big x

theorem Typed.size_lt (v : Typed) : v.width.size < 2^62 := by
  cases v <;> simp [Typed.width,Width.size]

theorem Small.append_typed (small : b.Small) (alloc : Allocator) (v : Typed) (order : ByteOrder) :
    (b.Unserved alloc v.width.size ∧ v.append order b alloc = .error .badAlloc) ∨
    ∃ b', v.append order b alloc = .ok b' ∧ b'.Small ∧ b'.readable = b.readable ++ v.encode order := by
  rw [Typed.append_eq,← Typed.length_encode order v]
  apply small.write_spec
  rw [Typed.length_encode]
  exact v.size_lt

theorem Small.prepend_typed (small : b.Small) (v : Typed) (order : ByteOrder)
    (room : v.width.size ≤ b.prependableBytes) :
    ∃ b', v.prepend order b = .ok b' ∧ b'.Small ∧ b'.readable = v.encode order ++ b.readable := by
  rw [Typed.prepend_eq]
  apply small.prepend_spec
  rwa [Typed.length_encode]

theorem Small.read_network (small : b.Small) (v : Typed) (ordered : v.width.Ordered order)
    (front : b.readable = v.network ++ rest) :
    ∃ b', v.width.read order b = .ok (v,b') ∧ b'.Small ∧ b'.readable = rest := by
  apply small.read_front v
  rw [front,v.encode_network ordered]

/-- On a big-endian host the bytes of one as a 64-bit value are not those of the wire. -/
theorem Typed.encode_one_big : (Typed.int64 1).encode .big ≠ (Typed.int64 1).network := by
  rw [Typed.encode_int64_big]
  decide +kernel

/-- Exactly on the hosts whose order suits the width, both ways of writing a value put its
bytes into the buffer in network order; a host of either byte order reads the value back
from them, for a 64-bit value a little-endian one. -/
theorem wire_in_network_order (w : Width) (host : ByteOrder) : w.Ordered host ↔
    ∀ v : Typed, v.width = w → ∀ b, Small b →
      (∀ alloc, (b.Unserved alloc v.width.size ∧ v.append host b alloc = .error .badAlloc) ∨
        ∃ b', v.append host b alloc = .ok b' ∧ b'.Small ∧ b'.readable = b.readable ++ v.network) ∧
      (v.width.size ≤ b.prependableBytes →
        ∃ b', v.prepend host b = .ok b' ∧ b'.Small ∧ b'.readable = v.network ++ b.readable) ∧
      (∀ other c rest, v.width.Ordered other → Small c → c.readable = v.network ++ rest →
        ∃ c', v.width.read other c = .ok (v,c') ∧ c'.Small ∧ c'.readable = rest) := by
  constructor
  · rintro ordered v rfl b small
    rw [← v.encode_network ordered]
    refine ⟨fun alloc => small.append_typed alloc v host,small.prepend_typed v host,?_⟩
    intro other c rest ordered' small' front
    rw [v.encode_network ordered] at front
    exact small'.read_network v ordered' front
  · intro wire
    rintro rfl
    cases host with
    | little => rfl
    | big =>
      let empty : Buffer := ⟨List.replicate 8 0,8,8,8,8⟩
      have small : empty.Small := ⟨⟨rfl,by decide,by decide,by decide,by decide⟩,by decide⟩
      obtain ⟨-,prepended,-⟩ := wire (.int64 1) rfl empty small
      obtain ⟨b',done,-,contents⟩ := prepended (by decide)
      obtain ⟨c,done',-,actual⟩ := small.prepend_typed (.int64 1) .big (by decide)
      cases done'.symm.trans done
      exact absurd (List.append_cancel_right (actual.symm.trans contents)) Typed.encode_one_big

/-- Minus two from a big-endian to a little-endian host, in four bytes. -/
theorem wire_in_network_order_int32 :
    let b : Buffer := ⟨List.replicate 32 0,32,8,8,8⟩
    let v : Typed := .int32 (-2)
    ∃ b', v.append .big b (Allocator.zeroed 64 (by decide)) = .ok b' ∧ b'.readable = [0xff,0xff,0xff,0xfe] ∧
      ∃ c, b'.readInt32 .little = .ok (-2,c) := by
  intro b v
  have small : b.Small := ⟨⟨rfl,by decide,by decide,by decide,by decide⟩,by decide⟩
  obtain ⟨appended,-,read⟩ := (wire_in_network_order .int32 .big).mp (by decide) v rfl b small
  rcases appended (Allocator.zeroed 64 (by decide)) with ⟨unserved,-⟩ | ⟨b',done,small',contents⟩
  · exact absurd unserved.short (by decide)
  · have network : b'.readable = v.network := contents
    obtain ⟨c,taken,-,-⟩ := read .little b' [] (by decide) small' (by rw [network,List.append_nil])
    refine ⟨b',done,network.trans (by decide +kernel),c,?_⟩
    simp only [v,Typed.width,Width.read,bind_ok_iff] at taken
    obtain ⟨⟨x,c'⟩,first,⟨⟩⟩ := taken
    exact first

/-- `AppendInt64(1)` on a big-endian host puts the one first, and a little-endian host
reads `2^56`. -/
theorem int64_not_in_network_order :
    let alloc := Allocator.zeroed 4096 (by decide)
    let written := do
      let b ← construct alloc kInitialSize kCheapPrependSize
      b.appendInt64 .big alloc 1
    (do let b ← written
        b.toSlice) = .ok [1,0,0,0,0,0,0,0] ∧
    (Typed.int64 1).network = [0,0,0,0,0,0,0,1] ∧
    (do let b ← written
        let (x,_) ← b.readInt64 .little
        return x) = .ok (2^56) := by
  decide +kernel

end Evk.Buffer
