import Mathlib

/-! Integers as bytes in memory. `memcpy` of an integer moves its bytes in the order
of the host; the conversions of `arpa/inet.h` and the `bswap_64` of the buffer are the
only places where that order can be changed. -/
namespace Evk

inductive ByteOrder where
  | little | big
  deriving DecidableEq, Repr

/-- The low `count` bytes of a value, least significant first. -/
def littleBytes : (count value : Nat) → List UInt8
  | 0, _ => []
  | count + 1, value => UInt8.ofNat (value % 256) :: littleBytes count (value / 256)

def littleValue : List UInt8 → Nat
  | [] => 0
  | byte :: bytes => byte.toNat + 256 * littleValue bytes

@[simp] theorem length_littleBytes (count value : Nat) :
    (littleBytes count value).length = count := by
  induction count generalizing value with
  | zero => rfl
  | succ count ih => simp [littleBytes,ih]

/-- The object representation of an integer of `count` bytes. -/
def hostBytes (order : ByteOrder) (count : Nat) (x : BitVec w) : List UInt8 :=
  match order with
  | .little => littleBytes count x.toNat
  | .big => (littleBytes count x.toNat).reverse

def ofHostBytes (order : ByteOrder) (w : Nat) (bytes : List UInt8) : BitVec w :=
  match order with
  | .little => BitVec.ofNat w (littleValue bytes)
  | .big => BitVec.ofNat w (littleValue bytes.reverse)

@[simp] theorem length_hostBytes (order : ByteOrder) (count : Nat) (x : BitVec w) :
    (hostBytes order count x).length = count := by
  cases order <;> simp [hostBytes]

/-- The macro of `buffer.h`, mask by mask. -/
def bswap64 (x : BitVec 64) : BitVec 64 :=
  ((x &&& 0xff00000000000000#64) >>> 56) |||
  ((x &&& 0x00ff000000000000#64) >>> 40) |||
  ((x &&& 0x0000ff0000000000#64) >>> 24) |||
  ((x &&& 0x000000ff00000000#64) >>> 8) |||
  ((x &&& 0x00000000ff000000#64) <<< 8) |||
  ((x &&& 0x0000000000ff0000#64) <<< 24) |||
  ((x &&& 0x000000000000ff00#64) <<< 40) |||
  ((x &&& 0x00000000000000ff#64) <<< 56)

def reverseBytes (count : Nat) (x : BitVec w) : BitVec w :=
  BitVec.ofNat w (littleValue (littleBytes count x.toNat).reverse)

/-- Host to network order: byte reversal on a little-endian host, nothing on a
big-endian one. The conversion back is the same function. -/
def hostToNetwork (order : ByteOrder) (count : Nat) (x : BitVec w) : BitVec w :=
  match order with
  | .little => reverseBytes count x
  | .big => x

def htonl (order : ByteOrder) (x : BitVec 32) : BitVec 32 := hostToNetwork order 4 x
def htons (order : ByteOrder) (x : BitVec 16) : BitVec 16 := hostToNetwork order 2 x
def ntohl (order : ByteOrder) (x : BitVec 32) : BitVec 32 := hostToNetwork order 4 x
def ntohs (order : ByteOrder) (x : BitVec 16) : BitVec 16 := hostToNetwork order 2 x

theorem littleValue_lt (bytes : List UInt8) : littleValue bytes < 256 ^ bytes.length := by
  induction bytes with
  | nil => simp [littleValue]
  | cons byte bytes ih =>
    have small := byte.toNat_lt
    simp only [littleValue,List.length_cons,pow_succ]
    omega

theorem littleValue_littleBytes (count value : Nat) : littleValue (littleBytes count value) = value % 256 ^ count := by
  induction count generalizing value with
  | zero => simp [littleBytes,littleValue,Nat.mod_one]
  | succ count ih =>
    have byte : (UInt8.ofNat (value % 256)).toNat = value % 256 := by simp
    rw [littleBytes,littleValue,ih,byte,pow_succ',Nat.mod_mul]

theorem littleBytes_littleValue (bytes : List UInt8) : littleBytes bytes.length (littleValue bytes) = bytes := by
  induction bytes with
  | nil => rfl
  | cons byte bytes ih =>
    have small := byte.toNat_lt
    have low : (byte.toNat + 256 * littleValue bytes) % 256 = byte.toNat := by omega
    have high : (byte.toNat + 256 * littleValue bytes) / 256 = littleValue bytes := by omega
    rw [littleValue,List.length_cons,littleBytes,low,high,ih]
    simp

theorem bytes_width (n : Nat) : 256 ^ n = 2 ^ (8 * n) := by
  rw [pow_mul]
  norm_num

theorem ofHostBytes_hostBytes (order : ByteOrder) (n : Nat) (x : BitVec (8 * n)) :
    ofHostBytes order (8 * n) (hostBytes order n x) = x := by
  have value : BitVec.ofNat (8 * n) (littleValue (littleBytes n x.toNat)) = x := by
    rw [littleValue_littleBytes,bytes_width,Nat.mod_eq_of_lt x.isLt,BitVec.ofNat_toNat,BitVec.setWidth_eq]
  cases order with
  | little => exact value
  | big => simpa [ofHostBytes,hostBytes] using value

/-- Reversed in the value, the bytes are reversed in memory. -/
theorem littleBytes_reverseBytes (n : Nat) (x : BitVec (8 * n)) :
    littleBytes n (reverseBytes n x).toNat = (littleBytes n x.toNat).reverse := by
  have small := littleValue_lt (littleBytes n x.toNat).reverse
  simp only [List.length_reverse,length_littleBytes,bytes_width] at small
  have inverse := littleBytes_littleValue (littleBytes n x.toNat).reverse
  rw [List.length_reverse,length_littleBytes] at inverse
  rw [reverseBytes,BitVec.toNat_ofNat,Nat.mod_eq_of_lt small,inverse]

theorem reverseBytes_reverseBytes (n : Nat) (x : BitVec (8 * n)) : reverseBytes n (reverseBytes n x) = x := by
  rw [reverseBytes,littleBytes_reverseBytes,List.reverse_reverse,littleValue_littleBytes,bytes_width,
    Nat.mod_eq_of_lt x.isLt,BitVec.ofNat_toNat,BitVec.setWidth_eq]

theorem hostToNetwork_hostToNetwork (order : ByteOrder) (n : Nat) (x : BitVec (8 * n)) :
    hostToNetwork order n (hostToNetwork order n x) = x := by
  cases order with
  | little => exact reverseBytes_reverseBytes n x
  | big => rfl

theorem ntohl_htonl (order : ByteOrder) (x : BitVec 32) : ntohl order (htonl order x) = x :=
  hostToNetwork_hostToNetwork order 4 x

theorem ntohs_htons (order : ByteOrder) (x : BitVec 16) : ntohs order (htons order x) = x :=
  hostToNetwork_hostToNetwork order 2 x

theorem getLsbD_byteMask (k i : Nat) (bound : i < 64) : (0xff#64 <<< (8 * k)).getLsbD i = decide (i / 8 = k) := by
  rw [BitVec.getLsbD_shiftLeft,BitVec.getLsbD_ofNat,show 0xff = 2^8 - 1 from rfl,Nat.testBit_two_pow_sub_one]
  simp only [bound,decide_true,Bool.true_and]
  by_cases same : i / 8 = k
  · have inside : ¬i < 8 * k ∧ i - 8 * k < 8 ∧ i - 8 * k < 64 := by omega
    simp [inside,same]
  · have outside : i < 8 * k ∨ ¬i - 8 * k < 8 := by omega
    rcases outside with below | above
    · simp [below,same]
    · simp [above,same]

/-- Where bit `i` of the swapped value comes from. -/
def mirror (i : Nat) : Nat := 56 - 8 * (i / 8) + i % 8

theorem mirror_div (i : Nat) : mirror i / 8 = 7 - i / 8 := by
  unfold mirror
  omega

theorem getLsbD_byteDown (x : BitVec 64) (k i : Nat) (upper : 4 ≤ k) (top : k < 8) (bound : i < 64) :
    ((x &&& 0xff#64 <<< (8 * k)) >>> (8 * (2 * k - 7))).getLsbD i =
      (decide (i / 8 = 7 - k) && x.getLsbD (mirror i)) := by
  rw [BitVec.getLsbD_ushiftRight,BitVec.getLsbD_and]
  by_cases inside : 8 * (2 * k - 7) + i < 64
  · rw [getLsbD_byteMask k _ inside]
    by_cases here : i / 8 = 7 - k
    · have source : 8 * (2 * k - 7) + i = mirror i := by
        unfold mirror
        omega
      have place : mirror i / 8 = k := by
        rw [mirror_div,here]
        omega
      simp [source,here,place]
    · have other : ¬(8 * (2 * k - 7) + i) / 8 = k := by omega
      simp [other,here]
  · have other : ¬i / 8 = 7 - k := by omega
    simp [BitVec.getLsbD_of_ge x _ (Nat.le_of_not_lt inside),other]

theorem getLsbD_byteUp (x : BitVec 64) (k i : Nat) (lower : k < 4) (bound : i < 64) :
    ((x &&& 0xff#64 <<< (8 * k)) <<< (8 * (7 - 2 * k))).getLsbD i =
      (decide (i / 8 = 7 - k) && x.getLsbD (mirror i)) := by
  rw [BitVec.getLsbD_shiftLeft,BitVec.getLsbD_and,getLsbD_byteMask k _ (by omega)]
  by_cases here : i / 8 = 7 - k
  · have source : i - 8 * (7 - 2 * k) = mirror i := by
      unfold mirror
      omega
    have place : mirror i / 8 = k := by
      rw [mirror_div,here]
      omega
    have above : ¬i < 8 * (7 - 2 * k) := by omega
    simp [source,here,place,above,bound]
  · by_cases below : i < 8 * (7 - 2 * k)
    · simp [below,here]
    · have other : ¬(i - 8 * (7 - 2 * k)) / 8 = k := by omega
      simp [other,here]

/-- Every bit moves to the mirrored byte, to the same place in it. -/
theorem getLsbD_bswap64 (x : BitVec 64) (i : Nat) (bound : i < 64) :
    (bswap64 x).getLsbD i = x.getLsbD (56 - 8 * (i / 8) + i % 8) := by
  have down (k : Nat) (upper : 4 ≤ k) (top : k < 8) := getLsbD_byteDown x k i upper top bound
  have up (k : Nat) (lower : k < 4) := getLsbD_byteUp x k i lower bound
  change (((x &&& 0xff#64 <<< (8 * 7)) >>> (8 * (2 * 7 - 7))) |||
    ((x &&& 0xff#64 <<< (8 * 6)) >>> (8 * (2 * 6 - 7))) |||
    ((x &&& 0xff#64 <<< (8 * 5)) >>> (8 * (2 * 5 - 7))) ||| ((x &&& 0xff#64 <<< (8 * 4)) >>> (8 * (2 * 4 - 7))) |||
    ((x &&& 0xff#64 <<< (8 * 3)) <<< (8 * (7 - 2 * 3))) ||| ((x &&& 0xff#64 <<< (8 * 2)) <<< (8 * (7 - 2 * 2))) |||
    ((x &&& 0xff#64 <<< (8 * 1)) <<< (8 * (7 - 2 * 1))) |||
      ((x &&& 0xff#64 <<< (8 * 0)) <<< (8 * (7 - 2 * 0)))).getLsbD i =
      x.getLsbD (mirror i)
  repeat rw [BitVec.getLsbD_or]
  rw [down 7 (by decide) (by decide),down 6 (by decide) (by decide),down 5 (by decide) (by decide),
    down 4 (by decide) (by decide),up 3 (by decide),up 2 (by decide),up 1 (by decide),up 0 (by decide)]
  have byte : i / 8 = 0 ∨ i / 8 = 1 ∨ i / 8 = 2 ∨ i / 8 = 3 ∨ i / 8 = 4 ∨ i / 8 = 5 ∨ i / 8 = 6 ∨ i / 8 = 7 := by omega
  rcases byte with h | h | h | h | h | h | h | h <;> simp [h]

theorem bswap64_bswap64 (x : BitVec 64) : bswap64 (bswap64 x) = x := by
  apply BitVec.eq_of_getLsbD_eq
  intro i bound
  rw [getLsbD_bswap64 _ i bound,getLsbD_bswap64 _ _ (by omega)]
  congr 1
  omega

/-- The bytes of an integer in two's complement, most significant first. -/
def networkBytes (count : Nat) (value : Int) : List UInt8 :=
  (List.range count).reverse.map fun i => UInt8.ofNat (value / 256^i % 256).toNat

theorem littleBytes_eq_map (count value : Nat) :
    littleBytes count value = (List.range count).map fun i => UInt8.ofNat (value / 256^i % 256) := by
  induction count generalizing value with
  | zero => rfl
  | succ count ih =>
    rw [littleBytes,ih,List.range_succ_eq_map,List.map_cons,List.map_map,pow_zero,Nat.div_one]
    congr 2
    funext i
    simp only [Function.comp,pow_succ',Nat.div_div_eq_div_mul]

/-- The sign of a value shows only above its own bytes. -/
theorem byte_toInt (n : Nat) (x : BitVec (8 * n)) (i : Nat) (inside : i < n) :
    (x.toInt / 256^i % 256).toNat = x.toNat / 256^i % 256 := by
  have unsigned : x.toInt / 256^i % 256 = (x.toNat : Int) / 256^i % 256 := by
    rw [BitVec.toInt_eq_toNat_cond]
    split
    · rfl
    · have above : (2^(8 * n) : Int) = 256^i * (256 * 256^(n - 1 - i)) := by
        rw [← pow_succ',← pow_add,pow_mul]
        norm_num
        omega
      push_cast
      rw [above,sub_eq_add_neg,← mul_neg,Int.add_mul_ediv_left _ _ (by positivity)]
      omega
  rw [unsigned]
  norm_cast

theorem networkBytes_toInt (n : Nat) (x : BitVec (8 * n)) :
    networkBytes n x.toInt = (littleBytes n x.toNat).reverse := by
  rw [networkBytes,littleBytes_eq_map,← List.map_reverse]
  apply List.map_congr_left
  intro i among
  rw [byte_toInt n x i (by simpa using among)]

/-- What `htonl` and `htons` leave in memory does not depend on the host. -/
theorem hostBytes_hostToNetwork (order : ByteOrder) (n : Nat) (x : BitVec (8 * n)) :
    hostBytes order n (hostToNetwork order n x) = networkBytes n x.toInt := by
  rw [networkBytes_toInt]
  cases order with
  | little => exact littleBytes_reverseBytes n x
  | big => rfl

theorem testBit_byte (value i j : Nat) :
    (value / 256^i % 256).testBit j = (decide (j < 8) && value.testBit (8 * i + j)) := by
  rw [bytes_width,show 256 = 2^8 from rfl,Nat.testBit_mod_two_pow,Nat.testBit_div_two_pow,Nat.add_comm]

theorem byte_bswap64 (x : BitVec 64) (i : Nat) (inside : i < 8) :
    (bswap64 x).toNat / 256^i % 256 = x.toNat / 256^(7 - i) % 256 := by
  apply Nat.eq_of_testBit_eq
  intro j
  rw [testBit_byte,testBit_byte]
  by_cases low : j < 8
  · have moved := getLsbD_bswap64 x (8 * i + j) (by omega)
    have place : 56 - 8 * ((8 * i + j) / 8) + (8 * i + j) % 8 = 8 * (7 - i) + j := by omega
    rw [place] at moved
    exact congrArg _ moved
  · simp [low]

theorem littleBytes_bswap64 (x : BitVec 64) : littleBytes 8 (bswap64 x).toNat = (littleBytes 8 x.toNat).reverse := by
  simp only [littleBytes_eq_map]
  apply List.ext_getElem
  · simp
  · intro i inside _
    simp only [List.length_map,List.length_range] at inside
    simp [byte_bswap64 x i inside]

/-- The macro swaps on either host: what it leaves in memory is in network order on a
little-endian one, and in the opposite order on a big-endian one. -/
theorem hostBytes_bswap64 (order : ByteOrder) (x : BitVec 64) : hostBytes order 8 (bswap64 x) =
    match order with
    | .little => networkBytes 8 x.toInt
    | .big => (networkBytes 8 x.toInt).reverse := by
  cases order with
  | little => rw [networkBytes_toInt 8 x,hostBytes,littleBytes_bswap64]
  | big => rw [networkBytes_toInt 8 x,hostBytes,littleBytes_bswap64]

end Evk
