import Evk.ConnectionTable
import Evk.Region
import Evk.TextCodec
import Evk.Wire

/-! Socket addresses and their texts. An `InetAddress` is a union of `sockaddr_in` and
`sockaddr_in6`, so it is modelled as the 28 bytes it occupies, with the fields of both
structures at their offsets; constructors of the IPv4 form leave the last twelve bytes
as they were. `inet_ntop` and `inet_pton` are those of the C library. -/
namespace Evk

/-- A stretch of memory of `n` bytes. -/
@[ext] structure Octets (n : Nat) where
  bytes : List UInt8
  size : bytes.length = n
  deriving DecidableEq

namespace Octets

variable {m n : Nat}

def zeros (n : Nat) : Octets n := ⟨List.replicate n 0,List.length_replicate⟩

def get (mem : Octets m) (start count : Nat) (inside : start + count ≤ m) : Octets count :=
  ⟨Region.slice mem.bytes start count,Region.length_slice _ _ _ (by rwa [mem.size])⟩

def put (mem : Octets m) (start : Nat) (data : Octets n) (inside : start + n ≤ m) : Octets m :=
  ⟨Region.store mem.bytes start data.bytes,by rw [Region.length_store _ _ _ (by rwa [mem.size,data.size]),mem.size]⟩

theorem get_put_same (mem : Octets m) (start : Nat) (data : Octets n) (inside : start + n ≤ m) :
    (mem.put start data inside).get start n inside = data := by
  have same := Region.slice_store_same mem.bytes start data.bytes (by rw [mem.size]; omega)
  rw [data.size] at same
  exact Octets.ext same

theorem get_put_apart (mem : Octets m) (start : Nat) (data : Octets n) (inside : start + n ≤ m) (first count : Nat)
    (fits : first + count ≤ m) (apart : first + count ≤ start ∨ start + n ≤ first) :
    (mem.put start data inside).get first count fits = mem.get first count fits := by
  apply Octets.ext
  rcases apart with before | after
  · exact Region.slice_store_before mem.bytes start data.bytes first count (by rw [mem.size]; omega) before
  · apply Region.slice_store_after mem.bytes start data.bytes first count
    · rwa [mem.size,data.size]
    · rwa [data.size]

theorem get_put_inside (mem : Octets m) (start : Nat) (data : Octets n) (inside : start + n ≤ m) (first count : Nat)
    (within : first + count ≤ n) :
    (mem.put start data inside).get (start + first) count (by omega) = data.get first count within := by
  have whole := congrArg bytes (get_put_same mem start data inside)
  apply Octets.ext
  have cut : min count (n - first) = count := by omega
  simp only [get] at whole ⊢
  rw [← whole,Region.slice,Region.slice,Region.slice_drop,Region.slice,List.take_take,cut]

theorem put_get (mem : Octets m) (start count : Nat) (inside : start + count ≤ m) :
    mem.put start (mem.get start count inside) inside = mem := by
  apply Octets.ext
  have length := (mem.get start count inside).size
  simp only [put,Region.store,length]
  simp only [get,Region.slice]
  rw [← List.drop_drop,List.append_assoc,List.take_append_drop,List.take_append_drop]

theorem get_zeros (start count : Nat) (inside : start + count ≤ n) :
    (zeros n).get start count inside = zeros count := by
  apply Octets.ext
  simp only [get,zeros,Region.slice,List.drop_replicate,List.take_replicate]
  congr 1
  omega

def ofInt (order : ByteOrder) (x : BitVec (8 * n)) : Octets n := ⟨hostBytes order n x,length_hostBytes order n x⟩

def toInt (order : ByteOrder) (data : Octets n) : BitVec (8 * n) := ofHostBytes order (8 * n) data.bytes

@[simp] theorem toInt_ofInt (order : ByteOrder) (x : BitVec (8 * n)) : (ofInt order x).toInt order = x :=
  ofHostBytes_hostBytes order n x

end Octets

/-! ### Texts of addresses -/

def nul : Char := Char.ofNat 0

/-- What `inet_ntop` writes and `inet_pton` reads for addresses of `width` bytes, with the
bound that the length of its buffer is for. -/
structure AddressText (width limit : Nat) extends TextCodec (Octets width) where
  short : ∀ ip, (write ip).length ≤ limit
  plain : ∀ ip, ∀ x ∈ write ip, x ≠ nul

/-- A number of a dotted address: decimal, without leading zeros, at most 255. -/
def octet : TextCodec UInt8 where
  write byte := decimal byte.toNat
  read text :=
    let value := Nat.ofDigitChars 10 text 0
    if value ≤ 255 ∧ decimal value = text then some (UInt8.ofNat value) else none
  read_write byte := by
    have value : Nat.ofDigitChars 10 (decimal byte.toNat) 0 = byte.toNat := by
      rw [decimal_natCast]
      exact Nat.ofDigitChars_toDigits (by decide) (by decide)
    have small := byte.toNat_lt
    have most : byte.toNat ≤ 255 := by omega
    simp [value,most]

theorem octet_digits (byte : UInt8) (among : x ∈ octet.write byte) : x.isDigit = true := by
  simp only [octet,decimal_natCast] at among
  exact Nat.isDigit_of_mem_toDigits (by decide) (by decide) among

theorem octet_short (byte : UInt8) : (octet.write byte).length ≤ 3 := by
  have small := byte.toNat_lt
  simp only [octet,decimal_natCast]
  exact Nat.toDigits_length 10 _ 3 (by decide) (by omega)

theorem not_mem_octet {x : Char} (other : x.isDigit = false) (byte : UInt8) : x ∉ octet.write byte := fun among => by
  simp [octet_digits byte among] at other

/-- `AF_INET`: four numbers with dots between them. -/
def inet4 : AddressText 4 15 where
  write ip := octet.join '.' ip.bytes
  read text :=
    match octet.split '.' text with
    | some bytes => if size : bytes.length = 4 then some ⟨bytes,size⟩ else none
    | none => none
  read_write ip := by
    have some : ip.bytes ≠ [] := by
      rw [← List.length_pos_iff,ip.size]
      decide
    simp [octet.split_join '.' (not_mem_octet (by decide)) ip.bytes some,ip.size]
  short ip := by
    have bound := octet.length_join_le '.' octet_short ip.bytes
    rwa [ip.size] at bound
  plain ip x among := by
    rcases octet.mem_join '.' among with rfl | ⟨byte,-,inside⟩
    · decide
    · rintro rfl
      exact not_mem_octet (by decide) byte inside

theorem inet4_colon (ip : Octets 4) : ':' ∉ inet4.write ip := fun among => by
  rcases octet.mem_join '.' among with separator | ⟨byte,-,inside⟩
  · exact absurd separator (by decide)
  · exact not_mem_octet (by decide) byte inside

/-- `AF_INET6`: every text has a colon. -/
structure Inet6Text extends AddressText 16 45 where
  colon : ∀ ip, ':' ∈ write ip

def hexValue (x : Char) : Option Nat := (List.range 16).find? fun value => Nat.digitChar value == x

theorem hexValue_digitChar {value : Nat} (small : value < 16) : hexValue (Nat.digitChar value) = some value := by
  interval_cases value <;> rfl

def hexByte (x y : Char) : Option UInt8 := do return UInt8.ofNat ((← hexValue x) * 16 + (← hexValue y))

theorem hexByte_digits (byte : UInt8) :
    hexByte (Nat.digitChar (byte.toNat / 16)) (Nat.digitChar (byte.toNat % 16)) = some byte := by
  have small := byte.toNat_lt
  have high : byte.toNat / 16 < 16 := by omega
  rw [hexByte,hexValue_digitChar high,hexValue_digitChar (Nat.mod_lt _ (by decide))]
  show some (UInt8.ofNat (byte.toNat / 16 * 16 + byte.toNat % 16)) = some byte
  rw [Nat.div_add_mod',UInt8.ofNat_toNat]

def group : TextCodec (UInt8 × UInt8) where
  write pair := [pair.1.toNat / 16,pair.1.toNat % 16,pair.2.toNat / 16,pair.2.toNat % 16].map Nat.digitChar
  read
    | [w,x,y,z] => do return (← hexByte w x,← hexByte y z)
    | _ => none
  read_write pair := by simp [hexByte_digits]

theorem group_hex (pair : UInt8 × UInt8) (among : x ∈ group.write pair) : (hexValue x).isSome = true := by
  obtain ⟨value,listed,rfl⟩ := List.mem_map.mp among
  have first := pair.1.toNat_lt
  have second := pair.2.toNat_lt
  have small : value < 16 := by
    simp only [List.mem_cons,List.not_mem_nil,or_false] at listed
    omega
  simp [hexValue_digitChar small]

def pairs : List UInt8 → List (UInt8 × UInt8)
  | first :: second :: rest => (first,second) :: pairs rest
  | _ => []

def unpairs (groups : List (UInt8 × UInt8)) : List UInt8 := groups.flatMap fun pair => [pair.1,pair.2]

theorem unpairs_pairs (n : Nat) (bytes : List UInt8) (even : bytes.length = 2 * n) :
    unpairs (pairs bytes) = bytes ∧ (pairs bytes).length = n := by
  induction n generalizing bytes with
  | zero =>
    obtain rfl := List.length_eq_zero_iff.mp even
    exact ⟨rfl,rfl⟩
  | succ n ih =>
    match bytes, even with
    | first :: second :: rest, even =>
      obtain ⟨same,length⟩ := ih rest (by simp only [List.length_cons] at even; omega)
      exact ⟨by simpa [pairs,unpairs] using same,by simp [pairs,length]⟩

/-- The text of an IPv6 address without abbreviations, as one that meets the laws. -/
def Inet6Text.uncompressed : Inet6Text where
  write ip := group.join ':' (pairs ip.bytes)
  read text :=
    match group.split ':' text with
    | some groups => if size : (unpairs groups).length = 16 then some ⟨unpairs groups,size⟩ else none
    | none => none
  read_write ip := by
    obtain ⟨same,length⟩ := unpairs_pairs 8 ip.bytes ip.size
    have some : pairs ip.bytes ≠ [] := by
      rw [← List.length_pos_iff,length]
      decide
    have apart (pair : UInt8 × UInt8) : ':' ∉ group.write pair := fun among => absurd (group_hex pair among) (by decide)
    simp [group.split_join ':' apart _ some,same,ip.size]
  short ip := by
    have four (pair : UInt8 × UInt8) : (group.write pair).length ≤ 4 := le_rfl
    have bound := group.length_join_le ':' four (pairs ip.bytes)
    rw [(unpairs_pairs 8 ip.bytes ip.size).2] at bound
    exact bound.trans (by decide)
  plain ip x among := by
    rcases group.mem_join ':' among with rfl | ⟨pair,-,inside⟩
    · decide
    · rintro rfl
      exact absurd (group_hex pair inside) (by decide)
  colon ip := by
    have length := (unpairs_pairs 8 ip.bytes ip.size).2
    match pairs ip.bytes, length with
    | first :: second :: rest, _ => simp

/-! ### The union -/

def afInet : BitVec 16 := 2
def afInet6 : BitVec 16 := 10

/-- A `hostent`, with the first four bytes at its `h_addr`. -/
structure HostEnt where
  addrtype : Int
  length : Int
  addr : Octets 4
  deriving DecidableEq

structure InetAddress where
  mem : Octets 28
  deriving DecidableEq

namespace InetAddress

variable (order : ByteOrder)

/-- The fields of `sockaddr_in` and `sockaddr_in6`; family and port are in the same place. -/
def family (a : InetAddress) : BitVec 16 := (a.mem.get 0 2 (by decide)).toInt order
def sinPort (a : InetAddress) : BitVec 16 := (a.mem.get 2 2 (by decide)).toInt order
def sinAddr (a : InetAddress) : Octets 4 := a.mem.get 4 4 (by decide)
def sin6Addr (a : InetAddress) : Octets 16 := a.mem.get 8 16 (by decide)

def setFamily (a : InetAddress) (family : BitVec 16) : InetAddress :=
  ⟨a.mem.put 0 (.ofInt order (n := 2) family) (by decide)⟩
def setSinPort (a : InetAddress) (port : BitVec 16) : InetAddress :=
  ⟨a.mem.put 2 (.ofInt order (n := 2) port) (by decide)⟩
def setSinAddr (a : InetAddress) (ip : Octets 4) : InetAddress := ⟨a.mem.put 4 ip (by decide)⟩
def setSin6Addr (a : InetAddress) (ip : Octets 16) : InetAddress := ⟨a.mem.put 8 ip (by decide)⟩
def setSin6ScopeId (a : InetAddress) (scopeId : BitVec 32) : InetAddress :=
  ⟨a.mem.put 24 (.ofInt order (n := 4) scopeId) (by decide)⟩

/-- `memset` of `addr_` and of `addr6_`. -/
def clearIn (a : InetAddress) : InetAddress := ⟨a.mem.put 0 (.zeros 16) (by decide)⟩
def clearIn6 (a : InetAddress) : InetAddress := ⟨a.mem.put 0 (.zeros 28) (by decide)⟩

def kInaddrAny : BitVec 32 := 0
def kInaddrLoopback : BitVec 32 := 0x7f000001
def in6addrAny : Octets 16 := .zeros 16
def in6addrLoopback : Octets 16 := ⟨List.replicate 15 0 ++ [1],rfl⟩

/-- The first constructor; `a` is what was in the memory. -/
def construct (a : InetAddress) (port : BitVec 16) (loopBackOnly ipv6 : Bool) : InetAddress :=
  if ipv6 then
    let a := a.clearIn6.setFamily order afInet6
    let a := a.setSin6Addr (if loopBackOnly then in6addrLoopback else in6addrAny)
    a.setSinPort order (htons order port)
  else
    let a := a.clearIn.setFamily order afInet
    let a := a.setSinAddr (.ofInt order (n := 4) (htonl order (if loopBackOnly then kInaddrLoopback else kInaddrAny)))
    a.setSinPort order (htons order port)

end InetAddress

namespace Sock

variable (inet6 : Inet6Text) (order : ByteOrder)

/-- `ParseFromIpPort` for `sockaddr_in`; a text that `inet_pton` refuses is logged. -/
def parseFromIpPort (ip : List Char) (port : BitVec 16) (a : InetAddress) : InetAddress :=
  let a := (a.setFamily order afInet).setSinPort order (htons order port)
  match inet4.read ip with
  | some ip => a.setSinAddr ip
  | none => a

def parseFromIpPort6 (ip : List Char) (port : BitVec 16) (a : InetAddress) : InetAddress :=
  let a := (a.setFamily order afInet6).setSinPort order (htons order port)
  match inet6.read ip with
  | some ip => a.setSin6Addr ip
  | none => a

/-- `inet_ntop` into a buffer; one that is too small is left alone. -/
def inetNtop (text buf : List Char) : List Char :=
  if text.length < buf.length then Region.store buf 0 (text ++ [nul]) else buf

/-- The buffer after the call; the assertions are on its size. -/
def toIp (buf : List Char) (a : InetAddress) : Except Fault (List Char) :=
  if a.family order = afInet then do
    assert (16 ≤ buf.length) .toIp
    return inetNtop (inet4.write a.sinAddr) buf
  else if a.family order = afInet6 then do
    assert (46 ≤ buf.length) .toIp
    return inetNtop (inet6.write a.sin6Addr) buf
  else return buf

/-- A string that does not end in its buffer is read beyond it. -/
def strlen (buf : List Char) : Except Fault Nat := do
  check (nul ∈ buf) .outOfBounds
  return (cString buf).length

def toIpPort (buf : List Char) (a : InetAddress) : Except Fault (List Char) := do
  let buf ← toIp inet6 order buf a
  let stop ← strlen buf
  let port := ntohs order (a.sinPort order)
  assert (stop < buf.length) .toIpPort
  return Region.store buf stop (snprintf (buf.length - stop) (':' :: decimal port.toNat) ++ [nul])

/-- `GetLocalAddr` and `GetPeerAddr` are what the kernel says. A bracket is misplaced: the
size given to `memcmp` is the value of the comparison. -/
def isSelfConnect (localAddr peerAddr : InetAddress) : Bool :=
  if localAddr.family order = afInet then
    localAddr.sinPort order == peerAddr.sinPort order && localAddr.sinAddr == peerAddr.sinAddr
  else if localAddr.family order = afInet6 then
    let size := (16 == 0).toNat
    localAddr.sinPort order == peerAddr.sinPort order &&
      localAddr.sin6Addr.bytes.take size != peerAddr.sin6Addr.bytes.take size
  else false

end Sock

namespace InetAddress

variable (inet6 : Inet6Text) (order : ByteOrder)

/-- The second constructor; `ip` is the string at `ip.data()`. -/
def ofIpPort (a : InetAddress) (ip : List Char) (port : BitVec 16) (ipv6 : Bool) : InetAddress :=
  if ipv6 then Sock.parseFromIpPort6 inet6 order ip port a.clearIn6
  else Sock.parseFromIpPort order ip port a.clearIn

def toIp (stack : List Char) (a : InetAddress) : Except Fault (List Char) := do
  let buf ← Sock.toIp inet6 order stack a
  let _ ← Sock.strlen buf
  return cString buf

def toIpPort (stack : List Char) (a : InetAddress) : Except Fault (List Char) := do
  let buf ← Sock.toIpPort inet6 order stack a
  let _ ← Sock.strlen buf
  return cString buf

def toPort (a : InetAddress) : BitVec 16 := ntohs order (a.sinPort order)

/-- `Resolve` with what `gethostbyname_r` found. -/
def resolve (found : Option HostEnt) (result : InetAddress) : Except Fault (Bool × InetAddress) :=
  match found with
  | some he => do
    assert (he.addrtype = afInet.toNat ∧ he.length = 4) .resolve
    return (true,result.setSinAddr he.addr)
  | none => return (false,result)

def setScopeId (a : InetAddress) (scopeId : BitVec 32) : InetAddress :=
  if a.family order = afInet6 then a.setSin6ScopeId order scopeId else a

/-! ### Fields -/

variable {inet6 order} {a b : InetAddress}

@[simp] theorem family_setFamily (family : BitVec 16) : (a.setFamily order family).family order = family := by
  simp only [setFamily,InetAddress.family,Octets.get_put_same]
  exact Octets.toInt_ofInt order (n := 2) family

@[simp] theorem sinPort_setSinPort (port : BitVec 16) : (a.setSinPort order port).sinPort order = port := by
  simp only [setSinPort,sinPort,Octets.get_put_same]
  exact Octets.toInt_ofInt order (n := 2) port

@[simp] theorem sinAddr_setSinAddr (ip : Octets 4) : (a.setSinAddr ip).sinAddr = ip := Octets.get_put_same ..

@[simp] theorem sin6Addr_setSin6Addr (ip : Octets 16) : (a.setSin6Addr ip).sin6Addr = ip := Octets.get_put_same ..

@[simp] theorem family_setSinPort (port : BitVec 16) : (a.setSinPort order port).family order = a.family order := by
  simp (disch := decide) only [setSinPort,family,Octets.get_put_apart]

@[simp] theorem family_setSinAddr (ip : Octets 4) : (a.setSinAddr ip).family order = a.family order := by
  simp (disch := decide) only [setSinAddr,family,Octets.get_put_apart]

@[simp] theorem family_setSin6Addr (ip : Octets 16) : (a.setSin6Addr ip).family order = a.family order := by
  simp (disch := decide) only [setSin6Addr,family,Octets.get_put_apart]

@[simp] theorem family_setSin6ScopeId (scopeId : BitVec 32) :
    (a.setSin6ScopeId order scopeId).family order = a.family order := by
  simp (disch := decide) only [setSin6ScopeId,family,Octets.get_put_apart]

@[simp] theorem sinAddr_setSinPort (port : BitVec 16) : (a.setSinPort order port).sinAddr = a.sinAddr := by
  simp (disch := decide) only [setSinPort,sinAddr,Octets.get_put_apart]

@[simp] theorem sin6Addr_setSinPort (port : BitVec 16) : (a.setSinPort order port).sin6Addr = a.sin6Addr := by
  simp (disch := decide) only [setSinPort,sin6Addr,Octets.get_put_apart]

@[simp] theorem sinPort_setSinAddr (ip : Octets 4) : (a.setSinAddr ip).sinPort order = a.sinPort order := by
  simp (disch := decide) only [setSinAddr,sinPort,Octets.get_put_apart]

@[simp] theorem sinPort_setSin6Addr (ip : Octets 16) : (a.setSin6Addr ip).sinPort order = a.sinPort order := by
  simp (disch := decide) only [setSin6Addr,sinPort,Octets.get_put_apart]

@[simp] theorem sinPort_setSin6ScopeId (scopeId : BitVec 32) :
    (a.setSin6ScopeId order scopeId).sinPort order = a.sinPort order := by
  simp (disch := decide) only [setSin6ScopeId,sinPort,Octets.get_put_apart]

/-- The IPv4 address lies where the IPv6 form has its flow information. -/
@[simp] theorem sin6Addr_setSinAddr (ip : Octets 4) : (a.setSinAddr ip).sin6Addr = a.sin6Addr := by
  simp (disch := decide) only [setSinAddr,sin6Addr,Octets.get_put_apart]

@[simp] theorem sin6Addr_setSin6ScopeId (scopeId : BitVec 32) :
    (a.setSin6ScopeId order scopeId).sin6Addr = a.sin6Addr := by
  simp (disch := decide) only [setSin6ScopeId,sin6Addr,Octets.get_put_apart]

/-! ### From memory to text and back -/

def ip (inet6 : Inet6Text) (order : ByteOrder) (a : InetAddress) : List Char :=
  if a.family order = afInet then inet4.write a.sinAddr else inet6.write a.sin6Addr

def Known (order : ByteOrder) (a : InetAddress) : Prop := a.family order = afInet ∨ a.family order = afInet6

instance : Decidable (a.Known order) := inferInstanceAs (Decidable (_ ∨ _))

theorem ip_short (inet6 : Inet6Text) (order : ByteOrder) (a : InetAddress) : (a.ip inet6 order).length ≤ 45 := by
  rw [ip]
  split
  · exact (inet4.short a.sinAddr).trans (by decide)
  · exact inet6.short a.sin6Addr

theorem ip_plain (inet6 : Inet6Text) (order : ByteOrder) (a : InetAddress) : ∀ x ∈ a.ip inet6 order, x ≠ nul := by
  rw [ip]
  split
  · exact inet4.plain a.sinAddr
  · exact inet6.plain a.sin6Addr

theorem cString_terminated {text : List Char} (plain : ∀ x ∈ text, x ≠ nul) (rest : List Char) :
    cString (text ++ nul :: rest) = text := by
  rw [cString,List.takeWhile_append_of_pos (by simpa [nul] using plain),List.takeWhile_cons_of_neg (by simp [nul])]
  exact List.append_nil text

theorem strlen_terminated {text : List Char} (plain : ∀ x ∈ text, x ≠ nul) (rest : List Char) :
    Sock.strlen (text ++ nul :: rest) = .ok text.length := by
  simp [Sock.strlen,cString_terminated plain,check_of]

/-- `ToIp` overwrites the start of the buffer, whatever was there. -/
theorem sock_toIp_eq (inet6 : Inet6Text) (known : a.Known order) {stack : List Char} (room : stack.length = 64) :
    ∃ rest, rest.length + (a.ip inet6 order).length = 63 ∧
      Sock.toIp inet6 order stack a = .ok (a.ip inet6 order ++ nul :: rest) := by
  have short := ip_short inet6 order a
  have fits : (a.ip inet6 order).length < stack.length := by omega
  have stored : Sock.inetNtop (a.ip inet6 order) stack =
      a.ip inet6 order ++ nul :: stack.drop ((a.ip inet6 order).length + 1) := by
    simp [Sock.inetNtop,fits,Region.store]
  refine ⟨stack.drop ((a.ip inet6 order).length + 1),by simp only [List.length_drop]; omega,?_⟩
  rw [← stored]
  by_cases four : a.family order = afInet
  · simp [Sock.toIp,four,room,assert_of,ip]
  · have six := known.resolve_left four
    have different : afInet6 ≠ afInet := by decide
    simp [Sock.toIp,six,different,room,assert_of,ip]

theorem toIp_eq (known : a.Known order) {stack : List Char} (room : stack.length = 64) :
    a.toIp inet6 order stack = .ok (a.ip inet6 order) := by
  obtain ⟨rest,-,written⟩ := sock_toIp_eq inet6 known room
  have plain := ip_plain inet6 order a
  simp [toIp,written,strlen_terminated plain,cString_terminated plain]

def portText (order : ByteOrder) (a : InetAddress) : List Char := ':' :: decimal (a.toPort order).toNat

theorem portText_short (order : ByteOrder) (a : InetAddress) : (a.portText order).length ≤ 6 := by
  have digits := Nat.toDigits_length 10 (a.toPort order).toNat 5 (by decide) ((a.toPort order).isLt.trans (by decide))
  simp only [portText,decimal_natCast,List.length_cons]
  omega

theorem portText_plain (order : ByteOrder) (a : InetAddress) : ∀ x ∈ a.portText order, x ≠ nul := by
  intro x among
  rcases List.mem_cons.mp among with rfl | digit
  · decide
  · exact decimal_plain digit

/-- `ToIpPort` appends the port to the text of the address, and nothing is cut off. -/
theorem toIpPort_eq (known : a.Known order) {stack : List Char} (room : stack.length = 64) :
    a.toIpPort inet6 order stack = .ok (a.ip inet6 order ++ a.portText order) := by
  obtain ⟨rest,length,written⟩ := sock_toIp_eq inet6 known room
  have plain := ip_plain inet6 order a
  have short := ip_short inet6 order a
  have port := portText_short order a
  have whole : ∀ x ∈ a.ip inet6 order ++ a.portText order, x ≠ nul := by
    intro x among
    rcases List.mem_append.mp among with front | back
    · exact plain x front
    · exact portText_plain order a x back
  have size : (a.ip inet6 order ++ nul :: rest).length = 64 := by
    simp only [List.length_append,List.length_cons]
    omega
  have uncut : snprintf (64 - (a.ip inet6 order).length) (a.portText order) = a.portText order :=
    List.take_of_length_le (by omega)
  have stops : (a.ip inet6 order).length < 64 := by omega
  have buffer : Sock.toIpPort inet6 order stack a = .ok (Region.store (a.ip inet6 order ++ nul :: rest)
      (a.ip inet6 order).length (a.portText order ++ [nul])) := by
    simp only [Sock.toIpPort,written,ok_bind,strlen_terminated plain,size,assert_of stops]
    exact congrArg (fun text => Except.ok (Region.store _ _ (text ++ [nul]))) uncut
  have stored (tail : List Char) : Region.store (a.ip inet6 order ++ tail)
    (a.ip inet6 order).length (a.portText order ++ [nul]) =
      (a.ip inet6 order ++ a.portText order) ++ nul :: tail.drop ((a.portText order).length + 1) := by
    simp [Region.store]
  simp only [toIpPort,buffer,ok_bind,stored,strlen_terminated whole,cString_terminated whole,pure_eq_ok]

theorem ofIpPort_ip (known : a.Known order) (mem : InetAddress) :
    let b := mem.ofIpPort inet6 order (a.ip inet6 order) (a.toPort order) (decide (a.family order = afInet6))
    b.family order = a.family order ∧ b.toPort order = a.toPort order ∧ b.ip inet6 order = a.ip inet6 order := by
  by_cases six : a.family order = afInet6
  · have different : afInet6 ≠ afInet := by decide
    simp [ofIpPort,Sock.parseFromIpPort6,six,ip,different,inet6.read_write,toPort,ntohs_htons]
  · have four := known.resolve_right six
    have different : afInet ≠ afInet6 := by decide
    simp [ofIpPort,Sock.parseFromIpPort,four,different,ip,inet4.read_write,toPort,ntohs_htons]

theorem setSinAddr_self (a : InetAddress) : a.setSinAddr a.sinAddr = a := congrArg mk (Octets.put_get ..)

theorem setSin6Addr_self (a : InetAddress) : a.setSin6Addr a.sin6Addr = a := congrArg mk (Octets.put_get ..)

theorem sinAddr_clearIn (family : BitVec 16) : (a.clearIn.setFamily order family).sinAddr = .zeros 4 := by
  have cleared : a.clearIn.sinAddr = .zeros 4 :=
    (Octets.get_put_inside a.mem 0 (.zeros 16) (by decide) 4 4 (by decide)).trans (Octets.get_zeros ..)
  simp (disch := decide) only [setFamily,sinAddr,Octets.get_put_apart]
  exact cleared

theorem sin6Addr_clearIn6 (family : BitVec 16) : (a.clearIn6.setFamily order family).sin6Addr = .zeros 16 := by
  have cleared : a.clearIn6.sin6Addr = .zeros 16 :=
    (Octets.get_put_inside a.mem 0 (.zeros 28) (by decide) 8 16 (by decide)).trans (Octets.get_zeros ..)
  simp (disch := decide) only [setFamily,sin6Addr,Octets.get_put_apart]
  exact cleared

theorem ofInt_kInaddrAny (order : ByteOrder) : Octets.ofInt order (n := 4) (htonl order kInaddrAny) = .zeros 4 := by
  cases order <;> rfl

def Refused (inet6 : Inet6Text) (text : List Char) (ipv6 : Bool) : Prop :=
  if ipv6 then inet6.read text = none else inet4.read text = none

theorem ofIpPort_refused (mem : InetAddress) (port : BitVec 16) (refused : Refused inet6 text ipv6) :
    mem.ofIpPort inet6 order text port ipv6 = mem.construct order port false ipv6 := by
  cases ipv6 with
  | true =>
    have refused : inet6.read text = none := refused
    have any : (mem.clearIn6.setFamily order afInet6).setSin6Addr in6addrAny =
        mem.clearIn6.setFamily order afInet6 := by
      rw [in6addrAny,← sin6Addr_clearIn6 (a := mem) afInet6,setSin6Addr_self]
    simp [ofIpPort,Sock.parseFromIpPort6,refused,construct,any]
  | false =>
    have refused : inet4.read text = none := refused
    have any : (mem.clearIn.setFamily order afInet).setSinAddr (.zeros 4) = mem.clearIn.setFamily order afInet := by
      rw [← sinAddr_clearIn (a := mem) afInet,setSinAddr_self]
    simp [ofIpPort,Sock.parseFromIpPort,refused,construct,ofInt_kInaddrAny,any]

theorem colon_not_mem_decimal (n : Nat) : ':' ∉ decimal n := fun among => by
  rw [decimal_natCast] at among
  exact absurd (Nat.isDigit_of_mem_toDigits (by decide) (by decide) among) (by decide)

/-- The text says which address and port it is of. -/
theorem text_inj (known : a.Known order) (known' : b.Known order)
    (same : a.ip inet6 order ++ a.portText order = b.ip inet6 order ++ b.portText order) :
    a.family order = b.family order ∧ a.toPort order = b.toPort order ∧
      (a.family order = afInet → a.sinAddr = b.sinAddr) ∧ (a.family order = afInet6 → a.sin6Addr = b.sin6Addr) := by
  obtain ⟨ips,ports⟩ := List.append_cons_inj_of_not_mem_right (colon_not_mem_decimal _) (colon_not_mem_decimal _) same
  have port : a.toPort order = b.toPort order := BitVec.eq_of_toNat_eq (decimal_inj ports)
  have different : afInet6 ≠ afInet := by decide
  rcases known with four | six
  · rcases known' with four' | six'
    · simp only [ip,four,four',if_true] at ips
      exact ⟨four.trans four'.symm,port,fun _ => inet4.write_inj ips,fun six => absurd (six.symm.trans four) different⟩
    · simp only [ip,four,six',if_true,if_neg different] at ips
      exact absurd (ips ▸ inet6.colon b.sin6Addr) (inet4_colon a.sinAddr)
  · rcases known' with four' | six'
    · simp only [ip,six,four',if_true,if_neg different] at ips
      exact absurd (ips ▸ inet6.colon a.sin6Addr) (inet4_colon b.sinAddr)
    · simp only [ip,six,six',if_neg different] at ips
      exact ⟨six.trans six'.symm,port,fun four => absurd (six.symm.trans four) different,fun _ => inet6.write_inj ips⟩

/-- For every address of the two families, whatever the stack and the memory held: the
texts are made without a fault and are not cut off; the text fits the names of
connections; an address made from the text and the port has the same texts; and no other
address and port have the same text. -/
theorem address_text_round_trip (inet6 : Inet6Text) (order : ByteOrder) (a : InetAddress) (known : a.Known order)
    (stack stack' : List Char) (room : stack.length = 64) (room' : stack'.length = 64) :
    ∃ ip ipPort, a.toIp inet6 order stack = .ok ip ∧ a.toIpPort inet6 order stack = .ok ipPort ∧
      ipPort = ip ++ ':' :: decimal (a.toPort order).toNat ∧
      (∀ name, ConnectionTable.machine.initial (.construct name ipPort)) ∧
      (∀ mem : InetAddress, let b := mem.ofIpPort inet6 order ip (a.toPort order) (decide (a.family order = afInet6))
        b.family order = a.family order ∧ b.toPort order = a.toPort order ∧
        b.toIp inet6 order stack' = .ok ip ∧ b.toIpPort inet6 order stack' = .ok ipPort) ∧
      ∀ b : InetAddress, b.Known order → b.toIpPort inet6 order stack' = .ok ipPort →
        a.family order = b.family order ∧ a.toPort order = b.toPort order ∧
        (a.family order = afInet → a.sinAddr = b.sinAddr) ∧ (a.family order = afInet6 → a.sin6Addr = b.sin6Addr) := by
  refine ⟨a.ip inet6 order,a.ip inet6 order ++ a.portText order,toIp_eq known room,toIpPort_eq known room,rfl,
    fun name => ?_,fun mem => ?_,fun b known' same => ?_⟩
  · have short := ip_short inet6 order a
    have port := portText_short order a
    exact ⟨name,_,by simp only [List.length_append]; omega,rfl⟩
  · intro b
    obtain ⟨family,port,ip⟩ : b.family order = a.family order ∧ b.toPort order = a.toPort order ∧
        b.ip inet6 order = a.ip inet6 order := ofIpPort_ip known mem
    have known' : b.Known order := by
      rw [Known,family]
      exact known
    refine ⟨family,port,(toIp_eq known' room').trans (by rw [ip]),(toIpPort_eq known' room').trans ?_⟩
    rw [ip,portText,portText,port]
  · rw [toIpPort_eq known' room'] at same
    exact text_inj known known' (Except.ok.inj same).symm

/-- The loopback address at port 80. -/
theorem address_text_round_trip_loopback : let a := InetAddress.construct .little ⟨.zeros 28⟩ 80 true false
    ∃ ipPort, a.toIpPort .uncompressed .little (List.replicate 64 'x') = .ok ipPort ∧ ipPort = "127.0.0.1:80".toList ∧
      ConnectionTable.machine.initial (.construct [] ipPort) := by
  intro a
  have known : a.Known .little := by decide
  obtain ⟨ip,ipPort,text,whole,same,initial,-⟩ := address_text_round_trip .uncompressed .little a known
    (List.replicate 64 'x') (List.replicate 64 'x') rfl rfl
  refine ⟨ipPort,whole,?_,initial []⟩
  have expected : a.toIp .uncompressed .little (List.replicate 64 'x') = .ok "127.0.0.1".toList := by decide
  rw [same,Except.ok.inj (text.symm.trans expected)]
  decide

theorem construct_any (mem : InetAddress) (port : BitVec 16) (ipv6 : Bool) :
    let a := mem.construct order port false ipv6
    a.family order = (if ipv6 then afInet6 else afInet) ∧ a.toPort order = port ∧
      a.ip inet6 order = if ipv6 then inet6.write (.zeros 16) else "0.0.0.0".toList := by
  have different : afInet6 ≠ afInet := by decide
  have zeros : inet4.write (.zeros 4) = "0.0.0.0".toList := by decide
  cases ipv6 with
  | true => simp [construct,toPort,ntohs_htons,ip,different,in6addrAny]
  | false => simp [construct,toPort,ntohs_htons,ip,ofInt_kInaddrAny,zeros]

/-- An address made from a text that is none is the wildcard address of its port: what
binds to it listens on every interface. -/
theorem refused_text_is_wildcard (inet6 : Inet6Text) (order : ByteOrder) (mem : InetAddress) (text : List Char)
    (port : BitVec 16) (ipv6 : Bool) (refused : Refused inet6 text ipv6) (stack : List Char)
    (room : stack.length = 64) :
    let a := mem.ofIpPort inet6 order text port ipv6
    a = mem.construct order port false ipv6 ∧ a.toPort order = port ∧
      a.toIpPort inet6 order stack =
        .ok ((if ipv6 then inet6.write (.zeros 16) else "0.0.0.0".toList) ++ ':' :: decimal port.toNat) := by
  intro a
  have same : a = mem.construct order port false ipv6 := ofIpPort_refused mem port refused
  obtain ⟨family,toPort,ip⟩ : a.family order = (if ipv6 then afInet6 else afInet) ∧
      a.toPort order = port ∧ a.ip inet6 order = _ :=
    same ▸ construct_any mem port ipv6
  have known : a.Known order := by
    rw [Known,family]
    cases ipv6 <;> simp
  refine ⟨same,toPort,(toIpPort_eq known room).trans ?_⟩
  rw [ip,portText,toPort]

/-- A number above 255. -/
theorem refused_text_is_wildcard_octet :
    ∃ a, a = InetAddress.ofIpPort .uncompressed .little ⟨.zeros 28⟩ "300.1.1.1".toList 80 false ∧
    a.toIpPort .uncompressed .little (List.replicate 64 'x') = .ok "0.0.0.0:80".toList :=
  ⟨_,rfl,(refused_text_is_wildcard .uncompressed .little ⟨.zeros 28⟩ "300.1.1.1".toList 80 false
    (show inet4.read _ = none by decide) (List.replicate 64 'x') rfl).2.2⟩

theorem setScopeId_text (scopeId : BitVec 32) (known : a.Known order) {stack : List Char} (room : stack.length = 64) :
    (a.setScopeId order scopeId).toIpPort inet6 order stack = a.toIpPort inet6 order stack := by
  by_cases six : a.family order = afInet6
  · have different : afInet6 ≠ afInet := by decide
    have known' : (a.setScopeId order scopeId).Known order := by
      simp [Known,setScopeId,six]
    rw [toIpPort_eq known' room,toIpPort_eq known room]
    simp [ip,portText,toPort,setScopeId,six,different]
  · rw [setScopeId,if_neg six]

/-- `Resolve` and `SetScopeID` keep the family and the port. The IPv4 address a host name
resolves to becomes the address of an IPv4 address only; for an IPv6 one success is reported
and the address stays as it was, since the four bytes are those of the flow information. -/
theorem resolve_text (inet6 : Inet6Text) (order : ByteOrder) (a : InetAddress) (known : a.Known order)
    (stack : List Char) (room : stack.length = 64) (he : HostEnt) (four : he.addrtype = afInet.toNat ∧ he.length = 4)
    (scopeId : BitVec 32) : ∃ b, resolve (some he) a = .ok (true,b) ∧
      b.family order = a.family order ∧ b.toPort order = a.toPort order ∧
      (a.family order = afInet → b.toIpPort inet6 order stack =
        .ok (inet4.write he.addr ++ ':' :: decimal (a.toPort order).toNat)) ∧
      (a.family order = afInet6 → b.toIpPort inet6 order stack = a.toIpPort inet6 order stack) ∧
      (b.setScopeId order scopeId).toIpPort inet6 order stack = b.toIpPort inet6 order stack := by
  have done : resolve (some he) a = .ok (true,a.setSinAddr he.addr) := by
    simp only [resolve,assert_of four,ok_bind]
    rfl
  have family : (a.setSinAddr he.addr).family order = a.family order := family_setSinAddr he.addr
  have port : (a.setSinAddr he.addr).toPort order = a.toPort order :=
    congrArg (ntohs order) (sinPort_setSinAddr he.addr)
  have known' : (a.setSinAddr he.addr).Known order := by
    rw [Known,family]
    exact known
  refine ⟨_,done,family,port,fun four => ?_,fun six => ?_,setScopeId_text scopeId known' room⟩
  · rw [toIpPort_eq known' room]
    simp [ip,portText,port,four]
  · have different : afInet6 ≠ afInet := by decide
    rw [toIpPort_eq known' room,toIpPort_eq known room]
    simp [ip,portText,port,six,different]

/-- An IPv6 address, all of whose groups have four digits, resolved to an IPv4 address: bytes
change, and the text does not. -/
theorem resolve_text_six :
    let a := InetAddress.ofIpPort .uncompressed .little
      ⟨.zeros 28⟩ "2001:1db8:85a3:8d3a:1319:8a2e:1370:7348".toList 80 true
    ∃ b, resolve (some ⟨2,4,⟨[93,184,216,34],rfl⟩⟩) a = .ok (true,b) ∧ b ≠ a ∧
      b.toIpPort .uncompressed .little (List.replicate 64 'x') =
        .ok "2001:1db8:85a3:8d3a:1319:8a2e:1370:7348:80".toList := by
  intro a
  have text : a.toIpPort .uncompressed .little (List.replicate 64 'x') =
      .ok "2001:1db8:85a3:8d3a:1319:8a2e:1370:7348:80".toList := by decide +kernel
  obtain ⟨b,done,-,-,-,same,-⟩ := resolve_text .uncompressed .little a (by decide +kernel) (List.replicate 64 'x') rfl
    ⟨2,4,⟨[93,184,216,34],rfl⟩⟩ ⟨rfl,rfl⟩ 0
  refine ⟨b,done,?_,(same (by decide +kernel)).trans text⟩
  rintro rfl
  exact absurd (congrArg (·.toOption.map (·.2.sinAddr.bytes)) done) (by decide +kernel)

/-- Two addresses of one family: a connection counts as one with itself just when both
ends have the same text and are IPv4; over IPv6 none does. -/
theorem self_connect_by_text (inet6 : Inet6Text) (order : ByteOrder) (a b : InetAddress) (known : a.Known order)
    (same : b.family order = a.family order) (stack : List Char) (room : stack.length = 64) :
    Sock.isSelfConnect order a b ↔
      a.family order = afInet ∧ a.toIpPort inet6 order stack = b.toIpPort inet6 order stack := by
  have known' : b.Known order := by
    rw [Known,same]
    exact known
  rw [toIpPort_eq known room,toIpPort_eq known' room]
  by_cases four : a.family order = afInet
  · simp only [Sock.isSelfConnect,four,if_true,Bool.and_eq_true,beq_iff_eq,true_and]
    constructor
    · rintro ⟨ports,ips⟩
      simp [ip,portText,toPort,same,four,ports,ips]
    · intro texts
      obtain ⟨-,port,ips,-⟩ := text_inj known known' (Except.ok.inj texts)
      exact ⟨Function.LeftInverse.injective (hostToNetwork_hostToNetwork order 2) port,ips four⟩
  · have six := known.resolve_left four
    have different : afInet6 ≠ afInet := by decide
    simp [Sock.isSelfConnect,six,different]

/-- A connection from a port to itself. -/
theorem self_connect_by_text_loopback : let a := InetAddress.construct .little ⟨.zeros 28⟩ 80 true false
    Sock.isSelfConnect .little a a :=
  (self_connect_by_text .uncompressed .little _ _ (by decide) rfl (List.replicate 64 'x') rfl).mpr ⟨by decide,rfl⟩

end InetAddress
end Evk
