import Evk.Region
import Evk.Simulation

/-! How the modelled code can stop, and the storage primitives that can stop it.
Every `assert`, every copy between allocations and every `new` is checked, so a
statement that a function returns says that none of them went wrong. -/
namespace Evk

/-- The functions of the source that state assertions. -/
inductive Site where
  | constructor | length | writableBytes | ensureWritableBytes | write | prepend
  | unwriteBytes | writeBytes | readByte | unreadBytes | peek | find | grow
  | channelRemove | channelDestructor | fillActiveChannels | updateChannel | removeChannel
  | onConnectEstablished | handleClose | sendInLoop | connectionDestructor
  | removeConnectionInLoop | insert | cancelInLoop | getExpired
  | eventLoopRun | eventLoopDestructor | startLoop | eventLoopThreadRun | eventLoopThreadStop
  | eventLoopThreadDestructor | getNextLoop | getNextLoopWithHash | getAllLoops | serverStart
  | toIp | toIpPort | resolve
  deriving DecidableEq, Repr

inductive Fault where
  | assertion (site : Site)
  /-- `LOG_FATAL`, which aborts the process. -/
  | fatal
  /-- `operator new` refused a request. -/
  | badAlloc
  | outOfBounds
  | useAfterFree
  | nullPointer
  /-- A signed sum left the range of its type. -/
  | overflow
  deriving DecidableEq, Repr

def check (p : Prop) [Decidable p] (fault : Fault) : Except Fault Unit :=
  if p then .ok () else .error fault

def assert (p : Prop) [Decidable p] (site : Site) : Except Fault Unit :=
  check p (.assertion site)

@[simp] theorem ok_bind {α β : Type _} (a : α) (f : α → Except Fault β) :
    (Except.ok a >>= f) = f a := rfl

@[simp] theorem pure_eq_ok {α : Type _} (a : α) : (pure a : Except Fault α) = .ok a := rfl

@[simp] theorem error_bind {α β : Type _} (e : Fault) (f : α → Except Fault β) :
    ((Except.error e : Except Fault α) >>= f) = .error e := rfl

theorem bind_ok_iff {α β : Type _} {x : Except Fault α} {f : α → Except Fault β} {b : β} :
    (x >>= f) = .ok b ↔ ∃ a, x = .ok a ∧ f a = .ok b := by
  cases x <;> simp

@[simp] theorem check_of {p : Prop} [Decidable p] {fault : Fault} (h : p) :
    check p fault = .ok () := by
  simp [check,h]

theorem check_ok_iff {p : Prop} [Decidable p] {fault : Fault} :
    check p fault = .ok () ↔ p := by
  simp [check]

@[simp] theorem assert_of {p : Prop} [Decidable p] {site : Site} (h : p) :
    assert p site = .ok () := check_of h

theorem assert_ok_iff {p : Prop} [Decidable p] {site : Site} : assert p site = .ok () ↔ p :=
  check_ok_iff

theorem ensures_check {p : Prop} [Decidable p] {fault : Fault} : Ensures (fun _ => p) (check p fault) :=
  fun _ checked => check_ok_iff.mp checked

theorem ensures_assert {p : Prop} [Decidable p] {site : Site} : Ensures (fun _ => p) (assert p site) :=
  ensures_check

theorem check_never_of {p : Prop} [Decidable p] {fault e : Fault} (holds : fault = e → p) :
    Never e (check p fault) := by
  rw [check]
  split
  · exact .ok
  · rename_i fails
    exact .other fun same => fails (holds same)

theorem check_never {p : Prop} [Decidable p] {fault e : Fault} (other : fault ≠ e) : Never e (check p fault) :=
  check_never_of fun same => absurd same other

abbrev Address := Nat

/-- `size_t` addition wraps at the word size. -/
def sizeAdd (a b : Nat) : Nat := (a + b) % 2^64

theorem sizeAdd_of_lt (fits : a + b < 2^64) : sizeAdd a b = a + b := Nat.mod_eq_of_lt fits

theorem sizeAdd_le (a b : Nat) : sizeAdd a b ≤ a + b := Nat.mod_le _ _

/-- What one call makes of `new char[n]`: the indeterminate bytes of a fresh allocation,
or a refusal. No object fills a quarter of the address space of a 64-bit host. -/
structure Allocator where
  new : Nat → Option (List UInt8)
  sized : ∀ n d, new n = some d → d.length = n
  bounded : ∀ n d, new n = some d → n < 2^62

namespace Allocator

def allocate (alloc : Allocator) (n : Nat) : Except Fault (List UInt8) :=
  match alloc.new n with
  | some d => .ok d
  | none => .error .badAlloc

theorem allocate_cases (alloc : Allocator) (n : Nat) :
    (alloc.new n = none ∧ alloc.allocate n = .error .badAlloc) ∨
    ∃ d, alloc.new n = some d ∧ d.length = n ∧ alloc.allocate n = .ok d := by
  cases h : alloc.new n with
  | none => exact .inl ⟨rfl,by simp [allocate,h]⟩
  | some d => exact .inr ⟨d,rfl,alloc.sized n d h,by simp [allocate,h]⟩

/-- Serves every request below the limit with zeroed storage. -/
def zeroed (limit : Nat) (small : limit ≤ 2^62) : Allocator where
  new n := if n < limit then some (List.replicate n 0) else none
  sized n d h := by
    split at h
    · cases h; simp
    · cases h
  bounded n d h := by
    split at h
    · omega
    · cases h

end Allocator

/-- The source half of `memcpy`: both halves stay inside their allocation. -/
def copyOut (mem : List UInt8) (start count : Nat) : Except Fault (List UInt8) := do
  check (start + count ≤ mem.length) .outOfBounds
  return Region.slice mem start count

def copyIn (mem : List UInt8) (start : Nat) (data : List UInt8) : Except Fault (List UInt8) := do
  check (start + data.length ≤ mem.length) .outOfBounds
  return Region.store mem start data

theorem copyOut_of (inside : start + count ≤ mem.length) :
    copyOut mem start count = .ok (Region.slice mem start count) := by
  simp [copyOut,inside]

theorem copyIn_of {data : List UInt8} (inside : start + data.length ≤ mem.length) :
    copyIn mem start data = .ok (Region.store mem start data) := by
  simp [copyIn,inside]

end Evk
