import Evk.Fault
import Evk.OrderedSet

/-! Timers and the functions of `TimerQueue`. The live timers stand in a heap by
address: a read or a `delete` of an address without one is a use after free. Every
clock reading is an argument. -/
namespace Evk

/-! Times and durations are `int64_t` counts of nanoseconds. -/

namespace Duration

def kMicrosecond : Int := 1000
def kSecond : Int := 1000 * 1000 * kMicrosecond

end Duration

/-- The value an `int64_t` keeps of a result. -/
def int64 (n : Int) : Int := n.bmod (2^64)

/-- A result that an `int64_t` can hold. -/
def Int64Range (n : Int) : Prop := -2^63 ≤ n ∧ n < 2^63

instance (n : Int) : Decidable (Int64Range n) := inferInstanceAs (Decidable (_ ∧ _))

theorem int64_of_range (range : Int64Range n) : int64 n = n := by
  obtain ⟨low,high⟩ := range
  exact Int.bmod_eq_of_le (by omega) (by omega)

namespace Timestamp

def invalid : Int := 0

def isValid (t : Int) : Bool := t > 0

def add (t : Int) (d : Int) : Int := int64 (t + d)

def sub (t u : Int) : Int := int64 (t - u)

end Timestamp

/-- The `double` a timer's interval is given as: whether it is above zero, and the
nanoseconds `Duration` makes of it. -/
structure Interval where
  positive : Bool
  nanoseconds : Int
  forward : positive = true → 0 ≤ nanoseconds

structure InvokeTimer where
  /-- What `num_created_` counted before this timer. -/
  created : Nat
  expiration : Int
  interval : Int
  repeats : Bool
  forward : repeats = true → 0 ≤ interval
  deriving DecidableEq

/-- `num_created_.fetch_add(1) + 1` in an `int`, after `created` timers. -/
def sequenceOf (created : Nat) : Int := ((created : Int) + 1).bmod (2^32)

namespace InvokeTimer

def construct (created : Nat) (when : Int) (interval : Interval) : InvokeTimer :=
  ⟨created,when,interval.nanoseconds,interval.positive,interval.forward⟩

def sequence (t : InvokeTimer) : Int := sequenceOf t.created

def restart (now : Int) (t : InvokeTimer) : InvokeTimer :=
  { t with expiration := if t.repeats then Timestamp.add now t.interval else Timestamp.invalid }

@[simp] theorem restart_sequence (t : InvokeTimer) : (t.restart now).sequence = t.sequence := rfl

@[simp] theorem restart_created (t : InvokeTimer) : (t.restart now).created = t.created := rfl

end InvokeTimer

def uintptrMax : Address := 2^64 - 1

/-- Ordered by expiration, then by address. -/
abbrev Entry := Int ×ₗ Address

/-- Ordered by address, then by sequence number. -/
abbrev ActiveTimer := Address ×ₗ Int

/-- An `InvokeTimerID` is the pair `active_timers_` holds. -/
abbrev InvokeTimerID := ActiveTimer

structure Timespec where
  tvSec : Int
  tvNsec : Int
  deriving DecidableEq, Repr

def howlongtimefromnow (when clock : Int) : Timespec :=
  let nanoseconds := Timestamp.sub when clock
  let nanoseconds := if nanoseconds < 100 * Duration.kMicrosecond then 100 * Duration.kMicrosecond else nanoseconds
  ⟨nanoseconds.tdiv Duration.kSecond,nanoseconds.tmod Duration.kSecond⟩

/-- One `timerfd_settime`: for which expiration, at which reading, with which value. -/
structure Arming where
  expiration : Int
  clock : Int
  value : Timespec
  deriving DecidableEq, Repr

structure TimerQueue where
  timers : OrderedSet Entry
  isCallingExpiredTimers : Bool
  activeTimers : OrderedSet ActiveTimer
  cancelingTimers : OrderedSet ActiveTimer
  /-- The timer descriptor: how it was armed since it was last read. -/
  armings : List Arming
  /-- The live timers, and the history of the deleted ones. -/
  heap : Address → Option InvokeTimer
  deleted : List Nat

namespace TimerQueue

def construct : TimerQueue := ⟨.empty,false,.empty,.empty,[],fun _ => none,[]⟩

def deref (a : Address) (q : TimerQueue) : Except Fault InvokeTimer :=
  match q.heap a with
  | some t => .ok t
  | none => .error .useAfterFree

def delete (a : Address) (q : TimerQueue) : Except Fault TimerQueue := do
  let t ← q.deref a
  return { q with heap := Function.update q.heap a none, deleted := q.deleted ++ [t.created] }

def readtimerfd (q : TimerQueue) : TimerQueue := { q with armings := [] }

def resettimerfd (clock expiration : Int) (q : TimerQueue) : TimerQueue :=
  { q with armings := q.armings ++ [⟨expiration,clock,howlongtimefromnow expiration clock⟩] }

def entry (a : Address) (t : InvokeTimer) : Entry := toLex (t.expiration,a)
def activeTimer (a : Address) (t : InvokeTimer) : ActiveTimer := toLex (a,t.sequence)

/-- Whether a timer due at `when` becomes the earliest. -/
def earliestChanged (when : Int) (q : TimerQueue) : Bool :=
  match q.timers.first with
  | none => true
  | some first => when < (ofLex first).1

def insert (a : Address) (q : TimerQueue) : Except Fault (TimerQueue × Bool) := do
  assert (q.timers.size = q.activeTimers.size) .insert
  let t ← q.deref a
  let earliest := q.earliestChanged t.expiration
  assert (entry a t ∉ q.timers) .insert
  let timers := q.timers.insert (entry a t)
  assert (activeTimer a t ∉ q.activeTimers) .insert
  let activeTimers := q.activeTimers.insert (activeTimer a t)
  assert (timers.size = activeTimers.size) .insert
  return ({ q with timers, activeTimers },earliest)

def addTimerInLoop (clock : Int) (a : Address) (q : TimerQueue) : Except Fault TimerQueue := do
  let (q,earliest) ← q.insert a
  if earliest then
    let t ← q.deref a
    return q.resettimerfd clock t.expiration
  else return q

def cancelInLoop (id : InvokeTimerID) (q : TimerQueue) : Except Fault TimerQueue := do
  assert (q.timers.size = q.activeTimers.size) .cancelInLoop
  let q ← if id ∈ q.activeTimers then do
      let a := (ofLex id).1
      let t ← q.deref a
      assert (q.timers.count (entry a t) = 1) .cancelInLoop
      let q ← { q with timers := q.timers.erase (entry a t) }.delete a
      pure { q with activeTimers := q.activeTimers.erase id }
    else if q.isCallingExpiredTimers then
      pure { q with cancelingTimers := q.cancelingTimers.insert id }
    else pure q
  assert (q.timers.size = q.activeTimers.size) .cancelInLoop
  return q

/-- The loop of `GetExpired` over the entries it has moved out. -/
def eraseActive : List Entry → TimerQueue → Except Fault TimerQueue
  | [], q => .ok q
  | it :: rest, q => do
    let a := (ofLex it).2
    let t ← q.deref a
    assert (q.activeTimers.count (activeTimer a t) = 1) .getExpired
    eraseActive rest { q with activeTimers := q.activeTimers.erase (activeTimer a t) }

def getExpired (now : Int) (q : TimerQueue) : Except Fault (TimerQueue × List Entry) := do
  assert (q.timers.size = q.activeTimers.size) .getExpired
  let sentry : Entry := toLex (now,uintptrMax)
  let expired := q.timers.below sentry
  let timers := q.timers.above sentry
  assert (∀ first ∈ timers.first, now < (ofLex first).1) .getExpired
  let q ← eraseActive expired.elems { q with timers }
  assert (q.timers.size = q.activeTimers.size) .getExpired
  return (q,expired.elems)

/-- One turn of the loop of `Reset`. -/
def resetTimer (now : Int) (it : Entry) (q : TimerQueue) : Except Fault TimerQueue := do
  let a := (ofLex it).2
  let t ← q.deref a
  if t.repeats ∧ activeTimer a t ∉ q.cancelingTimers then
    let (q,_) ← { q with heap := Function.update q.heap a (some (t.restart now)) }.insert a
    return q
  else q.delete a

def resetTimers (now : Int) : List Entry → TimerQueue → Except Fault TimerQueue
  | [], q => .ok q
  | it :: rest, q => do resetTimers now rest (← q.resetTimer now it)

/-- The end of `Reset`: the descriptor is armed for the earliest timer if that is valid. -/
def rearm (clock : Int) (q : TimerQueue) : Except Fault TimerQueue := do
  let nextExpire ← match q.timers.first with
    | some first => do pure (← q.deref (ofLex first).2).expiration
    | none => pure Timestamp.invalid
  if Timestamp.isValid nextExpire then return q.resettimerfd clock nextExpire else return q

def reset (expired : List Entry) (now clock : Int) (q : TimerQueue) : Except Fault TimerQueue := do
  (← q.resetTimers now expired).rearm clock

/-- `HandleRead` up to its callbacks. -/
def beginHandleRead (now : Int) (q : TimerQueue) : Except Fault (TimerQueue × List Entry) := do
  let (q,expired) ← q.readtimerfd.getExpired now
  return ({ q with isCallingExpiredTimers := true, cancelingTimers := .empty },expired)

/-- `HandleRead` after its callbacks. -/
def endHandleRead (expired : List Entry) (now clock : Int) (q : TimerQueue) : Except Fault TimerQueue :=
  { q with isCallingExpiredTimers := false }.reset expired now clock

end TimerQueue
end Evk
