import Evk.EventLoop
import Evk.RoundRobin
import Evk.Server

/-! The pool of IO loops. `GetNextLoop` reads and increments `next_` in one operation and
tests it for the end of the pool in another, so the counter stands one past the last loop
in between. Over whole runs it hands out the loops in turn, whatever calls with a hash
code come between. -/
namespace Evk

/-- `fetch_add` on an `atomic<int>` wraps. -/
def fetchAdd (x : Int) : Int := (x + 1).bmod (2^32)

/-- `static_cast<size_t>` of an `int`. -/
def intToSize (x : Int) : Nat := (x % 2^64).toNat

theorem fetchAdd_of_lt (nonneg : 0 ≤ x) (small : x + 1 < 2^31) : fetchAdd x = x + 1 :=
  Int.bmod_eq_of_le_mul_two (by omega) (by omega)

theorem intToSize_of_lt {n : Nat} (small : n < 2^64) : intToSize n = n := by
  rw [intToSize]
  omega

structure EventLoopThreadPool (α : Type) where
  baseLoop : α
  /-- The thread of the base loop. -/
  baseThread : ThreadId
  status : ServerStatus
  numThread : Int
  next : Int
  loops : List α
  deriving DecidableEq, Repr

namespace EventLoopThreadPool

variable {α : Type}

def construct (baseLoop : α) (baseThread : ThreadId) : EventLoopThreadPool α := ⟨baseLoop,baseThread,.kNull,0,0,[]⟩

def setThreadNum (s : EventLoopThreadPool α) (numThread : Int) : EventLoopThreadPool α := { s with numThread }

/-- The loop of thread `i` is what `StartLoop` returns. -/
def start (s : EventLoopThreadPool α) (startLoop : Nat → α) : EventLoopThreadPool α :=
  let s := { s with status := .kStarting }
  let s := (List.range s.numThread.toNat).foldl (fun s i => { s with loops := s.loops ++ [startLoop i] }) s
  { s with status := .kRunning }

/-- `GetNextLoop` up to and including its `fetch_add`. -/
def fetchNext (s : EventLoopThreadPool α) (thread : ThreadId) : Except Fault (α × EventLoopThreadPool α) := do
  -- `AssertInLoopThread` of the base loop
  check (thread = s.baseThread) .fatal
  assert (s.status = .kRunning) .getNextLoop
  if s.loops.isEmpty then return (s.baseLoop,s)
  else match s.loops[intToSize s.next]? with
    | none => .error .outOfBounds
    | some loop => return (loop,{ s with next := fetchAdd s.next })

/-- The rest of it: `next_` is read once more. -/
def wrapNext (s : EventLoopThreadPool α) : EventLoopThreadPool α :=
  if s.loops.isEmpty then s
  else if intToSize s.next ≥ s.loops.length then { s with next := 0 }
  else s

def getNextLoop (s : EventLoopThreadPool α) (thread : ThreadId) : Except Fault (α × EventLoopThreadPool α) := do
  let (loop,s) ← s.fetchNext thread
  return (loop,s.wrapNext)

def getNextLoopWithHash (s : EventLoopThreadPool α) (thread : ThreadId) (hashCode : Nat) : Except Fault α := do
  check (thread = s.baseThread) .fatal
  assert (s.status = .kRunning) .getNextLoopWithHash
  if s.loops.isEmpty then return s.baseLoop
  else match s.loops[hashCode % s.loops.length]? with
    | none => .error .outOfBounds
    | some loop => return loop

def getAllLoops (s : EventLoopThreadPool α) (thread : ThreadId) : Except Fault (List α) := do
  check (thread = s.baseThread) .fatal
  assert (s.status = .kRunning) .getAllLoops
  if s.loops.isEmpty then return [s.baseLoop] else return s.loops

theorem foldl_loops (startLoop : Nat → α) (s : EventLoopThreadPool α) (n : Nat) :
    (List.range n).foldl (fun s i => { s with loops := s.loops ++ [startLoop i] }) s =
      { s with loops := s.loops ++ (List.range n).map startLoop } := by
  induction n with
  | zero => simp
  | succ n ih => simp [List.range_succ,ih]

theorem start_eq (s : EventLoopThreadPool α) (startLoop : Nat → α) : s.start startLoop =
    { s with status := .kRunning, loops := s.loops ++ (List.range s.numThread.toNat).map startLoop } := by
  simp only [start,foldl_loops]

/-- A pool in use: the loop a `GetNextLoop` in progress is going to return, what the calls
before it returned, and what the calls with a hash code did. -/
structure Turns (α : Type) where
  pool : EventLoopThreadPool α
  calling : Option α
  returned : List α
  hashed : List (Nat × α)

inductive PoolCall where
  | getNextLoop (thread : ThreadId)
  /-- The call in progress tests the counter and returns. -/
  | finish
  | getNextLoopWithHash (thread : ThreadId) (hashCode : Nat)
  deriving DecidableEq, Repr

namespace Turns

def step (s : Turns α) : PoolCall → Except Fault (Turns α)
  | .getNextLoop thread => do
    let (loop,pool) ← s.pool.fetchNext thread
    return { s with pool, calling := some loop }
  | .finish => .ok { s with pool := s.pool.wrapNext, calling := none, returned := s.returned ++ s.calling.toList }
  | .getNextLoopWithHash thread hashCode => do
    let loop ← s.pool.getNextLoopWithHash thread hashCode
    return { s with hashed := s.hashed ++ [(hashCode,loop)] }

def Allowed (s : Turns α) : PoolCall → Prop
  | .getNextLoop thread | .getNextLoopWithHash thread _ => thread = s.pool.baseThread ∧ s.calling.isNone = true
  | .finish => s.calling.isSome = true

instance (s : Turns α) : (call : PoolCall) → Decidable (s.Allowed call)
  | .getNextLoop _ | .getNextLoopWithHash _ _ => inferInstanceAs (Decidable (_ ∧ _))
  | .finish => inferInstanceAs (Decidable (_ = true))

def machine (α : Type) (numThread : Int) : Machine (Turns α) PoolCall Fault where
  initial s := ∃ baseLoop baseThread, ∃ startLoop : Nat → α, Function.Injective startLoop ∧
    s = ⟨((construct baseLoop baseThread).setThreadNum numThread).start startLoop,none,[],[]⟩
  enabled := Allowed
  step := step

instance (numThread : Int) (s : Turns α) (call : PoolCall) : Decidable ((machine α numThread).enabled s call) :=
  inferInstanceAs (Decidable (s.Allowed call))

/-- The counter follows the number of calls, and is one ahead while one is in progress. -/
structure InTurn (n : Nat) (s : Turns α) : Prop where
  running : s.pool.status = .kRunning
  size : s.pool.loops.length = n
  distinct : s.pool.loops.Nodup
  cyclic : RoundRobin.Cyclic s.pool.loops (s.returned ++ s.calling.toList)
  next : s.pool.next = (s.returned.length % n : Nat) + (s.calling.toList.length : Int)
  hashed : ∀ entry ∈ s.hashed, s.pool.loops[entry.1 % n]? = some entry.2

variable {s : Turns α} {n : Nat}

theorem InTurn.nonempty (turn : s.InTurn n) (some : 0 < n) : s.pool.loops.isEmpty = false := by
  rw [List.isEmpty_eq_false_iff_exists_mem]
  exact List.length_pos_iff_exists_mem.mp (turn.size ▸ some)

theorem start_inTurn (numThread : Int) (baseLoop : α) (baseThread : ThreadId) {startLoop : Nat → α}
    (distinct : Function.Injective startLoop) :
    InTurn numThread.toNat ⟨((construct baseLoop baseThread).setThreadNum numThread).start startLoop,none,[],[]⟩ := by
  rw [start_eq]
  constructor
  · rfl
  · simp [construct,setThreadNum]
  · simpa [construct,setThreadNum] using List.nodup_range.map distinct
  · exact .nil
  · simp [construct,setThreadNum]
  · simp

/-- The index a call uses is inside the pool, and the sum does not wrap. -/
theorem InTurn.getNextLoop (turn : s.InTurn n) (some : 0 < n) (int : n < 2^31) (idle : s.calling.isNone = true) :
    ∃ t, s.step (.getNextLoop s.pool.baseThread) = .ok t ∧ t.InTurn n := by
  have none : s.calling = none := Option.isNone_iff_eq_none.mp idle
  have below := Nat.mod_lt s.returned.length some
  have next : s.pool.next = (s.returned.length % n : Nat) := by simpa [none] using turn.next
  have index : intToSize s.pool.next = s.returned.length % n := by
    rw [next]
    exact intToSize_of_lt (by omega)
  have inside : s.returned.length % n < s.pool.loops.length := turn.size ▸ below
  have found : s.pool.loops[s.returned.length % n]? = .some s.pool.loops[s.returned.length % n] :=
    List.getElem?_eq_getElem inside
  refine ⟨{ s with
    pool := { s.pool with next := fetchAdd s.pool.next }
    calling := .some s.pool.loops[s.returned.length % n] },
    ?_,turn.running,turn.size,turn.distinct,?_,?_,turn.hashed⟩
  · simp [Turns.step,fetchNext,turn.running,turn.nonempty some,index,found]
  · have cyclic := turn.cyclic
    rw [none,Option.toList_none,List.append_nil] at cyclic
    exact cyclic.append (by rw [turn.size]; exact found)
  · have sum : fetchAdd s.pool.next = (s.returned.length % n : Nat) + 1 := by
      rw [next]
      exact fetchAdd_of_lt (by omega) (by omega)
    simpa using sum

theorem InTurn.finish (turn : s.InTurn n) (some : 0 < n) (int : n < 2^31) (busy : s.calling.isSome = true) :
    ∃ t, s.step .finish = .ok t ∧ t.InTurn n := by
  obtain ⟨loop,calling⟩ := Option.isSome_iff_exists.mp busy
  have below := Nat.mod_lt s.returned.length some
  have next : s.pool.next = (s.returned.length % n + 1 : Nat) := by simpa [calling] using turn.next
  have index : intToSize s.pool.next = s.returned.length % n + 1 := by
    rw [next]
    exact intToSize_of_lt (by omega)
  have later := RoundRobin.succ_mod s.returned.length n some
  have wrapped : s.pool.wrapNext = { s.pool with next := ((s.returned.length + 1) % n : Nat) } := by
    rw [wrapNext,turn.nonempty some,index,turn.size,later]
    by_cases last : n ≤ s.returned.length % n + 1
    · simp [last]
    · simp [last,← next]
  refine ⟨_,rfl,?_⟩
  rw [wrapped,calling]
  refine ⟨turn.running,turn.size,turn.distinct,?_,?_,turn.hashed⟩
  · have cyclic := turn.cyclic
    rw [calling] at cyclic
    simpa using cyclic
  · simp

theorem InTurn.getNextLoopWithHash (turn : s.InTurn n) (some : 0 < n) (hashCode : Nat) :
    ∃ t, s.step (.getNextLoopWithHash s.pool.baseThread hashCode) = .ok t ∧ t.InTurn n := by
  have inside : hashCode % n < s.pool.loops.length := by
    rw [turn.size]
    exact Nat.mod_lt hashCode some
  have found : s.pool.loops[hashCode % n]? = .some s.pool.loops[hashCode % n] := List.getElem?_eq_getElem inside
  refine ⟨{ s with hashed := s.hashed ++ [(hashCode,s.pool.loops[hashCode % n])] },?_,
    turn.running,turn.size,turn.distinct,
    turn.cyclic,turn.next,?_⟩
  · simp [Turns.step,EventLoopThreadPool.getNextLoopWithHash,turn.running,turn.nonempty some,turn.size,found]
  · intro entry among
    rcases List.mem_append.mp among with old | new
    · exact turn.hashed entry old
    · rw [List.mem_singleton.mp new]
      exact found

theorem InTurn.step (turn : s.InTurn n) (some : 0 < n) (int : n < 2^31) (call : PoolCall) (allowed : s.Allowed call) :
    ∃ t, s.step call = .ok t ∧ t.InTurn n := by
  cases call with
  | getNextLoop thread =>
    obtain ⟨rfl,idle⟩ := allowed
    exact turn.getNextLoop some int idle
  | finish => exact turn.finish some int allowed
  | getNextLoopWithHash thread hashCode =>
    obtain ⟨rfl,-⟩ := allowed
    exact turn.getNextLoopWithHash some hashCode

theorem reachable_inTurn {numThread : Int} (started : 1 ≤ numThread) (int : numThread < 2^31)
    (reachable : (machine α numThread).Reachable s) : s.InTurn numThread.toNat := by
  induction reachable with
  | initial first =>
    obtain ⟨baseLoop,baseThread,startLoop,distinct,rfl⟩ := first
    exact start_inTurn numThread baseLoop baseThread distinct
  | step _ enabled stepped turn =>
    obtain ⟨t,done,turn'⟩ := turn.step (by omega) (by omega) _ enabled
    cases stepped.symm.trans done
    exact turn'

end Turns

/-- With any number of loops started, every index used is inside the pool, call `i` of
`GetNextLoop` returns loop `i mod n` and the loops are handed out equally often up to one,
whatever calls with a hash code come between; the counter never passes the size. -/
theorem hands_out_in_turn [DecidableEq α] {numThread : Int} (started : 1 ≤ numThread)
    (int : numThread < 2^31) {s : Turns α}
    (reachable : (Turns.machine α numThread).Reachable s) :
    s.pool.loops.length = numThread.toNat ∧ 0 ≤ s.pool.next ∧ s.pool.next ≤ numThread ∧
    (s.calling.isNone = true → intToSize s.pool.next < s.pool.loops.length) ∧
    (∀ call, s.Allowed call → ∃ t, s.step call = .ok t) ∧
    (∀ i < s.returned.length, s.returned[i]? = s.pool.loops[i % numThread.toNat]?) ∧
    (∀ a ∈ s.pool.loops, ∀ b ∈ s.pool.loops, s.returned.count a ≤ s.returned.count b + 1) ∧
    (∀ entry ∈ s.hashed, s.pool.loops[entry.1 % numThread.toNat]? = some entry.2) := by
  have turn := Turns.reachable_inTurn started int reachable
  have some : 0 < numThread.toNat := by omega
  have below := Nat.mod_lt s.returned.length some
  have next := turn.next
  have cyclic := turn.cyclic.of_append
  have ahead : s.calling.toList.length ≤ 1 := by cases s.calling <;> simp
  constructor
  · exact turn.size
  constructor
  · omega
  constructor
  · omega
  constructor
  · intro idle
    rw [Option.isNone_iff_eq_none.mp idle] at next
    rw [turn.size,next]
    simpa using (intToSize_of_lt (by omega)).trans_lt below
  constructor
  · intro call allowed
    obtain ⟨t,done,-⟩ := turn.step some (by omega) call allowed
    exact ⟨t,done⟩
  constructor
  · rw [← turn.size]
    exact cyclic
  constructor
  · intro a first b second
    exact cyclic.balanced turn.distinct first second
  · exact turn.hashed

/-- Three loops, and a call with a hash code between the second and the third turn. -/
theorem hands_out_in_turn_three :
    let pool := ((construct 0 1).setThreadNum 3).start (· + 1)
    let schedule : List PoolCall :=
      [.getNextLoop 1,.finish,.getNextLoop 1,.finish,.getNextLoopWithHash 1 7,.getNextLoop 1,.finish,
      .getNextLoop 1,.finish]
    let s := schedule.foldl (Turns.machine Nat 3).advance ⟨pool,none,[],[]⟩
    s.returned = [1,2,3,1] ∧ s.hashed = [(7,2)] ∧ s.pool.next ≤ 3 ∧ s.returned.count 1 ≤ s.returned.count 3 + 1 := by
  intro pool schedule s
  have reachable : (Turns.machine Nat 3).Reachable s :=
    Machine.Reachable.follow (m := Turns.machine Nat 3)
      (.initial ⟨0,1,(· + 1),add_left_injective 1,rfl⟩) schedule (by decide +kernel)
  obtain ⟨-,-,bound,-,-,-,balanced,-⟩ := hands_out_in_turn (by decide) (by decide) reachable
  exact ⟨by decide +kernel,by decide +kernel,bound,balanced 1 (by decide +kernel) 3 (by decide +kernel)⟩

end EventLoopThreadPool

namespace System

/-- The pool of the server: the base loop is loop zero, on the thread of that number. -/
def pool (s : System) : EventLoopThreadPool LoopId :=
  ⟨0,0,.kRunning,s.poolSize,s.next,(List.range s.poolSize).map (· + 1)⟩

theorem construct_pool (poolSize : Nat) (writeCompleteCb : Bool) : (construct poolSize writeCompleteCb).pool =
    ((EventLoopThreadPool.construct 0 0).setThreadNum poolSize).start (· + 1) := by
  rw [EventLoopThreadPool.start_eq]
  simp [pool,construct,EventLoopThreadPool.construct,EventLoopThreadPool.setThreadNum]

/-- `HandleNewConnection` takes its loop from the pool. -/
theorem getNextLoop_pool (s : System) (turn : s.next ≤ s.poolSize) (int : s.poolSize < 2^31) :
    s.pool.getNextLoop 0 = s.getNextLoop.map fun (loop,t) => (loop,t.pool) := by
  by_cases empty : s.poolSize = 0
  · simp [pool,EventLoopThreadPool.getNextLoop,EventLoopThreadPool.fetchNext,
      EventLoopThreadPool.wrapNext,getNextLoop,empty,Except.map]
  have index : intToSize s.next = s.next := intToSize_of_lt (by omega)
  by_cases inside : s.next < s.poolSize
  · have sum : fetchAdd s.next = (s.next + 1 : Nat) := fetchAdd_of_lt (by omega) (by omega)
    have index' : intToSize (s.next + 1) = s.next + 1 := by exact_mod_cast intToSize_of_lt (n := s.next + 1) (by omega)
    have fetched : s.pool.fetchNext 0 = .ok (s.next + 1,{ s with next := s.next + 1 }.pool) := by
      simp [pool,EventLoopThreadPool.fetchNext,empty,index,inside,sum]
    have wrapped : { s with next := s.next + 1 }.pool.wrapNext =
        { s with next := if s.next + 1 ≥ s.poolSize then 0 else s.next + 1 }.pool := by
      by_cases last : s.poolSize ≤ s.next + 1
      · simp [pool,EventLoopThreadPool.wrapNext,empty,index',last]
      · simp [pool,EventLoopThreadPool.wrapNext,empty,index',last]
    simp [EventLoopThreadPool.getNextLoop,fetched,wrapped,getNextLoop,empty,inside,Except.map]
  · simp [pool,EventLoopThreadPool.getNextLoop,EventLoopThreadPool.fetchNext,getNextLoop,
      empty,index,inside,check,Except.map]

end System
end Evk
