import Evk.EventLoopThreadPool
import Evk.ServerPieces

/-! How a server spreads its connections over the loops of its pool. Only an accept moves
the counter of the pool and seats a connection; whatever else the loops and the other
threads do, connection `c` stays on the loop that its number gives it. -/
namespace Evk.System

variable {s t u : System} {c : ConnId} {l m : LoopId} {x y : Link}

def home (c : ConnId) (s : System) : Option LoopId := (s.conns c).map (·.conn.loop)

/-- What every step but an accept leaves alone: the pool, the number of connections and
where they are. Tags of messages are only ever given out. -/
structure Seats (s t : System) : Prop where
  poolSize : t.poolSize = s.poolSize
  next : t.next = s.next
  number : t.nextConnId = s.nextConnId
  tags : s.nextTag ≤ t.nextTag
  homes : ∀ c, t.home c = s.home c

theorem Seats.of_eq (poolSize : t.poolSize = s.poolSize) (next : t.next = s.next) (number : t.nextConnId = s.nextConnId)
    (tags : s.nextTag ≤ t.nextTag) (conns : t.conns = s.conns) : Seats s t :=
  ⟨poolSize,next,number,tags,fun c => by rw [home,home,conns]⟩

theorem Seats.trans (first : Seats s t) (second : Seats t u) : Seats s u where
  poolSize := second.poolSize.trans first.poolSize
  next := second.next.trans first.next
  number := second.number.trans first.number
  tags := first.tags.trans second.tags
  homes c := (second.homes c).trans (first.homes c)

theorem Seats.setLink (held : s.conns c = some x) (same : y.conn.loop = x.conn.loop) : Seats s (s.setLink c y) := by
  refine ⟨rfl,rfl,rfl,le_rfl,fun d => ?_⟩
  by_cases own : d = c
  · simp [home,System.setLink,own,held,same]
  · simp [home,System.setLink,own]

theorem seats_carries : Carries Seats where
  trans := .trans
  aside := .of_eq rfl rfl rfl le_rfl rfl
  setLink := .setLink
  queueInLoop := .of_eq rfl rfl rfl le_rfl rfl
  before _ := .of_eq rfl rfl rfl le_rfl rfl

theorem run_seats : Ensures (Seats s) (s.run l io) := by
  unfold run
  split
  · exact .ok seats_carries.refl
  · rename_i task todo _
    have popped : Seats s (s.setLoop l { s.loops l with todo }) := .of_eq rfl rfl rfl le_rfl rfl
    apply seats_carries.after popped
    by_cases swaps : task = .doPendingFunctors
    · subst swaps
      exact .ok (.of_eq rfl rfl rfl le_rfl rfl)
    · exact seats_carries.runTask task swaps

def accepts (s : System) : Nat := s.nextConnId - 1

/-- The loop that connection `c` gets from a pool of the server's size. -/
def seat (c : Nat) (s : System) : LoopId := if s.poolSize = 0 then 0 else (c - 1) % s.poolSize + 1

/-- How the pool's counter goes on when a loop is taken. -/
inductive Turn (s : System) : LoopId → Nat → Prop where
  | base (empty : s.poolSize = 0) : Turn s 0 s.next
  | pool (inside : s.next < s.poolSize) : Turn s (s.next + 1) (if s.poolSize ≤ s.next + 1 then 0 else s.next + 1)

theorem getNextLoop_turn : Ensures (fun result => ∃ next, result.2 = { s with next } ∧
    Turn s result.1 next) s.getNextLoop := by
  rw [getNextLoop]
  split
  · exact .ok ⟨s.next,rfl,.base ‹_›⟩
  · exact ensures_check.bind fun _ inside => .ok ⟨_,rfl,.pool inside⟩

/-- An accept seats one connection more, where the pool says. -/
structure Accepted (s t : System) (loop : LoopId) : Prop where
  turn : Turn s loop t.next
  poolSize : t.poolSize = s.poolSize
  number : t.nextConnId = s.nextConnId + 1
  tags : s.nextTag ≤ t.nextTag
  homes : ∀ c, t.home c = if c = s.nextConnId then some loop else s.home c

theorem handleNewConnection_accepted : Ensures (fun t => ∃ loop, Accepted s t loop)
    (s.handleNewConnection fd alloc) := by
  refine getNextLoop_turn.bind fun result chosen => (Ensures.any _).bind fun input _ =>
    (Ensures.any _).bind fun output _ => ?_
  obtain ⟨loop,t⟩ := result
  obtain ⟨next,rfl,turn⟩ : ∃ next, t = { s with next } ∧ Turn s loop next := chosen
  dsimp only
  generalize built : Link.mk (TcpConnection.construct loop fd input output s.writeCompleteCb) .empty = x
  have home (d : ConnId) : ({ s with next }.enlist x).home d = if d = s.nextConnId then some loop else s.home d := by
    by_cases own : d = s.nextConnId
    · simp [System.home,enlist,System.setLink,own,← built,TcpConnection.construct]
    · simp [System.home,enlist,System.setLink,own]
  have seated (u : System) (seats : Seats ({ s with next }.enlist x) u) : Accepted s u loop :=
    ⟨seats.next ▸ turn,seats.poolSize,seats.number,seats.tags,fun d => (seats.homes d).trans (home d)⟩
  exact fun u done => ⟨loop,seated u (seats_carries.establish u done)⟩

theorem step_seats (a : Action) (other : ∀ fd alloc, a ≠ .accept fd alloc) : Ensures (Seats s) (s.step a) := by
  cases a with
  | poll l reports =>
    exact (seats_carries.fillActiveChannels reports).bind fun t seats =>
      .ok (seats.trans (.of_eq rfl rfl rfl le_rfl rfl))
  | run l io => exact run_seats
  | accept fd alloc => exact absurd rfl (other fd alloc)
  | destroyServer order => exact seats_carries.destroyServer
  | send t c message io =>
    have tagged : Seats s { s with nextTag := s.nextTag + 1 } := .of_eq rfl rfl rfl (Nat.le_succ _) rfl
    exact seats_carries.after tagged seats_carries.send
  | push t call => exact seats_carries.push call
  | shutdown t c => exact seats_carries.shutdown
  | drop c => exact seats_carries.drop

/-- With `n` connections made, the counter of the pool follows that number, and the loop
of each connection its own. -/
structure Spread (n : Nat) (s : System) : Prop where
  number : s.nextConnId = n + 1
  next : s.poolSize ≠ 0 → s.next = n % s.poolSize
  homes : ∀ c : Nat, s.home c = if 1 ≤ c ∧ c ≤ n then some (s.seat c) else none

theorem construct_spread (poolSize : Nat) (writeCompleteCb : Bool) : (construct poolSize writeCompleteCb).Spread 0 where
  number := rfl
  next _ := by simp [construct]
  homes c := by
    have none : ¬(1 ≤ c ∧ c ≤ 0) := by omega
    rw [if_neg none]
    rfl

theorem Spread.seats (spread : s.Spread n) (seats : Seats s t) : t.Spread n where
  number := seats.number.trans spread.number
  next := by
    rw [seats.poolSize,seats.next]
    exact spread.next
  homes c := by
    rw [seats.homes,spread.homes,seat,seat,seats.poolSize]

/-- The pool takes the loop that the next number asks for. -/
theorem Spread.turn (spread : s.Spread n) (turn : Turn s loop moved) :
    loop = s.seat (n + 1) ∧ (s.poolSize ≠ 0 → moved = (n + 1) % s.poolSize) := by
  cases turn with
  | base empty => exact ⟨by simp [seat,empty],fun some => absurd empty some⟩
  | pool inside =>
    have some : 0 < s.poolSize := Nat.zero_lt_of_lt inside
    have next := spread.next some.ne'
    rw [RoundRobin.succ_mod n s.poolSize some,← next,seat,if_neg some.ne',Nat.add_sub_cancel,← next]
    exact ⟨rfl,fun _ => rfl⟩

theorem Spread.accept (spread : s.Spread n) (accepted : Accepted s t loop) : t.Spread (n + 1) where
  number := by rw [accepted.number,spread.number]
  next := by
    rw [accepted.poolSize]
    exact (spread.turn accepted.turn).2
  homes c := by
    have seat : t.seat c = s.seat c := by rw [System.seat,System.seat,accepted.poolSize]
    rw [accepted.homes,spread.number,spread.homes,seat]
    by_cases own : c = n + 1
    · have inside : 1 ≤ c ∧ c ≤ n + 1 := by omega
      rw [if_pos own,if_pos inside,(spread.turn accepted.turn).1,own]
    · have same : (1 ≤ c ∧ c ≤ n + 1) ↔ 1 ≤ c ∧ c ≤ n := by omega
      simp only [if_neg own,same]

theorem reachable_spread (reachable : machine.Reachable s) : s.Spread s.accepts := by
  have some : ∃ n, s.Spread n := by
    induction reachable with
    | initial first =>
      obtain ⟨poolSize,writeCompleteCb,rfl⟩ := first
      exact ⟨0,construct_spread poolSize writeCompleteCb⟩
    | @step s a t _ enabled stepped ih =>
      obtain ⟨n,spread⟩ := ih
      by_cases accepts : ∃ fd alloc, a = .accept fd alloc
      · obtain ⟨fd,alloc,rfl⟩ := accepts
        obtain ⟨loop,accepted⟩ := handleNewConnection_accepted t stepped
        exact ⟨n + 1,spread.accept accepted⟩
      · have seats := step_seats a (fun fd alloc same => accepts ⟨fd,alloc,same⟩) t stepped
        exact ⟨n,spread.seats seats⟩
  obtain ⟨n,spread⟩ := some
  have number : s.accepts = n := by rw [accepts,spread.number]; rfl
  exact number ▸ spread

def seating (s : System) : List LoopId := (List.range s.accepts).map fun k => s.seat (k + 1)

def load (l : LoopId) (s : System) : Nat := (List.range (s.accepts + 1)).countP fun c => s.home c = some l

theorem Spread.load_eq (spread : s.Spread s.accepts) (l : LoopId) : s.load l = s.seating.count l := by
  have zero : s.home 0 = none := spread.homes 0
  rw [load,seating,List.range_succ_eq_map,List.countP_cons_of_neg (by simp [zero]),List.countP_map,
    List.count_eq_countP,List.countP_map]
  refine List.countP_congr fun k below => ?_
  have inside : 1 ≤ k + 1 ∧ k + 1 ≤ s.accepts := by
    have := List.mem_range.mp below
    omega
  have seated : s.home (k + 1) = some (s.seat (k + 1)) := by
    rw [spread.homes,if_pos inside]
  simp [seated]

theorem seating_cyclic (some : s.poolSize ≠ 0) : RoundRobin.Cyclic (List.range' 1 s.poolSize) s.seating := by
  intro i inside
  have below : i % s.poolSize < s.poolSize := Nat.mod_lt i (Nat.pos_of_ne_zero some)
  simp only [seating,List.length_map,List.length_range] at inside
  simp [seating,seat,some,inside,below,Nat.add_comm]

/-- In every run of a server, whatever its loops and the threads around it do, the
connections stand on the loops of the pool in turn, by the numbers in their names; no loop
has been given more connections than another by more than one; and the next accept finds
its loop inside the pool. -/
theorem connections_in_turn (reachable : machine.Reachable s) :
    (∀ c : Nat, 1 ≤ c → c ≤ s.accepts → ∃ x, s.conns c = some x ∧
      x.conn.loop = if s.poolSize = 0 then 0 else (c - 1) % s.poolSize + 1) ∧
    (∀ l m : Nat, 1 ≤ l → l ≤ s.poolSize → 1 ≤ m → m ≤ s.poolSize → s.load l ≤ s.load m + 1) ∧
    ∃ loop t, s.getNextLoop = .ok (loop,t) ∧ loop = s.seat (s.accepts + 1) := by
  have spread := reachable_spread reachable
  refine ⟨fun c low high => ?_,fun l m low high low' high' => ?_,?_⟩
  · have seated := spread.homes c
    rw [if_pos ⟨low,high⟩] at seated
    obtain ⟨x,held,same⟩ := Option.map_eq_some_iff.mp seated
    exact ⟨x,held,same⟩
  · rw [spread.load_eq,spread.load_eq]
    apply (seating_cyclic (by omega)).balanced List.nodup_range'
    · exact List.mem_range'_1.mpr ⟨low,by omega⟩
    · exact List.mem_range'_1.mpr ⟨low',by omega⟩
  · by_cases empty : s.poolSize = 0
    · exact ⟨0,s,by simp [getNextLoop,empty],by simp [seat,empty]⟩
    · have inside : s.next < s.poolSize := by
        rw [spread.next empty]
        exact Nat.mod_lt _ (Nat.pos_of_ne_zero empty)
      have taken : s.getNextLoop = .ok (s.next + 1,
          { s with next := if s.next + 1 ≥ s.poolSize then 0 else s.next + 1 }) := by
        simp [getNextLoop,empty,inside]
      exact ⟨s.next + 1,_,taken,(spread.turn (.pool inside)).1⟩

/-- Three connections on two loops, the second of them established. -/
theorem connections_in_turn_two : ∃ s x, machine.Reachable s ∧ s.poolSize = 2 ∧ s.conns 3 = some x ∧ x.conn.loop = 1 ∧
    s.load 1 ≤ s.load 2 + 1 := by
  let schedule : List Action := [.accept 5 Io.idle.alloc,.accept 6 Io.idle.alloc,.poll 2 [],.run 2 .idle,.run 2 .idle,
    .accept 7 Io.idle.alloc]
  have reachable := Machine.Reachable.follow (m := machine) (.initial ⟨2,false,rfl⟩) schedule (by decide +kernel)
  have size : (schedule.foldl machine.advance (construct 2 false)).poolSize = 2 := by decide +kernel
  have number : (schedule.foldl machine.advance (construct 2 false)).accepts = 3 := by decide +kernel
  generalize schedule.foldl machine.advance (construct 2 false) = s at reachable size number
  obtain ⟨homes,balanced,-⟩ := connections_in_turn reachable
  obtain ⟨x,held,loop⟩ := homes 3 (by decide) number.ge
  exact ⟨s,x,reachable,size,held,by simpa [size] using loop,balanced 1 2 le_rfl (by omega) (by decide) (by omega)⟩

end Evk.System
