import Evk.LifeInvariant
import Evk.ServerLife

/-! Up and down notification. The user is told that a connection is up when it is
established, and that it is down by `OnConnectDestroyed`, but only if that function's
test still finds the connection in `kConnected`. -/
namespace Evk

namespace Event

/-- The events that take a connection out of `kConnected`. -/
def isLeaving : Event → Bool
  | .closeCb | .shutdownCalled _ true => true
  | _ => false

def callback : Event → Option Bool
  | .connCb isConnected => some isConnected
  | _ => none

end Event

def callbacks (trace : List Event) : List Bool := trace.filterMap Event.callback

/-- What happened before `OnConnectDestroyed` tested the status. -/
def beforeTest (trace : List Event) : List Event := trace.takeWhile fun event => !event.isTest

def left (trace : List Event) : Bool := (beforeTest trace).any Event.isLeaving

theorem beforeTest_untested (untested : trace.countP Event.isTest = 0) : beforeTest trace = trace := by
  have all : ∀ event ∈ trace, (!event.isTest) = true := fun event among => by
    simpa using List.countP_eq_zero.mp untested event among
  rw [beforeTest,← List.append_nil trace,List.takeWhile_append_of_pos all,List.takeWhile_nil]

theorem left_append_tested (tested : 0 < trace.countP Event.isTest) : left (trace ++ events) = left trace := by
  obtain ⟨event,among,test⟩ := List.countP_pos_iff.mp tested
  have stops : (trace.takeWhile fun event => !event.isTest).length ≠ trace.length := by
    intro whole
    have same := (List.takeWhile_prefix _).eq_of_length whole
    rw [← same] at among
    simpa [test] using List.all_eq_true.mp List.all_takeWhile event among
  rw [left,left,beforeTest,beforeTest,List.takeWhile_append,if_neg stops]

theorem left_append_untested (untested : trace.countP Event.isTest = 0) :
    left (trace ++ events) = (left trace || left events) := by
  have all : ∀ event ∈ trace, (!event.isTest) = true := fun event among => by
    simpa using List.countP_eq_zero.mp untested event among
  rw [left,left,left,beforeTest_untested untested,beforeTest,beforeTest,
    List.takeWhile_append_of_pos all,List.any_append]

theorem left_quiet (quiet : ∀ event ∈ events, event.isQuiet = true) : left events = false := by
  rw [left,beforeTest,List.any_eq_false]
  intro event among
  have quietly := quiet event (List.takeWhile_subset _ among)
  cases event with
  | shutdownCalled t first => cases first <;> simp_all [Event.isQuiet,Event.isLeaving]
  | _ => simp_all [Event.isQuiet,Event.isLeaving]

theorem callbacks_quiet (quiet : ∀ event ∈ events, event.isQuiet = true) : callbacks events = [] := by
  rw [callbacks,List.filterMap_eq_nil_iff]
  intro event among
  have quietly := quiet event among
  cases event <;> simp_all [Event.isQuiet,Event.callback]

theorem callbacks_append : callbacks (trace ++ events) = callbacks trace ++ callbacks events := List.filterMap_append

namespace Life

variable {c : ConnId} {v w : Life}

/-- What the user has been told so far, and what the test has found or would find. -/
structure Told (v : Life) : Prop where
  status : v.link.conn.status ≠ .kConnecting → v.trace.countP Event.isTest = 0 →
    (v.link.conn.status = .kConnected ↔ left v.trace = false)
  found : ∀ d b, .destroy d b ∈ v.queue → b = !left v.trace
  once : v.link.conn.status ≠ .kConnecting → .destroyed ∉ v.trace → callbacks v.trace = [true]
  ended : .destroyed ∈ v.trace → callbacks v.trace = if left v.trace then [true] else [true,false]

/-- What quiet steps and those about the map record changes nothing the user was told. -/
theorem left_unchanged (trace : List Event) (silent : left events = false) : left (trace ++ events) = left trace := by
  rcases Nat.eq_zero_or_pos (trace.countP Event.isTest) with untested | tested
  · rw [left_append_untested untested,silent,Bool.or_false]
  · exact left_append_tested tested

theorem Told.keep (told : v.Told) (same : w.link.conn.status = v.link.conn.status) (trace : w.trace = v.trace ++ events)
    (silent : left events = false) (untold : callbacks events = []) (untested : events.countP Event.isTest = 0)
    (unended : .destroyed ∉ events) (queue : ∀ d b, .destroy d b ∈ w.queue → .destroy d b ∈ v.queue) : w.Told := by
  have kept := left_unchanged v.trace silent
  have tests : w.trace.countP Event.isTest = v.trace.countP Event.isTest := by simp [trace,untested]
  have calls : callbacks w.trace = callbacks v.trace := by rw [trace,callbacks_append,untold,List.append_nil]
  have destroyed : .destroyed ∈ w.trace ↔ .destroyed ∈ v.trace := by simp [trace,unended]
  rw [← trace] at kept
  constructor
  · rw [same,tests,kept]
    exact told.status
  · intro d b among
    rw [kept]
    exact told.found d b (queue d b among)
  · rw [same,destroyed,calls]
    exact told.once
  · rw [destroyed,calls,kept]
    exact told.ended

theorem Told.quiet (told : v.Told) (quiet : Quiet c v w) : w.Told := by
  obtain ⟨events,trace,recorded⟩ := quiet.trace
  have silent : ∀ event ∈ events, event.isTest = false ∧ event ≠ .destroyed := fun event among => by
    have quietly := recorded event among
    exact ⟨quiet_not_tested quietly,by rintro rfl; simp [Event.isQuiet] at quietly⟩
  refine told.keep quiet.link.status trace (left_quiet recorded) (callbacks_quiet recorded)
    (List.countP_eq_zero.mpr fun event among => by simp [(silent event among).1])
    (fun among => (silent _ among).2 rfl) fun d b among => (quiet.mem_queue rfl).mp among

theorem Told.leave (told : v.Told) (inv : v.Inv c) (settled : v.link.conn.status ≠ .kConnecting)
    (unended : .destroyed ∉ v.trace) (gone : w.link.conn.status ≠ .kConnected) (trace : w.trace = v.trace ++ events)
    (leaving : left events = true) (untold : callbacks events = []) (untested : events.countP Event.isTest = 0)
    (alive : .destroyed ∉ events) (queue : ∀ d b, .destroy d b ∈ w.queue → .destroy d b ∈ v.queue) : w.Told := by
  have destroyed : .destroyed ∉ w.trace := by simp [trace,unended,alive]
  refine ⟨fun _ tests => ?_,fun d b among => ?_,fun _ _ => ?_,fun ended => absurd ended destroyed⟩
  · have before : v.trace.countP Event.isTest = 0 := by
      rw [trace,List.countP_append] at tests
      omega
    rw [trace,left_append_untested before,leaving]
    simp [gone]
  · have old := queue d b among
    rw [trace,left_append_tested (inv.tested_of_destroy old)]
    exact told.found d b old
  · rw [trace,callbacks_append,untold,List.append_nil]
    exact told.once settled unended

/-- The rest of `OnConnectDestroyed` tells the user what its test has found. -/
theorem Told.finish (told : v.Told) (inv : v.Inv c) (head : v.queue = .destroy d b :: rest) (queue : w.queue = rest)
    (trace : w.trace = v.trace ++ events) (last : .destroyed ∈ events)
    (calls : callbacks events = if b then [false] else []) : w.Told := by
  have settled := inv.settled head (by simp)
  obtain ⟨unended,tested⟩ := inv.unended head
  have kept : left w.trace = left v.trace := by rw [trace,left_append_tested tested]
  refine ⟨fun _ none => ?_,fun e b' among => ?_,fun _ absent => ?_,fun _ => ?_⟩
  · rw [trace,List.countP_append] at none
    omega
  · rw [kept]
    exact told.found e b' (by rw [head]; exact List.mem_cons_of_mem _ (queue ▸ among))
  · exact absurd (by rw [trace]; exact List.mem_append_right _ last) absent
  · have found := told.found d b (by simp [head])
    rw [kept,trace,callbacks_append,told.once settled unended,calls,found]
    cases left v.trace <;> rfl

theorem Told.change (told : v.Told) (inv : v.Inv c) (change : Change c v a w) : w.Told := by
  cases change with
  | quiet quiet _ => exact told.quiet quiet
  | shutdown connected quiet _ _ =>
    refine Told.quiet ?_ quiet
    refine told.leave inv (by simp [connected]) (inv.not_torn (by simp [connected])) ?_ rfl rfl rfl rfl ?_ fun _ _ => id
    · simp [setLink,record,Link.setStatus]
    · simp
  | report live functors interest reportable =>
    refine told.keep rfl (List.append_nil _).symm rfl rfl rfl (by simp) fun d b among => ?_
    simpa [setLink,before] using among
  | begin live head =>
    refine told.keep rfl (List.append_nil _).symm rfl rfl rfl (by simp) fun d b among => ?_
    rw [head]
    exact List.mem_cons_of_mem _ (by simpa [setLink,before,System.stages] using among)
  | done live head =>
    refine told.keep rfl (List.append_nil _).symm rfl rfl rfl (by simp) fun d b among => ?_
    rw [head]
    exact List.mem_cons_of_mem _ among
  | closeBase live head closes up small base alive mapped =>
    obtain ⟨connected,-,-⟩ := inv.closed head closes up
    refine told.leave inv (inv.settled head (by simp)) (inv.not_torn connected)
      (by simp [setLink,record,queueInLoop,Link.closed])
      (List.append_assoc _ _ _) rfl rfl rfl (by simp) fun d b among => ?_
    rw [head]
    exact List.mem_cons_of_mem _ (by simpa [setLink,record,queueInLoop] using among)
  | closeAway live head closes up small away alive =>
    obtain ⟨connected,-,-⟩ := inv.closed head closes up
    refine told.leave inv (inv.settled head (by simp)) (inv.not_torn connected) (by simp [setLink,record,Link.closed])
      rfl rfl rfl rfl (by simp) fun d b among => ?_
    rw [head]
    exact List.mem_cons_of_mem _ among
  | establish live head connecting =>
    obtain ⟨-,-,-,queue,quietly⟩ := inv.fresh connecting
    have none : ∀ d b, .destroy d b ∉ v.queue := fun d b among => by rcases queue with only | both <;> simp_all
    have silent : left (v.trace ++ [.connCb true]) = false := by
      rw [left_unchanged _ rfl,left_quiet quietly]
    refine ⟨fun _ _ => ⟨fun _ => silent,fun _ => rfl⟩,fun d b among => ?_,fun _ _ => ?_,fun ended => ?_⟩
    · exact absurd (by rw [head]; exact List.mem_cons_of_mem _ among) (none d b)
    · rw [record,callbacks_append]
      simp only [setLink,callbacks_quiet quietly]
      rfl
    · exact absurd (by simpa [setLink,record] using ended) (inv.not_torn (by simp [connecting]))
  | test live head =>
    have settled := inv.settled head (by simp)
    have untested := inv.untested (by rw [head,List.countP_cons,Task.isTest,if_pos rfl]; omega)
    have kept : left (v.trace ++ [.testDestroyed v.link.conn.isConnected]) = left v.trace := left_unchanged _ rfl
    refine ⟨fun _ tests => ?_,fun d b among => ?_,fun _ unended => ?_,fun ended => ?_⟩
    · simp [record,before,Event.isTest] at tests
    · rcases List.mem_cons.mp among with new | old
      · cases new
        refine Eq.trans ?_ (congrArg not kept.symm)
        have status := told.status settled untested
        cases found : left v.trace with
        | false => simpa [TcpConnection.isConnected] using status.mpr found
        | true => simpa [TcpConnection.isConnected,found] using status
      · have := inv.tested_of_destroy (d := d) (b := b) (by rw [head]; exact List.mem_cons_of_mem _ old)
        omega
    · have unended : .destroyed ∉ v.trace := by simpa [record,before] using unended
      have same : callbacks (v.trace ++ [.testDestroyed v.link.conn.isConnected]) = callbacks v.trace := by
        rw [callbacks_append]
        exact List.append_nil _
      exact same.trans (told.once settled unended)
    · have ended : .destroyed ∈ v.trace := by simpa [record,before] using ended
      have := List.one_le_count_iff.mpr ended
      have := inv.tested
      omega
  | destroyUp live head => exact told.finish inv head rfl (List.append_assoc _ _ _) (by simp) rfl
  | destroyClosed live head closed known => exact told.finish inv head rfl rfl (by simp) rfl
  | remove live positive alive mapped =>
    refine told.keep rfl rfl rfl rfl rfl (by simp) fun d b among => ?_
    simpa [record,queueInLoop] using among
  | destroyBase live mapped base =>
    refine told.keep rfl (List.append_nil _).symm rfl rfl rfl (by simp) fun d b among => ?_
    simpa [before] using among
  | destroyAway live mapped away =>
    refine told.keep rfl (List.append_nil _).symm rfl rfl rfl (by simp) fun d b among => ?_
    simpa [queueInLoop] using among
  | destroyOther unmapped => exact told.keep rfl (List.append_nil _).symm rfl rfl rfl (by simp) fun _ _ => id
  | drop live unmapped unheld removals calls =>
    exact told.keep rfl (List.append_nil _).symm rfl rfl rfl (by simp) fun _ _ => id

theorem initial_told (first : initial c v) : v.Told := by
  obtain ⟨loop,fd,input,output,writeCompleteCb,-,-,⟨-,rfl⟩ | ⟨-,rfl⟩⟩ := initial_cases first
  · exact ⟨fun _ _ => ⟨fun _ => rfl,fun _ => rfl⟩,by simp [setLink,record,accepted],
      fun _ _ => rfl,fun ended => by simp [setLink,record,accepted] at ended⟩
  · exact ⟨fun settled => absurd rfl settled,fun d b among => by simp [queueInLoop,accepted] at among,
      fun settled => absurd rfl settled,by simp [queueInLoop,accepted]⟩

theorem reachable_told (reachable : (machine c).Reachable v) : v.Told :=
  reachable.invariant_with (fun _ => initial_told) (fun _ => reachable_inv) fun _ _ w inv told allowed stepped =>
    told.change inv (inv.step_change allowed w stepped)

end Life

namespace System

/-- In any run, a connection that has been destroyed was announced up once; it was
announced down exactly if nothing had taken it out of `kConnected` before
`OnConnectDestroyed` looked. -/
theorem down_notified_iff (reachable : machine.Reachable s) (ended : (c,.destroyed) ∈ s.trace) :
    callbacks (eventsOf c s.trace) = [true,false] ↔
      ∀ event ∈ beforeTest (eventsOf c s.trace), event.isLeaving = false := by
  obtain ⟨v,seen,trace⟩ := life_of_event reachable ended
  have told := Life.reachable_told (life_reachable reachable seen)
  have calls := told.ended (by rw [trace]; exact mem_eventsOf.mpr ended)
  rw [trace] at calls
  have stayed : left (eventsOf c s.trace) = false ↔
      ∀ event ∈ beforeTest (eventsOf c s.trace), event.isLeaving = false := by simp [left]
  rw [calls,← stayed]
  cases left (eventsOf c s.trace) <;> simp

/-- A server that is destroyed while its connection is up announces it down. -/
theorem down_notified_iff_server_destroyed : ∃ s, machine.Reachable s ∧ (1,.destroyed) ∈ s.trace ∧
    callbacks (eventsOf 1 s.trace) = [true,false] := by
  let schedule : List Action := [.accept 5 Io.idle.alloc,.poll 1 [],.run 1 .idle,
    .run 1 .idle,.destroyServer [1],.poll 1 [],
    .run 1 .idle,.run 1 .idle,.run 1 .idle]
  have reachable := Machine.Reachable.follow (m := machine) (.initial ⟨1,false,rfl⟩) schedule (by decide +kernel)
  have ended : (1,.destroyed) ∈ (schedule.foldl machine.advance (construct 1 false)).trace := by decide +kernel
  have stayed : ∀ event ∈ beforeTest (eventsOf 1 (schedule.foldl machine.advance (construct 1 false)).trace),
      event.isLeaving = false := by decide +kernel
  exact ⟨_,reachable,ended,(down_notified_iff reachable ended).mpr stayed⟩

/-- The peer closes: the connection is removed and destroyed, and the user is never told. -/
theorem peer_close_not_notified : ∃ s, machine.Reachable s ∧ (1,.destroyed) ∈ s.trace ∧
    callbacks (eventsOf 1 s.trace) = [true] := by
  let eof : Io := { Io.idle with read := .bytes [] }
  let schedule : List Action := [.accept 5 Io.idle.alloc,.poll 0 [(1,{ pollin := true })],.run 0 .idle,.run 0 .idle,
    .run 0 .idle,.run 0 eof,.run 0 .idle,.run 0 .idle,.run 0 .idle,.run 0 .idle,.run 0 .idle]
  have reachable := Machine.Reachable.follow (m := machine) (.initial ⟨0,false,rfl⟩) schedule (by decide +kernel)
  exact ⟨_,reachable,by decide +kernel,by decide +kernel⟩

end System
end Evk
