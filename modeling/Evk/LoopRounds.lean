import Evk.Agenda
import Evk.FunctorQueue
import Evk.ServerPieces

/-! The rounds of a loop, at both levels. An `EventLoop` with its flag, its counter and its
positions, and a loop of the server with its list of tasks, do the same: work off what the
poll reported, take the functors that were queued until then, and poll again. -/
namespace Evk
namespace EventLoop

open scoped List

variable {F : Type} {s u : EventLoop F}

/-- What the loop thread has left to do before it polls again. -/
def todo (s : EventLoop F) : List (Agenda.Item ActiveChannel (Queued F)) :=
  match s.position with
  | .dispatch rest | .handle rest => rest.map .job ++ [.swap]
  | .setCalling | .swap => [.swap]
  | .call | .body => s.functors.map .call
  | .outside | .storeStarting | .storeRunning | .test | .poll | .clearCalling | .storeStopped => []

def agenda (s : EventLoop F) : Agenda ActiveChannel (Queued F) := ⟨s.todo,s.pendingFunctors⟩

def polls (s : EventLoop F) : Action F → Nat
  | .advance _ => if s.position = .poll then 1 else 0
  | _ => 0

theorem agenda_placed (s : EventLoop F) : s.agenda.Placed := by
  cases position : s.position with
  | dispatch rest | handle rest =>
    have here : s.agenda = .begin rest s.pendingFunctors := by simp [agenda,todo,position,Agenda.begin]
    exact here ▸ Agenda.begin_placed _ _
  | call | body =>
    have here : s.agenda = ⟨s.functors.map .call,s.pendingFunctors⟩ := by simp [agenda,todo,position]
    exact here ▸ Agenda.calls_placed _ _
  | outside | storeStarting | storeRunning | test | poll | setCalling | swap | clearCalling | storeStopped =>
    simp [agenda,todo,position,Agenda.Placed]

theorem InOrder.left (inv : s.InOrder) : s.agenda.left = s.functors ++ s.pendingFunctors := by
  cases position : s.position with
  | call | body => simp [agenda,todo,position,Agenda.left]
  | outside | storeStarting | storeRunning | test | poll | dispatch | handle | setCalling | swap | clearCalling
  | storeStopped =>
    have none : s.functors = [] := inv.resting (by simp [position]) (by simp [position])
    simp [agenda,todo,position,none,Agenda.left]

def Works (s : EventLoop F) (a : Action F) (u : EventLoop F) : Prop :=
  ∃ log, u.called = s.called ++ log ∧ s.agenda.Runs (fun _ => False) (s.polls a) log u.agenda

theorem Works.still (todo : u.todo = s.todo) (pending : u.pendingFunctors = s.pendingFunctors)
    (executed : u.executed = s.executed) (polls : s.polls a = 0) : s.Works a u := by
  refine ⟨[],by rw [called,called,executed,List.append_nil],?_⟩
  rw [polls,agenda,agenda,todo,pending]
  exact .refl

theorem Works.silent (executed : u.executed = s.executed) (polls : s.polls a = 0)
    (step : s.agenda.Step (fun _ => False) [] u.agenda) : s.Works a u := by
  refine ⟨[],by rw [called,called,executed,List.append_nil],?_⟩
  rw [polls]
  exact .one step

theorem InOrder.works (inv : s.InOrder) (change : Change s a u) : s.Works a u := by
  cases change with
  | poll position =>
    rename_i active _
    refine ⟨[],(List.append_nil _).symm,?_⟩
    have before : s.agenda = ⟨[],s.pendingFunctors⟩ := by simp [agenda,todo,position]
    have once : s.polls (.advance active) = 1 := by simp [polls,position]
    rw [before,once]
    exact .begin .refl
  | handleRead position | handle position =>
    refine .silent rfl (by simp [polls,position]) ?_
    simp only [agenda,todo,position,List.map_cons,List.cons_append]
    exact .job
  | swap position =>
    have none : s.functors = [] := inv.resting (by simp [position]) (by simp [position])
    refine .silent rfl (by simp [polls,position]) ?_
    simp only [agenda,todo,position,none]
    exact .swap
  | call position batch =>
    rename_i q rest active
    refine ⟨[q],by simp [called],?_⟩
    have never : s.polls (.advance active) = 0 := by simp [polls,position]
    simp only [never,agenda,todo,position,batch,List.map_cons]
    exact .one .call
  | queueInLoop | runInLoop => exact .silent rfl rfl .push
  | called position batch => exact .still (by simp [todo,position,batch]) rfl rfl (by simp [polls,position])
  | run position => exact .still (by simp [todo,position]) rfl rfl rfl
  | waking | quiet | woken | stopped | stop | runHere | returned => exact .still rfl rfl rfl rfl
  | handled _ _ position | ran _ _ position => exact .still (by simp [todo,position]) rfl rfl rfl
  | storeStarting position | storeRunning position | pass position | exit position | dispatched position
  | setCalling position | clearCalling position | storeStopped position =>
    exact .still (by simp [todo,position]) rfl rfl (by simp [polls,position])

def pollCount : List (Action F) → EventLoop F → Nat
  | [], _ => 0
  | a :: rest, s => s.polls a + pollCount rest (machine.advance s a)

/-- A loop does what an agenda allows, and calls what the agenda calls: nothing is called
but by the swaps, in their order, and whatever is queued when a run begins has been called
when the run polls for the second time. -/
theorem loop_works_in_rounds (reachable : machine.Reachable s) (schedule : List (Action F))
    (admits : machine.Admits s schedule) : ∃ log,
    (schedule.foldl machine.advance s).called = s.called ++ log ∧
    s.agenda.Runs (fun _ => False) (pollCount schedule s) log (schedule.foldl machine.advance s).agenda ∧
    (2 ≤ pollCount schedule s → s.functors ++ s.pendingFunctors <+ log) := by
  have runs : ∃ log, (schedule.foldl machine.advance s).called = s.called ++ log ∧
      s.agenda.Runs (fun _ => False) (pollCount schedule s) log (schedule.foldl machine.advance s).agenda := by
    induction schedule generalizing s with
    | nil => exact ⟨[],(List.append_nil _).symm,.refl⟩
    | cons a rest ih =>
      obtain ⟨enabled,succeeds,admits⟩ := admits
      have stepped := Machine.step_advance succeeds
      obtain ⟨first,called,step⟩ := (reachable_inOrder reachable).works (step_change enabled _ stepped)
      obtain ⟨later,called',run⟩ := ih (.step reachable enabled stepped) admits
      refine ⟨first ++ later,?_,step.trans run⟩
      rw [List.foldl_cons,called',called,List.append_assoc]
  obtain ⟨log,called,run⟩ := runs
  refine ⟨log,called,run,fun twice => ?_⟩
  rw [← (reachable_inOrder reachable).left]
  exact run.left_called id s.agenda_placed twice

/-- A thread queues a functor before the loop runs; the loop polls, calls it, and polls again. -/
def twoRounds : List (Action Nat) :=
  [.proceed 1,.proceed 1,.run,.advance [],.advance [],.advance [],.advance [.wakeup],.advance [],.advance [],
    .advance [],.advance [],.advance [],.leave,.advance [],.advance [],.advance [],.advance []]

theorem loop_works_in_rounds_two :
    let s : EventLoop Nat := machine.advance (construct 0) (.queueInLoop 1 7)
    ∃ log, (twoRounds.foldl machine.advance s).called = s.called ++ log ∧ [⟨7,1,0,0⟩] <+ log := by
  intro s
  have first : machine.Reachable (construct (F := Nat) 0) := .initial ⟨0,rfl⟩
  have reachable : machine.Reachable s := Machine.Reachable.follow first [.queueInLoop 1 7] (by decide)
  obtain ⟨log,called,_,twice⟩ := loop_works_in_rounds reachable twoRounds (by decide)
  exact ⟨log,called,twice (by decide)⟩

end EventLoop

def Task.item : Task → Agenda.Item Task Functor
  | .doPendingFunctors => .swap
  | .functor f => .call f
  | .handleEvent c => .job (.handleEvent c)
  | .stage c test => .job (.stage c test)
  | .destroy c wasConnected => .job (.destroy c wasConnected)

def Functor.isDestruction : Functor → Bool
  | .onConnectDestroyed _ => true
  | _ => false

namespace System

open scoped List

variable {s t u : System} {c : ConnId} {l m : LoopId} {x : Link}

def agenda (l : LoopId) (s : System) : Agenda Task Functor := ⟨(s.loops l).todo.map Task.item,(s.loops l).pending⟩

/-- Tasks put pieces of themselves before the rest. The only functors that get there are
those of `~TcpServer` for the connections of the base loop. -/
def Inner : Agenda.Item Task Functor → Prop
  | .job _ => True
  | .call f => f.isDestruction = true
  | .swap => False

theorem item_inner (task : Task) (inner : isInner task = true) : Inner task.item := by
  cases task with
  | stage | destroy => trivial
  | functor f => cases f <;> simp_all [isInner,Inner,Task.item,Functor.isDestruction]
  | handleEvent | doPendingFunctors => cases inner

/-- A piece that calls no functor, as every loop sees it. -/
def Passes (s t : System) : Prop := ∀ l, (s.agenda l).Runs Inner 0 [] (t.agenda l)

theorem Passes.of_loops (loops : t.loops = s.loops) : s.Passes t := by
  intro l
  rw [agenda,agenda,loops]
  exact .refl

theorem Passes.trans (first : s.Passes t) (later : t.Passes u) : s.Passes u := fun l => (first l).trans (later l)

theorem agenda_setLoop_self (loop : Loop) : (s.setLoop l loop).agenda l = ⟨loop.todo.map Task.item,loop.pending⟩ := by
  simp [agenda,setLoop]

theorem agenda_setLoop_other (loop : Loop) (other : m ≠ l) : (s.setLoop l loop).agenda m = s.agenda m := by
  simp [agenda,setLoop,other]

theorem queueInLoop_passes (l : LoopId) (f : Functor) : s.Passes (s.queueInLoop l f) := by
  intro m
  by_cases same : m = l
  · subst same
    rw [queueInLoop,agenda_setLoop_self]
    exact .one .push
  · rw [queueInLoop,agenda_setLoop_other _ same]
    exact .refl

theorem before_passes (l : LoopId) (tasks : List Task) (inner : ∀ task ∈ tasks, isInner task = true) :
    s.Passes (s.before l tasks) := by
  intro m
  by_cases same : m = l
  · subst same
    rw [before,agenda_setLoop_self,List.map_append]
    apply Agenda.Runs.one
    apply Agenda.Step.nest
    intro item among
    obtain ⟨task,member,rfl⟩ := List.mem_map.mp among
    exact item_inner task (inner task member)
  · rw [before,agenda_setLoop_other _ same]
    exact .refl

theorem passes_carries : Carries Passes where
  trans := .trans
  aside := .of_loops rfl
  setLink _ _ := .of_loops rfl
  queueInLoop := queueInLoop_passes _ _
  before inner := before_passes _ _ inner

theorem getNextLoop_loops : Ensures (fun result => result.2.loops = s.loops) s.getNextLoop := by
  rw [getNextLoop]
  split
  · exact .ok rfl
  · exact ensures_check.bind fun _ _ => .ok rfl

theorem handleNewConnection_passes : Ensures s.Passes (s.handleNewConnection fd alloc) := by
  refine getNextLoop_loops.bind fun next loops => (Ensures.any _).bind fun input _ =>
    (Ensures.any _).bind fun output _ => ?_
  have enlisted (link : Link) : s.Passes (next.2.enlist link) := .of_loops loops
  exact passes_carries.after (enlisted _) passes_carries.establish

theorem fillActiveChannels_loops (reports : List (ConnId × PollEvents)) :
    Ensures (fun t => t.loops = s.loops) (fillActiveChannels reports s) := by
  induction reports generalizing s with
  | nil => exact .ok rfl
  | cons report reports ih =>
    exact (Ensures.any _).bind fun _ _ => (Ensures.any _).bind fun _ _ => ih

def ran (l : LoopId) (s : System) : Action → List Functor
  | .run m _ => if m = l then (s.loops l).todo.head?.toList.filterMap fun task => task.item.call? else []
  | _ => []

def polled (l : LoopId) : Action → Nat
  | .poll m _ => if m = l then 1 else 0
  | _ => 0

theorem agenda_busy (busy : (s.loops l).todo = task :: rest) :
    s.agenda l = ⟨task.item :: rest.map Task.item,(s.loops l).pending⟩ := by
  rw [agenda,busy,List.map_cons]

theorem ran_self (busy : (s.loops l).todo = task :: rest) : s.ran l (.run l io) = task.item.call?.toList := by
  cases task <;> simp [ran,busy,Task.item,Agenda.Item.call?]

theorem ran_other (other : l ≠ m) : s.ran l (.run m io) = [] := if_neg other.symm

theorem take_rounds (busy : (s.loops m).todo = task :: rest) (other : task ≠ .doPendingFunctors) :
    (s.agenda l).Runs Inner 0 (s.ran l (.run m io)) ((s.setLoop m { s.loops m with todo := rest }).agenda l) := by
  by_cases same : l = m
  · subst same
    rw [agenda_busy busy,ran_self busy,agenda_setLoop_self]
    apply Agenda.Runs.one
    cases task with
    | doPendingFunctors => exact absurd rfl other
    | functor f => exact .call
    | handleEvent | stage | destroy => exact .job
  · rw [ran_other same,agenda_setLoop_other _ same]
    exact .refl

theorem swap_rounds (busy : (s.loops m).todo = .doPendingFunctors :: rest) :
    (s.agenda l).Runs Inner 0 (s.ran l (.run m io))
      ((s.setLoop m ⟨rest ++ (s.loops m).pending.map .functor,[]⟩).agenda l) := by
  by_cases same : l = m
  · subst same
    rw [agenda_busy busy,ran_self busy,agenda_setLoop_self,List.map_append,List.map_map]
    exact .one .swap
  · rw [ran_other same,agenda_setLoop_other _ same]
    exact .refl

theorem run_rounds (busy : (s.loops m).todo = task :: rest) :
    Ensures (fun t => ∀ l, (s.agenda l).Runs Inner 0 (s.ran l (.run m io)) (t.agenda l)) (s.run m io) := by
  by_cases swaps : task = .doPendingFunctors
  · subst swaps
    have done : s.run m io = .ok (s.setLoop m ⟨rest ++ (s.loops m).pending.map .functor,[]⟩) := by
      simp [run,busy,runTask,setLoop]
    rw [done]
    exact .ok fun l => swap_rounds busy
  · intro t done l
    rw [run,busy] at done
    have taken : (s.agenda l).Runs Inner 0 (s.ran l (.run m io)) _ := take_rounds busy swaps
    have passed := taken.trans (passes_carries.runTask task swaps t done l)
    rwa [List.append_nil] at passed

theorem poll_rounds (idle : (s.loops m).todo = []) :
    Ensures (fun t => ∀ l, (s.agenda l).Runs Inner (polled l (.poll m reports)) [] (t.agenda l))
      (s.poll m reports) := by
  refine (fillActiveChannels_loops reports).bind fun t loops => .ok fun l => ?_
  by_cases same : l = m
  · subst same
    have before : s.agenda l = ⟨[],(s.loops l).pending⟩ := by rw [agenda,idle,List.map_nil]
    have after : (t.before l (reports.map (.handleEvent ·.1) ++ [.doPendingFunctors])).agenda l =
        .begin (reports.map (.handleEvent ·.1)) (s.loops l).pending := by
      rw [System.before,agenda_setLoop_self,loops,idle]
      simp [Agenda.begin,Task.item]
    have once : polled l (.poll l reports) = 1 := if_pos rfl
    rw [before,after,once]
    exact .begin .refl
  · have never : polled l (.poll m reports) = 0 := if_neg (Ne.symm same)
    rw [never,System.before,agenda_setLoop_other _ same]
    exact Passes.of_loops loops l

theorem step_rounds (a : Action) (enabled : s.enabled a) :
    Ensures (fun t => ∀ l, (s.agenda l).Runs Inner (polled l a) (s.ran l a) (t.agenda l)) (s.step a) := by
  cases a with
  | poll m reports => exact poll_rounds enabled.1
  | run m io =>
    obtain ⟨-,task,head,-⟩ := enabled
    obtain ⟨rest,busy⟩ := List.head?_eq_some_iff.mp head
    exact run_rounds busy
  | accept fd alloc => exact handleNewConnection_passes
  | destroyServer order => exact passes_carries.destroyServer
  | send t c message io =>
    have tagged : s.Passes { s with nextTag := s.nextTag + 1 } := .of_loops rfl
    exact passes_carries.after tagged passes_carries.send
  | push t call => exact passes_carries.push call
  | shutdown t c => exact passes_carries.shutdown
  | drop c => exact passes_carries.drop

theorem reachable_rounds_placed (reachable : machine.Reachable s) (l : LoopId) : (s.agenda l).Placed := by
  induction reachable with
  | initial first =>
    obtain ⟨poolSize,writeCompleteCb,rfl⟩ := first
    exact Agenda.calls_placed [] []
  | step _ enabled stepped placed => exact (step_rounds _ enabled _ stepped l).placed id placed

def ranIn (l : LoopId) : List Action → System → List Functor
  | [], _ => []
  | a :: rest, s => s.ran l a ++ ranIn l rest (machine.advance s a)

def pollsIn (l : LoopId) (schedule : List Action) : Nat := (schedule.map (polled l)).sum

theorem schedule_rounds (l : LoopId) (schedule : List Action) (admits : machine.Admits s schedule) :
    (s.agenda l).Runs Inner (pollsIn l schedule) (ranIn l schedule s)
      ((schedule.foldl machine.advance s).agenda l) := by
  induction schedule generalizing s with
  | nil => exact .refl
  | cons a rest ih =>
    obtain ⟨enabled,succeeds,admits⟩ := admits
    exact (step_rounds a enabled _ (Machine.step_advance succeeds) l).trans (ih admits)

end System
end Evk
