import Evk.PoolThreads

/-! Starting the threads of a pool without a callback. `EventLoopThreadPool::Start` makes
one thread after the other and waits in `StartLoop` until each has made its loop and said
so; nobody knows the loop before that. Nothing fails on the way, the way has an end, and
at that end every thread has a loop that exists. -/
namespace Evk

def ThreadPosition.beforeNotify : ThreadPosition → Bool
  | .unborn | .construct | .initCb | .notify => true
  | _ => false

namespace EventLoopThread

variable {F : Type} {x y : EventLoopThread F}

/-- Nobody calls a loop that has not been handed over. -/
def Untouched (x : EventLoopThread F) : Prop :=
  x.body.beforeNotify = true → (∀ t, x.loop.calls t = none) ∧ x.loop.inline = []

theorem Serving.notified (serving : x.Serving) (placed : x.Placed) : x.body.beforeNotify = false := by
  have after := placed.running serving.status
  cases body : x.body <;> simp_all [ThreadPosition.afterNotify,ThreadPosition.beforeNotify]

theorem Untouched.unused (untouched : x.Untouched) (placed : x.Placed) (stage : x.Starting ∨ x.Serving)
    (early : x.body.beforeNotify = true) (plain : x.body ≠ .initCb) : ¬x.enabled (.loop a) := by
  have kept : x.starter ≠ .returned true := by
    rcases stage with starting | serving
    · rcases starting.position with starter | starter | starter <;> simp [starter]
    · simp [serving.notified placed] at early
  have outside : x.body ≠ .looping := by
    intro body
    simp [body,ThreadPosition.beforeNotify] at early
  have uncalled (t : ThreadId) : ¬x.MayCall t := by
    rintro ⟨-,foreign,own⟩
    by_cases same : t = x.tid
    · rcases own same with body | ⟨body,-⟩
      · exact plain body
      · exact outside body
    · exact kept (foreign same)
  rintro ⟨use,inner⟩
  cases a with
  | run => exact use
  | advance => exact outside use.1
  | leave => exact use.1.elim plain outside
  | queueInLoop t | runInLoop t | stop t => exact uncalled t use
  | proceed t => exact inner ((untouched early).1 t)

theorem Untouched.change (untouched : x.Untouched) (placed : x.Placed) (stage : x.Starting ∨ x.Serving)
    (allowed : x.enabled a) (ordinary : Ordinary a) (plain : x.body = .initCb → a = .run) (change : Change x a y) :
    y.Untouched := by
  intro early
  cases change with
  | construct => exact ⟨fun _ => rfl,rfl⟩
  | initialized body => exact untouched (by simp [body,ThreadPosition.beforeNotify])
  | notify | callRun | returned | asserted | storeStopped | reset => simp [ThreadPosition.beforeNotify] at early
  | loop =>
    refine absurd allowed (untouched.unused placed stage early fun body => ?_)
    cases plain body
  | _ => exact ordinary.elim

/-- Nothing goes wrong in a thread that is being started or serves. -/
theorem Untouched.step_ok (untouched : x.Untouched) (placed : x.Placed) (ended : x.Ended)
    (stage : x.Starting ∨ x.Serving)
    (allowed : x.enabled a) (ordinary : Ordinary a) : ∃ y, x.step a = .ok y := by
  have unstopped : x.Unstopped := stage.elim (·.toUnstopped) (·.toUnstopped)
  have going := unstopped.going placed
  cases stepped : x.step a with
  | ok y => exact ⟨y,rfl⟩
  | error e =>
    rcases ended.ordinary_failure placed ordinary allowed stepped with ⟨-,lost,calls⟩ | ⟨-,body,-⟩
    · cases a with
      | loop a =>
        rcases placed.alive lost with body | body | body
        · exact absurd allowed (untouched.unused placed stage (by simp [body,ThreadPosition.beforeNotify])
            (by simp [body]))
        · exact absurd allowed (untouched.unused placed stage (by simp [body,ThreadPosition.beforeNotify])
            (by simp [body]))
        · simp [hasReturned,body] at going
      | _ => simp [Action.caller] at calls
    · simp [hasReturned,body] at going

/-- The steps until `StartLoop` returns: its own, and those of the new thread. -/
def startSteps (x : EventLoopThread F) : Nat :=
  (match x.starter with
    | .storeStarting => 3
    | .spawn => 2
    | .wait => 1
    | .returned _ => 0) +
  match x.body with
    | .unborn | .construct => 3
    | .initCb => 2
    | .notify => 1
    | _ => 0

theorem startLoop_startSteps (placed : x.Placed) (goes : ∀ loop, x.starter ≠ .returned loop) :
    Ensures (fun y => y.startSteps < x.startSteps) x.startLoop := by
  cases starter : x.starter with
  | storeStarting => simp only [startLoop,starter]; exact .ok (by simp [startSteps,starter])
  | spawn =>
    have body := placed.unborn (.inr starter)
    simp only [startLoop,starter]
    exact ensures_assert.bind fun _ _ => .ok (by simp [startSteps,starter,body])
  | wait => simp only [startLoop,starter]; exact .ok (by simp [startSteps,starter])
  | returned loop => exact absurd starter (goes loop)

theorem Change.startSteps (change : Change x a y) (ordinary : Ordinary a) : y.startSteps ≤ x.startSteps := by
  cases change with
  | construct body | initialized body | notify body | callRun body | returned body | asserted body | storeStopped body
  | reset body => simp [EventLoopThread.startSteps,body]
  | loop => exact le_rfl
  | _ => exact ordinary.elim

/-- While `StartLoop` waits, the new thread can go on. -/
theorem Starting.run (starting : x.Starting) (untouched : x.Untouched) (waits : ¬x.enabled .startLoop) :
    x.enabled .run ∧ ∃ y, x.step .run = .ok y ∧ y.startSteps < x.startSteps := by
  have waiting : x.starter = .wait ∧ x.status = .kStarting := by
    rcases starting.position with starter | starter | starter
    · exact absurd ⟨by simp [starter],by simp [starter],by simp [starter]⟩ waits
    · exact absurd ⟨by simp [starter],by simp [starter],by simp [starter]⟩ waits
    · refine ⟨starter,(starting.status (.inr starter)).resolve_right fun running => waits ?_⟩
      exact ⟨by simp [starter],by simp [starter],fun _ => by simp [running]⟩
  have body := starting.launching waiting.1 waiting.2
  obtain ⟨uncalled,empty⟩ := untouched
    (by rcases body with body | body | body <;> simp [body,ThreadPosition.beforeNotify])
  refine ⟨⟨starting.stoppers _,uncalled _,empty,?_,?_,?_⟩,?_⟩
  · rcases body with body | body | body <;> simp [body]
  · rcases body with body | body | body <;> simp [body]
  · rcases body with body | body | body <;> simp [body]
  · rcases body with body | body | body
    · exact ⟨_,by simp only [step,EventLoopThread.run,body]; rfl,by simp [EventLoopThread.startSteps,body]⟩
    · exact ⟨_,by simp only [step,EventLoopThread.run,body]; rfl,by simp [EventLoopThread.startSteps,body]⟩
    · exact ⟨_,by simp only [step,EventLoopThread.run,body]; rfl,by simp [EventLoopThread.startSteps,body]⟩

/-- The call of `StartLoop` does not touch the loop. -/
theorem Untouched.startLoop (untouched : x.Untouched) (placed : x.Placed) (goes : ∀ loop, x.starter ≠ .returned loop)
    (stepped : x.startLoop = .ok y) : y.Untouched := by
  intro early
  cases starter : x.starter with
  | storeStarting | wait =>
    simp only [EventLoopThread.startLoop,starter] at stepped
    cases stepped
    exact untouched early
  | spawn =>
    simp only [EventLoopThread.startLoop,starter] at stepped
    obtain ⟨_,-,⟨⟩⟩ := bind_ok_iff.mp stepped
    exact untouched (by simp [placed.unborn (.inr starter),ThreadPosition.beforeNotify])
  | returned loop => exact absurd starter (goes loop)

end EventLoopThread

/-! ### The pool while it is started, and in use -/

/-- In `EventLoopThreadPool::Start`. -/
def PoolPosition.inStart : PoolPosition → Bool
  | .storeStarting | .makeThread _ | .startLoop _ | .storeRunning => true
  | _ => false

namespace PoolThreads

variable {F : Type} {p q : PoolThreads F} {x : EventLoopThread F} {n i : Nat}

structure Started (n : Nat) (p : PoolThreads F) : Prop where
  inv : p.Inv
  untouched : ∀ x ∈ p.threads, x.Untouched
  num : p.pool.numThread = n

structure Launching (n : Nat) (p : PoolThreads F) : Prop extends Started n p where
  position : p.position.inStart = true
  next : p.pool.next = 0

structure Usable (n : Nat) (p : PoolThreads F) : Prop extends Started n p where
  position : p.position = .idle
  running : p.pool.status = .kRunning
  next : 0 ≤ p.pool.next
  inside : 0 < n → p.pool.next < n

theorem Inv.launched (inv : p.Inv) (position : p.position.inStart = true ∨ p.position = .idle)
    (there : p.threads[i]? = some x) : x.Starting ∨ x.Serving := by
  have stage := inv.stages i x there
  cases here : p.position with
  | startLoop j =>
    simp only [here,Stage] at stage
    by_cases own : i = j
    · exact stage.1 own
    · exact .inr (stage.2 own)
  | idle | storeStarting | makeThread | storeRunning =>
    simp only [here,Stage] at stage
    exact .inr stage
  | _ => simp [here,PoolPosition.inStart] at position

/-- The steps until `Start` returns, those of the threads it waits for among them. -/
def startEffort (p : PoolThreads F) : Nat :=
  let n := p.pool.numThread.toNat
  match p.position with
  | .storeStarting => 9 * n + 3
  | .makeThread i => 9 * (n - i) + 2
  | .startLoop i => 9 * (n - (i + 1)) + 3 + (p.threads[i]?.elim 0 (·.startSteps))
  | .storeRunning => 1
  | _ => 0

theorem Started.thread (started : p.Started n) (position : p.position.inStart = true ∨ p.position = .idle)
    (allowed : p.enabled (.thread i a)) (plain : ∀ x ∈ p.threads[i]?, x.body = .initCb → a = .run) :
    ∃ q, p.step (.thread i a) = .ok q ∧ q.Started n ∧ q.position = p.position ∧ q.pool = p.pool ∧
      q.startEffort ≤ p.startEffort := by
  obtain ⟨inv,untouched,num⟩ := started
  have kept := inv.thread allowed
  obtain ⟨x,among,enabled,ordinary,-⟩ := allowed
  have there : p.threads[i]? = some x := among
  have attended := inv.attended_at there
  have stage := inv.launched position there
  have idle := untouched x (List.mem_of_getElem? there)
  obtain ⟨y,stepped⟩ := idle.step_ok attended.placed attended.ended stage enabled ordinary
  have change := EventLoopThread.step_change enabled y stepped
  have done : p.step (.thread i a) = .ok (p.setThread i y) := by
    simp only [step,thread_of there,stepped,ok_bind]
    rfl
  refine ⟨p.setThread i y,done,⟨kept _ done,fun z among => ?_,num⟩,rfl,rfl,?_⟩
  · rcases List.mem_or_eq_of_mem_set among with old | rfl
    · exact untouched z old
    · exact idle.change attended.placed stage enabled ordinary (plain x there) change
  · cases here : p.position with
    | startLoop j =>
      simp only [startEffort,setThread,here]
      by_cases own : i = j
      · subst own
        have less := change.startSteps ordinary
        simp only [there,List.getElem?_set_self (List.getElem?_eq_some_iff.mp there).1,Option.elim_some]
        omega
      · rw [List.getElem?_set_ne own]
    | _ => simp only [startEffort,setThread,here]; exact le_rfl

theorem Launching.makeThread (launching : p.Launching n) (here : p.position = .makeThread i) (kept : q.Inv)
    (done : p.proceed tid = .ok q) : q.Launching n ∧ q.startEffort < p.startEffort := by
  obtain ⟨⟨inv,untouched,num⟩,-,next⟩ := launching
  have count : p.pool.numThread.toNat = n := by omega
  have length : p.threads.length = i := by
    have course := inv.course
    simp only [here,Course] at course
    exact course.2
  simp only [PoolThreads.proceed,here] at done
  split at done
  · cases done
    refine ⟨⟨⟨kept,fun x among => ?_,num⟩,rfl,next⟩,?_⟩
    · rcases List.mem_append.mp among with old | new
      · exact untouched x old
      · obtain rfl := List.mem_singleton.mp new
        exact fun _ => ⟨fun _ => rfl,rfl⟩
    · simp only [startEffort,here,count,← length,List.getElem?_concat_length,Option.elim_some,
        EventLoopThread.startSteps,EventLoopThread.construct]
      omega
  · cases done
    refine ⟨⟨⟨kept,untouched,num⟩,rfl,next⟩,?_⟩
    simp only [startEffort,here,goto]
    omega

theorem Launching.startLoop (launching : p.Launching n) (here : p.position = .startLoop i) (kept : q.Inv)
    (done : p.proceed tid = .ok q) : q.Launching n ∧ q.startEffort < p.startEffort := by
  obtain ⟨⟨inv,untouched,num⟩,position,next⟩ := launching
  have course := inv.course
  simp only [here,Course] at course
  simp only [PoolThreads.proceed,here,course.2,Nat.add_sub_cancel] at done
  obtain ⟨x,found,rest⟩ := bind_ok_iff.mp done
  have there := thread_spec x found
  have placed := (inv.attended_at there).placed
  split at rest
  · cases rest
    refine ⟨⟨⟨kept,untouched,num⟩,rfl,next⟩,?_⟩
    simp only [startEffort,here]
    omega
  · rename_i goes
    obtain ⟨y,stepped,⟨⟩⟩ := bind_ok_iff.mp rest
    have less := EventLoopThread.startLoop_startSteps placed goes y stepped
    refine ⟨⟨⟨kept,fun z among => ?_,num⟩,position,next⟩,?_⟩
    · rcases List.mem_or_eq_of_mem_set among with old | rfl
      · exact untouched z old
      · exact (untouched x (List.mem_of_getElem? there)).startLoop placed goes stepped
    · simp only [startEffort,setThread,here,there,List.getElem?_set_self (List.getElem?_eq_some_iff.mp there).1,
        Option.elim_some]
      omega

/-- `Start` goes on, and comes nearer to its end. -/
theorem Launching.proceed (launching : p.Launching n) (ready : p.Ready tid p.position) :
    ∃ q, p.proceed tid = .ok q ∧ (q.Launching n ∨ q.Usable n) ∧ q.startEffort < p.startEffort := by
  obtain ⟨⟨inv,untouched,num⟩,position,next⟩ := id launching
  cases done : p.proceed tid with
  | error e =>
    rcases inv.proceed_failure done with ⟨-,-,i,stops,-⟩ | ⟨-,i,x,-,-,⟨b,other,-⟩ | ⟨-,stops,-⟩⟩
    · simp [stops,PoolPosition.inStart] at position
    · cases other
    · simp [stops,PoolPosition.inStart] at position
  | ok q =>
    have kept := inv.proceed ready q done
    refine ⟨q,rfl,?_⟩
    cases here : p.position with
    | storeStarting =>
      simp only [PoolThreads.proceed,here] at done
      cases done
      refine ⟨.inl ⟨⟨kept,untouched,num⟩,rfl,next⟩,?_⟩
      simp only [startEffort,here,goto,setStatus,Nat.sub_zero]
      omega
    | makeThread i => exact (launching.makeThread here kept done).imp_left .inl
    | startLoop i => exact (launching.startLoop here kept done).imp_left .inl
    | storeRunning =>
      simp only [PoolThreads.proceed,here] at done
      cases done
      refine ⟨.inr ⟨⟨kept,untouched,num⟩,rfl,rfl,?_,fun some => ?_⟩,by simp [startEffort,here,goto,setStatus]⟩
      · simp [goto,setStatus,next]
      · simpa [goto,setStatus,next] using some
    | _ => simp [here,PoolPosition.inStart] at position

/-- `Start` can go on, or the thread it waits for. -/
theorem Launching.goes (launching : p.Launching n) : (∃ tid, p.Ready tid p.position) ∨
    ∃ i x, p.threads[i]? = some x ∧ x.enabled .run ∧
      ∃ q, p.step (.thread i .run) = .ok q ∧ q.startEffort < p.startEffort := by
  obtain ⟨⟨inv,untouched,num⟩,position,next⟩ := launching
  cases here : p.position with
  | storeStarting | storeRunning => exact .inl ⟨0,trivial⟩
  | makeThread i =>
    -- there is a number no thread has
    obtain ⟨tid,new⟩ := Infinite.exists_notMem_finset (insert p.owner (p.threads.map (·.tid)).toFinset)
    simp only [Finset.mem_insert,List.mem_toFinset,List.mem_map,not_or,not_exists,not_and] at new
    exact .inl ⟨tid,fun _ => ⟨new.1,fun x among => new.2 x among⟩⟩
  | startLoop i =>
    have course := inv.course
    simp only [here,Course] at course
    obtain ⟨x,there⟩ : ∃ x, p.threads[i]? = some x := ⟨_,List.getElem?_eq_getElem (by omega)⟩
    by_cases waits : x.starter ≠ .returned true → x.starter ≠ .returned false → x.enabled .startLoop
    · refine .inl ⟨0,fun y found => ?_⟩
      rw [course.2,Nat.add_sub_cancel,there] at found
      cases found
      exact waits
    · simp only [Classical.not_imp] at waits
      obtain ⟨unreturned,-,waits⟩ := waits
      have starting : x.Starting := by
        have stage := inv.stages i x there
        simp only [here,Stage] at stage
        exact (stage.1 trivial).resolve_right fun serving => unreturned serving.started
      obtain ⟨enabled,y,stepped,less⟩ := starting.run (untouched x (List.mem_of_getElem? there)) waits
      refine .inr ⟨i,x,there,enabled,p.setThread i y,?_,?_⟩
      · simp only [step,thread_of there,stepped,ok_bind]
        rfl
      · simp only [startEffort,setThread,here,there,List.getElem?_set_self (List.getElem?_eq_some_iff.mp there).1,
          Option.elim_some]
        omega
  | _ => simp [here,PoolPosition.inStart] at position

theorem Usable.length (usable : p.Usable n) : p.threads.length = n := by
  have course := usable.inv.course
  simp only [usable.position,usable.running,Course] at course
  have num := usable.num
  simp at course
  omega

/-- `GetNextLoop` finds the pool running and its index inside. -/
theorem Usable.getNextLoop (usable : p.Usable n) (int : n < 2^31) :
    ∃ loop pool, p.pool.getNextLoop p.pool.baseThread = .ok (loop,pool) ∧ Usable n { p with pool } := by
  have length := usable.length
  obtain ⟨⟨inv,untouched,num⟩,position,running,next,inside⟩ := usable
  have counted (next : Int) : Inv { p with pool := { p.pool with next } } :=
    ⟨inv.attended,inv.stages,inv.course,inv.bounded,inv.base,inv.loops⟩
  have size : p.pool.loops.length = n := by simp [inv.loops_running running,length]
  by_cases empty : n = 0
  · subst empty
    have none : p.pool.loops = [] := List.length_eq_zero_iff.mp size
    refine ⟨p.pool.baseLoop,p.pool,?_,⟨inv,untouched,num⟩,position,running,next,inside⟩
    simp [EventLoopThreadPool.getNextLoop,EventLoopThreadPool.fetchNext,EventLoopThreadPool.wrapNext,running,none]
  have some : p.pool.loops.isEmpty = false := by
    rw [List.isEmpty_eq_false_iff,← List.length_pos_iff_ne_nil]
    omega
  obtain ⟨i,index⟩ := Int.eq_ofNat_of_zero_le next
  have below : i < n := by
    have := inside (by omega)
    omega
  have word : intToSize p.pool.next = i := by
    rw [index]
    exact intToSize_of_lt (by omega)
  have found : p.pool.loops[i]? = .some p.pool.loops[i] := List.getElem?_eq_getElem (size ▸ below)
  have sum : fetchAdd p.pool.next = (i + 1 : Nat) := by
    rw [index]
    exact fetchAdd_of_lt (by omega) (by omega)
  have word' : intToSize (i + 1 : Nat) = i + 1 := intToSize_of_lt (by omega)
  have fetched : p.pool.fetchNext p.pool.baseThread = .ok (p.pool.loops[i],{ p.pool with next := (i + 1 : Nat) }) := by
    simp [EventLoopThreadPool.fetchNext,running,some,word,found,sum]
  refine ⟨p.pool.loops[i],{ p.pool with next := if n ≤ i + 1 then 0 else (i + 1 : Nat) },?_,
    ⟨counted _,untouched,num⟩,position,running,?_,fun _ => ?_⟩
  · simp only [EventLoopThreadPool.getNextLoop,fetched,ok_bind,EventLoopThreadPool.wrapNext,some,word',size]
    by_cases last : n ≤ i + 1 <;> simp [last]
  · simp only
    split <;> omega
  · simp only
    split <;> omega

end PoolThreads

end Evk
