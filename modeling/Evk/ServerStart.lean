import Evk.PoolStart

/-! Starting a server. Any thread may call `TcpServer::Start`, any number of times and at
the same time as others. The compare-and-exchange on `status_` lets one call through. It
starts the threads of the pool one after the other and waits for each to hand its loop
over, has the acceptor listen on the base loop and returns. The base loop accepts only
after that, so `GetNextLoop` finds the pool complete; the loops exist by then, and may
still be before the first iteration of their `Run`. -/
namespace Evk

/-- What a call of `TcpServer::Start` does next. -/
inductive ServerStart where
  | compareExchange
  /-- In `EventLoopThreadPool::Start`. -/
  | startPool
  | assertNotListenning
  | runInLoop
  /-- The store of `kRunning` to the server. -/
  | finish
  deriving DecidableEq, Repr

/-- The acceptor of a server as far as `Start` uses it. -/
structure Listener where
  listenning : Bool
  /-- The calls of `Acceptor::Listen` that wait in the queue of the base loop. -/
  pending : Nat
  /-- History: the calls of `Acceptor::Listen` that were made. -/
  listens : Nat
  deriving DecidableEq, Repr

structure TcpServer (F : Type) where
  status : ServerStatus
  /-- `thread_pool_`; its owner is the thread whose call was let through. -/
  threadPool : PoolThreads F
  acceptor : Listener
  starters : ThreadId → Option ServerStart
  /-- History: the threads whose exchange succeeded. -/
  started : List ThreadId

namespace TcpServer

variable {F : Type}

def construct (numThread : Int) (baseThread : ThreadId) : TcpServer F where
  status := .kInitialized
  threadPool := .construct baseThread baseThread (if numThread < 0 then 0 else numThread)
  acceptor := ⟨false,0,0⟩
  starters _ := none
  started := []

def setStarter (t : ThreadId) (position : Option ServerStart) (s : TcpServer F) : TcpServer F :=
  { s with starters := Function.update s.starters t position }

def listen (t : ThreadId) (s : TcpServer F) : Except Fault (TcpServer F) := do
  check (t = s.threadPool.pool.baseThread) .fatal
  return { s with acceptor := { s.acceptor with listenning := true, listens := s.acceptor.listens + 1 } }

/-- The next piece of a call of `Start`; `tid` is the number of a thread that is made in it. -/
def proceed (t tid : ThreadId) (s : TcpServer F) : Except Fault (TcpServer F) :=
  match s.starters t with
  | none => .ok s
  | some .compareExchange =>
    if s.status = .kInitialized then
      .ok { s.setStarter t (some .startPool) with
        status := .kStarting, started := s.started ++ [t]
        threadPool := { s.threadPool with owner := t, position := .storeStarting } }
    else .ok (s.setStarter t none)
  | some .startPool => do
    let threadPool ← s.threadPool.proceed tid
    if threadPool.position = .idle then return { s.setStarter t (some .assertNotListenning) with threadPool }
    else return { s with threadPool }
  | some .assertNotListenning => do
    assert (s.acceptor.listenning = false) .serverStart
    return s.setStarter t (some .runInLoop)
  | some .runInLoop =>
    if t = s.threadPool.pool.baseThread then (s.setStarter t (some .finish)).listen t
    else .ok { s.setStarter t (some .finish) with acceptor := { s.acceptor with pending := s.acceptor.pending + 1 } }
  | some .finish => .ok { s.setStarter t none with status := .kRunning }

inductive Action (F : Type) where
  | start (t : ThreadId)
  | proceed (t tid : ThreadId)
  /-- A step of thread `i` of the pool, or a call on its loop. -/
  | thread (i : Nat) (a : EventLoopThread.Action F)
  /-- The base loop runs a functor that calls `Acceptor::Listen`. -/
  | runFunctor
  /-- The base loop accepts a connection: `HandleNewConnection` up to its `GetNextLoop`. -/
  | accept
  deriving DecidableEq

def step (s : TcpServer F) : Action F → Except Fault (TcpServer F)
  | .start t => .ok (s.setStarter t (some .compareExchange))
  | .proceed t tid => s.proceed t tid
  | .thread i a => do
    let threadPool ← s.threadPool.step (.thread i a)
    return { s with threadPool }
  | .runFunctor =>
    { s with acceptor := { s.acceptor with pending := s.acceptor.pending - 1 } }.listen s.threadPool.pool.baseThread
  | .accept => do
    let (_,pool) ← s.threadPool.pool.getNextLoop s.threadPool.pool.baseThread
    return { s with threadPool := { s.threadPool with pool } }

/-- The base loop's thread does one thing at a time; the kernel reports connections on a
socket that listens. `Start` gives the pool no callback, so a new thread goes straight on. -/
def Allowed (s : TcpServer F) : Action F → Prop
  | .start t => s.starters t = none
  | .proceed t tid => s.starters t ≠ none ∧
    (s.starters t = some .startPool → s.threadPool.Ready tid s.threadPool.position)
  | .thread i a => s.threadPool.enabled (.thread i a) ∧ ∀ x ∈ s.threadPool.threads[i]?, x.body = .initCb → a = .run
  | .runFunctor => s.starters s.threadPool.pool.baseThread = none ∧ 0 < s.acceptor.pending
  | .accept => s.starters s.threadPool.pool.baseThread = none ∧ s.acceptor.listenning = true

instance [DecidableEq F] (s : TcpServer F) : (a : Action F) → Decidable (s.Allowed a)
  | .start _ => inferInstanceAs (Decidable (_ = _))
  | .proceed _ _ => inferInstanceAs (Decidable (_ ∧ (_ → _)))
  | .thread _ _ => inferInstanceAs (Decidable (_ ∧ ∀ _ ∈ _, (_ → _)))
  | .runFunctor | .accept => inferInstanceAs (Decidable (_ ∧ _))

def machine (numThread : Int) : Machine (TcpServer F) (Action F) Fault where
  initial s := ∃ baseThread, s = construct numThread baseThread
  enabled := Allowed
  step := step

instance [DecidableEq F] (numThread : Int) (s : TcpServer F) (a : Action F) :
    Decidable ((machine numThread).enabled s a) :=
  inferInstanceAs (Decidable (s.Allowed a))

variable {s : TcpServer F} {n : Nat} {t : ThreadId} {own : Option ThreadId}

structure Listens (acceptor : Listener) : Prop where
  once : acceptor.listens + acceptor.pending = 1
  on : acceptor.listenning = true ↔ acceptor.listens = 1

/-- What a call that was let through has done when it stands at a position. -/
def Inside (n : Nat) (threadPool : PoolThreads F) (acceptor : Listener) : ServerStart → Prop
  | .compareExchange => False
  | .startPool => threadPool.Launching n ∧ acceptor = ⟨false,0,0⟩
  | .assertNotListenning | .runInLoop => threadPool.Usable n ∧ acceptor = ⟨false,0,0⟩
  | .finish => threadPool.Usable n ∧ Listens acceptor

/-- The calls in progress, other than that of `t`, are at the exchange. -/
def Waits (s : TcpServer F) (t : Option ThreadId) : Prop :=
  ∀ t' p, some t' ≠ t → s.starters t' = some p → p = .compareExchange

/-- Before the first call of `Start`, while the call that was let through is in progress,
and after it. -/
inductive Phase (n : Nat) (s : TcpServer F) : Prop where
  | idle (status : s.status = .kInitialized) (pool : ∃ owner baseThread, s.threadPool = .construct owner baseThread n)
      (quiet : s.acceptor = ⟨false,0,0⟩) (started : s.started = []) (waits : s.Waits none)
  | starting (t : ThreadId) (p : ServerStart) (status : s.status = .kStarting) (position : s.starters t = some p)
      (inside : Inside n s.threadPool s.acceptor p) (started : s.started = [t]) (waits : s.Waits (some t))
  | running (t : ThreadId) (status : s.status = .kRunning) (pool : s.threadPool.Usable n) (listens : Listens s.acceptor)
      (started : s.started = [t]) (waits : s.Waits none)

theorem waits_at (waits : s.Waits own) (t : ThreadId) : (s.setStarter t (some .compareExchange)).Waits own := by
  intro t' p other position
  by_cases same : t' = t
  · subst same
    simpa [setStarter] using position.symm
  · exact waits t' p other (by simpa [setStarter,same] using position)

theorem waits_left (waits : s.Waits own) (t : ThreadId) : (s.setStarter t none).Waits own := by
  intro t' p other position
  by_cases same : t' = t
  · simp [setStarter,same] at position
  · exact waits t' p other (by simpa [setStarter,same] using position)

/-- The thread that is let through, or goes on, is the one that does not wait. -/
theorem waits_own (waits : s.Waits own) (mine : own = none ∨ own = some t) (position : Option ServerStart) :
    (s.setStarter t position).Waits (some t) := by
  intro t' p other position
  have different : t' ≠ t := by simpa using other
  refine waits t' p ?_ (by simpa [setStarter,different] using position)
  rcases mine with rfl | rfl
  · simp
  · exact other

theorem waits_finish (waits : s.Waits (some t)) : (s.setStarter t none).Waits none := by
  intro t' p _ position
  by_cases same : t' = t
  · simp [setStarter,same] at position
  · exact waits t' p (by simpa using same) (by simpa [setStarter,same] using position)

theorem Phase.start (phase : s.Phase n) (free : s.starters t = none) :
    (s.setStarter t (some .compareExchange)).Phase n := by
  cases phase with
  | idle status pool quiet started waits => exact .idle status pool quiet started (waits_at waits t)
  | starting t' p status position inside started waits =>
    have different : t' ≠ t := by
      rintro rfl
      simp [free] at position
    exact .starting t' p status (by simpa [setStarter,different] using position) inside started (waits_at waits t)
  | running t' status pool listens started waits => exact .running t' status pool listens started (waits_at waits t)

/-- The pool at the call of its `Start`. -/
theorem launching_construct (owner baseThread t : ThreadId) (n : Nat) : PoolThreads.Launching n
    { (PoolThreads.construct owner baseThread n : PoolThreads F) with owner := t, position := .storeStarting } := by
  have inv := PoolThreads.construct_inv (F := F) t baseThread n
  exact ⟨⟨inv.goto (by simp [PoolThreads.construct]) ⟨rfl,rfl⟩ inv.loops,by simp [PoolThreads.construct],rfl⟩,rfl,rfl⟩

/-- The steps until a call of `Start` returns, those of the threads it waits for among them. -/
def left (t : ThreadId) (s : TcpServer F) : Nat :=
  match s.starters t with
  | none => 0
  | some .compareExchange => 9 * s.threadPool.pool.numThread.toNat + 7
  | some .startPool => s.threadPool.startEffort + 3
  | some .assertNotListenning => 3
  | some .runInLoop => 2
  | some .finish => 1

/-- A call at the exchange is let through before any other, and leaves after it. -/
theorem Phase.exchange (phase : s.Phase n) (position : s.starters t = some .compareExchange) :
    ∃ s', s.proceed t tid = .ok s' ∧ s'.Phase n ∧ s'.left t < s.left t := by
  cases phase with
  | idle status pool quiet started waits =>
    obtain ⟨owner,baseThread,pool⟩ := pool
    refine ⟨_,by simp [TcpServer.proceed,position,status]; rfl,?_,?_⟩
    · refine .starting t .startPool rfl (by simp [setStarter]) ⟨?_,quiet⟩ (by simp [started])
        (waits_own waits (.inl rfl) _)
      simpa only [pool] using launching_construct owner baseThread t n
    · simp [left,setStarter,position,PoolThreads.startEffort]
  | starting t' p status position' inside started waits =>
    have different : t' ≠ t := by
      rintro rfl
      cases position.symm.trans position'
      exact inside
    refine ⟨s.setStarter t none,by simp [TcpServer.proceed,position,status],?_,by simp [left,setStarter,position]⟩
    exact .starting t' p status (by simpa [setStarter,different] using position') inside started (waits_left waits t)
  | running t' status pool listens started waits =>
    exact ⟨s.setStarter t none,by simp [TcpServer.proceed,position,status],
      .running t' status pool listens started (waits_left waits t),by simp [left,setStarter,position]⟩

/-- The call that was let through goes on: no assertion fails on its way. -/
theorem proceed_inside (status : s.status = .kStarting) (position : s.starters t = some p)
    (inside : Inside n s.threadPool s.acceptor p) (started : s.started = [t]) (waits : s.Waits (some t))
    (ready : p = .startPool → s.threadPool.Ready tid s.threadPool.position) :
    ∃ s', s.proceed t tid = .ok s' ∧ s'.Phase n ∧ s'.left t < s.left t := by
  have moved (p : ServerStart) (threadPool : PoolThreads F) (acceptor : Listener)
      (inside : Inside n threadPool acceptor p) : Phase n { s.setStarter t (some p) with threadPool, acceptor } :=
    .starting t p status (by simp [setStarter]) inside started (waits_own waits (.inr rfl) _)
  cases p with
  | compareExchange => exact inside.elim
  | startPool =>
    obtain ⟨launching,quiet⟩ := inside
    obtain ⟨pool,done,next,less⟩ := launching.proceed (ready rfl)
    simp only [TcpServer.proceed,position,done,ok_bind]
    rcases next with launching' | usable
    · have inside := launching'.position
      have busy : pool.position ≠ .idle := fun idle => by simp [idle,PoolPosition.inStart] at inside
      rw [if_neg busy]
      refine ⟨_,rfl,.starting t .startPool status position ⟨launching',quiet⟩ started waits,?_⟩
      simp only [left,position]
      omega
    · rw [if_pos usable.position]
      refine ⟨_,rfl,moved .assertNotListenning pool s.acceptor ⟨usable,quiet⟩,?_⟩
      simp only [left,setStarter,position,Function.update_self]
      omega
  | assertNotListenning =>
    obtain ⟨pool,quiet⟩ := inside
    have silent : s.acceptor.listenning = false := by rw [quiet]
    simp only [TcpServer.proceed,position,assert_of silent,ok_bind]
    exact ⟨_,rfl,moved .runInLoop _ _ ⟨pool,quiet⟩,by simp [left,setStarter,position]⟩
  | runInLoop =>
    obtain ⟨pool,quiet⟩ := inside
    simp only [TcpServer.proceed,position]
    by_cases base : t = s.threadPool.pool.baseThread
    · have here : t = (s.setStarter t (some .finish)).threadPool.pool.baseThread := base
      rw [if_pos base,listen,check_of here,ok_bind]
      refine ⟨_,rfl,moved .finish _ { s.acceptor with listenning := true, listens := s.acceptor.listens + 1 } ⟨pool,?_⟩,
        by simp [left,setStarter,position]⟩
      rw [quiet]
      exact ⟨rfl,by simp⟩
    · rw [if_neg base]
      refine ⟨_,rfl,moved .finish _ _ ⟨pool,?_⟩,by simp [left,setStarter,position]⟩
      rw [quiet]
      exact ⟨rfl,by simp⟩
  | finish =>
    obtain ⟨pool,listens⟩ := inside
    simp only [TcpServer.proceed,position]
    exact ⟨_,rfl,.running t rfl pool listens started (waits_finish waits),by simp [left,setStarter,position]⟩

theorem Phase.proceed (phase : s.Phase n) (allowed : s.Allowed (.proceed t tid)) :
    ∃ s', s.proceed t tid = .ok s' ∧ s'.Phase n ∧ s'.left t < s.left t := by
  obtain ⟨busy,ready⟩ := allowed
  obtain ⟨p,position⟩ := Option.ne_none_iff_exists'.mp busy
  cases phase with
  | idle status pool quiet started waits =>
    cases waits t p (by simp) position
    exact Phase.exchange (.idle status pool quiet started waits) position
  | running t' status pool listens started waits =>
    cases waits t p (by simp) position
    exact Phase.exchange (.running t' status pool listens started waits) position
  | starting t' p' status position' inside started waits =>
    by_cases same : t = t'
    · subst same
      exact proceed_inside status position' inside started waits fun launches =>
        ready (position'.trans (by rw [launches]))
    · cases waits t p (by simpa using same) position
      exact Phase.exchange (.starting t' p' status position' inside started waits) position

/-- The pool is not stopped, and a step of one of its threads keeps the server where it is. -/
theorem Phase.pool (phase : s.Phase n) (some : s.threadPool.threads ≠ []) :
    s.threadPool.Started n ∧ (s.threadPool.position.inStart = true ∨ s.threadPool.position = .idle) ∧
    ∀ q : PoolThreads F, q.Started n → q.position = s.threadPool.position → q.pool = s.threadPool.pool →
      Phase n { s with threadPool := q } := by
  have usable (here : s.threadPool.Usable n) (q : PoolThreads F) (started : q.Started n)
      (position : q.position = s.threadPool.position) (pool : q.pool = s.threadPool.pool) : q.Usable n :=
    ⟨started,position.trans here.position,pool ▸ here.running,pool ▸ here.next,pool ▸ here.inside⟩
  cases phase with
  | idle _ pool =>
    obtain ⟨owner,baseThread,pool⟩ := pool
    exact absurd (by rw [pool]; rfl) some
  | running t status pool listens started waits =>
    exact ⟨pool.toStarted,.inr pool.position,fun q kept position same =>
      .running t status (usable pool q kept position same) listens started waits⟩
  | starting t p status position inside started waits =>
    cases p with
    | compareExchange => exact inside.elim
    | startPool =>
      obtain ⟨launching,quiet⟩ := inside
      refine ⟨launching.toStarted,.inl launching.position,fun q kept here same => ?_⟩
      refine .starting t .startPool status position ⟨⟨kept,?_,?_⟩,quiet⟩ started waits
      · exact here ▸ launching.position
      · exact same ▸ launching.next
    | assertNotListenning | runInLoop | finish =>
      exact ⟨inside.1.toStarted,.inr inside.1.position,fun q kept here same =>
        .starting t _ status position ⟨usable inside.1 q kept here same,inside.2⟩ started waits⟩

theorem Phase.thread (phase : s.Phase n) (allowed : s.Allowed (.thread i a)) :
    ∃ s', s.step (.thread i a) = .ok s' ∧ s'.Phase n ∧ s'.starters = s.starters ∧
      s'.threadPool.startEffort ≤ s.threadPool.startEffort := by
  obtain ⟨enabled,plain⟩ := allowed
  have some : s.threadPool.threads ≠ [] := by
    obtain ⟨x,there,-⟩ := enabled
    rintro none
    simp [none] at there
  obtain ⟨started,position,kept⟩ := phase.pool some
  obtain ⟨q,done,started',position',pool,less⟩ := started.thread position enabled plain
  simp only [TcpServer.step,done,ok_bind]
  exact ⟨_,rfl,kept q started' position' pool,rfl,less⟩

/-- Nothing listens or waits to before a call is about to finish. -/
theorem Inside.quiet_or {threadPool : PoolThreads F} {acceptor : Listener} (inside : Inside n threadPool acceptor p) :
    acceptor = ⟨false,0,0⟩ ∨ p = .finish ∧ threadPool.Usable n ∧ Listens acceptor := by
  cases p with
  | compareExchange => exact inside.elim
  | startPool | assertNotListenning | runInLoop => exact .inl inside.2
  | finish => exact .inr ⟨rfl,inside⟩

theorem Listens.le {acceptor : Listener} (listens : Listens acceptor) : acceptor.listens ≤ 1 := by
  have once := listens.once
  omega

theorem Phase.counts (phase : s.Phase n) :
    s.started.length ≤ 1 ∧ s.acceptor.listens ≤ 1 ∧
      (s.status = .kRunning → s.acceptor.listens + s.acceptor.pending = 1) := by
  cases phase with
  | idle status pool quiet started waits => simp [status,quiet,started]
  | starting t p status position inside started waits =>
    refine ⟨by simp [started],?_,by simp [status]⟩
    rcases inside.quiet_or with quiet | ⟨-,-,listens⟩
    · simp [quiet]
    · exact listens.le
  | running t status pool listens started waits => exact ⟨by simp [started],listens.le,fun _ => listens.once⟩

/-- While something listens or waits to, the pool is in use; both may change as long as
they stay so. -/
theorem Phase.listening (phase : s.Phase n) (some : 0 < s.acceptor.pending ∨ s.acceptor.listenning = true) :
    s.threadPool.Usable n ∧ Listens s.acceptor ∧
    ∀ (threadPool : PoolThreads F) acceptor, threadPool.Usable n → Listens acceptor →
      Phase n { s with threadPool, acceptor } := by
  cases phase with
  | idle status pool quiet started waits => simp [quiet] at some
  | starting t p status position inside started waits =>
    rcases inside.quiet_or with quiet | ⟨rfl,usable,listens⟩
    · simp [quiet] at some
    exact ⟨usable,listens,fun _ _ usable listens => .starting t .finish status position ⟨usable,listens⟩ started waits⟩
  | running t status pool listens started waits =>
    exact ⟨pool,listens,fun _ _ usable listens => .running t status usable listens started waits⟩

theorem Phase.runFunctor (phase : s.Phase n) (some : 0 < s.acceptor.pending) :
    ∃ s', s.step .runFunctor = .ok s' ∧ s'.Phase n := by
  obtain ⟨usable,⟨once,on⟩,kept⟩ := phase.listening (.inl some)
  simp only [TcpServer.step,listen,check_of,ok_bind]
  have first : s.acceptor.listens = 0 := by omega
  exact ⟨_,rfl,kept _ ⟨_,_,_⟩ usable ⟨by simp only; omega,by simp [first]⟩⟩

theorem Phase.accept (phase : s.Phase n) (int : n < 2^31) (on : s.acceptor.listenning = true) :
    ∃ s', s.step .accept = .ok s' ∧ s'.Phase n := by
  obtain ⟨usable,listens,kept⟩ := phase.listening (.inr on)
  obtain ⟨loop,pool,next,usable'⟩ := usable.getNextLoop int
  simp only [TcpServer.step,next,ok_bind]
  exact ⟨_,rfl,kept _ _ usable' listens⟩

theorem Phase.step (phase : s.Phase n) (int : n < 2^31) (a : Action F) (allowed : s.Allowed a) :
    ∃ s', s.step a = .ok s' ∧ s'.Phase n := by
  cases a with
  | start t => exact ⟨_,rfl,phase.start allowed⟩
  | proceed t tid =>
    obtain ⟨s',done,phase',-⟩ := phase.proceed allowed
    exact ⟨s',done,phase'⟩
  | thread i a =>
    obtain ⟨s',done,phase',-⟩ := phase.thread allowed
    exact ⟨s',done,phase'⟩
  | runFunctor => exact phase.runFunctor allowed.2
  | accept => exact phase.accept int allowed.2

theorem construct_phase (numThread : Int) (baseThread : ThreadId) :
    (construct numThread baseThread : TcpServer F).Phase numThread.toNat := by
  have clamped : (if numThread < 0 then 0 else numThread) = (numThread.toNat : Int) := by
    split <;> omega
  refine .idle rfl ⟨baseThread,baseThread,?_⟩ rfl rfl (fun _ _ _ position => by simp [construct] at position)
  rw [construct,clamped]

theorem reachable_phase {numThread : Int} (int : numThread < 2^31) (reachable : (machine numThread).Reachable s) :
    s.Phase numThread.toNat := by
  refine reachable.invariant (fun s first => ?_) fun s a u phase allowed stepped => ?_
  · obtain ⟨baseThread,rfl⟩ := first
    exact construct_phase numThread baseThread
  · obtain ⟨s',done,phase'⟩ := phase.step (by omega) a allowed
    cases stepped.symm.trans done
    exact phase'

/-! ### A call of `Start` returns -/

theorem Phase.launching (phase : s.Phase n) (starts : s.starters t = some .startPool) :
    s.threadPool.Launching n := by
  cases phase with
  | idle _ _ _ _ waits => cases waits t _ (by simp) starts
  | running _ _ _ _ _ waits => cases waits t _ (by simp) starts
  | starting t' p _ position inside _ waits =>
    by_cases same : t = t'
    · subst same
      cases position.symm.trans starts
      exact inside.1
    · cases waits t _ (by simpa using same) starts

/-- A call in progress can go on, or the thread it waits for can. -/
theorem Phase.goes (phase : s.Phase n) (busy : s.starters t ≠ none) :
    ∃ a s', s.Allowed a ∧ ((∃ tid, a = .proceed t tid) ∨ ∃ i, a = .thread i .run) ∧
      s.step a = .ok s' ∧ s'.left t < s.left t := by
  have proceeds (tid : ThreadId) (allowed : s.Allowed (.proceed t tid)) : ∃ a s', s.Allowed a ∧
      ((∃ tid, a = .proceed t tid) ∨ ∃ i, a = .thread i .run) ∧ s.step a = .ok s' ∧ s'.left t < s.left t := by
    obtain ⟨s',done,-,less⟩ := phase.proceed allowed
    exact ⟨.proceed t tid,s',allowed,.inl ⟨tid,rfl⟩,done,less⟩
  by_cases starts : s.starters t = some .startPool
  · rcases (phase.launching starts).goes with ⟨tid,ready⟩ | ⟨i,x,there,enabled,q,done,less⟩
    · exact proceeds tid ⟨busy,fun _ => ready⟩
    · refine ⟨.thread i .run,{ s with threadPool := q },⟨⟨x,there,enabled,trivial,?_⟩,fun _ _ _ =>
        rfl⟩,.inr ⟨i,rfl⟩,?_,?_⟩
      · simp [EventLoopThread.Action.caller]
      · simp only [TcpServer.step,done,ok_bind]
        rfl
      · simp only [left,starts]
        omega
  · exact proceeds 0 ⟨busy,fun here => absurd here starts⟩

theorem listen_frame (done : s.listen t = .ok s') : s'.starters = s.starters ∧ s'.threadPool = s.threadPool := by
  obtain ⟨_,-,⟨⟩⟩ := bind_ok_iff.mp done
  exact ⟨rfl,rfl⟩

theorem Phase.num (phase : s.Phase n) : s.threadPool.pool.numThread = n := by
  cases phase with
  | idle _ pool =>
    obtain ⟨owner,baseThread,pool⟩ := pool
    rw [pool]
    rfl
  | running _ _ pool => exact pool.num
  | starting _ p _ _ inside =>
    cases p with
    | compareExchange => exact inside.elim
    | startPool | assertNotListenning | runInLoop | finish => exact inside.1.num

/-- What is left of a call depends on where it stands and, inside
`EventLoopThreadPool::Start`, on how far that is. -/
theorem left_le {s' : TcpServer F} (phase : s.Phase n) (phase' : s'.Phase n) (starters : s'.starters t = s.starters t)
    (effort : s.starters t = some .startPool → s'.threadPool.startEffort ≤ s.threadPool.startEffort) :
      s'.left t ≤ s.left t := by
  simp only [left,starters,phase.num,phase'.num]
  split
  · exact le_rfl
  · exact le_rfl
  · rename_i here
    have less := effort here
    omega
  · exact le_rfl
  · exact le_rfl
  · exact le_rfl

/-- With a call past the exchange no other one starts the pool. -/
theorem Phase.unstarted (phase : s.Phase n) (other : t' ≠ t) (here : s.starters t' = some p)
    (past : p ≠ .compareExchange) : s.starters t ≠ some .startPool := by
  intro mine
  cases phase with
  | idle _ _ _ _ waits => exact past (waits t' p (by simp) here)
  | running _ _ _ _ _ waits => exact past (waits t' p (by simp) here)
  | starting t'' p' _ position _ _ waits =>
    by_cases same : t' = t''
    · subst same
      cases waits t _ (by simpa using other.symm) mine
    · exact past (waits t' p (by simpa using same) here)

/-- A piece of another call does not touch this one, nor the pool it starts. -/
theorem Phase.others {s' : TcpServer F} (phase : s.Phase n) (phase' : s'.Phase n) (other : t' ≠ t)
    (done : s.proceed t' tid = .ok s') : s'.left t ≤ s.left t := by
  have apart (position : Option ServerStart) : (s.setStarter t' position).starters t = s.starters t :=
    Function.update_of_ne other.symm _ _
  cases position : s.starters t' with
  | none =>
    simp only [TcpServer.proceed,position] at done
    cases done
    exact le_rfl
  | some p =>
    cases p with
    | compareExchange =>
      simp only [TcpServer.proceed,position] at done
      split at done
      · rename_i fresh
        cases done
        refine left_le phase phase' (apart _) fun mine => ?_
        cases phase with
        | idle _ _ _ _ waits => cases waits t _ (by simp) mine
        | starting _ _ status => simp [status] at fresh
        | running _ status => simp [status] at fresh
      · cases done
        exact left_le phase phase' (apart _) fun _ => le_rfl
    | startPool =>
      simp only [TcpServer.proceed,position,bind_ok_iff] at done
      obtain ⟨q,stepped,rest⟩ := done
      have elsewhere := phase.unstarted other position (by simp)
      split at rest
      · cases rest
        exact left_le phase phase' (apart _) fun mine => absurd mine elsewhere
      · cases rest
        exact left_le phase phase' rfl fun mine => absurd mine elsewhere
    | assertNotListenning =>
      simp only [TcpServer.proceed,position] at done
      obtain ⟨_,-,⟨⟩⟩ := bind_ok_iff.mp done
      exact left_le phase phase' (apart _) fun _ => le_rfl
    | runInLoop =>
      simp only [TcpServer.proceed,position] at done
      split at done
      · obtain ⟨starters,pool⟩ := listen_frame done
        exact left_le phase phase' (by rw [starters]; exact apart _) fun _ => by rw [pool]; exact le_rfl
      · cases done
        exact left_le phase phase' (apart _) fun _ => le_rfl
    | finish =>
      simp only [TcpServer.proceed,position] at done
      cases done
      exact left_le phase phase' (apart _) fun _ => le_rfl

/-- Nothing that happens moves a call away from its end. -/
theorem Phase.left_le {s' : TcpServer F} (phase : s.Phase n) (phase' : s'.Phase n) (busy : s.starters t ≠ none)
    (allowed : s.Allowed a) (done : s.step a = .ok s') : s'.left t ≤ s.left t := by
  cases a with
  | start t' =>
    cases done
    have different : t ≠ t' := fun same => busy (same ▸ allowed)
    exact TcpServer.left_le phase phase' (Function.update_of_ne different _ _) fun _ => le_rfl
  | proceed t' tid =>
    by_cases same : t' = t
    · subst same
      obtain ⟨s'',done',-,less⟩ := phase.proceed allowed
      cases done.symm.trans done'
      exact less.le
    · exact phase.others phase' same done
  | thread i a =>
    obtain ⟨s'',done',-,starters,less⟩ := phase.thread allowed
    cases done.symm.trans done'
    exact TcpServer.left_le phase phase' (by rw [starters]) fun _ => less
  | runFunctor =>
    obtain ⟨starters,pool⟩ := listen_frame done
    exact TcpServer.left_le phase phase' (by rw [starters]) fun _ => by rw [pool]
  | accept =>
    -- the pool has been started, or nothing would listen
    obtain ⟨usable,-,-⟩ := phase.listening (.inr allowed.2)
    obtain ⟨⟨loop,pool⟩,found,⟨⟩⟩ := bind_ok_iff.mp done
    refine TcpServer.left_le phase phase' rfl fun _ => ?_
    simp only [PoolThreads.startEffort,usable.position]
    exact le_rfl

end TcpServer
end Evk
