import Evk.ServerHomes

/-! The pieces of a server's steps, for any relation between states. What each small change
of the state keeps, a whole handler, functor or call keeps; the list of what a loop has to
do is popped, swapped and begun elsewhere. -/
namespace Evk.System

/-- What may be put before the rest of a loop's list: the tests of `HandleEvent`, the second
piece of `OnConnectDestroyed`, and the calls of it that `~TcpServer` makes on the spot. -/
def isInner : Task → Bool
  | .stage _ _ | .destroy _ _ | .functor (.onConnectDestroyed _) => true
  | .handleEvent _ | .functor _ | .doPendingFunctors => false

/-- A relation that holds across every small change: to the records beside the connections
and the loops, to a connection that stays on its loop, to what a loop has to do. -/
structure Carries (R : System → System → Prop) : Prop where
  trans : ∀ {s t u}, R s t → R t u → R s u
  aside : ∀ {s : System} {listed living begun gone events},
    R s { s with connections := listed, alive := living, calls := begun, freed := gone, trace := events }
  setLink : ∀ {s : System} {c x y}, s.conns c = some x → y.conn.loop = x.conn.loop → R s (s.setLink c y)
  queueInLoop : ∀ {s : System} {l f}, R s (s.queueInLoop l f)
  before : ∀ {s : System} {l tasks}, (∀ task ∈ tasks, isInner task = true) → R s (s.before l tasks)

namespace Carries

variable {R : System → System → Prop} {s t u : System} {c : ConnId} {l : LoopId} {x y : Link}

theorem refl (carries : Carries R) : R s s := carries.aside

theorem after (carries : Carries R) (first : R s t) (later : Ensures (R t) r) : Ensures (R s) r :=
  fun u done => carries.trans first (later u done)

theorem removeConnectionInLoop (carries : Carries R) : Ensures (R s) (s.removeConnectionInLoop l c) := by
  refine ensures_check.bind fun _ _ => ensures_check.bind fun _ _ => (Ensures.any _).bind fun x _ =>
    ensures_assert.bind fun _ _ => .ok ?_
  have unlisted : R s ({ s with connections := s.connections.filter (· ≠ c) }.record c .queueDestroyed) := carries.aside
  exact carries.trans unlisted carries.queueInLoop

theorem removeConnection (carries : Carries R) : Ensures (R s) (s.removeConnection l c) := by
  refine ensures_check.bind fun _ _ => ?_
  split
  · exact carries.removeConnectionInLoop
  · exact .ok carries.queueInLoop

theorem applyEffect (carries : Carries R) (effect : Effect) : Ensures (R s) (s.applyEffect l c x effect) := by
  cases effect with
  | closeCb =>
    have recorded : R s (s.record c .closeCb) := carries.aside
    exact carries.after recorded carries.removeConnection
  | queueWriteComplete | queueHighWaterMark => exact .ok carries.queueInLoop
  | connCb | msgCb | shutDownWrite => exact .ok carries.aside

theorem applyEffects (carries : Carries R) (effects : List Effect) : Ensures (R s) (applyEffects l c x effects s) := by
  induction effects generalizing s with
  | nil => exact .ok carries.refl
  | cons effect effects ih => exact (carries.applyEffect effect).bind fun t first => carries.after first ih

theorem perform (carries : Carries R) (steady : Link.Steady method) : Ensures (R s) (s.perform l c method) := by
  refine deref_spec.bind fun x held => ensures_check.bind fun _ _ => (steady x).bind fun result same => ?_
  exact carries.after (carries.setLink held.1 same) (carries.applyEffects result.2)

theorem dispatch (carries : Carries R) (steady : Link.Steady handler) :
    Ensures (R s) (s.dispatch l c wants handler) := by
  refine (Ensures.any _).bind fun x _ => ?_
  split
  · exact carries.perform steady
  · exact .ok carries.refl

theorem setHandling (carries : Carries R) : Ensures (R s) (s.setHandling c handling) :=
  deref_spec.bind fun _ held => .ok (carries.setLink held.1 rfl)

theorem runFunctor (carries : Carries R) (f : Functor) : Ensures (R s) (s.runFunctor l io f) := by
  cases f with
  | onConnectEstablished => exact carries.perform Link.onConnectEstablished_steady
  | sendInLoop => exact carries.perform Link.sendInLoop_steady
  | shutdownInLoop => exact carries.perform Link.shutdownInLoop_steady
  | removeConnectionInLoop => exact carries.removeConnectionInLoop
  | onConnectDestroyed d =>
    refine (Ensures.any _).bind fun x _ => ensures_check.bind fun _ _ => .ok ?_
    have tested : R s (s.record d (.testDestroyed x.conn.isConnected)) := carries.aside
    exact carries.trans tested (carries.before (by simp [isInner]))
  | writeComplete | highWaterMark => exact (Ensures.any _).bind fun _ _ => .ok carries.refl

theorem runTask (carries : Carries R) (task : Task) (other : task ≠ .doPendingFunctors) :
    Ensures (R s) (s.runTask l io task) := by
  cases task with
  | handleEvent d =>
    refine carries.setHandling.bind fun t handling => .ok (carries.trans handling (carries.before ?_))
    simp [stages,isInner]
  | stage d stage =>
    cases stage with
    | close => exact carries.dispatch Link.handleClose_steady
    | error => exact carries.dispatch Link.handleError_steady
    | read => exact carries.dispatch Link.handleRead_steady
    | write => exact carries.dispatch Link.handleWrite_steady
    | done => exact carries.setHandling
  | doPendingFunctors => exact absurd rfl other
  | functor f => exact carries.runFunctor f
  | destroy d =>
    exact (carries.perform Link.onConnectDestroyed_steady).bind fun t done => .ok (carries.trans done carries.aside)

theorem fillActiveChannels (carries : Carries R) (reports : List (ConnId × PollEvents)) :
    Ensures (R s) (fillActiveChannels reports s) := by
  induction reports generalizing s with
  | nil => exact .ok carries.refl
  | cons report reports ih =>
    refine deref_spec.bind fun x held => (Ensures.any _).bind fun channel _ => ?_
    have linked : R s (s.setLink report.1 (x.setChannel channel)) := carries.setLink held.1 rfl
    exact carries.after linked ih

/-- What an accept does once the connection is in the map. -/
theorem establish (carries : Carries R) :
    Ensures (R s) (if loop = 0 then s.perform 0 c (Link.onConnectEstablished c)
      else return s.queueInLoop loop (.onConnectEstablished c)) := by
  split
  · exact carries.perform Link.onConnectEstablished_steady
  · exact .ok carries.queueInLoop

theorem send (carries : Carries R) : Ensures (R { s with nextTag := s.nextTag + 1 }) (s.send thread c message io) := by
  refine (Ensures.any _).bind fun x _ => ?_
  dsimp only
  split
  · split
    · exact (carries.perform Link.sendInLoop_steady).bind fun t sent => .ok (carries.trans sent carries.aside)
    · exact .ok carries.aside
  · exact .ok carries.refl

theorem shutdown (carries : Carries R) : Ensures (R s) (s.shutdown thread c) := by
  refine deref_spec.bind fun x held => ?_
  split
  · exact .ok carries.aside
  · rename_i y flipped
    have linked : R s (s.setLink c y) := carries.setLink held.1 (Link.shutdown_loop flipped)
    have recorded : R s ((s.setLink c y).record c (.shutdownCalled thread true)) := carries.trans linked carries.aside
    dsimp only
    split
    · exact carries.after recorded (carries.perform Link.shutdownInLoop_steady)
    · exact .ok (carries.trans recorded carries.aside)

theorem push (carries : Carries R) (call : Call) : Ensures (R s) (s.push thread call) := by
  have returned : R s { s with calls := s.calls.filter (· ≠ (thread,call)) } := carries.aside
  cases call with
  | sending d message =>
    refine (Ensures.any _).bind fun x _ => .ok ?_
    exact carries.trans returned (carries.trans carries.queueInLoop carries.aside)
  | shuttingDown d => exact (Ensures.any _).bind fun x _ => .ok (carries.trans returned carries.queueInLoop)

theorem drop (carries : Carries R) : Ensures (R s) (s.drop c) :=
  (Ensures.any _).bind fun _ _ => ensures_assert.bind fun _ _ => (Ensures.any _).bind fun _ _ => .ok carries.aside

theorem destroyConnections (carries : Carries R) (order : List ConnId) :
    Ensures (R s) (destroyConnections order s) := by
  induction order with
  | nil => exact .ok carries.refl
  | cons d order ih =>
    refine ih.bind fun t later => (Ensures.any _).bind fun x _ => ?_
    split
    · exact .ok (carries.trans later (carries.before (by simp [isInner])))
    · exact .ok (carries.trans later carries.queueInLoop)

theorem destroyServer (carries : Carries R) : Ensures (R s) (s.destroyServer order) := by
  have unlisted : R s { s with alive := false, connections := [] } := carries.aside
  exact carries.after unlisted (carries.destroyConnections order)

end Carries
end Evk.System
