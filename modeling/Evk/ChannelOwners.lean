import Evk.EPoller
import Evk.EventLoop

/-! The owners of channels and their destructors. A loop has its wakeup channel and a
timer queue, acceptors come and go, and channels of others are registered and removed
as their owners like. `~EventLoop` destroys its members from the last to the first: the
timer queue, the poller, and then the wakeup channel. -/
namespace Evk

inductive Owner (ι : Type) where
  | wakeup
  | timerQueue
  | acceptor (i : ι)
  /-- A connection, or a user of the loop. -/
  | other (i : ι)
  deriving DecidableEq, Fintype, Repr

/-- What `~EventLoop` destroys next. -/
inductive Ending where
  | standing | timerQueue | poller | wakeupChannel | gone
  deriving DecidableEq, Repr

/-- The destructors of `TimerQueue` and `Acceptor` and then of the channel inside. -/
def EPoller.State.dispose [DecidableEq κ] (s : State κ) (ptr : κ) : Except Fault (State κ) := do
  let s ← s.update .disableAllEvent ptr
  let s ← s.remove ptr
  (s.channel ptr).destroy
  return s

structure ChannelOwners (ι : Type) where
  epoller : EPoller.State (Owner ι)
  status : ServerStatus
  /-- The channel whose `HandleEvent` is under way. -/
  handling : Option (Owner ι)
  /-- The channels that exist. -/
  live : Owner ι → Bool
  stage : Ending

namespace ChannelOwners

variable {ι : Type} [DecidableEq ι]

/-- The constructor of `EventLoop`; that of `TimerQueue` runs first. -/
def construct (fd : Owner ι → Nat) : Except Fault (ChannelOwners ι) := do
  let epoller ← (EPoller.State.construct fd).update .enableReadEvent .timerQueue
  let epoller ← epoller.update .enableReadEvent .wakeup
  return ⟨epoller,.kInitialized,none,fun owner => owner = .wakeup ∨ owner = .timerQueue,.standing⟩

inductive Action (ι : Type) where
  | run
  | poll (ready : List (Nat × PollEvents))
  | handleEvent (owner : Owner ι)
  | handled
  /-- `Run` returns. -/
  | leave
  | newAcceptor (i : ι) (fd : Nat)
  | listen (i : ι)
  | destroyAcceptor (i : ι)
  | newOther (i : ι) (fd : Nat)
  | updateOther (i : ι) (interest : Interest)
  | removeOther (i : ι)
  /-- The body of `~EventLoop`. -/
  | destroyLoop
  | destroyMember
  deriving DecidableEq, Repr

def setChannel (s : ChannelOwners ι) (owner : Owner ι) (ch : Channel) : ChannelOwners ι :=
  { s with epoller := { s.epoller with channel := Function.update s.epoller.channel owner ch } }

def new (s : ChannelOwners ι) (owner : Owner ι) (fd : Nat) : ChannelOwners ι :=
  { s.setChannel owner (.construct fd) with live := Function.update s.live owner true }

def destroyMember (s : ChannelOwners ι) : Except Fault (ChannelOwners ι) :=
  match s.stage with
  | .timerQueue => do
    let epoller ← s.epoller.dispose .timerQueue
    return { s with epoller, live := Function.update s.live .timerQueue false, stage := .poller }
  | .poller => .ok { s with stage := .wakeupChannel }
  | .wakeupChannel => do
    (s.epoller.channel .wakeup).destroy
    return { s with live := Function.update s.live .wakeup false, stage := .gone }
  | .standing | .gone => .ok s

def step (s : ChannelOwners ι) : Action ι → Except Fault (ChannelOwners ι)
  | .run => do
    assert (s.status ≠ .kRunning) .eventLoopRun
    return { s with status := .kRunning }
  | .poll ready => do
    let (epoller,_) ← s.epoller.poll ready
    return { s with epoller }
  | .handleEvent owner =>
    .ok { s.setChannel owner { s.epoller.channel owner with eventHandling := true } with handling := some owner }
  | .handled =>
    match s.handling with
    | some owner => .ok { s.setChannel owner
        { s.epoller.channel owner with eventHandling := false } with handling := none }
    | none => .ok s
  | .leave => .ok { s with status := .kStopped }
  | .newAcceptor i fd => .ok (s.new (.acceptor i) fd)
  | .listen i => do
    let epoller ← s.epoller.update .enableReadEvent (.acceptor i)
    return { s with epoller }
  | .destroyAcceptor i => do
    let epoller ← s.epoller.dispose (.acceptor i)
    return { s with epoller, live := Function.update s.live (.acceptor i) false }
  | .newOther i fd => .ok (s.new (.other i) fd)
  | .updateOther i interest => do
    let epoller ← s.epoller.update interest (.other i)
    return { s with epoller }
  | .removeOther i => do
    let epoller ← s.epoller.remove (.other i)
    return { s with epoller }
  | .destroyLoop => do
    assert (s.status = .kStopped) .eventLoopDestructor
    let epoller ← s.epoller.update .disableAllEvent .wakeup
    -- `wakeup_channel_->Remove()` is commented out in the source
    return { s with epoller, stage := .timerQueue }
  | .destroyMember => s.destroyMember

def destroys (s : ChannelOwners ι) : Action ι → Option (Owner ι)
  | .destroyAcceptor i => some (.acceptor i)
  | .destroyMember =>
    match s.stage with
    | .timerQueue => some .timerQueue
    | .wakeupChannel => some .wakeup
    | _ => none
  | _ => none

/-- Everything happens in the loop thread, and before the loop is destroyed. Descriptors
that are open are different, and nothing is destroyed in the middle of an event. -/
def enabled (s : ChannelOwners ι) : Action ι → Prop
  | .run => s.stage = .standing ∧ s.status ≠ .kRunning
  | .poll ready => s.stage = .standing ∧ s.status = .kRunning ∧ s.handling = none ∧ s.epoller.Reported ready
  | .handleEvent owner => s.stage = .standing ∧ s.status = .kRunning ∧ s.handling = none ∧ s.live owner = true
  | .handled => s.handling ≠ none
  | .leave => s.stage = .standing ∧ s.status = .kRunning ∧ s.handling = none
  | .newAcceptor i _ => s.stage = .standing ∧ s.live (.acceptor i) = false
  | .listen i => s.stage = .standing ∧ s.live (.acceptor i) = true ∧
      s.epoller.Allowed (.update .enableReadEvent (.acceptor i))
  | .destroyAcceptor i => s.stage = .standing ∧ s.live (.acceptor i) = true ∧ s.handling = none ∧
      s.epoller.Allowed (.update .disableAllEvent (.acceptor i))
  | .newOther i _ => s.stage = .standing ∧ s.live (.other i) = false
  | .updateOther i interest => s.stage = .standing ∧ s.live (.other i) = true ∧
      s.epoller.Allowed (.update interest (.other i))
  | .removeOther i => s.stage = .standing ∧ s.live (.other i) = true ∧ s.epoller.Allowed (.remove (.other i))
  | .destroyLoop => s.stage = .standing ∧ s.status = .kStopped ∧ s.handling = none
  | .destroyMember => s.stage ≠ .standing ∧ s.stage ≠ .gone

def machine (ι : Type) [DecidableEq ι] : Machine (ChannelOwners ι) (Action ι) Fault where
  initial s := ∃ fd, fd .wakeup ≠ fd .timerQueue ∧ construct fd = .ok s
  enabled := enabled
  step := step

instance [Fintype ι] (s : ChannelOwners ι) : (action : Action ι) → Decidable (s.enabled action)
  | .run | .newAcceptor _ _ | .newOther _ _ | .destroyMember => inferInstanceAs (Decidable (_ ∧ _))
  | .poll _ | .handleEvent _ | .destroyAcceptor _ => inferInstanceAs (Decidable (_ ∧ _ ∧ _ ∧ _))
  | .leave | .listen _ | .updateOther _ _ | .removeOther _ | .destroyLoop => inferInstanceAs (Decidable (_ ∧ _ ∧ _))
  | .handled => inferInstanceAs (Decidable (_ ≠ _))

instance [Fintype ι] (s : ChannelOwners ι) (action : Action ι) : Decidable ((machine ι).enabled s action) :=
  inferInstanceAs (Decidable (s.enabled action))

def Spared (s : ChannelOwners ι) (action : Action ι) : Prop := s.destroys action ≠ some .wakeup

instance (s : ChannelOwners ι) (action : Action ι) : Decidable (s.Spared action) := inferInstanceAs (Decidable (_ ≠ _))

end ChannelOwners

namespace EPoller.State

variable {κ : Type} [DecidableEq κ] {s s' : State κ} {ptr : κ}

omit [DecidableEq κ] in
/-- A channel that is not added to the loop is in none of the poller's records. -/
theorem InStep.unreferenced (inv : s.InStep) (unadded : (s.channel ptr).addedToLoop = false) (fd : Nat) :
    (s.slot fd).channelMap ≠ some ptr ∧ ∀ mask, (s.slot fd).interest ≠ some (ptr,mask) := by
  have unmapped : (s.slot fd).channelMap ≠ some ptr := by
    intro mapped
    have known : s.Known ptr := by rw [Known,inv.keyed fd ptr mapped]; exact mapped
    rw [(inv.known ptr known).2] at unadded
    cases unadded
  refine ⟨unmapped,fun mask listed => ?_⟩
  rw [inv.kernel] at listed
  obtain ⟨other,mapped,same⟩ := Option.map_eq_some_iff.mp listed
  cases same
  exact unmapped mapped

omit [DecidableEq κ] in
theorem allowed_of_known (known : s.Known ptr) : s.Allowed (.update interest ptr) := by
  intro other known' same
  rw [Known,same] at known'
  exact Option.some.inj (known'.symm.trans known)

theorem InStep.renew (inv : s.InStep) (unadded : (s.channel ptr).addedToLoop = false) (fd : Nat) :
    InStep { s with channel := Function.update s.channel ptr (.construct fd) } := by
  have unreferenced := inv.unreferenced unadded
  have knows (p : κ) : Known { s with channel := Function.update s.channel ptr (.construct fd) } p ↔ s.Known p := by
    by_cases same : p = ptr
    · subst same
      simp [Known,(unreferenced _).1]
    · simp [Known,same]
  refine ⟨?_,?_,?_,?_⟩
  · intro fd
    rw [inv.kernel]
    cases mapped : (s.slot fd).channelMap with
    | none => rfl
    | some other =>
      have apart : other ≠ ptr := by
        rintro rfl
        exact (unreferenced fd).1 mapped
      simp [apart]
  · intro fd other mapped
    have apart : other ≠ ptr := by
      rintro rfl
      exact (unreferenced fd).1 mapped
    simpa [apart] using inv.keyed fd other mapped
  · intro p known
    rw [knows] at known
    have apart : p ≠ ptr := by
      rintro rfl
      exact (unreferenced _).1 known
    simpa [apart] using inv.known p known
  · intro p unknown
    rw [knows] at unknown
    by_cases same : p = ptr
    · subst same
      simp [Channel.construct]
    · simpa [same] using inv.unknown p unknown

/-- The destructor of an owner that disables its channel and removes it goes through. -/
theorem InStep.dispose (inv : s.InStep) (allowed : s.Allowed (.update .disableAllEvent ptr))
    (quiet : (s.channel ptr).eventHandling = false) : ∃ s', s.dispose ptr = .ok s' ∧ s'.InStep ∧
      (s'.channel ptr).addedToLoop = false ∧ (s'.channel ptr).eventHandling = false ∧
      ∀ p ≠ ptr, s'.channel p = s.channel p := by
  obtain ⟨t,updated,inv₁,_,channel₁⟩ := inv.update allowed
  have idle : t.Allowed (.remove ptr) := by
    rw [Allowed,channel₁,Function.update_self]
    exact ⟨rfl,rfl⟩
  obtain ⟨s',removed,inv₂,_,_,channel₂⟩ := inv₁.remove idle
  have own : s'.channel ptr = { t.channel ptr with addedToLoop := false, index := kNew } := by
    rw [channel₂,Function.update_self]
  have still : (t.channel ptr).eventHandling = false := by
    rw [channel₁,Function.update_self]
    exact quiet
  have destroyed : (s'.channel ptr).destroy = .ok () := by simp [own,Channel.destroy,still]
  refine ⟨s',by simp [State.dispose,updated,removed,destroyed],inv₂,by rw [own],
    by rw [own]; exact still,fun p other => ?_⟩
  rw [channel₂,Function.update_of_ne other,channel₁,Function.update_of_ne other]

end EPoller.State

namespace ChannelOwners

variable {ι : Type} [DecidableEq ι] {s s' : ChannelOwners ι} {owner : Owner ι}

structure Inv (s : ChannelOwners ι) : Prop where
  inStep : s.epoller.InStep
  unadded : ∀ owner, s.live owner = false → (s.epoller.channel owner).addedToLoop = false
  quiet : ∀ owner, (s.epoller.channel owner).eventHandling = true → s.handling = some owner
  wakeup : s.stage = .standing → (s.epoller.channel .wakeup).addedToLoop = true
  timerQueue : s.stage = .standing ∨ s.stage = .timerQueue → (s.epoller.channel .timerQueue).addedToLoop = true
  rested : s.stage ≠ .standing → s.handling = none

/-- The timer queue's channel is registered first, so the second registration is within the rules. -/
theorem construct_inv {fd : Owner ι → Nat} (distinct : fd .wakeup ≠ fd .timerQueue)
    (constructed : construct fd = .ok s) :
    s.Inv := by
  have start := EPoller.State.construct_inStep fd
  have first : (EPoller.State.construct fd).Allowed (.update .enableReadEvent .timerQueue) := by
    intro other known
    simp [EPoller.State.Known,EPoller.State.construct,Slot.empty] at known
  obtain ⟨t,enabled,inv₁,_,channel₁⟩ := start.update first
  have second : t.Allowed (.update .enableReadEvent .wakeup) := by
    intro other known same
    have added := (inv₁.known other known).2
    by_contra apart
    by_cases timer : other = .timerQueue
    · subst timer
      simp only [channel₁,Function.update_self,ne_eq,reduceCtorEq,not_false_eq_true,Function.update_of_ne] at same
      exact distinct same.symm
    · rw [channel₁,Function.update_of_ne timer] at added
      cases added
  obtain ⟨e,enabled',inv₂,_,channel₂⟩ := inv₁.update second
  simp only [construct,enabled,enabled',ok_bind,pure_eq_ok,Except.ok.injEq] at constructed
  subst constructed
  refine ⟨inv₂,?_,?_,?_,?_,?_⟩
  all_goals dsimp only
  · intro owner dead
    have apart : owner ≠ .wakeup ∧ owner ≠ .timerQueue := by simpa using dead
    rw [channel₂,Function.update_of_ne apart.1,channel₁,Function.update_of_ne apart.2]
    rfl
  · intro owner handling
    simp only [channel₂,channel₁,Function.update_apply] at handling
    split at handling
    · cases handling
    · split at handling <;> cases handling
  · simp [channel₂]
  · simp [channel₂,channel₁]
  · simp

omit [DecidableEq ι] in
/-- An operation of the poller that leaves the flags alone where they matter. -/
theorem Inv.replace (inv : s.Inv) (inStep : EPoller.State.InStep e)
    (flags : ∀ p, (e.channel p).eventHandling = (s.epoller.channel p).eventHandling)
    (unadded : ∀ p, s.live p = false → (s.epoller.channel p).addedToLoop = false → (e.channel p).addedToLoop = false)
    (kept : ∀ p, p = .wakeup ∨ p = .timerQueue → (s.epoller.channel p).addedToLoop = true →
      (e.channel p).addedToLoop = true) :
    Inv { s with epoller := e } where
  inStep := inStep
  unadded p dead := unadded p dead (inv.unadded p dead)
  quiet p handling := inv.quiet p ((flags p).symm.trans handling)
  wakeup standing := kept _ (.inl rfl) (inv.wakeup standing)
  timerQueue early := kept _ (.inr rfl) (inv.timerQueue early)
  rested := inv.rested

theorem Inv.update (inv : s.Inv) (alive : s.live owner = true) (allowed : s.epoller.Allowed (.update interest owner)) :
    ∃ epoller, s.epoller.update interest owner = .ok epoller ∧ Inv { s with epoller } := by
  obtain ⟨e,updated,inStep,_,channel⟩ := inv.inStep.update allowed
  refine ⟨e,updated,inv.replace inStep ?_ ?_ ?_⟩
  · intro p
    rw [channel,Function.update_apply]
    split <;> simp [*]
  · intro p dead unadded
    have other : p ≠ owner := by
      rintro rfl
      rw [alive] at dead
      cases dead
    rw [channel,Function.update_of_ne other]
    exact unadded
  · intro p _ added
    rw [channel,Function.update_apply]
    split
    · rfl
    · exact added

theorem Inv.removeOther (inv : s.Inv) (allowed : s.epoller.Allowed (.remove (.other i))) :
    ∃ epoller, s.epoller.remove (.other i) = .ok epoller ∧ Inv { s with epoller } := by
  obtain ⟨e,removed,inStep,_,_,channel⟩ := inv.inStep.remove allowed
  refine ⟨e,removed,inv.replace inStep ?_ ?_ ?_⟩
  · intro p
    rw [channel,Function.update_apply]
    split <;> simp [*]
  · intro p _ unadded
    rw [channel,Function.update_apply]
    split
    · rfl
    · exact unadded
  · rintro p (rfl | rfl) added
    all_goals simpa [channel] using added

theorem Inv.poll (inv : s.Inv) (reported : s.epoller.Reported ready) :
    ∃ epoller active, s.epoller.poll ready = .ok (epoller,active) ∧ Inv { s with epoller } := by
  obtain ⟨e,polled,inStep,channel⟩ := inv.inStep.poll reported
  refine ⟨e,_,polled,inv.replace inStep ?_ ?_ ?_⟩
  all_goals
    intro p
    obtain ⟨_,same⟩ := channel p
    simp [same]

theorem Inv.new (inv : s.Inv) (dead : s.live owner = false) (user : owner ≠ .wakeup ∧ owner ≠ .timerQueue) (fd : Nat) :
    (s.new owner fd).Inv where
  inStep := inv.inStep.renew (inv.unadded owner dead) fd
  unadded p dead := by
    by_cases same : p = owner
    · subst same
      simp [ChannelOwners.new] at dead
    · simp only [ChannelOwners.new,Function.update_of_ne same] at dead
      simpa [ChannelOwners.new,setChannel,same] using inv.unadded p dead
  quiet p handling := by
    by_cases same : p = owner
    · simp [ChannelOwners.new,setChannel,same,Channel.construct] at handling
    · exact inv.quiet p (by simpa [ChannelOwners.new,setChannel,same] using handling)
  wakeup standing := by simpa [ChannelOwners.new,setChannel,user.1.symm] using inv.wakeup standing
  timerQueue early := by simpa [ChannelOwners.new,setChannel,user.2.symm] using inv.timerQueue early
  rested := inv.rested

theorem Inv.handle (inv : s.Inv) (flag : Bool) (now : Option (Owner ι)) (standing : now ≠ none → s.stage = .standing)
    (marks : ∀ p, ((s.setChannel owner
      { s.epoller.channel owner with eventHandling := flag }).epoller.channel p).eventHandling = true →
      now = some p) :
    Inv { s.setChannel owner { s.epoller.channel owner with eventHandling := flag } with handling := now } := by
  have marked : s.epoller.Marked
      (s.setChannel owner { s.epoller.channel owner with eventHandling := flag }).epoller := by
    refine ⟨rfl,fun p => ?_⟩
    by_cases same : p = owner
    · exact ⟨(s.epoller.channel p).revents,flag,by simp [setChannel,same]⟩
    · exact ⟨(s.epoller.channel p).revents,(s.epoller.channel p).eventHandling,by simp [setChannel,same]⟩
  have added (p : Owner ι) : ((s.setChannel owner
    { s.epoller.channel owner with eventHandling := flag }).epoller.channel p).addedToLoop =
      (s.epoller.channel p).addedToLoop := by
    obtain ⟨_,_,same⟩ := marked.2 p
    rw [same]
  refine ⟨inv.inStep.marked marked,fun p dead => (added p).trans (inv.unadded p dead),marks,?_,?_,?_⟩
  · exact fun early => (added _).trans (inv.wakeup early)
  · exact fun early => (added _).trans (inv.timerQueue early)
  · intro late
    by_contra busy
    exact late (standing busy)

theorem Inv.dispose (inv : s.Inv) (allowed : s.epoller.Allowed (.update .disableAllEvent owner))
    (idle : s.handling = none)
    (wakeup : owner ≠ .wakeup) (next : Ending) (timer : owner = .timerQueue → next = .poller)
    (later : next = .poller ∨ next = s.stage) : ∃ epoller, s.epoller.dispose owner = .ok epoller ∧
      Inv { s with epoller, live := Function.update s.live owner false, stage := next } := by
  have quiet (p : Owner ι) : (s.epoller.channel p).eventHandling = false := by
    by_contra handling
    rw [inv.quiet p (by simpa using handling)] at idle
    cases idle
  obtain ⟨e,disposed,inStep,unadded,still,others⟩ := inv.inStep.dispose allowed (quiet owner)
  refine ⟨e,disposed,inStep,?_,?_,?_,?_,fun _ => idle⟩
  all_goals dsimp only
  · intro p dead
    by_cases same : p = owner
    · rw [same]
      exact unadded
    · rw [Function.update_of_ne same] at dead
      rw [others p same]
      exact inv.unadded p dead
  · intro p handling
    by_cases same : p = owner
    · rw [same,still] at handling
      cases handling
    · rw [others p same,quiet] at handling
      cases handling
  · rintro rfl
    rw [others _ wakeup.symm]
    exact inv.wakeup (later.resolve_left (by simp)).symm
  · intro early
    have before : next ≠ .poller := by rcases early with rfl | rfl <;> simp
    rw [others _ fun same => before (timer same.symm)]
    rw [later.resolve_left before] at early
    exact inv.timerQueue early

theorem Inv.handleEvent (inv : s.Inv) (enabled : s.enabled (.handleEvent owner)) :
    ∃ s', s.step (.handleEvent owner) = .ok s' ∧ s'.Inv := by
  refine ⟨_,rfl,inv.handle true (some owner) (fun _ => enabled.1) fun p handling => ?_⟩
  by_cases same : p = owner
  · rw [same]
  · have busy := inv.quiet p (by simpa [setChannel,same] using handling)
    rw [enabled.2.2.1] at busy
    cases busy

theorem Inv.handled (inv : s.Inv) (now : s.handling = some owner) : ∃ s', s.step .handled = .ok s' ∧ s'.Inv := by
  refine ⟨_,by simp only [ChannelOwners.step,now]; rfl,inv.handle false none (fun busy =>
    absurd rfl busy) fun p handling => ?_⟩
  by_cases same : p = owner
  · simp [setChannel,same] at handling
  · have busy := inv.quiet p (by simpa [setChannel,same] using handling)
    rw [now,Option.some.injEq] at busy
    exact absurd busy.symm same

/-- The body of `~EventLoop` disables the wakeup channel's events. -/
theorem Inv.destroyLoop (inv : s.Inv) (enabled : s.enabled .destroyLoop) :
    ∃ s', s.step .destroyLoop = .ok s' ∧ s'.Inv := by
  obtain ⟨standing,stopped,idle⟩ := enabled
  have known := inv.inStep.known_of_added (inv.wakeup standing)
  have alive : s.live .wakeup = true := by
    by_contra dead
    have unadded := inv.unadded .wakeup (by simpa using dead)
    rw [inv.wakeup standing] at unadded
    cases unadded
  have allowed : s.epoller.Allowed (.update .disableAllEvent .wakeup) := EPoller.State.allowed_of_known known
  obtain ⟨e,updated,inv'⟩ := inv.update alive allowed
  refine ⟨{ s with epoller := e, stage := .timerQueue },by simp [ChannelOwners.step,stopped,updated],?_⟩
  exact ⟨inv'.inStep,inv'.unadded,inv'.quiet,by simp,fun _ => inv'.timerQueue (.inl standing),fun _ => idle⟩

/-- The members before the wakeup channel go without a failed assertion. -/
theorem Inv.destroyMember (inv : s.Inv) (enabled : s.enabled .destroyMember) (spared : s.Spared .destroyMember) :
    ∃ s', s.step .destroyMember = .ok s' ∧ s'.Inv := by
  have idle := inv.rested enabled.1
  cases stage : s.stage with
  | standing => exact absurd stage enabled.1
  | gone => exact absurd stage enabled.2
  | wakeupChannel => simp [Spared,destroys,stage] at spared
  | timerQueue =>
    have known := inv.inStep.known_of_added (inv.timerQueue (.inr stage))
    obtain ⟨e,disposed,inv'⟩ := inv.dispose (EPoller.State.allowed_of_known known) idle
      (by simp) .poller (by simp) (.inl rfl)
    exact ⟨_,by simp only [ChannelOwners.step,ChannelOwners.destroyMember,stage,disposed,ok_bind,pure_eq_ok],inv'⟩
  | poller =>
    refine ⟨{ s with stage := .wakeupChannel },by simp only [ChannelOwners.step,ChannelOwners.destroyMember,stage],?_⟩
    exact ⟨inv.inStep,inv.unadded,inv.quiet,by simp,by simp,fun _ => idle⟩

/-- Every step goes through, that of the wakeup channel's destructor apart. -/
theorem Inv.step (inv : s.Inv) (enabled : s.enabled action) (spared : s.Spared action) :
    ∃ s', s.step action = .ok s' ∧ s'.Inv := by
  cases action with
  | run =>
    refine ⟨{ s with status := .kRunning },by simp [ChannelOwners.step,enabled.2],?_⟩
    exact ⟨inv.inStep,inv.unadded,inv.quiet,inv.wakeup,inv.timerQueue,inv.rested⟩
  | poll ready =>
    obtain ⟨e,_,polled,inv'⟩ := inv.poll enabled.2.2.2
    exact ⟨_,by simp [ChannelOwners.step,polled],inv'⟩
  | handleEvent owner => exact inv.handleEvent enabled
  | handled =>
    cases now : s.handling with
    | none => exact absurd now enabled
    | some owner => exact inv.handled now
  | leave => exact ⟨_,rfl,⟨inv.inStep,inv.unadded,inv.quiet,inv.wakeup,inv.timerQueue,inv.rested⟩⟩
  | newAcceptor i fd => exact ⟨_,rfl,inv.new enabled.2 (by simp) fd⟩
  | listen i =>
    obtain ⟨e,updated,inv'⟩ := inv.update enabled.2.1 enabled.2.2
    exact ⟨_,by simp [ChannelOwners.step,updated],inv'⟩
  | destroyAcceptor i =>
    obtain ⟨e,disposed,inv'⟩ := inv.dispose enabled.2.2.2 enabled.2.2.1 (by simp) s.stage (by simp) (.inr rfl)
    exact ⟨_,by simp [ChannelOwners.step,disposed],inv'⟩
  | newOther i fd => exact ⟨_,rfl,inv.new enabled.2 (by simp) fd⟩
  | updateOther i interest =>
    obtain ⟨e,updated,inv'⟩ := inv.update enabled.2.1 enabled.2.2
    exact ⟨_,by simp [ChannelOwners.step,updated],inv'⟩
  | removeOther i =>
    obtain ⟨e,removed,inv'⟩ := inv.removeOther enabled.2.2
    exact ⟨_,by simp [ChannelOwners.step,removed],inv'⟩
  | destroyLoop => exact inv.destroyLoop enabled
  | destroyMember => exact inv.destroyMember enabled spared

theorem reachable_inv (reachable : ((machine ι).restrict Spared).Reachable s) : s.Inv := by
  induction reachable with
  | initial first =>
    obtain ⟨fd,distinct,constructed⟩ := first
    exact construct_inv distinct constructed
  | step _ enabled stepped inv =>
    obtain ⟨t,stepped',inv'⟩ := inv.step enabled.1 enabled.2
    cases stepped.symm.trans stepped'
    exact inv'

theorem destroys_dead (destroys : s.destroys action = some owner) (stepped : s.step action = .ok s') :
    s'.live owner = false := by
  cases action with
  | destroyAcceptor i =>
    cases destroys
    simp only [step,bind_ok_iff] at stepped
    obtain ⟨_,_,⟨⟩⟩ := stepped
    simp
  | destroyMember =>
    cases stage : s.stage with
    | timerQueue =>
      simp only [ChannelOwners.destroys,stage,Option.some.injEq] at destroys
      simp only [step,destroyMember,stage,bind_ok_iff] at stepped
      obtain ⟨_,_,⟨⟩⟩ := stepped
      simp [← destroys]
    | wakeupChannel =>
      simp only [ChannelOwners.destroys,stage,Option.some.injEq] at destroys
      simp only [step,destroyMember,stage,bind_ok_iff] at stepped
      obtain ⟨_,_,⟨⟩⟩ := stepped
      simp [← destroys]
    | _ => simp [ChannelOwners.destroys,stage] at destroys
  | _ => cases destroys

/-- Whatever was destroyed, the wakeup channel apart, was unregistered first: no record of
the poller refers to it, and the assertions of its destructor held. -/
theorem destroyed_unregistered (reachable : ((machine ι).restrict Spared).Reachable s) :
    (∀ owner, s.live owner = false → (s.epoller.channel owner).addedToLoop = false ∧
      ∀ fd, (s.epoller.slot fd).channelMap ≠ some owner ∧ ∀ mask, (s.epoller.slot fd).interest ≠ some (owner,mask)) ∧
    ∀ action owner, s.enabled action → s.destroys action = some owner → owner ≠ .wakeup →
      ∃ s', s.step action = .ok s' ∧ s'.live owner = false ∧ (s'.epoller.channel owner).addedToLoop = false := by
  have inv := reachable_inv reachable
  constructor
  · intro owner dead
    have unadded := inv.unadded owner dead
    exact ⟨unadded,inv.inStep.unreferenced unadded⟩
  · intro action owner enabled destroys other
    have spared : s.Spared action := by
      rw [Spared,destroys]
      simpa using other
    obtain ⟨s',stepped,inv'⟩ := inv.step enabled spared
    have dead := destroys_dead destroys stepped
    exact ⟨s',stepped,dead,inv'.unadded owner dead⟩

/-- One acceptor listens and one does not; both are destroyed when the loop has stopped,
and then the loop's timer queue with its poller still there. -/
theorem destroyed_unregistered_stopped : ∃ s : ChannelOwners Bool, ((machine Bool).restrict Spared).Reachable s ∧
    s.stage = .poller ∧ s.live (.acceptor false) = false ∧ s.live (.acceptor true) = false ∧
      s.live .timerQueue = false ∧
    ∀ fd, (s.epoller.slot fd).channelMap ≠ some .timerQueue := by
  let fd : Owner Bool → Nat := fun owner => if owner = .wakeup then 3 else 4
  let schedule : List (Action Bool) := [.newAcceptor false 6,.newAcceptor true 7,.listen true,.run,
    .poll [(7,{ pollin := true })],.handleEvent (.acceptor true),.handled,.leave,.destroyAcceptor false,
    .destroyAcceptor true,.destroyLoop,.destroyMember]
  obtain ⟨start,constructed⟩ : ∃ start, construct fd = .ok start := ⟨_,rfl⟩
  have reachable : ((machine Bool).restrict Spared).Reachable (schedule.foldl (machine Bool).advance start) :=
    Machine.Reachable.follow (m := (machine Bool).restrict Spared) (.initial ⟨fd,by decide,constructed⟩) schedule (by
      cases constructed; decide +kernel)
  have gone : (schedule.foldl (machine Bool).advance start).live .timerQueue = false := by
    cases constructed; decide +kernel
  exact ⟨_,reachable,by cases constructed; decide +kernel,by cases constructed; decide +kernel,
    by cases constructed; decide +kernel,gone,fun fd =>
      (((destroyed_unregistered reachable).1 .timerQueue gone).2 fd).1⟩

/-- The wakeup channel is disabled and not removed, so it is still marked as added when
its destructor runs, after every run of the loop. -/
theorem wakeup_destroyed_added : ∃ s : ChannelOwners Unit, (machine Unit).Reachable s ∧ s.stage = .wakeupChannel ∧
    (s.epoller.channel .wakeup).addedToLoop = true ∧
    (machine Unit).step s .destroyMember = .error (.assertion .channelDestructor) := by
  let fd : Owner Unit → Nat := fun owner => if owner = .wakeup then 3 else 4
  let schedule : List (Action Unit) := [.run,.leave,.destroyLoop,.destroyMember,.destroyMember]
  obtain ⟨start,constructed⟩ : ∃ start, construct fd = .ok start := ⟨_,rfl⟩
  have reachable : (machine Unit).Reachable (schedule.foldl (machine Unit).advance start) :=
    Machine.Reachable.follow (m := machine Unit) (.initial ⟨fd,by decide,constructed⟩) schedule (by
      cases constructed; decide +kernel)
  exact ⟨_,reachable,by cases constructed; decide +kernel,by cases constructed; decide +kernel,
    Machine.step_failure (by cases constructed; decide +kernel)⟩

end ChannelOwners
end Evk
