import Evk.Poller

/-! The two backends side by side, under the same operations on the same channels.
They watch the same descriptors for the same events until a channel is enabled again
after all its events were disabled, or registered again after its removal. -/
namespace Evk

structure Backends (κ : Type) where
  epoller : EPoller.State κ
  poller : Poller.State κ

namespace Backends

variable {κ : Type} [DecidableEq κ]

inductive Action (κ : Type) where
  | update (interest : Interest) (ptr : κ)
  | remove (ptr : κ)
  deriving DecidableEq, Repr

def Action.onEPoller (s : EPoller.State κ) : Action κ → Except Fault (EPoller.State κ)
  | .update interest ptr => s.update interest ptr
  | .remove ptr => s.remove ptr

def Action.onPoller (s : Poller.State κ) : Action κ → Except Fault (Poller.State κ)
  | .update interest ptr => s.update interest ptr
  | .remove ptr => s.remove ptr

def step (s : Backends κ) (action : Action κ) : Except Fault (Backends κ) := do
  let epoller ← action.onEPoller s.epoller
  let poller ← action.onPoller s.poller
  return ⟨epoller,poller⟩

/-- Channels of distinct descriptors, and the operations that the epoll backend executes. -/
def machine (κ : Type) [DecidableEq κ] : Machine (Backends κ) (Action κ) Fault where
  initial s := ∃ fd : κ → Nat, Function.Injective fd ∧ s = ⟨.construct fd,.construct fd⟩
  enabled s action := (action.onEPoller s.epoller).toBool = true
  step := step

instance (s : Backends κ) (action : Action κ) : Decidable ((machine κ).enabled s action) :=
  inferInstanceAs (Decidable (_ = true))

/-- No channel is registered again after its removal, and none whose entry the poll
backend has negated is given events again. -/
def Steady (s : Backends κ) : Action κ → Prop
  | .update interest ptr => ¬s.poller.Retired ptr ∧ (s.poller.Known ptr → ∀ pfd ∈ s.poller.entryOf ptr, pfd.fd < 0 →
      interest.mask (s.poller.channel ptr).events = kNone)
  | .remove _ => True

instance (s : Backends κ) : (action : Action κ) → Decidable (s.Steady action)
  | .update _ _ => inferInstanceAs (Decidable (_ ∧ _))
  | .remove _ => inferInstanceAs (Decidable True)

/-- The channels agree up to their index, and only entries without events are negated. -/
structure Aligned (s : Backends κ) : Prop where
  epoller : s.epoller.InStep
  poller : s.poller.Indexed
  fd : ∀ ptr, (s.epoller.channel ptr).fd = (s.poller.channel ptr).fd
  events : ∀ ptr, (s.epoller.channel ptr).events = (s.poller.channel ptr).events
  added : ∀ ptr, (s.epoller.channel ptr).addedToLoop = (s.poller.channel ptr).addedToLoop
  watched : ∀ ptr pfd, s.poller.Known ptr → s.poller.entryOf ptr = some pfd → pfd.fd < 0 →
    (s.poller.channel ptr).events = kNone

variable {s s' : Backends κ} {ptr : κ}

omit [DecidableEq κ] in
theorem construct_aligned {fd : κ → Nat} (distinct : Function.Injective fd) :
    (⟨.construct fd,.construct fd⟩ : Backends κ).Aligned where
  epoller := EPoller.State.construct_inStep fd
  poller := Poller.State.construct_indexed distinct
  fd _ := rfl
  events _ := rfl
  added _ := rfl
  watched ptr _ known := by simp [Poller.State.Known,Poller.State.construct] at known

omit [DecidableEq κ] in
theorem Aligned.known (aligned : s.Aligned) : s.epoller.Known ptr ↔ s.poller.Known ptr := by
  rw [aligned.poller.added,← aligned.added]
  constructor
  · exact fun known => (aligned.epoller.known ptr known).2
  · exact fun added => aligned.epoller.known_of_added added

omit [DecidableEq κ] in
theorem Aligned.update_allowed (aligned : s.Aligned) : s.epoller.Allowed (.update interest ptr) := by
  intro other _ same
  apply aligned.poller.apart
  rw [← aligned.fd,← aligned.fd,same]

theorem Aligned.remove_allowed (aligned : s.Aligned) (removed : s.epoller.remove ptr = .ok e) :
    s.epoller.Allowed (.remove ptr) := by
  obtain ⟨idle,mapped⟩ := EPoller.State.remove_ok removed
  obtain ⟨other,mapped⟩ := Option.ne_none_iff_exists'.mp mapped
  have same : other = ptr := by
    apply aligned.poller.apart
    rw [← aligned.fd,← aligned.fd,aligned.epoller.keyed _ _ mapped]
  subst same
  exact ⟨(aligned.epoller.known other mapped).2,idle⟩

theorem Aligned.update (aligned : s.Aligned) (steady : s.Steady (.update interest ptr)) :
    ∃ s', s.step (.update interest ptr) = .ok s' ∧ s'.Aligned := by
  obtain ⟨fresh,kept⟩ := steady
  have allowed : s.epoller.Allowed (.update interest ptr) := aligned.update_allowed
  obtain ⟨e,executed,inStep,_,echannel⟩ := aligned.epoller.update allowed
  obtain ⟨p,pfd,executed',indexed,⟨index,pchannel⟩,others,entry,negated⟩ :=
    aligned.poller.update fresh interest
  refine ⟨⟨e,p⟩,by simp [step,Action.onEPoller,Action.onPoller,executed,executed'],inStep,indexed,?_,?_,?_,?_⟩
  all_goals dsimp only
  · intro q
    rw [echannel,pchannel,Function.update_apply,Function.update_apply]
    split <;> simp [aligned.fd]
  · intro q
    rw [echannel,pchannel,Function.update_apply,Function.update_apply]
    split <;> simp [aligned.events]
  · intro q
    rw [echannel,pchannel,Function.update_apply,Function.update_apply]
    split <;> simp [aligned.added]
  · intro q entry' known there below
    by_cases same : q = ptr
    · subst same
      obtain rfl := Option.some.inj (there.symm.trans entry)
      rw [pchannel,Function.update_self]
      rcases negated below with none | ⟨known,old,before,below⟩
      · exact none
      · exact kept known old before below
    · have channel : p.channel q = s.poller.channel q := by rw [pchannel,Function.update_of_ne same]
      have known : s.poller.Known q := by
        rw [aligned.poller.added,← channel]
        exact (indexed.added q).mp known
      rw [channel]
      exact aligned.watched q entry' known (by rw [← others q same known,there]) below

theorem Aligned.remove (aligned : s.Aligned) (executed : s.epoller.remove ptr = .ok e) :
    ∃ s', s.step (.remove ptr) = .ok s' ∧ s'.Aligned := by
  have allowed := aligned.remove_allowed executed
  have known : s.poller.Known ptr := aligned.known.mp (aligned.epoller.known_of_added allowed.1)
  have idle : (s.poller.channel ptr).events = kNone := (aligned.events ptr).symm.trans allowed.2
  obtain ⟨t,removed,inStep,_,_,echannel⟩ := aligned.epoller.remove allowed
  obtain ⟨p,removed',erased⟩ := Poller.State.remove_known aligned.poller known idle
  have indexed := erased.indexed aligned.poller known
  refine ⟨⟨t,p⟩,by simp [step,Action.onEPoller,Action.onPoller,removed,removed'],inStep,indexed,?_,?_,?_,?_⟩
  all_goals intro q
  all_goals dsimp only
  · rw [erased.fd,← aligned.fd,echannel,Function.update_apply]
    split <;> simp [*]
  · rw [erased.events,← aligned.events,echannel,Function.update_apply]
    split <;> simp [*]
  · rw [erased.addedToLoop,← aligned.added,echannel,Function.update_apply]
    split <;> simp
  · intro entry there found below
    obtain ⟨other,before⟩ := (erased.known aligned.poller).mp there
    rw [(erased.entryOf_other aligned.poller known before other).2] at found
    rw [erased.events]
    exact aligned.watched q entry before found below

/-- Whatever the epoll backend executes under the condition, both execute. -/
theorem Aligned.step (aligned : s.Aligned) (executes : (machine κ).enabled s action) (steady : s.Steady action) :
    ∃ s', s.step action = .ok s' ∧ s'.Aligned := by
  cases action with
  | update interest ptr => exact aligned.update steady
  | remove ptr =>
    cases executed : s.epoller.remove ptr with
    | ok e => exact aligned.remove executed
    | error e => simp [machine,Action.onEPoller,executed,Except.toBool] at executes

theorem reachable_aligned (reachable : ((machine κ).restrict Steady).Reachable s) : s.Aligned := by
  induction reachable with
  | initial first =>
    obtain ⟨fd,distinct,rfl⟩ := first
    exact construct_aligned distinct
  | step _ enabled stepped aligned =>
    obtain ⟨t,stepped',aligned'⟩ := aligned.step enabled.1 enabled.2
    cases stepped.symm.trans stepped'
    exact aligned'

/-- The poll backend watches a descriptor for these events, and maps it to the channel. -/
def Watches (s : Poller.State κ) (fd : Nat) (ptr : κ) (mask : PollEvents) : Prop :=
  (∃ pfd ∈ s.pollfdList, pfd.fd = fd ∧ pfd.events = mask) ∧ s.channelMap[(fd : Int)]? = some ptr

omit [DecidableEq κ] in
/-- The kernel's interest set and the entries of `pollfd_list_` that poll(2) looks at are
the same where there are events of interest. -/
theorem Aligned.watches {fd : Nat} (aligned : s.Aligned) (events : mask ≠ kNone) :
    (s.epoller.slot fd).interest = some (ptr,mask) ↔ Watches s.poller fd ptr mask := by
  have kernel := aligned.epoller.kernel fd
  constructor
  · intro listed
    rw [listed] at kernel
    obtain ⟨own,mapped,same⟩ := Option.map_eq_some_iff.mp kernel.symm
    cases same
    have here := aligned.epoller.keyed fd ptr mapped
    have known : s.poller.Known ptr := aligned.known.mp (by rw [EPoller.State.Known,here]; exact mapped)
    obtain ⟨_,pfd,there,stands,masked⟩ := aligned.poller.entry ptr known
    have upright : ¬pfd.fd < 0 := fun below =>
      events ((aligned.events ptr).trans (aligned.watched ptr pfd known there below))
    rw [aligned.fd] at here
    refine ⟨⟨pfd,List.mem_of_getElem? there,by omega,?_⟩,?_⟩
    · rw [masked,aligned.events]
    · rw [← here]
      exact known
  · rintro ⟨⟨pfd,among,fd_eq,masked⟩,mapped⟩
    obtain ⟨own,known,there,own_fd⟩ := aligned.poller.mapped_of_entry among (by omega)
    have own_fd : (s.poller.channel own).fd = fd := by omega
    have same : own = ptr := by
      rw [Poller.State.Known,own_fd] at known
      exact Option.some.inj (known.symm.trans mapped)
    subst same
    obtain ⟨_,entry,there',_,carried⟩ := aligned.poller.entry own known
    obtain rfl := Option.some.inj (there.symm.trans there')
    have registered : s.epoller.Known own := aligned.known.mpr known
    rw [EPoller.State.Known,aligned.fd,own_fd] at registered
    rw [kernel,registered,Option.map_some,aligned.events,← carried,masked]

/-- `epoll_wait` reports every descriptor of the interest set that is ready. -/
def Complete (s : EPoller.State κ) (ready : Nat → PollEvents) (reported : List (Nat × PollEvents)) : Prop :=
  s.Reported reported ∧ ∀ fd revents, (fd,revents) ∈ reported ↔
    revents ≠ kNone ∧ ∃ entry ∈ (s.slot fd).interest, revents = (ready fd).reported entry.2

omit [DecidableEq κ] in
theorem Complete.active {s : EPoller.State κ} (complete : Complete s ready reported) :
    ptr ∈ (s.eventList reported).map Prod.fst ↔
      ∃ fd mask, (s.slot fd).interest = some (ptr,mask) ∧ (ready fd).reported mask ≠ kNone := by
  simp only [EPoller.State.eventList,List.mem_map,List.mem_filterMap,Option.map_eq_some_iff,Prod.exists,Prod.mk.injEq]
  constructor
  · rintro ⟨_,_,⟨fd,revents,among,own,mask,listed,rfl,rfl⟩,rfl⟩
    obtain ⟨happened,entry,listed',rfl⟩ := (complete.2 fd revents).mp among
    cases listed.symm.trans listed'
    exact ⟨fd,mask,listed,happened⟩
  · rintro ⟨fd,mask,listed,happened⟩
    have among := (complete.2 fd _).mpr ⟨happened,_,listed,rfl⟩
    exact ⟨ptr,_,⟨fd,_,among,ptr,mask,listed,rfl,rfl⟩,rfl⟩

/-- The same readiness makes both backends dispatch the same channels, among those with
events of interest. -/
theorem Aligned.dispatch (aligned : s.Aligned) (complete : Complete s.epoller ready reported) :
    ∃ e p active active', s.epoller.poll reported = .ok (e,active) ∧ s.poller.poll ready = .ok (p,active') ∧
      ∀ ptr, (s.epoller.channel ptr).events ≠ kNone → (ptr ∈ active ↔ ptr ∈ active') := by
  obtain ⟨e,polled,_⟩ := aligned.epoller.poll complete.1
  obtain ⟨p,active',polled',_,members⟩ := aligned.poller.poll ready
  refine ⟨e,p,_,active',polled,polled',fun ptr events => ?_⟩
  rw [members,complete.active]
  constructor
  · rintro ⟨fd,mask,listed,happened⟩
    have masked : mask ≠ kNone := by
      rw [aligned.epoller.kernel] at listed
      obtain ⟨_,_,same⟩ := Option.map_eq_some_iff.mp listed
      cases same
      exact events
    obtain ⟨⟨pfd,present,here,carried⟩,mapped⟩ := (aligned.watches masked).mp listed
    refine ⟨pfd,present,?_,by rw [here]; exact mapped⟩
    simpa [Poller.State.systemPoll,here,carried] using happened
  · rintro ⟨pfd,present,happened,mapped⟩
    have upright : ¬pfd.fd < 0 := by
      intro negated
      simp [Poller.State.systemPoll,negated] at happened
    obtain ⟨own,known,there,here⟩ := aligned.poller.mapped_of_entry present (by omega)
    obtain rfl : own = ptr := by
      rw [Poller.State.Known,here] at known
      exact Option.some.inj (known.symm.trans mapped)
    obtain ⟨_,entry,there',_,carried⟩ := aligned.poller.entry own known
    obtain rfl := Option.some.inj (there.symm.trans there')
    rw [aligned.events,← carried] at events
    refine ⟨_,_,(aligned.watches events).mpr ⟨⟨pfd,present,here.symm,rfl⟩,known⟩,?_⟩
    simpa [Poller.State.systemPoll,upright,← here] using happened

/-- In every run that keeps to the condition, the poll backend executes what the epoll
backend executes, watches the same descriptors for the same events, and dispatches the same
channels when these are ready. -/
theorem backends_agree (reachable : ((machine κ).restrict Steady).Reachable s) :
    (∀ action, (action.onEPoller s.epoller).toBool = true → s.Steady action → ∃ p, action.onPoller s.poller = .ok p) ∧
    (∀ fd mask, mask ≠ kNone → ((∃ ptr, (s.epoller.slot fd).interest = some (ptr,mask)) ↔
      ∃ pfd ∈ s.poller.pollfdList, pfd.fd = fd ∧ pfd.events = mask)) ∧
    ∀ ready reported, Complete s.epoller ready reported → ∃ e p active active',
      s.epoller.poll reported = .ok (e,active) ∧ s.poller.poll ready = .ok (p,active') ∧
      ∀ ptr, (s.epoller.channel ptr).events ≠ kNone → (ptr ∈ active ↔ ptr ∈ active') := by
  have aligned := reachable_aligned reachable
  refine ⟨?_,?_,fun _ _ complete => aligned.dispatch complete⟩
  · intro action executes steady
    obtain ⟨s',stepped,_⟩ := aligned.step executes steady
    simp only [step,bind_ok_iff] at stepped
    obtain ⟨_,_,p,executed,_⟩ := stepped
    exact ⟨p,executed⟩
  · intro fd mask events
    constructor
    · rintro ⟨ptr,listed⟩
      exact ((aligned.watches events).mp listed).1
    · rintro ⟨pfd,present,here,carried⟩
      obtain ⟨ptr,known,_,own⟩ := aligned.poller.mapped_of_entry present (by omega)
      rw [Poller.State.Known,own,here] at known
      exact ⟨ptr,(aligned.watches events).mpr ⟨⟨pfd,present,here,carried⟩,known⟩⟩

/-- Two channels are registered and one of them is removed. -/
theorem backends_agree_removal : ∃ s : Backends Bool, ((machine Bool).restrict Steady).Reachable s ∧
    (s.epoller.slot 6).interest = some (true,kWritable) ∧ ∃ pfd ∈ s.poller.pollfdList, pfd.fd = 6 ∧
      pfd.events = kWritable := by
  let fd : Bool → Nat := fun ptr => if ptr then 6 else 5
  let schedule : List (Action Bool) := [.update .enableReadEvent false,.update .enableWriteEvent true,
    .update .disableAllEvent false,.remove false]
  have reachable : ((machine Bool).restrict Steady).Reachable
      (schedule.foldl (machine Bool).advance ⟨.construct fd,.construct fd⟩) :=
    Machine.Reachable.follow (m := (machine Bool).restrict Steady)
      (.initial ⟨fd,by decide,rfl⟩) schedule (by decide +kernel)
  have watched : ((schedule.foldl (machine Bool).advance ⟨.construct fd,.construct fd⟩).epoller.slot 6).interest =
      some (true,kWritable) := by decide +kernel
  exact ⟨_,reachable,watched,((backends_agree reachable).2.1 6 kWritable (by decide)).mp ⟨true,watched⟩⟩

/-- Without the condition. A channel that is enabled again after all its events were
disabled is watched by the epoll backend, and its entry in `pollfd_list_` stays negated;
one that is enabled again after its removal keeps its old index, and the assertion that the
map has it fails in the poll backend. -/
theorem backends_disagree :
    (∃ s : Backends Unit, (machine Unit).Reachable s ∧ (s.epoller.slot 5).interest = some ((),kReadable) ∧
      s.poller.pollfdList = [⟨-6,kReadable,kNone⟩]) ∧
    ∃ s : Backends Unit, (machine Unit).Reachable s ∧ (s.epoller.update .enableReadEvent ()).toBool = true ∧
      (machine Unit).step s (.update .enableReadEvent ()) = .error (.assertion .updateChannel) := by
  let fd : Unit → Nat := fun _ => 5
  let start : Backends Unit := ⟨.construct fd,.construct fd⟩
  have initial : (machine Unit).Reachable start := .initial ⟨fd,by decide,rfl⟩
  constructor
  · let schedule : List (Action Unit) :=
      [.update .enableReadEvent (),.update .disableAllEvent (),.update .enableReadEvent ()]
    exact ⟨_,Machine.Reachable.follow initial schedule (by decide +kernel),by decide +kernel,by decide +kernel⟩
  · let schedule : List (Action Unit) := [.update .enableReadEvent (),.update .disableAllEvent (),.remove ()]
    exact ⟨_,Machine.Reachable.follow initial schedule (by decide +kernel),by decide +kernel,
      Machine.step_failure (by decide +kernel)⟩

theorem hasChannel_epoller : s.epoller.hasChannel ptr = true ↔ s.epoller.Known ptr := by
  unfold EPoller.State.hasChannel EPoller.State.Known
  split <;> simp [*]

theorem hasChannel_poller : s.poller.hasChannel ptr = true ↔ s.poller.Known ptr := by
  unfold Poller.State.hasChannel Poller.State.Known
  split <;> simp [*]

/-- Whether a channel is registered after a call, if it was before or if it was not. -/
def Action.registers (ptr : κ) (before : Bool) : Action κ → Bool
  | .update _ other => before || other = ptr
  | .remove other => before && other ≠ ptr

theorem Aligned.hasChannel_agree (aligned : s.Aligned) : s.poller.hasChannel ptr = s.epoller.hasChannel ptr := by
  rw [Bool.eq_iff_iff,hasChannel_poller,hasChannel_epoller,aligned.known]

theorem Aligned.hasChannel_added (aligned : s.Aligned) :
    s.epoller.hasChannel ptr = (s.epoller.channel ptr).addedToLoop := by
  rw [Bool.eq_iff_iff,hasChannel_epoller,aligned.known,aligned.poller.added,aligned.added]

theorem Aligned.hasChannel_step (aligned : s.Aligned) (stepped : s.step action = .ok s') (aligned' : s'.Aligned) :
    s'.epoller.hasChannel ptr = action.registers ptr (s.epoller.hasChannel ptr) := by
  obtain ⟨e,onEPoller,onPoller⟩ := bind_ok_iff.mp stepped
  obtain ⟨_,_,⟨⟩⟩ := bind_ok_iff.mp onPoller
  rw [aligned.hasChannel_added,aligned'.hasChannel_added]
  cases action with
  | update interest other =>
    have allowed : s.epoller.Allowed (.update interest other) := aligned.update_allowed
    obtain ⟨_,executed,_,_,channel⟩ := aligned.epoller.update allowed
    cases onEPoller.symm.trans executed
    by_cases same : ptr = other
    · subst same
      simp [channel,Action.registers]
    · simp [channel,Action.registers,same,Ne.symm same]
  | remove other =>
    obtain ⟨_,executed,_,_,_,channel⟩ := aligned.epoller.remove (aligned.remove_allowed onEPoller)
    cases onEPoller.symm.trans executed
    by_cases same : ptr = other
    · subst same
      simp [channel,Action.registers]
    · simp [channel,Action.registers,same,Ne.symm same]

theorem Aligned.hasChannel_run (ptr : κ) (schedule : List (Action κ)) (aligned : s.Aligned)
    (admits : ((machine κ).restrict Steady).Admits s schedule) :
    (schedule.foldl (machine κ).advance s).Aligned ∧ (schedule.foldl (machine κ).advance s).epoller.hasChannel ptr =
      schedule.foldl (Action.registers ptr) (s.epoller.hasChannel ptr) := by
  induction schedule generalizing s with
  | nil => exact ⟨aligned,rfl⟩
  | cons action rest ih =>
    obtain ⟨⟨executes,steady⟩,succeeds,admits⟩ := admits
    have stepped := Machine.step_advance succeeds
    obtain ⟨s',stepped',aligned'⟩ := aligned.step executes steady
    obtain rfl := Except.ok.inj (stepped'.symm.trans stepped)
    simp only [List.foldl_cons]
    rw [← aligned.hasChannel_step stepped' aligned']
    exact ih aligned' admits

/-- Whatever was called within the rules, `HasChannel` says of every channel in both
backends whether it was updated and not removed since. -/
theorem has_channel_as_called (fd : κ → Nat) (distinct : Function.Injective fd) (schedule : List (Action κ))
    (admits : ((machine κ).restrict Steady).Admits ⟨.construct fd,.construct fd⟩ schedule) (ptr : κ) :
    let s := schedule.foldl (machine κ).advance ⟨.construct fd,.construct fd⟩
    s.epoller.hasChannel ptr = schedule.foldl (Action.registers ptr) false ∧
    s.poller.hasChannel ptr = schedule.foldl (Action.registers ptr) false := by
  intro s
  obtain ⟨aligned,run⟩ := (construct_aligned distinct).hasChannel_run ptr schedule admits
  rw [aligned.hasChannel_agree]
  exact ⟨run,run⟩

/-- One of two channels is removed again. -/
theorem has_channel_as_called_removal :
    let fd : Bool → Nat := fun ptr => if ptr then 6 else 5
    let s := [.update .enableReadEvent false,.update .enableWriteEvent true,.update .disableAllEvent false,
      .remove false].foldl (machine Bool).advance ⟨.construct fd,.construct fd⟩
    s.epoller.hasChannel true = true ∧ s.poller.hasChannel true = true ∧
    s.epoller.hasChannel false = false ∧ s.poller.hasChannel false = false := by
  intro fd s
  have known := has_channel_as_called fd (by decide) [.update .enableReadEvent false,
    .update .enableWriteEvent true,.update .disableAllEvent false,.remove false] (by decide +kernel)
  exact ⟨(known true).1,(known true).2,(known false).1,(known false).2⟩

end Backends
end Evk
