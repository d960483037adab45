import Evk.Channel

/-! The epoll backend with all the channels of its loop. What it knows of a channel is
written three times: in the channel's index, in the channel map and in the kernel's
interest set; the three stay in step over every order of updates, removals and polls. -/
namespace Evk

/-- The operations of a channel that change its events of interest. -/
inductive Interest where
  | enableReadEvent | enableWriteEvent | disableReadEvent | disableWriteEvent | disableAllEvent
  deriving DecidableEq, Repr

namespace Interest

variable {κ : Type} [DecidableEq κ]

def mask : Interest → PollEvents → PollEvents
  | enableReadEvent, events => events.union kReadable
  | enableWriteEvent, events => events.union kWritable
  | disableReadEvent, events => events.diff kReadable
  | disableWriteEvent, events => events.diff kWritable
  | disableAllEvent, _ => kNone

def run (interest : Interest) (ptr : κ) (ch : Channel) (slot : Slot κ) : Except Fault (Channel × Slot κ) :=
  match interest with
  | enableReadEvent => ch.enableReadEvent ptr slot
  | enableWriteEvent => ch.enableWriteEvent ptr slot
  | disableReadEvent => ch.disableReadEvent ptr slot
  | disableWriteEvent => ch.disableWriteEvent ptr slot
  | disableAllEvent => ch.disableAllEvent ptr slot

theorem run_eq (interest : Interest) (ptr : κ) (ch : Channel) (slot : Slot κ) :
    interest.run ptr ch slot = Channel.update ptr { ch with events := interest.mask ch.events } slot := by
  cases interest <;> rfl

end Interest

/-- `epoll_ctl` at one descriptor: the kernel's new entry, or `none` if it refuses the
request because its precondition fails. -/
def EpollOp.control (op : EpollOp) (event entry : Option α) : Option (Option α) :=
  match op, entry with
  | .add, none | .mod, some _ => some event
  | .del, some _ => some none
  | .add, some _ | .mod, none | .del, none => none

namespace EPoller

variable {κ : Type} [DecidableEq κ]

omit [DecidableEq κ] in
/-- `EPoller::Update` is fatal when the kernel refuses, a refused deletion apart. -/
theorem update_control (ptr : κ) (op : EpollOp) (ch : Channel) (slot : Slot κ) :
    update ptr op ch slot =
      match op.control (some (ptr,ch.events)) slot.interest with
      | some interest => .ok { slot with interest }
      | none => if op = .del then .ok slot else .error .fatal := by
  obtain ⟨channelMap,interest⟩ := slot
  cases op <;> cases interest <;> rfl

def updateRequest (ch : Channel) : EpollOp := if ch.index = kNew ∨ ch.index = kDeleted then .add else .mod

def removeRequest (ch : Channel) : Option EpollOp := if ch.index = kAdded then some .del else none

omit [DecidableEq κ] in
theorem update_channelMap {ptr : κ} (updated : update ptr op ch slot = .ok slot') :
    slot'.channelMap = slot.channelMap := by
  rw [update_control] at updated
  grind

theorem updateChannel_requests {ptr : κ} (updated : updateChannel ptr ch slot = .ok (ch',slot')) :
    update ptr (updateRequest ch) ch' { slot with channelMap := slot'.channelMap } = .ok slot' := by
  unfold updateChannel at updated
  simp only [updateRequest]
  split at updated
  · rename_i unknown
    rw [if_pos unknown]
    split at updated
    all_goals
      simp only [bind_ok_iff,pure_eq_ok,Except.ok.injEq,exists_eq_left',Prod.mk.injEq] at updated
      obtain ⟨_,_,updated⟩ := updated
    · obtain ⟨_,added,rfl,rfl⟩ := updated
      rw [update_channelMap added]
      exact added
    · obtain ⟨_,_,_,added,rfl,rfl⟩ := updated
      rw [update_channelMap added]
      exact added
  · rename_i known
    simp only [bind_ok_iff,pure_eq_ok,Except.ok.injEq,Prod.mk.injEq] at updated
    obtain ⟨_,modified,rfl,rfl⟩ := updated
    rw [if_neg known,update_channelMap modified]
    exact modified

omit [DecidableEq κ] in
theorem removeChannel_requests {ptr : κ} (removed : removeChannel ptr ch slot = .ok (ch',slot')) :
    match removeRequest ch with
    | some request => update ptr request ch { slot with channelMap := none } = .ok slot'
    | none => slot' = { slot with channelMap := none } := by
  simp only [removeChannel,bind_ok_iff,pure_eq_ok] at removed
  obtain ⟨_,_,_,_,_,_,removed⟩ := removed
  simp only [removeRequest]
  split at removed
  · rename_i added
    simp only [bind_ok_iff,Except.ok.injEq,Prod.mk.injEq] at removed
    obtain ⟨_,deleted,_,rfl⟩ := removed
    simpa [added] using deleted
  · rename_i absent
    simp only [ok_bind,Except.ok.injEq,Prod.mk.injEq] at removed
    simp [absent,← removed.2]

omit [DecidableEq κ] in
/-- A request that went through was accepted, a deletion only if there was an entry. -/
theorem control_of_update {ptr : κ} (updated : update ptr op ch slot = .ok slot')
    (present : op = .del → slot.interest ≠ none) :
    op.control (some (ptr,ch.events)) slot.interest = some slot'.interest := by
  rw [update_control] at updated
  split at updated
  · rename_i accepted
    cases updated
    exact accepted
  · rename_i refused
    split at updated
    · rename_i deletes
      obtain ⟨entry,present⟩ := Option.ne_none_iff_exists'.mp (present deletes)
      simp [deletes,present,EpollOp.control] at refused
    · cases updated

/-- The channels of a loop by address, the poller's records by descriptor, and the
size of `event_list_`. -/
structure State (κ : Type) where
  channel : κ → Channel
  slot : Nat → Slot κ
  eventListSize : Nat

def kInitEventListSize : Nat := 16

inductive Action (κ : Type) where
  | update (interest : Interest) (ptr : κ)
  | remove (ptr : κ)
  /-- `epoll_wait` reports events on these descriptors. -/
  | poll (ready : List (Nat × PollEvents))
  deriving DecidableEq, Repr

namespace State

def construct (fd : κ → Nat) : State κ := ⟨fun ptr => .construct (fd ptr),fun _ => .empty,kInitEventListSize⟩

/-- A channel and the slot of its descriptor. -/
def install (s : State κ) (ptr : κ) (ch : Channel) (slot : Slot κ) : State κ :=
  { s with channel := Function.update s.channel ptr ch, slot := Function.update s.slot ch.fd slot }

def update (s : State κ) (interest : Interest) (ptr : κ) : Except Fault (State κ) := do
  let ch := s.channel ptr
  let (ch,slot) ← interest.run ptr ch (s.slot ch.fd)
  return s.install ptr ch slot

def remove (s : State κ) (ptr : κ) : Except Fault (State κ) := do
  let ch := s.channel ptr
  let (ch,slot) ← ch.remove ptr (s.slot ch.fd)
  return s.install ptr ch slot

def hasChannel (s : State κ) (ptr : κ) : Bool :=
  match (s.slot (s.channel ptr).fd).channelMap with
  | none => false
  | some found => found = ptr

/-- The loop of `FillActiveChannels` over the filled part of `event_list_`. -/
def fillLoop (s : State κ) : List (κ × PollEvents) → List κ → Except Fault (State κ × List κ)
  | [], active => return (s,active)
  | (ptr,revents) :: rest, active => do
    let ch := s.channel ptr
    let ch ← ch.fillActive ptr (s.slot ch.fd) revents
    fillLoop { s with channel := Function.update s.channel ptr ch } rest (active ++ [ptr])

def fillActiveChannels (s : State κ) (events : List (κ × PollEvents)) : Except Fault (State κ × List κ) := do
  assert (events.length ≤ s.eventListSize) .fillActiveChannels
  s.fillLoop events []

/-- What `epoll_wait` stores: the pointer that was registered with the descriptor. -/
def eventList (s : State κ) (ready : List (Nat × PollEvents)) : List (κ × PollEvents) :=
  ready.filterMap fun (fd,revents) => (s.slot fd).interest.map fun entry => (entry.1,revents)

def poll (s : State κ) (ready : List (Nat × PollEvents)) : Except Fault (State κ × List κ) := do
  let events := s.eventList ready
  if 0 < events.length then
    let (s,active) ← s.fillActiveChannels events
    if events.length = s.eventListSize then
      return ({ s with eventListSize := s.eventListSize * 2 },active)
    else
      return (s,active)
  else
    return (s,[])

def Known (s : State κ) (ptr : κ) : Prop := (s.slot (s.channel ptr).fd).channelMap = some ptr

instance (s : State κ) (ptr : κ) : Decidable (s.Known ptr) := inferInstanceAs (Decidable (_ = _))

/-- The events `epoll_wait` may report: on distinct descriptors of the interest set, as
many as `event_list_` has room for. -/
def Reported (s : State κ) (ready : List (Nat × PollEvents)) : Prop :=
  ready.length ≤ s.eventListSize ∧ (ready.map Prod.fst).Nodup ∧
    ∀ event ∈ ready, ∃ entry ∈ (s.slot event.1).interest, event.2.Reportable entry.2

instance (s : State κ) (ready : List (Nat × PollEvents)) : Decidable (s.Reported ready) :=
  inferInstanceAs (Decidable (_ ∧ _ ∧ _))

def request (s : State κ) : Action κ → Option (κ × EpollOp)
  | .update _ ptr => some (ptr,updateRequest (s.channel ptr))
  | .remove ptr => (removeRequest (s.channel ptr)).map fun request => (ptr,request)
  | .poll _ => none

def step (s : State κ) : Action κ → Except Fault (State κ)
  | .update interest ptr => s.update interest ptr
  | .remove ptr => s.remove ptr
  | .poll ready => do
    let (s,_) ← s.poll ready
    return s

/-- The rules for the users of a poller: no two channels it knows share a descriptor, and
a channel is removed when it was updated since its last removal, which is what
`added_to_loop_` says, and has no events of interest. -/
def Allowed (s : State κ) : Action κ → Prop
  | .update _ ptr => ∀ other, s.Known other → (s.channel other).fd = (s.channel ptr).fd → other = ptr
  | .remove ptr => (s.channel ptr).addedToLoop = true ∧ (s.channel ptr).events = kNone
  | .poll ready => s.Reported ready

instance [Fintype κ] (s : State κ) : (action : Action κ) → Decidable (s.Allowed action)
  | .update _ _ => inferInstanceAs (Decidable (∀ _, _))
  | .remove _ => inferInstanceAs (Decidable (_ ∧ _))
  | .poll ready => inferInstanceAs (Decidable (s.Reported ready))

end State

def machine (κ : Type) [DecidableEq κ] : Machine (State κ) (Action κ) Fault where
  initial s := ∃ fd, s = .construct fd
  enabled := State.Allowed
  step := State.step

instance [Fintype κ] (s : State κ) (action : Action κ) : Decidable ((machine κ).enabled s action) :=
  inferInstanceAs (Decidable (s.Allowed action))

namespace State

variable {s s' : State κ} {ptr : κ} {ch : Channel} {slot : Slot κ}

/-- The kernel has exactly the channels of the map, with their events, and a channel's
index and flag say whether it is there. -/
structure InStep (s : State κ) : Prop where
  kernel : ∀ fd, (s.slot fd).interest = (s.slot fd).channelMap.map fun ptr => (ptr,(s.channel ptr).events)
  keyed : ∀ fd ptr, (s.slot fd).channelMap = some ptr → (s.channel ptr).fd = fd
  known : ∀ ptr, s.Known ptr → (s.channel ptr).index = kAdded ∧ (s.channel ptr).addedToLoop = true
  unknown : ∀ ptr, ¬s.Known ptr → (s.channel ptr).index = kNew ∧ (s.channel ptr).addedToLoop = false

omit [DecidableEq κ] in
theorem construct_inStep (fd : κ → Nat) : (construct fd).InStep where
  kernel _ := rfl
  keyed _ _ mapped := by cases mapped
  known _ mapped := by cases mapped
  unknown _ _ := ⟨rfl,rfl⟩

omit [DecidableEq κ] in
theorem InStep.registered (inv : s.InStep) (known : s.Known ptr) :
    Channel.Registered ptr (s.channel ptr) (s.slot (s.channel ptr).fd) where
  added := (inv.known ptr known).2
  index := (inv.known ptr known).1
  mapped := known
  interest := by rw [inv.kernel,known,Option.map_some]

omit [DecidableEq κ] in
theorem InStep.known_of_added (inv : s.InStep) (added : (s.channel ptr).addedToLoop = true) : s.Known ptr := by
  by_contra unknown
  rw [(inv.unknown ptr unknown).2] at added
  cases added

/-- A channel the rules allow to be updated is registered, or its slot is empty. -/
theorem InStep.consistent (inv : s.InStep) (allowed : s.Allowed (.update interest ptr)) :
    Channel.Consistent ptr (s.channel ptr) (s.slot (s.channel ptr).fd) := by
  by_cases known : s.Known ptr
  · exact .inl (inv.registered known)
  · right
    obtain ⟨index,added⟩ := inv.unknown ptr known
    refine ⟨added,index,?_⟩
    -- whoever is mapped under the descriptor is known, and so is this channel
    have unmapped : (s.slot (s.channel ptr).fd).channelMap = none := by
      by_contra mapped
      obtain ⟨other,mapped⟩ := Option.ne_none_iff_exists'.mp mapped
      have same := inv.keyed _ _ mapped
      have found : s.Known other := by rw [Known,same]; exact mapped
      exact known (allowed other found same ▸ found)
    have unlisted := inv.kernel (s.channel ptr).fd
    rw [unmapped,Option.map_none] at unlisted
    cases at_slot : s.slot (s.channel ptr).fd
    simp_all [Slot.empty]

theorem install_channel (other : κ) :
    (s.install ptr ch slot).channel other = if other = ptr then ch else s.channel other := by
  simp [install,Function.update_apply]

theorem install_slot (fd : Nat) : (s.install ptr ch slot).slot fd = if fd = ch.fd then slot else s.slot fd := by
  simp [install,Function.update_apply]

omit [DecidableEq κ] in
theorem consistent_alone (consistent : Channel.Consistent ptr ch slot) (mapped : slot.channelMap = some other) :
    other = ptr := by
  rcases consistent with registered | unregistered
  · exact Option.some.inj (mapped.symm.trans registered.mapped)
  · rw [unregistered.slot] at mapped
    cases mapped

omit [DecidableEq κ] in
theorem consistent_kernel (consistent : Channel.Consistent ptr ch slot) :
    slot.interest = slot.channelMap.map fun _ => (ptr,ch.events) := by
  rcases consistent with registered | unregistered
  · rw [registered.interest,registered.mapped,Option.map_some]
  · rw [unregistered.slot]
    rfl

theorem install_known_self : (s.install ptr ch slot).Known ptr ↔ slot.channelMap = some ptr := by
  simp [Known,install_channel,install_slot]

theorem install_known_other (same : ch.fd = (s.channel ptr).fd)
    (before : Channel.Consistent ptr (s.channel ptr) (s.slot (s.channel ptr).fd))
    (after : Channel.Consistent ptr ch slot) (other : o ≠ ptr) : (s.install ptr ch slot).Known o ↔ s.Known o := by
  simp only [Known,install_channel,other,if_false,install_slot]
  split
  · rename_i shared
    rw [shared,same]
    constructor
    · exact fun mapped => absurd (consistent_alone after mapped) other
    · exact fun mapped => absurd (consistent_alone before mapped) other
  · rfl

omit [DecidableEq κ] in
theorem InStep.mapped_elsewhere (inv : s.InStep) (elsewhere : ¬fd = (s.channel ptr).fd)
    (mapped : (s.slot fd).channelMap = some other) : other ≠ ptr := by
  rintro rfl
  exact elsewhere (inv.keyed _ _ mapped).symm

/-- Whatever an operation makes of one channel and its slot, the records stay in step
if these two agree afterwards. -/
theorem InStep.install (inv : s.InStep) (same : ch.fd = (s.channel ptr).fd)
    (before : Channel.Consistent ptr (s.channel ptr) (s.slot (s.channel ptr).fd))
    (after : Channel.Consistent ptr ch slot) : (s.install ptr ch slot).InStep where
  kernel fd := by
    rw [install_slot]
    split
    · rw [consistent_kernel after]
      cases mapped : slot.channelMap with
      | none => rfl
      | some other =>
        obtain rfl := consistent_alone after mapped
        simp [install_channel]
    · rename_i elsewhere
      rw [inv.kernel]
      cases mapped : (s.slot fd).channelMap with
      | none => rfl
      | some other =>
        simp [install_channel,inv.mapped_elsewhere (same ▸ elsewhere) mapped]
  keyed fd other mapped := by
    rw [install_slot] at mapped
    split at mapped
    · rename_i here
      rw [consistent_alone after mapped,install_channel,if_pos rfl,here]
    · rename_i elsewhere
      rw [install_channel,if_neg (inv.mapped_elsewhere (same ▸ elsewhere) mapped),inv.keyed _ _ mapped]
  known other mapped := by
    by_cases apart : other = ptr
    · subst apart
      rw [install_known_self] at mapped
      rcases after with registered | unregistered
      · rw [install_channel,if_pos rfl]
        exact ⟨registered.index,registered.added⟩
      · rw [unregistered.slot] at mapped
        cases mapped
    · rw [install_known_other same before after apart] at mapped
      rw [install_channel,if_neg apart]
      exact inv.known other mapped
  unknown other unmapped := by
    by_cases apart : other = ptr
    · subst apart
      rw [install_known_self] at unmapped
      rcases after with registered | unregistered
      · exact absurd registered.mapped unmapped
      · rw [install_channel,if_pos rfl]
        exact ⟨unregistered.index,unregistered.added⟩
    · rw [install_known_other same before after apart] at unmapped
      rw [install_channel,if_neg apart]
      exact inv.unknown other unmapped

theorem InStep.update (inv : s.InStep) (allowed : s.Allowed (.update interest ptr)) :
    ∃ s', s.update interest ptr = .ok s' ∧ s'.InStep ∧ s'.Known ptr ∧ s'.channel = Function.update s.channel ptr
      { s.channel ptr with events := interest.mask (s.channel ptr).events, addedToLoop := true, index := kAdded } := by
  have before := inv.consistent allowed
  obtain ⟨ch',slot',updated,registered,shape⟩ := Channel.update_consistent before (interest.mask (s.channel ptr).events)
  refine ⟨s.install ptr ch' slot',?_,?_,?_,?_⟩
  · simp [State.update,Interest.run_eq,updated]
  · apply inv.install _ before (.inl registered)
    rw [shape]
  · exact install_known_self.mpr registered.mapped
  · rw [shape,State.install]

theorem InStep.remove (inv : s.InStep) (allowed : s.Allowed (.remove ptr)) :
    ∃ s', s.remove ptr = .ok s' ∧ s'.InStep ∧ ¬s'.Known ptr ∧
      s'.slot (s.channel ptr).fd = .empty ∧
      s'.channel = Function.update s.channel ptr { s.channel ptr with addedToLoop := false, index := kNew } := by
  have registered := inv.registered (inv.known_of_added allowed.1)
  have removed := Channel.remove_registered registered allowed.2
  refine ⟨s.install ptr { s.channel ptr with addedToLoop := false, index := kNew } .empty,?_,?_,?_,?_,?_⟩
  · simp [State.remove,removed]
  · exact inv.install rfl (.inl registered) (.inr ⟨rfl,rfl,rfl⟩)
  · rw [install_known_self]
    simp [Slot.empty]
  · simp [install_slot]
  · rfl

/-- A removal that goes through is of a channel without events under a mapped descriptor. -/
theorem remove_ok (removed : s.remove ptr = .ok s') :
    (s.channel ptr).events = kNone ∧ (s.slot (s.channel ptr).fd).channelMap ≠ none := by
  simp only [State.remove,Channel.remove,removeChannel,bind_ok_iff] at removed
  obtain ⟨_,⟨_,idle,_,mapped,_⟩,_⟩ := removed
  exact ⟨by simpa [Channel.isNoneEvent] using assert_ok_iff.mp idle,assert_ok_iff.mp mapped⟩

/-- The fields of a channel that no poller looks at. -/
def Marked (s s' : State κ) : Prop :=
  s'.slot = s.slot ∧ ∀ ptr, ∃ revents eventHandling, s'.channel ptr = { s.channel ptr with revents, eventHandling }

omit [DecidableEq κ] in
theorem Marked.known (marked : s.Marked s') : s'.Known ptr ↔ s.Known ptr := by
  obtain ⟨_,_,same⟩ := marked.2 ptr
  simp [Known,same,marked.1]

omit [DecidableEq κ] in
theorem InStep.marked (inv : s.InStep) (marked : s.Marked s') : s'.InStep where
  kernel fd := by
    rw [marked.1,inv.kernel]
    congr 1
    funext ptr
    obtain ⟨_,_,same⟩ := marked.2 ptr
    rw [same]
  keyed fd ptr mapped := by
    rw [marked.1] at mapped
    obtain ⟨_,_,same⟩ := marked.2 ptr
    rw [same]
    exact inv.keyed fd ptr mapped
  known ptr mapped := by
    obtain ⟨_,_,same⟩ := marked.2 ptr
    rw [same]
    exact inv.known ptr (marked.known.mp mapped)
  unknown ptr unmapped := by
    obtain ⟨_,_,same⟩ := marked.2 ptr
    rw [same]
    exact inv.unknown ptr fun mapped => unmapped (marked.known.mpr mapped)

/-- `SetRevents` is all that a poll does to the channels. -/
theorem fillLoop_spec (events : List (κ × PollEvents)) (known : ∀ event ∈ events, s.Known event.1) (active : List κ) :
    ∃ s', s.fillLoop events active = .ok (s',active ++ events.map Prod.fst) ∧ s'.slot = s.slot ∧
      s'.eventListSize = s.eventListSize ∧ ∀ ptr, ∃ revents, s'.channel ptr = { s.channel ptr with revents } := by
  induction events generalizing s active with
  | nil => exact ⟨s,by simp [fillLoop],rfl,rfl,fun ptr => ⟨_,rfl⟩⟩
  | cons event rest ih =>
    obtain ⟨ptr,revents⟩ := event
    have here : (s.slot (s.channel ptr).fd).channelMap = some ptr := known _ List.mem_cons_self
    let ch : Channel := { s.channel ptr with revents }
    let t : State κ := { s with channel := Function.update s.channel ptr ch }
    have marked (other : κ) : ∃ revents, t.channel other = { s.channel other with revents } := by
      by_cases same : other = ptr
      · exact ⟨revents,by simp [t,ch,same]⟩
      · exact ⟨(s.channel other).revents,by simp [t,same]⟩
    have found : (s.channel ptr).fillActive ptr (s.slot (s.channel ptr).fd) revents = .ok ch := by
      simp [Channel.fillActive,here,ch]
    have still : ∀ event ∈ rest, t.Known event.1 := by
      intro event among
      obtain ⟨_,same⟩ := marked event.1
      rw [Known,same]
      exact known event (List.mem_cons_of_mem _ among)
    obtain ⟨s',filled,slot,size,channel⟩ := ih still (active ++ [ptr])
    refine ⟨s',by simpa [fillLoop,found,t] using filled,slot,size,fun other => ?_⟩
    obtain ⟨_,first⟩ := marked other
    obtain ⟨last,second⟩ := channel other
    exact ⟨last,by rw [second,first]⟩

omit [DecidableEq κ] in
theorem InStep.eventList_known (inv : s.InStep) (ready : List (Nat × PollEvents)) :
    ∀ event ∈ s.eventList ready, s.Known event.1 := by
  rintro ⟨ptr,revents⟩ among
  simp only [eventList,List.mem_filterMap,Option.map_eq_some_iff,Prod.exists,Prod.mk.injEq] at among
  obtain ⟨fd,_,_,other,mask,listed,rfl,_⟩ := among
  rw [inv.kernel,Option.map_eq_some_iff] at listed
  obtain ⟨other,mapped,⟨⟩⟩ := listed
  rw [Known,inv.keyed fd other mapped]
  exact mapped

theorem InStep.poll (inv : s.InStep) (reported : s.Reported ready) :
    ∃ s', s.poll ready = .ok (s',(s.eventList ready).map Prod.fst) ∧ s'.InStep ∧
      ∀ ptr, ∃ revents, s'.channel ptr = { s.channel ptr with revents } := by
  have room : (s.eventList ready).length ≤ s.eventListSize :=
    (List.length_filterMap_le _ _).trans reported.1
  obtain ⟨s',filled,slot,_,channel⟩ := fillLoop_spec (s.eventList ready) (inv.eventList_known ready) []
  have marked : s.Marked s' := by
    refine ⟨slot,fun ptr => ?_⟩
    obtain ⟨revents,same⟩ := channel ptr
    exact ⟨revents,(s.channel ptr).eventHandling,same⟩
  have inv' := inv.marked marked
  rw [State.poll]
  split
  · simp only [fillActiveChannels,assert_of room,ok_bind,filled,List.nil_append]
    split
    · exact ⟨_,rfl,⟨inv'.kernel,inv'.keyed,inv'.known,inv'.unknown⟩,channel⟩
    · exact ⟨s',rfl,inv',channel⟩
  · rename_i none
    obtain nil : s.eventList ready = [] := List.eq_nil_of_length_eq_zero (by omega)
    exact ⟨s,by simp [nil],inv,fun ptr => ⟨_,rfl⟩⟩

theorem InStep.step (inv : s.InStep) (allowed : s.Allowed action) : ∃ s', s.step action = .ok s' ∧ s'.InStep := by
  cases action with
  | update interest ptr =>
    obtain ⟨s',updated,inv',_⟩ := inv.update allowed
    exact ⟨s',updated,inv'⟩
  | remove ptr =>
    obtain ⟨s',removed,inv',_⟩ := inv.remove allowed
    exact ⟨s',removed,inv'⟩
  | poll ready =>
    obtain ⟨s',polled,inv',_⟩ := inv.poll allowed
    exact ⟨s',by simp [State.step,polled],inv'⟩

theorem reachable_inStep (reachable : (machine κ).Reachable s) : s.InStep := by
  induction reachable with
  | initial first =>
    obtain ⟨fd,rfl⟩ := first
    exact construct_inStep fd
  | step _ allowed stepped inv =>
    obtain ⟨s',stepped',inv'⟩ := inv.step allowed
    cases stepped.symm.trans stepped'
    exact inv'

theorem InStep.accepted (inv : s.InStep) (allowed : s.Allowed action) (requested : s.request action = some (ptr,op))
    (stepped : s.step action = .ok s') : op.control (some (ptr,(s'.channel ptr).events))
      (s.slot (s.channel ptr).fd).interest = some (s'.slot (s.channel ptr).fd).interest := by
  cases action with
  | update interest own =>
    cases requested
    obtain ⟨ch,slot,updated,_,shape⟩ :=
      Channel.update_consistent (inv.consistent allowed) (interest.mask (s.channel ptr).events)
    simp only [State.step,State.update,Interest.run_eq,updated,ok_bind,pure_eq_ok,Except.ok.injEq] at stepped
    subst stepped
    have requests := updateChannel_requests updated
    have fd : ch.fd = (s.channel ptr).fd := by rw [shape]
    simp only [install_channel,install_slot,fd,if_true]
    apply control_of_update requests
    intro deletes
    simp only [updateRequest] at deletes
    split at deletes <;> cases deletes
  | remove own =>
    simp only [State.request,Option.map_eq_some_iff,Prod.mk.injEq] at requested
    obtain ⟨_,requested,rfl,rfl⟩ := requested
    have registered := inv.registered (inv.known_of_added allowed.1)
    have removed := Channel.remove_registered registered allowed.2
    simp only [State.step,State.remove,removed,ok_bind,pure_eq_ok,Except.ok.injEq] at stepped
    subst stepped
    simp only [Channel.remove,bind_ok_iff] at removed
    obtain ⟨_,_,removed⟩ := removed
    have requests := removeChannel_requests removed
    have same : removeRequest { s.channel own with addedToLoop := false } = removeRequest (s.channel own) := rfl
    rw [same,requested] at requests
    simp only [install_channel,install_slot,if_true]
    have accepted := control_of_update requests fun _ => by simp [registered.interest]
    exact accepted
  | poll ready => cases requested

/-- In every state the poller's records agree with the kernel, every operation the rules
allow goes through without a failed assertion and with a request the kernel accepts,
and a removed channel can be registered again. -/
theorem registration_in_step (reachable : (machine κ).Reachable s) :
    s.InStep ∧
    (∀ action, s.Allowed action → ∃ s', s.step action = .ok s' ∧
      ∀ ptr op, s.request action = some (ptr,op) → op.control (some (ptr,(s'.channel ptr).events))
        (s.slot (s.channel ptr).fd).interest = some (s'.slot (s.channel ptr).fd).interest) ∧
    ∀ ptr s', s.Allowed (.remove ptr) → s.step (.remove ptr) = .ok s' → ¬s'.Known ptr ∧
      ∀ interest, s'.Allowed (.update interest ptr) ∧ ∃ s'', s'.step (.update interest ptr) = .ok s'' ∧
        s''.Known ptr := by
  have inv := reachable_inStep reachable
  refine ⟨inv,?_,?_⟩
  · intro action allowed
    obtain ⟨s',stepped,_⟩ := inv.step allowed
    exact ⟨s',stepped,fun ptr op requested => inv.accepted allowed requested stepped⟩
  · intro ptr s' allowed stepped
    obtain ⟨t,removed,inv',unknown,empty,channel⟩ := inv.remove allowed
    cases stepped.symm.trans removed
    refine ⟨unknown,fun interest => ?_⟩
    have again : s'.Allowed (.update interest ptr) := by
      intro other known same
      have fd : (s'.channel ptr).fd = (s.channel ptr).fd := by simp [channel]
      rw [Known,same,fd,empty] at known
      cases known
    obtain ⟨s'',updated,_,registered,_⟩ := inv'.update again
    exact ⟨again,s'',updated,registered⟩

/-- Two channels of one descriptor take turns: the first is registered, polled and removed,
the second is registered and removed, and the first comes back. -/
theorem registration_in_step_reused : ∃ s : State Bool, (machine Bool).Reachable s ∧ s.InStep ∧
    (s.slot 5).interest = some (false,kWritable) := by
  let schedule : List (Action Bool) := [.update .enableReadEvent false,.poll [(5,{ pollin := true })],
    .update .disableAllEvent false,.remove false,.update .enableWriteEvent true,.update .disableWriteEvent true,
    .remove true,.update .enableWriteEvent false]
  have reachable : (machine Bool).Reachable (schedule.foldl (machine Bool).advance (.construct fun _ => 5)) :=
    Machine.Reachable.follow (m := machine Bool) (.initial ⟨_,rfl⟩) schedule (by decide +kernel)
  exact ⟨_,reachable,(registration_in_step reachable).1,by decide +kernel⟩

end State

end EPoller
end Evk
