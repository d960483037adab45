import Evk.EPoller

/-! The poll(2) backend. A channel's index is its place in `pollfd_list_`, a channel
without events of interest has its descriptor negated there, and removal moves the
last entry into the gap. -/
namespace Evk

structure Pollfd where
  fd : Int
  events : PollEvents
  revents : PollEvents
  deriving DecidableEq, Repr

/-- What poll(2) or epoll(7) reports of the conditions on an open descriptor. -/
def PollEvents.reported (ready mask : PollEvents) : PollEvents :=
  ⟨ready.pollin && mask.pollin,ready.pollpri && mask.pollpri,ready.pollout && mask.pollout,ready.pollerr,
    ready.pollhup,ready.pollnval && mask.pollnval,ready.pollrdhup && mask.pollrdhup⟩

/-- `std::iter_swap` of two elements of a vector. -/
def iterSwap (l : List α) (i j : Nat) : List α :=
  match l[i]?, l[j]? with
  | some a, some b => (l.set i b).set j a
  | _, _ => l

theorem length_iterSwap (l : List α) (i j : Nat) : (iterSwap l i j).length = l.length := by
  rw [iterSwap]
  split <;> simp

theorem getElem?_swapErase {l : List α} {last : α} (final : l[l.length - 1]? = some last)
    (inside : i < l.length) (j : Nat) :
    (iterSwap l i (l.length - 1)).dropLast[j]? =
      if j < l.length - 1 then if j = i then some last else l[j]? else none := by
  rw [List.getElem?_dropLast,length_iterSwap]
  split
  · rename_i below
    simp only [iterSwap,List.getElem?_eq_getElem inside,final]
    rw [List.getElem?_set_ne (by omega),List.getElem?_set]
    grind
  · rfl

namespace Poller

variable {κ : Type} [DecidableEq κ]

structure State (κ : Type) where
  channel : κ → Channel
  pollfdList : List Pollfd
  channelMap : Std.TreeMap Int κ

namespace State

def construct (fd : κ → Nat) : State κ := ⟨fun ptr => .construct (fd ptr),[],∅⟩

def setChannel (s : State κ) (ptr : κ) (ch : Channel) : State κ :=
  { s with channel := Function.update s.channel ptr ch }

def updateChannel (s : State κ) (ptr : κ) : Except Fault (State κ) := do
  let ch := s.channel ptr
  let fd : Int := ch.fd
  if ch.index < 0 then
    assert (s.channelMap[fd]? = none) .updateChannel
    let pfd : Pollfd := ⟨fd,ch.events,kNone⟩
    let pollfdList := s.pollfdList ++ [pfd]
    let idx : Int := pollfdList.length - 1
    return { s.setChannel ptr { ch with index := idx } with pollfdList, channelMap := s.channelMap.insert pfd.fd ptr }
  else
    assert (s.channelMap[fd]? ≠ none) .updateChannel
    assert (s.channelMap[fd]? = some ptr) .updateChannel
    let idx := ch.index
    assert (0 ≤ idx ∧ idx < s.channelMap.size) .updateChannel
    match s.pollfdList[idx.toNat]? with
    | none => .error .outOfBounds
    | some pfd =>
      assert (pfd.fd = fd ∨ pfd.fd = -fd - 1) .updateChannel
      let pfd := { pfd with events := ch.events, revents := kNone }
      -- the descriptor is negated here and put back nowhere
      let pfd := if ch.isNoneEvent then { pfd with fd := -fd - 1 } else pfd
      return { s with pollfdList := s.pollfdList.set idx.toNat pfd }

/-- Unlike in the epoll backend the index of the channel stays what it was. -/
def removeChannel (s : State κ) (ptr : κ) : Except Fault (State κ) := do
  let ch := s.channel ptr
  let fd : Int := ch.fd
  assert (s.channelMap[fd]? ≠ none) .removeChannel
  assert (s.channelMap[fd]? = some ptr) .removeChannel
  assert ch.isNoneEvent .removeChannel
  let idx := ch.index
  assert (0 ≤ idx ∧ idx < s.pollfdList.length) .removeChannel
  let channelMap := s.channelMap.erase fd
  if idx = s.pollfdList.length - 1 then
    return { s with channelMap, pollfdList := s.pollfdList.dropLast }
  else
    match s.pollfdList[s.pollfdList.length - 1]? with
    | none => .error .outOfBounds
    | some back =>
      let pollfdList := iterSwap s.pollfdList idx.toNat (s.pollfdList.length - 1)
      let fdAtEnd := if back.fd < 0 then -back.fd - 1 else back.fd
      match channelMap[fdAtEnd]? with
      | none => .error .nullPointer
      | some last =>
        return { s.setChannel last { s.channel last with index := idx } with
          channelMap, pollfdList := pollfdList.dropLast }

def update (s : State κ) (interest : Interest) (ptr : κ) : Except Fault (State κ) :=
  let ch := s.channel ptr
  (s.setChannel ptr { ch with events := interest.mask ch.events, addedToLoop := true }).updateChannel ptr

/-- `Channel::Update` after any change to the events of interest. -/
def updateTo (s : State κ) (events : PollEvents) (ptr : κ) : Except Fault (State κ) :=
  (s.setChannel ptr { s.channel ptr with events, addedToLoop := true }).updateChannel ptr

def remove (s : State κ) (ptr : κ) : Except Fault (State κ) := do
  let ch := s.channel ptr
  assert ch.isNoneEvent .channelRemove
  (s.setChannel ptr { ch with addedToLoop := false }).removeChannel ptr

def hasChannel (s : State κ) (ptr : κ) : Bool :=
  match s.channelMap[((s.channel ptr).fd : Int)]? with
  | none => false
  | some found => found = ptr

/-- The loop of `FillActiveChannels`, which stops once it has seen all the events. -/
def fillLoop (s : State κ) : List Pollfd → Int → List κ → Except Fault (State κ × List κ)
  | [], _, active => return (s,active)
  | pfd :: rest, numEvents, active => do
    if pfd.revents ≠ kNone then
      let numEvents := numEvents - 1
      match s.channelMap[pfd.fd]? with
      | none => .error (.assertion .fillActiveChannels)
      | some ptr =>
        let ch := s.channel ptr
        assert (ch.fd = pfd.fd) .fillActiveChannels
        let s := s.setChannel ptr { ch with revents := pfd.revents }
        let active := active ++ [ptr]
        if numEvents ≤ 0 then
          return (s,active)
        else
          s.fillLoop rest numEvents active
    else
      s.fillLoop rest numEvents active

def fillActiveChannels (s : State κ) (numEvents : Int) : Except Fault (State κ × List κ) :=
  s.fillLoop s.pollfdList numEvents []

/-- poll(2) skips negative descriptors. -/
def systemPoll (ready : Nat → PollEvents) (pfd : Pollfd) : Pollfd :=
  { pfd with revents := if pfd.fd < 0 then kNone else (ready pfd.fd.toNat).reported pfd.events }

def poll (s : State κ) (ready : Nat → PollEvents) : Except Fault (State κ × List κ) :=
  let s := { s with pollfdList := s.pollfdList.map (systemPoll ready) }
  let numEvents : Nat := s.pollfdList.countP fun pfd => pfd.revents ≠ kNone
  if 0 < numEvents then s.fillActiveChannels numEvents else return (s,[])

/-- Any other answer of poll(2): it writes events into the entries it looks at. -/
def answered (answer : Pollfd → PollEvents) (pfd : Pollfd) : Pollfd :=
  { pfd with revents := if pfd.fd < 0 then kNone else answer pfd }

/-- The rest of `Poller::poll` with that answer and any number of events returned. -/
def pollWith (s : State κ) (answer : Pollfd → PollEvents) (numEvents : Int) : Except Fault (State κ × List κ) :=
  let s := { s with pollfdList := s.pollfdList.map (answered answer) }
  if 0 < numEvents then s.fillActiveChannels numEvents else return (s,[])

def Known (s : State κ) (ptr : κ) : Prop := s.channelMap[((s.channel ptr).fd : Int)]? = some ptr

instance (s : State κ) (ptr : κ) : Decidable (s.Known ptr) := inferInstanceAs (Decidable (_ = _))

def entryOf (s : State κ) (ptr : κ) : Option Pollfd := s.pollfdList[(s.channel ptr).index.toNat]?

/-- An entry that stands for a channel, its descriptor negated or not. -/
def Stands (pfd : Pollfd) (ch : Channel) : Prop :=
  (pfd.fd = ch.fd ∨ pfd.fd = -(ch.fd : Int) - 1) ∧ pfd.events = ch.events

/-- The indices of the known channels and the places of `pollfd_list_` are in bijection. -/
structure Indexed (s : State κ) : Prop where
  apart : ∀ a b, (s.channel a).fd = (s.channel b).fd → a = b
  size : s.channelMap.size = s.pollfdList.length
  keyed : ∀ fd ptr, s.channelMap[fd]? = some ptr → ((s.channel ptr).fd : Int) = fd
  added : ∀ ptr, s.Known ptr ↔ (s.channel ptr).addedToLoop = true
  entry : ∀ ptr, s.Known ptr → 0 ≤ (s.channel ptr).index ∧ ∃ pfd, s.entryOf ptr = some pfd ∧ Stands pfd (s.channel ptr)
  owner : ∀ i < s.pollfdList.length, ∃ ptr, s.Known ptr ∧ (s.channel ptr).index = i

/-- A channel that was removed, and is not to be registered again. -/
def Retired (s : State κ) (ptr : κ) : Prop := 0 ≤ (s.channel ptr).index ∧ (s.channel ptr).addedToLoop = false

instance (s : State κ) (ptr : κ) : Decidable (s.Retired ptr) := inferInstanceAs (Decidable (_ ∧ _))

section Invariant

variable {s s' : State κ} {ptr other : κ}

omit [DecidableEq κ] in
theorem construct_indexed {fd : κ → Nat} (distinct : Function.Injective fd) : (construct fd).Indexed where
  apart _ _ same := distinct same
  size := rfl
  keyed fd ptr mapped := by simp [construct] at mapped
  added ptr := by simp [Known,construct,Channel.construct]
  entry ptr known := by simp [Known,construct] at known
  owner i inside := by simp [construct] at inside

namespace Indexed

omit [DecidableEq κ] in
/-- Two known channels have different indices: an entry tells its descriptor. -/
theorem index_injective (inv : s.Indexed) (known : s.Known ptr) (known' : s.Known other)
    (same : (s.channel ptr).index = (s.channel other).index) : ptr = other := by
  obtain ⟨_,pfd,there,fd,_⟩ := inv.entry ptr known
  obtain ⟨_,pfd',there',fd',_⟩ := inv.entry other known'
  rw [entryOf,same] at there
  obtain rfl : pfd = pfd' := Option.some.inj (there.symm.trans there')
  apply inv.apart
  omega

omit [DecidableEq κ] in
theorem index_lt (inv : s.Indexed) (known : s.Known ptr) :
    (s.channel ptr).index.toNat < s.pollfdList.length := by
  obtain ⟨_,pfd,there,_⟩ := inv.entry ptr known
  exact (List.getElem?_eq_some_iff.mp there).1

omit [DecidableEq κ] in
theorem unmapped (inv : s.Indexed) (unknown : ¬s.Known ptr) : s.channelMap[((s.channel ptr).fd : Int)]? = none := by
  by_contra mapped
  obtain ⟨other,mapped⟩ := Option.ne_none_iff_exists'.mp mapped
  have same : other = ptr := inv.apart _ _ (by exact_mod_cast inv.keyed _ _ mapped)
  exact unknown (same ▸ mapped)

end Indexed

/-- The first update of a channel appends its entry. -/
structure Appended (s s' : State κ) (ptr : κ) (events : PollEvents) : Prop where
  channel : s'.channel = Function.update s.channel ptr
    { s.channel ptr with events, addedToLoop := true, index := s.pollfdList.length }
  pollfdList : s'.pollfdList = s.pollfdList ++ [⟨(s.channel ptr).fd,events,kNone⟩]
  channelMap : s'.channelMap = s.channelMap.insert ((s.channel ptr).fd : Int) ptr

/-- Later ones rewrite the entry in its place. -/
structure Rewritten (s s' : State κ) (ptr : κ) (events : PollEvents) : Prop where
  channel : s'.channel = Function.update s.channel ptr { s.channel ptr with events, addedToLoop := true }
  pollfdList : ∃ old, s.entryOf ptr = some old ∧ s'.pollfdList = s.pollfdList.set (s.channel ptr).index.toNat
    ⟨if events = kNone then -((s.channel ptr).fd : Int) - 1 else old.fd,events,kNone⟩
  channelMap : s'.channelMap = s.channelMap

theorem updateTo_unknown (inv : s.Indexed) (unknown : ¬s.Known ptr) (fresh : ¬s.Retired ptr) (events : PollEvents) :
    ∃ s', s.updateTo events ptr = .ok s' ∧ s.Appended s' ptr events := by
  have unadded : (s.channel ptr).addedToLoop = false := by
    rw [inv.added] at unknown
    simpa using unknown
  have negative : (s.channel ptr).index < 0 := by
    by_contra nonneg
    exact fresh ⟨by omega,unadded⟩
  refine ⟨_,by simp [updateTo,updateChannel,setChannel,negative,inv.unmapped unknown]; rfl,?_,?_,?_⟩
  · simp
  · simp
  · simp

theorem updateTo_known (inv : s.Indexed) (known : s.Known ptr) (events : PollEvents) :
    ∃ s', s.updateTo events ptr = .ok s' ∧ s.Rewritten s' ptr events := by
  obtain ⟨nonneg,pfd,there,fd,_⟩ := inv.entry ptr known
  have inside : (s.channel ptr).index < s.channelMap.size := by
    rw [inv.size]
    have := inv.index_lt known
    omega
  have mapped : s.channelMap[((s.channel ptr).fd : Int)]? = some ptr := known
  have found : s.pollfdList[(s.channel ptr).index.toNat]? = some pfd := there
  refine ⟨_,by simp [updateTo,updateChannel,setChannel,not_lt.mpr nonneg,mapped,nonneg,inside,found,fd]; rfl,?_,?_,?_⟩
  · rfl
  · refine ⟨pfd,there,?_⟩
    simp only [Channel.isNoneEvent,beq_iff_eq]
    split <;> rfl
  · rfl

theorem Appended.fd (appended : s.Appended s' ptr events) (p : κ) : (s'.channel p).fd = (s.channel p).fd := by
  rw [appended.channel,Function.update_apply]
  split <;> simp [*]

theorem Appended.known (appended : s.Appended s' ptr events) (inv : s.Indexed) (unknown : ¬s.Known ptr) :
    s'.Known p ↔ p = ptr ∨ s.Known p := by
  rw [Known,appended.fd,appended.channelMap,Std.TreeMap.getElem?_insert]
  by_cases same : p = ptr
  · subst same
    simp
  · have different : ((s.channel ptr).fd : Int) ≠ (s.channel p).fd := by
      intro equal
      exact same (inv.apart p ptr (by exact_mod_cast equal.symm))
    simp [different,same,Known]

theorem Appended.entryOf_self (appended : s.Appended s' ptr events) :
    s'.entryOf ptr = some ⟨(s.channel ptr).fd,events,kNone⟩ := by
  simp [entryOf,appended.channel,appended.pollfdList]

theorem Appended.entryOf_other (appended : s.Appended s' ptr events) (inv : s.Indexed)
    (known : s.Known p) (other : p ≠ ptr) :
    s'.entryOf p = s.entryOf p := by
  have inside := inv.index_lt known
  simp [entryOf,appended.channel,appended.pollfdList,other,List.getElem?_append_left inside]

theorem Appended.indexed (appended : s.Appended s' ptr events) (inv : s.Indexed) (unknown : ¬s.Known ptr) :
    s'.Indexed where
  apart a b same := inv.apart a b (by rw [← appended.fd,← appended.fd,same])
  size := by
    have uncontained : s.channelMap.contains ((s.channel ptr).fd : Int) = false := by
      rw [Std.TreeMap.contains_eq_isSome_getElem?,inv.unmapped unknown]
      rfl
    simp [appended.channelMap,appended.pollfdList,Std.TreeMap.size_insert,uncontained,inv.size]
  keyed fd p mapped := by
    rw [appended.fd]
    rw [appended.channelMap,Std.TreeMap.getElem?_insert] at mapped
    split at mapped
    · rename_i here
      cases mapped
      simpa using here
    · exact inv.keyed fd p mapped
  added p := by
    rw [appended.known inv unknown,inv.added,appended.channel,Function.update_apply]
    split <;> simp [*]
  entry p known := by
    by_cases same : p = ptr
    · subst same
      refine ⟨by simp [appended.channel],_,appended.entryOf_self,?_⟩
      simp [Stands,appended.channel]
    · have before : s.Known p := ((appended.known inv unknown).mp known).resolve_left same
      rw [appended.entryOf_other inv before same,appended.channel,Function.update_of_ne same]
      exact inv.entry p before
  owner i inside := by
    simp only [appended.pollfdList,List.length_append,List.length_singleton] at inside
    by_cases last : i = s.pollfdList.length
    · refine ⟨ptr,(appended.known inv unknown).mpr (.inl rfl),?_⟩
      simp [appended.channel,last]
    · obtain ⟨p,known,index⟩ := inv.owner i (by omega)
      have other : p ≠ ptr := by
        rintro rfl
        exact unknown known
      refine ⟨p,(appended.known inv unknown).mpr (.inr known),?_⟩
      rw [appended.channel,Function.update_of_ne other,index]

theorem Rewritten.fd (rewritten : s.Rewritten s' ptr events) (p : κ) : (s'.channel p).fd = (s.channel p).fd := by
  rw [rewritten.channel,Function.update_apply]
  split <;> simp [*]

theorem Rewritten.index (rewritten : s.Rewritten s' ptr events) (p : κ) :
    (s'.channel p).index = (s.channel p).index := by
  rw [rewritten.channel,Function.update_apply]
  split <;> simp [*]

theorem Rewritten.known (rewritten : s.Rewritten s' ptr events) : s'.Known p ↔ s.Known p := by
  rw [Known,rewritten.fd,rewritten.channelMap,Known]

theorem Rewritten.entryOf_self (rewritten : s.Rewritten s' ptr events) : ∃ old, s.entryOf ptr = some old ∧
    s'.entryOf ptr = some ⟨if events = kNone then -((s.channel ptr).fd : Int) - 1 else old.fd,events,kNone⟩ := by
  obtain ⟨old,before,list⟩ := rewritten.pollfdList
  have inside := (List.getElem?_eq_some_iff.mp before).1
  refine ⟨old,before,?_⟩
  rw [entryOf,rewritten.index,list,List.getElem?_set_self inside]

theorem Rewritten.entryOf_other (rewritten : s.Rewritten s' ptr events) (inv : s.Indexed)
    (here : s.Known ptr) (known : s.Known p)
    (other : p ≠ ptr) : s'.entryOf p = s.entryOf p := by
  obtain ⟨_,_,list⟩ := rewritten.pollfdList
  have apart : (s.channel ptr).index.toNat ≠ (s.channel p).index.toNat := by
    intro same
    have := (inv.entry ptr here).1
    have := (inv.entry p known).1
    exact other (inv.index_injective known here (by omega))
  rw [entryOf,rewritten.index,list,List.getElem?_set_ne apart,entryOf]

theorem Rewritten.indexed (rewritten : s.Rewritten s' ptr events) (inv : s.Indexed) (here : s.Known ptr) :
    s'.Indexed where
  apart a b same := inv.apart a b (by rw [← rewritten.fd,← rewritten.fd,same])
  size := by
    obtain ⟨_,_,list⟩ := rewritten.pollfdList
    simp [rewritten.channelMap,list,inv.size]
  keyed fd p mapped := by
    rw [rewritten.fd]
    rw [rewritten.channelMap] at mapped
    exact inv.keyed fd p mapped
  added p := by
    rw [rewritten.known,inv.added,rewritten.channel,Function.update_apply]
    split
    · rename_i same
      simpa [same] using (inv.added ptr).mp here
    · rfl
  entry p known := by
    rw [rewritten.known] at known
    rw [rewritten.index]
    by_cases same : p = ptr
    · subst same
      obtain ⟨old,before,after⟩ := rewritten.entryOf_self
      obtain ⟨nonneg,pfd,there,stands⟩ := inv.entry p known
      obtain rfl : old = pfd := Option.some.inj (before.symm.trans there)
      refine ⟨nonneg,_,after,?_⟩
      rw [rewritten.channel,Function.update_self]
      refine ⟨?_,rfl⟩
      dsimp only
      split
      · exact .inr rfl
      · exact stands.1
    · rw [rewritten.entryOf_other inv here known same,rewritten.channel,Function.update_of_ne same]
      exact inv.entry p known
  owner i inside := by
    obtain ⟨_,_,list⟩ := rewritten.pollfdList
    rw [list,List.length_set] at inside
    obtain ⟨p,known,index⟩ := inv.owner i inside
    exact ⟨p,rewritten.known.mpr known,by rw [rewritten.index,index]⟩

/-- An update touches its own channel and entry only, and negates a descriptor only when
no events are left. -/
theorem Indexed.updateTo (inv : s.Indexed) (fresh : ¬s.Retired ptr) (events : PollEvents) :
    ∃ s' pfd, s.updateTo events ptr = .ok s' ∧
    s'.Indexed ∧ (∃ index, s'.channel =
      Function.update s.channel ptr { s.channel ptr with events, addedToLoop := true, index }) ∧
    (∀ p ≠ ptr, s.Known p → s'.entryOf p = s.entryOf p) ∧ s'.entryOf ptr = some pfd ∧
    (pfd.fd < 0 → events = kNone ∨ s.Known ptr ∧ ∃ old, s.entryOf ptr = some old ∧ old.fd < 0) := by
  by_cases known : s.Known ptr
  · obtain ⟨s',updated,rewritten⟩ := updateTo_known inv known events
    obtain ⟨old,before,after⟩ := rewritten.entryOf_self
    refine ⟨s',_,updated,rewritten.indexed inv known,⟨_,rewritten.channel⟩,?_,after,?_⟩
    · exact fun p other there => rewritten.entryOf_other inv known there other
    · intro negated
      by_cases none : events = kNone
      · exact .inl none
      · rw [if_neg none] at negated
        exact .inr ⟨known,old,before,negated⟩
  · obtain ⟨s',updated,appended⟩ := updateTo_unknown inv known fresh events
    refine ⟨s',_,updated,appended.indexed inv known,⟨_,appended.channel⟩,?_,appended.entryOf_self,?_⟩
    · exact fun p other there => appended.entryOf_other inv there other
    · intro negated
      dsimp only at negated
      omega

theorem Indexed.update (inv : s.Indexed) (fresh : ¬s.Retired ptr) (interest : Interest) :
    ∃ s' pfd, s.update interest ptr = .ok s' ∧ s'.Indexed ∧
    (∃ index, s'.channel = Function.update s.channel ptr
      { s.channel ptr with events := interest.mask (s.channel ptr).events, addedToLoop := true, index }) ∧
    (∀ p ≠ ptr, s.Known p → s'.entryOf p = s.entryOf p) ∧ s'.entryOf ptr = some pfd ∧
    (pfd.fd < 0 → interest.mask (s.channel ptr).events = kNone ∨
      s.Known ptr ∧ ∃ old, s.entryOf ptr = some old ∧ old.fd < 0) :=
  inv.updateTo fresh (interest.mask (s.channel ptr).events)

/-- Removal: the last entry fills the gap and its channel gets the index. -/
structure Erased (s s' : State κ) (ptr : κ) : Prop where
  length : s'.pollfdList.length = s.pollfdList.length - 1
  pollfdList : ∀ j < s.pollfdList.length - 1, s'.pollfdList[j]? =
    if (j : Int) = (s.channel ptr).index then s.pollfdList[s.pollfdList.length - 1]? else s.pollfdList[j]?
  channelMap : s'.channelMap = s.channelMap.erase ((s.channel ptr).fd : Int)
  self : s'.channel ptr = { s.channel ptr with addedToLoop := false }
  others : ∀ p ≠ ptr, s'.channel p =
    if s.Known p ∧ (s.channel p).index =
      (s.pollfdList.length - 1 : Nat) then { s.channel p with index := (s.channel ptr).index }
    else s.channel p

theorem remove_last (inv : s.Indexed) (known : s.Known ptr) (idle : (s.channel ptr).isNoneEvent = true)
    (final : (s.channel ptr).index = s.pollfdList.length - 1) : ∃ s', s.remove ptr = .ok s' ∧ s.Erased s' ptr := by
  have mapped : s.channelMap[((s.channel ptr).fd : Int)]? = some ptr := known
  have nonneg := (inv.entry ptr known).1
  have bound : (s.channel ptr).index < s.pollfdList.length := by omega
  have idle' : ({ s.channel ptr with addedToLoop := false } : Channel).isNoneEvent = true := idle
  refine ⟨{ s.setChannel ptr { s.channel ptr with addedToLoop := false } with
    channelMap := s.channelMap.erase ((s.channel ptr).fd : Int), pollfdList :=
      s.pollfdList.dropLast },?_,?_,?_,?_,?_,?_⟩
  · rw [State.remove,assert_of idle]
    simp [removeChannel,setChannel,idle',mapped,nonneg,bound]
    simp [final]
  · simp
  · intro j below
    rw [if_neg (by omega),List.getElem?_dropLast,if_pos below]
  · rfl
  · simp [setChannel]
  · intro p other
    rw [if_neg]
    · simp [setChannel,other]
    rintro ⟨known',index'⟩
    exact other (inv.index_injective known' known (by omega))

omit [DecidableEq κ] in
/-- The last entry leads to the channel that owns it, negated or not. -/
theorem Indexed.last (inv : s.Indexed) (some : 0 < s.pollfdList.length) : ∃ p back, s.Known p ∧
    (s.channel p).index = (s.pollfdList.length - 1 : Nat) ∧ s.pollfdList[s.pollfdList.length - 1]? = .some back ∧
    (if back.fd < 0 then -back.fd - 1 else back.fd) = (s.channel p).fd := by
  obtain ⟨p,known,index⟩ := inv.owner (s.pollfdList.length - 1) (by omega)
  obtain ⟨_,back,stored,fd,_⟩ := inv.entry p known
  rw [entryOf,index] at stored
  refine ⟨p,back,known,index,by simpa using stored,?_⟩
  split <;> omega

theorem remove_inner (inv : s.Indexed) (known : s.Known ptr) (idle : (s.channel ptr).isNoneEvent = true)
    (inner : (s.channel ptr).index ≠ s.pollfdList.length - 1) : ∃ s', s.remove ptr = .ok s' ∧ s.Erased s' ptr := by
  have mapped : s.channelMap[((s.channel ptr).fd : Int)]? = some ptr := known
  have nonneg := (inv.entry ptr known).1
  have inside := inv.index_lt known
  have bound : (s.channel ptr).index < s.pollfdList.length := by omega
  have idle' : ({ s.channel ptr with addedToLoop := false } : Channel).isNoneEvent = true := idle
  obtain ⟨last,back,there,index,stored,fdAtEnd⟩ := inv.last (by omega)
  have distinct : last ≠ ptr := by
    rintro rfl
    omega
  -- the channel the last entry leads to is still in the map
  have different : ((s.channel ptr).fd : Int) ≠ (s.channel last).fd := by
    intro equal
    exact distinct (inv.apart last ptr (by exact_mod_cast equal.symm))
  have survives : (s.channelMap.erase ((s.channel ptr).fd : Int))[((s.channel last).fd : Int)]? = some last := by
    rw [Std.TreeMap.getElem?_erase,if_neg (by simpa using different)]
    exact there
  refine ⟨{ (s.setChannel ptr { s.channel ptr with addedToLoop := false }).setChannel last
      { s.channel last with index := (s.channel ptr).index } with
    channelMap := s.channelMap.erase ((s.channel ptr).fd : Int),
    pollfdList := (iterSwap s.pollfdList (s.channel ptr).index.toNat (s.pollfdList.length - 1)).dropLast },
      ?_,?_,?_,?_,?_,?_⟩
  · rw [State.remove,assert_of idle]
    simp [removeChannel,setChannel,idle',mapped,nonneg,bound,inner,stored,fdAtEnd,survives,distinct]
  · simp [length_iterSwap]
  · intro j below
    rw [getElem?_swapErase stored inside,if_pos below,stored]
    congr 1
    apply propext
    omega
  · rfl
  · simp [setChannel,distinct.symm]
  · intro p other
    by_cases same : p = last
    · subst same
      rw [if_pos ⟨there,index⟩]
      simp [setChannel]
    · rw [if_neg]
      · simp [setChannel,same,other]
      rintro ⟨known',index'⟩
      exact same (inv.index_injective known' there (by omega))

theorem remove_known (inv : s.Indexed) (known : s.Known ptr) (idle : (s.channel ptr).events = kNone) :
    ∃ s', s.remove ptr = .ok s' ∧ s.Erased s' ptr := by
  have idle : (s.channel ptr).isNoneEvent = true := by simp [Channel.isNoneEvent,idle]
  by_cases final : (s.channel ptr).index = s.pollfdList.length - 1
  · exact remove_last inv known idle final
  · exact remove_inner inv known idle final

theorem Erased.channel (erased : s.Erased s' ptr) (p : κ) :
    ∃ index addedToLoop, s'.channel p = { s.channel p with index, addedToLoop } := by
  by_cases same : p = ptr
  · exact ⟨_,_,by rw [same,erased.self]⟩
  · rw [erased.others p same]
    split
    · exact ⟨_,_,rfl⟩
    · exact ⟨_,_,rfl⟩

theorem Erased.fd (erased : s.Erased s' ptr) (p : κ) : (s'.channel p).fd = (s.channel p).fd := by
  obtain ⟨_,_,same⟩ := erased.channel p
  rw [same]

theorem Erased.events (erased : s.Erased s' ptr) (p : κ) : (s'.channel p).events = (s.channel p).events := by
  obtain ⟨_,_,same⟩ := erased.channel p
  rw [same]

theorem Erased.addedToLoop (erased : s.Erased s' ptr) (p : κ) :
    (s'.channel p).addedToLoop = if p = ptr then false else (s.channel p).addedToLoop := by
  split
  · rename_i same
    rw [same,erased.self]
  · rename_i other
    rw [erased.others p other]
    split <;> rfl

theorem Erased.known (erased : s.Erased s' ptr) (inv : s.Indexed) : s'.Known p ↔ p ≠ ptr ∧ s.Known p := by
  rw [Known,erased.fd,erased.channelMap,Std.TreeMap.getElem?_erase]
  by_cases same : p = ptr
  · subst same
    simp
  · have different : ((s.channel ptr).fd : Int) ≠ (s.channel p).fd := by
      intro equal
      exact same (inv.apart p ptr (by exact_mod_cast equal.symm))
    simp [different,same,Known]

/-- Every other channel keeps its entry, the last one under its new index. -/
theorem Erased.entryOf_other (erased : s.Erased s' ptr) (inv : s.Indexed) (here : s.Known ptr) (known : s.Known p)
    (other : p ≠ ptr) : 0 ≤ (s'.channel p).index ∧ s'.entryOf p = s.entryOf p := by
  have nonneg := (inv.entry ptr here).1
  have nonneg' := (inv.entry p known).1
  have inside := inv.index_lt here
  have inside' := inv.index_lt known
  have apart : (s.channel p).index ≠ (s.channel ptr).index := fun same => other (inv.index_injective known here same)
  rw [entryOf,entryOf,erased.others p other]
  split
  · rename_i last
    refine ⟨nonneg,?_⟩
    dsimp only
    rw [erased.pollfdList _ (by omega),if_pos (by omega),last.2]
    simp
  · rename_i inner
    have below : (s.channel p).index ≠ (s.pollfdList.length - 1 : Nat) := fun last => inner ⟨known,last⟩
    refine ⟨nonneg',?_⟩
    rw [erased.pollfdList _ (by omega),if_neg (by omega)]

theorem Erased.indexed (erased : s.Erased s' ptr) (inv : s.Indexed) (here : s.Known ptr) : s'.Indexed where
  apart a b same := inv.apart a b (by rw [← erased.fd,← erased.fd,same])
  size := by
    have contained : s.channelMap.contains ((s.channel ptr).fd : Int) = true := by
      rw [Std.TreeMap.contains_eq_isSome_getElem?,show s.channelMap[((s.channel ptr).fd : Int)]? = some ptr from here]
      rfl
    rw [erased.channelMap,erased.length,Std.TreeMap.size_erase,if_pos contained,inv.size]
  keyed fd p mapped := by
    rw [erased.fd]
    rw [erased.channelMap,Std.TreeMap.getElem?_erase] at mapped
    split at mapped
    · cases mapped
    · exact inv.keyed fd p mapped
  added p := by
    rw [erased.known inv,erased.addedToLoop,inv.added]
    split <;> simp [*]
  entry p known := by
    obtain ⟨other,before⟩ := (erased.known inv).mp known
    obtain ⟨nonneg,same⟩ := erased.entryOf_other inv here before other
    obtain ⟨_,pfd,there,stands⟩ := inv.entry p before
    refine ⟨nonneg,pfd,same.trans there,?_⟩
    rw [erased.others p other]
    split <;> exact stands
  owner i inside := by
    rw [erased.length] at inside
    have nonneg := (inv.entry ptr here).1
    by_cases gap : (i : Int) = (s.channel ptr).index
    · -- the gap is not the last place, so the owner of the last place has moved here
      obtain ⟨last,known,index⟩ := inv.owner (s.pollfdList.length - 1) (by omega)
      have other : last ≠ ptr := by
        rintro rfl
        omega
      refine ⟨last,(erased.known inv).mpr ⟨other,known⟩,?_⟩
      rw [erased.others last other,if_pos ⟨known,index⟩]
      exact gap.symm
    · obtain ⟨p,known,index⟩ := inv.owner i (by omega)
      have other : p ≠ ptr := by
        rintro rfl
        exact gap index.symm
      refine ⟨p,(erased.known inv).mpr ⟨other,known⟩,?_⟩
      rw [erased.others p other,if_neg (by omega),index]

/-- A poll changes the returned events only. -/
structure Polled (answer : Pollfd → PollEvents) (s s' : State κ) : Prop where
  channel : ∀ p, ∃ revents, s'.channel p = { s.channel p with revents }
  pollfdList : s'.pollfdList = s.pollfdList.map (answered answer)
  channelMap : s'.channelMap = s.channelMap

omit [DecidableEq κ] in
theorem Polled.known (polled : Polled answer s s') : s'.Known p ↔ s.Known p := by
  obtain ⟨revents,same⟩ := polled.channel p
  simp [Known,same,polled.channelMap]

omit [DecidableEq κ] in
theorem Polled.entryOf (polled : Polled answer s s') (p : κ) : s'.entryOf p = (s.entryOf p).map (answered answer) := by
  obtain ⟨revents,same⟩ := polled.channel p
  simp [State.entryOf,same,polled.pollfdList]

omit [DecidableEq κ] in
theorem Polled.indexed (polled : Polled answer s s') (inv : s.Indexed) : s'.Indexed where
  apart a b same := by
    obtain ⟨_,first⟩ := polled.channel a
    obtain ⟨_,second⟩ := polled.channel b
    exact inv.apart a b (by simpa [first,second] using same)
  size := by simp [polled.channelMap,polled.pollfdList,inv.size]
  keyed fd p mapped := by
    obtain ⟨_,same⟩ := polled.channel p
    rw [polled.channelMap] at mapped
    simpa [same] using inv.keyed fd p mapped
  added p := by
    obtain ⟨_,same⟩ := polled.channel p
    simp [polled.known,inv.added,same]
  entry p known := by
    obtain ⟨_,same⟩ := polled.channel p
    obtain ⟨nonneg,pfd,there,stands⟩ := inv.entry p (polled.known.mp known)
    refine ⟨by simpa [same] using nonneg,answered answer pfd,by rw [polled.entryOf,there,Option.map_some],?_⟩
    rw [same]
    exact stands
  owner i inside := by
    rw [polled.pollfdList,List.length_map] at inside
    obtain ⟨p,known,index⟩ := inv.owner i inside
    obtain ⟨_,same⟩ := polled.channel p
    exact ⟨p,polled.known.mpr known,by simpa [same] using index⟩

/-- The entries that have events, each with its channel, up to the number of events. -/
theorem fillLoop_spec (l : List Pollfd) (found : ∀ pfd ∈ l, pfd.revents ≠ kNone → ∃ ptr,
      s.channelMap[pfd.fd]? = some ptr ∧ ((s.channel ptr).fd : Int) = pfd.fd) (numEvents : Int) (active : List κ) :
    ∃ s', s.fillLoop l numEvents active = .ok (s',active ++
        ((l.filter fun pfd => pfd.revents ≠ kNone).filterMap fun pfd =>
          s.channelMap[pfd.fd]?).take (max 1 numEvents.toNat)) ∧
      (∀ p, ∃ revents, s'.channel p = { s.channel p with revents }) ∧
      s'.pollfdList = s.pollfdList ∧ s'.channelMap = s.channelMap := by
  induction l generalizing s active numEvents with
  | nil => exact ⟨s,by simp [fillLoop],fun p => ⟨_,rfl⟩,rfl,rfl⟩
  | cons pfd rest ih =>
    have later pfd (among : pfd ∈ rest) := found pfd (List.mem_cons_of_mem _ among)
    by_cases silent : pfd.revents = kNone
    · obtain ⟨s',filled,frame⟩ := ih later numEvents active
      exact ⟨s',by simpa [fillLoop,silent] using filled,frame⟩
    · obtain ⟨ptr,mapped,own⟩ := found pfd List.mem_cons_self silent
      let t : State κ := s.setChannel ptr { s.channel ptr with revents := pfd.revents }
      have marked (p : κ) : ∃ revents, t.channel p = { s.channel p with revents } := by
        by_cases same : p = ptr
        · exact ⟨pfd.revents,by simp [t,setChannel,same]⟩
        · exact ⟨(s.channel p).revents,by simp [t,setChannel,same]⟩
      rw [fillLoop,if_pos silent,mapped,List.filter_cons_of_pos (by simpa using silent),List.filterMap_cons]
      simp only [mapped,assert_of own,ok_bind]
      by_cases more : numEvents - 1 ≤ 0
      · have one : max 1 numEvents.toNat = 1 := by omega
        refine ⟨t,?_,marked,rfl,rfl⟩
        rw [if_pos more,one,List.take_succ_cons,List.take_zero]
        rfl
      · obtain ⟨s',filled,frame,list,map⟩ := ih (s := t) (by
          intro pfd among events
          obtain ⟨p,mapped,own⟩ := later pfd among events
          obtain ⟨_,same⟩ := marked p
          exact ⟨p,mapped,by simpa [same] using own⟩) (numEvents - 1) (active ++ [ptr])
        have count : max 1 numEvents.toNat = max 1 (numEvents - 1).toNat + 1 := by omega
        refine ⟨s',?_,?_,list,map⟩
        · rw [if_neg more,count,List.take_succ_cons]
          rw [List.append_assoc] at filled
          exact filled
        · intro p
          obtain ⟨_,first⟩ := marked p
          obtain ⟨_,second⟩ := frame p
          exact ⟨_,by rw [second,first]⟩

omit [DecidableEq κ] in
theorem Indexed.mapped_of_entry (inv : s.Indexed) (among : pfd ∈ s.pollfdList) (watched : 0 ≤ pfd.fd) :
    ∃ ptr, s.Known ptr ∧ s.entryOf ptr = some pfd ∧ ((s.channel ptr).fd : Int) = pfd.fd := by
  obtain ⟨i,inside,rfl⟩ := List.mem_iff_getElem.mp among
  obtain ⟨ptr,known,index⟩ := inv.owner i inside
  obtain ⟨_,pfd,there,fd,_⟩ := inv.entry ptr known
  have same : s.entryOf ptr = some s.pollfdList[i] := by simp [entryOf,index]
  obtain rfl := Option.some.inj (there.symm.trans same)
  exact ⟨ptr,known,there,by omega⟩

omit [DecidableEq κ] in
/-- The lookup of `FillActiveChannels` finds the channel of every entry with events: the
kernel wrote none into the negated ones. -/
theorem Indexed.found (inv : s.Indexed) (answer : Pollfd → PollEvents)
    (among : pfd ∈ s.pollfdList.map (answered answer))
    (events : pfd.revents ≠ kNone) : ∃ ptr, s.channelMap[pfd.fd]? = some ptr ∧ ((s.channel ptr).fd : Int) = pfd.fd := by
  obtain ⟨old,present,rfl⟩ := List.mem_map.mp among
  have watched : 0 ≤ old.fd := by
    by_contra negated
    simp [answered,not_le.mp negated] at events
  obtain ⟨ptr,known,_,fd⟩ := inv.mapped_of_entry present watched
  exact ⟨ptr,by rw [show (answered answer old).fd = old.fd from rfl,← fd]; exact known,fd⟩

/-- Whatever poll(2) answers, the channels of the entries with events are found. -/
theorem Indexed.pollWith (inv : s.Indexed) (answer : Pollfd → PollEvents) (numEvents : Int) :
    ∃ s', s.pollWith answer numEvents = .ok (s',if 0 < numEvents then
        (((s.pollfdList.map (answered answer)).filter fun pfd => pfd.revents ≠ kNone).filterMap
          fun pfd => s.channelMap[pfd.fd]?).take (max 1 numEvents.toNat) else []) ∧ Polled answer s s' := by
  let t : State κ := { s with pollfdList := s.pollfdList.map (answered answer) }
  rw [State.pollWith]
  split
  · obtain ⟨s',filled,channel,list,map⟩ :=
      fillLoop_spec (s := t) t.pollfdList (fun _ among => inv.found answer among) numEvents []
    exact ⟨s',filled,channel,list,map⟩
  · exact ⟨t,rfl,fun p => ⟨_,rfl⟩,rfl,rfl⟩

theorem poll_eq (s : State κ) (ready : Nat → PollEvents) : s.poll ready =
    s.pollWith (fun pfd => (ready pfd.fd.toNat).reported pfd.events)
      ((s.pollfdList.map (systemPoll ready)).countP fun pfd => pfd.revents ≠ kNone) := by
  rw [State.poll,State.pollWith]
  simp only [Int.natCast_pos]
  rfl

omit [DecidableEq κ] in
/-- With the number of entries that have events, none of them is left out. -/
theorem take_ready (l : List Pollfd) (f : Pollfd → Option κ) (counted : (l.countP fun pfd => pfd.revents ≠ kNone) = n) :
    (if 0 < (n : Int) then ((l.filter fun pfd => pfd.revents ≠ kNone).filterMap f).take
      (max 1 (n : Int).toNat) else []) =
      (l.filter fun pfd => pfd.revents ≠ kNone).filterMap f := by
  have short := List.length_filterMap_le f (l.filter fun pfd => pfd.revents ≠ kNone)
  rw [← List.countP_eq_length_filter,counted] at short
  split
  · exact List.take_of_length_le (by omega)
  · exact (List.eq_nil_of_length_eq_zero (by omega)).symm

/-- A poll succeeds and hands back the channels whose entries it found ready. -/
theorem Indexed.poll (inv : s.Indexed) (ready : Nat → PollEvents) : ∃ s' active, s.poll ready = .ok (s',active) ∧
    s'.Indexed ∧ ∀ ptr, ptr ∈ active ↔ ∃ pfd ∈ s.pollfdList, (systemPoll ready pfd).revents ≠ kNone ∧
      s.channelMap[pfd.fd]? = some ptr := by
  obtain ⟨s',polled,changed⟩ := inv.pollWith (fun pfd => (ready pfd.fd.toNat).reported pfd.events)
    ((s.pollfdList.map (systemPoll ready)).countP fun pfd => pfd.revents ≠ kNone)
  rw [← poll_eq] at polled
  refine ⟨s',_,polled,changed.indexed inv,?_⟩
  intro ptr
  rw [show (answered fun pfd => (ready pfd.fd.toNat).reported pfd.events) =
    systemPoll ready from rfl,take_ready _ _ rfl]
  simp [systemPoll,and_assoc]

end Invariant

end State
end Poller
end Evk
