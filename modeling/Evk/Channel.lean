import Evk.Fault
import Evk.Posix

/-! Channels and the epoll backend. A poller keeps, for one descriptor, the channel in
its map and the entry in the kernel's interest set; `Slot` is that pair, and every
poller operation touches the slot of the channel's descriptor only. -/
namespace Evk

def kNone : PollEvents := {}
def kReadable : PollEvents := { pollin := true, pollpri := true }
def kWritable : PollEvents := { pollout := true }

namespace PollEvents

def union (a b : PollEvents) : PollEvents :=
  ⟨a.pollin || b.pollin,a.pollpri || b.pollpri,a.pollout || b.pollout,a.pollerr || b.pollerr,
    a.pollhup || b.pollhup,a.pollnval || b.pollnval,a.pollrdhup || b.pollrdhup⟩

def diff (a b : PollEvents) : PollEvents :=
  ⟨a.pollin && !b.pollin,a.pollpri && !b.pollpri,a.pollout && !b.pollout,a.pollerr && !b.pollerr,
    a.pollhup && !b.pollhup,a.pollnval && !b.pollnval,a.pollrdhup && !b.pollrdhup⟩

/-- What `epoll_wait` may report for a registered mask: errors and hang-ups always,
every other bit only if it was asked for. -/
def Reportable (revents mask : PollEvents) : Prop :=
  (revents.pollin = true → mask.pollin = true) ∧ (revents.pollpri = true → mask.pollpri = true) ∧
  (revents.pollout = true → mask.pollout = true) ∧ (revents.pollnval = true → mask.pollnval = true) ∧
  (revents.pollrdhup = true → mask.pollrdhup = true)

instance (revents mask : PollEvents) : Decidable (revents.Reportable mask) :=
  inferInstanceAs (Decidable (_ ∧ _))

end PollEvents

/-- The values of `index_` under the epoll backend. -/
def kNew : Int := -1
def kAdded : Int := 1
def kDeleted : Int := 2

structure Channel where
  fd : Nat
  events : PollEvents
  revents : PollEvents
  index : Int
  eventHandling : Bool
  addedToLoop : Bool
  deriving DecidableEq, Repr

namespace Channel

def construct (fd : Nat) : Channel := ⟨fd,kNone,kNone,kNew,false,false⟩

def isWriting (ch : Channel) : Bool := ch.events.pollout
def isNoneEvent (ch : Channel) : Bool := ch.events == kNone

end Channel

/-- The channel map and the kernel's interest set at one descriptor. Channels are
named by their address `κ`. -/
structure Slot (κ : Type) where
  channelMap : Option κ
  interest : Option (κ × PollEvents)
  deriving DecidableEq, Repr

def Slot.empty : Slot κ := ⟨none,none⟩

inductive EpollOp where
  | add | mod | del
  deriving DecidableEq, Repr

namespace EPoller

variable {κ : Type} [DecidableEq κ]

/-- `epoll_ctl` and what `EPoller::Update` makes of its result: a failed deletion is
logged, any other failure is fatal. -/
def update (ptr : κ) (op : EpollOp) (ch : Channel) (slot : Slot κ) : Except Fault (Slot κ) :=
  match op, slot.interest with
  | .add, none | .mod, some _ => .ok { slot with interest := some (ptr,ch.events) }
  | .add, some _ | .mod, none => .error .fatal
  | .del, _ => .ok { slot with interest := none }

def updateChannel (ptr : κ) (ch : Channel) (slot : Slot κ) : Except Fault (Channel × Slot κ) := do
  if ch.index = kNew ∨ ch.index = kDeleted then
    let slot ← if ch.index = kNew then do
        assert (slot.channelMap = none) .updateChannel
        pure { slot with channelMap := some ptr }
      else do
        assert (slot.channelMap ≠ none) .updateChannel
        assert (slot.channelMap = some ptr) .updateChannel
        pure slot
    let ch := { ch with index := kAdded }
    return (ch,← update ptr .add ch slot)
  else
    return (ch,← update ptr .mod ch slot)

/-- The second assertion of the source assigns the map entry before it is erased. -/
def removeChannel (ptr : κ) (ch : Channel) (slot : Slot κ) : Except Fault (Channel × Slot κ) := do
  assert (slot.channelMap ≠ none) .removeChannel
  let slot := { slot with channelMap := some ptr }
  assert ch.isNoneEvent .removeChannel
  let idx := ch.index
  assert (idx = kAdded ∨ idx = kDeleted) .removeChannel
  let slot := { slot with channelMap := none }
  let slot ← if idx = kAdded then update ptr .del ch slot else pure slot
  return ({ ch with index := kNew },slot)

end EPoller

namespace Channel

variable {κ : Type} [DecidableEq κ]

def update (ptr : κ) (ch : Channel) (slot : Slot κ) : Except Fault (Channel × Slot κ) :=
  EPoller.updateChannel ptr { ch with addedToLoop := true } slot

def remove (ptr : κ) (ch : Channel) (slot : Slot κ) : Except Fault (Channel × Slot κ) := do
  assert ch.isNoneEvent .channelRemove
  EPoller.removeChannel ptr { ch with addedToLoop := false } slot

def enableReadEvent (ptr : κ) (ch : Channel) (slot : Slot κ) :=
  update ptr { ch with events := ch.events.union kReadable } slot
def enableWriteEvent (ptr : κ) (ch : Channel) (slot : Slot κ) :=
  update ptr { ch with events := ch.events.union kWritable } slot
def disableReadEvent (ptr : κ) (ch : Channel) (slot : Slot κ) :=
  update ptr { ch with events := ch.events.diff kReadable } slot
def disableWriteEvent (ptr : κ) (ch : Channel) (slot : Slot κ) :=
  update ptr { ch with events := ch.events.diff kWritable } slot
def disableAllEvent (ptr : κ) (ch : Channel) (slot : Slot κ) :=
  update ptr { ch with events := kNone } slot

/-- `FillActiveChannels` for one reported event. -/
def fillActive (ptr : κ) (ch : Channel) (slot : Slot κ) (revents : PollEvents) : Except Fault Channel := do
  assert (slot.channelMap ≠ none) .fillActiveChannels
  assert (slot.channelMap = some ptr) .fillActiveChannels
  return { ch with revents }

def destroy (ch : Channel) : Except Fault Unit := do
  assert (!ch.eventHandling) .channelDestructor
  assert (!ch.addedToLoop) .channelDestructor

theorem destroy_added (ch : Channel) (added : ch.addedToLoop = true) :
    ch.destroy = .error (.assertion .channelDestructor) := by
  rw [destroy,added]
  cases ch.eventHandling <;> rfl

/-- The four tests `HandleEvent` makes on `revents_`, in its order. -/
def wantsClose (revents : PollEvents) : Bool := revents.pollhup && !revents.pollin
def wantsError (revents : PollEvents) : Bool := revents.pollerr || revents.pollnval
def wantsRead (revents : PollEvents) : Bool := revents.pollin || revents.pollpri || revents.pollrdhup
def wantsWrite (revents : PollEvents) : Bool := revents.pollout

/-- A channel its poller knows: in the map, in the kernel with its mask, marked added. -/
structure Registered (ptr : κ) (ch : Channel) (slot : Slot κ) : Prop where
  added : ch.addedToLoop = true
  index : ch.index = kAdded
  mapped : slot.channelMap = some ptr
  interest : slot.interest = some (ptr,ch.events)

structure Unregistered (ch : Channel) (slot : Slot κ) : Prop where
  added : ch.addedToLoop = false
  index : ch.index = kNew
  slot : slot = Slot.empty

variable {ptr : κ} {ch : Channel} {slot : Slot κ}

theorem update_registered (registered : Registered ptr ch slot) (events : PollEvents) :
    update ptr { ch with events } slot =
      .ok ({ ch with events },{ slot with interest := some (ptr,events) }) := by
  obtain ⟨added,index,mapped,interest⟩ := registered
  have known : ¬(ch.index = kNew ∨ ch.index = kDeleted) := by rw [index]; decide
  simp [update,EPoller.updateChannel,EPoller.update,known,interest,← added]

omit [DecidableEq κ] in
theorem registered_update (registered : Registered ptr ch slot) (events : PollEvents) :
    Registered ptr { ch with events } { slot with interest := some (ptr,events) } :=
  ⟨registered.added,registered.index,registered.mapped,rfl⟩

theorem update_unregistered (unregistered : Unregistered ch slot) (events : PollEvents) :
    update ptr { ch with events } slot =
      .ok ({ ch with events, addedToLoop := true, index := kAdded },
        ⟨some ptr,some (ptr,events)⟩) := by
  obtain ⟨added,index,rfl⟩ := unregistered
  simp [update,EPoller.updateChannel,EPoller.update,index,Slot.empty]

def Rearmed (ch ch' : Channel) : Prop :=
  ∃ pollout addedToLoop index, ch' = { ch with events := { ch.events with pollout }, addedToLoop, index }

theorem Rearmed.refl : Rearmed ch ch := ⟨_,_,_,rfl⟩

/-- Registered or unknown: the states in which the poller's records of a channel agree. -/
def Consistent (ptr : κ) (ch : Channel) (slot : Slot κ) : Prop :=
  Registered ptr ch slot ∨ Unregistered ch slot

theorem update_consistent (consistent : Consistent ptr ch slot) (events : PollEvents) :
    ∃ ch' slot', update ptr { ch with events } slot = .ok (ch',slot') ∧ Registered ptr ch' slot' ∧
      ch' = { ch with events, addedToLoop := true, index := kAdded } := by
  rcases consistent with registered | unregistered
  · refine ⟨_,_,update_registered registered events,registered_update registered events,?_⟩
    rw [← registered.added,← registered.index]
  · exact ⟨_,_,update_unregistered unregistered events,⟨rfl,rfl,rfl,rfl⟩,rfl⟩

omit [DecidableEq κ] in
theorem remove_registered (registered : Registered ptr ch slot) (idle : ch.events = kNone) :
    remove ptr ch slot =
      .ok ({ ch with addedToLoop := false, index := kNew },Slot.empty) := by
  obtain ⟨added,index,mapped,interest⟩ := registered
  simp [remove,EPoller.removeChannel,EPoller.update,isNoneEvent,idle,index,mapped,Slot.empty]

end Channel
end Evk
