import Evk.EPoller

/-! The dealings of one channel with its poller. Whatever the owner of a channel does to
it is a turn, made of calls of the poller; a poller that holds the channel can follow
each turn by its own steps, and leaves the other channels alone. -/
namespace Evk

namespace Channel

/-- Calls of the poller for one channel, and what the loop notes in the channel. -/
inductive Turn {κ : Type} [DecidableEq κ] (ptr : κ) : Channel → Slot κ → Channel → Slot κ → Prop where
  | mark (revents : PollEvents) (eventHandling : Bool) : Turn ptr ch slot { ch with revents, eventHandling } slot
  | update (interest : Interest) (done : interest.run ptr ch slot = .ok (ch',slot')) : Turn ptr ch slot ch' slot'
  | remove (done : ch.remove ptr slot = .ok (ch',slot')) : Turn ptr ch slot ch' slot'
  | trans (first : Turn ptr ch slot ch' slot') (second : Turn ptr ch' slot' ch'' slot'') : Turn ptr ch slot ch'' slot''

variable {κ : Type} [DecidableEq κ] {ptr : κ} {ch ch' : Channel} {slot slot' : Slot κ}

theorem Turn.refl : Turn ptr ch slot ch slot := .mark ch.revents ch.eventHandling

theorem update_fd (ptr : κ) (ch : Channel) (slot : Slot κ) :
    Ensures (fun result => result.1.fd = ch.fd) (update ptr ch slot) := by
  unfold update EPoller.updateChannel
  split
  · dsimp only
    split
    · exact (Ensures.any _).bind fun _ _ => (Ensures.any _).bind fun _ _ => (Ensures.any _).bind fun _ _ => .ok rfl
    · exact (Ensures.any _).bind fun _ _ => (Ensures.any _).bind fun _ _ => (Ensures.any _).bind fun _ _ =>
        (Ensures.any _).bind fun _ _ => .ok rfl
  · exact (Ensures.any _).bind fun _ _ => .ok rfl

omit [DecidableEq κ] in
theorem remove_fd (ptr : κ) (ch : Channel) (slot : Slot κ) :
    Ensures (fun result => result.1.fd = ch.fd) (remove ptr ch slot) := by
  unfold remove EPoller.removeChannel
  refine (Ensures.any _).bind fun _ _ => (Ensures.any _).bind fun _ _ => (Ensures.any _).bind fun _ _ =>
    (Ensures.any _).bind fun _ _ => ?_
  dsimp only
  split
  · exact (Ensures.any _).bind fun _ _ => .ok rfl
  · exact .ok rfl

theorem Turn.fd (turn : Turn ptr ch slot ch' slot') : ch'.fd = ch.fd := by
  induction turn with
  | mark => rfl
  | update interest done =>
    rw [interest.run_eq] at done
    exact update_fd _ _ _ _ done
  | remove done => exact remove_fd _ _ _ _ done
  | trans _ _ first second => exact second.trans first

omit [DecidableEq κ] in
theorem Registered.slot_eq (registered : Registered ptr ch slot) : slot = ⟨some ptr,some (ptr,ch.events)⟩ := by
  obtain ⟨channelMap,interest⟩ := slot
  obtain ⟨-,-,rfl,rfl⟩ := registered
  rfl

/-- What an update makes of a consistent channel, registered before or not. -/
theorem run_consistent (interest : Interest) (consistent : Consistent ptr ch slot) :
    interest.run ptr ch slot =
      .ok ({ ch with events := interest.mask ch.events, addedToLoop := true, index := kAdded },
        ⟨some ptr,some (ptr,interest.mask ch.events)⟩) := by
  obtain ⟨ch',slot',done,registered,rfl⟩ := update_consistent consistent (interest.mask ch.events)
  rw [interest.run_eq,done,registered.slot_eq]

omit [DecidableEq κ] in
theorem removed_consistent (consistent : Consistent ptr ch slot) (done : ch.remove ptr slot = .ok (ch',slot')) :
    Registered ptr ch slot ∧ ch.events = kNone ∧ ch' = { ch with addedToLoop := false, index := kNew } ∧
      slot' = .empty := by
  rcases consistent with registered | unknown
  · obtain ⟨_,none,-⟩ := bind_ok_iff.mp done
    have idle : ch.events = kNone := by simpa [isNoneEvent] using assert_ok_iff.mp none
    rw [remove_registered registered idle] at done
    cases done
    exact ⟨registered,idle,rfl,rfl⟩
  · obtain ⟨_,-,removed⟩ := bind_ok_iff.mp done
    obtain ⟨_,mapped,-⟩ := bind_ok_iff.mp removed
    exact absurd (by simp [unknown.slot,Slot.empty]) (assert_ok_iff.mp mapped)

omit [DecidableEq κ] in
theorem Consistent.mark (consistent : Consistent ptr ch slot) (revents : PollEvents) (eventHandling : Bool) :
    Consistent ptr { ch with revents, eventHandling } slot :=
  consistent.imp (fun known => ⟨known.added,known.index,known.mapped,known.interest⟩)
    fun unknown => ⟨unknown.added,unknown.index,unknown.slot⟩

end Channel

namespace EPoller.State

open Channel

variable {κ : Type} [DecidableEq κ] {ptr : κ} {ch ch' : Channel} {slot slot' : Slot κ} {s s' : State κ}

/-- The poller has the channel, up to what no poller looks at, with this slot. -/
structure Holds (s : State κ) (ptr : κ) (ch : Channel) (slot : Slot κ) : Prop where
  channel : ∃ revents eventHandling, ch = { s.channel ptr with revents, eventHandling }
  consistent : Consistent ptr ch slot
  slot : s.slot ch.fd = slot

/-- The other channels and the slots of other descriptors are as before. -/
structure Leaves (ptr : κ) (s s' : State κ) : Prop where
  channel : ∀ other, other ≠ ptr → s'.channel other = s.channel other
  slot : ∀ fd, fd ≠ (s.channel ptr).fd → s'.slot fd = s.slot fd
  fd : (s'.channel ptr).fd = (s.channel ptr).fd

omit [DecidableEq κ] in
theorem Leaves.refl : Leaves ptr s s := ⟨fun _ _ => rfl,fun _ _ => rfl,rfl⟩

omit [DecidableEq κ] in
theorem Leaves.trans (first : Leaves ptr s s') (second : Leaves ptr s' s'') : Leaves ptr s s'' where
  channel other apart := (second.channel other apart).trans (first.channel other apart)
  slot fd apart := (second.slot fd (first.fd ▸ apart)).trans (first.slot fd apart)
  fd := second.fd.trans first.fd

theorem Leaves.install (same : ch.fd = (s.channel ptr).fd) : Leaves ptr s (s.install ptr ch slot) where
  channel other apart := by simp [install_channel,apart]
  slot fd apart := by simp [install_slot,same,apart]
  fd := by simp [install_channel,same]

omit [DecidableEq κ] in
theorem Holds.fd (holds : s.Holds ptr ch slot) : (s.channel ptr).fd = ch.fd := by
  obtain ⟨_,_,same⟩ := holds.channel
  rw [same]

omit [DecidableEq κ] in
theorem Holds.own (holds : s.Holds ptr ch slot) : Consistent ptr (s.channel ptr) (s.slot (s.channel ptr).fd) := by
  obtain ⟨_,_,same⟩ := holds.channel
  rw [holds.fd,holds.slot]
  have consistent := holds.consistent
  rw [same] at consistent
  exact consistent.mark _ _

omit [DecidableEq κ] in
theorem Holds.allowed (holds : s.Holds ptr ch slot) (interest : Interest) : s.Allowed (.update interest ptr) := by
  intro other known same
  rw [Known,same] at known
  exact consistent_alone holds.own known

theorem Holds.install (consistent : Consistent ptr ch slot) (revents : PollEvents) (eventHandling : Bool) :
    (s.install ptr ch slot).Holds ptr { ch with revents, eventHandling } slot where
  channel := ⟨revents,eventHandling,by simp [install_channel]⟩
  slot := by simp [install_slot]
  consistent := consistent.mark _ _

theorem step_update (ran : interest.run ptr (s.channel ptr) (s.slot (s.channel ptr).fd) = .ok (ch,slot)) :
    (machine κ).step s (.update interest ptr) = .ok (s.install ptr ch slot) := by
  simp only [machine,step,State.update,ran,ok_bind,pure_eq_ok]

theorem step_remove (ran : (s.channel ptr).remove ptr (s.slot (s.channel ptr).fd) = .ok (ch,slot)) :
    (machine κ).step s (.remove ptr) = .ok (s.install ptr ch slot) := by
  simp only [machine,step,State.remove,ran,ok_bind,pure_eq_ok]

/-- A poller that holds a channel follows its turns. -/
theorem Holds.follow (turn : Turn ptr ch slot ch' slot') (holds : s.Holds ptr ch slot) :
    ∃ s', (machine κ).Path s s' ∧ s'.Holds ptr ch' slot' ∧ Leaves ptr s s' := by
  induction turn generalizing s with
  | mark =>
    obtain ⟨_,_,rfl⟩ := holds.channel
    exact ⟨s,.refl,⟨⟨_,_,rfl⟩,holds.consistent.mark _ _,holds.slot⟩,.refl⟩
  | @update ch slot _ _ interest done =>
    obtain ⟨_,_,same⟩ := holds.channel
    rw [run_consistent interest holds.consistent] at done
    cases done
    have allowed : (machine κ).enabled s (.update interest ptr) := holds.allowed interest
    refine ⟨_,.step .refl allowed (step_update (run_consistent interest holds.own)),?_,.install rfl⟩
    rw [same]
    exact .install (.inl ⟨rfl,rfl,rfl,rfl⟩) _ _
  | @remove ch slot _ _ done =>
    obtain ⟨_,_,same⟩ := holds.channel
    obtain ⟨registered,idle,rfl,rfl⟩ := removed_consistent holds.consistent done
    have own : Registered ptr (s.channel ptr) (s.slot (s.channel ptr).fd) := holds.own.resolve_right fun unknown => by
      have mapped := registered.mapped
      rw [← holds.slot,← holds.fd,unknown.slot] at mapped
      cases mapped
    have none : (s.channel ptr).events = kNone := by
      rw [same] at idle
      exact idle
    have allowed : (machine κ).enabled s (.remove ptr) := ⟨own.added,none⟩
    refine ⟨_,.step .refl allowed (step_remove (remove_registered own none)),?_,.install rfl⟩
    rw [same]
    exact .install (.inr ⟨rfl,rfl,rfl⟩) _ _
  | trans _ _ first second =>
    obtain ⟨s₁,path₁,holds₁,leaves₁⟩ := first holds
    obtain ⟨s₂,path₂,holds₂,leaves₂⟩ := second holds₁
    exact ⟨s₂,path₁.trans path₂,holds₂,leaves₁.trans leaves₂⟩

end EPoller.State
end Evk
