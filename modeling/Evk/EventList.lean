import Evk.EPoller

/-! The growth of `event_list_`. `epoll_wait` reports no more than the list has room for,
so a poll that fills it may leave channels that are ready unreported. Such a poll doubles
the list, and so there are only a few of them in the life of a poller. -/
namespace Evk.EPoller

variable {κ : Type} [DecidableEq κ]

namespace State

variable {s s' : State κ}

/-- The poll fills the list; one that does not has reported all there was. -/
def Fills (s : State κ) : Action κ → Prop
  | .poll ready => (s.eventList ready).length = s.eventListSize
  | .update _ _ | .remove _ => False

instance (s : State κ) : DecidablePred s.Fills
  | .poll _ => inferInstanceAs (Decidable (_ = _))
  | .update _ _ | .remove _ => inferInstanceAs (Decidable False)

def Below (limit : Nat) (s : State κ) : Prop := ∀ ptr, (s.channel ptr).fd < limit

theorem update_size (done : s.update interest ptr = .ok s') : s'.eventListSize = s.eventListSize := by
  obtain ⟨result,-,⟨⟩⟩ := bind_ok_iff.mp done
  rfl

theorem remove_size (done : s.remove ptr = .ok s') : s'.eventListSize = s.eventListSize := by
  obtain ⟨result,-,⟨⟩⟩ := bind_ok_iff.mp done
  rfl

theorem poll_size (inv : s.InStep) (some : 0 < s.eventListSize) (done : s.poll ready = .ok (s',active)) :
    s'.eventListSize = if s.Fills (.poll ready) then 2 * s.eventListSize else s.eventListSize := by
  obtain ⟨t,filled,-,size,-⟩ := fillLoop_spec (s.eventList ready) (inv.eventList_known ready) []
  rw [State.poll] at done
  split at done
  · obtain ⟨⟨u,found⟩,stored,grown⟩ := bind_ok_iff.mp done
    obtain ⟨-,-,stored⟩ := bind_ok_iff.mp stored
    cases filled.symm.trans stored
    simp only [size] at grown
    split at grown
    · rename_i full
      cases grown
      rw [if_pos (show s.Fills (.poll ready) from full)]
      exact Nat.mul_comm ..
    · rename_i room
      cases grown
      rw [if_neg (show ¬s.Fills (.poll ready) from room),size]
  · rename_i none
    cases done
    have room : ¬s.Fills (.poll ready) := by
      simp only [Fills]
      omega
    rw [if_neg room]

omit [DecidableEq κ] in
theorem InStep.reports_le (inv : s.InStep) (below : s.Below limit) (reported : s.Reported ready) :
    (s.eventList ready).length ≤ limit := by
  obtain ⟨-,once,registered⟩ := reported
  have inside : ready.map Prod.fst ⊆ List.range limit := by
    intro fd among
    obtain ⟨event,listed,rfl⟩ := List.mem_map.mp among
    obtain ⟨entry,there,-⟩ := registered event listed
    rw [inv.kernel,Option.mem_def,Option.map_eq_some_iff] at there
    obtain ⟨ptr,mapped,-⟩ := there
    exact List.mem_range.mpr (inv.keyed event.1 ptr mapped ▸ below ptr)
  calc (s.eventList ready).length
    _ ≤ ready.length := List.length_filterMap_le ..
    _ = (ready.map Prod.fst).length := (List.length_map _).symm
    _ ≤ (List.range limit).length := (List.subperm_of_subset once inside).length_le
    _ = limit := List.length_range

end State

structure Polls (κ : Type) where
  poller : State κ
  filled : Nat

namespace Polls

variable {p q : Polls κ}

def step (p : Polls κ) (action : Action κ) : Except Fault (Polls κ) := do
  let poller ← p.poller.step action
  return ⟨poller,if p.poller.Fills action then p.filled + 1 else p.filled⟩

def machine (κ : Type) [DecidableEq κ] (limit : Nat) : Machine (Polls κ) (Action κ) Fault where
  initial p := ∃ fd : κ → Nat, (∀ ptr, fd ptr < limit) ∧ p = ⟨.construct fd,0⟩
  enabled p := p.poller.Allowed
  step := step

instance [Fintype κ] (limit : Nat) (p : Polls κ) (action : Action κ) : Decidable ((machine κ limit).enabled p action) :=
  inferInstanceAs (Decidable (p.poller.Allowed action))

/-- The size tells how often the list was filled, the last time by at most as many events
as there are descriptors. -/
structure Grown (limit : Nat) (p : Polls κ) : Prop where
  inStep : p.poller.InStep
  below : p.poller.Below limit
  size : p.poller.eventListSize = kInitEventListSize * 2^p.filled
  most : p.poller.eventListSize ≤ max kInitEventListSize (2 * limit)

theorem Grown.step (grown : p.Grown limit) (allowed : p.poller.Allowed action) (done : p.step action = .ok q) :
    q.Grown limit := by
  obtain ⟨poller,stepped,⟨⟩⟩ := bind_ok_iff.mp done
  obtain ⟨inStep,below,size,most⟩ := grown
  cases action with
  | update interest ptr =>
    obtain ⟨t,updated,inStep',-,channel⟩ := inStep.update allowed
    cases stepped.symm.trans updated
    have same := State.update_size updated
    refine ⟨inStep',fun other => ?_,same.trans size,same.trans_le most⟩
    by_cases own : other = ptr
    · simp [channel,own,below ptr]
    · simp [channel,own,below other]
  | remove ptr =>
    obtain ⟨t,removed,inStep',-,-,channel⟩ := inStep.remove allowed
    cases stepped.symm.trans removed
    have same := State.remove_size removed
    refine ⟨inStep',fun other => ?_,same.trans size,same.trans_le most⟩
    by_cases own : other = ptr
    · simp [channel,own,below ptr]
    · simp [channel,own,below other]
  | poll ready =>
    obtain ⟨t,polled,inStep',channel⟩ := inStep.poll allowed
    simp only [State.step,polled,ok_bind,pure_eq_ok,Except.ok.injEq] at stepped
    subst stepped
    have some : 0 < p.poller.eventListSize := by
      rw [size]
      exact Nat.mul_pos (by decide) (Nat.two_pow_pos _)
    have after := State.poll_size inStep some polled
    have few := inStep.reports_le below allowed
    have below' : t.Below limit := fun ptr => by
      obtain ⟨revents,same⟩ := channel ptr
      rw [same]
      exact below ptr
    by_cases full : p.poller.Fills (.poll ready)
    · rw [if_pos full] at after
      have filled : (p.poller.eventList ready).length = p.poller.eventListSize := full
      refine ⟨inStep',below',?_,?_⟩
      · simp only [if_pos full]
        rw [after,size,pow_succ]
        ring
      · simp only
        omega
    · rw [if_neg full] at after
      refine ⟨inStep',below',?_,after.trans_le most⟩
      simp only [if_neg full]
      exact after.trans size

theorem reachable_grown (reachable : (machine κ limit).Reachable p) : p.Grown limit := by
  induction reachable with
  | initial first =>
    obtain ⟨fd,below,rfl⟩ := first
    exact ⟨State.construct_inStep fd,below,by simp [State.construct],by simp [State.construct]⟩
  | step _ allowed stepped grown => exact grown.step allowed stepped

/-- With descriptors below `limit` the list never has room for more than twice as many
events, and in the whole life of the poller only so many polls fill it that two to their
number is an eighth of the limit; a list longer than the limit is never filled again. -/
theorem polls_seldom_full (reachable : (machine κ limit).Reachable p) :
    p.poller.eventListSize ≤ max kInitEventListSize (2 * limit) ∧
    2^p.filled ≤ max 1 (limit / 8) ∧ p.filled ≤ Nat.log 2 (limit / 8) ∧
    (limit < p.poller.eventListSize → ∀ ready, p.poller.Allowed (.poll ready) → ¬p.poller.Fills (.poll ready)) := by
  have grown := reachable_grown reachable
  have size := grown.size
  have most := grown.most
  have few : 2^p.filled ≤ max 1 (limit / 8) := by
    simp only [kInitEventListSize] at size most
    omega
  refine ⟨most,few,?_,fun longer ready allowed full => ?_⟩
  · rcases Nat.eq_zero_or_pos p.filled with none | some
    · omega
    · apply Nat.le_log_of_pow_le Nat.one_lt_two
      have two : 2^1 ≤ 2^p.filled := Nat.pow_le_pow_right (by decide) some
      omega
  · have filled : (p.poller.eventList ready).length = p.poller.eventListSize := full
    have reports := grown.inStep.reports_le grown.below allowed
    omega

/-- Sixteen channels that are ready at once fill the list, which has then room for twice as
many. -/
theorem polls_seldom_full_sixteen : ∃ p : Polls (Fin 16), (machine (Fin 16) 32).Reachable p ∧ p.filled = 1 ∧
    p.poller.eventListSize = 32 ∧ 2^p.filled ≤ 4 := by
  let schedule : List (Action (Fin 16)) := (List.finRange 16).map (.update .enableReadEvent) ++
    [.poll ((List.range 16).map fun fd => (fd,{ pollin := true })),.poll [(3,{ pollin := true })]]
  let start : Polls (Fin 16) := ⟨.construct (·.val),0⟩
  have reachable : (machine (Fin 16) 32).Reachable (schedule.foldl (machine (Fin 16) 32).advance start) :=
    Machine.Reachable.follow (m := machine (Fin 16) 32) (.initial ⟨_,by decide,rfl⟩) schedule (by decide +kernel)
  exact ⟨_,reachable,by decide +kernel,by decide +kernel,(polls_seldom_full reachable).2.1⟩

end Polls
end Evk.EPoller
