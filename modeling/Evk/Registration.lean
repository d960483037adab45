import Evk.Teardown

/-! Connections outlive their registration. The owning reference moves from the map to a
functor on the base loop and on to one on the connection's loop; the poller and the
list of active channels have raw pointers all the while. -/
namespace Evk

namespace Life

variable {c : ConnId} {v : Life}

/-- With the server there, a connection nobody refers to is unknown to its poller and
in no dispatch. -/
theorem Running.unused (running : v.Running) (inv : v.Inv c) (unmapped : v.mapped = false)
    (unheld : ∀ task ∈ v.queue, task.holds c = false) :
      v.link.slot = .empty ∧ ∀ task ∈ v.queue, task.isDispatch = false := by
  have ended := inv.ended_of_unheld unmapped unheld
  exact ⟨(inv.unregistered ended).slot,running.rested (.inr ended)⟩

end Life

namespace System

variable {c : ConnId} {s : System} {x : Link}

/-- A loop has the connection in its list of active channels, or is in `HandleEvent`. -/
def Dispatched (c : ConnId) (s : System) : Prop :=
  ∃ l, ∃ task ∈ (s.loops l).todo, task.isDispatch = true ∧ task.about = some c

/-- The map refers to it, or a functor that is queued or under way. -/
def Referenced (c : ConnId) (s : System) : Prop :=
  c ∈ s.connections ∨ ∃ l, ∃ task ∈ (s.loops l).work, task.holds c = true

theorem referenced_of_life (seen : s.life c = some v) (held : v.mapped = true ∨ ∃ task ∈ v.queue, task.holds c = true) :
    s.Referenced c := by
  rcases held with mapped | ⟨task,among,holds⟩
  · exact .inl ((mapped_of_life seen).mp mapped)
  · rw [view_of_life seen] at among
    exact .inr ⟨_,task,(List.mem_filter.mp among).1,holds⟩

theorem Placed.dispatch_queued (placed : s.Placed) (held : s.conns c = some x) (among : task ∈ (s.loops l).todo)
    (dispatch : task.isDispatch = true) (about : task.about = some c) : task ∈ (s.view c x).queue := by
  have there : task ∈ (s.loops l).work := List.mem_append_left _ among
  obtain ⟨y,own,home⟩ := placed.tasks l task there c about
  obtain rfl : x = y := Option.some.inj (held.symm.trans own)
  have ours : x.conn.loop = l ∧ task.concerns c = true := by
    cases task with
    | handleEvent | stage => exact ⟨home,by simpa [Task.concerns,Task.about] using about⟩
    | _ => cases dispatch
  obtain ⟨rfl,concerns⟩ := ours
  exact List.mem_filter.mpr ⟨there,concerns⟩

/-- While the server is there, a connection that its poller knows, or that a loop is to
dispatch or is dispatching, is referred to, and so has not been freed. -/
theorem registered_referenced (reachable : machine.Reachable s) (alive : s.alive = true) (held : s.conns c = some x)
    (used : x.slot ≠ .empty ∨ s.Dispatched c) : s.Referenced c ∧ c ∉ s.freed := by
  have seen := life_of_held held
  have lived := life_reachable reachable seen
  have running := Life.reachable_running lived alive
  have referred : ¬((s.view c x).mapped = false ∧ ∀ task ∈ (s.view c x).queue, task.holds c = false) := by
    rintro ⟨unmapped,unheld⟩
    obtain ⟨unknown,rested⟩ := running.unused (Life.reachable_inv lived) unmapped unheld
    rcases used with known | ⟨l,task,among,dispatch,about⟩
    · exact known unknown
    · have queued := (reachable_placed reachable).dispatch_queued held among dispatch about
      simp [rested task queued] at dispatch
  constructor
  · refine referenced_of_life seen (or_iff_not_imp_left.mpr fun unmapped => ?_)
    by_contra unheld
    refine referred ⟨by simpa using unmapped,fun task among => Bool.eq_false_iff.mpr fun holds => ?_⟩
    exact unheld ⟨task,among,holds⟩
  · intro gone
    obtain ⟨unmapped,-,-,unheld⟩ := Life.unreferenced_of_freed lived (by simpa [view] using gone)
    exact referred ⟨unmapped,unheld⟩

/-- The peer has closed a connection of the base loop, and the handler has taken it out of
the map: its channel is registered, and the queued `OnConnectDestroyed` refers to it. -/
theorem registered_referenced_closed : ∃ s x, machine.Reachable s ∧ s.alive = true ∧ s.conns 1 = some x ∧
    x.slot ≠ .empty ∧ s.connections = [] ∧ s.Referenced 1 ∧ 1 ∉ s.freed := by
  let schedule : List Action := [.accept 5 Io.idle.alloc,.poll 0 [(1,{ pollin := true })],.run 0 .idle,.run 0 .idle,
    .run 0 .idle,.run 0 { Io.idle with read := .bytes [] }]
  have reachable := Machine.Reachable.follow (m := machine) (.initial ⟨0,false,rfl⟩) schedule (by decide +kernel)
  have alive : (schedule.foldl machine.advance (construct 0 false)).alive = true := by decide +kernel
  have unlisted : (schedule.foldl machine.advance (construct 0 false)).connections = [] := by decide +kernel
  have known : ∃ x ∈ (schedule.foldl machine.advance (construct 0 false)).conns 1, x.slot ≠ .empty := by decide +kernel
  obtain ⟨x,held,known⟩ := known
  exact ⟨_,x,reachable,alive,held,known,unlisted,registered_referenced reachable alive held (.inl known)⟩

end System
end Evk
