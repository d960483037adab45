import Evk.Poller

/-! Runs of the poll(2) backend over any number of channels. The indices of the channels
in the map stay in bijection with the places of `pollfd_list_` through every order of
insertions, disabled channels and removals, so no assertion of the backend fails. -/
namespace Evk.Poller

variable {κ : Type} [DecidableEq κ]

structure Registry (κ : Type) where
  poller : State κ
  removed : List κ

inductive Call (κ : Type) where
  | updateChannel (events : PollEvents) (ptr : κ)
  | removeChannel (ptr : κ)
  | poll (answer : Pollfd → PollEvents) (numEvents : Int)

namespace Registry

def step (s : Registry κ) : Call κ → Except Fault (Registry κ)
  | .updateChannel events ptr => do
    let poller ← s.poller.updateTo events ptr
    return { s with poller }
  | .removeChannel ptr => do
    let poller ← s.poller.remove ptr
    return ⟨poller,ptr :: s.removed⟩
  | .poll answer numEvents => do
    let (poller,_) ← s.poller.pollWith answer numEvents
    return { s with poller }

/-- A channel is removed only when registered and without events of interest, and is not
registered again afterwards. -/
def Allowed (s : Registry κ) : Call κ → Prop
  | .updateChannel _ ptr => ptr ∉ s.removed
  | .removeChannel ptr => s.poller.Known ptr ∧ (s.poller.channel ptr).events = kNone
  | .poll _ _ => True

instance (s : Registry κ) : (call : Call κ) → Decidable (s.Allowed call)
  | .updateChannel _ ptr => inferInstanceAs (Decidable (ptr ∉ s.removed))
  | .removeChannel _ => inferInstanceAs (Decidable (_ ∧ _))
  | .poll _ _ => inferInstanceAs (Decidable True)

def machine (κ : Type) [DecidableEq κ] : Machine (Registry κ) (Call κ) Fault where
  initial s := ∃ fd : κ → Nat, Function.Injective fd ∧ s = ⟨.construct fd,[]⟩
  enabled := Allowed
  step := step

instance (s : Registry κ) (call : Call κ) : Decidable ((machine κ).enabled s call) :=
  inferInstanceAs (Decidable (s.Allowed call))

/-- An index that outlived the registration of its channel belongs to a removed one. -/
structure Sound (s : Registry κ) : Prop where
  indexed : s.poller.Indexed
  retired : ∀ ptr, s.poller.Retired ptr → ptr ∈ s.removed

variable {s : Registry κ} {ptr : κ}

omit [DecidableEq κ] in
theorem construct_sound {fd : κ → Nat} (distinct : Function.Injective fd) : Sound ⟨.construct fd,[]⟩ where
  indexed := State.construct_indexed distinct
  retired ptr retired := absurd retired.1 (by simp [State.construct,Channel.construct,kNew])

theorem Sound.updateChannel (sound : s.Sound) (events : PollEvents) (allowed : ptr ∉ s.removed) :
    ∃ t, s.step (.updateChannel events ptr) = .ok t ∧ t.Sound := by
  have fresh : ¬s.poller.Retired ptr := fun retired => allowed (sound.retired ptr retired)
  obtain ⟨poller,_,updated,indexed,⟨index,channel⟩,-⟩ := sound.indexed.updateTo fresh events
  refine ⟨{ s with poller },by simp [step,updated],indexed,?_⟩
  rintro p ⟨nonneg,unadded⟩
  by_cases same : p = ptr
  · subst same
    simp [channel] at unadded
  · rw [channel,Function.update_of_ne same] at nonneg unadded
    exact sound.retired p ⟨nonneg,unadded⟩

theorem Sound.removeChannel (sound : s.Sound) (known : s.poller.Known ptr)
    (idle : (s.poller.channel ptr).events = kNone) :
    ∃ t, s.step (.removeChannel ptr) = .ok t ∧ t.Sound := by
  obtain ⟨poller,removed,erased⟩ := State.remove_known sound.indexed known idle
  refine ⟨⟨poller,ptr :: s.removed⟩,by simp [step,removed],erased.indexed sound.indexed known,?_⟩
  rintro p ⟨nonneg,unadded⟩
  by_cases same : p = ptr
  · exact List.mem_cons.mpr (.inl same)
  · -- the only other channel with a new index is registered
    rw [erased.others p same] at nonneg unadded
    split at unadded
    · rename_i last
      exact absurd unadded (by simp [(sound.indexed.added p).mp last.1])
    · rename_i kept
      rw [if_neg kept] at nonneg
      exact List.mem_cons_of_mem _ (sound.retired p ⟨nonneg,unadded⟩)

theorem Sound.poll (sound : s.Sound) (answer : Pollfd → PollEvents) (numEvents : Int) :
    ∃ t, s.step (.poll answer numEvents) = .ok t ∧ t.Sound := by
  obtain ⟨poller,polled,changed⟩ := sound.indexed.pollWith answer numEvents
  refine ⟨{ s with poller },by simp [step,polled],changed.indexed sound.indexed,?_⟩
  rintro p ⟨nonneg,unadded⟩
  obtain ⟨revents,same⟩ := changed.channel p
  rw [same] at nonneg unadded
  exact sound.retired p ⟨nonneg,unadded⟩

theorem Sound.step (sound : s.Sound) (call : Call κ) (allowed : s.Allowed call) :
    ∃ t, s.step call = .ok t ∧ t.Sound := by
  cases call with
  | updateChannel events ptr => exact sound.updateChannel events allowed
  | removeChannel ptr => exact sound.removeChannel allowed.1 allowed.2
  | poll answer numEvents => exact sound.poll answer numEvents

theorem reachable_sound (reachable : (machine κ).Reachable s) : s.Sound := by
  induction reachable with
  | initial first =>
    obtain ⟨fd,distinct,rfl⟩ := first
    exact construct_sound distinct
  | step _ enabled stepped sound =>
    obtain ⟨t,done,sound'⟩ := sound.step _ enabled
    cases stepped.symm.trans done
    exact sound'

end Registry

variable {s : State κ}

omit [DecidableEq κ] in
/-- There are no more entries than descriptors: where these stay below the largest `int`,
no cast of a size to `int` changes it. -/
theorem State.Indexed.length_le (inv : s.Indexed) (limit : Nat) (below : ∀ p, (s.channel p).fd < limit) :
    s.pollfdList.length ≤ limit := by
  choose owner known index using fun i : Fin s.pollfdList.length => inv.owner i i.isLt
  have injective : Function.Injective fun i => (⟨(s.channel (owner i)).fd,below (owner i)⟩ : Fin limit) := by
    intro i j same
    have equal : owner i = owner j := inv.apart _ _ (Fin.mk.inj same)
    have indices := index i
    rw [equal,index j] at indices
    exact Fin.ext (by omega)
  simpa using Fintype.card_le_of_injective _ injective

/-- What a removal does to the other channels: each keeps its registration, its entry and
its events, and only the channel of the last entry gets another index. -/
structure State.LeavesOthers (s s' : State κ) (ptr : κ) : Prop where
  known : ∀ p ≠ ptr, s.Known p → s'.Known p
  entry : ∀ p ≠ ptr, s.Known p → s'.entryOf p = s.entryOf p
  channel : ∀ p ≠ ptr, s'.channel p = s.channel p ∨
    (s.channel p).index = (s.pollfdList.length - 1 : Nat) ∧
      s'.channel p = { s.channel p with index := (s.channel ptr).index }

theorem State.Erased.leavesOthers (erased : s.Erased s' ptr) (inv : s.Indexed) (known : s.Known ptr) :
    s.LeavesOthers s' ptr where
  known _ other there := (erased.known inv).mpr ⟨other,there⟩
  entry _ other there := (erased.entryOf_other inv known there other).2
  channel p other := by
    rw [erased.others p other]
    split
    · rename_i last
      exact .inr ⟨last.2,rfl⟩
    · exact .inl rfl

/-- In every run the map and the list have the same size, the channels of the map have
distinct indices into the list, and the entry there carries the descriptor, negated or
not. Whatever call is allowed next goes through, and a removal leaves all other channels
with their entries. -/
theorem index_bijection {s : Registry κ} (reachable : (Registry.machine κ).Reachable s) :
    s.poller.channelMap.size = s.poller.pollfdList.length ∧
    (∀ (fd : Int) ptr, s.poller.channelMap[fd]? = some ptr →
      0 ≤ (s.poller.channel ptr).index ∧ (s.poller.channel ptr).index < s.poller.pollfdList.length ∧
      ∃ pfd, s.poller.pollfdList[(s.poller.channel ptr).index.toNat]? = some pfd ∧
        (pfd.fd = (s.poller.channel ptr).fd ∨ pfd.fd = -((s.poller.channel ptr).fd : Int) - 1)) ∧
    (∀ (fd fd' : Int) p q, s.poller.channelMap[fd]? = some p → s.poller.channelMap[fd']? = some q →
      (s.poller.channel p).index = (s.poller.channel q).index → p = q) ∧
    (∀ call, s.Allowed call → ∃ t, s.step call = .ok t) ∧
    (∀ ptr, s.Allowed (.removeChannel ptr) →
      ∃ t, s.step (.removeChannel ptr) = .ok t ∧ s.poller.LeavesOthers t.poller ptr) := by
  have sound := Registry.reachable_sound reachable
  have inv := sound.indexed
  have known {fd : Int} {ptr : κ} (mapped : s.poller.channelMap[fd]? = some ptr) : s.poller.Known ptr := by
    rw [State.Known,inv.keyed fd ptr mapped]
    exact mapped
  constructor
  · exact inv.size
  constructor
  · intro fd ptr mapped
    obtain ⟨nonneg,pfd,there,stands,-⟩ := inv.entry ptr (known mapped)
    have inside := inv.index_lt (known mapped)
    exact ⟨nonneg,by omega,pfd,there,stands⟩
  constructor
  · intro fd fd' p q first second same
    exact inv.index_injective (known first) (known second) same
  constructor
  · intro call allowed
    obtain ⟨t,done,-⟩ := sound.step call allowed
    exact ⟨t,done⟩
  · intro ptr allowed
    obtain ⟨poller,removed,erased⟩ := State.remove_known inv allowed.1 allowed.2
    exact ⟨⟨poller,ptr :: s.removed⟩,by simp [Registry.step,removed],erased.leavesOthers inv allowed.1⟩

/-- Three channels; the first is disabled and removed while the last stands negated. -/
theorem index_bijection_three :
    let fd : Fin 3 → Nat := fun p => p.val + 5
    let schedule : List (Call (Fin 3)) :=
      [.updateChannel kReadable 0,.updateChannel kReadable 1,.updateChannel kWritable 2,
      .updateChannel kNone 2,.updateChannel kNone 0,.poll (fun _ => kReadable) 2,.removeChannel 0]
    let s := schedule.foldl (Registry.machine (Fin 3)).advance ⟨.construct fd,[]⟩
    s.poller.channelMap.size = 2 ∧ (s.poller.channel 2).index = 0 ∧ ∃ t, s.step (.removeChannel 2) = .ok t := by
  intro fd schedule s
  have reachable : (Registry.machine (Fin 3)).Reachable s :=
    Machine.Reachable.follow (m := Registry.machine (Fin 3)) (.initial ⟨fd,by decide,rfl⟩) schedule (by decide +kernel)
  obtain ⟨size,-,-,succeeds,-⟩ := index_bijection reachable
  exact ⟨size.trans (by decide +kernel),by decide +kernel,succeeds _ (by decide +kernel)⟩

end Evk.Poller
