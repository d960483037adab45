import Evk.TimerInvariant

/-! No timer is stranded. Cancelling never re-arms the descriptor and `Reset` ignores
what `Insert` reports, so the proof carries through the callback phase: whatever waits
is covered by the latest arming or lies in the future of the epoch, and then `Reset`
arms for it. -/
namespace Evk.TimerLoop

open TimerQueue Relation

variable {s s' : TimerLoop}

/-- The descriptor is armed for a time no later than any timer that waits. -/
def Covered (q : TimerQueue) : Prop :=
  ∃ arming, q.armings.getLast? = some arming ∧ ∀ e ∈ q.timers, arming.expiration ≤ (ofLex e).1

/-- What stands in for the arming: outside `HandleRead` that nothing waits, within it that
everything that waits is valid. -/
def Excused (phase : Phase) (q : TimerQueue) : Prop :=
  ∀ e ∈ q.timers, phase.isIdle = false ∧ 0 < (ofLex e).1

structure Watched (s : TimerLoop) : Prop where
  watched : Covered s.queue ∨ Excused s.phase s.queue
  positive : ∀ now called waiting, s.phase = .calling now called waiting → 0 < now

/-- No sum `now + interval` of a restart overflows. -/
def Fitting (q : TimerQueue) : Phase → Prop
  | .idle => True
  | .calling now called _ => ∀ e ∈ called, ∀ t ∈ q.heap (addr e), t.repeats = true → Int64Range (now + t.interval)

instance (q : TimerQueue) : (phase : Phase) → Decidable (Fitting q phase)
  | .idle => inferInstanceAs (Decidable True)
  | .calling _ called _ => inferInstanceAs (Decidable (∀ e ∈ called, ∀ t ∈ q.heap (addr e), _ → _))

/-- Readings are positive and no restart overflows. -/
def Regular (s : TimerLoop) : Action → Prop
  | .handleRead now => 0 < now
  | .endHandleRead _ => Fitting s.queue s.phase
  | _ => True

instance (s : TimerLoop) : (act : Action) → Decidable (s.Regular act)
  | .handleRead now => inferInstanceAs (Decidable (0 < now))
  | .endHandleRead _ => inferInstanceAs (Decidable (Fitting s.queue s.phase))
  | .addTimer .. | .cancel _ | .queueAddTimer .. | .queueCancel _ | .createElsewhere | .doPendingFunctors
  | .runFunctor _ | .onTimerTriggered => inferInstanceAs (Decidable True)

theorem earliestChanged_iff {q : TimerQueue} : q.earliestChanged when = true ↔ ∀ e ∈ q.timers, when < (ofLex e).1 := by
  rw [earliestChanged]
  cases start : q.timers.first with
  | none => exact ⟨fun _ e member => absurd member (OrderedSet.first_eq_none.mp start e),fun _ => rfl⟩
  | some first =>
    obtain ⟨member,least⟩ := OrderedSet.first_spec start
    simp only [decide_eq_true_eq]
    constructor
    · intro early e inside
      rcases Prod.Lex.le_iff.mp (least e inside) with lt | ⟨eq,-⟩
      · exact early.trans lt
      · exact eq ▸ early
    · exact fun all => all first member

/-- An insertion re-arms for a strictly earlier timer and otherwise changes nothing that
the arming has to cover. -/
theorem watched_added {q : TimerQueue} (phase : Phase) (before : Covered q ∨ Excused phase q)
    (clock : Int) (a : Address) (t : InvokeTimer) :
    Covered (q.added clock a t) ∨ Excused phase (q.added clock a t) := by
  rw [added]
  split
  · rename_i earliest
    rw [earliestChanged_iff] at earliest
    refine .inl ⟨_,List.getLast?_concat,fun e member => ?_⟩
    rcases OrderedSet.mem_insert.mp member with rfl | member
    · exact le_rfl
    · exact (earliest e member).le
  · rename_i later
    rw [earliestChanged_iff] at later
    push Not at later
    obtain ⟨first,inside,least⟩ := later
    have cases : ∀ e ∈ (q.scheduling a t).timers, e ∈ q.timers ∨ (ofLex first).1 ≤ (ofLex e).1 := by
      intro e member
      rcases OrderedSet.mem_insert.mp member with rfl | member
      · exact .inr least
      · exact .inl member
    rcases before with ⟨arming,last,covers⟩ | excused
    · refine .inl ⟨arming,last,fun e member => ?_⟩
      rcases cases e member with old | after
      · exact covers e old
      · exact (covers first inside).trans after
    · refine .inr fun e member => ?_
      obtain ⟨busy,valid⟩ := excused first inside
      rcases cases e member with old | after
      · exact excused e old
      · exact ⟨busy,valid.trans_le after⟩

theorem watched_subset {q q' : TimerQueue} {phase : Phase} (before : Covered q ∨ Excused phase q)
    (armings : q'.armings = q.armings) (timers : ∀ e ∈ q'.timers, e ∈ q.timers) :
    Covered q' ∨ Excused phase q' := by
  rcases before with ⟨arming,last,covers⟩ | excused
  · exact .inl ⟨arming,armings ▸ last,fun e member => covers e (timers e member)⟩
  · exact .inr fun e member => excused e (timers e member)

theorem Watched.quiet (watched : s.Watched) (piece : Quiet s s') : s'.Watched := by
  cases piece with
  | create => exact ⟨watched_subset watched.watched rfl fun _ h => h,watched.positive⟩
  | elsewhere => exact ⟨watched.watched,watched.positive⟩
  | requeue => exact ⟨watched.watched,watched.positive⟩
  | insert functors clock live adds => exact ⟨watched_added s.phase watched.watched clock _ _,watched.positive⟩
  | cancel live member =>
    exact ⟨watched_subset watched.watched rfl fun e h => (OrderedSet.mem_erase.mp h).1,watched.positive⟩
  | defer id missing =>
    refine ⟨?_,watched.positive⟩
    simp only [deferring]
    split
    · exact watched_subset watched.watched rfl fun _ h => h
    · exact watched.watched

theorem first_le {q : TimerQueue} (start : q.timers.first = some first) (member : e ∈ q.timers) :
    (ofLex first).1 ≤ (ofLex e).1 := by
  rcases Prod.Lex.le_iff.mp ((OrderedSet.first_spec start).2 e member) with lt | ⟨eq,-⟩
  · exact lt.le
  · exact eq.le

/-- The end of `Reset` covers everything, given that every invalid timer was covered. -/
theorem watched_rearmed {q : TimerQueue} (clock : Int)
    (before : ∀ e ∈ q.timers, (ofLex e).1 ≤ 0 →
      ∃ arming, q.armings.getLast? = some arming ∧ arming.expiration ≤ (ofLex e).1) :
    Covered (q.rearmed clock) ∨ Excused .idle (q.rearmed clock) := by
  rw [rearmed]
  cases start : q.timers.first with
  | none => exact .inr fun e member => absurd member (OrderedSet.first_eq_none.mp start e)
  | some first =>
    left
    by_cases valid : Timestamp.isValid (ofLex first).1 = true
    · simp only [valid,↓reduceIte]
      exact ⟨_,List.getLast?_concat,fun e inside => first_le start inside⟩
    · simp only [valid]
      have invalid : (ofLex first).1 ≤ 0 := by simpa [Timestamp.isValid] using valid
      obtain ⟨arming,last,early⟩ := before first (OrderedSet.first_spec start).1 invalid
      exact ⟨arming,last,fun e inside => early.trans (first_le start inside)⟩

theorem kept_positive {q : TimerQueue} (positive : 0 < now) (again : q.kept now a t = some u)
    (range : t.repeats = true → Int64Range (now + t.interval)) : 0 < u.expiration := by
  rw [kept] at again
  split at again
  · rename_i repeats
    obtain rfl : t.restart now = u := Option.some.inj again
    have forward := t.forward repeats.1
    simp only [InvokeTimer.restart,repeats.1,↓reduceIte,Timestamp.add,int64_of_range (range repeats.1)]
    omega
  · cases again

theorem Watched.effect (watched : s.Watched) (effect : Effect s act s')
    (regular : s.Regular act) : s'.Watched := by
  cases effect with
  | quiet other pieces =>
    induction pieces with
    | refl => exact watched
    | tail _ piece ih => exact ih.quiet piece
  | @read now timers activeTimers idle owns members =>
    have positive : 0 < now := regular
    refine ⟨.inr fun e member => ⟨rfl,?_⟩,fun now' called waiting eq => ?_⟩
    · have := ((members e).mp member).2
      omega
    · obtain ⟨rfl,-⟩ : now = now' ∧ _ := by simpa using eq
      exact positive
  | @call now a t called waiting phase live =>
    refine ⟨watched.watched.imp_right fun excused e member => ⟨rfl,(excused e member).2⟩,
      fun now' called' waiting' eq => ?_⟩
    obtain ⟨rfl,-⟩ : now = now' ∧ _ := by simpa using eq
    exact watched.positive now called _ phase
  | @finish now clock timers activeTimers called deleted phase owns ledger members =>
    refine ⟨watched_rearmed clock fun e member invalid => ?_,fun _ _ _ eq => by cases eq⟩
    rcases (members e).mp member with old | ⟨a,t,u,inside,live,again,rfl⟩
    · rcases watched.watched with ⟨arming,last,covers⟩ | excused
      · exact ⟨arming,last,covers e old⟩
      · exact absurd (excused e old).2 (by omega)
    · have fitting : Fitting s.queue (.calling now called []) := phase ▸ regular
      have positive := kept_positive (watched.positive now called [] phase) again
        (fitting (entry a t) inside t live)
      exact absurd positive (not_lt.mpr invalid)

theorem reachable_watched (reachable : (machine.restrict Regular).Reachable s) : s.Watched := by
  refine reachable.invariant_with (fun s first => ?_) (fun s reached => reachable_inv reached.of_restrict) ?_
  · obtain rfl : s = construct := first
    exact ⟨.inr (by simp [Excused,construct,TimerQueue.construct]),by simp [construct]⟩
  · intro s act s' inv watched enabled stepped
    exact watched.effect (inv.step_effect enabled.1 stepped) enabled.2

/-- Every arming carries what `howlongtimefromnow` makes of its expiration. -/
def Computed (q : TimerQueue) : Prop :=
  ∀ arming ∈ q.armings, arming.value = howlongtimefromnow arming.expiration arming.clock

theorem computed_resettimerfd {q : TimerQueue} (computed : Computed q) (clock expiration : Int) :
    Computed (q.resettimerfd clock expiration) := by
  intro arming member
  rcases List.mem_append.mp member with old | new
  · exact computed arming old
  · rw [List.mem_singleton.mp new]

theorem computed_quiet (computed : Computed s.queue) (piece : Quiet s s') : Computed s'.queue := by
  cases piece with
  | create => exact computed
  | elsewhere => exact computed
  | requeue => exact computed
  | insert functors clock live adds =>
    simp only [added]
    split
    · exact computed_resettimerfd computed _ _
    · exact computed
  | cancel live member => exact computed
  | defer id missing =>
    simp only [deferring]
    split
    · exact computed
    · exact computed

theorem reachable_computed (reachable : machine.Reachable s) : Computed s.queue := by
  induction reachable with
  | initial first =>
    obtain rfl : _ = construct := first
    simp [Computed,construct,TimerQueue.construct]
  | step before enabled stepped computed =>
    cases (reachable_inv before).step_effect enabled stepped with
    | quiet other pieces =>
      clear stepped
      induction pieces with
      | refl => exact computed
      | tail _ piece ih => exact computed_quiet ih piece
    | read => simp [Computed]
    | call => exact computed
    | finish =>
      simp only [rearmed]
      split
      · split
        · exact computed_resettimerfd computed _ _
        · exact computed
      · exact computed

/-- A normalised timespec that never disarms the descriptor. -/
theorem howlongtimefromnow_spec (when clock : Int) :
    let ts := howlongtimefromnow when clock
    0 ≤ ts.tvSec ∧ 0 ≤ ts.tvNsec ∧ ts.tvNsec < Duration.kSecond ∧ (ts.tvSec ≠ 0 ∨ ts.tvNsec ≠ 0) ∧
    (Int64Range (when - clock) →
      ts.tvSec * Duration.kSecond + ts.tvNsec = max (when - clock) (100 * Duration.kMicrosecond)) := by
  intro ts
  obtain ⟨n,least,whole,shape⟩ : ∃ n : Int, 100000 ≤ n ∧
      (Int64Range (when - clock) → n = max (when - clock) 100000) ∧
      ts = ⟨n.tdiv Duration.kSecond,n.tmod Duration.kSecond⟩ := by
    refine ⟨_,?_,fun range => ?_,rfl⟩
    · by_cases soon : Timestamp.sub when clock < 100 * Duration.kMicrosecond
      · simp only [soon,↓reduceIte]
        simp [Duration.kMicrosecond]
      · simp only [soon,↓reduceIte]
        simp only [Duration.kMicrosecond] at soon
        omega
    · rw [Timestamp.sub,int64_of_range range]
      by_cases soon : when - clock < 100 * Duration.kMicrosecond
      · simp only [soon,↓reduceIte]
        simp only [Duration.kMicrosecond] at soon ⊢
        omega
      · simp only [soon,↓reduceIte]
        simp only [Duration.kMicrosecond] at soon
        omega
  have quotient : n.tdiv Duration.kSecond = n / 1000000000 := Int.tdiv_eq_ediv_of_nonneg (by omega)
  have remainder : n.tmod Duration.kSecond = n % 1000000000 := Int.tmod_eq_emod_of_nonneg (by omega)
  rw [shape,quotient,remainder]
  simp only [Duration.kSecond,Duration.kMicrosecond]
  refine ⟨by omega,by omega,by omega,by omega,fun range => ?_⟩
  have := whole range
  omega

/-- No timer is stranded: in every run with positive readings and no overflow in a
restart, whenever timers wait outside `HandleRead` the descriptor has been armed since it
was last read, the last time for no later than the earliest of them; and every arming
is a normalised timespec above zero for `max(when - now, 100us)`. -/
theorem no_timer_stranded (reachable : (machine.restrict Regular).Reachable s) :
    (s.phase = .idle → (∃ e, e ∈ s.queue.timers) → ∃ arming, s.queue.armings.getLast? = some arming ∧
      ∀ e ∈ s.queue.timers, arming.expiration ≤ (ofLex e).1) ∧
    ∀ arming ∈ s.queue.armings,
      0 ≤ arming.value.tvSec ∧ 0 ≤ arming.value.tvNsec ∧ arming.value.tvNsec < Duration.kSecond ∧
      (arming.value.tvSec ≠ 0 ∨ arming.value.tvNsec ≠ 0) ∧
      (Int64Range (arming.expiration - arming.clock) →
        arming.value.tvSec * Duration.kSecond + arming.value.tvNsec =
          max (arming.expiration - arming.clock) (100 * Duration.kMicrosecond)) := by
  refine ⟨fun idle ⟨e,member⟩ => ?_,fun arming member => ?_⟩
  · rcases (reachable_watched reachable).watched with covered | excused
    · exact covered
    · have busy := (excused e member).1
      simp [idle,Phase.isIdle] at busy
  · rw [reachable_computed reachable.of_restrict arming member]
    exact howlongtimefromnow_spec _ _

/-- A callback adds a timer before the epoch, which `Reset` would not arm for, while a
repeating timer is restarted behind it. -/
theorem no_timer_stranded_before_epoch :
    let every : Interval := ⟨true,5,by decide⟩
    let once : Interval := ⟨false,0,by decide⟩
    let s := [.addTimer 8 10 every 3,.handleRead 12,.onTimerTriggered,.addTimer 16 (-7) once 13,
      .endHandleRead 14].foldl machine.advance construct
    (machine.restrict Regular).Reachable s ∧ (∃ e, e ∈ s.queue.timers) ∧
      ∃ arming, s.queue.armings.getLast? = some arming ∧ arming.expiration ≤ -7 := by
  intro every once s
  have reachable : (machine.restrict Regular).Reachable s := by
    have follow := Machine.Reachable.follow (m := machine.restrict Regular) (s := construct) (.initial rfl)
      [.addTimer 8 10 every 3,.handleRead 12,.onTimerTriggered,.addTimer 16 (-7) once 13,.endHandleRead 14]
      (by decide)
    rwa [Machine.restrict_advance] at follow
  have idle : s.phase = .idle := by decide
  have waits : (toLex (-7,16) : Entry) ∈ s.queue.timers := by decide
  clear_value s
  obtain ⟨arming,last,covers⟩ := (no_timer_stranded reachable).1 idle ⟨_,waits⟩
  exact ⟨reachable,⟨_,waits⟩,arming,last,covers _ waits⟩

end Evk.TimerLoop
