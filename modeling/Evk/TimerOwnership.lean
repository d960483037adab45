import Evk.TimerLoop

/-! Representation and ownership of the timer queue. Every live timer is in exactly one
place: in both sets, in the batch whose callbacks run, or behind a queued insertion.
Each operation keeps that, so no assertion fails and no dead timer is touched. -/
namespace Evk
namespace TimerQueue

def addr (it : Entry) : Address := (ofLex it).2

@[simp] theorem addr_entry (a : Address) (t : InvokeTimer) : addr (entry a t) = a := rfl

@[simp] theorem entry_inj : entry a t = entry b u ↔ t.expiration = u.expiration ∧ a = b := by
  simp [entry]

@[simp] theorem activeTimer_inj : activeTimer a t = activeTimer b u ↔ a = b ∧ t.sequence = u.sequence := by
  simp [activeTimer]

/-- The two sets hold the same live timers, each under its current key. -/
structure Wf (q : TimerQueue) : Prop where
  keyed : ∀ e ∈ q.timers, ∃ a t, q.heap a = some t ∧ e = entry a t ∧ activeTimer a t ∈ q.activeTimers
  listed : ∀ i ∈ q.activeTimers, ∃ a t, q.heap a = some t ∧ i = activeTimer a t ∧ entry a t ∈ q.timers
  sizes : q.timers.size = q.activeTimers.size

def Scheduled (a : Address) (q : TimerQueue) : Prop := ∃ t, q.heap a = some t ∧ entry a t ∈ q.timers

variable {q q' : TimerQueue}

theorem of_update_none {heap : Address → Option InvokeTimer} (there : Function.update heap a none b = some u) :
    b ≠ a ∧ heap b = some u := by
  by_cases eq : b = a
  · simp [eq] at there
  · exact ⟨eq,by simpa [eq] using there⟩

theorem of_update_some {heap : Address → Option InvokeTimer} (there : Function.update heap a (some t) b = some u) :
    b = a ∧ u = t ∨ b ≠ a ∧ heap b = some u := by
  by_cases eq : b = a
  · exact .inl ⟨eq,by simpa [eq,eq_comm] using there⟩
  · exact .inr ⟨eq,by simpa [eq] using there⟩

theorem deref_of (live : q.heap a = some t) : q.deref a = .ok t := by simp [deref,live]

theorem Wf.active (wf : q.Wf) (live : q.heap a = some t) :
    activeTimer a t ∈ q.activeTimers ↔ entry a t ∈ q.timers := by
  constructor
  · intro member
    obtain ⟨b,u,there,eq,entered⟩ := wf.listed _ member
    obtain ⟨rfl,-⟩ := activeTimer_inj.mp eq
    obtain rfl : t = u := Option.some.inj (live.symm.trans there)
    exact entered
  · intro member
    obtain ⟨b,u,there,eq,listed⟩ := wf.keyed _ member
    obtain ⟨-,rfl⟩ := entry_inj.mp eq
    obtain rfl : t = u := Option.some.inj (live.symm.trans there)
    exact listed

theorem scheduled_iff (live : q.heap a = some t) : q.Scheduled a ↔ entry a t ∈ q.timers := by
  simp [Scheduled,live]

theorem Wf.scheduled (wf : q.Wf) (member : e ∈ q.timers) : q.Scheduled (addr e) := by
  obtain ⟨a,t,live,rfl,-⟩ := wf.keyed e member
  exact ⟨t,live,member⟩

def scheduling (a : Address) (t : InvokeTimer) (q : TimerQueue) : TimerQueue :=
  { q with
    timers := q.timers.insert (entry a t)
    activeTimers := q.activeTimers.insert (activeTimer a t) }

theorem scheduled_scheduling (live : q.heap a = some t) :
    (q.scheduling a t).Scheduled b ↔ b = a ∨ q.Scheduled b := by
  constructor
  · rintro ⟨u,there,member⟩
    rcases OrderedSet.mem_insert.mp member with eq | member
    · exact .inl (entry_inj.mp eq).2
    · exact .inr ⟨u,there,member⟩
  · rintro (rfl | ⟨u,there,member⟩)
    · exact ⟨t,live,OrderedSet.mem_insert.mpr (.inl rfl)⟩
    · exact ⟨u,there,OrderedSet.mem_insert.mpr (.inr member)⟩

/-- `Insert` of a live timer that is in neither set passes its assertions. -/
theorem insert_spec (wf : q.Wf) (live : q.heap a = some t) (free : ¬q.Scheduled a) :
    q.insert a = .ok (q.scheduling a t,q.earliestChanged t.expiration) ∧ (q.scheduling a t).Wf := by
  have newEntry : entry a t ∉ q.timers := fun member => free ⟨t,live,member⟩
  have newActive : activeTimer a t ∉ q.activeTimers := fun member => newEntry ((wf.active live).mp member)
  have sizes : (q.timers.insert (entry a t)).size = (q.activeTimers.insert (activeTimer a t)).size := by
    rw [OrderedSet.size_insert newEntry,OrderedSet.size_insert newActive,wf.sizes]
  refine ⟨by simp [insert,wf.sizes,deref_of live,newEntry,newActive,sizes,scheduling],?_,?_,sizes⟩
  · intro e member
    rcases OrderedSet.mem_insert.mp member with rfl | member
    · exact ⟨a,t,live,rfl,OrderedSet.mem_insert.mpr (.inl rfl)⟩
    · obtain ⟨b,u,there,rfl,listed⟩ := wf.keyed e member
      exact ⟨b,u,there,rfl,OrderedSet.mem_insert.mpr (.inr listed)⟩
  · intro i member
    rcases OrderedSet.mem_insert.mp member with rfl | member
    · exact ⟨a,t,live,rfl,OrderedSet.mem_insert.mpr (.inl rfl)⟩
    · obtain ⟨b,u,there,rfl,entered⟩ := wf.listed i member
      exact ⟨b,u,there,rfl,OrderedSet.mem_insert.mpr (.inr entered)⟩

/-- What `AddTimerInLoop` leaves: the timer scheduled, and the descriptor armed for it
if it is now the earliest. -/
def added (clock : Int) (a : Address) (t : InvokeTimer) (q : TimerQueue) : TimerQueue :=
  if q.earliestChanged t.expiration then (q.scheduling a t).resettimerfd clock t.expiration
  else q.scheduling a t

theorem addTimerInLoop_spec (clock : Int) (wf : q.Wf) (live : q.heap a = some t) (free : ¬q.Scheduled a) :
    q.addTimerInLoop clock a = .ok (q.added clock a t) := by
  have there : (q.scheduling a t).deref a = .ok t := deref_of live
  cases earliest : q.earliestChanged t.expiration <;>
    simp [addTimerInLoop,(insert_spec wf live free).1,added,earliest,there]

/-- The queue after a scheduled timer is taken out of both sets and deleted. -/
def unscheduling (a : Address) (t : InvokeTimer) (q : TimerQueue) : TimerQueue :=
  { q with
    timers := q.timers.erase (entry a t)
    activeTimers := q.activeTimers.erase (activeTimer a t)
    heap := Function.update q.heap a none
    deleted := q.deleted ++ [t.created] }

/-- The queue after a cancellation that found nothing to take out. -/
def deferring (id : InvokeTimerID) (q : TimerQueue) : TimerQueue :=
  if q.isCallingExpiredTimers then { q with cancelingTimers := q.cancelingTimers.insert id } else q

theorem unscheduling_wf (wf : q.Wf) (live : q.heap a = some t) (member : entry a t ∈ q.timers) :
    (q.unscheduling a t).Wf := by
  have listed := (wf.active live).mpr member
  have others : ∀ b u, q.heap b = some u → entry b u ≠ entry a t → b ≠ a := by
    rintro b u there differ rfl
    obtain rfl : t = u := Option.some.inj (live.symm.trans there)
    exact differ rfl
  refine ⟨fun e kept => ?_,fun i kept => ?_,?_⟩
  · obtain ⟨inside,differ⟩ := OrderedSet.mem_erase.mp kept
    obtain ⟨b,u,there,rfl,active⟩ := wf.keyed e inside
    have apart := others b u there differ
    exact ⟨b,u,by simpa [unscheduling,apart] using there,rfl,
      OrderedSet.mem_erase.mpr ⟨active,fun eq => apart (activeTimer_inj.mp eq).1⟩⟩
  · obtain ⟨inside,differ⟩ := OrderedSet.mem_erase.mp kept
    obtain ⟨b,u,there,rfl,entered⟩ := wf.listed i inside
    have apart : b ≠ a := by
      rintro rfl
      obtain rfl : t = u := Option.some.inj (live.symm.trans there)
      exact differ rfl
    exact ⟨b,u,by simpa [unscheduling,apart] using there,rfl,
      OrderedSet.mem_erase.mpr ⟨entered,fun eq => apart (entry_inj.mp eq).2⟩⟩
  · have shorter := OrderedSet.size_erase member
    have shorter' := OrderedSet.size_erase listed
    have := wf.sizes
    simp only [unscheduling]
    omega

theorem scheduled_unscheduling (live : q.heap a = some t) :
    (q.unscheduling a t).Scheduled b ↔ b ≠ a ∧ q.Scheduled b := by
  by_cases eq : b = a
  · subst eq
    simp [Scheduled,unscheduling]
  · simp [Scheduled,unscheduling,eq]

/-- `CancelInLoop` deletes a scheduled timer and, while callbacks run, notes any other id. -/
theorem cancelInLoop_spec (wf : q.Wf) (id : InvokeTimerID) :
    (∃ a t, q.heap a = some t ∧ id = activeTimer a t ∧ entry a t ∈ q.timers ∧
      q.cancelInLoop id = .ok (q.unscheduling a t)) ∨
    (id ∉ q.activeTimers ∧ q.cancelInLoop id = .ok (q.deferring id)) := by
  by_cases found : id ∈ q.activeTimers
  · obtain ⟨a,t,live,rfl,member⟩ := wf.listed id found
    refine .inl ⟨a,t,live,rfl,member,?_⟩
    have sizes := (unscheduling_wf wf live member).sizes
    simp only [unscheduling] at sizes
    have address : (ofLex (activeTimer a t)).1 = a := rfl
    simp [cancelInLoop,wf.sizes,found,address,OrderedSet.count,member,delete,deref,live,
      sizes,unscheduling]
  · refine .inr ⟨found,?_⟩
    cases calling : q.isCallingExpiredTimers <;>
      simp [cancelInLoop,wf.sizes,found,deferring,calling]

/-- The loop of `GetExpired` takes every entry's timer out of the active set. -/
theorem eraseActive_spec (expired : List Entry)
    (named : ∀ i ∈ q.activeTimers, ∃ a t, q.heap a = some t ∧ i = activeTimer a t)
    (active : ∀ e ∈ expired, ∃ a t, q.heap a = some t ∧ e = entry a t ∧ activeTimer a t ∈ q.activeTimers)
    (distinct : (expired.map addr).Nodup) :
    ∃ activeTimers, eraseActive expired q = .ok { q with activeTimers } ∧
      activeTimers.size + expired.length = q.activeTimers.size ∧
      ∀ i, i ∈ activeTimers ↔ i ∈ q.activeTimers ∧ (ofLex i).1 ∉ expired.map addr := by
  induction expired generalizing q with
  | nil => exact ⟨q.activeTimers,rfl,rfl,by simp⟩
  | cons e rest ih =>
    obtain ⟨a,t,live,rfl,member⟩ := active e (by simp)
    obtain ⟨apart,distinct⟩ := List.nodup_cons.mp distinct
    let next : TimerQueue := { q with activeTimers := q.activeTimers.erase (activeTimer a t) }
    have named' : ∀ i ∈ next.activeTimers, ∃ a t, next.heap a = some t ∧ i = activeTimer a t :=
      fun i inside => named i (OrderedSet.mem_erase.mp inside).1
    have active' : ∀ e ∈ rest, ∃ a t, next.heap a = some t ∧ e = entry a t ∧
        activeTimer a t ∈ next.activeTimers := by
      intro e inside
      obtain ⟨b,u,there,rfl,listed⟩ := active e (by simp [inside])
      refine ⟨b,u,there,rfl,OrderedSet.mem_erase.mpr ⟨listed,fun eq => apart ?_⟩⟩
      obtain ⟨rfl,-⟩ := activeTimer_inj.mp eq
      exact List.mem_map.mpr ⟨_,inside,rfl⟩
    obtain ⟨activeTimers,done,size,members⟩ := ih named' active' distinct
    refine ⟨activeTimers,?_,?_,fun i => ?_⟩
    · have address : (ofLex (entry a t)).2 = a := rfl
      simpa [eraseActive,address,deref_of live,OrderedSet.count,member] using done
    · have shorter := OrderedSet.size_erase member
      simp only [next] at size
      simp only [List.length_cons]
      omega
    · rw [members]
      simp only [next,OrderedSet.mem_erase,List.map_cons,List.mem_cons,addr_entry,not_or]
      constructor
      · rintro ⟨⟨inside,differ⟩,rest⟩
        refine ⟨inside,?_,rest⟩
        obtain ⟨b,u,there,rfl⟩ := named i inside
        rintro rfl
        obtain rfl : t = u := Option.some.inj (live.symm.trans there)
        exact differ rfl
      · rintro ⟨inside,differ,rest⟩
        exact ⟨⟨inside,fun eq => differ (by rw [eq]; rfl)⟩,rest⟩

theorem Wf.addr_inj (wf : q.Wf) (left : e ∈ q.timers) (right : f ∈ q.timers)
    (same : addr e = addr f) : e = f := by
  obtain ⟨a,t,live,rfl,-⟩ := wf.keyed e left
  obtain ⟨b,u,there,rfl,-⟩ := wf.keyed f right
  obtain rfl : a = b := same
  obtain rfl : t = u := Option.some.inj (live.symm.trans there)
  rfl

/-- Below the sentinel stand exactly the entries that are due, since no timer lives at
its address. -/
theorem lt_sentry (bounded : addr e < uintptrMax) :
    e < (toLex (now,uintptrMax) : Entry) ↔ (ofLex e).1 ≤ now := by
  rw [Prod.Lex.lt_iff]
  have pointer : (ofLex e).2 < uintptrMax := bounded
  simp [pointer,le_iff_lt_or_eq]

/-- What `GetExpired` does: the entries due move out of both sets, in order. -/
theorem getExpired_spec (wf : q.Wf) (bounded : ∀ e ∈ q.timers, addr e < uintptrMax)
    (now : Int) : ∃ timers activeTimers expired,
      q.getExpired now = .ok ({ q with timers, activeTimers },expired) ∧
      { q with timers, activeTimers }.Wf ∧
      expired = q.timers.elems.filter (fun e => (ofLex e).1 ≤ now) ∧
      (∀ e, e ∈ timers ↔ e ∈ q.timers ∧ now < (ofLex e).1) := by
  let sentry : Entry := toLex (now,uintptrMax)
  have due : (q.timers.below sentry).elems = q.timers.elems.filter (fun e => (ofLex e).1 ≤ now) :=
    List.filter_congr fun e member => by simp only [sentry,lt_sentry (bounded e member)]
  have kept : ∀ e, e ∈ q.timers.above sentry ↔ e ∈ q.timers ∧ now < (ofLex e).1 := by
    intro e
    rw [OrderedSet.mem_above,← not_lt,and_congr_right_iff]
    intro member
    rw [lt_sentry (bounded e member),not_le]
  have inside : ∀ e ∈ (q.timers.below sentry).elems, e ∈ q.timers := fun e h =>
    (OrderedSet.mem_below.mp h).1
  have distinct : ((q.timers.below sentry).elems.map addr).Nodup :=
    (q.timers.below sentry).nodup.map_on fun e left f right => wf.addr_inj (inside e left) (inside f right)
  obtain ⟨activeTimers,erased,size,members⟩ := eraseActive_spec (q.timers.below sentry).elems
    (q := { q with timers := q.timers.above sentry })
    (fun i listed => let ⟨a,t,live,eq,_⟩ := wf.listed i listed; ⟨a,t,live,eq⟩)
    (fun e member => wf.keyed e (inside e member)) distinct
  have sizes : (q.timers.above sentry).size = activeTimers.size := by
    have split := OrderedSet.size_below_add_above sentry q.timers
    have := wf.sizes
    simp only [OrderedSet.size] at size split this ⊢
    omega
  refine ⟨q.timers.above sentry,activeTimers,_,?_,⟨?_,?_,sizes⟩,due,kept⟩
  · have later : ∀ first ∈ (q.timers.above sentry).first, now < (ofLex first).1 := fun first eq =>
      ((kept first).mp (OrderedSet.first_spec eq).1).2
    rw [getExpired,assert_of wf.sizes,ok_bind]
    dsimp only
    rw [assert_of later,ok_bind,erased,ok_bind,assert_of sizes]
    rfl
  · intro e member
    obtain ⟨a,t,live,rfl,active⟩ := wf.keyed e (OrderedSet.mem_above.mp member).1
    refine ⟨a,t,live,rfl,(members _).mpr ⟨active,?_⟩⟩
    intro expired
    obtain ⟨f,below,same⟩ := List.mem_map.mp expired
    obtain rfl := wf.addr_inj (inside f below) (OrderedSet.mem_above.mp member).1 same
    exact (OrderedSet.mem_above.mp member).2.not_gt (OrderedSet.mem_below.mp below).2
  · intro i member
    obtain ⟨active,stays⟩ := (members i).mp member
    obtain ⟨a,t,live,rfl,entered⟩ := wf.listed i active
    refine ⟨a,t,live,rfl,OrderedSet.mem_above.mpr ⟨entered,?_⟩⟩
    by_contra early
    exact stays (List.mem_map.mpr ⟨entry a t,OrderedSet.mem_below.mpr ⟨entered,not_le.mp early⟩,rfl⟩)

/-- Where the live timers are: in the sets, in the batch, or behind a queued insertion,
and never in two of these. -/
structure Owns (batch : List Entry) (queued : List Address) (q : TimerQueue) : Prop where
  wf : q.Wf
  addressed : ∀ a t, q.heap a = some t → a < uintptrMax
  keyed : ∀ e ∈ batch, ∃ a t, q.heap a = some t ∧ e = entry a t
  awaited : ∀ a ∈ queued, ∃ t, q.heap a = some t
  distinct : (batch.map addr ++ queued).Nodup
  apart : ∀ a ∈ batch.map addr ++ queued, ¬q.Scheduled a
  owned : ∀ a t, q.heap a = some t → q.Scheduled a ∨ a ∈ batch.map addr ++ queued

variable {batch : List Entry} {queued queued' : List Address}

theorem Owns.live (owns : q.Owns batch queued) (member : a ∈ batch.map addr ++ queued) :
    ∃ t, q.heap a = some t := by
  rcases List.mem_append.mp member with inBatch | inQueue
  · obtain ⟨e,inside,rfl⟩ := List.mem_map.mp inBatch
    obtain ⟨a,t,live,rfl⟩ := owns.keyed e inside
    exact ⟨t,live⟩
  · exact owns.awaited a inQueue

theorem Owns.bounded (owns : q.Owns batch queued) : ∀ e ∈ q.timers, addr e < uintptrMax := by
  intro e member
  obtain ⟨a,t,live,rfl,-⟩ := owns.wf.keyed e member
  exact owns.addressed a t live

theorem Owns.perm (owns : q.Owns batch queued) (perm : queued.Perm queued') : q.Owns batch queued' := by
  have same : ∀ a, a ∈ batch.map addr ++ queued' ↔ a ∈ batch.map addr ++ queued := fun a => by
    simp [perm.mem_iff]
  exact { owns with
    awaited := fun a member => owns.awaited a (perm.mem_iff.mpr member)
    distinct := ((perm.append_left _).nodup_iff).mp owns.distinct
    apart := fun a member => owns.apart a ((same a).mp member)
    owned := fun a t live => (owns.owned a t live).imp_right (same a).mpr }

theorem Owns.frame (owns : q.Owns batch queued) (timers : q'.timers = q.timers)
    (activeTimers : q'.activeTimers = q.activeTimers) (heap : q'.heap = q.heap) :
    q'.Owns batch queued := by
  obtain ⟨⟨keyed,listed,sizes⟩,addressed,inBatch,inQueue,distinct,apart,owned⟩ := owns
  constructor
  · exact ⟨by rwa [timers,activeTimers,heap],by rwa [timers,activeTimers,heap],by rwa [timers,activeTimers]⟩
  · simpa only [heap] using addressed
  · simpa only [heap] using inBatch
  · simpa only [heap] using inQueue
  · exact distinct
  · simpa only [Scheduled,timers,heap] using apart
  · simpa only [Scheduled,timers,heap] using owned

theorem Owns.new (owns : q.Owns batch queued) (fresh : q.heap a = none) (bound : a < uintptrMax)
    (t : InvokeTimer) : { q with heap := Function.update q.heap a (some t) }.Owns batch (a :: queued) := by
  have other : ∀ b u, q.heap b = some u → b ≠ a := by
    rintro b u live rfl
    simp [fresh] at live
  have scheduled : ∀ b, { q with heap := Function.update q.heap a (some t) }.Scheduled b → q.Scheduled b := by
    rintro b ⟨u,live,member⟩
    obtain ⟨c,v,there,eq,-⟩ := owns.wf.keyed _ member
    obtain ⟨same,rfl⟩ := entry_inj.mp eq
    exact ⟨v,there,eq ▸ member⟩
  have kept : ∀ b u, q.heap b = some u → Function.update q.heap a (some t) b = some u := fun b u live => by
    simpa [other b u live] using live
  constructor
  · refine ⟨fun e member => ?_,fun i member => ?_,owns.wf.sizes⟩
    · obtain ⟨b,u,live,rest⟩ := owns.wf.keyed e member
      exact ⟨b,u,kept b u live,rest⟩
    · obtain ⟨b,u,live,rest⟩ := owns.wf.listed i member
      exact ⟨b,u,kept b u live,rest⟩
  · intro b u live
    by_cases eq : b = a
    · exact eq ▸ bound
    · exact owns.addressed b u (by simpa [eq] using live)
  · intro e member
    obtain ⟨b,u,live,eq⟩ := owns.keyed e member
    exact ⟨b,u,kept b u live,eq⟩
  · intro b member
    rcases List.mem_cons.mp member with rfl | member
    · exact ⟨t,by simp⟩
    · obtain ⟨u,live⟩ := owns.awaited b member
      exact ⟨u,kept b u live⟩
  · refine (List.perm_middle.nodup_iff).mpr (List.nodup_cons.mpr ⟨fun member => ?_,owns.distinct⟩)
    obtain ⟨u,live⟩ := owns.live member
    exact other a u live rfl
  · intro b member waiting
    rcases List.mem_cons.mp (List.perm_middle.mem_iff.mp member) with rfl | member
    · obtain ⟨u,live,-⟩ := scheduled b waiting
      exact other b u live rfl
    · exact owns.apart b member (scheduled b waiting)
  · intro b u live
    by_cases eq : b = a
    · exact .inr (by simp [eq])
    · have before : q.heap b = some u := by simpa [eq] using live
      rcases owns.owned b u before with ⟨v,there,member⟩ | member
      · exact .inl ⟨v,kept b v there,member⟩
      · exact .inr (by simp only [List.mem_append,List.mem_cons] at member ⊢; tauto)

theorem Owns.scheduling (owns : q.Owns batch (a :: queued)) (live : q.heap a = some t) :
    (q.scheduling a t).Owns batch queued := by
  have perm : (batch.map addr ++ a :: queued).Perm (a :: (batch.map addr ++ queued)) := List.perm_middle
  obtain ⟨new,distinct⟩ := List.nodup_cons.mp (perm.nodup_iff.mp owns.distinct)
  have free : ¬q.Scheduled a := owns.apart a (by simp)
  constructor
  · exact (insert_spec owns.wf live free).2
  · exact owns.addressed
  · exact owns.keyed
  · exact fun b member => owns.awaited b (by simp [member])
  · exact distinct
  · intro b member waiting
    rcases (scheduled_scheduling live).mp waiting with rfl | before
    · exact new member
    · exact owns.apart b (perm.mem_iff.mpr (List.mem_cons_of_mem _ member)) before
  · intro b u there
    rw [scheduled_scheduling live]
    rcases owns.owned b u there with before | member
    · exact .inl (.inr before)
    · rcases List.mem_cons.mp (perm.mem_iff.mp member) with rfl | later
      · exact .inl (.inl rfl)
      · exact .inr later

theorem Owns.added (clock : Int) (owns : q.Owns batch (a :: queued)) (live : q.heap a = some t) :
    (q.added clock a t).Owns batch queued := by
  rw [TimerQueue.added]
  split
  · exact (owns.scheduling live).frame rfl rfl rfl
  · exact owns.scheduling live

theorem Owns.unscheduling (owns : q.Owns batch queued) (live : q.heap a = some t)
    (member : entry a t ∈ q.timers) : (q.unscheduling a t).Owns batch queued := by
  have scheduled : q.Scheduled a := ⟨t,live,member⟩
  have kept : ∀ b u, q.heap b = some u → b ≠ a → (q.unscheduling a t).heap b = some u :=
    fun b u there differ => by simpa [TimerQueue.unscheduling,differ] using there
  have other : ∀ b ∈ batch.map addr ++ queued, b ≠ a := by
    rintro b held rfl
    exact owns.apart b held scheduled
  constructor
  · exact unscheduling_wf owns.wf live member
  · exact fun b u there => owns.addressed b u (of_update_none there).2
  · intro e inside
    obtain ⟨b,u,there,rfl⟩ := owns.keyed e inside
    exact ⟨b,u,kept b u there (other b (List.mem_append_left _ (List.mem_map.mpr ⟨_,inside,rfl⟩))),rfl⟩
  · intro b inside
    obtain ⟨u,there⟩ := owns.awaited b inside
    exact ⟨u,kept b u there (other b (List.mem_append_right _ inside))⟩
  · exact owns.distinct
  · exact fun b held waiting => owns.apart b held ((scheduled_unscheduling live).mp waiting).2
  · intro b u there
    obtain ⟨differ,there⟩ := of_update_none there
    exact (owns.owned b u there).imp_left fun waiting => (scheduled_unscheduling live).mpr ⟨differ,waiting⟩

theorem Owns.deferring (owns : q.Owns batch queued) (id : InvokeTimerID) :
    (q.deferring id).Owns batch queued := by
  rw [TimerQueue.deferring]
  split
  · exact owns.frame rfl rfl rfl
  · exact owns

theorem Owns.expire (owns : q.Owns [] queued) (now : Int) : ∃ timers activeTimers,
    q.getExpired now = .ok ({ q with timers, activeTimers },
      q.timers.elems.filter (fun e => (ofLex e).1 ≤ now)) ∧
    { q with timers, activeTimers }.Owns (q.timers.elems.filter (fun e => (ofLex e).1 ≤ now)) queued ∧
    ∀ e, e ∈ timers ↔ e ∈ q.timers ∧ now < (ofLex e).1 := by
  obtain ⟨timers,activeTimers,expired,done,wf,due,kept⟩ := getExpired_spec owns.wf owns.bounded now
  have isDue : ∀ e, e ∈ expired ↔ e ∈ q.timers ∧ (ofLex e).1 ≤ now := fun e => by
    simp [due,OrderedSet.mem_def]
  have leaves : ∀ a ∈ expired.map addr, q.Scheduled a := by
    intro a member
    obtain ⟨e,inside,rfl⟩ := List.mem_map.mp member
    exact owns.wf.scheduled ((isDue e).mp inside).1
  refine ⟨timers,activeTimers,due ▸ done,due ▸ ?_,kept⟩
  constructor
  · exact wf
  · exact owns.addressed
  · intro e inside
    obtain ⟨a,t,live,eq,-⟩ := owns.wf.keyed e ((isDue e).mp inside).1
    exact ⟨a,t,live,eq⟩
  · exact owns.awaited
  · refine List.nodup_append'.mpr ⟨?_,by simpa using owns.distinct,?_⟩
    · rw [due]
      exact (q.timers.nodup.filter _).map_on fun e left f right =>
        owns.wf.addr_inj (List.mem_filter.mp left).1 (List.mem_filter.mp right).1
    · exact fun a inBatch inQueue => owns.apart a (by simpa using inQueue) (leaves a inBatch)
  · intro a held waiting
    obtain ⟨t,live,member⟩ := waiting
    obtain ⟨before,later⟩ := (kept _).mp member
    rcases List.mem_append.mp held with inBatch | inQueue
    · obtain ⟨e,inside,rfl⟩ := List.mem_map.mp inBatch
      obtain ⟨member,early⟩ := (isDue e).mp inside
      rw [owns.wf.addr_inj member before rfl] at early
      exact absurd early (not_le.mpr later)
    · exact owns.apart a (by simpa using inQueue) ⟨t,live,before⟩
  · intro a t live
    rcases owns.owned a t live with ⟨u,there,member⟩ | inQueue
    · obtain rfl : t = u := Option.some.inj (live.symm.trans there)
      by_cases early : t.expiration ≤ now
      · exact .inr (List.mem_append_left _ (List.mem_map.mpr ⟨entry a t,(isDue _).mpr ⟨member,early⟩,rfl⟩))
      · exact .inl ⟨t,live,(kept _).mpr ⟨member,not_le.mp early⟩⟩
    · exact .inr (List.mem_append_right _ (by simpa using inQueue))

/-- The heap after the timer at `a`, which is in neither set, is changed or deleted. -/
theorem Wf.overwrite (wf : q.Wf) (free : ¬q.Scheduled a) (value : Option InvokeTimer) :
    { q with heap := Function.update q.heap a value }.Wf ∧
    ∀ b, b ≠ a → ({ q with heap := Function.update q.heap a value }.Scheduled b ↔ q.Scheduled b) := by
  have other : ∀ b u, q.heap b = some u → entry b u ∈ q.timers → b ≠ a := by
    rintro b u live member rfl
    exact free ⟨u,live,member⟩
  have kept : ∀ b u, q.heap b = some u → b ≠ a → Function.update q.heap a value b = some u :=
    fun b u live differ => by simpa [differ] using live
  refine ⟨⟨fun e member => ?_,fun i member => ?_,wf.sizes⟩,fun b differ => by simp [Scheduled,differ]⟩
  · obtain ⟨b,u,live,rfl,active⟩ := wf.keyed e member
    exact ⟨b,u,kept b u live (other b u live member),rfl,active⟩
  · obtain ⟨b,u,live,rfl,entered⟩ := wf.listed i member
    exact ⟨b,u,kept b u live (other b u live entered),rfl,entered⟩

theorem Owns.restart (owns : q.Owns (entry a t :: batch) queued) (u : InvokeTimer) :
    { q with heap := Function.update q.heap a (some u) }.Owns batch (a :: queued) := by
  have perm : (batch.map addr ++ a :: queued).Perm ((entry a t :: batch).map addr ++ queued) := List.perm_middle
  have free : ¬q.Scheduled a := owns.apart a (by simp)
  obtain ⟨wf,scheduled⟩ := owns.wf.overwrite free (some u)
  obtain ⟨new,-⟩ := List.nodup_cons.mp owns.distinct
  have kept : ∀ b v, q.heap b = some v → b ≠ a → Function.update q.heap a (some u) b = some v :=
    fun b v live differ => by simpa [differ] using live
  have other : ∀ b ∈ batch.map addr ++ queued, b ≠ a := by
    rintro b member rfl
    exact new member
  obtain ⟨t',there⟩ := owns.live (a := a) (by simp)
  constructor
  · exact wf
  · intro b v live
    by_cases eq : b = a
    · exact eq ▸ owns.addressed a t' there
    · exact owns.addressed b v (by simpa [eq] using live)
  · intro e member
    obtain ⟨b,v,live,rfl⟩ := owns.keyed e (by simp [member])
    exact ⟨b,v,kept b v live (other b (List.mem_append_left _ (List.mem_map.mpr ⟨_,member,rfl⟩))),rfl⟩
  · intro b member
    rcases List.mem_cons.mp member with rfl | member
    · exact ⟨u,by simp⟩
    · obtain ⟨v,live⟩ := owns.awaited b member
      exact ⟨v,kept b v live (other b (List.mem_append_right _ member))⟩
  · exact perm.nodup_iff.mpr owns.distinct
  · intro b member waiting
    by_cases eq : b = a
    · obtain ⟨v,-,entered⟩ := waiting
      obtain ⟨c,w,live,same,-⟩ := owns.wf.keyed _ entered
      obtain ⟨-,rfl⟩ := entry_inj.mp same
      exact owns.apart b (perm.mem_iff.mp member) ⟨w,live,same ▸ entered⟩
    · exact owns.apart b (perm.mem_iff.mp member) ((scheduled b eq).mp waiting)
  · intro b v live
    by_cases eq : b = a
    · exact .inr (by simp [eq])
    · rcases owns.owned b v (by simpa [eq] using live) with waiting | member
      · exact .inl ((scheduled b eq).mpr waiting)
      · exact .inr (perm.mem_iff.mpr member)

theorem Owns.release (owns : q.Owns (entry a t :: batch) queued) :
    { q with heap := Function.update q.heap a none }.Owns batch queued := by
  have free : ¬q.Scheduled a := owns.apart a (by simp)
  obtain ⟨wf,scheduled⟩ := owns.wf.overwrite free none
  obtain ⟨new,distinct⟩ := List.nodup_cons.mp owns.distinct
  have kept : ∀ b v, q.heap b = some v → b ≠ a → Function.update q.heap a none b = some v :=
    fun b v live differ => by simpa [differ] using live
  have other : ∀ b ∈ batch.map addr ++ queued, b ≠ a := by
    rintro b member rfl
    exact new member
  constructor
  · exact wf
  · exact fun b v live => owns.addressed b v (of_update_none live).2
  · intro e member
    obtain ⟨b,v,live,rfl⟩ := owns.keyed e (by simp [member])
    exact ⟨b,v,kept b v live (other b (List.mem_append_left _ (List.mem_map.mpr ⟨_,member,rfl⟩))),rfl⟩
  · intro b member
    obtain ⟨v,live⟩ := owns.awaited b member
    exact ⟨v,kept b v live (other b (List.mem_append_right _ member))⟩
  · exact distinct
  · exact fun b member waiting => owns.apart b (List.mem_cons_of_mem _ member)
      ((scheduled b (other b member)).mp waiting)
  · intro b v live
    obtain ⟨differ,live⟩ := of_update_none live
    rcases owns.owned b v live with waiting | member
    · exact .inl ((scheduled b differ).mpr waiting)
    · exact .inr ((List.mem_cons.mp member).resolve_left differ)

/-- What a turn of `Reset` makes of the batch timer at `a`. -/
def kept (now : Int) (a : Address) (t : InvokeTimer) (q : TimerQueue) : Option InvokeTimer :=
  if t.repeats ∧ activeTimer a t ∉ q.cancelingTimers then some (t.restart now) else none

/-- The creation numbers of the timers a turn of `Reset` deletes. -/
def dropped (a : Address) (t : InvokeTimer) (q : TimerQueue) : List Nat :=
  if t.repeats ∧ activeTimer a t ∉ q.cancelingTimers then [] else [t.created]

/-- One turn of `Reset`: the timer is scheduled anew or deleted, nothing else is touched. -/
theorem resetTimer_spec (owns : q.Owns (entry a t :: batch) queued) (live : q.heap a = some t) (now : Int) :
    ∃ timers activeTimers, q.resetTimer now (entry a t) = .ok { q with
        timers, activeTimers
        heap := Function.update q.heap a (q.kept now a t)
        deleted := q.deleted ++ q.dropped a t } ∧
      { q with timers, activeTimers, heap := Function.update q.heap a (q.kept now a t) }.Owns batch queued ∧
      ∀ e, e ∈ timers ↔ e ∈ q.timers ∨ ∃ u, q.kept now a t = some u ∧ e = entry a u := by
  have address : (ofLex (entry a t)).2 = a := rfl
  by_cases again : t.repeats ∧ activeTimer a t ∉ q.cancelingTimers
  · have owns' := owns.restart (t.restart now)
    have there : { q with heap := Function.update q.heap a (some (t.restart now)) }.heap a =
      some (t.restart now) := by simp
    have inserted := (insert_spec owns'.wf there (owns'.apart a (by simp))).1
    refine ⟨q.timers.insert (entry a (t.restart now)),q.activeTimers.insert (activeTimer a (t.restart now)),
      ?_,?_,?_⟩
    · simp only [resetTimer,address,deref_of live,ok_bind,again,not_false_eq_true,and_self,↓reduceIte,inserted,
        kept,dropped,List.append_nil]
      rfl
    · simpa [kept,again,TimerQueue.scheduling] using owns'.scheduling there
    · intro e
      simp [kept,again,or_comm]
  · refine ⟨q.timers,q.activeTimers,?_,by simpa only [kept,again,↓reduceIte] using owns.release,?_⟩
    · simp [resetTimer,address,deref_of live,again,delete,kept,dropped]
    · simp [kept,again]

/-- The books on all timers ever made: creation numbers and ids are given once, and a
deleted timer never comes back. -/
structure Ledger (numCreated : Nat) (issued : List (Nat × InvokeTimerID)) (q : TimerQueue) : Prop where
  numbered : ∀ a t, q.heap a = some t → t.created < numCreated
  separate : ∀ a t b u, q.heap a = some t → q.heap b = some u → t.created = u.created → a = b
  deletedOnce : q.deleted.Nodup
  dead : ∀ n ∈ q.deleted, n < numCreated ∧ ∀ a t, q.heap a = some t → t.created ≠ n
  named : ∀ a t, q.heap a = some t → (t.created,activeTimer a t) ∈ issued
  issuedBefore : ∀ n i, (n,i) ∈ issued → n < numCreated
  issuedOnce : ∀ n i j, (n,i) ∈ issued → (n,j) ∈ issued → i = j

variable {numCreated : Nat} {issued : List (Nat × InvokeTimerID)}

theorem Ledger.frame (ledger : q.Ledger numCreated issued) (heap : q'.heap = q.heap)
    (deleted : q'.deleted = q.deleted) : q'.Ledger numCreated issued := by
  obtain ⟨numbered,separate,once,dead,given,before,unique⟩ := ledger
  exact ⟨by rwa [heap],by rwa [heap],by rwa [deleted],by rwa [heap,deleted],by rwa [heap],before,unique⟩

theorem Ledger.createElsewhere (ledger : q.Ledger numCreated issued) : q.Ledger (numCreated + 1) issued where
  numbered a t live := (ledger.numbered a t live).trans (Nat.lt_succ_self _)
  separate := ledger.separate
  deletedOnce := ledger.deletedOnce
  dead n gone := ⟨(ledger.dead n gone).1.trans (Nat.lt_succ_self _),(ledger.dead n gone).2⟩
  named := ledger.named
  issuedBefore n i member := (ledger.issuedBefore n i member).trans (Nat.lt_succ_self _)
  issuedOnce := ledger.issuedOnce

theorem Ledger.new (ledger : q.Ledger numCreated issued) (a : Address) {t : InvokeTimer}
    (number : t.created = numCreated) :
    { q with heap := Function.update q.heap a (some t) }.Ledger (numCreated + 1)
      (issued ++ [(numCreated,activeTimer a t)]) := by
  have origin : ∀ b u, Function.update q.heap a (some t) b = some u →
      b = a ∧ u = t ∨ b ≠ a ∧ q.heap b = some u := fun _ _ => of_update_some
  have later : ∀ b u, q.heap b = some u → u.created ≠ t.created := fun b u live => by
    have := ledger.numbered b u live
    omega
  constructor
  · intro b u live
    rcases origin b u live with ⟨-,rfl⟩ | ⟨-,live⟩
    · omega
    · exact (ledger.numbered b u live).trans (Nat.lt_succ_self _)
  · intro b u c v left right same
    rcases origin b u left with ⟨rfl,rfl⟩ | ⟨-,old⟩ <;> rcases origin c v right with ⟨rfl,rfl⟩ | ⟨-,old'⟩
    · rfl
    · exact absurd same.symm (later c v old')
    · exact absurd same (later b u old)
    · exact ledger.separate b u c v old old' same
  · exact ledger.deletedOnce
  · intro n gone
    obtain ⟨before,none⟩ := ledger.dead n gone
    refine ⟨before.trans (Nat.lt_succ_self _),fun b u live => ?_⟩
    rcases origin b u live with ⟨-,rfl⟩ | ⟨-,live⟩
    · omega
    · exact none b u live
  · intro b u live
    rcases origin b u live with ⟨rfl,rfl⟩ | ⟨-,live⟩
    · simp [number]
    · exact List.mem_append_left _ (ledger.named b u live)
  · intro n i member
    rcases List.mem_append.mp member with member | member
    · exact (ledger.issuedBefore n i member).trans (Nat.lt_succ_self _)
    · obtain ⟨rfl,-⟩ : n = numCreated ∧ _ := by simpa using member
      exact Nat.lt_succ_self _
  · intro n i j left right
    have before := ledger.issuedBefore n
    simp only [List.mem_append,List.mem_singleton,Prod.mk.injEq] at left right
    rcases left with left | ⟨rfl,rfl⟩ <;> rcases right with right | ⟨eq,rfl⟩
    · exact ledger.issuedOnce n i j left right
    · exact absurd (before i left) (by omega)
    · exact absurd (before j right) (Nat.lt_irrefl _)
    · rfl

theorem Ledger.delete (ledger : q.Ledger numCreated issued) (live : q.heap a = some t) :
    { q with heap := Function.update q.heap a none, deleted := q.deleted ++ [t.created] }.Ledger
      numCreated issued := by
  have before : ∀ b u, Function.update q.heap a none b = some u → b ≠ a ∧ q.heap b = some u :=
    fun _ _ => of_update_none
  constructor
  · exact fun b u there => ledger.numbered b u (before b u there).2
  · exact fun b u c v left right => ledger.separate b u c v (before b u left).2 (before c v right).2
  · refine List.nodup_append'.mpr ⟨ledger.deletedOnce,List.nodup_singleton _,fun n gone => ?_⟩
    simpa using fun eq : n = t.created => (ledger.dead n gone).2 a t live eq.symm
  · intro n gone
    rcases List.mem_append.mp gone with gone | last
    · exact ⟨(ledger.dead n gone).1,fun b u there => (ledger.dead n gone).2 b u (before b u there).2⟩
    · obtain rfl : n = t.created := by simpa using last
      refine ⟨ledger.numbered a t live,fun b u there same => ?_⟩
      exact (before b u there).1 (ledger.separate b u a t (before b u there).2 live same)
  · exact fun b u there => ledger.named b u (before b u there).2
  · exact ledger.issuedBefore
  · exact ledger.issuedOnce

theorem Ledger.restart (ledger : q.Ledger numCreated issued) (live : q.heap a = some t) (now : Int) :
    { q with heap := Function.update q.heap a (some (t.restart now)) }.Ledger numCreated issued := by
  have origin : ∀ b u, Function.update q.heap a (some (t.restart now)) b = some u →
      ∃ v, q.heap b = some v ∧ v.created = u.created ∧ activeTimer b v = activeTimer b u := by
    intro b u there
    rcases of_update_some there with ⟨rfl,rfl⟩ | ⟨-,before⟩
    · exact ⟨t,live,rfl,rfl⟩
    · exact ⟨u,before,rfl,rfl⟩
  constructor
  · intro b u there
    obtain ⟨v,before,number,-⟩ := origin b u there
    exact number ▸ ledger.numbered b v before
  · intro b u c v left right same
    obtain ⟨u',left,number,-⟩ := origin b u left
    obtain ⟨v',right,number',-⟩ := origin c v right
    exact ledger.separate b u' c v' left right (by omega)
  · exact ledger.deletedOnce
  · intro n gone
    refine ⟨(ledger.dead n gone).1,fun b u there => ?_⟩
    obtain ⟨v,before,number,-⟩ := origin b u there
    exact number ▸ (ledger.dead n gone).2 b v before
  · intro b u there
    obtain ⟨v,before,number,id⟩ := origin b u there
    exact number ▸ id ▸ ledger.named b v before
  · exact ledger.issuedBefore
  · exact ledger.issuedOnce

/-- The heap after `Reset` has gone through a batch. -/
def resetHeap (now : Int) (batch : List Entry) (q : TimerQueue) : Address → Option InvokeTimer :=
  fun a => if a ∈ batch.map addr then (q.heap a).bind (q.kept now a ·) else q.heap a

/-- The loop of `Reset`: every batch timer is scheduled anew or deleted. -/
theorem resetTimers_spec (owns : q.Owns batch queued) (now : Int) : ∃ timers activeTimers deleted,
    q.resetTimers now batch = .ok { q with timers, activeTimers, heap := q.resetHeap now batch, deleted } ∧
    { q with timers, activeTimers, heap := q.resetHeap now batch, deleted }.Owns [] queued ∧
    (q.Ledger numCreated issued →
      { q with timers, activeTimers, heap := q.resetHeap now batch, deleted }.Ledger numCreated issued) ∧
    ∀ e, e ∈ timers ↔ e ∈ q.timers ∨
      ∃ a t u, entry a t ∈ batch ∧ q.heap a = some t ∧ q.kept now a t = some u ∧ e = entry a u := by
  induction batch generalizing q with
  | nil => exact ⟨q.timers,q.activeTimers,q.deleted,rfl,owns,id,by simp⟩
  | cons it rest ih =>
    obtain ⟨a,t,live,rfl⟩ := owns.keyed it (by simp)
    obtain ⟨timers,activeTimers,done,owns',members⟩ := resetTimer_spec owns live now
    let next : TimerQueue := { q with
      timers, activeTimers
      heap := Function.update q.heap a (q.kept now a t)
      deleted := q.deleted ++ q.dropped a t }
    have ledger' : q.Ledger numCreated issued → next.Ledger numCreated issued := by
      intro ledger
      by_cases again : t.repeats ∧ activeTimer a t ∉ q.cancelingTimers
      · exact (ledger.restart live now).frame (by simp [next,kept,again]) (by simp [next,dropped,again])
      · exact (ledger.delete live).frame (by simp [next,kept,again]) (by simp [next,dropped,again])
    obtain ⟨new,-⟩ := List.nodup_cons.mp owns.distinct
    have apart : ∀ b ∈ rest.map addr, b ≠ a := by
      rintro b member rfl
      exact new (List.mem_append_left _ member)
    have heap : next.resetHeap now rest = q.resetHeap now (entry a t :: rest) := by
      funext b
      by_cases eq : b = a
      · have out : a ∉ rest.map addr := fun member => apart a member rfl
        simp only [resetHeap,next,eq,out,List.map_cons,addr_entry,List.mem_cons,true_or,↓reduceIte,
          Function.update_self,live,Option.bind_some]
      · simp only [resetHeap,next,List.map_cons,addr_entry,List.mem_cons,eq,false_or,ne_eq,not_false_eq_true,
          Function.update_of_ne,kept]
    obtain ⟨timers',activeTimers',deleted,rest',owns'',ledger'',members'⟩ :=
      ih (q := next) (owns'.frame rfl rfl rfl)
    rw [heap] at rest' owns'' ledger''
    refine ⟨timers',activeTimers',deleted,?_,owns'',fun ledger => ledger'' (ledger' ledger),fun e => ?_⟩
    · rw [resetTimers,done]
      exact rest'
    · rw [members',members]
      have same : ∀ b u, entry b u ∈ rest → next.heap b = q.heap b := fun b u inside => by
        simp [next,apart b (List.mem_map.mpr ⟨_,inside,rfl⟩)]
      constructor
      · rintro ((inside | ⟨u,again,rfl⟩) | ⟨b,u,v,inside,there,again,rfl⟩)
        · exact .inl inside
        · exact .inr ⟨a,t,u,by simp,live,again,rfl⟩
        · exact .inr ⟨b,u,v,by simp [inside],same b u inside ▸ there,again,rfl⟩
      · rintro (inside | ⟨b,u,v,inside,there,again,rfl⟩)
        · exact .inl (.inl inside)
        · rcases List.mem_cons.mp inside with eq | later
          · obtain ⟨-,rfl⟩ := entry_inj.mp eq
            obtain rfl : t = u := Option.some.inj (live.symm.trans there)
            exact .inl (.inr ⟨v,again,rfl⟩)
          · exact .inr ⟨b,u,v,later,(same b u later).trans there,again,rfl⟩

/-- The queue after the end of `Reset`. -/
def rearmed (clock : Int) (q : TimerQueue) : TimerQueue :=
  match q.timers.first with
  | some first => if Timestamp.isValid (ofLex first).1 then q.resettimerfd clock (ofLex first).1 else q
  | none => q

theorem rearm_spec (wf : q.Wf) (clock : Int) : q.rearm clock = .ok (q.rearmed clock) := by
  cases start : q.timers.first with
  | none => simp [rearm,rearmed,start,Timestamp.isValid,Timestamp.invalid]
  | some first =>
    obtain ⟨a,t,live,rfl,-⟩ := wf.keyed first (OrderedSet.first_spec start).1
    have address : (ofLex (entry a t)).2 = a := rfl
    have key : (ofLex (entry a t)).1 = t.expiration := rfl
    cases valid : Timestamp.isValid t.expiration <;>
      simp [rearm,rearmed,start,address,key,deref_of live,valid]

theorem rearmed_cases (clock : Int) (q : TimerQueue) :
    ∃ armings, q.rearmed clock = { q with armings } := by
  rw [rearmed]
  split
  · split
    · exact ⟨_,rfl⟩
    · exact ⟨q.armings,rfl⟩
  · exact ⟨q.armings,rfl⟩

theorem added_cases (clock : Int) (a : Address) (t : InvokeTimer) (q : TimerQueue) :
    ∃ armings, q.added clock a t = { q.scheduling a t with armings } := by
  rw [added]
  split
  · exact ⟨_,rfl⟩
  · exact ⟨q.armings,rfl⟩

theorem added_heap (clock : Int) (a : Address) (t : InvokeTimer) (q : TimerQueue) :
    (q.added clock a t).heap = q.heap := by
  obtain ⟨armings,shape⟩ := added_cases clock a t q
  rw [shape]
  rfl

theorem deferring_heap (id : InvokeTimerID) (q : TimerQueue) : (q.deferring id).heap = q.heap := by
  rw [deferring]
  split <;> rfl

def due (now : Int) (q : TimerQueue) : List Entry := q.timers.elems.filter fun e => (ofLex e).1 ≤ now

theorem beginHandleRead_spec (owns : q.Owns [] queued) (now : Int) : ∃ timers activeTimers,
    q.beginHandleRead now = .ok ({ q with
      timers, activeTimers, isCallingExpiredTimers := true, cancelingTimers := .empty, armings := [] },q.due now) ∧
    { q with timers, activeTimers }.Owns (q.due now) queued ∧
    ∀ e, e ∈ timers ↔ e ∈ q.timers ∧ now < (ofLex e).1 := by
  have owns' : q.readtimerfd.Owns [] queued := owns.frame rfl rfl rfl
  obtain ⟨timers,activeTimers,done,expired,members⟩ := owns'.expire now
  refine ⟨timers,activeTimers,?_,expired.frame rfl rfl rfl,members⟩
  simp only [beginHandleRead,done,ok_bind]
  rfl

theorem endHandleRead_spec (owns : q.Owns batch queued) (now clock : Int) :
    ∃ timers activeTimers deleted,
    q.endHandleRead batch now clock = .ok (rearmed clock { q with
      timers, activeTimers, deleted, isCallingExpiredTimers := false, heap := q.resetHeap now batch }) ∧
    { q with timers, activeTimers, heap := q.resetHeap now batch }.Owns [] queued ∧
    (q.Ledger numCreated issued →
      { q with heap := q.resetHeap now batch, deleted }.Ledger numCreated issued) ∧
    ∀ e, e ∈ timers ↔ e ∈ q.timers ∨
      ∃ a t u, entry a t ∈ batch ∧ q.heap a = some t ∧ q.kept now a t = some u ∧ e = entry a u := by
  have owns' : { q with isCallingExpiredTimers := false }.Owns batch queued := owns.frame rfl rfl rfl
  obtain ⟨timers,activeTimers,deleted,done,clean,books,members⟩ := resetTimers_spec owns' now
  refine ⟨timers,activeTimers,deleted,?_,clean.frame rfl rfl rfl,
    fun ledger => (books (ledger.frame rfl rfl)).frame rfl rfl,members⟩
  rw [endHandleRead,reset,done,ok_bind,rearm_spec clean.wf]
  rfl

end TimerQueue
end Evk
