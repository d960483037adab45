import Evk.TimerInvariant

/-! The firing law. A batch calls back exactly the timers that were due when it was
taken, once each and in order; over a whole run no timer fires early, a one-shot timer
fires once, and a repeating timer keeps its interval between readings. -/
namespace Evk.TimerLoop

open TimerQueue Relation

variable {s s' : TimerLoop}

def runs (n : Nat) (log : List Firing) : List Firing := log.filter (·.created == n)

/-- What two callbacks of one timer that follow each other have in common. -/
structure Spaced (f g : Firing) : Prop where
  repeats : f.repeats = true ∧ g.repeats = true
  interval : Int64Range (f.now + f.interval) → f.now + f.interval ≤ g.now

/-- How a live timer stands to its latest callback: called in the running batch, or
restarted since. -/
def Latest (phase : Phase) (a : Address) (t : InvokeTimer) (f : Firing) : Prop :=
  (entry a t ∈ phase.called ∧ ∃ called waiting, phase = .calling f.now called waiting) ∨
  (entry a t ∉ phase.called ∧ t.repeats = true ∧ t.expiration = int64 (f.now + f.interval))

structure Paced (s : TimerLoop) : Prop where
  numbered : ∀ f ∈ s.fired, f.created < s.numCreated
  due : ∀ f ∈ s.fired, f.expiration ≤ f.now
  spaced : ∀ n, (runs n s.fired).IsChain Spaced
  constant : ∀ a t, s.queue.heap a = some t → ∀ f ∈ runs t.created s.fired,
    f.interval = t.interval ∧ f.repeats = t.repeats
  latest : ∀ a t, s.queue.heap a = some t → ∀ f, (runs t.created s.fired).getLast? = some f →
    Latest s.phase a t f
  batch : ∀ now called waiting, s.phase = .calling now called waiting →
    ∀ e ∈ called ++ waiting, (ofLex e).1 ≤ now

theorem runs_append (n : Nat) (log : List Firing) (f : Firing) :
    runs n (log ++ [f]) = if f.created = n then runs n log ++ [f] else runs n log := by
  by_cases same : f.created = n <;> simp [runs,same]

theorem runs_eq_nil (numbered : ∀ f ∈ log, f.created < n) : runs n log = [] := by
  simp only [runs,List.filter_eq_nil_iff,beq_iff_eq]
  intro f member
  have := numbered f member
  omega

theorem paced_construct : construct.Paced := by
  constructor <;> simp [construct,TimerQueue.construct,runs]

/-- The quiet pieces call nothing back and keep the batch and its timers. -/
theorem Quiet.frame (inv : s.Inv) (piece : Quiet s s') : s'.phase = s.phase ∧ s'.fired = s.fired ∧
    s.numCreated ≤ s'.numCreated ∧ (∀ e ∈ s.phase.batch, s'.queue.heap (addr e) = s.queue.heap (addr e)) ∧
    ∀ a t, s'.queue.heap a = some t → s.queue.heap a = some t ∨ t.created = s.numCreated := by
  cases piece with
  | create functors pendingFunctors fresh adds =>
    refine ⟨rfl,rfl,Nat.le_succ _,fun e inside => ?_,fun b u there => ?_⟩
    · obtain ⟨t,live,-⟩ := inv.batch_live inside
      refine Function.update_of_ne (fun eq => ?_) _ _
      rw [eq,fresh.1] at live
      cases live
    · rcases of_update_some there with ⟨-,rfl⟩ | ⟨-,before⟩
      · exact .inr rfl
      · exact .inl before
  | elsewhere => exact ⟨rfl,rfl,Nat.le_succ _,fun _ _ => rfl,fun _ _ there => .inl there⟩
  | requeue => exact ⟨rfl,rfl,le_rfl,fun _ _ => rfl,fun _ _ there => .inl there⟩
  | insert functors clock live adds =>
    exact ⟨rfl,rfl,le_rfl,fun _ _ => congrFun (added_heap ..) _,
      fun b u there => .inl ((congrFun (added_heap ..) b).symm.trans there)⟩
  | cancel live member =>
    refine ⟨rfl,rfl,le_rfl,fun e inside => ?_,fun b u there => .inl (of_update_none there).2⟩
    refine Function.update_of_ne (fun eq => ?_) _ _
    exact inv.batch_apart inside (eq ▸ ⟨_,live,member⟩)
  | defer id missing =>
    exact ⟨rfl,rfl,le_rfl,fun _ _ => congrFun (deferring_heap ..) _,
      fun b u there => .inl ((congrFun (deferring_heap ..) b).symm.trans there)⟩

theorem Paced.quiet (paced : s.Paced) (inv : s.Inv) (piece : Quiet s s') : s'.Paced := by
  obtain ⟨phase,fired,grown,-,heap⟩ := piece.frame inv
  have known : ∀ a t, s'.queue.heap a = some t → runs t.created s'.fired ≠ [] → s.queue.heap a = some t := by
    intro a t there some
    refine (heap a t there).resolve_right fun new => some ?_
    rw [fired,new]
    exact runs_eq_nil paced.numbered
  constructor
  · rw [fired]
    exact fun f member => (paced.numbered f member).trans_le grown
  · rw [fired]
    exact paced.due
  · rw [fired]
    exact paced.spaced
  · intro a t there f member
    have before := known a t there (List.ne_nil_of_mem member)
    exact paced.constant a t before f (fired ▸ member)
  · intro a t there f last
    have before := known a t there (by intro empty; simp [empty] at last)
    rw [phase]
    exact paced.latest a t before f (fired ▸ last)
  · rw [phase]
    exact paced.batch

theorem Paced.quiets (paced : s.Paced) (inv : s.Inv) (pieces : ReflTransGen Quiet s s') : s'.Paced := by
  induction pieces with
  | refl => exact paced
  | tail before piece ih => exact ih.quiet (inv.quiets before) piece

theorem Paced.call (paced : s.Paced) (inv : s.Inv) (called waiting : List Entry)
    (phase : s.phase = .calling now called (entry a t :: waiting)) (live : s.queue.heap a = some t) :
    { s with phase := .calling now (called ++ [entry a t]) waiting
             fired := s.fired ++ [t.firing now] }.Paced := by
  have due : t.expiration ≤ now := paced.batch now called _ phase (entry a t) (by simp)
  have addresses : ((called ++ entry a t :: waiting).map addr).Nodup :=
    (List.nodup_append'.mp (by simpa [phase,Phase.batch] using inv.owns.distinct)).1
  have apart : ∀ b u, entry b u ∈ called → b ≠ a := by
    rintro b u inside rfl
    rw [List.map_append,List.nodup_append'] at addresses
    exact addresses.2.2 (List.mem_map.mpr ⟨_,inside,rfl⟩) (by simp)
  have new : entry a t ∉ called := fun inside => apart a t inside rfl
  constructor
  · intro f member
    rcases List.mem_append.mp member with member | last
    · exact paced.numbered f member
    · rw [List.mem_singleton.mp last]
      exact inv.ledger.numbered a t live
  · intro f member
    rcases List.mem_append.mp member with member | last
    · exact paced.due f member
    · rw [List.mem_singleton.mp last]
      exact due
  · intro n
    rw [runs_append]
    split
    · rename_i number
      subst number
      refine List.isChain_append.mpr ⟨paced.spaced _,List.isChain_singleton _,?_⟩
      intro f last g first
      obtain rfl : t.firing now = g := by simpa using first
      have constant := paced.constant a t live f (List.mem_of_getLast? last)
      rcases paced.latest a t live f last with ⟨inside,-⟩ | ⟨-,repeats,restarted⟩
      · exact absurd (by simpa [phase,Phase.called] using inside) new
      · refine ⟨⟨constant.2.trans repeats,repeats⟩,fun range => ?_⟩
        rw [int64_of_range range] at restarted
        exact restarted ▸ due
    · exact paced.spaced n
  · intro b u there f member
    rw [runs_append] at member
    split at member
    · rename_i number
      rcases List.mem_append.mp member with member | last
      · exact paced.constant b u there f member
      · obtain rfl : b = a := (inv.ledger.separate a t b u live there number).symm
        obtain rfl : t = u := Option.some.inj (live.symm.trans there)
        rw [List.mem_singleton.mp last]
        exact ⟨rfl,rfl⟩
    · exact paced.constant b u there f member
  · intro b u there f last
    rw [runs_append] at last
    split at last
    · rename_i number
      obtain rfl : b = a := (inv.ledger.separate a t b u live there number).symm
      obtain rfl : t = u := Option.some.inj (live.symm.trans there)
      obtain rfl : t.firing now = f := by simpa using last
      exact .inl ⟨by simp [Phase.called],_,_,rfl⟩
    · rename_i number
      have other : entry b u ≠ entry a t := by
        intro eq
        obtain ⟨-,rfl⟩ := entry_inj.mp eq
        obtain rfl : t = u := Option.some.inj (live.symm.trans there)
        exact number rfl
      rcases paced.latest b u there f last with ⟨inside,c,w,same⟩ | ⟨outside,restarted⟩
      · obtain ⟨rfl,rfl,rfl⟩ : now = f.now ∧ _ := by simpa [phase] using same
        exact .inl ⟨List.mem_append_left _ (by simpa [phase,Phase.called] using inside),_,_,rfl⟩
      · refine .inr ⟨fun inside => ?_,restarted⟩
        simp only [Phase.called,List.mem_append,List.mem_singleton,other,or_false] at inside
        exact outside (by simpa [phase,Phase.called] using inside)
  · intro now' called' waiting' eq e member
    obtain ⟨rfl,rfl,rfl⟩ : now = now' ∧ _ := by simpa using eq
    exact paced.batch now called _ phase e (by simpa using member)

/-- The end of a batch: what is kept has been called back at this reading and restarted. -/
theorem Paced.finish (paced : s.Paced) (inv : s.Inv) (phase : s.phase = .calling now called [])
    (idle : s'.phase = .idle) (fired : s'.fired = s.fired) (numCreated : s'.numCreated = s.numCreated)
    (heap : s'.queue.heap = s.queue.resetHeap now called) : s'.Paced := by
  have origin : ∀ a u, s'.queue.heap a = some u → ∃ t, s.queue.heap a = some t ∧
      (entry a t ∈ called ∧ t.repeats = true ∧ u = t.restart now ∨ entry a t ∉ called ∧ u = t) := by
    intro a u there
    rw [heap,resetHeap] at there
    split at there
    · rename_i inside
      obtain ⟨e,member,rfl⟩ := List.mem_map.mp inside
      obtain ⟨t,live,again⟩ := Option.bind_eq_some_iff.mp there
      obtain ⟨v,same,eq⟩ := inv.batch_live (e := e) (by simpa [phase,Phase.batch] using member)
      obtain rfl : t = v := Option.some.inj (live.symm.trans same)
      rw [kept] at again
      split at again
      · rename_i once
        exact ⟨t,live,.inl ⟨eq ▸ member,once.1,(Option.some.inj again).symm⟩⟩
      · cases again
    · rename_i outside
      exact ⟨u,there,.inr ⟨fun inside => outside (List.mem_map.mpr ⟨_,inside,rfl⟩),rfl⟩⟩
  constructor
  · rw [fired,numCreated]
    exact paced.numbered
  · rw [fired]
    exact paced.due
  · rw [fired]
    exact paced.spaced
  · intro a u there f member
    rw [fired] at member
    obtain ⟨t,live,⟨-,-,rfl⟩ | ⟨-,rfl⟩⟩ := origin a u there
    · exact paced.constant a t live f member
    · exact paced.constant a u live f member
  · intro a u there f last
    rw [fired] at last
    rw [idle]
    refine .inr ⟨by simp [Phase.called],?_⟩
    obtain ⟨t,live,⟨inside,repeats,rfl⟩ | ⟨outside,rfl⟩⟩ := origin a u there
    · obtain ⟨interval,-⟩ := paced.constant a t live f (List.mem_of_getLast? last)
      rcases paced.latest a t live f last with ⟨-,c,w,same⟩ | ⟨out,-⟩
      · obtain ⟨rfl,-⟩ : now = f.now ∧ _ := by simpa [phase] using same
        refine ⟨repeats,?_⟩
        simp [InvokeTimer.restart,repeats,Timestamp.add,interval]
      · exact absurd inside (by simpa [phase,Phase.called] using out)
    · rcases paced.latest a u live f last with ⟨inside,-⟩ | ⟨-,restarted⟩
      · exact absurd (by simpa [phase,Phase.called] using inside) outside
      · exact restarted
  · intro now' called' waiting' eq
    rw [idle] at eq
    cases eq

theorem Paced.effect (paced : s.Paced) (inv : s.Inv) (effect : Effect s act s') : s'.Paced := by
  cases effect with
  | quiet other pieces => exact paced.quiets inv pieces
  | read timers activeTimers idle owns members =>
    refine ⟨paced.numbered,paced.due,paced.spaced,paced.constant,fun a t live f last => ?_,?_⟩
    · rcases paced.latest a t live f last with ⟨inside,-⟩ | ⟨-,restarted⟩
      · simp [idle,Phase.called] at inside
      · exact .inr ⟨by simp [Phase.called],restarted⟩
    · intro now' called' waiting' eq e member
      obtain ⟨rfl,rfl,rfl⟩ : _ ∧ [] = called' ∧ _ := by simpa using eq
      simpa using (List.mem_filter.mp member).2
  | call called waiting phase live => exact paced.call inv called waiting phase live
  | finish timers activeTimers called deleted phase owns ledger members =>
    obtain ⟨armings,shape⟩ := rearmed_cases _ _
    exact paced.finish inv phase rfl rfl rfl (by rw [shape])

theorem reachable_paced (reachable : machine.Reachable s) : s.Paced := by
  refine reachable.invariant_with (fun s first => ?_) (fun s => reachable_inv) ?_
  · obtain rfl : s = construct := first
    exact paced_construct
  · intro s act s' inv paced enabled stepped
    exact paced.effect inv (inv.step_effect enabled stepped)

/-- The callbacks a batch owes for some of its entries. -/
def callbacks (now : Int) (q : TimerQueue) (entries : List Entry) : List Firing :=
  entries.filterMap fun e => (q.heap (addr e)).map (InvokeTimer.firing now)

/-- A state in the callback phase of the batch that `HandleRead` took in state `s`. -/
structure During (s : TimerLoop) (now : Int) (s' : TimerLoop) : Prop where
  inv : s'.Inv
  timers : ∀ e ∈ s.queue.due now, s'.queue.heap (addr e) = s.queue.heap (addr e)
  progress : ∃ called waiting, s'.phase = .calling now called waiting ∧
    called ++ waiting = s.queue.due now ∧ s'.fired = s.fired ++ callbacks now s.queue called

theorem During.quiet (during : During s now s') (piece : Quiet s' s'') : During s now s'' := by
  obtain ⟨phase,fired,-,heap,-⟩ := piece.frame during.inv
  obtain ⟨called,waiting,at',all,log⟩ := during.progress
  refine ⟨during.inv.quiet piece,fun e member => ?_,called,waiting,phase.trans at',all,fired.trans log⟩
  exact (heap e (by simpa [at',Phase.batch,all] using member)).trans (during.timers e member)

theorem During.effect (during : During s now s') (effect : Effect s' act s'')
    (running : act.isEnd = false) : During s now s'' := by
  have inv := during.inv.effect effect
  obtain ⟨called,waiting,at',all,log⟩ := during.progress
  cases effect with
  | quiet other pieces =>
    clear inv at' log
    induction pieces with
    | refl => exact during
    | tail _ piece ih => exact ih.quiet piece
  | read timers activeTimers idle => simp [at'] at idle
  | @call now' a t called' waiting' phase live =>
    obtain ⟨rfl,rfl,rfl⟩ : now = now' ∧ called = called' ∧ waiting = entry a t :: waiting' := by
      simpa [at'] using phase
    have before : s.queue.heap a = some t := by
      have same := during.timers (entry a t) (by simp [← all])
      exact same.symm.trans live
    refine ⟨inv,during.timers,called ++ [entry a t],waiting',rfl,by simpa using all,?_⟩
    simp only [log,List.append_assoc]
    simp [callbacks,before]
  | finish => cases running

/-- The callbacks owed are those of the timers that are due, in order of expiration and
each once. -/
theorem callbacks_due {q : TimerQueue} (wf : q.Wf) {count : Nat} {ids : List (Nat × InvokeTimerID)}
    (ledger : q.Ledger count ids) (now : Int) :
    (∀ f, f ∈ callbacks now q (q.due now) ↔ ∃ a t, q.heap a = some t ∧ entry a t ∈ q.timers ∧
      t.expiration ≤ now ∧ f = t.firing now) ∧
    (callbacks now q (q.due now)).Pairwise fun f g => f.expiration ≤ g.expiration ∧ f.created ≠ g.created := by
  have isDue : ∀ e, e ∈ q.due now ↔ e ∈ q.timers ∧ (ofLex e).1 ≤ now := fun e => by
    simp [due,OrderedSet.mem_def]
  constructor
  · intro f
    simp only [callbacks,List.mem_filterMap,Option.map_eq_some_iff]
    constructor
    · rintro ⟨e,member,t,live,rfl⟩
      obtain ⟨inside,early⟩ := (isDue e).mp member
      obtain ⟨a,u,there,rfl,-⟩ := wf.keyed e inside
      obtain rfl : t = u := Option.some.inj (live.symm.trans there)
      exact ⟨a,t,live,inside,early,rfl⟩
    · rintro ⟨a,t,live,inside,early,rfl⟩
      exact ⟨entry a t,(isDue _).mpr ⟨inside,early⟩,t,live,rfl⟩
  · rw [callbacks,List.pairwise_filterMap]
    refine ((q.timers.ascending.filter _).imp_of_mem fun {e g} left right before => ?_)
    intro f first f' second
    obtain ⟨a,t,live,rfl,-⟩ := wf.keyed e (List.mem_filter.mp left).1
    obtain ⟨b,u,there,rfl,-⟩ := wf.keyed g (List.mem_filter.mp right).1
    obtain rfl : t.firing now = f := by simpa [live] using first
    obtain rfl : u.firing now = f' := by simpa [there] using second
    refine ⟨?_,fun same => ?_⟩
    · rcases Prod.Lex.lt_iff.mp before with lt | ⟨eq,-⟩
      · exact lt.le
      · exact eq.le
    · obtain rfl := ledger.separate a t b u live there same
      obtain rfl : t = u := Option.some.inj (live.symm.trans there)
      exact lt_irrefl _ before

/-- A timer with two callbacks or more repeats. -/
theorem repeats_of_chain {log : List Firing} (chain : log.IsChain Spaced) (many : 1 < log.length) :
    ∀ f ∈ log, f.repeats = true := by
  induction log with
  | nil => simp at many
  | cons f rest ih =>
    cases rest with
    | nil => simp at many
    | cons g rest =>
      obtain ⟨first,tail⟩ := List.isChain_cons_cons.mp chain
      intro k member
      rcases List.mem_cons.mp member with rfl | later
      · exact first.repeats.1
      · cases rest with
        | nil => exact List.mem_singleton.mp later ▸ first.repeats.2
        | cons h rest => exact ih tail (by simp) k later

/-- The firing law, in every reachable state. A `HandleRead` at reading `now`, followed by
whatever its callbacks and the other threads do, has called back, once its batch is
through, exactly the timers that were due, each once and in order of expiration. No
callback ever came before its expiration, a one-shot timer has had one at most, and two
callbacks of a repeating timer that follow each other are an interval apart. -/
theorem firing_law (reachable : machine.Reachable s) :
    (∀ now s₁ s₂, s.enabled (.handleRead now) → s.step (.handleRead now) = .ok s₁ →
      (machine.restrict fun _ act => act.isEnd = false).Path s₁ s₂ → s₂.phase.waiting = [] →
      ∃ batch, s₂.fired = s.fired ++ batch ∧
        (∀ f, f ∈ batch ↔ ∃ a t, s.queue.heap a = some t ∧ entry a t ∈ s.queue.timers ∧
          t.expiration ≤ now ∧ f = t.firing now) ∧
        batch.Pairwise fun f g => f.expiration ≤ g.expiration ∧ f.created ≠ g.created) ∧
    (∀ f ∈ s.fired, f.expiration ≤ f.now) ∧
    (∀ n, ∀ f ∈ runs n s.fired, f.repeats = false → (runs n s.fired).length ≤ 1) ∧
    ∀ n, (runs n s.fired).IsChain fun f g => Int64Range (f.now + f.interval) → f.now + f.interval ≤ g.now := by
  have inv := reachable_inv reachable
  have paced := reachable_paced reachable
  refine ⟨?_,paced.due,fun n f member single => ?_,fun n => (paced.spaced n).imp fun _ _ h => h.interval⟩
  · intro now s₁ s₂ enabled stepped path through
    have effect := inv.step_effect enabled stepped
    have start : During s now s₁ := by
      have inv₁ := inv.effect effect
      cases effect with
      | quiet other => exact absurd rfl (other.1 now)
      | read timers activeTimers idle owns members =>
        exact ⟨inv₁,fun _ _ => rfl,[],_,rfl,rfl,by simp [callbacks]⟩
    have during : During s now s₂ := by
      refine path.invariant start ?_
      intro t act u during enabled stepped
      exact during.effect (during.inv.step_effect enabled.1 stepped) enabled.2
    obtain ⟨called,waiting,at',all,log⟩ := during.progress
    obtain rfl : waiting = [] := by simpa [at',Phase.waiting] using through
    obtain rfl : called = s.queue.due now := by simpa using all
    exact ⟨_,log,callbacks_due inv.owns.wf inv.ledger now⟩
  · by_contra many
    have := repeats_of_chain (paced.spaced n) (by omega) f member
    simp [single] at this

/-- Two timers due at one reading, the second of which the first callback cancels, after
the first has already fired in an earlier batch. -/
theorem firing_law_batch :
    let every : Interval := ⟨true,5,by decide⟩
    let once : Interval := ⟨false,0,by decide⟩
    let s := [.addTimer 8 10 every 3,.handleRead 12,.onTimerTriggered,.endHandleRead 13,
      .addTimer 16 19 once 14].foldl machine.advance construct
    let s₁ := machine.advance s (.handleRead 20)
    let s₂ := [.onTimerTriggered,.cancel (toLex (16,2)),.onTimerTriggered].foldl machine.advance s₁
    machine.Reachable s ∧ ∃ batch, s₂.fired = s.fired ++ batch ∧
      batch.Pairwise (fun f g => f.expiration ≤ g.expiration ∧ f.created ≠ g.created) ∧
      (InvokeTimer.construct 1 19 once).firing 20 ∈ batch := by
  intro every once s s₁ s₂
  have reachable : machine.Reachable s := Machine.Reachable.follow (.initial rfl) _ (by decide)
  have enabled : s.enabled (.handleRead 20) := by decide
  have stepped : machine.step s (.handleRead 20) = .ok s₁ := Machine.step_advance (by decide)
  have second : s.queue.heap 16 = some (.construct 1 19 once) := by decide
  have scheduled : entry 16 (.construct 1 19 once) ∈ s.queue.timers := by decide
  have through : s₂.phase.waiting = [] := by decide
  have path : (machine.restrict fun _ act => act.isEnd = false).Path s₁ s₂ := by
    have follow := Machine.Path.follow (m := machine.restrict fun _ act => act.isEnd = false) (s := s₁) .refl
      [.onTimerTriggered,.cancel (toLex (16,2)),.onTimerTriggered] (by decide)
    rwa [Machine.restrict_advance] at follow
  clear_value s s₁ s₂
  obtain ⟨batch,log,members,ordered⟩ := (firing_law reachable).1 20 s₁ s₂ enabled stepped path through
  exact ⟨reachable,batch,log,ordered,(members _).mpr ⟨16,_,second,scheduled,by decide,rfl⟩⟩

/-- Readings that lie an interval apart in a window of time. -/
theorem length_apart {interval low high : Int} (times : List Int) (apart : times.Pairwise fun x y => x + interval ≤ y)
    (inside : ∀ x ∈ times, low ≤ x ∧ x ≤ high) (some : times ≠ []) :
    (times.length - 1 : Int) * interval ≤ high - low := by
  induction times generalizing low with
  | nil => exact absurd rfl some
  | cons x rest ih =>
    have first := inside x List.mem_cons_self
    obtain ⟨later,apart⟩ := List.pairwise_cons.mp apart
    cases rest with
    | nil =>
      simp only [List.length_cons,List.length_nil]
      omega
    | cons y rest =>
      -- The rest lies in what the window has left an interval after its first reading.
      have inside (z : Int) (among : z ∈ y :: rest) : x + interval ≤ z ∧ z ≤ high :=
        ⟨later z among,(inside z (List.mem_cons_of_mem _ among)).2⟩
      have shorter := ih apart inside (List.cons_ne_nil _ _)
      calc ((x :: y :: rest).length - 1 : Int) * interval
        _ = ((y :: rest).length - 1 : Int) * interval + interval := by simp only [List.length_cons]; push_cast; ring
        _ ≤ high - low := by omega

/-- A live repeating timer's callbacks lie its interval apart, those in between included. -/
theorem Paced.apart (paced : s.Paced) (held : s.queue.heap a = some t) (forward : 0 ≤ t.interval)
    (range : ∀ f ∈ runs t.created s.fired, Int64Range (f.now + t.interval)) :
    (runs t.created s.fired).Pairwise fun f g => f.now + t.interval ≤ g.now := by
  have chain : (runs t.created s.fired).IsChain fun f g => f.now + t.interval ≤ g.now := by
    apply (paced.spaced t.created).imp_of_mem_imp
    intro f g early _ spaced
    obtain ⟨same,-⟩ := paced.constant a t held f early
    rw [← same]
    apply spaced.interval
    rw [same]
    exact range f early
  have : Trans (fun f g : Firing => f.now + t.interval ≤ g.now) (fun f g : Firing => f.now + t.interval ≤ g.now)
      (fun f g : Firing => f.now + t.interval ≤ g.now) := ⟨fun one two => by omega⟩
  exact chain.pairwise

/-- A repeating timer does not make up for lost time: however long the loop was kept from
its timers, no window holds more of its callbacks than intervals fit into it, and one. -/
theorem firing_rate (reachable : machine.Reachable s) (held : s.queue.heap a = some t) (forward : 0 < t.interval)
    (range : ∀ f ∈ runs t.created s.fired, Int64Range (f.now + t.interval)) (low high : Int) (window : low ≤ high) :
    ((runs t.created s.fired).countP (fun f => low ≤ f.now ∧ f.now ≤ high) : Int) ≤ (high - low) / t.interval + 1 := by
  have apart := (reachable_paced reachable).apart held forward.le range
  let times := ((runs t.created s.fired).filter fun f => low ≤ f.now ∧ f.now ≤ high).map (·.now)
  have count : (runs t.created s.fired).countP (fun f => low ≤ f.now ∧ f.now ≤ high) = times.length := by
    rw [List.length_map,List.countP_eq_length_filter]
  rw [count]
  by_cases empty : times = []
  · have := Int.ediv_nonneg (sub_nonneg.mpr window) forward.le
    rw [empty,List.length_nil]
    omega
  · have inside : ∀ x ∈ times, low ≤ x ∧ x ≤ high := by
      simp only [times,List.mem_map,List.mem_filter,decide_eq_true_eq]
      rintro _ ⟨f,⟨-,within⟩,rfl⟩
      exact within
    have spread := length_apart times (List.pairwise_map.mpr (apart.filter _)) inside empty
    have := (Int.le_ediv_iff_mul_le forward).mpr spread
    omega

/-- A timer of every five units that the loop keeps waiting from 12 to 40 fires once then, not five times over. -/
theorem firing_rate_late :
    let every : Interval := ⟨true,5,by decide⟩
    let s := [.addTimer 8 10 every 3,.handleRead 12,.onTimerTriggered,.endHandleRead 13,
      .handleRead 40,.onTimerTriggered,.endHandleRead 41].foldl machine.advance construct
    ((runs 0 s.fired).countP (fun f => 12 ≤ f.now ∧ f.now ≤ 40) : Int) ≤ 6 ∧
      (runs 0 s.fired).map (·.now) = [12,40] := by
  intro every s
  have reachable : machine.Reachable s := Machine.Reachable.follow (.initial rfl) _ (by decide)
  have held : s.queue.heap 8 = some (.construct 0 45 every) := by decide
  have log : (runs 0 s.fired).map (·.now) = [12,40] := by decide
  have range : ∀ f ∈ runs 0 s.fired, Int64Range (f.now + 5) := by decide
  clear_value s
  exact ⟨firing_rate reachable held (by decide) range 12 40 (by decide),log⟩

end Evk.TimerLoop
