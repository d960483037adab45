import Evk.LifeFaults

/-! At most one `HandleClose`. A closed connection stays registered with an empty mask
until its loop removes it, and a dispatch goes on after the handler that closed it: the
one is safe without a hang-up in that window, the other without an end of stream after
a hang-up. -/
namespace Evk

namespace Life

variable {c : ConnId} {v w : Life} {task : Task} {tasks rest : List Task}

/-- The server stays; the kernel reports no hang-up of a connection that is closed
already, and no end of stream to a dispatch that has seen a hang-up. -/
def Guarded (v : Life) : Action → Prop
  | .report revents => Channel.wantsClose revents = true → v.link.conn.status ≠ .kDisconnected
  | .work io => ∀ d rest, v.queue = .stage d .read :: rest → Channel.wantsClose v.link.conn.channel.revents = true →
    Channel.wantsRead v.link.conn.channel.revents = true → io.read ≠ .bytes []
  | .destroyServer => False
  | _ => True

def Dispatching (c : ConnId) (tasks : List Task) : Prop := tasks = [.handleEvent c] ∨ tasks <:+ System.stages c

structure Once (c : ConnId) (v : Life) : Prop where
  closed : .closeCb ∈ v.trace → v.link.conn.status = .kDisconnected
  once : v.trace.count .closeCb ≤ 1
  /-- Every call of `close_cb_` is a removal that is queued or was made. -/
  balance : v.trace.count .closeCb = v.removals + v.trace.count .queueDestroyed
  listed : v.mapped.toNat + v.trace.count .queueDestroyed = 1
  undestroyed : ∀ d, .destroy d true ∉ v.queue
  dispatching : Dispatching c (v.queue.filter Task.isDispatch)
  begins : (.handleEvent c ∈ v.queue ∨ .stage c .close ∈ v.queue) →
    Channel.wantsClose v.link.conn.channel.revents = true ∨
      Channel.wantsRead v.link.conn.channel.revents = true → v.link.Up
  reads : (.stage c .error ∈ v.queue ∨ .stage c .read ∈ v.queue) →
    Channel.wantsRead v.link.conn.channel.revents = true →
      v.link.Up ∨ Channel.wantsClose v.link.conn.channel.revents = true

theorem Dispatching.suffix (dispatching : Dispatching c tasks) (later : rest <:+ tasks) : Dispatching c rest := by
  rcases dispatching with rfl | stages
  · rcases List.suffix_cons_iff.mp later with rfl | none
    · exact .inl rfl
    · rw [List.suffix_nil.mp none]
      exact .inr List.nil_suffix
  · exact .inr (later.trans stages)

theorem filter_dispatch_functors (functors : ∀ task ∈ tasks, task.isFunctor = true) :
    tasks.filter Task.isDispatch = [] := by
  simpa using fun task among => functor_not_dispatch (functors task among)

theorem mem_dispatch (among : task ∈ tasks) (dispatch : task.isDispatch = true) : task ∈ tasks.filter Task.isDispatch :=
  List.mem_filter.mpr ⟨among,dispatch⟩

/-- A dispatch under way does not come back to its earlier stages. -/
theorem Dispatching.later (dispatching : Dispatching c ((Task.stage d stage :: rest).filter Task.isDispatch)) :
    .handleEvent c ∉ rest ∧ .stage c .close ∉ rest ∧
      (stage = .read → .stage c .error ∉ rest ∧ .stage c .read ∉ rest) := by
  have keep {task : Task} (dispatch : task.isDispatch = true) (none : task ∉ rest.filter Task.isDispatch) :
      task ∉ rest := fun among => none (mem_dispatch among dispatch)
  rw [List.filter_cons_of_pos rfl] at dispatching
  rcases dispatching with begins | stages
  · cases begins
  simp only [System.stages,List.suffix_cons_iff,List.cons.injEq,Task.stage.injEq,List.suffix_nil,reduceCtorEq,
    or_false] at stages
  rcases stages with ⟨⟨-,rfl⟩,left⟩ | ⟨⟨-,rfl⟩,left⟩ | ⟨⟨-,rfl⟩,left⟩ | ⟨⟨-,rfl⟩,left⟩ | ⟨⟨-,rfl⟩,left⟩
  all_goals exact ⟨keep rfl (by simp [left]),keep rfl (by simp [left]),
    fun kind => ⟨keep rfl (by simp [left] at kind ⊢),keep rfl (by simp [left] at kind ⊢)⟩⟩

/-- A report about a closed connection has nothing in it but hang-ups and errors. -/
theorem Inv.reported (inv : v.Inv c) (interest : v.link.slot.interest = some (c,mask))
    (reportable : revents.Reportable mask)
    (guarded : Channel.wantsClose revents = true → v.link.conn.status ≠ .kDisconnected)
    (wants : Channel.wantsClose revents = true ∨ Channel.wantsRead revents = true) : v.link.Up := by
  cases inv.sound.standing with
  | up status _ _ => exact status
  | connecting _ unknown _ | removed _ unknown _ => simp [unknown.slot,Slot.empty] at interest
  | closed status known idle =>
    have same : mask = kNone := by
      rw [known.interest,idle] at interest
      exact (Prod.mk.inj (Option.some.inj interest)).2.symm
    subst same
    obtain ⟨pollin,pollpri,-,-,pollrdhup⟩ := reportable
    have unread : Channel.wantsRead revents = false := by
      cases revents
      simp_all [Channel.wantsRead,kNone]
    rcases wants with close | read
    · exact absurd status (guarded close)
    · simp [unread] at read

/-- Steps that keep the status and the reported events, and at most pop tasks, queue
functors and go on with the removal. -/
theorem Once.keep (once : v.Once c) (status : w.link.conn.status = v.link.conn.status)
    (revents : w.link.conn.channel.revents = v.link.conn.channel.revents)
    (closes : w.trace.count .closeCb = v.trace.count .closeCb)
    (balance : w.removals + w.trace.count .queueDestroyed = v.removals + v.trace.count .queueDestroyed)
    (listed : w.mapped.toNat + w.trace.count .queueDestroyed = v.mapped.toNat + v.trace.count .queueDestroyed)
    (queue : ∀ task ∈ w.queue, (task.isDispatch = true ∨ ∃ d, task = .destroy d true) → task ∈ v.queue)
    (dispatching : w.queue.filter Task.isDispatch <:+ v.queue.filter Task.isDispatch) : w.Once c where
  closed := fun among => by
    rw [status]
    exact once.closed (List.one_le_count_iff.mp (closes ▸ List.one_le_count_iff.mpr among))
  once := closes ▸ once.once
  balance := closes.trans (once.balance.trans balance.symm)
  listed := listed.trans once.listed
  undestroyed := fun d among => once.undestroyed d (queue _ among (.inr ⟨d,rfl⟩))
  dispatching := once.dispatching.suffix dispatching
  begins := by
    intro among
    have up : w.link.Up ↔ v.link.Up := by simp [Link.Up,status]
    rw [revents,up]
    exact once.begins (among.imp (fun among => queue _ among (.inl rfl)) fun among => queue _ among (.inl rfl))
  reads := by
    intro among
    have up : w.link.Up ↔ v.link.Up := by simp [Link.Up,status]
    rw [revents,up]
    exact once.reads (among.imp (fun among => queue _ among (.inl rfl)) fun among => queue _ among (.inl rfl))

theorem Once.quiet (once : v.Once c) (quiet : Quiet c v w) : w.Once c := by
  have count (event : Event) (loud : event.isQuiet = false) : w.trace.count event = v.trace.count event :=
    quiet.countP_trace (· == event) fun other quietly => by
      simp only [beq_eq_false_iff_ne]
      rintro rfl
      simp [loud] at quietly
  obtain ⟨front,rest,extra,before,after,-,pushed⟩ := quiet.queue
  refine once.keep quiet.link.status quiet.link.revents (count _ rfl) (by rw [quiet.same.1,count _ rfl])
    (by rw [quiet.same.2.1,count _ rfl]) (fun task among kind => ?_) ?_
  · refine (quiet_queue_subset quiet among).resolve_right fun functor => ?_
    rcases kind with dispatch | ⟨d,rfl⟩
    · simp [functor_not_dispatch functor] at dispatch
    · simp [Task.isFunctor] at functor
  · rw [before,after,List.filter_append,List.filter_append,
      filter_dispatch_functors fun task among => (pushed task among).2.1,List.append_nil]
    exact List.suffix_append _ _

/-- While the server runs, only a closed connection is ever destroyed. -/
theorem Once.down_of_test (once : v.Once c) (inv : v.Inv c)
    (head : v.queue = .functor (.onConnectDestroyed d) :: rest) :
    v.link.conn.status = .kDisconnected := by
  have awaited := inv.awaited
  rw [head,List.countP_cons,Task.isTest,if_pos rfl] at awaited
  have listed := once.listed
  have balance := once.balance
  exact once.closed (List.one_le_count_iff.mp (by omega))

theorem Once.begin_last (once : v.Once c) (head : v.queue = .handleEvent d :: rest) :
    .handleEvent c ∈ v.queue ∧ rest.filter Task.isDispatch = [] := by
  have dispatching := once.dispatching
  rw [head,List.filter_cons_of_pos rfl] at dispatching
  rcases dispatching with only | stages
  · obtain ⟨own,last⟩ := List.cons.inj only
    exact ⟨by simp [head,own],last⟩
  · have among : Task.handleEvent d ∈ System.stages c := stages.subset List.mem_cons_self
    simp [System.stages] at among

/-- `HandleClose` got past its assertion. -/
theorem Once.close (once : v.Once c) (head : v.queue = .stage d stage :: rest)
    (closes : v.link.Closes io stage) (up : v.link.Up) (status : w.link.conn.status = .kDisconnected)
    (revents : w.link.conn.channel.revents = v.link.conn.channel.revents)
    (queue : w.queue = rest ++ extra) (functors : ∀ task ∈ extra, task.isFunctor = true)
    (recorded : w.trace.count .closeCb = v.trace.count .closeCb + 1)
    (balance : w.removals + w.trace.count .queueDestroyed = v.removals + v.trace.count .queueDestroyed + 1)
    (listed : w.mapped.toNat + w.trace.count .queueDestroyed = v.mapped.toNat + v.trace.count .queueDestroyed) :
    w.Once c := by
  have first : v.trace.count .closeCb = 0 := List.count_eq_zero_of_not_mem fun among => by
    simp [Link.Up,once.closed among] at up
  have old {task : Task} (among : task ∈ w.queue) (kind : task.isFunctor = false) : task ∈ rest := by
    rw [queue] at among
    refine (List.mem_append.mp among).resolve_right fun new => ?_
    simp [functors task new] at kind
  have dispatching := once.dispatching
  rw [head] at dispatching
  obtain ⟨unbegun,unclosed,last⟩ := dispatching.later
  refine ⟨fun _ => status,by omega,by rw [recorded,once.balance,balance],
    listed.trans once.listed,fun e among => ?_,?_,?_,?_⟩
  · exact once.undestroyed e (by rw [head]; exact List.mem_cons_of_mem _ (old among rfl))
  · refine dispatching.suffix ?_
    rw [queue,List.filter_append,filter_dispatch_functors functors,List.append_nil,List.filter_cons_of_pos rfl]
    exact List.suffix_cons _ _
  · rintro (among | among)
    · exact absurd (old among rfl) unbegun
    · exact absurd (old among rfl) unclosed
  · intro among _
    rw [revents]
    cases stage with
    | close => exact .inr closes
    | read =>
      obtain ⟨noError,noRead⟩ := last rfl
      rcases among with among | among
      · exact absurd (old among rfl) noError
      · exact absurd (old among rfl) noRead
    | error | write | done => exact closes.elim

theorem Once.change (once : v.Once c) (inv : v.Inv c) (guarded : v.Guarded a) (change : Change c v a w) : w.Once c := by
  cases change with
  | quiet quiet _ => exact once.quiet quiet
  | shutdown connected quiet _ _ =>
    refine Once.quiet ?_ quiet
    exact
    { closed := fun among => by
        have among : .closeCb ∈ v.trace := by simpa [setLink,record] using among
        simp [once.closed among] at connected
      once := by simpa [setLink,record] using once.once
      balance := by simpa [setLink,record] using once.balance
      listed := by simpa [setLink,record] using once.listed
      undestroyed := once.undestroyed
      dispatching := once.dispatching
      begins := fun _ _ => .inr rfl
      reads := fun _ _ => .inl (.inr rfl) }
  | report live functors interest reportable =>
    have none : v.queue.filter Task.isDispatch = [] := filter_dispatch_functors functors
    have unstaged (stage : Stage) : .stage c stage ∉ v.queue := fun among => by
      simpa [Task.isFunctor] using functors _ among
    exact
    { closed := once.closed
      once := once.once
      balance := once.balance
      listed := once.listed
      undestroyed := fun d among => once.undestroyed d (by simpa [setLink,before] using among)
      dispatching := .inl ((List.filter_cons_of_pos rfl).trans (congrArg _ none))
      begins := fun _ wants => inv.reported interest reportable guarded wants
      reads := fun among _ => by simp [setLink,before,unstaged] at among }
  | begin live head =>
    obtain ⟨own,last⟩ := once.begin_last head
    have up := once.begins (.inl own)
    exact
    { closed := once.closed
      once := once.once
      balance := once.balance
      listed := once.listed
      undestroyed := fun d among => once.undestroyed d (by simpa [setLink,before,System.stages,head] using among)
      dispatching := .inr (by
        simp only [setLink,before,List.filter_append,last,List.append_nil]
        exact List.suffix_refl _)
      begins := fun _ => up
      reads := fun _ wants => .inl (up (.inr wants)) }
  | done live head =>
    refine once.keep rfl rfl rfl rfl rfl (fun task among _ => by rw [head]; exact List.mem_cons_of_mem _ among) ?_
    rw [head,List.filter_cons_of_pos rfl]
    exact List.suffix_cons _ _
  | closeBase live head closes up small base alive mapped =>
    refine once.close head closes up rfl rfl rfl (by simp [Task.isFunctor]) (by simp [setLink,record,queueInLoop]) ?_ ?_
    · simp [setLink,record,queueInLoop]
      omega
    · simp [setLink,record,queueInLoop,mapped]
      omega
  | closeAway live head closes up small away alive =>
    refine once.close head closes up rfl rfl (List.append_nil _).symm (by simp) (by simp [setLink,record]) ?_ ?_
    · simp [setLink,record]
      omega
    · simp [setLink,record]
  | establish live head connecting =>
    obtain ⟨-,-,-,-,quietly⟩ := inv.fresh connecting
    exact
    { closed := fun among => by
        have among : .closeCb ∈ v.trace := by simpa [setLink,record] using among
        simpa [Event.isQuiet] using quietly _ among
      once := by simpa [setLink,record] using once.once
      balance := by simpa [setLink,record] using once.balance
      listed := by simpa [setLink,record] using once.listed
      undestroyed := fun d among => once.undestroyed d (by rw [head]; exact List.mem_cons_of_mem _ among)
      dispatching := by
        have dispatching := once.dispatching
        rwa [head,List.filter_cons_of_neg (by simp [Task.isDispatch])] at dispatching
      begins := fun _ _ => .inl rfl
      reads := fun _ _ => .inl (.inl rfl) }
  | test live head =>
    have down := once.down_of_test inv head
    refine once.keep rfl rfl (by simp [record,before]) (by simp [record,before]) (by simp [record,before])
      (fun task among kind => ?_) ?_
    · rw [head]
      refine List.mem_cons_of_mem _ ((List.mem_cons.mp among).resolve_left ?_)
      rintro rfl
      simp [Task.isDispatch,TcpConnection.isConnected,down] at kind
    · rw [head]
      exact List.suffix_refl _
  | destroyUp live head => exact absurd (head ▸ List.mem_cons_self) (once.undestroyed _)
  | destroyClosed live head closed known =>
    refine once.keep closed.symm rfl (by simp [setLink,record]) (by simp [setLink,record]) (by simp [setLink,record])
      (fun task among _ => by rw [head]; exact List.mem_cons_of_mem _ among) ?_
    rw [head]
    exact List.suffix_refl _
  | remove live positive alive mapped =>
    refine once.keep rfl rfl (by simp [record,queueInLoop]) ?_ ?_ (fun task among kind => ?_) ?_
    · simp [record,queueInLoop]
      omega
    · simp [record,queueInLoop,mapped]
      omega
    · refine (List.mem_append.mp among).resolve_right fun new => ?_
      rw [List.mem_singleton.mp new] at kind
      simp [Task.isDispatch] at kind
    · simp only [record,queueInLoop,List.filter_append]
      exact (List.append_nil _) ▸ List.suffix_refl _
  | destroyBase | destroyAway | destroyOther => exact guarded.elim
  | drop live unmapped unheld removals calls =>
    exact once.keep rfl rfl rfl rfl rfl (fun _ among _ => among) (List.suffix_refl _)

theorem initial_once (first : initial c v) : v.Once c := by
  obtain ⟨loop,fd,input,output,writeCompleteCb,-,-,⟨-,rfl⟩ | ⟨-,rfl⟩⟩ := initial_cases first
  · exact ⟨fun among => by simp [setLink,record,accepted] at among,by simp [setLink,record,accepted],rfl,rfl,
      by simp [setLink,record,accepted],
      .inr List.nil_suffix,fun _ _ => .inl rfl,fun _ _ => .inl (.inl rfl)⟩
  · exact ⟨by simp [queueInLoop,accepted],by simp [queueInLoop,accepted],rfl,rfl,
      by simp [queueInLoop,accepted],.inr List.nil_suffix,
      by simp [queueInLoop,accepted],by simp [queueInLoop,accepted]⟩

theorem reachable_once (reachable : ((machine c).restrict Guarded).Reachable v) : v.Once c :=
  reachable.invariant_with (fun _ => initial_once) (fun _ reached => reachable_inv reached.of_restrict)
    fun _ _ w inv once ⟨allowed,guarded⟩ stepped => once.change inv guarded (inv.step_change allowed w stepped)

/-- What a step closes is open: a dispatch begins on a connection that is, and goes on to
read only if no hang-up has closed it. -/
theorem Once.provided (once : v.Once c) (inv : v.Inv c) (guarded : v.Guarded a) : v.Provided closedTwice a where
  live := by simp [closedTwice]
  alive := by simp [closedTwice]
  up := by
    intro _ closing
    cases a with
    | work io =>
      obtain ⟨task,rest,head,closes⟩ := closing
      have among : task ∈ v.queue := by simp [head]
      cases task with
      | stage d stage =>
        obtain rfl : d = c := of_decide_eq_true (inv.concerns _ among)
        cases stage with
        | close => exact once.begins (.inr among) (.inl closes)
        | read =>
          obtain ⟨wants,eof⟩ := closes
          exact (once.reads (.inr among) wants).resolve_right fun close => guarded d rest head close wants eof
        | error | write | done => exact closes.elim
      | handleEvent | doPendingFunctors | functor | destroy => exact closes.elim
    | report | remove | destroyServer | send | push | shutdown | drop => exact closing.elim

end Life

namespace System

variable {c : ConnId} {s : System} {v : Life}

/-- The server stays. A poll reports no hang-up without input of a connection in
`kDisconnected`; a dispatch that has had such a hang-up and goes on to read does not
read the end of the stream. -/
def Guarded (s : System) : Action → Prop
  | .poll _ reports => ∀ report ∈ reports, Channel.wantsClose report.2 = true →
    ∀ x ∈ s.conns report.1, x.conn.status ≠ .kDisconnected
  | .run l io => ∀ task ∈ (s.loops l).todo.head?, ∀ c ∈ task.about, task = .stage c .read → ∀ x ∈ s.conns c,
    Channel.wantsClose x.conn.channel.revents = true → Channel.wantsRead x.conn.channel.revents = true →
      io.read ≠ .bytes []
  | .destroyServer _ => False
  | _ => True

instance (s : System) : DecidablePred s.Guarded
  | .poll _ _ => inferInstanceAs (Decidable (∀ _ ∈ _, _ → ∀ _ ∈ _, _))
  | .run _ _ => inferInstanceAs (Decidable (∀ _ ∈ _, ∀ _ ∈ _, _ → ∀ _ ∈ _, _ → _ → _))
  | .destroyServer _ => inferInstanceAs (Decidable False)
  | .accept _ _ | .send _ _ _ _ | .push _ _ | .shutdown _ _ | .drop _ => inferInstanceAs (Decidable True)

theorem guarded_life {a : Action} (placed : s.Placed) (seen : s.life c = some v) (guarded : s.Guarded a)
    (action : s.lifeAction c a = some b) : v.Guarded b := by
  cases a with
  | poll l reports =>
    obtain ⟨report,found,rfl⟩ := Option.map_eq_some_iff.mp action
    have own : report.1 = c := by simpa using List.find?_some found
    exact fun close => guarded report (List.mem_of_find?_eq_some found) close v.link (own ▸ held_of_life seen)
  | run l io =>
    rcases lifeAction_run action with rfl | rfl
    · obtain ⟨l,task,todo,same,head,concerns,queue⟩ := lifeAction_work placed seen action
      cases same
      intro d rest first
      obtain ⟨rfl,-⟩ := List.cons.inj (queue.symm.trans first)
      obtain rfl : d = c := of_decide_eq_true concerns
      exact guarded _ (by rw [head]; rfl) d rfl rfl v.link (held_of_life seen)
    · trivial
  | accept => cases action
  | destroyServer => exact guarded.elim
  | send | push | shutdown | drop =>
    simp only [lifeAction] at action
    split at action
    · cases action
      trivial
    · cases action

theorem known_once (reachable : (machine.restrict Guarded).Reachable s) (seen : s.life c = some v) :
    v.Once c ∧ v.Inv c :=
  ⟨Life.reachable_once (reachable_life (fun _ _ _ _ placed seen _ => guarded_life placed seen) reachable seen),
    Life.reachable_inv (life_reachable reachable.of_restrict seen)⟩

/-- No step that the condition allows closes any connection a second time. -/
theorem guarded_never {a : Action} (reachable : (machine.restrict Guarded).Reachable s) (enabled : s.enabled a)
    (guarded : s.Guarded a) : Never closedTwice (s.step a) := by
  have placed := reachable_placed reachable.of_restrict
  refine step_never closedTwice_outside reachable.of_restrict enabled fun c v b seen action _ => ?_
  obtain ⟨once,inv⟩ := known_once reachable seen
  exact once.provided inv (guarded_life placed seen guarded action)

/-- In every run of a server that is guarded so, no `HandleClose` fails its assertion,
`close_cb_` is called at most once for each connection, and `OnConnectDestroyed` is
queued at most once. -/
theorem handle_close_at_most_once (reachable : (machine.restrict Guarded).Reachable s) :
    (∀ a, (machine.restrict Guarded).enabled s a → s.step a ≠ .error (.assertion .handleClose)) ∧
    ∀ c, (eventsOf c s.trace).count .closeCb ≤ 1 ∧ (eventsOf c s.trace).count .queueDestroyed ≤ 1 := by
  refine ⟨fun a ⟨enabled,guarded⟩ => guarded_never reachable enabled guarded,fun c => ?_⟩
  by_cases born : s.Born c
  · obtain ⟨x,held⟩ := born
    obtain ⟨once,-⟩ := known_once reachable (life_of_held held)
    have listed := once.listed
    exact ⟨once.once,by change (s.view c x).trace.count .queueDestroyed ≤ 1; omega⟩
  · have none : eventsOf c s.trace = [] := by
      refine List.eq_nil_iff_forall_not_mem.mpr fun event among => born ?_
      exact (reachable_placed reachable.of_restrict).traced _ (mem_eventsOf.mp among)
    simp [none]

/-- A peer that hangs up closes the connection once. -/
theorem handle_close_at_most_once_hangup : ∃ s, (machine.restrict Guarded).Reachable s ∧ (1,.closeCb) ∈ s.trace ∧
    (eventsOf 1 s.trace).count .closeCb ≤ 1 := by
  let schedule : List Action := [.accept 5 Io.idle.alloc,.poll 1 [],.run 1 .idle,.run 1 .idle,
    .poll 1 [(1,{ pollhup := true })],.run 1 .idle,.run 1 .idle]
  have reachable := Machine.Reachable.follow (m := machine.restrict Guarded) (.initial ⟨1,false,rfl⟩) schedule
    (by decide +kernel)
  exact ⟨_,reachable,by decide +kernel,((handle_close_at_most_once reachable).2 1).1⟩

/-- The end of the stream closes the connection; before the base loop has had it
removed, a hang-up is reported for its empty mask, and `HandleClose` is entered again.
The same happens in one dispatch of a hang-up with urgent data and then the end. -/
theorem handle_close_entered_twice : (∃ s, machine.Reachable s ∧ s.enabled (.run 1 .idle) ∧ s.alive = true ∧
      (1,.closeCb) ∈ s.trace ∧ machine.step s (.run 1 .idle) = .error (.assertion .handleClose)) ∧
    ∃ s eof, machine.Reachable s ∧ s.enabled (.run 1 eof) ∧ s.alive = true ∧ (1,.closeCb) ∈ s.trace ∧
      machine.step s (.run 1 eof) = .error (.assertion .handleClose) := by
  let eof : Io := { Io.idle with read := .bytes [] }
  let window : List Action := [.accept 5 Io.idle.alloc,.poll 1 [],.run 1 .idle,.run 1 .idle,
    .poll 1 [(1,{ pollin := true })],.run 1 .idle,.run 1 .idle,.run 1 .idle,.run 1 eof,.run 1 .idle,.run 1 .idle,
    .run 1 .idle,.poll 1 [(1,{ pollhup := true })],.run 1 .idle]
  let dispatch : List Action := [.accept 5 Io.idle.alloc,.poll 1 [],.run 1 .idle,.run 1 .idle,
    .poll 1 [(1,{ pollhup := true, pollpri := true })],.run 1 .idle,.run 1 .idle,.run 1 .idle]
  have between := Machine.Reachable.follow (m := machine) (.initial ⟨1,false,rfl⟩) window (by decide +kernel)
  have within := Machine.Reachable.follow (m := machine) (.initial ⟨1,false,rfl⟩) dispatch (by decide +kernel)
  constructor
  · exact ⟨_,between,by decide +kernel,by decide +kernel,by decide +kernel,Machine.step_failure (by decide +kernel)⟩
  · exact ⟨_,eof,within,by decide +kernel,by decide +kernel,by decide +kernel,Machine.step_failure (by decide +kernel)⟩

end System
end Evk
