import Evk.LifeInvariant
import Evk.ServerLife

/-! Graceful shutdown. A half-close is due only when everything sent before it has gone
to the kernel. What `Send`, `SendInLoop`, `Shutdown` and the two places that half-close
do to one connection is kept as a conversation; its invariant says where every message
is that was sent. -/
namespace Evk

def Task.message : Task → Option Message
  | .functor (.sendInLoop _ message) => some message
  | _ => none

def Task.isShutdown : Task → Bool
  | .functor (.shutdownInLoop _) => true
  | _ => false

def Call.isSending : Call → Bool
  | .sending _ _ => true
  | .shuttingDown _ => false

def Event.isTalk : Event → Bool
  | .sendReturned _ _ | .shutdownCalled _ true | .shutDownWrite _ => true
  | _ => false

def waiting (tasks : List Task) : List Message := tasks.filterMap Task.message

/-- No `Send` is between its test of the status and its push. -/
def Unsent (calls : List (Thread × Call)) : Prop := ∀ call ∈ calls, call.2.isSending = false

/-- No message is queued, and none is about to be. -/
def Clear (tasks : List Task) (calls : List (Thread × Call)) : Prop := waiting tasks = [] ∧ Unsent calls

/-- A `ShutdownInLoop` is queued or about to be. -/
def Due (tasks : List Task) (calls : List (Thread × Call)) : Prop :=
  (∃ task ∈ tasks, task.isShutdown = true) ∨ ∃ call ∈ calls, call.2.isSending = false

instance (calls : List (Thread × Call)) : Decidable (Unsent calls) := inferInstanceAs (Decidable (∀ _ ∈ _, _))

instance (tasks : List Task) (calls : List (Thread × Call)) : Decidable (Clear tasks calls) :=
  inferInstanceAs (Decidable (_ ∧ _))

instance (tasks : List Task) (calls : List (Thread × Call)) : Decidable (Due tasks calls) :=
  inferInstanceAs (Decidable (_ ∨ _))

section Subsets

variable {fewer tasks : List Task} {less calls : List (Thread × Call)}

theorem Unsent.mono (unsent : Unsent calls) (sub : less ⊆ calls) : Unsent less :=
  fun call among => unsent call (sub among)

theorem Clear.mono (clear : Clear tasks calls) (sub : fewer ⊆ tasks) (all : less ⊆ calls) : Clear fewer less := by
  refine ⟨?_,clear.2.mono all⟩
  have none := clear.1
  rw [waiting,List.filterMap_eq_nil_iff] at none ⊢
  exact fun task among => none task (sub among)

theorem Due.mono (due : Due fewer less) (sub : fewer ⊆ tasks) (all : less ⊆ calls) : Due tasks calls :=
  due.imp (fun ⟨task,among,kind⟩ => ⟨task,sub among,kind⟩) fun ⟨call,among,kind⟩ => ⟨call,all among,kind⟩

end Subsets

structure Talk where
  status : Status
  writing : Bool
  output : List UInt8
  sent : List UInt8
  writeShut : Bool
  accepted : List Message
  /-- The queued `SendInLoop` and `ShutdownInLoop` functors. -/
  tasks : List Task
  calls : List (Thread × Call)
  events : List Event

namespace Talk

def Leaving (k : Talk) : Prop := ∃ t, .shutdownCalled t true ∈ k.events

/-- The message and everything accepted before it are among the first `n` bytes sent. -/
def Handed (k : Talk) (n : Nat) (message : Message) : Prop :=
  ∃ earlier later, k.accepted = earlier ++ message :: later ∧
    (earlier ++ [message]).flatMap Message.bytes <+: k.sent.take n

structure Inv (k : Talk) : Prop where
  before : ¬k.Leaving → k.status ≠ .kDisconnecting ∧ k.writeShut = false ∧ ¬Due k.tasks k.calls
  after : k.Leaving → k.status ≠ .kConnecting ∧ k.status ≠ .kConnected
  ordered : k.tasks.Pairwise fun first later => first.isShutdown = true → later.message = none
  /-- No `Send` can push its message behind a queued `ShutdownInLoop`. -/
  behind : (∃ task ∈ k.tasks, task.isShutdown = true) → Unsent k.calls
  stream : k.accepted.flatMap Message.bytes = k.sent ++ k.output
  matched : k.status ≠ .kDisconnected → (k.writing = true ↔ k.output ≠ [])
  kept : k.status ≠ .kDisconnected ∨ Due k.tasks k.calls → ∀ t message, .sendReturned t message ∈ k.events →
    message ∈ k.accepted ∨ message ∈ waiting k.tasks
  /-- A connection that went down with its half-close still to come had nothing left to send. -/
  drained : k.status = .kDisconnected → Due k.tasks k.calls → k.output = [] ∧ Clear k.tasks k.calls
  halved : k.writeShut = true → k.output = [] ∧ Clear k.tasks k.calls
  shut : ∀ n, .shutDownWrite n ∈ k.events → k.writeShut = true
  handed : ∀ n, .shutDownWrite n ∈ k.events → ∀ t message, .sendReturned t message ∈ k.events → k.Handed n message

variable {k : Talk} {task : Task} {rest : List Task} {taken left : List UInt8} {on : Bool}

theorem Inv.unshut (inv : k.Inv) (unshut : k.writeShut = false) (n : Nat) :
    .shutDownWrite n ∉ k.events := fun among => by
  simp [inv.shut n among] at unshut

theorem Inv.leaving (inv : k.Inv) (due : Due k.tasks k.calls) : k.Leaving := by
  by_contra still
  exact (inv.before still).2.2 due

theorem Inv.flush (inv : k.Inv) (up : k.status ≠ .kDisconnected) (unshut : k.writeShut = false)
    (same : taken ++ left = k.sent ++ k.output) (matched : on = true ↔ left ≠ []) :
    Inv { k with sent := taken, output := left, writing := on } :=
  { inv with
    stream := inv.stream.trans same.symm
    matched := fun _ => matched
    drained := fun down => absurd down up
    halved := fun shut => by simp [unshut] at shut
    handed := fun n among => absurd among (inv.unshut unshut n) }

theorem Inv.accept (inv : k.Inv) (up : k.status ≠ .kDisconnected) (unshut : k.writeShut = false) (message : Message)
    (same : taken ++ left = k.sent ++ k.output ++ message.bytes) (matched : on = true ↔ left ≠ []) :
    Inv { k with sent := taken, output := left, writing := on, accepted := k.accepted ++ [message] } :=
  { inv with
    stream := by simp [inv.stream,same]
    matched := fun _ => matched
    kept := fun standing t m returned => (inv.kept standing t m returned).imp (List.mem_append_left _) id
    drained := fun down => absurd down up
    halved := fun shut => by simp [unshut] at shut
    handed := fun n among => absurd among (inv.unshut unshut n) }

/-- A functor is done with; a message in it was taken over or is lost for good. -/
theorem Inv.pop (inv : k.Inv) (head : k.tasks = task :: rest) (settled : ∀ message, task.message = some message →
      message ∈ k.accepted ∨ k.status = .kDisconnected ∧ ¬Due k.tasks k.calls) : Inv { k with tasks := rest } := by
  have sub : rest ⊆ k.tasks := head ▸ List.subset_cons_self _ _
  have due (later : Due rest k.calls) : Due k.tasks k.calls := later.mono sub (List.Subset.refl _)
  have ordered := inv.ordered
  rw [head,List.pairwise_cons] at ordered
  exact { inv with
    before := fun still => (inv.before still).imp id (And.imp id fun undue later => undue (due later))
    ordered := ordered.2
    behind := fun ⟨later,among,kind⟩ => inv.behind ⟨later,sub among,kind⟩
    kept := fun standing t message returned => by
      rcases inv.kept (standing.imp id due) t message returned with accepted | queued
      · exact .inl accepted
      · rw [head] at queued
        obtain ⟨later,among,found⟩ := List.mem_filterMap.mp queued
        rcases List.mem_cons.mp among with rfl | old
        · rcases settled message found with accepted | ⟨down,undue⟩
          · exact .inl accepted
          · exact standing.elim (fun up => absurd down up) fun later => absurd (due later) undue
        · exact .inr (List.mem_filterMap.mpr ⟨later,old,found⟩)
    drained := fun down later => (inv.drained down (due later)).imp id fun clear =>
      Clear.mono clear sub (List.Subset.refl _)
    halved := fun shut => (inv.halved shut).imp id fun clear => Clear.mono clear sub (List.Subset.refl _) }

/-- A `Send` under way finds its message's way clear: no half-close was made, none is
queued, and a connection that is down has none to come. -/
theorem Inv.under (inv : k.Inv) (among : call ∈ k.calls) (sending : call.2.isSending = true) :
    k.writeShut = false ∧ (∀ task ∈ k.tasks, task.isShutdown = false) ∧
      (k.status = .kDisconnected → ¬Due k.tasks k.calls) := by
  have busy (unsent : Unsent k.calls) : False := by simp [unsent call among] at sending
  refine ⟨Bool.eq_false_iff.mpr fun shut => busy (inv.halved shut).2.2,fun task queued => ?_,fun down due => ?_⟩
  · exact Bool.eq_false_iff.mpr fun kind => busy (inv.behind ⟨task,queued,kind⟩)
  · exact busy (inv.drained down due).2.2

theorem Inv.queueSend (inv : k.Inv) (among : call ∈ k.calls) (sending : call.2.isSending = true) (message : Message) :
    Inv { k with tasks := k.tasks ++ [.functor (.sendInLoop d message)] } := by
  obtain ⟨unshut,unqueued,undue⟩ := inv.under among sending
  have none : ∀ task ∈ k.tasks ++ [.functor (.sendInLoop d message)], task.isShutdown = false := fun task among =>
    (List.mem_append.mp among).elim (unqueued task) fun last => by
      rw [List.mem_singleton.mp last]
      rfl
  have due (later : Due (k.tasks ++ [.functor (.sendInLoop d message)]) k.calls) : Due k.tasks k.calls := by
    rcases later with ⟨task,queued,kind⟩ | calling
    · simp [none task queued] at kind
    · exact .inr calling
  exact { inv with
    before := fun still => (inv.before still).imp id (And.imp id fun undue later => undue (due later))
    ordered := List.pairwise_append.mpr ⟨inv.ordered,List.pairwise_singleton _ _,fun task among _ _ shutdown => by
      simp [unqueued task among] at shutdown⟩
    behind := fun ⟨task,queued,kind⟩ => by simp [none task queued] at kind
    kept := fun standing t m returned => (inv.kept (standing.imp id due) t m returned).imp id fun queued => by
      rw [waiting,List.filterMap_append]
      exact List.mem_append_left _ queued
    drained := fun down later => absurd (due later) (undue down)
    halved := fun shut => by simp [unshut] at shut }

/-- The half-close is queued behind all messages. -/
theorem Inv.queueShutdown (inv : k.Inv) (among : call ∈ k.calls) (unsent : Unsent k.calls) :
    Inv { k with tasks := k.tasks ++ [.functor (.shutdownInLoop d)] } := by
  have same : waiting (k.tasks ++ [.functor (.shutdownInLoop d)]) = waiting k.tasks := by
    simp [waiting,Task.message]
  have due : Due k.tasks k.calls := .inr ⟨call,among,unsent call among⟩
  have clear (before : Clear k.tasks k.calls) : Clear (k.tasks ++ [.functor (.shutdownInLoop d)]) k.calls :=
    ⟨same.trans before.1,unsent⟩
  exact { inv with
    before := fun still => absurd (inv.leaving due) still
    ordered := List.pairwise_append.mpr ⟨inv.ordered,List.pairwise_singleton _ _,fun _ _ task last _ => by
      rw [List.mem_singleton.mp last]
      rfl⟩
    behind := fun _ => unsent
    kept := fun _ => by
      simp only [same]
      exact inv.kept (.inr due)
    drained := fun down _ => (inv.drained down due).imp id clear
    halved := fun shut => (inv.halved shut).imp id clear }

theorem Inv.returns (inv : k.Inv) (unshut : k.writeShut = false)
    (where_ : message ∈ k.accepted ∨ message ∈ waiting k.tasks) :
    Inv { k with events := k.events ++ [.sendReturned t message] } := by
  have leaving : Leaving { k with events := k.events ++ [.sendReturned t message] } ↔ k.Leaving := by simp [Leaving]
  exact { inv with
    before := fun still => inv.before fun other => still (leaving.mpr other)
    after := fun other => inv.after (leaving.mp other)
    kept := fun standing u m returned => by
      rcases List.mem_append.mp returned with old | last
      · exact inv.kept standing u m old
      · cases List.mem_singleton.mp last
        exact where_
    shut := fun n among => inv.shut n (by simpa using among)
    handed := fun n among => absurd (by simpa using among) (inv.unshut unshut n) }

theorem Inv.recall (inv : k.Inv) (p : Thread × Call → Bool) : Inv { k with calls := k.calls.filter p } := by
  have sub : k.calls.filter p ⊆ k.calls := List.filter_subset_self _
  have due (later : Due k.tasks (k.calls.filter p)) : Due k.tasks k.calls := later.mono (List.Subset.refl _) sub
  exact { inv with
    before := fun still => (inv.before still).imp id (And.imp id fun undue later => undue (due later))
    behind := fun queued => (inv.behind queued).mono sub
    kept := fun standing => inv.kept (standing.imp id due)
    drained := fun down later => (inv.drained down (due later)).imp id fun clear =>
      Clear.mono clear (List.Subset.refl _) sub
    halved := fun shut => (inv.halved shut).imp id fun clear => Clear.mono clear (List.Subset.refl _) sub }

/-- A `Send` begins, while nobody has called `Shutdown`. -/
theorem Inv.beginSend (inv : k.Inv) (still : ¬k.Leaving) (message : Message) :
    Inv { k with calls := k.calls ++ [(t,.sending d message)] } := by
  obtain ⟨status,unshut,undue⟩ := inv.before still
  have none : ¬Due k.tasks (k.calls ++ [(t,.sending d message)]) := fun due => undue <| by
    simpa [Due,Call.isSending,or_and_right,exists_or] using due
  exact { inv with
    before := fun _ => ⟨status,unshut,none⟩
    behind := fun queued => absurd (.inl queued) none
    kept := fun standing => inv.kept (.inl (standing.resolve_right none))
    drained := fun _ due => absurd due none
    halved := fun shut => by simp [unshut] at shut }

theorem Inv.beginShutdown (inv : k.Inv) (up : k.status ≠ .kDisconnected) (leaving : k.Leaving) :
    Inv { k with calls := k.calls ++ [(t,.shuttingDown d)] } := by
  have unsent (before : Unsent k.calls) : Unsent (k.calls ++ [(t,.shuttingDown d)]) := fun call among =>
    (List.mem_append.mp among).elim (before call) fun last => by
      rw [List.mem_singleton.mp last]
      rfl
  exact { inv with
    before := fun still => absurd leaving still
    behind := fun queued => unsent (inv.behind queued)
    kept := fun _ => inv.kept (.inl up)
    drained := fun down => absurd down up
    halved := fun shut => (inv.halved shut).imp id (And.imp id unsent) }

theorem Inv.leave (inv : k.Inv) (connected : k.status = .kConnected) :
    Inv { k with status := .kDisconnecting, events := k.events ++ [.shutdownCalled t true] } := by
  have leaving : Leaving { k with status := .kDisconnecting, events := k.events ++ [.shutdownCalled t true] } :=
    ⟨t,by simp⟩
  exact { inv with
    before := fun still => absurd leaving still
    after := fun _ => by simp
    matched := fun _ => inv.matched (by simp [connected])
    kept := fun _ u m returned => inv.kept (.inl (by simp [connected])) u m (by simpa using returned)
    drained := fun down => by simp at down
    shut := fun n among => inv.shut n (by simpa using among)
    handed := fun n among u m returned => inv.handed n (by simpa using among) u m (by simpa using returned) }

/-- The connection goes down; with a half-close still to come, it had nothing left. -/
theorem Inv.goDown (inv : k.Inv) (on : Bool) (empty : Due k.tasks k.calls → k.output = [] ∧ Clear k.tasks k.calls) :
    Inv { k with status := .kDisconnected, writing := on } :=
  { inv with
    before := fun still => ⟨by simp,(inv.before still).2⟩
    after := fun _ => by simp
    matched := fun up => absurd rfl up
    kept := fun standing => inv.kept (.inr (standing.resolve_left fun up => up rfl))
    drained := fun _ => empty }

theorem Inv.establish (inv : k.Inv) (connecting : k.status = .kConnecting) : Inv { k with status := .kConnected } :=
  { inv with
    before := fun still => ⟨by simp,(inv.before still).2⟩
    after := fun leaving => absurd connecting (inv.after leaving).1
    matched := fun _ => inv.matched (by simp [connecting])
    kept := fun _ => inv.kept (.inl (by simp [connecting]))
    drained := fun down => by simp at down }

/-- The half-close, with everything sent gone to the kernel and nothing to come. -/
theorem Inv.halfClose (inv : k.Inv) (leaving : k.Leaving) (output : k.output = []) (clear : Clear k.tasks k.calls)
    (all : ∀ t message, .sendReturned t message ∈ k.events → message ∈ k.accepted) :
    Inv { k with writeShut := true, events := k.events ++ [.shutDownWrite k.sent.length] } := by
  have same : Leaving { k with writeShut := true, events := k.events ++ [.shutDownWrite k.sent.length] } ↔
      k.Leaving := by
    simp [Leaving]
  have returned {t m} (among : .sendReturned t m ∈ k.events ++ [.shutDownWrite k.sent.length]) :
      .sendReturned t m ∈ k.events := by
    simpa using among
  exact { inv with
    before := fun still => absurd (same.mpr leaving) still
    after := fun _ => inv.after leaving
    kept := fun _ t m among => .inl (all t m (returned among))
    drained := fun _ _ => ⟨output,clear⟩
    halved := fun _ => ⟨output,clear⟩
    shut := fun _ _ => rfl
    handed := fun n among t m earlier => by
      rcases List.mem_append.mp among with old | last
      · exact inv.handed n old t m (returned earlier)
      · cases List.mem_singleton.mp last
        obtain ⟨first,later,split⟩ := List.append_of_mem (all t m (returned earlier))
        refine ⟨first,later,split,?_⟩
        have stream := inv.stream
        rw [output,List.append_nil,split,← List.singleton_append,← List.append_assoc,List.flatMap_append] at stream
        simp only [List.take_length]
        exact ⟨_,stream⟩ }

end Talk

def Life.talk (v : Life) : Talk where
  status := v.link.conn.status
  writing := v.link.conn.channel.isWriting
  output := v.link.conn.outputBuffer.readable
  sent := v.link.conn.sent
  writeShut := v.link.conn.writeShut
  accepted := v.link.conn.accepted
  tasks := v.queue.filter Task.isTalk
  calls := v.calls
  events := v.trace.filter Event.isTalk

/-- What a task may do to a connection that is leaving: its output may drain only if no
message is left behind, and with a half-close still to come it may go down only with
nothing left to send. A direct write does not fail for a connection error before the
half-close. -/
def Link.Spares (io : Io) (due clear : Prop) (x : Link) : Task → Prop
  | .stage _ .write => Channel.wantsWrite x.conn.channel.revents = true → x.conn.status = .kDisconnecting →
    x.conn.channel.isWriting = true → io.write.Drains x.conn.outputBuffer.readable.length → clear
  | .stage _ stage => x.Closes io stage → due → x.conn.outputBuffer.readable = [] ∧ clear
  | .destroy _ true => due → x.conn.outputBuffer.readable = [] ∧ clear
  | .functor (.sendInLoop _ _) => x.conn.writeShut = false → x.conn.status ≠ .kDisconnected → ¬x.Dropped io.write
  | _ => True

instance (io : Io) (due clear : Prop) [Decidable due] [Decidable clear] (x : Link) :
    DecidablePred (x.Spares io due clear)
  | .stage _ .write => inferInstanceAs (Decidable (_ → _ → _ → _ → clear))
  | .stage _ .close | .stage _ .error | .stage _ .read | .stage _ .done =>
    inferInstanceAs (Decidable (_ → due → _ ∧ clear))
  | .destroy _ true => inferInstanceAs (Decidable (due → _ ∧ clear))
  | .functor (.sendInLoop _ _) => inferInstanceAs (Decidable (_ → _ → _))
  | .functor (.onConnectEstablished _) | .functor (.onConnectDestroyed _) | .functor (.removeConnectionInLoop _)
  | .functor (.shutdownInLoop _) | .functor (.writeComplete _) | .functor (.highWaterMark _ _)
  | .handleEvent _ | .doPendingFunctors | .destroy _ false => inferInstanceAs (Decidable True)

theorem Link.Spares.closing {x : Link} (spares : x.Spares io due clear (.stage d stage)) (closes : x.Closes io stage) :
    due → x.conn.outputBuffer.readable = [] ∧ clear := by
  cases stage with
  | close | read => exact spares closes
  | error | write | done => exact closes.elim

namespace Life

variable {c : ConnId} {v w : Life}

/-- `Shutdown` queues its functor behind every message sent, and half-closes at once
only with none on its way. -/
def Graceful (v : Life) : Action → Prop
  | .work io => ∀ task ∈ v.queue.head?, v.link.Spares io (Due v.queue v.calls) (Clear v.queue v.calls) task
  | .send t _ io => v.link.conn.status = .kConnected → t = .loop v.link.conn.loop → ¬v.link.Dropped io.write
  | .shutdown t => v.link.conn.status = .kConnected → t = .loop v.link.conn.loop →
    v.link.conn.channel.isWriting = false → Clear v.queue v.calls
  | .push _ (.shuttingDown _) => Unsent v.calls
  | .push _ (.sending _ _) | .report _ | .remove | .destroyServer | .drop => True

instance (v : Life) : DecidablePred v.Graceful
  | .work _ => inferInstanceAs (Decidable (∀ _ ∈ _, _))
  | .send _ _ _ => inferInstanceAs (Decidable (_ → _ → _))
  | .shutdown _ => inferInstanceAs (Decidable (_ → _ → _ → _))
  | .push _ (.shuttingDown _) => inferInstanceAs (Decidable (Unsent _))
  | .push _ (.sending _ _) | .report _ | .remove | .destroyServer | .drop => inferInstanceAs (Decidable True)

theorem clear_talk {tasks : List Task} {calls : List (Thread × Call)} (clear : Clear tasks calls) :
    Clear (tasks.filter Task.isTalk) calls :=
  clear.mono (List.filter_subset_self _) (List.Subset.refl _)

theorem due_talk {tasks : List Task} {calls : List (Thread × Call)} (due : Due (tasks.filter Task.isTalk) calls) :
    Due tasks calls :=
  due.mono (List.filter_subset_self _) (List.Subset.refl _)

theorem pushed_not_talk {effects : List Effect} : (effects.filterMap (Effect.task c)).filter Task.isTalk = [] := by
  rw [List.filter_eq_nil_iff]
  intro task among
  obtain ⟨effect,-,same⟩ := List.mem_filterMap.mp among
  cases effect <;> simp only [Effect.task,reduceCtorEq,Option.some.injEq] at same
  all_goals
    subst same
    simp [Task.isTalk]

theorem notes_not_talk {effects : List Effect} (notes : ∀ effect ∈ effects, effect.isNote = true) (x : Link) :
    effects.filterMap (Effect.event x) = [] := by
  rw [List.filterMap_eq_nil_iff]
  intro effect among
  have note := notes effect among
  cases effect <;> simp_all [Effect.isNote,Effect.event]

theorem talk_afterEffects (y : Link) {effects : List Effect} (notes : ∀ effect ∈ effects, effect.isNote = true) :
    (v.afterEffects c y effects).talk = { v.talk with
      status := y.conn.status, writing := y.conn.channel.isWriting, output := y.conn.outputBuffer.readable,
      sent := y.conn.sent, writeShut := y.conn.writeShut, accepted := y.conn.accepted } := by
  simp [talk,afterEffects,pushed_not_talk,notes_not_talk notes]

theorem talk_halfClose (y : Link) (notes : List Effect) (kinds : ∀ effect ∈ notes, effect.isNote = true) :
    (v.afterEffects c y (notes ++ [.shutDownWrite])).talk = { v.talk with
      status := y.conn.status, writing := y.conn.channel.isWriting, output := y.conn.outputBuffer.readable,
      sent := y.conn.sent, writeShut := y.conn.writeShut, accepted := y.conn.accepted,
      events := v.talk.events ++ [.shutDownWrite y.conn.sent.length] } := by
  simp [talk,afterEffects,pushed_not_talk,notes_not_talk kinds,List.filterMap_append,
    Effect.event,Effect.task,Event.isTalk]

theorem talk_pop (head : v.queue = task :: rest) (kind : task.isTalk = false) :
    talk { v with queue := rest } = v.talk := by
  simp [talk,head,kind]

theorem talk_head (head : v.queue = task :: rest) (kind : task.isTalk = true) :
    v.talk.tasks = task :: (talk { v with queue := rest }).tasks := by
  simp [talk,head,kind]

theorem talk_record {event : Event} (kind : event.isTalk = true) :
    (v.record event).talk = { v.talk with events := v.talk.events ++ [event] } := by
  simp [talk,record,kind]

theorem talk_queueInLoop (kind : (Task.functor f).isTalk = true) :
    (v.queueInLoop f).talk = { v.talk with tasks := v.talk.tasks ++ [.functor f] } := by
  simp [talk,queueInLoop,kind]

theorem write_flow (talk : v.talk.Inv) (inv : v.Inv c) (head : v.queue = .stage d .write :: rest)
    (wants : Channel.wantsWrite v.link.conn.channel.revents = true)
    (done : v.link.handleWrite c io.write = .ok (y,effects)) (graceful : v.Graceful (.work io)) :
    ({ v with queue := rest }.afterEffects c y effects).talk.Inv := by
  by_cases writing : v.link.conn.channel.isWriting = true
  swap
  · rw [Link.handleWrite_idle (Bool.eq_false_iff.mpr writing)] at done
    cases done
    rw [talk_afterEffects _ (by simp),talk_pop head rfl]
    exact talk
  have up : v.link.Up := by
    by_contra down
    simp [inv.sound.standing.not_writing down] at writing
  have standing : v.talk.status ≠ .kDisconnected := fun down => by
    have down : v.link.conn.status = .kDisconnected := down
    simp [Link.Up,down] at up
  have unshut : v.talk.writeShut = false := Bool.eq_false_iff.mpr fun shut =>
    (talk.matched standing).mp writing (talk.halved shut).1
  obtain ⟨y',effects',done',output,stream,accepted,kinds⟩ := Link.handleWrite_spec inv.sound.ready io.write
  obtain ⟨rfl,rfl⟩ := Prod.mk.inj (Except.ok.inj (done.symm.trans done'))
  obtain ⟨_,_,_,_,_,same⟩ := output.same
  have status : y.conn.status = v.link.conn.status := by rw [same]
  have flushed := talk.flush standing unshut stream (output.matched (talk.matched standing))
  rcases kinds with ⟨notes,writeShut⟩ | ⟨notes,rfl,kinds,leaving,-,drains,empty,writeShut⟩
  · rw [talk_afterEffects _ notes,talk_pop head rfl,status,writeShut,accepted]
    exact flushed
  · have left : v.talk.Leaving := by
      by_contra still
      exact (talk.before still).1 leaving
    have spares : v.link.Spares io (Due v.queue v.calls) (Clear v.queue v.calls) (.stage d .write) :=
      graceful _ (by rw [head]; rfl)
    have clear : Clear v.talk.tasks v.talk.calls := clear_talk (spares wants leaving writing drains)
    rw [talk_halfClose _ _ kinds,talk_pop head rfl,status,writeShut,accepted]
    exact flushed.halfClose left empty clear fun t m returned =>
      (talk.kept (.inl standing) t m returned).resolve_right (by simp [clear.1])

theorem accept_flow (talk : v.talk.Inv) (inv : v.Inv c) (standing : v.link.conn.status ≠ .kDisconnected)
    (unshut : v.link.conn.writeShut = false) (writes : v.link.Writes r message.bytes.length) (whole : ¬v.link.Dropped r)
    (done : v.link.sendInLoop c alloc message r = .ok (y,effects)) :
    (v.afterEffects c y effects).talk.Inv ∧ (v.afterEffects c y effects).talk.tasks = v.talk.tasks ∧
      message ∈ (v.afterEffects c y effects).talk.accepted ∧
      ((v.afterEffects c y effects).talk.Leaving ↔ v.talk.Leaving) := by
  rcases Link.sendInLoop_spec inv.sound.ready standing alloc message r (fun _ => writes.1) with
    ⟨-,refused⟩ | ⟨y',effects',done',output,stream,accepted⟩
  · rw [refused] at done
    cases done
  obtain ⟨rfl,rfl⟩ := Prod.mk.inj (Except.ok.inj (done.symm.trans done'))
  obtain ⟨notes,writeShut⟩ := Link.sendInLoop_notes _ done
  obtain ⟨_,_,_,_,_,same⟩ := output.same
  have status : y.conn.status = v.link.conn.status := by rw [same]
  rw [if_neg whole] at stream accepted
  rw [talk_afterEffects _ notes,status,writeShut,accepted]
  exact ⟨talk.accept standing unshut message stream (output.matched (talk.matched standing)),rfl,by simp,Iff.rfl⟩

theorem send_flow (talk : v.talk.Inv) (inv : v.Inv c) (head : v.queue = .functor (.sendInLoop d message) :: rest)
    (writes : v.link.Writes io.write message.bytes.length)
    (done : v.link.sendInLoop c io.alloc message io.write = .ok (y,effects)) (graceful : v.Graceful (.work io)) :
    ({ v with queue := rest }.afterEffects c y effects).talk.Inv := by
  have queued : message ∈ waiting v.talk.tasks := by simp [talk_head head rfl,waiting,Task.message]
  by_cases down : v.link.conn.status = .kDisconnected
  · simp only [Link.sendInLoop,down,if_true] at done
    cases done
    rw [talk_afterEffects _ (by simp)]
    refine talk.pop (talk_head head rfl) fun _ _ => .inr ⟨down,fun due => ?_⟩
    simp [(talk.drained down due).2.1] at queued
  · have unshut : v.link.conn.writeShut = false := Bool.eq_false_iff.mpr fun shut => by
      simp [(talk.halved shut).2.1] at queued
    have spares : v.link.Spares io (Due v.queue v.calls) (Clear v.queue v.calls) (.functor (.sendInLoop d message)) :=
      graceful _ (by rw [head]; rfl)
    obtain ⟨accepted,tasks,among,-⟩ := accept_flow talk inv down unshut writes (spares unshut down) done
    have popped := accepted.pop (tasks.trans (talk_head head rfl)) fun other same => .inl ?_
    · have notes := (Link.sendInLoop_notes _ done).1
      rw [talk_afterEffects _ notes] at popped ⊢
      exact popped
    · cases same
      exact among

theorem shutdownInLoop_flow (talk : v.talk.Inv) (head : v.queue = .functor (.shutdownInLoop d) :: rest) :
    ({ v with queue := rest }.afterEffects c v.link.shutdownInLoop.1 v.link.shutdownInLoop.2).talk.Inv := by
  have first := talk_head head rfl
  have queued : ∃ task ∈ v.talk.tasks, task.isShutdown = true := ⟨_,by rw [first]; exact List.mem_cons_self,rfl⟩
  have popped := talk.pop first (by simp [Task.message])
  -- No message is behind the functor: `Send` pushed none there.
  have none : waiting (Life.talk { v with queue := rest }).tasks = [] := by
    have ordered := talk.ordered
    rw [first,List.pairwise_cons] at ordered
    exact List.filterMap_eq_nil_iff.mpr fun task among => ordered.1 task among rfl
  rw [Link.shutdownInLoop]
  split
  · rw [talk_afterEffects _ (by simp)]
    exact popped
  · rename_i idle
    have empty : v.talk.output = [] := by
      by_cases down : v.talk.status = .kDisconnected
      · exact (talk.drained down (.inl queued)).1
      · by_contra some
        exact idle ((talk.matched down).mpr some)
    have all : ∀ t m, .sendReturned t m ∈ v.talk.events → m ∈ v.talk.accepted := fun t m returned => by
      refine (talk.kept (.inr (.inl queued)) t m returned).resolve_right ?_
      rw [first,waiting,List.filterMap_cons_none rfl,← waiting,none]
      exact List.not_mem_nil
    exact (congrArg Talk.Inv (talk_halfClose _ [] (by simp))).mpr
      (popped.halfClose (talk.leaving (.inl queued)) empty ⟨none,talk.behind queued⟩ all)

theorem still_of_connected (talk : v.talk.Inv) (connected : v.link.conn.status = .kConnected) : ¬v.talk.Leaving :=
  fun leaving => (talk.after leaving).2 connected

theorem talk_flow (talk : v.talk.Inv) (inv : v.Inv c) (allowed : v.enabled c a) (graceful : v.Graceful a)
    (flow : Flow c v a w) : w.talk.Inv := by
  cases flow with
  | nothing => exact talk
  | pop head kind events =>
    have silent : List.filter Event.isTalk _ = [] := List.filter_eq_nil_iff.mpr fun event among => by
      rw [events event among]
      simp [Event.isTalk]
    have same := talk_pop head kind
    simp only [Life.talk,Link.setInput,List.filter_append,silent,List.append_nil] at same talk ⊢
    rw [← same] at talk
    exact talk
  | write head wants done => exact write_flow talk inv head wants done graceful
  | send head done =>
    obtain ⟨task,rest,queue,permits⟩ := allowed
    obtain ⟨rfl,-⟩ := List.cons.inj (queue.symm.trans head)
    exact send_flow talk inv head permits done graceful
  | shutdownInLoop head => exact shutdownInLoop_flow talk head
  | sendHere connected here done =>
    have still := still_of_connected talk connected
    have standing : v.link.conn.status ≠ .kDisconnected := by simp [connected]
    obtain ⟨accepted,-,among,same⟩ := accept_flow talk inv standing (talk.before still).2.1 allowed.2
      (graceful connected here) done
    rw [talk_record rfl]
    exact accepted.returns (accepted.before fun leaving => still (same.mp leaving)).2.1 (.inl among)
  | sendAway connected => exact talk.beginSend (still_of_connected talk connected) _
  | pushSend =>
    rw [talk_record rfl,talk_queueInLoop rfl]
    refine ((talk.queueSend allowed rfl _).returns (talk.under allowed rfl).1 (.inr ?_)).recall _
    simp [waiting,Task.message]
  | pushShutdown =>
    rw [talk_queueInLoop rfl]
    exact (talk.queueShutdown allowed graceful).recall _
  | refused => simpa [Life.talk,record,Event.isTalk] using talk

/-- The compare-and-exchange of `Shutdown`, and the half-close behind it on the loop's
own thread. -/
theorem shutdown_flow (talk : v.talk.Inv) (connected : v.link.conn.status = .kConnected)
    (graceful : v.Graceful (.shutdown t))
    (queue : w.queue = v.queue)
    (flow : (t = .loop v.link.conn.loop ∧ w.link = (v.link.setStatus .kDisconnecting).shutdownInLoop.1 ∧
        w.calls = v.calls ∧
        w.trace = v.trace ++ [.shutdownCalled t true] ++ halfClose (v.link.setStatus .kDisconnecting)) ∨
      w.link = v.link.setStatus .kDisconnecting ∧ w.calls = v.calls ++ [(t,.shuttingDown c)] ∧
        w.trace = v.trace ++ [.shutdownCalled t true]) : w.talk.Inv := by
  have left := talk.leave (t := t) connected
  have leaving : Talk.Leaving { v.talk with
      status := .kDisconnecting
      events := v.talk.events ++ [.shutdownCalled t true] } := ⟨t,by simp⟩
  have up : v.talk.status ≠ .kDisconnected := by simp [Life.talk,connected]
  rcases flow with ⟨here,link,calls,trace⟩ | ⟨link,calls,trace⟩
  · by_cases writing : v.link.conn.channel.isWriting = true
    · simpa [Life.talk,queue,link,calls,trace,Link.shutdownInLoop,Link.setStatus,
        writing,halfClose,Event.isTalk,List.filter_cons] using left
    · have idle := Bool.eq_false_iff.mpr writing
      have empty : v.talk.output = [] := by
        by_contra some
        exact writing ((talk.matched up).mpr some)
      have clear : Clear v.talk.tasks v.talk.calls := clear_talk (graceful connected here idle)
      have half := left.halfClose leaving empty clear fun u m returned =>
        (talk.kept (.inl up) u m (by simpa using returned)).resolve_right (by simp [clear.1])
      simpa [Life.talk,queue,link,calls,trace,Link.shutdownInLoop,Link.setStatus,idle,
        halfClose,Event.isTalk,List.filter_cons] using half
  · have called := left.beginShutdown (t := t) (d := c) (by simp) leaving
    simpa [Life.talk,queue,link,calls,trace,Link.setStatus,Event.isTalk,List.filter_cons] using called

theorem close_flow (talk : v.talk.Inv) (head : v.queue = .stage d stage :: rest) (closes : v.link.Closes io stage)
    (graceful : v.Graceful (.work io)) : Talk.Inv { v.talk with status := .kDisconnected, writing := false } := by
  have spares := Link.Spares.closing (graceful _ (by rw [head]; rfl)) closes
  exact talk.goDown false fun due => (spares (due_talk due)).imp id clear_talk

theorem talk_change (talk : v.talk.Inv) (inv : v.Inv c) (allowed : v.enabled c a)
    (graceful : v.Graceful a) (change : Change c v a w) : w.talk.Inv := by
  cases change with
  | quiet _ flow => exact talk_flow talk inv allowed graceful flow
  | shutdown connected _ queue flow => exact shutdown_flow talk connected graceful queue flow
  | report live functors interest reportable =>
    simpa [Life.talk,setLink,before,Link.setRevents,Link.setChannel,Channel.isWriting,Task.isTalk] using talk
  | begin live head =>
    simpa [Life.talk,setLink,before,Link.setHandling,Link.setChannel,Channel.isWriting,
      System.stages,Task.isTalk,head] using talk
  | done live head =>
    simpa [Life.talk,setLink,Link.setHandling,Link.setChannel,Channel.isWriting,Task.isTalk,head] using talk
  | closeBase live head closes up small base alive mapped =>
    have down := close_flow talk head closes graceful
    simpa [Life.talk,setLink,record,queueInLoop,Link.closed,Link.setInput,Channel.isWriting,kNone,head,Task.isTalk,
      Event.isTalk,List.filter_cons] using down
  | closeAway live head closes up small away alive =>
    have down := close_flow talk head closes graceful
    simpa [Life.talk,setLink,record,Link.closed,Link.setInput,Channel.isWriting,kNone,head,Task.isTalk,Event.isTalk,
      List.filter_cons] using down
  | establish live head connecting =>
    have idle : v.link.conn.channel.events.pollout = false :=
      inv.sound.standing.not_writing (by simp [Link.Up,connecting])
    have up := talk.establish connecting
    simpa [Life.talk,setLink,record,Link.established,Channel.isWriting,kReadable,head,Task.isTalk,Event.isTalk,
      List.filter_cons,idle] using up
  | test live head => simpa [Life.talk,record,before,Task.isTalk,Event.isTalk,head] using talk
  | destroyUp live head =>
    have spares := graceful (.destroy _ true) (by rw [head]; rfl)
    have down := talk.goDown false fun due => (spares (due_talk due)).imp id clear_talk
    simpa [Life.talk,setLink,record,Link.removed,Channel.isWriting,kNone,head,Task.isTalk,Event.isTalk,
      List.filter_cons] using down
  | destroyClosed live head closed known =>
    have down := talk.goDown false fun due => talk.drained closed due
    simpa [Life.talk,setLink,record,Link.removed,Channel.isWriting,kNone,head,Task.isTalk,Event.isTalk,
      List.filter_cons] using down
  | remove live positive alive mapped => simpa [Life.talk,record,queueInLoop,Task.isTalk,Event.isTalk] using talk
  | destroyBase => simpa [Life.talk,before,Task.isTalk] using talk
  | destroyAway => simpa [Life.talk,queueInLoop,Task.isTalk] using talk
  | destroyOther | drop => exact talk

theorem initial_talk (first : initial c v) : v.talk.Inv := by
  obtain ⟨loop,fd,input,output,writeCompleteCb,-,empty,⟨-,rfl⟩ | ⟨-,rfl⟩⟩ := initial_cases first
  all_goals
    simp only [Life.talk,setLink,record,queueInLoop,accepted,Link.established,TcpConnection.construct,Channel.construct,
      Channel.isWriting,kReadable,kNone,empty]
    refine ⟨fun _ => ?_,fun called => ?_,?_,by simp [Unsent],rfl,?_,fun _ t m among => ?_,
      fun down => ?_,by simp,fun n among => ?_,fun n among => ?_⟩
    all_goals simp_all [Task.isTalk,Event.isTalk,Talk.Leaving,Due]

theorem reachable_talk (reachable : ((machine c).restrict Graceful).Reachable v) : v.talk.Inv := by
  induction reachable with
  | initial first => exact initial_talk first
  | step before enabled stepped ih =>
    have inv := reachable_inv before.of_restrict
    exact talk_change ih inv enabled.1 enabled.2 (inv.step_change enabled.1 _ stepped)

end Life

namespace System

def Graceful (c : ConnId) (s : System) (a : Action) : Prop := ∀ v ∈ s.life c, ∀ b ∈ s.lifeAction c a, v.Graceful b

instance (c : ConnId) (s : System) : DecidablePred (s.Graceful c) := fun _ =>
  inferInstanceAs (Decidable (∀ _ ∈ _, ∀ _ ∈ _, _))

/-- In every run whose steps spare the connection's messages, each message whose `Send`
has returned is with the kernel, behind everything accepted before it, when the
half-close comes. -/
theorem sent_before_half_close (reachable : (machine.restrict (Graceful c)).Reachable s) (held : s.conns c = some x)
    (returned : (c,.sendReturned t message) ∈ s.trace) (half : (c,.shutDownWrite n) ∈ s.trace) :
    ∃ earlier later, x.conn.accepted = earlier ++ message :: later ∧
      (earlier ++ [message]).flatMap Message.bytes <+: x.conn.sent.take n := by
  have seen := life_of_held held
  have talk := Life.reachable_talk
    (reachable_life (fun _ _ v b _ seen _ graceful action => graceful v seen b action) reachable seen)
  have told {event : Event} (recorded : (c,event) ∈ s.trace) (kind : event.isTalk = true) :
      event ∈ (s.view c x).talk.events := List.mem_filter.mpr ⟨mem_eventsOf.mpr recorded,kind⟩
  exact talk.handed n (told half rfl) t message (told returned rfl)

/-- Another thread sends and shuts down, the loop takes both functors in turn. -/
theorem sent_before_half_close_queued : ∃ s x message, (machine.restrict (Graceful 1)).Reachable s ∧
    s.conns 1 = some x ∧ (1,.shutDownWrite 2) ∈ s.trace ∧ message.bytes = [7,8] ∧
    ∃ earlier later, x.conn.accepted = earlier ++ message :: later ∧
      (earlier ++ [message]).flatMap Message.bytes <+: x.conn.sent.take 2 := by
  let message : Message := ⟨0,[7,8],by decide⟩
  let schedule : List Action := [.accept 5 Io.idle.alloc,.send (.other 0) 1 message .idle,
    .push (.other 0) (.sending 1 message),.shutdown (.other 0) 1,.push (.other 0) (.shuttingDown 1),.poll 0 [],
    .run 0 .idle,.run 0 { Io.idle with write := .wrote 2 },.run 0 .idle]
  have reachable := Machine.Reachable.follow (m := machine.restrict (Graceful 1)) (.initial ⟨0,false,rfl⟩) schedule
    (by decide +kernel)
  rw [Machine.restrict_advance] at reachable
  have returned : (1,.sendReturned (.other 0) message) ∈
      (schedule.foldl machine.advance (construct 0 false)).trace := by
    decide +kernel
  have half : (1,.shutDownWrite 2) ∈ (schedule.foldl machine.advance (construct 0 false)).trace := by decide +kernel
  have born : ((schedule.foldl machine.advance (construct 0 false)).conns 1).isSome = true := by decide +kernel
  obtain ⟨x,held⟩ := Option.isSome_iff_exists.mp born
  exact ⟨_,x,message,reachable,held,half,rfl,sent_before_half_close reachable held returned half⟩

/-- `HandleWrite` drains the output in `kDisconnecting` and half-closes, with a message
of the thread that called `Shutdown` after it still queued. -/
theorem half_close_overtakes_send : ∃ s x t message n, machine.Reachable s ∧ s.conns 1 = some x ∧
    List.Sublist [.sendReturned t message,.shutdownCalled t true,.shutDownWrite n] (eventsOf 1 s.trace) ∧
    message ∉ x.conn.accepted ∧ .sendInLoop 1 message ∈ (s.loops 0).pending := by
  let first : Message := ⟨0,[7,8],by decide⟩
  let second : Message := ⟨1,[9],by decide⟩
  let one : Io := { Io.idle with write := .wrote 1 }
  let schedule : List Action := [.accept 5 Io.idle.alloc,.send (.loop 0) 1 first one,
    .poll 0 [(1,{ pollout := true })],.run 0 .idle,.run 0 .idle,.run 0 .idle,.run 0 .idle,
    .send (.other 0) 1 second .idle,.push (.other 0) (.sending 1 second),.shutdown (.other 0) 1,.run 0 one]
  have reachable := Machine.Reachable.follow (m := machine) (.initial ⟨0,false,rfl⟩) schedule (by decide +kernel)
  have born : ((schedule.foldl machine.advance (construct 0 false)).conns 1).isSome = true := by decide +kernel
  have lost : ∀ x ∈ (schedule.foldl machine.advance (construct 0 false)).conns 1, second ∉ x.conn.accepted := by
    decide +kernel
  obtain ⟨x,held⟩ := Option.isSome_iff_exists.mp born
  exact ⟨_,x,.other 0,second,2,reachable,held,by decide +kernel,lost x held,by decide +kernel⟩

end System
end Evk
