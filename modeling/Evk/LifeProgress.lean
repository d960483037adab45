import Evk.LifeFaults
import Evk.Teardown

/-! How a life goes on. Whatever is next for a connection, its loop can do it, but for a few
things that the code cannot do at all. A connection of which nothing is left to do is up
and in the server's map, or clean. -/
namespace Evk

/-- A kernel that takes and gives nothing, on a host with all the memory there can be; its
answers suit every task. -/
def Io.refusing : Io := ⟨.zeroed (2^62) le_rfl,.failed .EPIPE,.failed .EAGAIN,0⟩

/-- What the code cannot do when a loop comes to it: destroy a connection in
`kDisconnecting`, close one that is down, call a server that is gone, or keep output that
no allocation could hold. -/
def Link.Hinders (x : Link) (alive : Bool) : Task → Prop
  | .functor (.onConnectDestroyed _) => x.conn.status = .kDisconnecting
  | .functor (.removeConnectionInLoop _) => alive = false
  | .functor (.sendInLoop _ message) => 2^62 ≤ 2 * x.conn.outputBuffer.capacity + message.bytes.length
  | .stage _ .close => Channel.wantsClose x.conn.channel.revents = true ∧ (alive = false ∨ ¬x.Up)
  | _ => False

namespace Life

variable {c : ConnId} {v w : Life} {rest : List Task}

/-- The map has a connection only while the server is there, and a closed one only until
its removal, which is queued; with the server there, a removal that is queued is the
only one and finds the connection in the map. -/
structure Listed (v : Life) : Prop where
  alive : v.mapped = true → v.alive = true
  removed : v.mapped = true → v.link.conn.status = .kDisconnected → 0 < v.removals
  waiting : v.alive = true → 0 < v.removals → v.mapped = true ∧ v.removals = 1

theorem Listed.change (listed : v.Listed) (inv : v.Inv c) (running : v.alive = true → v.Running)
    (change : Change c v a w) : w.Listed := by
  cases change with
  | quiet quiet _ =>
    obtain ⟨removals,mapped,alive,-⟩ := quiet.same
    refine ⟨?_,?_,?_⟩
    · rw [mapped,alive]
      exact listed.alive
    · rw [mapped,removals,quiet.link.status]
      exact listed.removed
    · rw [mapped,removals,alive]
      exact listed.waiting
  | shutdown connected quiet _ _ =>
    obtain ⟨removals,mapped,alive,-⟩ := quiet.same
    refine ⟨?_,fun _ down => ?_,?_⟩
    · rw [mapped,alive]
      exact listed.alive
    · rw [quiet.link.status] at down
      cases down
    · rw [mapped,removals,alive]
      exact listed.waiting
  | closeAway live head closes up small away alive =>
    have open_ : v.link.conn.status ≠ .kDisconnected := fun down => by simp [Link.Up,down] at up
    have none : v.removals = 0 := Nat.eq_zero_of_not_pos fun some => open_ ((running alive).removing some)
    have mapped : v.mapped = true := (Bool.not_eq_false _).mp fun gone => open_ ((running alive).unmapped gone)
    exact ⟨listed.alive,fun _ _ => Nat.succ_pos _,fun _ _ => ⟨mapped,congrArg Nat.succ none⟩⟩
  | closeBase live head closes up small base alive mapped =>
    have open_ : v.link.conn.status ≠ .kDisconnected := fun down => by simp [Link.Up,down] at up
    exact ⟨fun mapped => (by cases mapped),fun mapped => (by cases mapped),
      fun _ some => absurd ((running alive).removing some) open_⟩
  | remove live positive alive mapped =>
    refine ⟨fun mapped => (by cases mapped),fun mapped => (by cases mapped),fun _ some => ?_⟩
    have some : 0 < v.removals - 1 := some
    have only := (listed.waiting alive positive).2
    omega
  | establish => exact ⟨listed.alive,fun _ down => (by cases down),listed.waiting⟩
  | destroyUp live head =>
    -- the test was made, so the map has the connection no more
    have awaited := inv.awaited
    have tested := (inv.unended head).2
    have unmapped : v.mapped = false := Bool.eq_false_iff.mpr fun mapped => by
      rw [mapped,Bool.toNat_true] at awaited
      omega
    exact ⟨listed.alive,fun mapped => (by cases unmapped.symm.trans mapped),listed.waiting⟩
  | destroyClosed live head closed => exact ⟨listed.alive,fun mapped _ => listed.removed mapped closed,listed.waiting⟩
  | report | begin | done | test | drop => exact ⟨listed.alive,listed.removed,listed.waiting⟩
  | destroyBase | destroyAway | destroyOther =>
    exact ⟨fun mapped => (by cases mapped),fun mapped => (by cases mapped),fun alive => by cases alive⟩

theorem initial_listed (first : initial c v) : v.Listed := by
  obtain ⟨loop,fd,input,output,writeCompleteCb,-,-,⟨-,rfl⟩ | ⟨-,rfl⟩⟩ := initial_cases first
  · exact ⟨fun _ => rfl,fun _ down => (by cases down),fun _ some => by cases some⟩
  · exact ⟨fun _ => rfl,fun _ down => (by cases down),fun _ some => by cases some⟩

theorem reachable_listed (reachable : (machine c).Reachable v) : v.Listed := by
  induction reachable with
  | initial first => exact initial_listed first
  | step before allowed stepped ih =>
    have inv := reachable_inv before
    exact ih.change inv (reachable_running before) (inv.step_change allowed _ stepped)

def Awaits (v : Life) : Prop := ∀ d, .functor (.onConnectEstablished d) ∈ v.queue → v.link.conn.status = .kConnecting

theorem Awaits.change (awaits : v.Awaits) (inv : v.Inv c) (change : Change c v a w) : w.Awaits := by
  have later {task rest} (head : v.queue = task :: rest) (d : ConnId)
    (among : .functor (.onConnectEstablished d) ∈ rest) :
      v.link.conn.status = .kConnecting := awaits d (by rw [head]; exact List.mem_cons_of_mem _ among)
  have settled {task rest} (head : v.queue = task :: rest)
    (other : task ≠ .functor (.onConnectEstablished c)) (d : ConnId) :
      .functor (.onConnectEstablished d) ∉ rest := fun among => inv.settled head other (later head d among)
  cases change with
  | quiet quiet _ => exact fun d among => quiet.link.status.trans (awaits d ((quiet.mem_queue rfl).mp among))
  | shutdown connected quiet queue _ =>
    intro d among
    simpa [connected] using awaits d (queue ▸ among)
  | report live functors interest reportable => exact fun d among => awaits d (by simpa [setLink,before] using among)
  | begin live head =>
    intro d among
    exact absurd (by simpa [setLink,before,System.stages] using among) (settled head (by simp) d)
  | closeBase live head =>
    intro d among
    exact absurd (by simpa [setLink,record,queueInLoop] using among) (settled head (by simp) d)
  | done live head | closeAway live head | destroyUp live head | destroyClosed live head =>
    exact fun d among => absurd among (settled head (by simp) d)
  | establish live head connecting =>
    intro d among
    obtain ⟨-,-,-,queue,-⟩ := inv.fresh connecting
    rcases queue with only | both
    · obtain ⟨-,rfl⟩ := List.cons.inj (head.symm.trans only)
      cases among
    · obtain ⟨-,rfl⟩ := List.cons.inj (head.symm.trans both)
      simp [setLink,record] at among
  | test live head =>
    intro d among
    exact absurd (by simpa [record,before] using among) (settled head (by simp) d)
  | remove => exact fun d among => awaits d (by simpa [record,queueInLoop] using among)
  | destroyBase => exact fun d among => awaits d (by simpa [before] using among)
  | destroyAway => exact fun d among => awaits d (by simpa [queueInLoop] using among)
  | destroyOther | drop => exact awaits

theorem reachable_awaits (reachable : (machine c).Reachable v) : v.Awaits := by
  induction reachable with
  | initial first =>
    obtain ⟨loop,fd,input,output,writeCompleteCb,-,-,⟨-,rfl⟩ | ⟨-,rfl⟩⟩ := initial_cases first
    · exact fun d among => by simp [setLink,record,accepted] at among
    · exact fun d among => rfl
  | step before allowed stepped ih =>
    have inv := reachable_inv before
    exact ih.change inv (inv.step_change allowed _ stepped)

/-- A connection of which nothing is queued is up and in the map, or it has been taken
down and waits for nothing. -/
theorem Inv.at_rest (inv : v.Inv c) (listed : v.Listed) (queue : v.queue = []) (removals : v.removals = 0) :
    (v.mapped = true ∧ v.link.Up) ∨ (v.mapped = false ∧ v.link.Clean ∧ (v.freed = false → ∃ w, v.drop = .ok w)) := by
  cases mapped : v.mapped with
  | true =>
    refine .inl ⟨rfl,?_⟩
    cases status : v.link.conn.status with
    | kConnecting =>
      obtain ⟨-,-,-,waits,-⟩ := inv.fresh status
      simp [queue] at waits
    | kConnected => exact .inl status
    | kDisconnecting => exact .inr status
    | kDisconnected =>
      have waits := listed.removed mapped status
      omega
  | false =>
    have ended := inv.ended_of_unheld mapped (by simp [queue])
    obtain ⟨status,removed⟩ := inv.torn.mp ended
    have idle : v.link.conn.channel.eventHandling = false := by
      apply Bool.eq_false_iff.mpr
      intro handling
      simpa [queue] using inv.handling handling
    refine .inr ⟨rfl,inv.clean ended,fun live => ?_⟩
    exact ⟨_,by simp [drop,deref,live,status,Channel.destroy,idle,removed]; rfl⟩

/-- The server is there and has the connection in its map, so `HandleClose` gets through. -/
theorem close_succeeds (reachable : (machine c).Reachable v) (live : v.freed = false) (alive : v.alive = true)
    (up : v.link.Up) : ∃ w, { v with queue := rest }.perform c (Link.handleClose c) = .ok w := by
  have mapped : v.mapped = true := (Bool.not_eq_false _).mp fun gone => by
    have down := (reachable_running reachable alive).unmapped gone
    simp [Link.Up,down] at up
  have closed := Link.handleClose_eq (reachable_inv reachable).sound up
  by_cases base : v.link.conn.loop = 0
  · exact ⟨_,by simp [perform,deref,live,closed,applyEffects,applyEffect,removeConnection,
      removeConnectionInLoop,setLink,
      record,alive,mapped,base,Link.closed]; rfl⟩
  · exact ⟨_,by simp [perform,deref,live,closed,applyEffects,applyEffect,removeConnection,setLink,record,alive,base,
      Link.closed]; rfl⟩

theorem perform_succeeds (live : v.freed = false) (inward : Link.Inward (method v.link))
    (done : method v.link = .ok result) : ∃ w, v.perform c method = .ok w := by
  obtain ⟨w,applied⟩ := applyEffects_inward (c := c) (v := v.setLink result.1) result.1 result.2 (inward _ done)
  exact ⟨w,by simp [perform,deref_live live,done,applied]⟩

theorem dispatch_succeeds (live : v.freed = false)
    (handled : wants v.link.conn.channel.revents = true → ∃ w, v.perform c handler = .ok w) :
    ∃ w, v.dispatch c wants handler = .ok w := by
  simp only [dispatch,deref_live live,ok_bind]
  split
  · exact handled ‹_›
  · exact ⟨v,rfl⟩

/-- A kernel that gives nothing leaves the first stage to close the connection. -/
theorem stage_succeeds (reachable : (machine c).Reachable v) (live : v.freed = false)
    (free : ¬v.link.Hinders v.alive (.stage d stage)) :
    ∃ w, { v with queue := rest }.runTask c .refusing (.stage d stage) = .ok w := by
  have sound := (reachable_inv reachable).sound
  cases stage with
  | close =>
    refine dispatch_succeeds live fun wants => ?_
    obtain ⟨alive,up⟩ : v.alive = true ∧ v.link.Up := by
      have free := not_and.mp free wants
      rw [not_or,not_not,Bool.not_eq_false] at free
      exact free
    exact close_succeeds reachable live alive up
  | error => exact dispatch_succeeds live fun _ => perform_succeeds live (.ok (by simp)) rfl
  | read =>
    have done : v.link.handleRead c Io.refusing.alloc Io.refusing.read Io.refusing.consumed = .ok (v.link,[]) := by
      simp [Link.handleRead,Io.refusing,Buffer.readFromFD,Buffer.writableBytes_eq sound.input.valid,Link.handleError]
    exact dispatch_succeeds live fun _ => perform_succeeds live (done ▸ .ok (by simp)) done
  | write =>
    obtain ⟨y,effects,done,-⟩ := Link.handleWrite_spec sound.ready Io.refusing.write
    exact dispatch_succeeds live fun _ => perform_succeeds live (Link.handleWrite_inward sound) done
  | done => exact ⟨_,by simp [runTask,setHandling,deref,live]; rfl⟩

theorem send_succeeds {x : Link} (sound : x.Sound c)
    (small : 2 * x.conn.outputBuffer.capacity + message.bytes.length < 2^62) :
    ∃ result, x.sendInLoop c Io.refusing.alloc message Io.refusing.write = .ok result := by
  by_cases down : x.conn.status = .kDisconnected
  · exact ⟨(x,[]),by simp [Link.sendInLoop,down]⟩
  rcases Link.sendInLoop_spec sound.ready down Io.refusing.alloc message Io.refusing.write (fun _ => trivial) with
    ⟨unserved,-⟩ | ⟨y,effects,done,-⟩
  · have refused := unserved.refused
    simp only [Io.refusing,Allocator.zeroed] at refused
    rw [if_pos (by omega)] at refused
    cases refused
  · exact ⟨_,done⟩

theorem functor_succeeds (reachable : (machine c).Reachable v) (live : v.freed = false)
    (head : v.queue = .functor f :: rest)
    (free : ¬v.link.Hinders v.alive (.functor f)) :
    ∃ w, { v with queue := rest }.runTask c .refusing (.functor f) = .ok w := by
  have sound := (reachable_inv reachable).sound
  cases f with
  | onConnectEstablished d =>
    have connecting := reachable_awaits reachable d (by rw [head]; exact List.mem_cons_self)
    exact perform_succeeds live Link.onConnectEstablished_inward (Link.onConnectEstablished_eq sound connecting)
  | sendInLoop d message =>
    obtain ⟨result,done⟩ := send_succeeds sound (Nat.lt_of_not_le free)
    exact perform_succeeds live Link.sendInLoop_inward done
  | shutdownInLoop d => exact perform_succeeds live Link.shutdownInLoop_inward rfl
  | onConnectDestroyed d | writeComplete d | highWaterMark d size => exact ⟨_,by simp [runTask,deref,live]; rfl⟩
  | removeConnectionInLoop d => exact ⟨_,rfl⟩

/-- What a loop comes to next it can do, for a connection that is there. -/
theorem work_succeeds (reachable : (machine c).Reachable v) (parted : v.Parted) (head : v.queue = task :: rest)
    (live : v.freed = false) (free : ¬v.link.Hinders v.alive task) : ∃ w, v.work c .refusing = .ok w := by
  cases task with
  | destroy d b =>
    have own : (Task.destroy d b).concerns c = true :=
      (reachable_inv reachable).concerns _ (by rw [head]; exact List.mem_cons_self)
    obtain rfl : d = c := of_decide_eq_true own
    obtain ⟨w,done,-⟩ := destroy_succeeds reachable parted .refusing head
    exact ⟨w,done⟩
  | handleEvent d => exact ⟨_,by simp [work,head,runTask,setHandling,deref,live]; rfl⟩
  | stage d stage =>
    rw [work,head]
    exact stage_succeeds reachable live free
  | doPendingFunctors => exact ⟨_,by simp [work,head,runTask]; rfl⟩
  | functor f =>
    rw [work,head]
    exact functor_succeeds reachable live head free

theorem remove_succeeds (reachable : (machine c).Reachable v) (queued : 0 < v.removals) (alive : v.alive = true) :
    ∃ w, v.step c .remove = .ok w := by
  have mapped := ((reachable_listed reachable).waiting alive queued).1
  have live : v.freed = false := Bool.eq_false_iff.mpr fun gone => by
    have none := (unreferenced_of_freed reachable gone).removals
    omega
  exact ⟨_,by simp [step,removeConnectionInLoop,alive,deref,live,mapped]; rfl⟩

end Life
end Evk
