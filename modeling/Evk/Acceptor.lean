import Evk.Fault
import Evk.Posix

/-! `Acceptor::HandleRead` with the system calls under it. The error code of `::accept`
travels in `errno`, which every call on the way may overwrite. -/
namespace Evk

inductive FdResult where
  | opened (fd : Nat)
  | failed (errno : Errno)
  deriving DecidableEq, Repr

def FdResult.returned (r : FdResult) (errno : Errno) : Int × Errno :=
  match r with
  | .opened fd => (fd,errno)
  | .failed e => (-1,e)

namespace sock

/-- `errno` after `::fcntl`, which fails on a negative descriptor. -/
def fcntl (fd : Int) (errno : Errno) : Errno := if fd < 0 then .EBADF else errno

/-- Two pairs of calls, one for the status flags and one for the descriptor flags. -/
def setNonBlockAndCloseOnExec (sockfd : Int) (errno : Errno) : Errno :=
  fcntl sockfd (fcntl sockfd (fcntl sockfd (fcntl sockfd errno)))

def accept (r : FdResult) (errno : Errno) : Except Fault (Int × Errno) :=
  let (connfd,errno) := r.returned errno
  let errno := setNonBlockAndCloseOnExec connfd errno
  if connfd < 0 then
    let savedErrno := errno
    match savedErrno with
    -- expected errors
    | .EAGAIN | .ECONNABORTED | .EINTR | .EPROTO | .EPERM | .EMFILE => .ok (connfd,savedErrno)
    -- unexpected errors
    | .EBADF | .EFAULT | .EINVAL | .ENFILE | .ENOBUFS | .ENOTSOCK | .EOPNOTSUPP => .error .fatal
    -- unknown errors
    | _ => .error .fatal
  else
    .ok (connfd,errno)

/-- `setNonBlockAndCloseOnExec` is called before the error code is saved, and overwrites it. -/
theorem accept_failed (e errno : Errno) : accept (.failed e) errno = .error .fatal := rfl

theorem accept_opened (fd : Nat) (errno : Errno) : accept (.opened fd) errno = .ok (fd,errno) := by
  have nonneg : ¬(fd : Int) < 0 := by omega
  simp [accept,FdResult.returned,setNonBlockAndCloseOnExec,fcntl,nonneg]

end sock

structure Acceptor where
  /-- `new_connection_callback_` is set. -/
  newConnectionCallback : Bool
  idlefd : Int
  /-- `errno` of the loop thread. -/
  errno : Errno
  /-- History: the descriptors `::accept` returned. -/
  accepted : List Int
  /-- History: the descriptors passed to the callback. -/
  passed : List Int
  /-- History: the descriptors closed. -/
  closed : List Int
  deriving DecidableEq, Repr

namespace Acceptor

/-- The constructor asserts that `idlefd_` was opened. -/
def construct (idlefd : Nat) (errno : Errno) : Acceptor := ⟨false,idlefd,errno,[],[],[]⟩

/-- What the system calls of one event return: the accept, and in the branch for EMFILE
the second one and the `::open` of /dev/null. -/
structure Outcome where
  accept : FdResult
  again : FdResult
  reopen : FdResult
  deriving DecidableEq, Repr

def close (fd : Int) (s : Acceptor) : Acceptor := { s with closed := s.closed ++ [fd] }

def record (fd : Int) (s : Acceptor) : Acceptor := if 0 ≤ fd then { s with accepted := s.accepted ++ [fd] } else s

def handleRead (o : Outcome) (s : Acceptor) : Except Fault Acceptor := do
  let (connfd,errno) ← sock.accept o.accept s.errno
  let s := { s.record connfd with errno }
  if 0 ≤ connfd then
    if s.newConnectionCallback then
      return { s with passed := s.passed ++ [connfd] }
    else
      return s.close connfd
  else if s.errno = .EMFILE then
    let s := s.close s.idlefd
    let (idlefd,errno) := o.again.returned s.errno
    let s := { s.record idlefd with idlefd, errno }
    let s := s.close s.idlefd
    let (idlefd,errno) := o.reopen.returned s.errno
    return { s with idlefd, errno }
  else
    return s

inductive Action where
  | setNewConnectionCallback (set : Bool)
  | handleRead (o : Outcome)
  deriving DecidableEq, Repr

def step (s : Acceptor) : Action → Except Fault Acceptor
  | .setNewConnectionCallback set => .ok { s with newConnectionCallback := set }
  | .handleRead o => s.handleRead o

/-- The failures a peer or a full descriptor table can cause. -/
def transient : List Errno := [.EAGAIN,.ECONNABORTED,.EINTR,.EPROTO,.EPERM,.EMFILE]

def Outcome.Transient (o : Outcome) : Prop := ∀ e, o.accept = .failed e → e ∈ transient

def machine : Machine Acceptor Action Fault where
  initial s := ∃ idlefd errno, s = construct idlefd errno
  enabled _
    | .setNewConnectionCallback _ => True
    | .handleRead o => o.Transient
  step := step

/-- The accept of every event succeeds. -/
def Succeeds (_ : Acceptor) : Action → Prop
  | .setNewConnectionCallback _ => True
  | .handleRead o => ∃ fd, o.accept = .opened fd

variable {s s' : Acceptor} {o : Outcome}

/-- An event in which the accept fails aborts the process, whatever the error. -/
theorem handleRead_failed (failed : o.accept = .failed e) : s.handleRead o = .error .fatal := by
  rw [handleRead,failed,sock.accept_failed,error_bind]

theorem handleRead_opened (opened : o.accept = .opened fd) : s.handleRead o = .ok { s with
    accepted := s.accepted ++ [(fd : Int)]
    passed := if s.newConnectionCallback then s.passed ++ [(fd : Int)] else s.passed
    closed := if s.newConnectionCallback then s.closed else s.closed ++ [(fd : Int)] } := by
  rw [handleRead,opened,sock.accept_opened]
  cases set : s.newConnectionCallback <;> simp [record,set,close]

/-- Every accepted descriptor went to the callback or was closed, and the spare
descriptor is open. -/
structure Handed (s : Acceptor) : Prop where
  once : ∀ fd, s.accepted.count fd = s.passed.count fd + s.closed.count fd
  idle : 0 ≤ s.idlefd

theorem Handed.step (handed : s.Handed) (succeeds : s.Succeeds action) : ∃ s', s.step action = .ok s' ∧ s'.Handed := by
  cases action with
  | setNewConnectionCallback set => exact ⟨_,rfl,handed.once,handed.idle⟩
  | handleRead o =>
    obtain ⟨fd,opened⟩ := succeeds
    refine ⟨_,handleRead_opened opened,fun other => ?_,handed.idle⟩
    have before := handed.once other
    cases set : s.newConnectionCallback
    all_goals
      simp only [List.count_append,Bool.false_eq_true,if_false,if_true]
      omega

theorem reachable_handed (reachable : (machine.restrict Succeeds).Reachable s) : s.Handed := by
  induction reachable with
  | initial first =>
    obtain ⟨idlefd,errno,rfl⟩ := first
    exact ⟨fun _ => rfl,by simp [construct]⟩
  | step _ enabled stepped handed =>
    obtain ⟨t,stepped',handed'⟩ := handed.step enabled.2
    cases stepped.symm.trans stepped'
    exact handed'

/-- While accepts succeed nothing is fatal, each descriptor is passed on or closed exactly
once, in the event that accepted it, and the spare descriptor stays open. -/
theorem accepted_handed_over (reachable : (machine.restrict Succeeds).Reachable s) :
    s.Handed ∧ ∀ o (fd : Nat), o.accept = .opened fd → ∃ s', s.handleRead o = .ok s' ∧ s'.Handed ∧
      s'.accepted = s.accepted ++ [(fd : Int)] ∧ s'.idlefd = s.idlefd ∧
      if s.newConnectionCallback then s'.passed = s.passed ++ [(fd : Int)] ∧ s'.closed = s.closed
      else s'.passed = s.passed ∧ s'.closed = s.closed ++ [(fd : Int)] := by
  have handed := reachable_handed reachable
  refine ⟨handed,fun o fd opened => ?_⟩
  have succeeds : s.Succeeds (.handleRead o) := ⟨fd,opened⟩
  obtain ⟨s',stepped,handed'⟩ := handed.step succeeds
  refine ⟨s',stepped,handed',?_⟩
  cases (handleRead_opened opened).symm.trans stepped
  cases set : s.newConnectionCallback <;> simp

/-- One connection comes before the callback is set and one after. -/
theorem accepted_handed_over_twice : ∃ s, (machine.restrict Succeeds).Reachable s ∧ s.Handed ∧
    s.accepted = [7,8] ∧ s.closed = [7] ∧ s.passed = [8] := by
  let served (fd : Nat) : Outcome := ⟨.opened fd,.opened fd,.opened fd⟩
  have transient (fd : Nat) : (served fd).Transient := by
    intro e failed
    cases failed
  have next {s s' : Acceptor} (before : (machine.restrict Succeeds).Reachable s) (fd : Nat)
      (stepped : s.handleRead (served fd) = .ok s') : (machine.restrict Succeeds).Reachable s' := by
    have enabled : (machine.restrict Succeeds).enabled s (.handleRead (served fd)) := ⟨transient fd,fd,rfl⟩
    exact .step before enabled stepped
  have first : (machine.restrict Succeeds).Reachable ⟨false,5,.EINTR,[7],[],[7]⟩ := next (.initial ⟨5,.EINTR,rfl⟩) 7 rfl
  have enabled : (machine.restrict Succeeds).enabled ⟨false,5,.EINTR,[7],[],[7]⟩ (.setNewConnectionCallback true) :=
    ⟨trivial,trivial⟩
  have set : (machine.restrict Succeeds).Reachable ⟨true,5,.EINTR,[7],[],[7]⟩ := .step first enabled rfl
  obtain ⟨s',stepped,handed,rest⟩ := (accepted_handed_over set).2 (served 8) 8 rfl
  exact ⟨s',next set 8 stepped,handed,rest.1,rest.2.2.2,rest.2.2.1⟩

/-- Each of the transient errors is overwritten by `EBADF` on its way and aborts the
process, EMFILE before the spare descriptor is used. -/
theorem transient_failure_fatal : ∃ s, machine.Reachable s ∧ ∀ e ∈ transient, ∀ again reopen,
    machine.enabled s (.handleRead ⟨.failed e,again,reopen⟩) ∧
    machine.step s (.handleRead ⟨.failed e,again,reopen⟩) = .error .fatal := by
  refine ⟨construct 5 .EINTR,.initial ⟨5,.EINTR,rfl⟩,fun e among again reopen => ⟨?_,handleRead_failed rfl⟩⟩
  rintro _ ⟨⟩
  exact among

end Acceptor
end Evk
