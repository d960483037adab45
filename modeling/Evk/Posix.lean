import Mathlib

/-! What the kernel hands back: error codes, poll masks and the outcomes of the
system calls the library makes. -/
namespace Evk

/-- The error codes the source tests by name; `EWOULDBLOCK` is `EAGAIN` on Linux. -/
inductive Errno where
  | EAGAIN | ECONNABORTED | EINTR | EPROTO | EPERM | EMFILE
  | EBADF | EFAULT | EINVAL | ENFILE | ENOBUFS | ENOTSOCK | EOPNOTSUPP
  | EPIPE | ECONNRESET
  | other (code : Nat)
  deriving DecidableEq, Repr

abbrev Errno.EWOULDBLOCK : Errno := .EAGAIN

/-- The bits of `events` and `revents` that occur in the source. -/
structure PollEvents where
  pollin : Bool := false
  pollpri : Bool := false
  pollout : Bool := false
  pollerr : Bool := false
  pollhup : Bool := false
  pollnval : Bool := false
  pollrdhup : Bool := false
  deriving DecidableEq, Repr

/-- Result of `::write` on a stream socket: the count taken, or an error. -/
inductive WriteResult where
  | wrote (n : Nat)
  | failed (errno : Errno)
  deriving DecidableEq, Repr

def WriteResult.Legal (r : WriteResult) (len : Nat) : Prop :=
  match r with
  | .wrote n => n ≤ len
  | .failed _ => True

instance : (r : WriteResult) → (len : Nat) → Decidable (r.Legal len)
  | .wrote n, len => inferInstanceAs (Decidable (n ≤ len))
  | .failed _, _ => inferInstanceAs (Decidable True)

/-- A write that takes everything that was waiting. -/
def WriteResult.Drains (r : WriteResult) (len : Nat) : Prop :=
  match r with
  | .wrote n => 0 < n ∧ len ≤ n
  | .failed _ => False

instance : (r : WriteResult) → (len : Nat) → Decidable (r.Drains len)
  | .wrote n, len => inferInstanceAs (Decidable (0 < n ∧ len ≤ n))
  | .failed _, _ => inferInstanceAs (Decidable False)

/-- Result of `::readv`: the bytes delivered, none of them at end of stream. -/
inductive ReadResult where
  | bytes (data : List UInt8)
  | failed (errno : Errno)
  deriving DecidableEq, Repr

def ReadResult.delivered : ReadResult → List UInt8
  | .bytes data => data
  | .failed _ => []

def ReadResult.Legal (r : ReadResult) (room : Nat) : Prop :=
  match r with
  | .bytes data => data.length ≤ room
  | .failed _ => True

instance : (r : ReadResult) → (room : Nat) → Decidable (r.Legal room)
  | .bytes data, room => inferInstanceAs (Decidable (data.length ≤ room))
  | .failed _, _ => inferInstanceAs (Decidable True)

end Evk
