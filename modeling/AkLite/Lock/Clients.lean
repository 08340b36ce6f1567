/-
The lock of `AkliteClient`.

Every client object of every process on the device is a `Client`.  The
constructor calls `Init`, which takes the lock when the client is not read-only
and `apply_lock` is set.  `assert_lock` makes two system calls, `open` and then
`flock`, and other processes can run between them, so the construction of such a
client is two steps here.  The descriptor is never closed, so a lock once taken
stays until the process ends, whatever becomes of the object.  A constructor that
throws leaves no object, and its destructor does not run.

The destructor of `AkliteClient` unlinks the lock file.  It reads neither
`read_only_` nor whether this object ever took the lock.
-/
import AkLite.Lib.FileLock
import AkLite.Lib.Run

namespace AkLite
namespace Lock

open Lib

/-- Where a client object is in its life.  `opened` is the middle of
`assert_lock`, after `open` and before `flock`. -/
inductive Phase where
  | opened
  | living
  deriving DecidableEq, Repr

/-- A client object.  `desc` is the descriptor `assert_lock` opened, for a client
that takes the lock. -/
structure Client where
  id : Nat
  proc : Nat
  readOnly : Bool
  applyLock : Bool
  desc : Option Nat
  phase : Phase
  deriving DecidableEq, Repr

/-- Built with `read_only = false` and `apply_lock = true`. -/
def Client.locking (c : Client) : Bool := !c.readOnly && c.applyLock

/-- A living client that took the lock. -/
def Client.holding (c : Client) : Bool := c.locking && c.phase == .living

/-- The lock file and the client objects of all processes. -/
structure Device where
  file : FileLock
  clients : List Client
  freshClient : Nat
  deriving DecidableEq, Repr

def Device.fresh : Device := { file := FileLock.fresh, clients := [], freshClient := 0 }

/-- What `assert_lock` reports.  `systemError` stands for its two
`std::system_error` exits, an `open` that fails and a `flock` that fails for
another reason than a held lock. -/
inductive LockError where
  | systemError
  | anotherInstance
  deriving DecidableEq, Repr

/-- The text of the exception for a held lock. -/
def LockError.what : LockError → String
  | .systemError => "An error occurred obtaining the aklite lock"
  | .anotherInstance => "Failed to obtain the aklite lock, another instance must be running !!!"

/-- The `flock` half of `assert_lock` on descriptor `d`.  `sysErr` is a failure
other than `EWOULDBLOCK`. -/
def flockResult (f : FileLock) (d : Nat) (sysErr : Bool) : Except LockError FileLock :=
  if sysErr then .error .systemError
  else if f.wouldBlock d then .error .anotherInstance
  else .ok (f.flock d)

/-- The steps of the device.

* `construct`: a constructor runs up to the `open` of `assert_lock`, or to its end
  when it takes no lock.  `openErr` makes `open` fail, and `restErr` makes the rest
  of the constructor throw.
* `lock`: the `flock` of a construction under way, and the rest of its constructor.
* `destroy`: the destructor of a living client.
* `exit`: a process ends without running destructors. -/
inductive Action where
  | construct (proc : Nat) (readOnly applyLock openErr restErr : Bool)
  | lock (client : Nat) (sysErr restErr : Bool)
  | destroy (client : Nat)
  | exit (proc : Nat)
  deriving DecidableEq, Repr

def Device.client (s : Device) (c : Nat) : Option Client := s.clients.find? fun x => x.id == c

def Device.drop (s : Device) (c : Nat) : List Client := s.clients.filter fun x => x.id != c

/-- The constructor up to its first system call on the lock. -/
def construct (s : Device) (p : Nat) (readOnly applyLock openErr restErr : Bool) : Device :=
  let x : Client :=
    { id := s.freshClient, proc := p, readOnly := readOnly, applyLock := applyLock,
      desc := none, phase := .living }
  if !readOnly && applyLock then
    if openErr then s
    else
      { file := s.file.openAt p,
        clients := { x with desc := some s.file.freshDesc, phase := .opened } :: s.clients,
        freshClient := s.freshClient + 1 }
  else if restErr then s
  else { s with clients := x :: s.clients, freshClient := s.freshClient + 1 }

/-- The rest of the constructor of `x` from the `flock` on.  The descriptor stays
open when the constructor throws. -/
def finishLock (s : Device) (x : Client) (d : Nat) (sysErr restErr : Bool) : Device :=
  match flockResult s.file d sysErr with
  | .error _ => { s with clients := s.drop x.id }
  | .ok file =>
    if restErr then { s with file := file, clients := s.drop x.id }
    else { s with file := file, clients := { x with phase := .living } :: s.drop x.id }

/-- The client a `lock` or `destroy` step is about must be in the phase the step
leaves. -/
def step (s : Device) : Action → Option Device
  | .construct p readOnly applyLock openErr restErr =>
    some (construct s p readOnly applyLock openErr restErr)
  | .lock c sysErr restErr =>
    match s.client c with
    | some x =>
      match x.phase, x.desc with
      | .opened, some d => some (finishLock s x d sysErr restErr)
      | _, _ => none
    | none => none
  | .destroy c =>
    match s.client c with
    | some x =>
      if x.phase = .living then some { s with file := s.file.unlink, clients := s.drop c }
      else none
    | none => none
  | .exit p =>
    some { s with file := s.file.exit p, clients := s.clients.filter fun x => x.proc != p }

/-- The step relation of the device. -/
def Step (s : Device) (a : Action) (t : Device) : Prop := step s a = some t

end Lock
end AkLite
