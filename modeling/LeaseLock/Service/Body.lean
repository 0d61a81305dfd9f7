import LeaseLock.Coordinator.Basic

/-!
# Bodies of requests

What a client sends to acquire, release and renew a lock. The lock itself is named in the path.
Times are in whole seconds. A body is read first and judged afterwards: names must not be empty, and
the names of locks and clients have at most 256 bytes.
-/

namespace LeaseLock

/-- Why a request is refused before it reaches the coordinator. -/
inductive BodyFault where
  /-- Something that is required is empty. -/
  | empty (what : String)
  /-- A name is longer than this many bytes. -/
  | tooLong (what : String) (bytes : Nat)
deriving DecidableEq, Repr

namespace BodyFault

/-- The text of a fault. -/
def message : BodyFault → String
  | empty what => what ++ " is required"
  | tooLong what bytes => what ++ " must be at most " ++ toString bytes ++ " bytes"

end BodyFault

/-- The most bytes that the name of a lock or a client has. -/
def maxNameBytes : Nat := 256

/-- Check the length of a name. -/
def checkName (what name : String) : Except BodyFault Unit :=
  if name = "" then .error (.empty what)
  else if maxNameBytes < name.utf8ByteSize then .error (.tooLong what maxNameBytes)
  else .ok ()

/-- Check the name of a lock. -/
def checkLockName (name : LockName) : Except BodyFault Unit := checkName "lock name" name

/-- Check the name of a client. -/
def checkClientId (name : ClientId) : Except BodyFault Unit := checkName "client_id" name

/-- Check the id of a lease. -/
def checkLeaseId (id : LeaseId) : Except BodyFault Unit :=
  if id = "" then .error (.empty "lease_id") else .ok ()

/-- The body of a request to acquire a lock. -/
structure AcquireBody where
  /-- The client. -/
  client : ClientId
  /-- The length of the lease in seconds. -/
  timeout : Option Nat
  /-- How long to wait for a lock that is held, in seconds. -/
  waitTimeout : Option Nat
  /-- Whether the lease is to be kept alive. -/
  autoRenew : Bool
  /-- What is attached to the lease. -/
  metadata : Option Metadata

namespace AcquireBody

/-- The body as an object. Everything but the client may be missing. -/
def record : Json.Record AcquireBody where
  types := [String, Option Nat, Option Nat, Bool, Option Metadata]
  fields :=
    .cons (.text "client_id") <|
    .cons ((Json.Field.optional (.word "timeout")).orElse none) <|
    .cons ((Json.Field.optional (.word "wait_timeout")).orElse none) <|
    .cons ((Json.Field.truth "auto_renew").orElse false) <|
    .cons ((Json.Field.optional (.metadata "metadata")).orElse none) .nil
  build := fun (a, b, c, d, e, ()) ↦ ⟨a, b, c, d, e⟩
  parts := fun b ↦ (b.client, b.timeout, b.waitTimeout, b.autoRenew, b.metadata, ())

/-- The first fault of a request for the given lock. -/
def check (b : AcquireBody) (lock : LockName) : Except BodyFault Unit := do
  checkLockName lock
  checkClientId b.client

/-- The request to the coordinator. -/
def toRequest (b : AcquireBody) (lock : LockName) : LockRequest where
  lock := lock
  client := b.client
  ttl := b.timeout.map Duration.ofSecs
  wait := .ofSecs (b.waitTimeout.getD 0)
  autoRenew := b.autoRenew
  metadata := b.metadata.getD ∅

end AcquireBody

/-- The body of a request to release a lock. -/
structure ReleaseBody where
  /-- The client. -/
  client : ClientId
  /-- The lease that holds the lock. -/
  lease : LeaseId

namespace ReleaseBody

/-- The body as an object. -/
def record : Json.Record ReleaseBody where
  types := [String, String]
  fields := .cons (.text "client_id") <| .cons (.text "lease_id") .nil
  build := fun (a, b, ()) ↦ ⟨a, b⟩
  parts := fun b ↦ (b.client, b.lease, ())

/-- The first fault of a request for the given lock. -/
def check (b : ReleaseBody) (lock : LockName) : Except BodyFault Unit := do
  checkLockName lock
  checkClientId b.client
  checkLeaseId b.lease

end ReleaseBody

/-- The body of a request to renew a lease. -/
structure RenewBody where
  /-- The client. -/
  client : ClientId
  /-- The lease. -/
  lease : LeaseId
  /-- The seconds from now until the lease is to end. -/
  extendBy : Option Nat

namespace RenewBody

/-- The body as an object. The extension may be missing. -/
def record : Json.Record RenewBody where
  types := [String, String, Option Nat]
  fields :=
    .cons (.text "client_id") <|
    .cons (.text "lease_id") <|
    .cons ((Json.Field.optional (.word "extend_by")).orElse none) .nil
  build := fun (a, b, c, ()) ↦ ⟨a, b, c⟩
  parts := fun b ↦ (b.client, b.lease, b.extendBy, ())

/-- The first fault of a request for the given lock. -/
def check (b : RenewBody) (lock : LockName) : Except BodyFault Unit := do
  checkLockName lock
  checkClientId b.client
  checkLeaseId b.lease

/-- The extension that is asked for. -/
def extension (b : RenewBody) : Option Duration := b.extendBy.map Duration.ofSecs

end RenewBody

end LeaseLock
