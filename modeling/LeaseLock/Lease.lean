import LeaseLock.Json.Record
import LeaseLock.Time.Duration

/-!
# Leases

A lease is a lock granted to a client until an instant on the wall clock. Instants are natural
numbers, the milliseconds since 1970. The lease's id is the fencing token with which the holder
renews and releases it.

Beside the lease stand the values that answers carry: the status of a lock, the outcome of a
renewal, the figures of a coordinator, and a report of a deadlock. Each has its JSON record.
-/

namespace LeaseLock

/-- The name of a lock. -/
abbrev LockName := String

/-- The fencing token of a lease. -/
abbrev LeaseId := String

/-- The name of a client. -/
abbrev ClientId := String

/-- A lock granted to a client until an instant. -/
structure Lease where
  /-- The lock. -/
  lock : LockName
  /-- The fencing token. -/
  id : LeaseId
  /-- The client that holds the lock. -/
  holder : ClientId
  /-- When the lock was granted. -/
  acquiredAt : Nat
  /-- When the lease ends unless it is renewed. -/
  expiresAt : Nat
  /-- Whether upkeep renews the lease. -/
  autoRenew : Bool
  /-- How often the lease has been renewed. -/
  renewals : Nat
  /-- What the client attached to it. -/
  metadata : Metadata

namespace Lease

/-- A lease granted at `now` for `ttl`, which counts as at least a millisecond. -/
def grant (lock : LockName) (id : LeaseId) (holder : ClientId) (ttl : Duration) (autoRenew : Bool)
    (metadata : Metadata) (now : Nat) : Lease where
  lock := lock
  id := id
  holder := holder
  acquiredAt := now
  expiresAt := now + ttl.keyMillis
  autoRenew := autoRenew
  renewals := 0
  metadata := metadata

/-- The milliseconds left at `now`. -/
def remaining (l : Lease) (now : Nat) : Nat := l.expiresAt - now

/-- Whether the lease has ended at `now`. -/
def isExpired (l : Lease) (now : Nat) : Bool := decide (l.expiresAt ≤ now)

/-- A lease as an object. The metadata may be missing and is empty then. -/
def record : Json.Record Lease where
  types := [String, String, String, Nat, Nat, Bool, Nat, Metadata]
  fields :=
    .cons (.text "lock_name") <|
    .cons (.text "lease_id") <|
    .cons (.text "holder_id") <|
    .cons (.word "acquired_at") <|
    .cons (.word "expires_at") <|
    .cons (.truth "auto_renew") <|
    .cons (.word "renewal_count") <|
    .cons ((Json.Field.metadata "metadata").orElse ∅) .nil
  build := fun (a, b, c, d, e, f, g, h, ()) ↦ ⟨a, b, c, d, e, f, g, h⟩
  parts := fun l ↦
    (l.lock, l.id, l.holder, l.acquiredAt, l.expiresAt, l.autoRenew, l.renewals, l.metadata, ())

end Lease

/-- What is known about a lock. -/
structure LockStatus where
  /-- The lock. -/
  lock : LockName
  /-- Whether a live lease holds it. -/
  held : Bool
  /-- The client that holds it. -/
  holder : Option ClientId := none
  /-- The fencing token of its lease. -/
  lease : Option LeaseId := none
  /-- When the lease ends. -/
  expiresAt : Option Nat := none
  /-- The milliseconds left. -/
  ttl : Option Nat := none
  /-- When the lock was granted. -/
  acquiredAt : Option Nat := none
  /-- Whether upkeep renews the lease. -/
  autoRenew : Option Bool := none
  /-- How often the lease has been renewed. -/
  renewals : Option Nat := none
  /-- What the client attached to the lease. -/
  metadata : Option Metadata := none

namespace LockStatus

/-- The status of a lock that nobody holds. -/
def free (lock : LockName) : LockStatus := { lock := lock, held := false }

/-- A status as an object, without the members that are unset. -/
def record : Json.Record LockStatus where
  types := [String, Bool, Option String, Option String, Option Nat, Option Nat, Option Nat,
    Option Bool, Option Nat, Option Metadata]
  fields :=
    .cons (.text "lock_name") <|
    .cons (.truth "held") <|
    .cons (.optional (.text "holder_id")) <|
    .cons (.optional (.text "lease_id")) <|
    .cons (.optional (.word "expires_at")) <|
    .cons (.optional (.word "ttl_ms")) <|
    .cons (.optional (.word "acquired_at")) <|
    .cons (.optional (.truth "auto_renew")) <|
    .cons (.optional (.word "renewal_count")) <|
    .cons (.optional (.metadata "metadata")) .nil
  build := fun (a, b, c, d, e, f, g, h, i, j, ()) ↦ ⟨a, b, c, d, e, f, g, h, i, j⟩
  parts := fun s ↦
    (s.lock, s.held, s.holder, s.lease, s.expiresAt, s.ttl, s.acquiredAt, s.autoRenew, s.renewals,
      s.metadata, ())

end LockStatus

/-- The outcome of a renewal. -/
structure Renewal where
  /-- When the lease ends now. -/
  expiresAt : Nat
  /-- How often it has been renewed. -/
  renewals : Nat
deriving DecidableEq, Repr

/-- The outcome of a renewal as an object. -/
def Renewal.record : Json.Record Renewal where
  types := [Nat, Nat]
  fields := .cons (.word "expires_at") <| .cons (.word "renewal_count") .nil
  build := fun (a, b, ()) ↦ ⟨a, b⟩
  parts := fun r ↦ (r.expiresAt, r.renewals, ())

/-- The figures of a coordinator. -/
structure Stats where
  /-- How many leases it knows. -/
  activeLeases : Nat
  /-- How many clients wait, counted once for each lock. -/
  waitingClients : Nat
  /-- How many clients hold a lock. -/
  clientsHolding : Nat
  /-- How often its leases have been renewed on average. -/
  averageRenewals : Binary64
deriving DecidableEq, Repr

/-- The figures of a coordinator as an object. -/
def Stats.record : Json.Record Stats where
  types := [Nat, Nat, Nat, Binary64]
  fields :=
    .cons (.word "active_leases") <|
    .cons (.word "waiting_clients") <|
    .cons (.word "clients_holding") <|
    .cons (.double "average_renewals") .nil
  build := fun (a, b, c, d, ()) ↦ ⟨a, b, c, d⟩
  parts := fun s ↦ (s.activeLeases, s.waitingClients, s.clientsHolding, s.averageRenewals, ())

/-- A deadlock: each client waits for the lock beside it, which the next client holds. -/
structure DeadlockReport where
  /-- The clients around the cycle, the smallest first. -/
  clients : List ClientId
  /-- The lock that each of them waits for. -/
  locks : List LockName
  /-- When the cycle was found. -/
  detectedAt : Nat
deriving DecidableEq, Repr

/-- A deadlock as an object. -/
def DeadlockReport.record : Json.Record DeadlockReport where
  types := [List String, List String, Nat]
  fields := .cons (.texts "clients") <| .cons (.texts "locks") <| .cons (.word "detected_at") .nil
  build := fun (a, b, c, ()) ↦ ⟨a, b, c⟩
  parts := fun r ↦ (r.clients, r.locks, r.detectedAt, ())

end LeaseLock
