import LeaseLock.Store.Memory
import LeaseLock.Store.Table

/-!
# Lease stores

A `Store` is one of the places where leases can be kept: memory, a table, or memory behind an
interface that offers only the bare primitives, which neither tells how much time a key has left nor
purges. The operations are the same for all of them, each a single atomic step that takes the time
from its caller. A failed operation leaves the store as it was.

`Store.row?` is the common view: the row of a lock, live or not.
-/

namespace LeaseLock

/-- A place where leases are kept. -/
inductive Store where
  /-- In memory. -/
  | memory (s : MemoryStore)
  /-- In a database table. -/
  | table (t : LeaseTable)
  /-- In memory, behind an interface without times left and without purging. -/
  | bare (s : MemoryStore)

namespace Store

/-- The row of a lock, live or not. -/
def row? (lock : LockName) : Store → Option Row
  | memory s => s.rows.get? lock
  | table t => t.row? lock
  | bare s => s.rows.get? lock

/-- The row of a lock if it is live at `now`. -/
def live? (s : Store) (now : Nat) (lock : LockName) : Option Row :=
  (s.row? lock).filter (·.isLive now)

/-- The answer of an operation together with the store behind it. -/
def lift (wrap : σ → Store) : Except StoreFault (α × σ) → Except StoreFault (α × Store) :=
  Except.map fun (a, s) ↦ (a, wrap s)

/-- Take the key for `id` unless it is live; whether it was taken. -/
def take (now : Nat) (lock : LockName) (id : LeaseId) (ttl : Duration) :
    Store → Except StoreFault (Bool × Store)
  | memory s => lift memory (s.take now lock id ttl)
  | table t => lift table (t.take now lock id ttl)
  | bare s => lift bare (s.take now lock id ttl)

/-- Delete the key if it is live and owned by `id`; whether it was deleted. -/
def free (now : Nat) (lock : LockName) (id : LeaseId) :
    Store → Except StoreFault (Bool × Store)
  | memory s => lift memory (s.free now lock id)
  | table t => lift table (t.free now lock id)
  | bare s => lift bare (s.free now lock id)

/-- Let the key expire `ttl` from now if it is live and owned by `id`; whether it was. -/
def extend (now : Nat) (lock : LockName) (id : LeaseId) (ttl : Duration) :
    Store → Except StoreFault (Bool × Store)
  | memory s => lift memory (s.extend now lock id ttl)
  | table t => lift table (t.extend now lock id ttl)
  | bare s => lift bare (s.extend now lock id ttl)

/-- Look at the key without changing anything. -/
def peek (now : Nat) (lock : LockName) : Store → Except StoreFault Glimpse
  | memory s => s.peek now lock
  | table t => t.peek now lock
  | bare s => (s.peek now lock).map fun g ↦ { g with remaining := none }

/-- Whether the store can be used. -/
def ping : Store → Except StoreFault Unit
  | memory s => s.ping
  | table _ => .ok ()
  | bare s => s.ping

/-- Delete the keys that have expired and count them. -/
def purge (now : Nat) : Store → Except StoreFault (Nat × Store)
  | memory s => lift memory (s.purge now)
  | table t => lift table (t.purge now)
  | bare s => .ok (0, bare s)

/-- The store with its switch set, if it has one. -/
def setAvailable (available : Bool) : Store → Option Store
  | memory s => some (memory { s with available })
  | table _ => none
  | bare s => some (bare { s with available })

/-- How many keys are live, if the store can tell. -/
def liveCount? (now : Nat) : Store → Option Nat
  | memory s => some (s.liveCount now)
  | table _ => none
  | bare s => some (s.liveCount now)

end Store

end LeaseLock
