import LeaseLock.Store.Row

/-!
# Leases kept in memory

A `MemoryStore` is a map from lock names to rows, with a switch that takes it out of reach: while it
is unavailable every operation fails and changes nothing. Each operation looks at one row and
decides by comparing its owner and its expiry.
-/

namespace LeaseLock

/-- A map from lock names to rows, which may be out of reach. -/
structure MemoryStore where
  /-- The rows by lock name. -/
  rows : Dict Row := ∅
  /-- Whether the store can be used. -/
  available : Bool := true

namespace MemoryStore

/-- The fault of a store that is out of reach. -/
def outage : StoreFault := .unavailable "in-memory store marked unavailable"

/-- Take the key for `id` unless it is live. -/
def take (s : MemoryStore) (now : Nat) (lock : LockName) (id : LeaseId) (ttl : Duration) :
    Except StoreFault (Bool × MemoryStore) :=
  if s.available then
    let taken := { s with rows := s.rows.insert lock ⟨id, now + ttl.keyMillis⟩ }
    match s.rows.get? lock with
    | some row => if row.isLive now then .ok (false, s) else .ok (true, taken)
    | none => .ok (true, taken)
  else .error outage

/-- Delete the key if it is live and owned by `id`. -/
def free (s : MemoryStore) (now : Nat) (lock : LockName) (id : LeaseId) :
    Except StoreFault (Bool × MemoryStore) :=
  if s.available then
    match s.rows.get? lock with
    | some row =>
      if row.lease = id ∧ row.isLive now then .ok (true, { s with rows := s.rows.erase lock })
      else .ok (false, s)
    | none => .ok (false, s)
  else .error outage

/-- Let the key expire `ttl` from now if it is live and owned by `id`. -/
def extend (s : MemoryStore) (now : Nat) (lock : LockName) (id : LeaseId)
    (ttl : Duration) : Except StoreFault (Bool × MemoryStore) :=
  if s.available then
    match s.rows.get? lock with
    | some row =>
      if row.lease = id ∧ row.isLive now then
        .ok (true, { s with rows := s.rows.insert lock ⟨row.lease, now + ttl.keyMillis⟩ })
      else .ok (false, s)
    | none => .ok (false, s)
  else .error outage

/-- Look at the key without changing anything. -/
def peek (s : MemoryStore) (now : Nat) (lock : LockName) : Except StoreFault Glimpse :=
  if s.available then
    match s.rows.get? lock with
    | some row =>
      if row.isLive now then .ok ⟨some row.lease, some (.ofMillis (row.expiresAt - now))⟩
      else .ok {}
    | none => .ok {}
  else .error outage

/-- Whether the store can be used. -/
def ping (s : MemoryStore) : Except StoreFault Unit :=
  if s.available then .ok () else .error outage

/-- Delete the keys that have expired and count them. -/
def purge (s : MemoryStore) (now : Nat) : Except StoreFault (Nat × MemoryStore) :=
  if s.available then
    let kept := s.rows.filter fun _ row ↦ row.isLive now
    .ok (s.rows.size - kept.size, { s with rows := kept })
  else .error outage

/-- How many keys are live. -/
def liveCount (s : MemoryStore) (now : Nat) : Nat :=
  (s.rows.filter fun _ row ↦ row.isLive now).size

end MemoryStore

end LeaseLock
