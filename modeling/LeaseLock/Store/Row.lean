import LeaseLock.Fault

/-!
# Rows of a lease store

A store keeps one row for each lock name: the lease that owns the key and when the key expires. A
row is live until its expiry, and a row that is no longer live counts as absent, although it stays
where it is until the key is taken over or purged. Every operation of a store is described by what
it does to the rows.
-/

namespace LeaseLock

/-- The owner of a key and when the key expires. -/
structure Row where
  /-- The lease that owns the key. -/
  lease : LeaseId
  /-- When the key expires. -/
  expiresAt : Nat
deriving DecidableEq, Repr

/-- Whether the key has not expired at `now`. -/
def Row.isLive (r : Row) (now : Nat) : Bool := decide (now < r.expiresAt)

/-- What a look at a key shows: its owner, if it is live, and the time left, if the store tells. -/
structure Glimpse where
  /-- The lease that owns the key. -/
  owner : Option LeaseId := none
  /-- The time until the key expires. -/
  remaining : Option Duration := none
deriving DecidableEq, Repr

end LeaseLock
