import LeaseLock.Deadlock.Graph

/-!
# The registry of a coordinator

What a coordinator remembers of the leases it granted and of the clients that wait through it. The
store decides who owns a lock; the registry only describes it, and the background tasks read it.

It is three maps: the granted leases by id, each with the number of its grant; the clients that
wait, by lock; and the locks that are held, by client. Neither of the last two keeps an empty set.
At most one lease is kept for a lock, because a new grant drops what was known about the lock
before.
-/

namespace LeaseLock

/-- A lease with the number of its grant. -/
structure Grant where
  /-- The number of the grant; later grants have larger numbers. -/
  number : Nat
  /-- The lease. -/
  lease : Lease

/-- What a coordinator remembers. -/
structure Registry where
  /-- The leases by id. -/
  granted : Dict Grant := ∅
  /-- The clients that wait, by lock. -/
  waiting : Dict Names := ∅
  /-- The locks that are held, by client. -/
  holdings : Dict Names := ∅
  /-- The number of the next grant. -/
  nextNumber : Nat := 0
deriving Inhabited

namespace Registry

/-! ### Maps of sets without empty sets -/

/-- Add `x` to the set at `k`. -/
def link (d : Dict Names) (k x : String) : Dict Names :=
  d.insert k (((d.get? k).getD ∅ : Names).add x)

/-- Remove `x` from the set at `k`, and the set with its last member. -/
def unlink (d : Dict Names) (k x : String) : Dict Names :=
  match d.get? k with
  | none => d
  | some s =>
    let s : Names := s.erase x
    if s.isEmpty then d.erase k else d.insert k s

/-! ### Leases -/

/-- Forget the lease `id`, and that `client` and the holder of the lease hold `lock`. -/
def remove (r : Registry) (id : LeaseId) (lock : LockName) (client : ClientId) : Registry :=
  let holdings := unlink r.holdings client lock
  { r with
    granted := r.granted.erase id
    holdings :=
      match r.granted.get? id with
      | none => holdings
      | some g =>
        if g.lease.holder = client then holdings else unlink holdings g.lease.holder lock }

/-- The lease `id`, if it is known. -/
def lease? (r : Registry) (id : LeaseId) : Option Lease := (r.granted.get? id).map (·.lease)

/-- Remember a lease that the store has just granted, and forget what was known about its lock. -/
def insert (r : Registry) (l : Lease) : Registry :=
  let stale := r.granted.values.filter fun g ↦ g.lease.lock == l.lock
  let r := stale.foldl (fun r g ↦ r.remove g.lease.id l.lock g.lease.holder) r
  { r with
    holdings := link r.holdings l.holder l.lock
    granted := r.granted.insert l.id ⟨r.nextNumber, l⟩
    nextNumber := r.nextNumber + 1 }

/-- The lease as a renewal to `expiresAt` leaves it: its expiry moves forward, by a millisecond at
least. -/
def renewed (l : Lease) (expiresAt : Nat) : Lease :=
  { l with expiresAt := max expiresAt (l.expiresAt + 1), renewals := l.renewals + 1 }

/-- Note that the lease `id` has been renewed; with the registry comes the renewed lease, if it
is known. -/
def noteRenewal (r : Registry) (id : LeaseId) (expiresAt : Nat) : Registry × Option Lease :=
  match r.granted.get? id with
  | none => (r, none)
  | some g =>
    let l := renewed g.lease expiresAt
    ({ r with granted := r.granted.insert id { g with lease := l } }, some l)

/-- Put a grant before the first one with a larger number. -/
def insertByGrant (g : Grant) : List Grant → List Grant
  | [] => [g]
  | h :: hs => if g.number < h.number then g :: h :: hs else h :: insertByGrant g hs

/-- The grants in the order of their numbers. -/
def byGrant (gs : List Grant) : List Grant := gs.foldr insertByGrant []

/-- The leases in the order in which they were granted. -/
def leases (r : Registry) : List Lease := (byGrant r.granted.values).map (·.lease)

/-- How many leases are known. -/
def leaseCount (r : Registry) : Nat := r.granted.size

/-- Forget the leases that have expired and that no renewal keeps alive; with the registry come
those leases in the order of their ids. -/
def prune (r : Registry) (now : Nat) : Registry × List Lease :=
  let expired := (r.granted.values.map (·.lease)).filter fun l ↦ !l.autoRenew && l.isExpired now
  (expired.foldl (fun r l ↦ r.remove l.id l.lock l.holder) r, expired)

/-- Forget everything except how many grants there have been. -/
def clear (r : Registry) : Registry := { nextNumber := r.nextNumber }

/-! ### Waiting clients -/

/-- Note that a client waits for a lock. -/
def enlist (r : Registry) (lock : LockName) (client : ClientId) : Registry :=
  { r with waiting := link r.waiting lock client }

/-- Note that a client does not wait for a lock. -/
def dismiss (r : Registry) (lock : LockName) (client : ClientId) : Registry :=
  { r with waiting := unlink r.waiting lock client }

/-- The locks that are waited for, in order, each with its clients in order. -/
def waiters (r : Registry) : List (LockName × List ClientId) :=
  r.waiting.entries.map fun (lock, clients) ↦ (lock, Names.toList clients)

/-! ### Summaries -/

/-- Who waits for what and who holds what at `now`. Leases that have expired are left out. -/
def waitForGraph (r : Registry) (now : Nat) : WaitForGraph :=
  let waits := r.waiting.entries.flatMap fun (lock, clients) ↦
    (Names.toList clients).map fun client ↦ (client, lock)
  let holds := (r.granted.values.map (·.lease)).filter fun l ↦ !l.isExpired now
  holds.foldl (fun g l ↦ g.addHold l.lock l.holder)
    (waits.foldl (fun g (client, lock) ↦ g.addWait client lock) {})

/-- The figures of the coordinator. -/
def stats (r : Registry) : Stats where
  activeLeases := r.granted.size
  waitingClients := r.waiting.values.foldr (fun s n ↦ Dict.size s + n) 0
  clientsHolding := r.holdings.size
  averageRenewals :=
    (Binary64.quotient (r.granted.values.foldr (fun g n ↦ g.lease.renewals + n) 0)
      (max r.granted.size 1)).getD (.zero false)

end Registry

end LeaseLock
