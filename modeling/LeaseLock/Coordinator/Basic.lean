import LeaseLock.Broadcast
import LeaseLock.Config
import LeaseLock.Coordinator.Registry
import LeaseLock.Deadlock.Search
import LeaseLock.Store.Basic
import LeaseLock.Time.Wait

/-!
# Coordinators

A coordinator grants, renews and releases leases over a store. The store has the last word on who
owns a lock; the coordinator's registry follows what the store has answered.

Each operation takes the store, the time and, where a lease may be granted, a fresh lease id, and
hands back its answer with the store and the coordinator behind it. An operation that fails leaves
the store as it was.

The store and the coordinator read the clock one after the other, and it moves on in between. An
operation that reads it twice takes the time of the first reading, `now`, and the milliseconds that
pass until the second one, the `lag`. In an acquisition the store reads it first, and the lease is
dated by the coordinator behind that, or its wait begins then. In a renewal the coordinator reads it
first, and the store counts what it is to add from its own reading.

An acquisition that has to wait does not end in one step. It turns into a `Pending` acquisition,
entered in the registry as a waiting client, which is polled at the ticks of its schedule until it
ends, and can be cancelled before. On every way out its registration goes before the lease is
entered, so the registry never shows a client waiting for its own new lock.

A renewal is made of three steps: reading the registry (`Coordinator.renewalEnd`), extending the key
in the store, and noting the renewal in the registry (`Coordinator.noteRenewal`).
-/

namespace LeaseLock

/-- A request for a lock. -/
structure LockRequest where
  /-- The lock. -/
  lock : LockName
  /-- The client. -/
  client : ClientId
  /-- The length of the lease, if the client cares. -/
  ttl : Option Duration := none
  /-- How long the client waits for a lock that is held. -/
  wait : Duration := .zero
  /-- Whether upkeep is to renew the lease. -/
  autoRenew : Bool := false
  /-- What the client attaches to the lease. -/
  metadata : Metadata := ∅

/-- A coordinator. -/
structure Coordinator where
  /-- Its settings. -/
  config : Config
  /-- How it is timed when it waits. -/
  timing : Timing := .usual
  /-- What it remembers. -/
  registry : Registry := {}
  /-- The deadlocks it has reported. -/
  reports : Channel DeadlockReport := { capacity := 64 }

/-- An acquisition that waits for its lock. -/
structure Pending where
  /-- The request. -/
  request : LockRequest
  /-- The id that the lease will have. -/
  id : LeaseId
  /-- The length that the lease will have. -/
  ttl : Duration
  /-- The schedule of the wait. -/
  wait : Wait

/-- What has become of an acquisition. -/
inductive Acquisition where
  /-- It has ended. -/
  | ended (result : Except LockFault Lease)
  /-- It sleeps until a tick. -/
  | waiting (pending : Pending) (wake : Nat)

/-- The answer of an operation, with the store and the coordinator behind it. -/
structure Outcome (α : Type) where
  /-- The answer. -/
  answer : α
  /-- The store. -/
  store : Store
  /-- The coordinator. -/
  coordinator : Coordinator

namespace Coordinator

/-! ### Acquiring -/

/-- The lease of a request that the store has granted, noted in the registry. -/
def grant (c : Coordinator) (now : Nat) (request : LockRequest) (id : LeaseId)
    (ttl : Duration) : Lease × Coordinator :=
  let l := Lease.grant request.lock id request.client ttl request.autoRenew request.metadata now
  (l, { c with registry := c.registry.insert l })

/-- End a pending acquisition: remove its registration and, if it got the lock, note its lease. -/
def settle (c : Coordinator) (now : Nat) (p : Pending) (how : WaitEnd) :
    Except LockFault Lease × Coordinator :=
  let c := { c with registry := c.registry.dismiss p.request.lock p.request.client }
  match how.toExcept p.request.lock with
  | .error fault => (.error fault, c)
  | .ok () =>
    let (l, c) := c.grant now p.request p.id p.ttl
    (.ok l, c)

/-- Go on with a pending acquisition after one step of its wait. -/
def proceed (c : Coordinator) (now : Nat) (p : Pending) : WaitStep → Acquisition × Coordinator
  | .sleep wake => (.waiting p wake, c)
  | .stop how =>
    let (result, c) := c.settle now p how
    (.ended result, c)

/-- Ask for a lock. If it is held and the request allows for a wait, the client is registered as
waiting. A lease counts from `lag` behind the time at which the store gave its key, and a wait from
`lag` behind the time at which the store refused it. -/
def acquire (c : Coordinator) (store : Store) (now tick : Nat) (id : LeaseId)
    (request : LockRequest) (lag : Nat := 0) : Outcome Acquisition :=
  if request.lock = "" then
    ⟨.ended (.error (.invalidRequest "lock_name is required")), store, c⟩
  else if request.client = "" then
    ⟨.ended (.error (.invalidRequest "client_id is required")), store, c⟩
  else
    let ttl := c.config.ttlFor request.ttl
    match store.take now request.lock id ttl with
    | .error fault => ⟨.ended (.error (.storeUnavailable fault)), store, c⟩
    | .ok (true, store) =>
      let (l, c) := c.grant (now + lag) request id ttl
      ⟨.ended (.ok l), store, c⟩
    | .ok (false, store) =>
      if request.wait.isZero then
        ⟨.ended (.error (.lockUnavailable request.lock)), store, c⟩
      else
        let wait := Wait.begin c.timing (tick + lag) request.wait c.config.pollPeriod
        let c := { c with registry := c.registry.enlist request.lock request.client }
        let (a, c) := c.proceed (now + lag) ⟨request, id, ttl, wait⟩ (wait.resume (tick + lag))
        ⟨a, store, c⟩

/-- Let a pending acquisition try again at a tick. -/
def poll (c : Coordinator) (store : Store) (now tick : Nat) (p : Pending) (lag : Nat := 0) :
    Outcome Acquisition :=
  match store.take now p.request.lock p.id p.ttl with
  | .error fault =>
    let (a, c) := c.proceed (now + lag) p (p.wait.proceed (tick + lag) (.error fault))
    ⟨a, store, c⟩
  | .ok (taken, store) =>
    let (a, c) := c.proceed (now + lag) p (p.wait.proceed (tick + lag) (.ok taken))
    ⟨a, store, c⟩

/-- Give up a pending acquisition. -/
def cancel (c : Coordinator) (p : Pending) : Coordinator :=
  { c with registry := c.registry.dismiss p.request.lock p.request.client }

/-! ### Releasing -/

/-- Release a lock that the lease `id` holds. -/
def release (c : Coordinator) (store : Store) (now : Nat) (lock : LockName) (client : ClientId)
    (id : LeaseId) : Outcome (Except LockFault Unit) :=
  match store.free now lock id with
  | .error fault => ⟨.error (.storeUnavailable fault), store, c⟩
  | .ok (false, store) => ⟨.error (.notOwner lock), store, c⟩
  | .ok (true, store) => ⟨.ok (), store, { c with registry := c.registry.remove id lock client }⟩

/-! ### Renewing -/

/-- When a lease ends after a renewal at `now` for which `extension` was asked: that much later, but
later than before if the lease is known. -/
def renewalEnd (c : Coordinator) (now : Nat) (id : LeaseId) (extension : Option Duration) : Nat :=
  let requested := now + (c.config.ttlFor extension).wholeMillis
  match c.registry.lease? id with
  | some l => max requested (l.expiresAt + 1)
  | none => requested

/-- Note a renewal that the store has made. Of a lease that another coordinator granted, nothing is
known but its new end. -/
def noteRenewal (c : Coordinator) (id : LeaseId) (target : Nat) : Renewal × Coordinator :=
  match c.registry.noteRenewal id target with
  | (registry, some l) => (⟨l.expiresAt, l.renewals⟩, { c with registry })
  | (registry, none) => (⟨target, 0⟩, { c with registry })

/-- Renew a lease that holds its lock. The store is asked for the time from `now` to the new end and
counts it from `lag` behind `now`. -/
def renew (c : Coordinator) (store : Store) (now : Nat) (lock : LockName) (id : LeaseId)
    (extension : Option Duration) (lag : Nat := 0) : Outcome (Except LockFault Renewal) :=
  let target := c.renewalEnd now id extension
  match store.extend (now + lag) lock id (.ofMillis (target - now)) with
  | .error fault => ⟨.error (.storeUnavailable fault), store, c⟩
  | .ok (false, store) => ⟨.error (.notOwner lock), store, c⟩
  | .ok (true, store) =>
    let (renewal, c) := c.noteRenewal id target
    ⟨.ok renewal, store, c⟩

/-! ### Looking -/

/-- What is known about a lock. Everything but the time left comes from the registry if the lease is
known there. Otherwise the end is told from the time left, `lag` behind the time at which the store
told it. -/
def status (c : Coordinator) (store : Store) (now : Nat) (lock : LockName) (lag : Nat := 0) :
    Except LockFault LockStatus :=
  match store.peek now lock with
  | .error fault => .error (.storeUnavailable fault)
  | .ok ⟨none, _⟩ => .ok (.free lock)
  | .ok ⟨some owner, remaining⟩ =>
    let ttl := remaining.map Duration.wholeMillis
    match c.registry.lease? owner with
    | some l =>
      .ok
        { lock, held := true, holder := some l.holder, lease := some owner
          expiresAt := some l.expiresAt, ttl, acquiredAt := some l.acquiredAt
          autoRenew := some l.autoRenew, renewals := some l.renewals
          metadata := some l.metadata }
    | none =>
      .ok { lock, held := true, lease := some owner, expiresAt := ttl.map (now + lag + ·), ttl }

/-- The leases that the coordinator granted, in the order of the grants. -/
def leases (c : Coordinator) : List Lease := c.registry.leases

/-- The locks that are waited for, each with its clients. -/
def waiters (c : Coordinator) : List (LockName × List ClientId) := c.registry.waiters

/-- The figures of the coordinator. -/
def stats (c : Coordinator) : Stats := c.registry.stats

/-- Whether the store can be used. -/
def ping (store : Store) : Except LockFault Unit := store.ping.mapError .storeUnavailable

/-- Look for deadlocks in the registry and report them. -/
def detect (c : Coordinator) (now : Nat) : List DeadlockReport × Coordinator :=
  let found := (c.registry.waitForGraph now).deadlocks now
  (found, { c with reports := found.foldl Channel.send c.reports })

/-- Forget all leases and all waiting clients. -/
def clear (c : Coordinator) : Coordinator := { c with registry := c.registry.clear }

end Coordinator

end LeaseLock
