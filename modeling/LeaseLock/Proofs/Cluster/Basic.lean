import Mathlib.Logic.Function.Basic
import LeaseLock.Coordinator.Upkeep
import LeaseLock.Proofs.Coordinator.Leases

/-!
# Coordinators that share a store

A `Cluster` is a family of coordinators over one store that nobody else changes, together with the
acquisitions that wait, the ids that have been issued, and the time. Clients and operators make
calls, one after another; a call is a whole operation of one coordinator. Time never goes back. It
passes between calls, and it passes within those that read the clock more than once. During an
outage every operation on the store fails, whatever the kind of the store.

Every id is issued once: an acquisition with an id that has been issued before does not happen.

What the calls of a run have answered is its history, a list of notices. Everything that is said
about leases below is said about histories: who was granted what, who was told which expiry, who was
turned away.

## Time within a call

The store and the coordinator read the clock one after the other. How far it moves on in between is
said by the call, as the time that passes until an acquisition dates its lease, the time that passes
until a renewal reaches the store, or all the times that pass in the course of a pass of upkeep.
Nothing else happens in between. The time that a call takes (`Call.took`) has passed when the next
call is made.

Most of what is proved about clusters holds whatever time passes within calls. Where it matters, the
time that passes within an acquisition (`Call.GrantsWithin`) and the time that passes within a
renewal (`Call.RenewsWithin`) are bounded separately, because the one makes the registry run ahead
of the store and the other one makes the store run ahead of the registry.

## Interrupted operations

An operation that is interrupted between its store and its registry leaves the store as it would be
and the registry as anything. An event that replaces the registry of a member stands for this, so a
statement about all events covers every interleaving of the steps of calls as far as the store is
concerned.
-/

namespace LeaseLock

/-! ### Notices -/

/-- What the answer to a call says about leases. -/
inductive Notice where
  /-- A lease was granted. -/
  | granted (l : Lease)
  /-- A lease was released. -/
  | released (lock : LockName) (id : LeaseId)
  /-- A lease was renewed. -/
  | renewed (lock : LockName) (id : LeaseId) (renewal : Renewal)
  /-- A release or a renewal failed. -/
  | refused (lock : LockName) (id : LeaseId) (fault : LockFault)
  /-- A coordinator forgot all its leases. -/
  | cleared

namespace Notice

/-- The notice in the answer to a release. -/
def ofRelease (lock : LockName) (id : LeaseId) : Except LockFault Unit → Notice
  | .ok () => released lock id
  | .error fault => refused lock id fault

/-- The notice in the answer to a renewal. -/
def ofRenewal (lock : LockName) (id : LeaseId) : Except LockFault Renewal → Notice
  | .ok renewal => renewed lock id renewal
  | .error fault => refused lock id fault

end Notice

/-- The lease `id` of `lock` was granted. -/
def Granted (h : List Notice) (lock : LockName) (id : LeaseId) : Prop :=
  ∃ l, Notice.granted l ∈ h ∧ l.lock = lock ∧ l.id = id

/-- The notices in the answer to an acquisition. -/
def Acquisition.notices : Acquisition → List Notice
  | .ended (.ok l) => [.granted l]
  | .ended (.error _) => []
  | .waiting _ _ => []

/-- The acquisition that waits, if the answer is that it waits. -/
def Acquisition.pending? : Acquisition → Option Pending
  | .ended _ => none
  | .waiting p _ => some p

/-- The notices in the report of a pass, one for each renewal that was tried. -/
def UpkeepReport.notices (r : UpkeepReport) : List Notice :=
  r.renewals.map fun (l, result) ↦ .ofRenewal l.lock l.id result

/-! ### Clusters -/

/-- The store as the coordinators find it during an outage. -/
def Store.outOfReach : Store → Store
  | memory s => memory { s with available := false }
  | table _ => memory { available := false }
  | bare s => bare { s with available := false }

/-- Coordinators that share a store. -/
structure Cluster (ι : Type) where
  /-- The store. -/
  store : Store
  /-- The coordinators. -/
  member : ι → Coordinator
  /-- The acquisitions that wait, each with its coordinator. -/
  pending : LeaseId → Option (ι × Pending) := fun _ ↦ none
  /-- The ids that have been issued. -/
  issued : List LeaseId := []
  /-- Whether the store is out of reach. -/
  outage : Bool := false
  /-- The time. -/
  now : Nat := 0
  /-- The ticks that have passed. -/
  tick : Nat := 0

/-- The calls that clients and operators make, with the milliseconds that pass within them. -/
inductive Call (ι : Type) where
  /-- Ask for a lock. -/
  | acquire (i : ι) (id : LeaseId) (request : LockRequest) (lag : Nat := 0)
  /-- Let an acquisition that waits try again. -/
  | poll (id : LeaseId) (lag : Nat := 0)
  /-- Give up an acquisition that waits. -/
  | cancel (id : LeaseId)
  /-- Release a lease. -/
  | release (i : ι) (lock : LockName) (client : ClientId) (id : LeaseId)
  /-- Renew a lease. -/
  | renew (i : ι) (lock : LockName) (id : LeaseId) (extension : Option Duration) (lag : Nat := 0)
  /-- Make a pass of upkeep. -/
  | upkeep (i : ι) (interval : Duration) (lags : List (Nat × Nat) := [])
  /-- Purge the store. -/
  | purge
  /-- Look at a lock. -/
  | status (i : ι) (lock : LockName) (lag : Nat := 0)
  /-- Look for deadlocks. -/
  | detect (i : ι)
  /-- Forget all leases of a coordinator, as it does when it shuts down. -/
  | clear (i : ι)
  /-- The store goes out of reach or comes back. -/
  | outage (on : Bool)
  /-- Time passes. -/
  | elapse (millis ticks : Nat)

namespace Call

variable {ι : Type}

/-- The milliseconds that pass by the end of the call. -/
def took : Call ι → Nat
  | acquire _ _ _ lag | poll _ lag | renew _ _ _ _ lag | status _ _ lag => lag
  | upkeep _ _ lags => Watch.total lags
  | elapse millis _ => millis
  | _ => 0

/-- If the call grants a lease, the lease counts from at most `d` milliseconds behind the time at
which the store gave its key. -/
def GrantsWithin (d : Nat) : Call ι → Prop
  | acquire _ _ _ lag | poll _ lag => lag ≤ d
  | _ => True

/-- Every renewal that the call makes reaches the store at most `d` milliseconds behind the time at
which it began. -/
def RenewsWithin (d : Nat) : Call ι → Prop
  | renew _ _ _ _ lag => lag ≤ d
  | upkeep _ _ lags => ∀ p ∈ lags, p.2 ≤ d
  | _ => True

end Call

/-- What happens in a cluster. -/
inductive Event (ι : Type) where
  /-- A call is made. -/
  | call (c : Call ι)
  /-- An interrupted operation leaves the registry of a member as `r`. -/
  | disturb (i : ι) (r : Registry) (keyed : r.Keyed)

namespace Cluster

variable {ι : Type} [DecidableEq ι]

/-- The store as the coordinators find it. -/
def reach (f : Cluster ι) : Store := if f.outage then f.store.outOfReach else f.store

/-- The cluster with another coordinator at `i`. -/
def enter (f : Cluster ι) (i : ι) (c : Coordinator) : Cluster ι :=
  { f with member := Function.update f.member i c }

/-- The cluster with another store. -/
def withStore (f : Cluster ι) (s : Store) : Cluster ι := { f with store := s }

/-- The cluster with the registry of the member `i` replaced. -/
def disturb (f : Cluster ι) (i : ι) (r : Registry) : Cluster ι :=
  f.enter i { f.member i with registry := r }

/-- The cluster with the acquisition `id` waiting or not. -/
def await (f : Cluster ι) (id : LeaseId) (p : Option (ι × Pending)) : Cluster ι :=
  { f with pending := Function.update f.pending id p }

/-- The cluster some time later. -/
def pass (f : Cluster ι) (millis ticks : Nat) : Cluster ι :=
  { f with now := f.now + millis, tick := f.tick + ticks }

/-- The cluster with `id` issued. -/
def issue (f : Cluster ι) (id : LeaseId) : Cluster ι := { f with issued := id :: f.issued }

/-- The cluster with the store and the coordinator behind an operation of the member `i`. -/
def put {α : Type} (f : Cluster ι) (i : ι) (o : Outcome α) : Cluster ι :=
  (f.enter i o.coordinator).withStore (if f.outage then f.store else o.store)

/-- The cluster behind a step of the acquisition `id`, which may wait. -/
def answered (f : Cluster ι) (i : ι) (id : LeaseId) (o : Outcome Acquisition) : Cluster ι :=
  (f.put i o).await id (o.answer.pending?.map (i, ·))

/-- A call, with the notices in its answer. -/
def serve (f : Cluster ι) : Call ι → List Notice × Cluster ι
  | .acquire i id request lag =>
    if id ∈ f.issued then ([], f.pass lag lag)
    else
      let o := (f.member i).acquire f.reach f.now f.tick id request lag
      (o.answer.notices, ((f.issue id).answered i id o).pass lag lag)
  | .poll id lag =>
    match f.pending id with
    | none => ([], f.pass lag lag)
    | some (i, p) =>
      let o := (f.member i).poll f.reach f.now f.tick p lag
      (o.answer.notices, (f.answered i id o).pass lag lag)
  | .cancel id =>
    match f.pending id with
    | none => ([], f)
    | some (i, p) => ([], (f.enter i ((f.member i).cancel p)).await id none)
  | .release i lock client id =>
    let o := (f.member i).release f.reach f.now lock client id
    ([.ofRelease lock id o.answer], f.put i o)
  | .renew i lock id extension lag =>
    let o := (f.member i).renew f.reach f.now lock id extension lag
    ([.ofRenewal lock id o.answer], (f.put i o).pass lag lag)
  | .upkeep i interval lags =>
    let o := (f.member i).upkeep f.reach f.now interval lags
    let took := (Call.upkeep i interval lags).took
    let g := (f.put i o).pass took took
    match o.answer with
    | .ok report => (report.notices, g)
    | .error _ => ([], g)
  | .purge =>
    match f.reach.purge f.now with
    | .ok (_, store) => ([], if f.outage then f else f.withStore store)
    | .error _ => ([], f)
  | .status _ _ lag => ([], f.pass lag lag)
  | .detect i => ([], f.enter i ((f.member i).detect f.now).2)
  | .clear i => ([.cleared], f.enter i (f.member i).clear)
  | .outage on => ([], { f with outage := on })
  | .elapse millis ticks => ([], f.pass millis ticks)

/-- An event, with the notices in the answer to the call that it is. -/
def step (f : Cluster ι) : Event ι → List Notice × Cluster ι
  | .call c => f.serve c
  | .disturb i r _ => ([], f.disturb i r)

/-- The history of a run and the cluster at its end. -/
def run (f : Cluster ι) : List (Event ι) → List Notice × Cluster ι
  | [] => ([], f)
  | e :: es =>
    let (n, f) := f.step e
    let (h, f) := f.run es
    (n ++ h, f)

/-- A run that is made of calls only. -/
def runCalls (f : Cluster ι) (calls : List (Call ι)) : List Notice × Cluster ι :=
  f.run (calls.map .call)

/-- A cluster at its start: nothing is kept, known or issued. -/
structure IsStart (f : Cluster ι) : Prop where
  /-- The store has no rows. -/
  row? : ∀ lock, f.store.row? lock = none
  /-- The registries are empty. -/
  registry : ∀ i, (f.member i).registry = {}
  /-- Nobody waits. -/
  pending : ∀ id, f.pending id = none
  /-- No id has been issued. -/
  issued : f.issued = []

/-- Two coordinators with the usual settings over a table. -/
def pair : Cluster Bool := { store := .table {}, member := fun _ ↦ { config := {} } }

/-- Two coordinators over an empty table are at their start. -/
theorem isStart_pair : pair.IsStart :=
  ⟨fun _ ↦ rfl, fun _ ↦ rfl, fun _ ↦ rfl, rfl⟩

/-- One coordinator with the usual settings over memory. -/
def single : Cluster Unit := { store := .memory {}, member := fun _ ↦ { config := {} } }

/-- One coordinator over empty memory is at its start. -/
theorem isStart_single : single.IsStart :=
  ⟨fun _ ↦ rfl, fun _ ↦ rfl, fun _ ↦ rfl, rfl⟩

end Cluster

end LeaseLock
