import LeaseLock.Coordinator.Basic

/-!
# Upkeep

A pass of upkeep does the housekeeping of a coordinator: it forgets the expired leases that nobody
renews, renews for the default length every lease that is to be kept alive and has less than two
intervals left, forgets those that the store no longer attributes to their holder, and purges the
store. A lease whose renewal fails because the store is out of reach stays for the next pass.

The pass cannot be made with an interval of which twice the length is no duration; it stops then,
with only the expired leases forgotten.

A pass reads the wall clock again and again: once for what has expired and is due, twice for each
renewal, and once for the purge. A `Watch` has what the clock shows and how it moves on from one
reading to the next.
-/

namespace LeaseLock

/-- What a pass makes of a lease that it tried to renew. -/
inductive Verdict where
  /-- The lease is renewed. -/
  | renewed
  /-- The store does not attribute the lock to the lease, which is forgotten. -/
  | dropped
  /-- The store failed, and the lease stays for the next pass. -/
  | failed
deriving DecidableEq, Repr

/-- What a pass makes of the outcome of a renewal. -/
def Verdict.ofRenewal : Except LockFault Renewal → Verdict
  | .ok _ => renewed
  | .error (.notOwner _) => dropped
  | .error _ => failed

/-- What a pass did. -/
structure UpkeepReport where
  /-- The expired leases that it forgot. -/
  pruned : List Lease := []
  /-- The leases that it tried to renew, in order, each as it was before, with what came of it. -/
  renewals : List (Lease × Except LockFault Renewal) := []
  /-- How many expired keys it deleted from the store. -/
  purged : Nat := 0

namespace UpkeepReport

/-- How many renewals had the given verdict. -/
def count (r : UpkeepReport) (v : Verdict) : Nat :=
  r.renewals.countP fun (_, result) ↦ Verdict.ofRenewal result = v

end UpkeepReport

/-- A pass was asked for with an interval that cannot be doubled. -/
inductive UpkeepFault where
  /-- Twice the interval is no duration. -/
  | intervalTooLong
deriving DecidableEq, Repr

/-- The wall clock in the course of a pass. -/
structure Watch where
  /-- What it shows. -/
  now : Nat
  /-- The milliseconds that pass before each further renewal, and those that pass within it, between
  its two readings. When they are used up, the clock stands still. -/
  lags : List (Nat × Nat) := []
deriving DecidableEq, Repr

namespace Watch

/-- The milliseconds that pass before the next renewal. -/
def pause (w : Watch) : Nat := (w.lags.headD (0, 0)).1

/-- The milliseconds that pass within the next renewal. -/
def lag (w : Watch) : Nat := (w.lags.headD (0, 0)).2

/-- When the next renewal begins, or the purge if there is none. -/
def start (w : Watch) : Nat := w.now + w.pause

/-- The clock behind the next renewal. -/
def next (w : Watch) : Watch := ⟨w.start + w.lag, w.lags.tail⟩

/-- The milliseconds that pass in the course of a pass. -/
def total : List (Nat × Nat) → Nat
  | [] => 0
  | (pause, lag) :: lags => pause + lag + total lags

end Watch

namespace Coordinator

/-- The leases that are to be kept alive and have less than `window` milliseconds left, in the order
in which they were granted. -/
def dueForRenewal (c : Coordinator) (now window : Nat) : List Lease :=
  c.leases.filter fun l ↦ l.autoRenew && decide (l.remaining now < window)

/-- Renew one candidate, and forget it if that is refused. -/
def renewDue (now lag : Nat) (o : Outcome UpkeepReport) (l : Lease) : Outcome UpkeepReport :=
  let ⟨result, store, c⟩ := o.coordinator.renew o.store now l.lock l.id none lag
  let registry :=
    if Verdict.ofRenewal result = .dropped then c.registry.remove l.id l.lock l.holder
    else c.registry
  ⟨{ o.answer with renewals := o.answer.renewals ++ [(l, result)] }, store, { c with registry }⟩

/-- Renew the candidates one after another. -/
def renewAll (w : Watch) (o : Outcome UpkeepReport) : List Lease → Watch × Outcome UpkeepReport
  | [] => (w, o)
  | l :: ls => renewAll w.next (renewDue w.start w.lag o l) ls

/-- Purge the store at the end of a pass. -/
def purgeAfter (now : Nat) (o : Outcome UpkeepReport) : Outcome UpkeepReport :=
  match o.store.purge now with
  | .ok (n, store) => { o with answer := { o.answer with purged := n }, store }
  | .error _ => o

/-- Make a pass of upkeep. -/
def upkeep (c : Coordinator) (store : Store) (now : Nat) (interval : Duration)
    (lags : List (Nat × Nat) := []) : Outcome (Except UpkeepFault UpkeepReport) :=
  let (registry, pruned) := c.registry.prune now
  let c := { c with registry }
  match interval.double? with
  | none => ⟨.error .intervalTooLong, store, c⟩
  | some window =>
    let candidates := c.dueForRenewal now window.wholeMillis
    let (w, o) := renewAll ⟨now, lags⟩ ⟨{ pruned }, store, c⟩ candidates
    let o := purgeAfter w.start o
    ⟨.ok o.answer, o.store, o.coordinator⟩

end Coordinator

end LeaseLock
