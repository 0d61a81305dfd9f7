import LeaseLock.Proofs.Cluster.Known
import LeaseLock.Proofs.Cluster.Mirror
import LeaseLock.Proofs.Cluster.Waiting
import LeaseLock.Proofs.Deadlock.Walk

/-!
# No false alarms

When the only coordinator of a store reports a deadlock, there is meant to be one: each client of
the report has an acquisition of its lock that waits, and the lock is owned, in the store and now,
by a lease that was granted to the next client around.

## What carries the proof

Four things come together here. The search finds cycles of its graph only
(`WaitForGraph.isCycle_of_mem_deadlocks`). An edge of the graph is a client on the waiting list and
a lease that has not expired (`Registry.waits_of_edge`). Whoever is on the list waits
(`registered_runCalls`). And a lease that has not expired has the live row of its lock (`Mirrors`),
under an id that was granted to the holder that the registry has for it (`Attributed`).

## Leases that outlast their rows

Only the last of the four depends on how calls are timed. A lease that is dated behind its row
outlasts it, and between the two ends the detector believes in an owner that the store does not have
any more. The client that waits gets the lock when it tries the next time, so the alarm is false
(`Cluster.not_truthful_embrace`). How long renewals take does not matter here: they make the row
outlast the lease, and a lease that the registry lacks is no edge.

What is said about clients that wait holds however calls are timed and however far expiries reach.
-/

namespace LeaseLock

namespace Cluster

variable {b : Lags} {f : Cluster Unit} {h : List Notice} {c d : ClientId} {lock : LockName}

/-- By what the coordinator remembers, the lease `id` has at most `margin` milliseconds left, or it
ends at an instant that is no machine word. -/
def Lapsing (margin : Nat) (f : Cluster Unit) (id : LeaseId) : Prop :=
  ∃ l, f.registry.lease? id = some l ∧ f.now < l.expiresAt ∧
    (l.expiresAt ≤ f.now + margin ∨ wordBound ≤ l.expiresAt)

/-- What the registry knows about an edge of its wait-for graph is true: the client waits for the
lock, and the store attributes the lock to a lease of the other client, if that is not lapsing. -/
theorem exists_of_edge (hregistered : f.Registered) (hm : f.Mirrors b h) (ha : f.Attributed h)
    (hedge : (f.registry.waitForGraph f.now).Edge c lock d) :
    (∃ id p, f.pending id = some ((), p) ∧ p.request.lock = lock ∧ p.request.client = c) ∧
      ∃ l, .granted l ∈ h ∧ l.lock = lock ∧ l.holder = d ∧
        (f.store.owner? f.now lock = some l.id ∨ f.Lapsing b.grant l.id) := by
  obtain ⟨hwaits, k, l, hl, hlive, rfl, rfl⟩ := Registry.waits_of_edge hedge
  refine ⟨hregistered.pending () l.lock c hwaits, ?_⟩
  obtain ⟨l₀, hgranted, rfl, hlock, hholder⟩ := ha.granted () k l hl
  refine ⟨l₀, hgranted, hlock, hholder, ?_⟩
  by_cases hlapsing : l.expiresAt ≤ f.now + b.grant ∨ wordBound ≤ l.expiresAt
  · exact .inr ⟨l, hl, hlive, hlapsing⟩
  · obtain ⟨hleft, hfit⟩ := not_or.1 hlapsing
    rw [Nat.not_le] at hleft hfit
    obtain ⟨x, hrow⟩ := hm.kept l₀.id l hl hfit hleft
    have hahead := (hm.agree l₀.id l x hl hfit hrow).1
    exact .inl (Store.owner?_eq_some_iff.2 ⟨x, hrow, by omega⟩)

/-- What a report says of one of its waits, behind the calls that were made: `c` has asked for
`lock` and waits for it, and the lock is owned by a lease that was granted to `d`, unless that lease
is excused. -/
structure Blocked (excused : Cluster Unit → LeaseId → Prop) (f : Cluster Unit)
    (calls : List (Call Unit)) (c : ClientId) (lock : LockName) (d : ClientId) : Prop where
  /-- The client waits. -/
  waits : ∃ id p, (f.runCalls calls).2.pending id = some ((), p) ∧ f.Asked calls () id p.request ∧
    p.request.lock = lock ∧ p.request.client = c
  /-- The lock is held. -/
  held : ∃ l, .granted l ∈ (f.runCalls calls).1 ∧ l.lock = lock ∧ l.holder = d ∧
    ((f.runCalls calls).2.store.owner? (f.runCalls calls).2.now lock = some l.id ∨
      excused (f.runCalls calls).2 l.id)

/-- Every report that the coordinator makes behind the calls is true, but for excused leases. -/
def Truthful (excused : Cluster Unit → LeaseId → Prop) (f : Cluster Unit)
    (calls : List (Call Unit)) : Prop :=
  ∀ report ∈ (((f.runCalls calls).2.member ()).detect (f.runCalls calls).2.now).1,
    report.locks.length = report.clients.length ∧
    ∀ i c lock d, report.clients[i]? = some c → report.locks[i]? = some lock →
      report.clients[(i + 1) % report.clients.length]? = some d → Blocked excused f calls c lock d

/-- No lease is excused. -/
def NoLease (_ : Cluster Unit) (_ : LeaseId) : Prop := False

/-- A report that calls a free lock held is a false alarm. -/
theorem not_truthful_of_free {calls : List (Call Unit)} (report : DeadlockReport)
    (hreport : report ∈ (((f.runCalls calls).2.member ()).detect (f.runCalls calls).2.now).1)
    (i : Nat) (hc : report.clients[i]? = some c) (hlock : report.locks[i]? = some lock)
    (hd : report.clients[(i + 1) % report.clients.length]? = some d)
    (hfree : (f.runCalls calls).2.store.owner? (f.runCalls calls).2.now lock = none) :
    ¬ Truthful NoLease f calls := by
  intro htruthful
  obtain ⟨l, -, -, -, howner | hnone⟩ := ((htruthful report hreport).2 i c lock d hc hlock hd).held
  · rw [hfree] at howner
    cases howner
  · exact hnone

theorem truthful_runCalls (hstart : f.IsStart) (calls : List (Call Unit))
    (hcalls : ∀ c ∈ calls, c.Within b) : Truthful (Lapsing b.grant) f calls := by
  intro report hreport
  have hcycle := WaitForGraph.isCycle_of_mem_deadlocks hreport
  refine ⟨hcycle.length_eq, fun i c lock d hc hlock hd ↦ ?_⟩
  obtain ⟨⟨id, p, hp, hplock, hpclient⟩, hheld⟩ :=
    exists_of_edge (registered_runCalls hstart calls) (mirrors_runCalls hstart calls hcalls)
      (attributed_runCalls hstart calls).2 (hcycle.edge i c lock d hc hlock hd)
  exact ⟨⟨id, p, hp, (pending_asked hstart calls hp).1, hplock, hpclient⟩, hheld⟩

/-- Without a margin, a lease that is lapsing has overflowed. -/
theorem not_lapsing_zero (ha : f.Attributed h) (hfits : ∀ n ∈ h, n.Fits) (id : LeaseId) :
    ¬ f.Lapsing 0 id := by
  rintro ⟨l, hl, hlive, hlapsing⟩
  have hfit : l.expiresAt < wordBound := ha.lt_wordBound hfits hl
  omega

/-- Two clients hold a lock each and ask for the other one. The lease of the first one is dated
some time behind its row, which expires as the run ends. -/
def embrace (lag : Nat) : List (Call Unit) :=
  [.acquire () "a" { lock := "K", client := "x", ttl := some (.ofMillis 100) } lag,
   .elapse (90 - lag) (90 - lag), .acquire () "b" { lock := "L", client := "y" },
   .acquire () "c" { lock := "L", client := "x", wait := .ofSecs 60 },
   .acquire () "d" { lock := "K", client := "y", wait := .ofSecs 60 }, .elapse 10 10]

/-- **No false alarm.** If leases are dated within `b.grant` milliseconds, every client of every
report waits for its lock, and the lock is owned by a lease that was granted to the next client
around, or that lease is lapsing. It is owned in every run without an overflow if and only if leases
are dated at once. -/
theorem no_false_alarm (b : Lags) :
    (∀ f : Cluster Unit, f.IsStart → ∀ calls : List (Call Unit), (∀ c ∈ calls, c.Within b) →
      Truthful (Lapsing b.grant) f calls) ∧
    ((∀ f : Cluster Unit, f.IsStart → ∀ calls : List (Call Unit), (∀ c ∈ calls, c.Within b) →
      (∀ n ∈ (f.runCalls calls).1, n.Fits) → Truthful NoLease f calls) ↔ b.grant = 0) := by
  refine ⟨fun f hstart calls hcalls ↦ truthful_runCalls hstart calls hcalls, fun hexact ↦ ?_, ?_⟩
  · by_contra hgrant
    -- One millisecond behind its row, a lease is an edge that the store does not have.
    have hcalls : ∀ c ∈ embrace 1, c.Within b := by
      simp only [embrace, List.mem_cons, List.not_mem_nil, or_false]
      rintro c (rfl | rfl | rfl | rfl | rfl | rfl)
      · exact ⟨Nat.pos_of_ne_zero hgrant, trivial⟩
      · exact ⟨trivial, trivial⟩
      · exact ⟨Nat.zero_le _, trivial⟩
      · exact ⟨Nat.zero_le _, trivial⟩
      · exact ⟨Nat.zero_le _, trivial⟩
      · exact ⟨trivial, trivial⟩
    refine not_truthful_of_free ⟨["x", "y"], ["L", "K"], 100⟩ (by decide) 1 rfl rfl rfl ?_
      (hexact single isStart_single (embrace 1) hcalls (by decide))
    decide
  · intro hgrant f hstart calls hcalls hfits report hreport
    have htruth := truthful_runCalls hstart calls hcalls report hreport
    refine ⟨htruth.1, fun i c lock d hc hlock hd ↦ ?_⟩
    obtain ⟨hwaits, l, hl, hlock', hholder, howner⟩ := htruth.2 i c lock d hc hlock hd
    refine ⟨hwaits, l, hl, hlock', hholder, .inl (howner.resolve_right ?_)⟩
    rw [hgrant]
    exact not_lapsing_zero (attributed_runCalls hstart calls).2 hfits l.id

-- Nothing is reported at that instant if the lease is dated at once.
example : (((single.runCalls (embrace 0)).2.member ()).detect 100).1 = [] := by decide

/-- A lease that is dated five milliseconds late is reported as the owner of a lock that is free. -/
theorem not_truthful_embrace : single.IsStart ∧
    (∀ n ∈ (single.runCalls (embrace 5)).1, n.Fits) ∧ ¬ Truthful NoLease single (embrace 5) :=
  ⟨isStart_single, by decide,
    not_truthful_of_free ⟨["x", "y"], ["L", "K"], 100⟩ (by decide) 1 rfl rfl rfl (by decide)⟩

end Cluster

end LeaseLock
