import LeaseLock.Coordinator.Upkeep
import LeaseLock.Proofs.Coordinator.Waiters
import LeaseLock.Proofs.Store.Reach

/-!
# What the operations of a coordinator leave behind

Asking for a lock ends at once, in vain or with a lease, or it turns into a wait, which sleeps or is
over as soon as it has begun (`Coordinator.acquire_cases`). A try of an acquisition that waits goes
back to sleep, ends in vain or ends with a lease (`Coordinator.poll_cases`). Each case says what is
answered, what is left in the store and what the coordinator remembers, so nothing else about
asking and trying needs to be looked up again.

On every way out of a wait the registration goes as it does when the acquisition is given up
(`Coordinator.cancel`), and a lease is entered behind that.

Releasing, renewing and upkeep touch what is remembered of leases and nothing else
(`Coordinator.OnlyLeases`). No operation takes a store out of reach.

## One inversion for each operation

The inversions give the whole outcome in each case as one equation. A proof about an operation
splits into their cases, rewrites with the equation, and has the answer, the store and the
coordinator at hand together. They say of the store what it did for the call and no more, as the
success of a call to it: what that success means for its rows is for `Store.take_spec` and its
companions to say.

Why an operation has failed is left open in the cases, as some fault. Where the fault matters it is
read off the definition.

## The clock of a pass

A pass reads the clock again and again, and its renewals run at later and later times. What the
clock shows behind some of them precedes what it shows in the end (`Watch.Precedes`). The relation
carries the lags that are still to come, so a bound on all of them is one on the next of them.
-/

namespace LeaseLock

/-! ### The clock in the course of a pass -/

namespace Watch

variable {w w' w'' : Watch}

/-- What the clock shows in the end. -/
def last (w : Watch) : Nat := w.now + total w.lags

/-- The clock has moved on as it was bound to. -/
structure Precedes (w w' : Watch) : Prop where
  /-- It has not gone back. -/
  now_le : w.now ≤ w'.now
  /-- It will show the same in the end. -/
  last_eq : w'.last = w.last
  /-- Nothing was added to what is to come. -/
  lags : w'.lags ⊆ w.lags

theorem Precedes.refl (w : Watch) : w.Precedes w := ⟨Nat.le_refl _, rfl, fun _ h ↦ h⟩

theorem Precedes.trans (h : w.Precedes w') (h' : w'.Precedes w'') : w.Precedes w'' :=
  ⟨Nat.le_trans h.now_le h'.now_le, h'.last_eq.trans h.last_eq, fun _ hp ↦ h.lags (h'.lags hp)⟩

/-- A renewal does not begin before the one before it has ended. -/
theorem now_le_start (w : Watch) : w.now ≤ w.start := Nat.le_add_right _ _

/-- No clock shows more than in the end. -/
theorem now_le_last (w : Watch) : w.now ≤ w.last := Nat.le_add_right _ _

/-- A renewal moves the clock on. -/
theorem precedes_next (w : Watch) : w.Precedes w.next := by
  obtain ⟨now, lags⟩ := w
  cases lags with
  | nil => exact ⟨Nat.le_refl _, rfl, fun _ h ↦ h⟩
  | cons p lags =>
    refine ⟨Nat.le_trans (now_le_start _) (Nat.le_add_right _ _), ?_, List.subset_cons_self _ _⟩
    simp only [last, next, start, pause, lag, List.headD_cons, List.tail_cons, total]
    omega

/-- A renewal is over in time. -/
theorem start_add_lag_le_last (w : Watch) : w.start + w.lag ≤ w.last :=
  w.precedes_next.last_eq ▸ w.next.now_le_last

/-- What passes within a renewal is among what was to pass. -/
theorem lag_le {d : Nat} (h : ∀ p ∈ w.lags, p.2 ≤ d) : w.lag ≤ d := by
  obtain ⟨now, lags⟩ := w
  cases lags with
  | nil => exact Nat.zero_le d
  | cons p lags => exact h p List.mem_cons_self

end Watch

namespace Coordinator

variable {c : Coordinator} {s : Store} {now tick : Nat} {id : LeaseId} {request : LockRequest}
  {p : Pending}

/-! ### Acquisitions -/

/-- The acquisition that a request turns into if it has to wait. -/
def pendingFor (c : Coordinator) (tick : Nat) (id : LeaseId) (request : LockRequest) : Pending where
  request := request
  id := id
  ttl := c.config.ttlFor request.ttl
  wait := .begin c.timing tick request.wait c.config.pollPeriod

/-- The coordinator with a client registered as waiting. -/
def enlist (c : Coordinator) (request : LockRequest) : Coordinator :=
  { c with registry := c.registry.enlist request.lock request.client }

/-- Going on between two tries of a wait. -/
theorem proceed_resume (c : Coordinator) (now : Nat) (p : Pending) (w : Wait) (tick : Nat) :
    (∃ wake, c.proceed now p (w.resume tick) = (.waiting p wake, c)) ∨
      ∃ fault, c.proceed now p (w.resume tick) = (.ended (.error fault), c.cancel p) := by
  rw [Wait.resume]
  split
  · exact .inr ⟨_, rfl⟩
  · exact .inl ⟨_, rfl⟩

/-- Asking for a lock ends in vain at once, or with a lease at once, or it begins a wait that
sleeps, or one that is over already. -/
theorem acquire_cases (c : Coordinator) (s : Store) (now tick : Nat) (id : LeaseId)
    (request : LockRequest) (lag : Nat) :
    (∃ fault, c.acquire s now tick id request lag = ⟨.ended (.error fault), s, c⟩) ∨
    (∃ s', s.take now request.lock id (c.config.ttlFor request.ttl) = .ok (true, s') ∧
      c.acquire s now tick id request lag =
        ⟨.ended (.ok (c.grant (now + lag) request id (c.config.ttlFor request.ttl)).1), s',
          (c.grant (now + lag) request id (c.config.ttlFor request.ttl)).2⟩) ∨
    (∃ wake, c.acquire s now tick id request lag =
      ⟨.waiting (c.pendingFor (tick + lag) id request) wake, s, c.enlist request⟩) ∨
    ∃ fault, c.acquire s now tick id request lag =
      ⟨.ended (.error fault), s,
        (c.enlist request).cancel (c.pendingFor (tick + lag) id request)⟩ := by
  rw [acquire]
  split
  · exact .inl ⟨_, rfl⟩
  split
  · exact .inl ⟨_, rfl⟩
  dsimp only
  cases htake : s.take now request.lock id (c.config.ttlFor request.ttl) with
  | error fault => exact .inl ⟨_, rfl⟩
  | ok r =>
    obtain ⟨b, s'⟩ := r
    cases b with
    | true => exact .inr (.inl ⟨s', rfl, rfl⟩)
    | false =>
      obtain ⟨rfl, -⟩ := Store.take_spec htake
      dsimp only
      split
      · exact .inl ⟨_, rfl⟩
      · let p := c.pendingFor (tick + lag) id request
        obtain ⟨wake, hsleep⟩ | ⟨fault, hstop⟩ :=
          (c.enlist request).proceed_resume (now + lag) p p.wait (tick + lag)
        · refine .inr (.inr (.inl ⟨wake, ?_⟩))
          exact congrArg (fun r : Acquisition × Coordinator ↦ Outcome.mk r.1 s' r.2) hsleep
        · refine .inr (.inr (.inr ⟨fault, ?_⟩))
          exact congrArg (fun r : Acquisition × Coordinator ↦ Outcome.mk r.1 s' r.2) hstop

/-- Asking for a lock whose key can be taken ends with a lease. -/
theorem acquire_of_take {s' : Store} (lag : Nat) (hlock : request.lock ≠ "")
    (hclient : request.client ≠ "")
    (htake : s.take now request.lock id (c.config.ttlFor request.ttl) = .ok (true, s')) :
    c.acquire s now tick id request lag =
      ⟨.ended (.ok (c.grant (now + lag) request id (c.config.ttlFor request.ttl)).1), s',
        (c.grant (now + lag) request id (c.config.ttlFor request.ttl)).2⟩ := by
  rw [acquire, if_neg hlock, if_neg hclient]
  simp only [htake]

/-- A try of an acquisition that waits goes back to sleep, or ends in vain, or ends with a lease. -/
theorem poll_cases (c : Coordinator) (s : Store) (now tick : Nat) (p : Pending) (lag : Nat) :
    (∃ wake, c.poll s now tick p lag = ⟨.waiting p wake, s, c⟩) ∨
    (∃ fault, c.poll s now tick p lag = ⟨.ended (.error fault), s, c.cancel p⟩) ∨
    ∃ s', s.take now p.request.lock p.id p.ttl = .ok (true, s') ∧
      c.poll s now tick p lag =
        ⟨.ended (.ok ((c.cancel p).grant (now + lag) p.request p.id p.ttl).1), s',
          ((c.cancel p).grant (now + lag) p.request p.id p.ttl).2⟩ := by
  rw [poll]
  cases htake : s.take now p.request.lock p.id p.ttl with
  | error fault => exact .inr (.inl ⟨_, rfl⟩)
  | ok r =>
    obtain ⟨b, s'⟩ := r
    cases b with
    | true => exact .inr (.inr ⟨s', rfl, rfl⟩)
    | false =>
      obtain ⟨rfl, -⟩ := Store.take_spec htake
      obtain ⟨wake, hsleep⟩ | ⟨fault, hstop⟩ := c.proceed_resume (now + lag) p p.wait (tick + lag)
      · refine .inl ⟨wake, ?_⟩
        exact congrArg (fun r : Acquisition × Coordinator ↦ Outcome.mk r.1 s' r.2) hsleep
      · refine .inr (.inl ⟨fault, ?_⟩)
        exact congrArg (fun r : Acquisition × Coordinator ↦ Outcome.mk r.1 s' r.2) hstop

/-! ### Operations on leases -/

variable {c' c'' : Coordinator}

/-- The coordinators differ at most in what they remember of leases. -/
structure OnlyLeases (c c' : Coordinator) : Prop where
  /-- The settings are the same. -/
  config : c'.config = c.config
  /-- They are timed in the same way. -/
  timing : c'.timing = c.timing
  /-- The same clients wait. -/
  waiting : c'.registry.waiting = c.registry.waiting

theorem OnlyLeases.refl (c : Coordinator) : c.OnlyLeases c := ⟨rfl, rfl, rfl⟩

theorem OnlyLeases.trans (h : c.OnlyLeases c') (h' : c'.OnlyLeases c'') : c.OnlyLeases c'' :=
  ⟨h'.config.trans h.config, h'.timing.trans h.timing, h'.waiting.trans h.waiting⟩

/-- Forgetting a lease touches leases only. -/
theorem onlyLeases_remove (c : Coordinator) (id : LeaseId) (lock : LockName) (client : ClientId) :
    c.OnlyLeases { c with registry := c.registry.remove id lock client } :=
  ⟨rfl, rfl, rfl⟩

/-- A grant touches leases only. The registration has gone before. -/
theorem onlyLeases_grant (c : Coordinator) (now : Nat) (request : LockRequest) (id : LeaseId)
    (ttl : Duration) : c.OnlyLeases (c.grant now request id ttl).2 :=
  ⟨rfl, rfl, Registry.waiting_insert⟩

/-- Noting a renewal touches leases only. -/
theorem onlyLeases_noteRenewal (c : Coordinator) (id : LeaseId) (target : Nat) :
    c.OnlyLeases (c.noteRenewal id target).2 := by
  rw [noteRenewal]
  refine ⟨?_, ?_, ?_⟩
  · split <;> rfl
  · split <;> rfl
  · have hwaiting : (c.registry.noteRenewal id target).1.waiting = c.registry.waiting :=
      Registry.waiting_noteRenewal
    split <;> next hnote =>
      rw [hnote] at hwaiting
      exact hwaiting

/-- A release fails and changes nothing, or it frees the key and the lease is forgotten. -/
theorem release_cases (c : Coordinator) (s : Store) (now : Nat) (lock : LockName)
    (client : ClientId) (id : LeaseId) :
    (∃ fault, c.release s now lock client id = ⟨.error fault, s, c⟩) ∨
    ∃ s', s.free now lock id = .ok (true, s') ∧
      c.release s now lock client id =
        ⟨.ok (), s', { c with registry := c.registry.remove id lock client }⟩ := by
  rw [release]
  cases hfree : s.free now lock id with
  | error fault => exact .inl ⟨_, rfl⟩
  | ok r =>
    obtain ⟨b, s'⟩ := r
    cases b with
    | true => exact .inr ⟨s', rfl, rfl⟩
    | false =>
      obtain ⟨rfl, -⟩ := Store.free_spec hfree
      exact .inl ⟨_, rfl⟩

/-- A release touches leases only, if anything. -/
theorem onlyLeases_release (c : Coordinator) (s : Store) (now : Nat) (lock : LockName)
    (client : ClientId) (id : LeaseId) :
    c.OnlyLeases (c.release s now lock client id).coordinator := by
  obtain ⟨fault, ho⟩ | ⟨s', -, ho⟩ := c.release_cases s now lock client id
  · rw [ho]
    exact .refl c
  · rw [ho]
    exact c.onlyLeases_remove id lock client

/-- A renewal fails and changes nothing, or it extends the key and is noted. -/
theorem renew_cases (c : Coordinator) (s : Store) (now : Nat) (lock : LockName) (id : LeaseId)
    (extension : Option Duration) (lag : Nat) :
    (∃ fault, c.renew s now lock id extension lag = ⟨.error fault, s, c⟩) ∨
    ∃ s', s.extend (now + lag) lock id (.ofMillis (c.renewalEnd now id extension - now)) =
        .ok (true, s') ∧
      c.renew s now lock id extension lag =
        ⟨.ok (c.noteRenewal id (c.renewalEnd now id extension)).1, s',
          (c.noteRenewal id (c.renewalEnd now id extension)).2⟩ := by
  rw [renew]
  dsimp only
  cases hextend : s.extend (now + lag) lock id
    (.ofMillis (c.renewalEnd now id extension - now)) with
  | error fault => exact .inl ⟨_, rfl⟩
  | ok r =>
    obtain ⟨b, s'⟩ := r
    cases b with
    | true => exact .inr ⟨s', rfl, rfl⟩
    | false =>
      obtain ⟨rfl, -⟩ := Store.extend_spec hextend
      exact .inl ⟨_, rfl⟩

/-- A renewal touches leases only, if anything. -/
theorem onlyLeases_renew (c : Coordinator) (s : Store) (now : Nat) (lock : LockName)
    (id : LeaseId) (extension : Option Duration) (lag : Nat) :
    c.OnlyLeases (c.renew s now lock id extension lag).coordinator := by
  obtain ⟨fault, ho⟩ | ⟨s', -, ho⟩ := c.renew_cases s now lock id extension lag
  · rw [ho]
    exact .refl c
  · rw [ho]
    exact c.onlyLeases_noteRenewal id _

/-- One candidate of a pass touches leases only. -/
theorem onlyLeases_renewDue (now lag : Nat) (o : Outcome UpkeepReport) (l : Lease) :
    o.coordinator.OnlyLeases (renewDue now lag o l).coordinator := by
  have hrenew := o.coordinator.onlyLeases_renew o.store now l.lock l.id none lag
  rw [renewDue]
  dsimp only
  split
  · exact hrenew.trans (onlyLeases_remove _ l.id l.lock l.holder)
  · exact hrenew

/-- All candidates of a pass touch leases only. -/
theorem onlyLeases_renewAll (w : Watch) (ls : List Lease) (o : Outcome UpkeepReport) :
    o.coordinator.OnlyLeases (renewAll w o ls).2.coordinator := by
  induction ls generalizing w o with
  | nil => exact .refl _
  | cons l ls ih => exact (onlyLeases_renewDue _ _ o l).trans (ih _ _)

/-- The candidates of a pass move the clock on. -/
theorem precedes_renewAll (w : Watch) (ls : List Lease) (o : Outcome UpkeepReport) :
    w.Precedes (renewAll w o ls).1 := by
  induction ls generalizing w o with
  | nil => exact .refl w
  | cons l ls ih => exact w.precedes_next.trans (ih _ _)

/-- Renewing candidates one after another can be interrupted. -/
theorem renewAll_append (w : Watch) (o : Outcome UpkeepReport) (ls ls' : List Lease) :
    renewAll w o (ls ++ ls') = renewAll (renewAll w o ls).1 (renewAll w o ls).2 ls' := by
  induction ls generalizing w o with
  | nil => rfl
  | cons l ls ih => exact ih _ _

/-- While the clock stands still, the candidates are renewed at one time. -/
theorem renewAll_still (now : Nat) (ls : List Lease) (o : Outcome UpkeepReport) :
    renewAll ⟨now, []⟩ o ls = (⟨now, []⟩, ls.foldl (renewDue now 0) o) := by
  induction ls generalizing o with
  | nil => rfl
  | cons l ls ih => exact ih _

/-- The purge at the end of a pass is not the coordinator's. -/
theorem coordinator_purgeAfter (now : Nat) (o : Outcome UpkeepReport) :
    (purgeAfter now o).coordinator = o.coordinator := by
  rw [purgeAfter]
  split <;> rfl

/-- **A pass touches leases only.** No client stops to wait for it, and nothing is reported. -/
theorem onlyLeases_upkeep (c : Coordinator) (s : Store) (now : Nat) (interval : Duration)
    (lags : List (Nat × Nat)) : c.OnlyLeases (c.upkeep s now interval lags).coordinator := by
  have hprune : c.OnlyLeases { c with registry := (c.registry.prune now).1 } :=
    ⟨rfl, rfl, Registry.waiting_prune⟩
  rw [upkeep]
  dsimp only
  split
  · exact hprune
  · rw [coordinator_purgeAfter]
    exact hprune.trans (onlyLeases_renewAll _ _ ⟨_, s, _⟩)

/-! ### The reach of the store -/

/-- Asking for a lock leaves the store within reach or out of it. -/
theorem ping_acquire (c : Coordinator) (s : Store) (now tick : Nat) (id : LeaseId)
    (request : LockRequest) (lag : Nat) :
    (c.acquire s now tick id request lag).store.ping = s.ping := by
  obtain ⟨fault, ho⟩ | ⟨s', htake, ho⟩ | ⟨wake, ho⟩ | ⟨fault, ho⟩ :=
    c.acquire_cases s now tick id request lag
  · rw [ho]
  · rw [ho]
    exact Store.ping_take htake
  · rw [ho]
  · rw [ho]

/-- So does another try. -/
theorem ping_poll (c : Coordinator) (s : Store) (now tick : Nat) (p : Pending)
    (lag : Nat) : (c.poll s now tick p lag).store.ping = s.ping := by
  obtain ⟨wake, ho⟩ | ⟨fault, ho⟩ | ⟨s', htake, ho⟩ := c.poll_cases s now tick p lag
  · rw [ho]
  · rw [ho]
  · rw [ho]
    exact Store.ping_take htake

/-- So does a release. -/
theorem ping_release (c : Coordinator) (s : Store) (now : Nat) (lock : LockName)
    (client : ClientId) (id : LeaseId) :
    (c.release s now lock client id).store.ping = s.ping := by
  rw [release]
  split
  · rfl
  · next hfree => exact Store.ping_free hfree
  · next hfree => exact Store.ping_free hfree

/-- So does a renewal. -/
theorem ping_renew (c : Coordinator) (s : Store) (now : Nat) (lock : LockName) (id : LeaseId)
    (extension : Option Duration) (lag : Nat) :
    (c.renew s now lock id extension lag).store.ping = s.ping := by
  obtain ⟨fault, ho⟩ | ⟨s', hextend, ho⟩ := c.renew_cases s now lock id extension lag
  · rw [ho]
  · rw [ho]
    exact Store.ping_extend hextend

/-- So do all the renewals of a pass. -/
theorem ping_renewAll (w : Watch) (ls : List Lease) (o : Outcome UpkeepReport) :
    (renewAll w o ls).2.store.ping = o.store.ping := by
  induction ls generalizing w o with
  | nil => rfl
  | cons l ls ih =>
    rw [renewAll, ih]
    exact ping_renew o.coordinator o.store _ l.lock l.id none _

/-- So does a pass. -/
theorem ping_upkeep (c : Coordinator) (s : Store) (now : Nat) (interval : Duration)
    (lags : List (Nat × Nat)) : (c.upkeep s now interval lags).store.ping = s.ping := by
  rw [upkeep]
  dsimp only
  split
  · rfl
  · have hcandidates := ping_renewAll ⟨now, lags⟩
    rw [purgeAfter]
    split
    · next hpurge => exact (Store.ping_purge hpurge).trans (hcandidates _ ⟨_, s, _⟩)
    · exact hcandidates _ ⟨_, s, _⟩

end Coordinator

end LeaseLock
