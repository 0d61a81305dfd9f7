import LeaseLock.Proofs.Coordinator.Operations

/-!
# Who waits is not looked at

A coordinator writes down which clients wait through it, and looks at that only when somebody asks
for it or looks for deadlocks. Whatever is written there, asking for locks, trying again, releasing,
renewing and upkeep give the same answers and leave the same leases and the same store
(`Coordinator.acquire_withWaiting` and the lemmas beside it).

An operation that ends in vain leaves no other trace than that: a release or a renewal that fails
changes nothing at all (`Coordinator.release_of_error`, `Coordinator.renew_of_error`), and an
acquisition that gets no lock changes at most who waits (`Coordinator.acquire_in_vain`,
`Coordinator.poll_in_vain`).

## The shape of the statements

Each operation is compared with itself on a coordinator in which the waiting clients have been
replaced (`Coordinator.withWaiting`). Operations on leases commute with the replacement, so they are
equations with the same map on both sides. Operations that note or dismiss a client do so in
different maps and leave different ones, so for them there is some map behind the operation; which
one does not matter, since it is replaced at will.

Both kinds of statement compose, which the equation does by rewriting and the existential by naming
the map. A pass of upkeep is a loop over operations on leases, and the equation goes through the
loop by induction on the candidates.

## What is used of it

Leaving a call out of a run that changes at most who waits leads to a run that is the same but for
who waits. The lemmas of the last section say which calls these are, and the others say that the
rest of the run goes on as before.
-/

namespace LeaseLock

/-! ### Other waiting clients -/

namespace Registry

variable {r : Registry} {w : Dict Names}

/-- The registry with `w` as the clients that wait. -/
def withWaiting (r : Registry) (w : Dict Names) : Registry := { r with waiting := w }

/-- Forgetting leases commutes with the replacement. -/
theorem foldl_remove_withWaiting {α : Type} (idOf : α → LeaseId) (lockOf : α → LockName)
    (clientOf : α → ClientId) (xs : List α) (r : Registry) :
    xs.foldl (fun r x ↦ r.remove (idOf x) (lockOf x) (clientOf x)) (r.withWaiting w) =
      (xs.foldl (fun r x ↦ r.remove (idOf x) (lockOf x) (clientOf x)) r).withWaiting w := by
  induction xs generalizing r with
  | nil => rfl
  | cons x xs ih => exact ih (r.remove (idOf x) (lockOf x) (clientOf x))

/-- A grant commutes with the replacement. -/
theorem insert_withWaiting (l : Lease) :
    (r.withWaiting w).insert l = (r.insert l).withWaiting w := by
  have hstale := foldl_remove_withWaiting (w := w) (fun g : Grant ↦ g.lease.id) (fun _ ↦ l.lock)
    (fun g ↦ g.lease.holder) (r.granted.values.filter fun g ↦ g.lease.lock == l.lock) r
  rw [insert, insert]
  simp only [show (r.withWaiting w).granted = r.granted from rfl, hstale]
  rfl

/-- A renewal commutes with the replacement, and is told the same of the lease. -/
theorem noteRenewal_withWaiting (id : LeaseId) (target : Nat) :
    (r.withWaiting w).noteRenewal id target =
      ((r.noteRenewal id target).1.withWaiting w, (r.noteRenewal id target).2) := by
  rw [noteRenewal, noteRenewal, show (r.withWaiting w).granted = r.granted from rfl]
  cases r.granted.get? id <;> rfl

/-- Pruning commutes with the replacement, and forgets the same leases. -/
theorem prune_withWaiting (now : Nat) :
    (r.withWaiting w).prune now = ((r.prune now).1.withWaiting w, (r.prune now).2) := by
  rw [prune, prune]
  exact congrArg (·, _) (foldl_remove_withWaiting _ _ _ _ r)

end Registry

namespace Coordinator

/-- The coordinator with `w` as the clients that wait. -/
def withWaiting (c : Coordinator) (w : Dict Names) : Coordinator :=
  { c with registry := c.registry.withWaiting w }

end Coordinator

/-- The outcome with `w` as the clients that wait. -/
def Outcome.withWaiting {α : Type} (o : Outcome α) (w : Dict Names) : Outcome α :=
  { o with coordinator := o.coordinator.withWaiting w }

namespace Coordinator

/-! ### Acquisitions -/

/-- The same lease is granted whoever waits. -/
theorem grant_withWaiting (c : Coordinator) (w : Dict Names) (now : Nat) (request : LockRequest)
    (id : LeaseId) (ttl : Duration) :
    (c.withWaiting w).grant now request id ttl =
      ((c.grant now request id ttl).1, (c.grant now request id ttl).2.withWaiting w) := by
  rw [grant, grant]
  exact congrArg (fun r ↦ (_, { c with registry := r })) (Registry.insert_withWaiting _)

/-- Ending a wait depends on nothing that is written down. -/
theorem settle_withWaiting (c : Coordinator) (w : Dict Names) (now : Nat) (p : Pending)
    (how : WaitEnd) :
    ∃ w', (c.withWaiting w).settle now p how =
      ((c.settle now p how).1, (c.settle now p how).2.withWaiting w') := by
  rw [settle, settle]
  cases how with
  | timedOut waited | failed fault => exact ⟨_, rfl⟩
  | acquired =>
    let w' := ((c.withWaiting w).cancel p).registry.waiting
    have hgrant := (c.cancel p).grant_withWaiting w' now p.request p.id p.ttl
    exact ⟨w', congrArg (fun r : Lease × Coordinator ↦ (Except.ok r.1, r.2)) hgrant⟩

/-- A wait goes on or ends in the same way. -/
theorem proceed_withWaiting (c : Coordinator) (w : Dict Names) (now : Nat) (p : Pending)
    (step : WaitStep) :
    ∃ w', (c.withWaiting w).proceed now p step =
      ((c.proceed now p step).1, (c.proceed now p step).2.withWaiting w') := by
  cases step with
  | sleep wake => exact ⟨w, rfl⟩
  | stop how =>
    obtain ⟨w', hsettle⟩ := c.settle_withWaiting w now p how
    rw [proceed, proceed, hsettle]
    exact ⟨w', rfl⟩

/-- **Asking for a lock** is answered the same whoever waits, and leaves the same store. -/
theorem acquire_withWaiting (c : Coordinator) (w : Dict Names) (s : Store) (now tick : Nat)
    (id : LeaseId) (request : LockRequest) (lag : Nat) :
    ∃ w', (c.withWaiting w).acquire s now tick id request lag =
      (c.acquire s now tick id request lag).withWaiting w' := by
  rw [acquire, acquire]
  by_cases hlock : request.lock = ""
  · rw [if_pos hlock, if_pos hlock]
    exact ⟨w, rfl⟩
  by_cases hclient : request.client = ""
  · rw [if_neg hlock, if_pos hclient, if_neg hlock, if_pos hclient]
    exact ⟨w, rfl⟩
  rw [if_neg hlock, if_neg hclient, if_neg hlock, if_neg hclient]
  dsimp only
  rw [show (c.withWaiting w).config = c.config from rfl]
  generalize s.take now request.lock id (c.config.ttlFor request.ttl) = taken
  cases taken with
  | error fault => exact ⟨w, rfl⟩
  | ok r =>
    obtain ⟨b, s'⟩ := r
    cases b with
    | true =>
      dsimp only
      rw [grant_withWaiting]
      exact ⟨w, rfl⟩
    | false =>
      dsimp only
      by_cases hwait : request.wait.isZero = true
      · rw [if_pos hwait, if_pos hwait]
        exact ⟨w, rfl⟩
      · rw [if_neg hwait, if_neg hwait]
        let p := c.pendingFor (tick + lag) id request
        obtain ⟨w', hproceed⟩ := (c.enlist request).proceed_withWaiting
          ((c.withWaiting w).enlist request).registry.waiting (now + lag) p
          (p.wait.resume (tick + lag))
        exact ⟨w', congrArg (fun r : Acquisition × Coordinator ↦ Outcome.mk r.1 s' r.2) hproceed⟩

/-- **Trying again** is answered the same whoever waits, and leaves the same store. -/
theorem poll_withWaiting (c : Coordinator) (w : Dict Names) (s : Store) (now tick : Nat)
    (p : Pending) (lag : Nat) :
    ∃ w', (c.withWaiting w).poll s now tick p lag =
      (c.poll s now tick p lag).withWaiting w' := by
  rw [poll, poll]
  cases s.take now p.request.lock p.id p.ttl with
  | error fault =>
    obtain ⟨w', hproceed⟩ :=
      c.proceed_withWaiting w (now + lag) p (p.wait.proceed (tick + lag) (.error fault))
    exact ⟨w', congrArg (fun r : Acquisition × Coordinator ↦ Outcome.mk r.1 s r.2) hproceed⟩
  | ok r =>
    obtain ⟨b, s'⟩ := r
    obtain ⟨w', hproceed⟩ :=
      c.proceed_withWaiting w (now + lag) p (p.wait.proceed (tick + lag) (.ok b))
    exact ⟨w', congrArg (fun r : Acquisition × Coordinator ↦ Outcome.mk r.1 s' r.2) hproceed⟩

/-- Giving up changes no more than who waits. -/
theorem cancel_withWaiting (c : Coordinator) (w : Dict Names) (p : Pending) :
    ∃ w', (c.withWaiting w).cancel p = (c.cancel p).withWaiting w' :=
  ⟨_, rfl⟩

/-! ### Operations on leases -/

/-- **A release** is the same whoever waits. -/
theorem release_withWaiting (c : Coordinator) (w : Dict Names) (s : Store) (now : Nat)
    (lock : LockName) (client : ClientId) (id : LeaseId) :
    (c.withWaiting w).release s now lock client id =
      (c.release s now lock client id).withWaiting w := by
  rw [release, release]
  split <;> rfl

/-- What is told of a renewal does not depend on who waits. -/
theorem noteRenewal_withWaiting (c : Coordinator) (w : Dict Names) (id : LeaseId) (target : Nat) :
    (c.withWaiting w).noteRenewal id target =
      ((c.noteRenewal id target).1, (c.noteRenewal id target).2.withWaiting w) := by
  rw [noteRenewal, noteRenewal, show (c.withWaiting w).registry = c.registry.withWaiting w from rfl,
    Registry.noteRenewal_withWaiting]
  obtain ⟨r, l⟩ := c.registry.noteRenewal id target
  cases l <;> rfl

/-- **A renewal** is the same whoever waits. -/
theorem renew_withWaiting (c : Coordinator) (w : Dict Names) (s : Store) (now : Nat)
    (lock : LockName) (id : LeaseId) (extension : Option Duration) (lag : Nat) :
    (c.withWaiting w).renew s now lock id extension lag =
      (c.renew s now lock id extension lag).withWaiting w := by
  rw [renew, renew, show (c.withWaiting w).renewalEnd now id extension =
    c.renewalEnd now id extension from rfl]
  dsimp only
  cases s.extend (now + lag) lock id (.ofMillis (c.renewalEnd now id extension - now)) with
  | error fault => rfl
  | ok r =>
    obtain ⟨b, s'⟩ := r
    cases b with
    | false => rfl
    | true =>
      dsimp only
      rw [noteRenewal_withWaiting]
      rfl

/-- One candidate of a pass is treated the same whoever waits. -/
theorem renewDue_withWaiting (w : Dict Names) (now lag : Nat) (o : Outcome UpkeepReport)
    (l : Lease) : renewDue now lag (o.withWaiting w) l = (renewDue now lag o l).withWaiting w := by
  rw [renewDue, renewDue, show (o.withWaiting w).coordinator = o.coordinator.withWaiting w from rfl,
    show (o.withWaiting w).store = o.store from rfl, renew_withWaiting]
  dsimp only [Outcome.withWaiting]
  split <;> rfl

/-- All candidates are, one after another. -/
theorem renewAll_withWaiting (w : Dict Names) (clock : Watch) (ls : List Lease)
    (o : Outcome UpkeepReport) :
    renewAll clock (o.withWaiting w) ls =
      ((renewAll clock o ls).1, (renewAll clock o ls).2.withWaiting w) := by
  induction ls generalizing clock o with
  | nil => rfl
  | cons l ls ih => rw [renewAll, renewAll, renewDue_withWaiting, ih]

/-- The purge at the end of a pass looks at the store only. -/
theorem purgeAfter_withWaiting (w : Dict Names) (now : Nat) (o : Outcome UpkeepReport) :
    purgeAfter now (o.withWaiting w) = (purgeAfter now o).withWaiting w := by
  rw [purgeAfter, purgeAfter, show (o.withWaiting w).store = o.store from rfl]
  split <;> rfl

/-- **A pass of upkeep** is the same whoever waits. -/
theorem upkeep_withWaiting (c : Coordinator) (w : Dict Names) (s : Store) (now : Nat)
    (interval : Duration) (lags : List (Nat × Nat)) :
    (c.withWaiting w).upkeep s now interval lags =
      (c.upkeep s now interval lags).withWaiting w := by
  rw [upkeep, upkeep, show (c.withWaiting w).registry = c.registry.withWaiting w from rfl,
    Registry.prune_withWaiting]
  cases interval.double? with
  | none => rfl
  | some window =>
    let c₁ : Coordinator := { c with registry := (c.registry.prune now).1 }
    let close (r : Watch × Outcome UpkeepReport) : Outcome (Except UpkeepFault UpkeepReport) :=
      let o := purgeAfter r.1.start r.2
      ⟨.ok o.answer, o.store, o.coordinator⟩
    have hturns := renewAll_withWaiting w ⟨now, lags⟩ (c₁.dueForRenewal now window.wholeMillis)
      ⟨{ pruned := (c.registry.prune now).2 }, s, c₁⟩
    have hclose (r : Watch × Outcome UpkeepReport) :
        close (r.1, r.2.withWaiting w) = (close r).withWaiting w := by
      show (_ : Outcome (Except UpkeepFault UpkeepReport)) = _
      simp only [close, purgeAfter_withWaiting]
      rfl
    exact (congrArg close hturns).trans (hclose _)

/-! ### Operations in vain -/

variable {c : Coordinator} {s : Store} {now tick : Nat} {lock : LockName} {client : ClientId}
  {id : LeaseId} {request : LockRequest} {extension : Option Duration} {p : Pending}
  {fault : LockFault} {lag : Nat}

/-- A release that fails changes nothing. -/
theorem release_of_error (h : (c.release s now lock client id).answer = .error fault) :
    c.release s now lock client id = ⟨.error fault, s, c⟩ := by
  obtain ⟨fault', ho⟩ | ⟨s', -, ho⟩ := c.release_cases s now lock client id
  · rw [ho] at h ⊢
    cases h
    rfl
  · rw [ho] at h
    cases h

/-- A renewal that fails changes nothing. -/
theorem renew_of_error (h : (c.renew s now lock id extension lag).answer = .error fault) :
    c.renew s now lock id extension lag = ⟨.error fault, s, c⟩ := by
  obtain ⟨fault', ho⟩ | ⟨s', -, ho⟩ := c.renew_cases s now lock id extension lag
  · rw [ho] at h ⊢
    cases h
    rfl
  · rw [ho] at h
    cases h

/-- Asking for a lock in vain changes at most who waits. -/
theorem acquire_in_vain (h : ∀ l, (c.acquire s now tick id request lag).answer ≠ .ended (.ok l)) :
    ∃ a w, c.acquire s now tick id request lag = ⟨a, s, c.withWaiting w⟩ := by
  obtain ⟨fault, ho⟩ | ⟨s', -, ho⟩ | ⟨wake, ho⟩ | ⟨fault, ho⟩ :=
    c.acquire_cases s now tick id request lag
  · exact ⟨_, c.registry.waiting, ho⟩
  · rw [ho] at h
    exact absurd rfl (h _)
  · exact ⟨_, _, ho⟩
  · exact ⟨_, _, ho⟩

/-- Trying again in vain changes at most who waits. -/
theorem poll_in_vain (h : ∀ l, (c.poll s now tick p lag).answer ≠ .ended (.ok l)) :
    ∃ a w, c.poll s now tick p lag = ⟨a, s, c.withWaiting w⟩ := by
  obtain ⟨wake, ho⟩ | ⟨fault, ho⟩ | ⟨s', -, ho⟩ := c.poll_cases s now tick p lag
  · exact ⟨_, c.registry.waiting, ho⟩
  · exact ⟨_, _, ho⟩
  · rw [ho] at h
    exact absurd rfl (h _)

end Coordinator

end LeaseLock
