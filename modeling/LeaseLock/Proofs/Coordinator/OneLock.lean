import Mathlib.Data.List.Nodup
import LeaseLock.Proofs.Coordinator.Holdings
import LeaseLock.Proofs.Coordinator.Renewals
import LeaseLock.Proofs.Store.OneLock

/-!
# One lock of a coordinator

A coordinator keeps its leases by id and looks them up by id, whatever locks they are for. All the
same, what it answers about a lock is settled by the leases that it knows for this lock
(`Registry.ofLock`) and by what the store has under it.

Two statements say so. An operation on another lock leaves both as they are
(`Outcome.LeavesAlone`). And a coordinator that knows the leases of another one for a lock and
no others (`Coordinator.PartAt`) gives the same answers about the lock over a store that agrees in
the lock, and knows as much afterwards (`Outcome.Alike`). A pass of upkeep is made of renewals for
all locks; those for other locks leave the lock alone, and there is one for the lock at most
(`Coordinator.PartAt.filter_dueForRenewal`).

An id of a lease for another lock may be presented for the lock. A renewal then asks for an end that
depends on that lease, but it is turned away (`Coordinator.PartAt.renew`).

## What a part is

The relation between two registries goes one way: the second one has what the first one has for the
lock, and nothing else. So the first one may do what it likes with other locks
(`Registry.PartAt.of_left`), and an operation on the lock is done by both. The holdings and the
registrations are not compared. They are not read by any answer about a lock but the listings, which
are about all locks together.

## The time of a renewal in a pass

The candidates of a pass are renewed one after another, and the clock moves on with each of them. A
pass in which the candidates for other locks are left out has to make up for their time, or the
renewal for the lock would be made earlier. The lags that it is given say so
(`Coordinator.lagsAt`): what has passed before the renewal, and what passes in it.
-/

namespace LeaseLock

/-! ### Registries -/

namespace Registry

variable {r r₁ r' r₁' : Registry} {k id : LeaseId} {lock lock' lock₁ lock₁' : LockName}
  {client client' : ClientId} {l : Lease} {now target : Nat}

/-- The lease `k`, if it is known and for the lock. -/
def ofLock (r : Registry) (lock : LockName) (k : LeaseId) : Option Lease :=
  (r.lease? k).filter (·.lock == lock)

/-- The registry `r'` knows the leases of `r` for the lock, and no others. -/
def PartAt (lock : LockName) (r r' : Registry) : Prop := ∀ k, r'.lease? k = r.ofLock lock k

/-- What is known for the lock is what is known and for the lock. -/
theorem ofLock_eq_some_iff : r.ofLock lock k = some l ↔ r.lease? k = some l ∧ l.lock = lock := by
  rw [ofLock, Option.filter_eq_some_iff, beq_iff_eq]

/-- A lease that is known for no other lock. -/
theorem ofLock_of_forall_eq (h : ∀ l, r.lease? k = some l → l.lock = lock) :
    r.ofLock lock k = r.lease? k := by
  rw [ofLock]
  cases hl : r.lease? k with
  | none => rfl
  | some l => exact Option.filter_some_pos (beq_iff_eq.2 (h l hl))

/-- A lease that is not known for the lock. -/
theorem ofLock_of_forall_ne (h : ∀ l, r.lease? k = some l → l.lock ≠ lock) :
    r.ofLock lock k = none := by
  refine Option.filter_eq_none_iff.2 fun l hl ↦ ?_
  rw [beq_iff_eq]
  exact h l hl

theorem ofLock_congr (h : r₁.lease? k = r.lease? k) : r₁.ofLock lock k = r.ofLock lock k := by
  rw [ofLock, h, ofLock]

theorem ofLock_remove :
    (r.remove id lock₁ client).ofLock lock k = if k = id then none else r.ofLock lock k := by
  rw [ofLock, lease?_remove]
  split <;> rfl

/-- Granting a lease for the lock leaves no other one for the lock. -/
theorem ofLock_insert_self (h : r.Keyed) (hl : l.lock = lock) :
    (r.insert l).ofLock lock k = if k = l.id then some l else none := by
  rw [ofLock, h.lease?_insert]
  split
  · exact Option.filter_some_pos (beq_iff_eq.2 hl)
  · rw [Option.filter_filter]
    refine Option.filter_eq_none_iff.2 fun l' _ ↦ ?_
    simp [hl]

/-- Granting a lease for another lock, under a fresh id. -/
theorem ofLock_insert_of_ne (h : r.Keyed) (hfresh : r.lease? l.id = none) (hl : l.lock ≠ lock) :
    (r.insert l).ofLock lock k = r.ofLock lock k := by
  rw [ofLock, h.lease?_insert, ofLock]
  split
  · next hk =>
    rw [hk, hfresh]
    exact Option.filter_some_neg (beq_eq_false_iff_ne.2 hl)
  · rw [Option.filter_filter]
    congr 1
    funext l'
    by_cases hlock : l'.lock = lock
    · simp [hlock, Ne.symm hl]
    · simp [hlock]

/-- A renewal changes what is known under the id. -/
theorem ofLock_noteRenewal :
    (r.noteRenewal id target).1.ofLock lock k =
      if k = id then (r.ofLock lock id).map (renewed · target) else r.ofLock lock k := by
  rw [ofLock, lease?_noteRenewal]
  split
  · rw [Option.filter_map]
    rfl
  · rfl

theorem ofLock_prune (h : r.Keyed) :
    (r.prune now).1.ofLock lock k =
      (r.ofLock lock k).filter fun l ↦ !(!l.autoRenew && l.isExpired now) := by
  rw [ofLock, h.lease?_prune, ofLock, Option.filter_filter, Option.filter_filter]
  simp only [Bool.and_comm]

/-- A lease that is known for no other lock is known in the part. -/
theorem PartAt.lease?_eq (h : r.PartAt lock r')
    (hown : ∀ l, r.lease? k = some l → l.lock = lock) : r'.lease? k = r.lease? k := by
  rw [h k, ofLock_of_forall_eq hown]

/-- The part has no leases for other locks. -/
theorem PartAt.lock_eq (h : r.PartAt lock r') (hl : r'.lease? k = some l) : l.lock = lock := by
  rw [h k] at hl
  exact (ofLock_eq_some_iff.1 hl).2

theorem PartAt.congr (h : r.PartAt lock r') (hleases : r₁.granted = r.granted)
    (hleases' : r₁'.granted = r'.granted) : r₁.PartAt lock r₁' := fun k ↦ by
  rw [lease?_congr hleases', h k, ofLock_congr (lease?_congr hleases)]

/-- A registry in which the lock has been left alone. -/
theorem PartAt.of_left (h : r.PartAt lock r') (hr : ∀ k, r₁.ofLock lock k = r.ofLock lock k) :
    r₁.PartAt lock r' := fun k ↦ by
  rw [h k, hr k]

theorem PartAt.remove (h : r.PartAt lock r') (id : LeaseId) :
    (r.remove id lock₁ client).PartAt lock (r'.remove id lock₁' client') := fun k ↦ by
  rw [ofLock_remove, lease?_remove, h k]

theorem PartAt.insert (h : r.Keyed) (h' : r'.Keyed) (hpart : r.PartAt lock r')
    (hl : l.lock = lock) : (r.insert l).PartAt lock (r'.insert l) := fun k ↦ by
  rw [ofLock_insert_self h hl, h'.lease?_insert]
  split
  · rfl
  · refine Option.filter_eq_none_iff.2 fun l' hl' ↦ ?_
    simp [hpart.lock_eq hl', hl]

theorem PartAt.noteRenewal (h : r.PartAt lock r') (id : LeaseId) (target : Nat) :
    (r.noteRenewal id target).1.PartAt lock (r'.noteRenewal id target).1 := fun k ↦ by
  rw [ofLock_noteRenewal, lease?_noteRenewal, h k, h id]

theorem PartAt.prune (h : r.Keyed) (h' : r'.Keyed) (hpart : r.PartAt lock r') (now : Nat) :
    (r.prune now).1.PartAt lock (r'.prune now).1 := fun k ↦ by
  rw [ofLock_prune h, h'.lease?_prune, hpart k]

theorem partAt_empty (lock : LockName) (h : r.granted = ∅) (h' : r'.granted = ∅) :
    r.PartAt lock r' := fun k ↦ by
  rw [ofLock, lease?, lease?, h, h']
  rfl

end Registry

/-! ### Coordinators and outcomes -/

/-- The coordinators have the same settings, and `c'` knows the leases of `c` for the lock, and no
others. -/
structure Coordinator.PartAt (lock : LockName) (c c' : Coordinator) : Prop where
  /-- The settings are the same. -/
  config : c'.config = c.config
  /-- They are timed in the same way. -/
  timing : c'.timing = c.timing
  /-- The one registry is the part of the other one. -/
  registry : c.registry.PartAt lock c'.registry

namespace Outcome

variable {α β : Type} {lock : LockName} {o o₁ : Outcome α} {o' : Outcome β}

/-- The outcomes agree in the lock. -/
structure PartAt (lock : LockName) (o : Outcome α) (o' : Outcome β) : Prop where
  /-- The stores agree. -/
  store : o.store.SameAt lock o'.store
  /-- The one coordinator knows the part of the other one. -/
  coordinator : o.coordinator.PartAt lock o'.coordinator

/-- The outcomes agree in the lock, and in their answers. -/
structure Alike (lock : LockName) (o o' : Outcome α) : Prop extends PartAt lock o o' where
  /-- The answers are the same. -/
  answer : o'.answer = o.answer

/-- The outcome of an operation of `c` over `s` that leaves the lock as it was. -/
structure LeavesAlone (lock : LockName) (s : Store) (c : Coordinator) (o : Outcome α) : Prop where
  /-- The store is as it was. -/
  store : s.SameAt lock o.store
  /-- The settings are as they were. -/
  config : o.coordinator.config = c.config
  /-- So is the timing. -/
  timing : o.coordinator.timing = c.timing
  /-- The leases for the lock are as they were. -/
  ofLock : ∀ k, o.coordinator.registry.ofLock lock k = c.registry.ofLock lock k

/-- Over a store that agrees in a lock, what leaves the lock alone changes nothing. -/
theorem LeavesAlone.partAt {s t : Store} {c c' : Coordinator} (h : o.LeavesAlone lock s c)
    (hs : s.SameAt lock t) (hc : c.PartAt lock c') (a : β) : o.PartAt lock ⟨a, t, c'⟩ :=
  ⟨h.store.symm.trans hs, hc.config.trans h.config.symm, hc.timing.trans h.timing.symm,
    hc.registry.of_left h.ofLock⟩

end Outcome

namespace Coordinator

variable {c c' : Coordinator} {s t : Store} {now tick : Nat} {lock : LockName} {id : LeaseId}
  {client : ClientId} {request : LockRequest} {p : Pending} {l : Lease}
  {extension : Option Duration} {o o' : Outcome UpkeepReport} {lag : Nat}

/-! ### Acquisitions -/

/-- A lease for the lock may be granted by both. -/
theorem PartAt.grant (hkeyed : c.registry.Keyed) (hkeyed' : c'.registry.Keyed) (now : Nat)
    (request : LockRequest) (h : c.PartAt request.lock c') (id : LeaseId) (ttl : Duration) :
    (c.grant now request id ttl).2.PartAt request.lock (c'.grant now request id ttl).2 :=
  ⟨h.config, h.timing, .insert hkeyed hkeyed' h.registry rfl⟩

/-- An acquisition for the lock goes on in both as its wait does. -/
theorem PartAt.proceed (hkeyed : c.registry.Keyed) (hkeyed' : c'.registry.Keyed) (now : Nat)
    (p : Pending) (h : c.PartAt p.request.lock c') (w : WaitStep) :
    (c'.proceed now p w).1 = (c.proceed now p w).1 ∧
      (c.proceed now p w).2.PartAt p.request.lock (c'.proceed now p w).2 := by
  cases w with
  | sleep wake => exact ⟨rfl, h⟩
  | stop how =>
    have hgone : (c.cancel p).PartAt p.request.lock (c'.cancel p) :=
      ⟨h.config, h.timing, h.registry.congr rfl rfl⟩
    have hkeyed₁ : (c.cancel p).registry.Keyed := hkeyed.of_granted_eq rfl
    have hkeyed₁' : (c'.cancel p).registry.Keyed := hkeyed'.of_granted_eq rfl
    cases how with
    | acquired => exact ⟨rfl, PartAt.grant hkeyed₁ hkeyed₁' now p.request hgone p.id p.ttl⟩
    | timedOut waited => exact ⟨rfl, hgone⟩
    | failed fault => exact ⟨rfl, hgone⟩

/-- Asking for the lock is answered alike. -/
theorem PartAt.acquire (hkeyed : c.registry.Keyed) (hkeyed' : c'.registry.Keyed)
    (h : c.PartAt request.lock c') (hs : s.SameAt request.lock t) (now tick : Nat) (id : LeaseId)
    (lag : Nat) : (c.acquire s now tick id request lag).Alike request.lock
      (c'.acquire t now tick id request lag) := by
  obtain ⟨config, timing, registry, reports⟩ := c
  obtain ⟨config', timing', registry', reports'⟩ := c'
  obtain rfl : config' = config := h.config
  obtain rfl : timing' = timing := h.timing
  rw [Coordinator.acquire, Coordinator.acquire]
  split
  · exact ⟨⟨hs, h⟩, rfl⟩
  split
  · exact ⟨⟨hs, h⟩, rfl⟩
  dsimp only
  have htake := hs.take now id (config'.ttlFor request.ttl)
  generalize s.take now request.lock id (config'.ttlFor request.ttl) = x,
    t.take now request.lock id (config'.ttlFor request.ttl) = y at htake ⊢
  cases htake with
  | error fault => exact ⟨⟨hs, h⟩, rfl⟩
  | ok b hs =>
    cases b with
    | true => exact ⟨⟨hs, .grant hkeyed hkeyed' (now + lag) request h id _⟩, rfl⟩
    | false =>
      dsimp only
      split
      · exact ⟨⟨hs, h⟩, rfl⟩
      · let c₁ : Coordinator := enlist ⟨config', timing', registry, reports⟩ request
        let c₁' : Coordinator := enlist ⟨config', timing', registry', reports'⟩ request
        have hwaits : c₁.PartAt request.lock c₁' := ⟨rfl, rfl, h.registry.congr rfl rfl⟩
        have hkeyed₁ : c₁.registry.Keyed := hkeyed.of_granted_eq rfl
        have hkeyed₁' : c₁'.registry.Keyed := hkeyed'.of_granted_eq rfl
        let p := c₁.pendingFor (tick + lag) id request
        obtain ⟨hanswer, hpart⟩ := PartAt.proceed hkeyed₁ hkeyed₁' (now + lag) p hwaits
          (p.wait.resume (tick + lag))
        exact ⟨⟨hs, hpart⟩, hanswer⟩

/-- A try for the lock is answered alike. -/
theorem PartAt.poll (hkeyed : c.registry.Keyed) (hkeyed' : c'.registry.Keyed)
    (h : c.PartAt p.request.lock c') (hs : s.SameAt p.request.lock t) (now tick lag : Nat) :
    (c.poll s now tick p lag).Alike p.request.lock (c'.poll t now tick p lag) := by
  rw [Coordinator.poll, Coordinator.poll]
  have htake := hs.take now p.id p.ttl
  generalize s.take now p.request.lock p.id p.ttl = x,
    t.take now p.request.lock p.id p.ttl = y at htake ⊢
  cases htake with
  | error fault =>
    obtain ⟨hanswer, hpart⟩ :=
      PartAt.proceed hkeyed hkeyed' (now + lag) p h (p.wait.proceed (tick + lag) (.error fault))
    exact ⟨⟨hs, hpart⟩, hanswer⟩
  | ok b hs =>
    obtain ⟨hanswer, hpart⟩ :=
      PartAt.proceed hkeyed hkeyed' (now + lag) p h (p.wait.proceed (tick + lag) (.ok b))
    exact ⟨⟨hs, hpart⟩, hanswer⟩

/-- Asking for another lock with a fresh id. -/
theorem leavesAlone_acquire (hkeyed : c.registry.Keyed) (hfresh : c.registry.lease? id = none)
    (hne : request.lock ≠ lock) :
    (c.acquire s now tick id request lag).LeavesAlone lock s c := by
  obtain ⟨fault, ho⟩ | ⟨s', htake, ho⟩ | ⟨wake, ho⟩ | ⟨fault, ho⟩ :=
    c.acquire_cases s now tick id request lag
  all_goals rw [ho]
  · exact ⟨.refl lock s, rfl, rfl, fun _ ↦ rfl⟩
  · exact ⟨Store.sameAt_of_take hne.symm htake, rfl, rfl,
      fun _ ↦ Registry.ofLock_insert_of_ne hkeyed hfresh hne⟩
  · exact ⟨.refl lock s, rfl, rfl, fun _ ↦ rfl⟩
  · exact ⟨.refl lock s, rfl, rfl, fun _ ↦ rfl⟩

/-- Trying again for another lock, with an id that is yet to be granted. -/
theorem leavesAlone_poll (hkeyed : c.registry.Keyed) (hfresh : c.registry.lease? p.id = none)
    (hne : p.request.lock ≠ lock) : (c.poll s now tick p lag).LeavesAlone lock s c := by
  obtain ⟨wake, ho⟩ | ⟨fault, ho⟩ | ⟨s', htake, ho⟩ := c.poll_cases s now tick p lag
  all_goals rw [ho]
  · exact ⟨.refl lock s, rfl, rfl, fun _ ↦ rfl⟩
  · exact ⟨.refl lock s, rfl, rfl, fun _ ↦ rfl⟩
  · exact ⟨Store.sameAt_of_take hne.symm htake, rfl, rfl,
      fun _ ↦ Registry.ofLock_insert_of_ne (hkeyed.of_granted_eq rfl) hfresh hne⟩

/-! ### Releases -/

/-- A release of the lock is answered alike, whatever id it presents. -/
theorem PartAt.release (h : c.PartAt lock c') (hs : s.SameAt lock t) (now : Nat)
    (client : ClientId) (id : LeaseId) :
    (c.release s now lock client id).Alike lock (c'.release t now lock client id) := by
  rw [Coordinator.release, Coordinator.release]
  have hfree := hs.free now id
  generalize s.free now lock id = x, t.free now lock id = y at hfree ⊢
  cases hfree with
  | error fault => exact ⟨⟨hs, h⟩, rfl⟩
  | ok b hs =>
    cases b with
    | false => exact ⟨⟨hs, h⟩, rfl⟩
    | true => exact ⟨⟨hs, h.config, h.timing, h.registry.remove id⟩, rfl⟩

/-- Releasing another lock, where a lease that owns that lock is not known for this one. -/
theorem leavesAlone_release {lock' : LockName} (hne : lock' ≠ lock)
    (hown : ∀ e, s.live? now lock' = some ⟨id, e⟩ →
      ∀ l, c.registry.lease? id = some l → l.lock ≠ lock) :
    (c.release s now lock' client id).LeavesAlone lock s c := by
  obtain ⟨fault, ho⟩ | ⟨s', hfree, ho⟩ := c.release_cases s now lock' client id
  · rw [ho]
    exact ⟨.refl lock s, rfl, rfl, fun _ ↦ rfl⟩
  · rw [ho]
    refine ⟨Store.sameAt_of_free hne.symm hfree, rfl, rfl, fun k ↦ ?_⟩
    obtain ⟨⟨e, he⟩, -⟩ := Store.free_spec hfree
    rw [Registry.ofLock_remove]
    split
    · next hk => rw [hk, Registry.ofLock_of_forall_ne (hown e he)]
    · rfl

/-! ### Renewals -/

/-- What is told of a renewal depends on what is known of the lease. -/
theorem noteRenewal_fst_congr (h : c'.registry.lease? id = c.registry.lease? id) (target : Nat) :
    (c'.noteRenewal id target).1 = (c.noteRenewal id target).1 := by
  have hsnd : (c'.registry.noteRenewal id target).2 = (c.registry.noteRenewal id target).2 := by
    rw [Registry.noteRenewal_snd, Registry.noteRenewal_snd, h]
  rw [noteRenewal, noteRenewal]
  split
  · next l' hnote' =>
    split
    · next l hnote =>
      rw [hnote, hnote'] at hsnd
      cases hsnd
      rfl
    · next hnote =>
      rw [hnote, hnote'] at hsnd
      cases hsnd
  · next hnote' =>
    split
    · next l hnote =>
      rw [hnote, hnote'] at hsnd
      cases hsnd
    · rfl

/-- Renewing a lease that is known for no other lock. -/
theorem PartAt.renew_own (h : c.PartAt lock c') (hs : s.SameAt lock t) (now : Nat)
    (extension : Option Duration) (lag : Nat)
    (hown : ∀ l, c.registry.lease? id = some l → l.lock = lock) :
    (c.renew s now lock id extension lag).Alike lock (c'.renew t now lock id extension lag) := by
  have hknown := h.registry.lease?_eq hown
  have hend := renewalEnd_congr now extension h.config hknown
  rw [Coordinator.renew, Coordinator.renew, hend]
  dsimp only
  have hextend := hs.extend (now + lag) id (.ofMillis (c.renewalEnd now id extension - now))
  generalize s.extend (now + lag) lock id _ = x, t.extend (now + lag) lock id _ = y at hextend ⊢
  cases hextend with
  | error fault => exact ⟨⟨hs, h⟩, rfl⟩
  | ok b hs =>
    cases b with
    | false => exact ⟨⟨hs, h⟩, rfl⟩
    | true =>
      refine ⟨⟨hs, ?_, ?_, ?_⟩, congrArg Except.ok (noteRenewal_fst_congr hknown _)⟩
      · rw [(onlyLeases_noteRenewal c' id _).config, (onlyLeases_noteRenewal c id _).config,
          h.config]
      · rw [(onlyLeases_noteRenewal c' id _).timing, (onlyLeases_noteRenewal c id _).timing,
          h.timing]
      · rw [registry_noteRenewal, registry_noteRenewal]
        exact h.registry.noteRenewal id _

/-- The length for which a renewal asks fits a table if and only if the one fits that would be asked
for if the lease were not known, as long as what is known of it fits. -/
theorem renewalEnd_fits (hl : c.registry.lease? id = some l) (hnone : c'.registry.lease? id = none)
    (hconfig : c'.config = c.config) (now : Nat) (extension : Option Duration)
    (hfits : l.expiresAt + 1 + lag < signedBound) :
    now + lag + (Duration.ofMillis (c.renewalEnd now id extension - now)).keyMillis <
        signedBound ↔
      now + lag + (Duration.ofMillis (c'.renewalEnd now id extension - now)).keyMillis <
        signedBound := by
  have hword := (c.config.ttlFor extension).wholeMillis_lt
  simp only [renewalEnd, hl, hnone, hconfig, Duration.keyMillis, Duration.wholeMillis,
    Duration.millis_ofMillis, signedBound, wordBound] at hword hfits ⊢
  omega

/-- Renewing with any id. A lease that is known for another lock does not own this one, and is
turned away whatever it asks for. -/
theorem PartAt.renew (h : c.PartAt lock c') (hs : s.SameAt lock t) (now : Nat) (id : LeaseId)
    (extension : Option Duration) (lag : Nat)
    (hother : ∀ l, c.registry.lease? id = some l → l.lock ≠ lock →
      l.expiresAt + 1 + lag < signedBound ∧ ∀ row, s.row? lock = some row → row.lease ≠ id) :
    (c.renew s now lock id extension lag).Alike lock (c'.renew t now lock id extension lag) := by
  by_cases hown : ∀ l, c.registry.lease? id = some l → l.lock = lock
  · exact h.renew_own hs now extension lag hown
  · obtain ⟨l, hne⟩ := not_forall.1 hown
    obtain ⟨hl, hne⟩ := Classical.not_imp.1 hne
    obtain ⟨hfits, hnot⟩ := hother l hl hne
    have hnone : c'.registry.lease? id = none := by
      rw [h.registry id]
      refine Registry.ofLock_of_forall_ne fun l' hl' ↦ ?_
      rwa [Option.some.inj (hl'.symm.trans hl)]
    rw [Coordinator.renew, Coordinator.renew]
    dsimp only
    rcases hs.extend_refused (renewalEnd_fits hl hnone h.config now extension hfits)
      hnot with ⟨fault, hextend, hextend'⟩ | ⟨hextend, hextend'⟩
    · rw [hextend, hextend']
      exact ⟨⟨hs, h⟩, rfl⟩
    · rw [hextend, hextend']
      exact ⟨⟨hs, h⟩, rfl⟩

/-- Renewing for another lock, where a lease that owns that lock is not known for this one. -/
theorem leavesAlone_renew {lock' : LockName} (hne : lock' ≠ lock)
    (hown : ∀ e, s.live? (now + lag) lock' = some ⟨id, e⟩ →
      ∀ l, c.registry.lease? id = some l → l.lock ≠ lock) :
    (c.renew s now lock' id extension lag).LeavesAlone lock s c := by
  obtain ⟨fault, ho⟩ | ⟨s', hextend, ho⟩ := c.renew_cases s now lock' id extension lag
  · rw [ho]
    exact ⟨.refl lock s, rfl, rfl, fun _ ↦ rfl⟩
  · rw [ho]
    refine ⟨Store.sameAt_of_extend hne.symm hextend, (onlyLeases_noteRenewal c id _).config,
      (onlyLeases_noteRenewal c id _).timing, fun k ↦ ?_⟩
    obtain ⟨⟨e, he⟩, -⟩ := Store.extend_spec hextend
    dsimp only
    rw [registry_noteRenewal, Registry.ofLock_noteRenewal]
    split
    · next hk => rw [hk, Registry.ofLock_of_forall_ne (hown e he), Option.map_none]
    · rfl

/-! ### Looking -/

/-- The lock has the same status. -/
theorem PartAt.status (h : c.PartAt lock c') (hs : s.SameAt lock t) (now lag : Nat)
    (hown : ∀ row, s.row? lock = some row →
      ∀ l, c.registry.lease? row.lease = some l → l.lock = lock) :
    c'.status t now lock lag = c.status s now lock lag := by
  rw [Coordinator.status, Coordinator.status, ← hs.peek now]
  cases hpeek : s.peek now lock with
  | error fault => rfl
  | ok g =>
    have howner := Store.owner_of_peek hpeek
    obtain ⟨owner, remaining⟩ := g
    cases owner with
    | none => rfl
    | some owner =>
      obtain ⟨e, he, -⟩ := Store.owner?_eq_some_iff.1 howner.symm
      dsimp only
      rw [h.registry.lease?_eq (hown _ he)]

/-! ### Upkeep -/

/-- Both coordinators may forget what has expired. -/
theorem PartAt.prune (hkeyed : c.registry.Keyed) (hkeyed' : c'.registry.Keyed)
    (h : c.PartAt lock c') (now : Nat) :
    PartAt lock { c with registry := (c.registry.prune now).1 }
      { c' with registry := (c'.registry.prune now).1 } :=
  ⟨h.config, h.timing, .prune hkeyed hkeyed' h.registry now⟩

/-- There is one candidate for a lock at most, and it is one of the part. -/
theorem PartAt.filter_dueForRenewal (htidy : c.registry.Tidy) (htidy' : c'.registry.Tidy)
    (h : c.PartAt lock c') (now window : Nat) :
    (c.dueForRenewal now window).filter (·.lock == lock) = c'.dueForRenewal now window := by
  have hmem (l : Lease) : l ∈ (c.dueForRenewal now window).filter (·.lock == lock) ↔
      l ∈ c'.dueForRenewal now window := by
    rw [dueForRenewal, dueForRenewal, List.mem_filter, List.mem_filter, List.mem_filter, leases,
      leases, htidy.keyed.mem_leases_iff, htidy'.keyed.mem_leases_iff, h.registry,
      Registry.ofLock_eq_some_iff, beq_iff_eq]
    exact and_right_comm
  have hperm : ((c.dueForRenewal now window).filter (·.lock == lock)).Perm
      (c'.dueForRenewal now window) :=
    (List.perm_ext_iff_of_nodup ((nodup_dueForRenewal htidy.keyed now window).of_map.filter _)
      (nodup_dueForRenewal htidy'.keyed now window).of_map).2 hmem
  have hpairwise (ls : List Lease) : ls.Pairwise fun _ _ ↦ True :=
    List.pairwise_of_forall fun _ _ ↦ trivial
  refine hperm.eq_of_pairwise (fun l l' hl hl' _ _ ↦ ?_) (hpairwise _) (hpairwise _)
  -- Two candidates for the lock are two leases for it, so they are one.
  have hknown {l : Lease} (hl : l ∈ c'.dueForRenewal now window) :
      c'.registry.lease? l.id = some l :=
    htidy'.keyed.mem_leases_iff.1 (List.mem_filter.1 hl).1
  have hl := hknown ((hmem l).1 hl)
  have hl' := hknown hl'
  have hid : l.id = l'.id := htidy'.unique _ _ l l' hl hl'
    ((h.registry.lock_eq hl).trans (h.registry.lock_eq hl').symm)
  rw [hid, hl'] at hl
  exact (Option.some.inj hl).symm

end Coordinator

/-! ### Candidates in turn -/

namespace Watch

variable {t now : Nat} {p : Nat × Nat} {lags : List (Nat × Nat)}

/-- What the clock does if `p` passes first. Nothing need be said of a clock that stands still. -/
def before (p : Nat × Nat) (lags : List (Nat × Nat)) : List (Nat × Nat) :=
  if p = (0, 0) ∧ lags = [] then [] else p :: lags

theorem start_before : start ⟨t, before p lags⟩ = t + p.1 := by
  rw [before]
  split
  · next h => rw [h.1]; rfl
  · rfl

theorem lag_before : lag ⟨t, before p lags⟩ = p.2 := by
  rw [before]
  split
  · next h => rw [h.1]; rfl
  · rfl

theorem next_before : next ⟨t, before p lags⟩ = ⟨t + p.1 + p.2, lags⟩ := by
  rw [next, start_before, lag_before, before]
  split
  · next h => rw [h.2]; rfl
  · rfl

/-- No time is lost. -/
theorem total_before :
    total (before p lags) = p.1 + p.2 + total lags := by
  rw [before]
  split
  · next h => rw [h.1, h.2]; rfl
  · rfl

/-- What the clock does in the course of a pass that renews the candidates for the lock only, each
when its turn was, where `waited` milliseconds have passed since the last one. -/
def lagsAt (lock : LockName) (waited : Nat) (w : Watch) : List Lease → List (Nat × Nat)
  | [] => before (waited + w.pause, w.lag) w.lags.tail
  | l :: ls =>
    if l.lock = lock then before (waited + w.pause, w.lag) (lagsAt lock 0 w.next ls)
    else lagsAt lock (waited + w.pause + w.lag) w.next ls

/-- Such a pass takes as long as the whole one. -/
theorem total_lagsAt (lock : LockName) (waited : Nat) (w : Watch) (ls : List Lease) :
    total (w.lagsAt lock waited ls) = waited + total w.lags := by
  have hnext (w : Watch) : total w.lags = w.pause + w.lag + total w.next.lags := by
    obtain ⟨now, lags⟩ := w
    cases lags <;> rfl
  induction ls generalizing waited w with
  | nil =>
    rw [hnext, lagsAt, total_before]
    dsimp only [next]
    omega
  | cons l ls ih =>
    rw [lagsAt, hnext w]
    split
    · rw [total_before, ih]
      omega
    · rw [ih]
      omega

/-- Seen from the lock, a clock that stands still stands still. -/
theorem lagsAt_nil (lock : LockName) (now : Nat) (ls : List Lease) :
    lagsAt lock 0 ⟨now, []⟩ ls = [] := by
  induction ls generalizing now with
  | nil => rfl
  | cons l ls ih =>
    rw [lagsAt]
    split
    · rw [show next ⟨now, []⟩ = ⟨now, []⟩ from rfl, ih now]
      rfl
    · exact ih now

end Watch

namespace Outcome

open Coordinator

variable {o o' : Outcome UpkeepReport} {now lag : Nat} {lock : LockName} {l : Lease}

/-- Renewing the candidate for the lock. -/
theorem PartAt.renewDue (h : o.PartAt lock o') (now lag : Nat) (hl : l.lock = lock)
    (hown : ∀ l', o.coordinator.registry.lease? l.id = some l' → l'.lock = l.lock) :
    (renewDue now lag o l).PartAt lock (renewDue now lag o' l) := by
  subst hl
  have hrenew := h.coordinator.renew_own h.store now none lag hown
  rw [Coordinator.renewDue, Coordinator.renewDue]
  dsimp only
  rw [hrenew.answer]
  refine ⟨hrenew.store, hrenew.coordinator.config, hrenew.coordinator.timing, ?_⟩
  dsimp only
  split
  · exact hrenew.coordinator.registry.remove l.id
  · exact hrenew.coordinator.registry

/-- Renewing a candidate for another lock. -/
theorem leavesAlone_renewDue (now lag : Nat) (hl : l.lock ≠ lock)
    (hown : ∀ l', o.coordinator.registry.lease? l.id = some l' → l'.lock = l.lock) :
    (renewDue now lag o l).LeavesAlone lock o.store o.coordinator := by
  have hother (l' : Lease) (hl' : o.coordinator.registry.lease? l.id = some l') :
      l'.lock ≠ lock := hown l' hl' ▸ hl
  have hrenew : (o.coordinator.renew o.store now l.lock l.id none lag).LeavesAlone lock o.store
      o.coordinator :=
    leavesAlone_renew hl fun _ _ ↦ hother
  rw [Coordinator.renewDue]
  refine ⟨hrenew.store, hrenew.config, hrenew.timing, fun k ↦ ?_⟩
  dsimp only
  split
  · rw [Registry.ofLock_remove]
    split
    · next hk => rw [hk, Registry.ofLock_of_forall_ne hother]
    · exact hrenew.ofLock k
  · exact hrenew.ofLock k

/-- The candidates in turn, over the part the one for the lock. The store is purged at the same time
behind them. -/
theorem PartAt.renewAll {w : Watch} {t waited : Nat} (ls : List Lease) (h : o.PartAt lock o')
    (hnow : w.now = t + waited)
    (hown : ∀ l ∈ ls, ∀ l', o.coordinator.registry.lease? l.id = some l' → l'.lock = l.lock) :
    (renewAll w o ls).2.PartAt lock
        (renewAll ⟨t, w.lagsAt lock waited ls⟩ o' (ls.filter (·.lock == lock))).2 ∧
      (renewAll ⟨t, w.lagsAt lock waited ls⟩ o' (ls.filter (·.lock == lock))).1.start =
        (renewAll w o ls).1.start := by
  induction ls generalizing w t waited o o' with
  | nil =>
    refine ⟨h, ?_⟩
    show Watch.start ⟨t, Watch.before (waited + w.pause, w.lag) w.lags.tail⟩ = w.start
    rw [Watch.start_before, Watch.start, hnow, Nat.add_assoc]
  | cons l ls ih =>
    have hfirst := hown l List.mem_cons_self
    have hrest : ∀ l₁ ∈ ls, ∀ l',
        (Coordinator.renewDue w.start w.lag o l).coordinator.registry.lease? l₁.id = some l' →
          l'.lock = l₁.lock := by
      intro l₁ hl₁ l' hl'
      obtain ⟨l₀, hl₀, hlock⟩ := exists_lease_of_renewDue hl'
      rw [← hlock, hown l₁ (List.mem_cons_of_mem l hl₁) l₀ hl₀]
    have hstart : t + (waited + w.pause) = w.start := by
      rw [Watch.start, hnow, Nat.add_assoc]
    rw [Watch.lagsAt, List.filter_cons]
    by_cases hl : l.lock = lock
    · rw [if_pos hl, if_pos (beq_iff_eq.2 hl)]
      have hturn := h.renewDue w.start w.lag hl hfirst
      rw [Coordinator.renewAll, Coordinator.renewAll, Watch.next_before, Watch.start_before,
        Watch.lag_before, hstart]
      exact ih hturn rfl hrest
    · rw [if_neg hl, if_neg (beq_iff_eq.not.2 hl)]
      have hnext : w.next.now = t + (waited + w.pause + w.lag) := by
        show w.start + w.lag = _
        omega
      exact ih ((leavesAlone_renewDue _ _ hl hfirst).partAt h.store h.coordinator o'.answer) hnext
        hrest

/-- A pass ends with a purge of the store. -/
theorem store_purgeAfter (now : Nat) (o : Outcome UpkeepReport) :
    (purgeAfter now o).store = (o.store.serve now .purge).2 := by
  rw [purgeAfter, Store.serve]
  cases o.store.purge now <;> rfl

/-- Both may purge behind their renewals. -/
theorem PartAt.purgeAfter (h : o.PartAt lock o') (now : Nat) :
    (purgeAfter now o).PartAt lock (purgeAfter now o') := by
  constructor
  · rw [store_purgeAfter, store_purgeAfter]
    exact h.store.purge now
  · rw [coordinator_purgeAfter, coordinator_purgeAfter]
    exact h.coordinator

end Outcome

namespace Coordinator

variable {c c' : Coordinator} {s t : Store} {lock : LockName}

/-- What the clock does in the course of a pass of upkeep, seen from the lock. -/
def lagsAt (c : Coordinator) (lock : LockName) (now : Nat) (interval : Duration)
    (lags : List (Nat × Nat)) : List (Nat × Nat) :=
  match interval.double? with
  | none => lags
  | some window =>
    Watch.lagsAt lock 0 ⟨now, lags⟩
      (dueForRenewal { c with registry := (c.registry.prune now).1 } now window.wholeMillis)

/-- Seen from the lock, a pass in which no time passes is one. -/
theorem lagsAt_nil (c : Coordinator) (lock : LockName) (now : Nat) (interval : Duration) :
    c.lagsAt lock now interval [] = [] := by
  rw [lagsAt]
  split
  · rfl
  · exact Watch.lagsAt_nil lock now _

/-- Such a pass takes as long as the whole one. -/
theorem total_lagsAt (c : Coordinator) (lock : LockName) (now : Nat) (interval : Duration)
    (lags : List (Nat × Nat)) :
    Watch.total (c.lagsAt lock now interval lags) = Watch.total lags := by
  rw [lagsAt]
  split
  · rfl
  · rw [Watch.total_lagsAt, Nat.zero_add]

/-- A pass of upkeep does the same for the lock at the same times whatever else it renews. -/
theorem PartAt.upkeep (htidy : c.registry.Tidy) (htidy' : c'.registry.Tidy)
    (h : c.PartAt lock c') (hs : s.SameAt lock t) (now : Nat) (interval : Duration)
    (lags : List (Nat × Nat)) :
    (c.upkeep s now interval lags).PartAt lock
      (c'.upkeep t now interval (c.lagsAt lock now interval lags)) := by
  have hpruned := h.prune htidy.keyed htidy'.keyed now
  have htidy₁ := (htidy.preserves_prune now).tidy
  have htidy₁' := (htidy'.preserves_prune now).tidy
  rw [Coordinator.upkeep, Coordinator.upkeep, lagsAt]
  dsimp only
  cases interval.double? with
  | none => exact ⟨hs, hpruned⟩
  | some window =>
    dsimp only
    rw [← hpruned.filter_dueForRenewal htidy₁ htidy₁' now window.wholeMillis]
    let o : Outcome UpkeepReport := ⟨{ pruned := (c.registry.prune now).2 }, s,
      { c with registry := (c.registry.prune now).1 }⟩
    let o' : Outcome UpkeepReport := ⟨{ pruned := (c'.registry.prune now).2 }, t,
      { c' with registry := (c'.registry.prune now).1 }⟩
    have hstart : o.PartAt lock o' := ⟨hs, hpruned⟩
    have hclock : (⟨now, lags⟩ : Watch).now = now + 0 := rfl
    obtain ⟨hturns, hpurge⟩ := hstart.renewAll
      (o.coordinator.dueForRenewal now window.wholeMillis) hclock fun l hl l' hl' ↦ by
        have hknown := htidy₁.keyed.mem_leases_iff.1 (List.mem_filter.1 hl).1
        rw [Option.some.inj (hl'.symm.trans hknown)]
    rw [hpurge]
    have hpass := hturns.purgeAfter
      (Coordinator.renewAll ⟨now, lags⟩ o
        (o.coordinator.dueForRenewal now window.wholeMillis)).1.start
    exact ⟨hpass.store, hpass.coordinator⟩

end Coordinator

end LeaseLock
