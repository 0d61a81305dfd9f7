import LeaseLock.Proofs.Cluster.Basic
import LeaseLock.Proofs.Store.Rows

/-!
# The moves of a cluster

Every call is made of a few moves (`Cluster.Move`): a key is taken, freed, extended or purged with
the registry following, an acquisition begins or ends to wait, a registry forgets leases, time
passes. A move says everything that later proofs need to know about the store, about the leases that
are known and about the notice that comes with it, and nothing about which kind of store it is.

Invariants are shown for moves, one case each, and hold of runs by `Cluster.run_invariant`. A pass
of upkeep is a sequence of moves, a prune and then an extension or a refusal and a drop for each
candidate, so a statement about moves sees into the middle of a pass.

## Two readings of the clock

Two moves belong to operations that read the clock twice. A key is taken, and the lease is dated
some time later (`Cluster.Move.award`); the time in between passes in the move itself, so no other
move sees a key without its lease. A renewal begins, and the key is extended some time later
(`Cluster.Move.extend`); the time in between has passed in a move before, and the move knows when
the renewal began.

How much time there is in between is bounded by the `Cluster.Lags` of the move. Only the agreement
of registry and store depends on these bounds. Every other invariant is shown for any bounds.
-/

namespace LeaseLock

namespace Cluster

/-- Bounds for the milliseconds that pass between two readings of the clock. -/
structure Lags where
  /-- Between the time at which the store gives a key and the one from which its lease counts. -/
  grant : Nat
  /-- Between the time at which a renewal begins and the one at which it reaches the store. -/
  renewal : Nat

variable {ι : Type} [DecidableEq ι] {b : Lags} {f f' f'' : Cluster ι} {h n n' : List Notice}

/-! ### Moves -/

/-- Registries keep leases under their ids, and acquisitions wait under theirs, which are issued. -/
structure WellFormed (f : Cluster ι) : Prop where
  /-- The registries keep leases under their ids. -/
  registry : ∀ i, (f.member i).registry.Keyed
  /-- Acquisitions wait under their ids. -/
  pending : ∀ id i p, f.pending id = some (i, p) → p.id = id ∧ id ∈ f.issued

/-- A step that no other step comes between, with the notices that come with it. -/
inductive Move (b : Lags) : Cluster ι → List Notice → Cluster ι → Prop
  /-- What a member remembers changes, but not in its leases. -/
  | quiet (f : Cluster ι) (i : ι) (c : Coordinator)
      (hleases : c.registry.granted = (f.member i).registry.granted) : Move b f [] (f.enter i c)
  /-- The store goes out of reach or comes back. -/
  | outage (f : Cluster ι) (on : Bool) : Move b f [] { f with outage := on }
  /-- Time passes. -/
  | elapse (f : Cluster ι) (millis ticks : Nat) : Move b f [] (f.pass millis ticks)
  /-- A release or a renewal is turned away, because the lease does not own its lock or because the
  store fails. -/
  | refuse (f : Cluster ι) (lock : LockName) (id : LeaseId) (fault : LockFault)
      (hfault : (fault = .notOwner lock ∧
          ∀ row, f.store.live? f.now lock = some row → row.lease ≠ id) ∨
        ∃ e, fault = .storeUnavailable e) :
      Move b f [.refused lock id fault] f
  /-- An acquisition begins with a fresh id. -/
  | begin (f : Cluster ι) (i : ι) (p : Pending) (hfresh : p.id ∉ f.issued) :
      Move b f [] ((f.issue p.id).await p.id (some (i, p)))
  /-- An acquisition ends in vain. -/
  | leave (f : Cluster ι) (id : LeaseId) : Move b f [] (f.await id none)
  /-- An acquisition takes its key and ends. Its lease counts from some time later. -/
  | award (f : Cluster ι) (i : ι) (p : Pending) (s : Store) (lag : Nat) (hlag : lag ≤ b.grant)
      (hp : f.pending p.id = some (i, p))
      (hs : f.store.Taken s f.now p.request.lock p.id p.ttl true) :
      Move b f [.granted ((f.member i).grant (f.now + lag) p.request p.id p.ttl).1]
        ((((f.enter i ((f.member i).grant (f.now + lag) p.request p.id p.ttl).2).withStore s).await
          p.id none).pass lag lag)
  /-- A key is freed. -/
  | free (f : Cluster ι) (i : ι) (lock : LockName) (client : ClientId) (id : LeaseId) (s : Store)
      (hs : f.store.Changed s f.now lock id none true) :
      Move b f [.released lock id]
        ((f.disturb i ((f.member i).registry.remove id lock client)).withStore s)
  /-- A key is extended by a renewal that began at `start`. -/
  | extend (f : Cluster ι) (i : ι) (lock : LockName) (id : LeaseId) (start target : Nat)
      (extension : Option Duration) (s : Store) (hstart : start ≤ f.now)
      (hlag : f.now ≤ start + b.renewal)
      (htarget : target = (f.member i).renewalEnd start id extension)
      (hs : f.store.Changed s f.now lock id
        (some ⟨id, f.now + (Duration.ofMillis (target - start)).keyMillis⟩) true) :
      Move b f [.renewed lock id ((f.member i).noteRenewal id target).1]
        ((f.enter i ((f.member i).noteRenewal id target).2).withStore s)
  /-- The store is purged. -/
  | purge (f : Cluster ι) (s : Store) (m : Nat) (hs : f.store.purge f.now = .ok (m, s)) :
      Move b f [] (f.withStore s)
  /-- A registry forgets leases that have expired. -/
  | prune (f : Cluster ι) (i : ι) : Move b f [] (f.disturb i ((f.member i).registry.prune f.now).1)
  /-- A registry forgets a lease that does not own its lock. -/
  | drop (f : Cluster ι) (i : ι) (l : Lease)
      (hknown : ∀ l', (f.member i).registry.lease? l.id = some l' → l'.lock = l.lock)
      (hlost : ∀ row, f.store.live? f.now l.lock = some row → row.lease ≠ l.id) :
      Move b f [] (f.disturb i ((f.member i).registry.remove l.id l.lock l.holder))
  /-- A registry forgets everything. -/
  | clear (f : Cluster ι) (i : ι) : Move b f [.cleared] (f.disturb i (f.member i).registry.clear)

/-- Moves in sequence, with all their notices. -/
inductive Moves (b : Lags) : Cluster ι → List Notice → Cluster ι → Prop
  /-- No move. -/
  | refl (f : Cluster ι) : Moves b f [] f
  /-- A move and then others. -/
  | head {f f' f'' : Cluster ι} {n n' : List Notice} (hmove : Move b f n f')
      (hmoves : Moves b f' n' f'') : Moves b f (n ++ n') f''

/-- Moves follow on moves, and so do their notices. -/
theorem Moves.trans (h₁ : Moves b f n f') (h₂ : Moves b f' n' f'') : Moves b f (n ++ n') f'' := by
  induction h₁ with
  | refl f => exact h₂
  | head hmove _ ih =>
    rw [List.append_assoc]
    exact .head hmove (ih h₂)

/-- A move by itself. -/
theorem Move.moves (h : Move b f n f') : Moves b f n f' := by
  have := Moves.head h (.refl f')
  rwa [List.append_nil] at this

/-! ### Fields -/

/-- The coordinator that was entered is at its place, and the others are where they were. -/
theorem member_enter (f : Cluster ι) (i j : ι) (c : Coordinator) :
    (f.enter i c).member j = if j = i then c else f.member j :=
  Function.update_apply f.member i c j

@[simp] theorem member_enter_self (f : Cluster ι) (i : ι) (c : Coordinator) :
    (f.enter i c).member i = c := by
  rw [member_enter, if_pos rfl]

theorem enter_member (f : Cluster ι) (i : ι) : f.enter i (f.member i) = f := by
  rw [enter, Function.update_eq_self]

theorem enter_enter (f : Cluster ι) (i : ι) (c c' : Coordinator) :
    (f.enter i c).enter i c' = f.enter i c' := by
  rw [enter, enter, Function.update_idem, enter]

omit [DecidableEq ι] in
/-- Nobody else's wait is touched. -/
theorem pending_await (f : Cluster ι) (id k : LeaseId) (p : Option (ι × Pending)) :
    (f.await id p).pending k = if k = id then p else f.pending k :=
  Function.update_apply f.pending id p k

omit [DecidableEq ι] in
theorem await_await (f : Cluster ι) (id : LeaseId) (p p' : Option (ι × Pending)) :
    (f.await id p).await id p' = f.await id p' := by
  rw [await, await, Function.update_idem, await]

omit [DecidableEq ι] in
/-- Without an outage the coordinators find the store itself. -/
theorem reach_of_outage (h : f.outage = false) : f.reach = f.store := by
  rw [reach, h]
  rfl

/-- An operation that does not change the store. -/
theorem put_reach {α : Type} (f : Cluster ι) (i : ι) (a : α) (c : Coordinator) :
    f.put i ⟨a, f.reach, c⟩ = f.enter i c := by
  rw [put, reach]
  cases f.outage <;> rfl

/-- Without an outage an operation leaves its store. -/
theorem put_of_outage {α : Type} (ho : f.outage = false) (i : ι) (o : Outcome α) :
    f.put i o = (f.enter i o.coordinator).withStore o.store := by
  rw [put, ho]
  rfl

omit [DecidableEq ι] in
theorem pass_pass (f : Cluster ι) (m m' t t' : Nat) :
    (f.pass m t).pass m' t' = f.pass (m + m') (t + t') := by
  simp only [pass, Nat.add_assoc]

/-- Of two operations of one member that are both put back, the later one counts. The later one has
worked on what the earlier one left. -/
theorem put_put {α β : Type} (f : Cluster ι) (i : ι) (o : Outcome α) (o' : Outcome β) :
    (f.put i o).put i o' = f.put i o' := by
  cases ho : f.outage <;> simp [put, enter, withStore, ho]

/-! ### Well-formed clusters -/

/-- A coordinator can be entered that keeps leases under their ids. -/
theorem WellFormed.enter (h : f.WellFormed) {i : ι} {c : Coordinator} (hc : c.registry.Keyed) :
    (f.enter i c).WellFormed where
  registry := by
    intro j
    rw [member_enter]
    split
    · exact hc
    · exact h.registry j
  pending := h.pending

omit [DecidableEq ι] in
/-- An acquisition can wait under its own id once that is issued. -/
theorem WellFormed.await (h : f.WellFormed) {id : LeaseId} {p : Option (ι × Pending)}
    (hp : ∀ i q, p = some (i, q) → q.id = id ∧ id ∈ f.issued) : (f.await id p).WellFormed where
  registry := h.registry
  pending := by
    intro k i q hq
    rw [pending_await] at hq
    split at hq
    · next hk => exact hk ▸ hp i q hq
    · exact h.pending k i q hq

omit [DecidableEq ι] in
/-- At the start there is nothing to be kept or to wait. -/
theorem IsStart.wellFormed (h : f.IsStart) : f.WellFormed where
  registry i := by
    rw [h.registry i]
    exact Registry.keyed_empty
  pending id i p hp := by
    rw [h.pending id] at hp
    cases hp

/-- Every move keeps clusters well-formed. -/
theorem Move.wellFormed (hmove : Move b f n f') (h : f.WellFormed) : f'.WellFormed := by
  cases hmove with
  | quiet i c hleases => exact h.enter ((h.registry i).of_granted_eq hleases)
  | outage on => exact ⟨h.registry, h.pending⟩
  | elapse millis ticks => exact ⟨h.registry, h.pending⟩
  | refuse lock id fault hfault => exact h
  | begin i p hfresh =>
    have hissue : (f.issue p.id).WellFormed :=
      ⟨h.registry, fun id i q hq ↦ (h.pending id i q hq).imp_right (List.mem_cons_of_mem _)⟩
    exact hissue.await (by rintro _ _ ⟨⟩; exact ⟨rfl, List.mem_cons_self⟩)
  | leave id => exact h.await (by rintro _ _ ⟨⟩)
  | award i p s lag hlag hp hs =>
    let c := ((f.member i).grant (f.now + lag) p.request p.id p.ttl).2
    have henter : (f.enter i c).WellFormed := h.enter ((h.registry i).insert _)
    have hstore : ((f.enter i c).withStore s).WellFormed := ⟨henter.registry, henter.pending⟩
    have hgone : (((f.enter i c).withStore s).await p.id none).WellFormed :=
      hstore.await (by rintro _ _ ⟨⟩)
    exact ⟨hgone.registry, hgone.pending⟩
  | free i lock client id s hs =>
    have := h.enter (i := i) (c := { f.member i with
      registry := (f.member i).registry.remove id lock client }) (h.registry i).remove
    exact ⟨this.registry, this.pending⟩
  | extend i lock id start target extension s hstart hlag htarget hs =>
    have := h.enter (i := i) (c := ((f.member i).noteRenewal id target).2)
      (Coordinator.registry_noteRenewal ▸ (h.registry i).noteRenewal)
    exact ⟨this.registry, this.pending⟩
  | purge s m hs => exact ⟨h.registry, h.pending⟩
  | prune i => exact h.enter (h.registry i).prune
  | drop i l hknown hlost => exact h.enter (h.registry i).remove
  | clear i => exact h.enter Registry.keyed_empty

/-- What every move of a well-formed cluster preserves, sequences of moves preserve. -/
theorem Moves.invariant {P : Cluster ι → List Notice → Prop}
    (hmove : ∀ f h n f', f.WellFormed → P f h → Move b f n f' → P f' (h ++ n))
    (hmoves : Moves b f n f') (hf : f.WellFormed) (hP : P f h) :
    f'.WellFormed ∧ P f' (h ++ n) := by
  induction hmoves generalizing h with
  | refl f =>
    rw [List.append_nil]
    exact ⟨hf, hP⟩
  | head hm _ ih =>
    rw [← List.append_assoc]
    exact ih (hm.wellFormed hf) (hmove _ _ _ _ hf hP hm)

end Cluster

end LeaseLock
