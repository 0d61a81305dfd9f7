import Mathlib.Data.List.Dedup
import LeaseLock.Proofs.Coordinator.Operations

/-!
# The holdings of a registry

Beside the leases a registry lists the locks that each client holds. The two are kept apart, and
nothing but the operations of the registry ties them together.

A registry is `Tidy` if no lock has two leases and every lock that is listed for a client is the
lock of one of the client's leases; it is `Complete` if the lock of every lease is listed for the
holder. In a registry that is both the list says of each client what its leases say, and the number
of clients that hold locks is the number of holders (`Registry.clientsHolding_eq`).

Every operation keeps a registry tidy, and granting, renewing, pruning and passes of upkeep keep it
complete (`Registry.Preserves`). What does not is removal. It takes the lock from the client that it
is told, whether or not that client's lease is the one that is removed; so it leaves a complete
registry complete if and only if it leaves no lease of that client for that lock
(`Registry.complete_remove_iff`).

## Two properties and not one

An operation may be asked of a registry that is not complete, and it should make it no worse. So
what an operation preserves is said of both properties at once: it keeps a tidy registry tidy, and
it keeps a complete one complete if it is tidy. Being tidy is never lost, which is what makes the
condition for removal exact.

Operations that change nothing of a lease but its end have one argument for all of them
(`Registry.SameHolders`), and an operation that leaves the registry as it was before a lease was
entered, or drops some leases besides, has another one (`Registry.Tidy.preserves_enrol`).
-/

namespace LeaseLock

namespace Registry

variable {r r' r'' : Registry} {k id : LeaseId} {lock lock' : LockName}
  {client client' : ClientId} {l : Lease} {now target : Nat}

/-! ### Leases and holdings -/

/-- The registry keeps a lease of the client for the lock. -/
def Keeps (r : Registry) (client : ClientId) (lock : LockName) : Prop :=
  ∃ l ∈ r.leases, l.holder = client ∧ l.lock = lock

/-- What holds of the leases and the holdings of a registry, whatever is done with it. -/
structure Tidy (r : Registry) : Prop where
  /-- Every lease is kept under its own id. -/
  keyed : r.Keyed
  /-- No lock has two leases. -/
  unique : ∀ k k' l l', r.lease? k = some l → r.lease? k' = some l' → l.lock = l'.lock → k = k'
  /-- No client is listed without locks. -/
  noneEmpty : NoneEmpty r.holdings
  /-- A lock that is listed for a client is that of a lease of the client. -/
  keeps : ∀ client lock, Linked r.holdings client lock → r.Keeps client lock

/-- The lock of every lease is listed for its holder. -/
def Complete (r : Registry) : Prop :=
  ∀ client lock, r.Keeps client lock → Linked r.holdings client lock

theorem keeps_iff :
    r.Keeps client lock ↔ ∃ k l, r.lease? k = some l ∧ l.holder = client ∧ l.lock = lock := by
  simp only [Keeps, mem_leases_iff]
  constructor
  · rintro ⟨l, ⟨k, hk⟩, hl⟩
    exact ⟨k, l, hk, hl⟩
  · rintro ⟨k, l, hk, hl⟩
    exact ⟨l, ⟨k, hk⟩, hl⟩

/-- The list says what the leases say. -/
theorem linked_iff_keeps (h : r.Tidy) (hc : r.Complete) :
    Linked r.holdings client lock ↔ r.Keeps client lock :=
  ⟨h.keeps client lock, hc client lock⟩

/-- A client is listed if and only if it holds a lease. -/
theorem mem_keys_holdings_iff (h : r.Tidy) (hc : r.Complete) :
    client ∈ r.holdings.keys ↔ client ∈ r.leases.map (·.holder) := by
  rw [Dict.keys, List.mem_map, List.mem_map]
  constructor
  · rintro ⟨⟨client, locks⟩, hmem, rfl⟩
    have hlocks := Dict.get?_eq_some_iff.2 hmem
    obtain ⟨lock, hlock⟩ := h.noneEmpty client locks hlocks
    obtain ⟨l, hl, hholder, -⟩ := h.keeps client lock ⟨locks, hlocks, hlock⟩
    exact ⟨l, hl, hholder⟩
  · rintro ⟨l, hl, rfl⟩
    obtain ⟨locks, hlocks, -⟩ := hc l.holder l.lock ⟨l, hl, rfl, rfl⟩
    exact ⟨(l.holder, locks), Dict.get?_eq_some_iff.1 hlocks, rfl⟩

/-- As many clients hold locks as there are holders of leases. -/
theorem clientsHolding_eq (h : r.Tidy) (hc : r.Complete) :
    r.stats.clientsHolding = (r.leases.map (·.holder)).dedup.length := by
  have hperm : r.holdings.keys.Perm (r.leases.map (·.holder)).dedup := by
    refine (List.perm_ext_iff_of_nodup r.holdings.nodup_keys (List.nodup_dedup _)).2 fun client ↦ ?_
    rw [mem_keys_holdings_iff h hc, List.mem_dedup]
  rw [← hperm.length_eq, Dict.keys, List.length_map]
  rfl

/-- What an operation leaves is tidy, and complete if the registry was. -/
structure Preserves (r r' : Registry) : Prop where
  /-- The registry is tidy. -/
  tidy : r'.Tidy
  /-- It is as complete as before. -/
  complete : r.Complete → r'.Complete

theorem Preserves.trans (h : r.Preserves r') (h' : r'.Preserves r'') : r.Preserves r'' :=
  ⟨h'.tidy, h'.complete ∘ h.complete⟩

/-- Nothing is wrong with a registry that has forgotten everything. -/
theorem preserves_empty (hleases : r'.granted = ∅) (hholdings : r'.holdings = ∅) :
    r.Preserves r' := by
  have hnone : ∀ k l, r'.lease? k ≠ some l := by
    intro k l hl
    rw [Registry.lease?, hleases] at hl
    cases hl
  constructor
  · refine ⟨fun k l hl ↦ absurd hl (hnone k l), fun k k' l l' hl ↦ absurd hl (hnone k l), ?_, ?_⟩
    · rw [hholdings]
      exact noneEmpty_empty
    · rw [hholdings]
      exact fun _ _ hlinked ↦ absurd hlinked not_linked_empty
  · intro _ client lock hkeeps
    obtain ⟨k, l, hl, -⟩ := keeps_iff.1 hkeeps
    exact absurd hl (hnone k l)

/-! ### Operations that change no lease but its end -/

/-- The registries agree in their holdings and in what they say of leases but for when they end. -/
structure SameHolders (r r' : Registry) : Prop where
  /-- The holdings are the same. -/
  holdings : r'.holdings = r.holdings
  /-- The leases have the same ids, locks and holders. -/
  leases : ∀ k, (r'.lease? k).map (fun l ↦ (l.id, l.lock, l.holder)) =
    (r.lease? k).map fun l ↦ (l.id, l.lock, l.holder)

theorem SameHolders.symm (h : r.SameHolders r') : r'.SameHolders r :=
  ⟨h.holdings.symm, fun k ↦ (h.leases k).symm⟩

/-- A lease that is found behind the operation was there before. -/
theorem SameHolders.exists_lease (h : r.SameHolders r') (hl : r'.lease? k = some l) :
    ∃ l₀, r.lease? k = some l₀ ∧ l₀.id = l.id ∧ l₀.lock = l.lock ∧ l₀.holder = l.holder := by
  have hsame := h.leases k
  rw [hl, Option.map_some] at hsame
  obtain ⟨l₀, hl₀, heq⟩ := Option.map_eq_some_iff.1 hsame.symm
  simp only [Prod.mk.injEq] at heq
  exact ⟨l₀, hl₀, heq⟩

/-- Whoever had a lease has one. -/
theorem SameHolders.keeps (h : r.SameHolders r') (hkeeps : r'.Keeps client lock) :
    r.Keeps client lock := by
  obtain ⟨k, l, hl, hholder, hlock⟩ := keeps_iff.1 hkeeps
  obtain ⟨l₀, hl₀, -, hlock₀, hholder₀⟩ := h.exists_lease hl
  exact keeps_iff.2 ⟨k, l₀, hl₀, hholder₀.trans hholder, hlock₀.trans hlock⟩

/-- Such operations keep a registry tidy and complete. -/
theorem SameHolders.preserves (h : r.SameHolders r') (ht : r.Tidy) : r.Preserves r' := by
  refine ⟨⟨fun k l hl ↦ ?_, fun k k' l l' hl hl' hlock ↦ ?_, ?_, fun client lock hlinked ↦ ?_⟩,
    fun hc client lock hkeeps ↦ ?_⟩
  · obtain ⟨l₀, hl₀, hid, -⟩ := h.exists_lease hl
    exact hid ▸ ht.keyed k l₀ hl₀
  · obtain ⟨l₀, hl₀, -, hlock₀, -⟩ := h.exists_lease hl
    obtain ⟨l₁, hl₁, -, hlock₁, -⟩ := h.exists_lease hl'
    exact ht.unique k k' l₀ l₁ hl₀ hl₁ (hlock₀.trans (hlock.trans hlock₁.symm))
  · exact h.holdings ▸ ht.noneEmpty
  · exact h.symm.keeps (ht.keeps client lock (h.holdings ▸ hlinked))
  · exact h.holdings ▸ hc client lock (h.keeps hkeeps)

/-- What waiting clients do does not matter. -/
theorem sameHolders_of_eq (hleases : r'.granted = r.granted)
    (hholdings : r'.holdings = r.holdings) : r.SameHolders r' :=
  ⟨hholdings, fun k ↦ by rw [lease?_congr hleases]⟩

/-- To note a renewal changes the end of one lease. -/
theorem sameHolders_noteRenewal (r : Registry) (id : LeaseId) (target : Nat) :
    r.SameHolders (r.noteRenewal id target).1 := by
  constructor
  · rw [noteRenewal]
    split <;> rfl
  · intro k
    rw [lease?_noteRenewal]
    split
    · next hk =>
      rw [hk, Option.map_map]
      rfl
    · rfl

/-! ### Removal -/

/-- A removal takes the lock from the client that is told and from the holder. -/
theorem linked_remove :
    Linked (r.remove id lock client).holdings client' lock' ↔
      Linked r.holdings client' lock' ∧ ¬ (client' = client ∧ lock' = lock) ∧
        ∀ l, r.lease? id = some l → ¬ (client' = l.holder ∧ lock' = lock) := by
  rw [lease?]
  cases hg : r.granted.get? id with
  | none =>
    have hholdings : (r.remove id lock client).holdings = unlink r.holdings client lock := by
      rw [remove, hg]
    simp [hholdings, linked_unlink]
  | some g =>
    have hholdings : (r.remove id lock client).holdings =
        if g.lease.holder = client then unlink r.holdings client lock
        else unlink (unlink r.holdings client lock) g.lease.holder lock := by
      rw [remove, hg]
    simp only [Option.map_some, Option.some.injEq, forall_eq']
    rw [hholdings]
    split
    · next hholder =>
      rw [linked_unlink, hholder, and_self]
    · rw [linked_unlink, linked_unlink, and_assoc]

/-- A client without locks is not listed. -/
theorem noneEmpty_holdings_remove (h : NoneEmpty r.holdings) :
    NoneEmpty (r.remove id lock client).holdings := by
  rw [Registry.remove]
  dsimp only
  split
  · exact noneEmpty_unlink h
  · split
    · exact noneEmpty_unlink h
    · exact noneEmpty_unlink (noneEmpty_unlink h)

/-- The leases that remain are those under other ids. -/
theorem keeps_remove (h : r.Keyed) :
    (r.remove id lock client).Keeps client' lock' ↔
      ∃ l ∈ r.leases, l.id ≠ id ∧ l.holder = client' ∧ l.lock = lock' := by
  rw [keeps_iff]
  constructor
  · rintro ⟨k, l, hl, hsame⟩
    rw [lease?_remove] at hl
    split at hl
    · cases hl
    · next hne => exact ⟨l, mem_leases_iff.2 ⟨k, hl⟩, h k l hl ▸ hne, hsame⟩
  · rintro ⟨l, hl, hne, hsame⟩
    refine ⟨l.id, l, ?_, hsame⟩
    rw [lease?_remove, if_neg hne]
    exact h.mem_leases_iff.1 hl

/-- Removal keeps a registry tidy if a lease is removed under its own lock. -/
theorem Tidy.remove (h : r.Tidy) (hlock : ∀ l, r.lease? id = some l → l.lock = lock)
    (client : ClientId) : (r.remove id lock client).Tidy where
  keyed := h.keyed.remove
  unique k k' l l' hl hl' hsame :=
    h.unique k k' l l' (lease?_of_remove hl) (lease?_of_remove hl') hsame
  noneEmpty := noneEmpty_holdings_remove h.noneEmpty
  keeps client' lock' hlinked := by
    obtain ⟨hlinked, -, hother⟩ := linked_remove.1 hlinked
    obtain ⟨l, hl, hholder, hlock'⟩ := h.keeps client' lock' hlinked
    refine (keeps_remove h.keyed).2 ⟨l, hl, fun hid ↦ ?_, hholder, hlock'⟩
    have hl := hid ▸ h.keyed.mem_leases_iff.1 hl
    exact hother l hl ⟨hholder.symm, hlock'.symm.trans (hlock l hl)⟩

/-- **What removal leaves complete.** A complete registry stays complete if and only if no lease of
the client for the lock is left. -/
theorem complete_remove_iff (h : r.Tidy) (hc : r.Complete)
    (hlock : ∀ l, r.lease? id = some l → l.lock = lock) :
    (r.remove id lock client).Complete ↔ ¬ (r.remove id lock client).Keeps client lock := by
  constructor
  · exact fun hc' hkeeps ↦ (linked_remove.1 (hc' client lock hkeeps)).2.1 ⟨rfl, rfl⟩
  · intro hnone client' lock' hkeeps
    refine linked_remove.2 ⟨?_, ?_, fun l hl ↦ ?_⟩
    · obtain ⟨l, hl, -, hsame⟩ := (keeps_remove h.keyed).1 hkeeps
      exact hc client' lock' ⟨l, hl, hsame⟩
    · rintro ⟨rfl, rfl⟩
      exact hnone hkeeps
    · -- The lock has no other lease than the one that is removed.
      rintro ⟨-, rfl⟩
      obtain ⟨l', hl', hne, -, hlock'⟩ := (keeps_remove h.keyed).1 hkeeps
      exact hne (h.unique _ _ l' l (h.keyed.mem_leases_iff.1 hl') hl
        (hlock'.trans (hlock l hl).symm))

/-- Removing the only lease of a lock, if the lock has one. -/
theorem Tidy.preserves_remove (h : r.Tidy)
    (hown : ∀ k l, r.lease? k = some l → (l.lock = lock ↔ k = id)) (client : ClientId) :
    r.Preserves (r.remove id lock client) := by
  have hlock (l : Lease) (hl : r.lease? id = some l) : l.lock = lock := (hown id l hl).2 rfl
  refine ⟨h.remove hlock client, fun hc ↦ (complete_remove_iff h hc hlock).2 fun hkeeps ↦ ?_⟩
  obtain ⟨l, hl, hne, -, hl'⟩ := (keeps_remove h.keyed).1 hkeeps
  exact hne ((hown l.id l (h.keyed.mem_leases_iff.1 hl)).1 hl')

/-- A loop that removes leases, each the only one of its lock. -/
theorem Tidy.preserves_foldl_remove {α : Type} (idOf : α → LeaseId) (lockOf : α → LockName)
    (clientOf : α → ClientId) (xs : List α) (h : r.Tidy)
    (hown : ∀ x ∈ xs, ∀ k l, r.lease? k = some l → (l.lock = lockOf x ↔ k = idOf x)) :
    r.Preserves (xs.foldl (fun r x ↦ r.remove (idOf x) (lockOf x) (clientOf x)) r) := by
  induction xs generalizing r with
  | nil => exact ⟨h, id⟩
  | cons x xs ih =>
    have hfirst := h.preserves_remove (hown x List.mem_cons_self) (clientOf x)
    exact hfirst.trans (ih hfirst.tidy fun y hy k l hl ↦
      hown y (List.mem_cons_of_mem x hy) k l (lease?_of_remove hl))

/-- A lock of a tidy registry has the lease that it has. -/
theorem Tidy.own (h : r.Tidy) (hl : r.lease? id = some l) (k : LeaseId) (l' : Lease)
    (hl' : r.lease? k = some l') : l'.lock = l.lock ↔ k = id := by
  constructor
  · exact h.unique k id l' l hl' hl
  · rintro rfl
    rw [Option.some.inj (hl'.symm.trans hl)]

/-- Expired leases are removed for their own holders, so nothing else is lost. -/
theorem Tidy.preserves_prune (h : r.Tidy) (now : Nat) : r.Preserves (r.prune now).1 := by
  refine h.preserves_foldl_remove Lease.id Lease.lock Lease.holder _ fun l hl ↦ h.own ?_
  obtain ⟨k, hk⟩ := mem_values_iff.1 (List.mem_filter.1 hl).1
  rw [h.keyed k l hk, hk]

/-! ### Grants -/

/-- The registry with a lease entered, whatever else it has for the lock. -/
def enrol (r : Registry) (l : Lease) : Registry :=
  { r with
    holdings := link r.holdings l.holder l.lock
    granted := r.granted.insert l.id ⟨r.nextNumber, l⟩
    nextNumber := r.nextNumber + 1 }

/-- The new lease is found under its id. -/
theorem lease?_enrol (r : Registry) (l : Lease) (k : LeaseId) :
    (r.enrol l).lease? k = if k = l.id then some l else r.lease? k := by
  rw [Registry.lease?, enrol, Dict.get?_insert]
  split <;> rfl

/-- Its lock is listed for its holder. -/
theorem linked_enrol : Linked (r.enrol l).holdings client lock ↔
    (client = l.holder ∧ lock = l.lock) ∨ Linked r.holdings client lock :=
  linked_link

/-- Its holder has a lease for its lock, and nobody loses one. -/
theorem keeps_enrol (hfresh : r.lease? l.id = none) : (r.enrol l).Keeps client lock ↔
    (client = l.holder ∧ lock = l.lock) ∨ r.Keeps client lock := by
  simp only [keeps_iff, lease?_enrol]
  constructor
  · rintro ⟨k, l', hl', rfl, rfl⟩
    split at hl'
    · cases hl'
      exact .inl ⟨rfl, rfl⟩
    · exact .inr ⟨k, l', hl', rfl, rfl⟩
  · rintro (⟨rfl, rfl⟩ | ⟨k, l', hl', hsame⟩)
    · exact ⟨l.id, l, if_pos rfl, rfl, rfl⟩
    · refine ⟨k, l', ?_, hsame⟩
      rw [if_neg, hl']
      rintro rfl
      rw [hfresh] at hl'
      cases hl'

/-- Entering a lease under a fresh id, for a lock that has none. -/
theorem Tidy.preserves_enrol (h : r.Tidy) (hfresh : r.lease? l.id = none)
    (hfree : ∀ k l', r.lease? k = some l' → l'.lock ≠ l.lock) : r.Preserves (r.enrol l) := by
  refine ⟨⟨fun k l' hl' ↦ ?_, fun k k' l₁ l₂ hl₁ hl₂ hlock ↦ ?_, ?_, fun client lock hlist ↦ ?_⟩,
    fun hc client lock hl ↦ ?_⟩
  · rw [lease?_enrol] at hl'
    split at hl'
    · next hk =>
      cases hl'
      exact hk.symm
    · exact h.keyed k l' hl'
  · rw [lease?_enrol] at hl₁ hl₂
    split at hl₁
    · split at hl₂
      · next hk hk' => rw [hk, hk']
      · cases hl₁
        exact absurd hlock.symm (hfree k' l₂ hl₂)
    · split at hl₂
      · cases hl₂
        exact absurd hlock (hfree k l₁ hl₁)
      · exact h.unique k k' l₁ l₂ hl₁ hl₂ hlock
  · exact noneEmpty_link h.noneEmpty
  · exact (keeps_enrol hfresh).2 ((linked_enrol.1 hlist).imp_right (h.keeps client lock))
  · exact linked_enrol.2 (((keeps_enrol hfresh).1 hl).imp_right (hc client lock))

/-- A grant under a fresh id. -/
theorem Tidy.preserves_insert (h : r.Tidy) (hfresh : r.lease? l.id = none) :
    r.Preserves (r.insert l) := by
  let stale := r.granted.values.filter fun g ↦ g.lease.lock == l.lock
  have hdropped : r.Preserves
      (stale.foldl (fun r g ↦ r.remove g.lease.id l.lock g.lease.holder) r) := by
    refine h.preserves_foldl_remove (·.lease.id) (fun _ ↦ l.lock) (·.lease.holder) stale
      fun g hg k l' hl' ↦ ?_
    obtain ⟨⟨k₀, hk₀⟩, hlock⟩ :=
      (mem_filter_values_iff (p := (·.lock == l.lock))).1 (List.mem_map_of_mem hg)
    rw [← beq_iff_eq.1 hlock, h.keyed k₀ g.lease hk₀]
    exact h.own hk₀ k l' hl'
  have hleft (k : LeaseId) :
      (stale.foldl (fun r g ↦ r.remove g.lease.id l.lock g.lease.holder) r).lease? k =
        (r.lease? k).filter fun l' ↦ !(l'.lock == l.lock) :=
    h.keyed.lease?_foldl_remove Grant.lease (·.lock == l.lock) (fun _ ↦ l.lock) stale fun _ ↦
      mem_filter_values_iff (p := (·.lock == l.lock))
  refine hdropped.trans (hdropped.tidy.preserves_enrol ?_ fun k l' hl' ↦ ?_)
  · rw [hleft, hfresh]
    rfl
  · rw [hleft, Option.filter_eq_some_iff] at hl'
    simpa using hl'.2

end Registry

namespace Coordinator

variable {c : Coordinator} {s : Store} {now : Nat} {lock : LockName} {id k : LeaseId} {l l' : Lease}
  {o : Outcome UpkeepReport}

/-- A grant under a fresh id keeps a registry tidy and complete. -/
theorem preserves_grant (h : c.registry.Tidy) (now : Nat) (request : LockRequest)
    (ttl : Duration) (hfresh : c.registry.lease? id = none) :
    c.registry.Preserves (c.grant now request id ttl).2.registry :=
  h.preserves_insert hfresh

/-- Who waits does not matter. -/
theorem preserves_of_eq {c' : Coordinator} (h : c.registry.Tidy)
    (hleases : c'.registry.granted = c.registry.granted)
    (hholdings : c'.registry.holdings = c.registry.holdings) :
    c.registry.Preserves c'.registry :=
  (Registry.sameHolders_of_eq hleases hholdings).preserves h

/-- So does asking for a lock. -/
theorem preserves_acquire (h : c.registry.Tidy) (hfresh : c.registry.lease? id = none) (s : Store)
    (now tick : Nat) (request : LockRequest) (lag : Nat) :
    c.registry.Preserves (c.acquire s now tick id request lag).coordinator.registry := by
  obtain ⟨fault, hcase⟩ | ⟨s', -, hcase⟩ | ⟨wake, hcase⟩ | ⟨fault, hcase⟩ :=
    c.acquire_cases s now tick id request lag
  all_goals rw [hcase]
  · exact preserves_of_eq h rfl rfl
  · exact preserves_grant h (now + lag) request _ hfresh
  · exact preserves_of_eq h rfl rfl
  · exact preserves_of_eq h rfl rfl

/-- So does a try of an acquisition that waits. -/
theorem preserves_poll {p : Pending} (h : c.registry.Tidy)
    (hfresh : c.registry.lease? p.id = none) (s : Store) (now tick lag : Nat) :
    c.registry.Preserves (c.poll s now tick p lag).coordinator.registry := by
  have hcancel : c.registry.Preserves (c.cancel p).registry := preserves_of_eq h rfl rfl
  obtain ⟨wake, hcase⟩ | ⟨fault, hcase⟩ | ⟨s', -, hcase⟩ := c.poll_cases s now tick p lag
  all_goals rw [hcase]
  · exact preserves_of_eq h rfl rfl
  · exact hcancel
  · exact hcancel.trans (preserves_grant hcancel.tidy (now + lag) p.request p.ttl hfresh)

/-- A renewal changes the end of one lease. -/
theorem sameHolders_renew (c : Coordinator) (s : Store) (now : Nat) (lock : LockName)
    (id : LeaseId) (extension : Option Duration) (lag : Nat) :
    c.registry.SameHolders (c.renew s now lock id extension lag).coordinator.registry := by
  obtain ⟨fault, ho⟩ | ⟨s', -, ho⟩ := c.renew_cases s now lock id extension lag
  · rw [ho]
    exact Registry.sameHolders_of_eq rfl rfl
  · rw [ho]
    dsimp only
    rw [registry_noteRenewal]
    exact c.registry.sameHolders_noteRenewal id _

/-- A candidate of a pass that has the only lease of its lock. -/
theorem preserves_renewDue (now lag : Nat) (h : o.coordinator.registry.Tidy)
    (hown : ∀ k l', o.coordinator.registry.lease? k = some l' → (l'.lock = l.lock ↔ k = l.id)) :
    o.coordinator.registry.Preserves (renewDue now lag o l).coordinator.registry := by
  have hrenew := o.coordinator.sameHolders_renew o.store now l.lock l.id none lag
  have hkept := hrenew.preserves h
  rw [renewDue]
  dsimp only
  split
  · refine hkept.trans (hkept.tidy.preserves_remove (fun k l' hl' ↦ ?_) l.holder)
    obtain ⟨l₀, hl₀, -, hlock, -⟩ := hrenew.exists_lease hl'
    exact hlock ▸ hown k l₀ hl₀
  · exact hkept

/-- What is known behind a candidate was known before, for the same lock. -/
theorem exists_lease_of_renewDue {lag : Nat}
    (hl : (renewDue now lag o l).coordinator.registry.lease? k = some l') :
    ∃ l₀, o.coordinator.registry.lease? k = some l₀ ∧ l₀.lock = l'.lock := by
  have hrenew := o.coordinator.sameHolders_renew o.store now l.lock l.id none lag
  have hback
      (hl : (o.coordinator.renew o.store now l.lock l.id none lag).coordinator.registry.lease? k =
        some l') : ∃ l₀, o.coordinator.registry.lease? k = some l₀ ∧ l₀.lock = l'.lock := by
    obtain ⟨l₀, hl₀, -, hlock, -⟩ := hrenew.exists_lease hl
    exact ⟨l₀, hl₀, hlock⟩
  rw [renewDue] at hl
  dsimp only at hl
  split at hl
  · exact hback (Registry.lease?_of_remove hl)
  · exact hback hl

/-- The renewals of a pass keep a registry tidy and complete, if the leases of the candidates are
the only ones for their locks. -/
theorem preserves_renewAll (w : Watch) (ls : List Lease) (h : o.coordinator.registry.Tidy)
    (hown : ∀ l ∈ ls, ∀ k l', o.coordinator.registry.lease? k = some l' →
      (l'.lock = l.lock ↔ k = l.id)) :
    o.coordinator.registry.Preserves (renewAll w o ls).2.coordinator.registry := by
  induction ls generalizing w o with
  | nil => exact ⟨h, id⟩
  | cons l ls ih =>
    have hfirst := preserves_renewDue w.start w.lag h (hown l List.mem_cons_self)
    refine hfirst.trans (ih _ hfirst.tidy fun l₁ hl₁ k l' hl' ↦ ?_)
    obtain ⟨l₀, hl₀, hlock⟩ := exists_lease_of_renewDue hl'
    exact hlock ▸ hown l₁ (List.mem_cons_of_mem l hl₁) k l₀ hl₀

/-- A pass of upkeep forgets leases of which each is the only one of its lock. -/
theorem preserves_upkeep (h : c.registry.Tidy) (s : Store) (now : Nat) (interval : Duration)
    (lags : List (Nat × Nat)) :
    c.registry.Preserves (c.upkeep s now interval lags).coordinator.registry := by
  let o : Outcome UpkeepReport := ⟨{ pruned := (c.registry.prune now).2 }, s,
    { c with registry := (c.registry.prune now).1 }⟩
  have hprune : c.registry.Preserves o.coordinator.registry := h.preserves_prune now
  rw [upkeep]
  dsimp only
  split
  · exact hprune
  · rw [coordinator_purgeAfter]
    refine hprune.trans (preserves_renewAll (o := o) _ _ hprune.tidy fun l hl ↦ ?_)
    exact hprune.tidy.own (hprune.tidy.keyed.mem_leases_iff.1 (List.mem_filter.1 hl).1)

end Coordinator

end LeaseLock
