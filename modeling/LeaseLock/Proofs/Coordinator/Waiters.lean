import LeaseLock.Proofs.Coordinator.Leases

/-!
# The waiting clients of a registry

What a registry says about clients that wait, seen through the list that it shows
(`Registry.Waits`), and what each operation does to it. Only noting and dismissing a client and
clearing the registry touch it; granting, renewing and forgetting leases do not.

The list is a map of sets in which no set is empty (`NoneEmpty`). So a registry that lists nobody
shows no lock and counts no client.

The wait-for graph of a registry is made of these clients and of the leases that have not expired:
an edge is a client that waits, with the lease that it waits for (`Registry.waits_of_edge`).

## Pairs in place of sets

The map has a set of clients for each lock, and `Registry.Waits` forgets about the sets: it is a
relation of locks and clients. A client that registers twice is in the relation once, and it is out
of the relation as soon as one of its waits ends. That no set is empty does not matter for the
relation. It matters for what is shown, where a lock with an empty set would be a line of its own.

`Linked`, `link` and `unlink` are used for two maps, the waiting clients by lock and the locks held
by client, so what they do is said of any map of sets (`linked_link`, `linked_unlink`) and not of
registries.

## The graph

The graph is built by two folds, over the waiting clients and over the leases. The first one does
not touch the holders and the second one does not touch the wishes, so each half is characterised by
one fold. Of the holders only one direction is said here: who holds a lock in the graph has an
unexpired lease. Which of several leases of a lock would win does not come up until it is known that
there is one lease at most.
-/

namespace LeaseLock

/-! ### Maps of sets -/

/-- The set at `k` has the member `x`. -/
def Linked (d : Dict Names) (k x : String) : Prop := ∃ s, d.get? k = some s ∧ x ∈ s

/-- No set of the map is empty. -/
def NoneEmpty (d : Dict Names) : Prop := ∀ k s, d.get? k = some s → ∃ x, x ∈ s

variable {d : Dict Names} {j k x y : String}

theorem not_linked_empty : ¬ Linked ∅ k x := by
  rintro ⟨s, hs, -⟩
  cases hs

theorem noneEmpty_empty : NoneEmpty ∅ := by
  intro k s hs
  cases hs

/-- A set that is not empty has an element. -/
theorem Names.exists_mem_of_isEmpty_eq_false {s : Names} (h : s.isEmpty = false) :
    ∃ x, x ∈ s := by
  cases hs : s.entries with
  | nil => simp [Dict.isEmpty, hs] at h
  | cons e es =>
    refine ⟨e.1, Names.mem_toList.1 ?_⟩
    rw [Names.toList, Dict.keys, hs]
    exact List.mem_cons_self

/-- A set that is empty has none. -/
theorem Names.not_mem_of_isEmpty {s : Names} (h : s.isEmpty = true) : ¬ x ∈ s := by
  rw [← Names.mem_toList, Names.toList, Dict.keys, List.isEmpty_iff.1 h]
  exact List.not_mem_nil

/-- A set that is missing counts as empty. -/
theorem Names.mem_getD_empty {o : Option Names} :
    x ∈ (o.getD ∅ : Names) ↔ ∃ s, o = some s ∧ x ∈ s := by
  cases o with
  | none => simpa using Names.not_mem_empty
  | some s => simp

namespace Registry

/-- Linking adds one pair. -/
theorem linked_link : Linked (link d k x) j y ↔ (j = k ∧ y = x) ∨ Linked d j y := by
  rw [Linked, link, Dict.get?_insert]
  by_cases hj : j = k
  · subst hj
    simp only [if_true, Option.some.injEq, exists_eq_left', Names.mem_add, true_and,
      Names.mem_getD_empty, Linked]
  · simp only [hj, if_false, false_and, false_or, Linked]

/-- Unlinking takes one pair away, whether its set is kept or goes with it. -/
theorem linked_unlink :
    Linked (unlink d k x) j y ↔ Linked d j y ∧ ¬ (j = k ∧ y = x) := by
  rw [unlink]
  cases hk : d.get? k with
  | none =>
    refine (and_iff_left_of_imp ?_).symm
    rintro ⟨s, hs, -⟩ ⟨rfl, -⟩
    rw [hk] at hs
    cases hs
  | some s =>
    by_cases hj : j = k
    · subst hj
      have hold : Linked d j y ↔ y ∈ s := by simp [Linked, hk]
      rw [hold]
      dsimp only
      split
      · next hempty =>
        -- The last member goes, and the set with it.
        rw [Linked, Dict.get?_erase, if_pos rfl]
        refine iff_of_false (by simp) fun ⟨hy, hne⟩ ↦ ?_
        exact Names.not_mem_of_isEmpty hempty (Names.mem_erase.2 ⟨fun h ↦ hne ⟨rfl, h⟩, hy⟩)
      · rw [Linked, Dict.get?_insert, if_pos rfl]
        simp only [Option.some.injEq, exists_eq_left', Names.mem_erase, true_and]
        exact and_comm
    · have helsewhere : Linked (unlink d k x) j y ↔ Linked d j y := by
        rw [Linked, unlink, hk, Linked]
        dsimp only
        split
        · rw [Dict.get?_erase, if_neg hj]
        · rw [Dict.get?_insert, if_neg hj]
      rw [unlink, hk] at helsewhere
      rw [helsewhere]
      exact (and_iff_left fun h ↦ hj h.1).symm

/-- Linking leaves no set empty. -/
theorem noneEmpty_link (h : NoneEmpty d) : NoneEmpty (link d k x) := by
  intro j s hs
  rw [link, Dict.get?_insert] at hs
  split at hs
  · cases hs
    exact ⟨x, Names.mem_add.2 (.inl rfl)⟩
  · exact h j s hs

/-- Unlinking drops the set that it empties. -/
theorem noneEmpty_unlink (h : NoneEmpty d) : NoneEmpty (unlink d k x) := by
  intro j s hs
  rw [unlink] at hs
  split at hs
  · exact h j s hs
  · dsimp only at hs
    split at hs
    · rw [Dict.get?_erase] at hs
      split at hs
      · cases hs
      · exact h j s hs
    · next hempty =>
      rw [Dict.get?_insert] at hs
      split at hs
      · cases hs
        exact Names.exists_mem_of_isEmpty_eq_false (Bool.not_eq_true _ ▸ hempty)
      · exact h j s hs

/-! ### Waiting clients -/

variable {r : Registry} {lock lock' : LockName} {client client' : ClientId} {id : LeaseId}
  {l : Lease} {now target : Nat}

/-- The registry lists `client` among those that wait for `lock`. -/
def Waits (r : Registry) (lock : LockName) (client : ClientId) : Prop :=
  ∃ clients, (lock, clients) ∈ r.waiters ∧ client ∈ clients

/-- Clients wait who are linked to their locks. -/
theorem waits_iff_linked : r.Waits lock client ↔ Linked r.waiting lock client := by
  simp only [Waits, waiters, List.mem_map, Linked, Dict.get?_eq_some_iff]
  constructor
  · rintro ⟨clients, ⟨⟨lock', s⟩, hmem, heq⟩, hclient⟩
    cases heq
    exact ⟨s, hmem, Names.mem_toList.1 hclient⟩
  · rintro ⟨s, hmem, hclient⟩
    exact ⟨_, ⟨(lock, s), hmem, rfl⟩, Names.mem_toList.2 hclient⟩

/-- Who waits is read off the waiting clients alone. -/
theorem waits_congr {r' : Registry} (h : r'.waiting = r.waiting) :
    r'.Waits lock client ↔ r.Waits lock client := by
  rw [waits_iff_linked, waits_iff_linked, h]

/-- Noting a client adds one pair. -/
theorem waits_enlist :
    (r.enlist lock client).Waits lock' client' ↔
      (lock' = lock ∧ client' = client) ∨ r.Waits lock' client' := by
  rw [waits_iff_linked, waits_iff_linked]
  exact linked_link

/-- Dismissing a client takes one pair away, as often as it was noted. -/
theorem waits_dismiss :
    (r.dismiss lock client).Waits lock' client' ↔
      r.Waits lock' client' ∧ ¬ (lock' = lock ∧ client' = client) := by
  rw [waits_iff_linked, waits_iff_linked]
  exact linked_unlink

/-- Nobody waits in a registry with an empty map. -/
theorem not_waits_of_waiting_eq_empty (h : r.waiting = ∅) : ¬ r.Waits lock client := by
  rw [waits_iff_linked, h]
  exact not_linked_empty

/-- A registry that lists no client shows no lock and counts nobody. -/
theorem waiters_eq_nil_of_not_waits (h : NoneEmpty r.waiting)
    (hnone : ∀ lock client, ¬ r.Waits lock client) :
    r.waiters = [] ∧ r.stats.waitingClients = 0 := by
  have hempty : r.waiting = ∅ := by
    refine Dict.ext_get? fun lock ↦ ?_
    cases hlock : r.waiting.get? lock with
    | none => rfl
    | some s =>
      obtain ⟨client, hclient⟩ := h lock s hlock
      exact absurd (waits_iff_linked.2 ⟨s, hlock, hclient⟩) (hnone lock client)
  constructor
  · rw [waiters, hempty]
    rfl
  · simp only [stats, hempty]
    rfl

/-! ### Operations on leases -/

/-- Forgetting a lease leaves the waiting clients alone. -/
@[simp] theorem waiting_remove : (r.remove id lock client).waiting = r.waiting := rfl

/-- So does forgetting any number of leases. -/
theorem waiting_foldl_remove {α : Type} (idOf : α → LeaseId) (lockOf : α → LockName)
    (clientOf : α → ClientId) (xs : List α) (r : Registry) :
    (xs.foldl (fun r x ↦ r.remove (idOf x) (lockOf x) (clientOf x)) r).waiting = r.waiting := by
  induction xs generalizing r with
  | nil => rfl
  | cons x xs ih => rw [List.foldl_cons, ih, waiting_remove]

/-- A grant leaves the waiting clients alone, even if it ends their wait. -/
@[simp] theorem waiting_insert : (r.insert l).waiting = r.waiting :=
  waiting_foldl_remove (fun g : Grant ↦ g.lease.id) (fun _ ↦ l.lock) (fun g ↦ g.lease.holder) _ r

/-- A renewal leaves the waiting clients alone. -/
@[simp] theorem waiting_noteRenewal : (r.noteRenewal id target).1.waiting = r.waiting := by
  rw [noteRenewal]
  split <;> rfl

/-- Pruning leaves the waiting clients alone. -/
@[simp] theorem waiting_prune : (r.prune now).1.waiting = r.waiting :=
  waiting_foldl_remove Lease.id Lease.lock Lease.holder _ r

/-! ### The wait-for graph -/

/-- The wishes of the graph are the pairs that were added. -/
theorem linked_wants_foldl_addWait {waits : List (ClientId × LockName)} {g : WaitForGraph} :
    Linked (waits.foldl (fun g (client, lock) ↦ g.addWait client lock) g).wants client lock ↔
      (client, lock) ∈ waits ∨ Linked g.wants client lock := by
  induction waits generalizing g with
  | nil => simp
  | cons w waits ih =>
    obtain ⟨c, l⟩ := w
    have hfirst : Linked (g.addWait c l).wants client lock ↔
        (client = c ∧ lock = l) ∨ Linked g.wants client lock := linked_link
    rw [List.foldl_cons, ih, hfirst, List.mem_cons, Prod.mk.injEq, or_left_comm, or_assoc]

/-- Adding wishes changes no holder. -/
theorem foldl_addWait_holders {waits : List (ClientId × LockName)} {g : WaitForGraph} :
    (waits.foldl (fun g (client, lock) ↦ g.addWait client lock) g).holders = g.holders := by
  induction waits generalizing g with
  | nil => rfl
  | cons w waits ih => exact ih

/-- Adding holders changes no wish. -/
theorem foldl_addHold_wants {holds : List Lease} {g : WaitForGraph} :
    (holds.foldl (fun g l ↦ g.addHold l.lock l.holder) g).wants = g.wants := by
  induction holds generalizing g with
  | nil => rfl
  | cons l holds ih => exact ih

/-- Every holder of the graph comes from a lease. -/
theorem exists_of_foldl_addHold {holds : List Lease} {g : WaitForGraph}
    (h : (holds.foldl (fun g l ↦ g.addHold l.lock l.holder) g).holders.get? lock = some client) :
    (∃ l ∈ holds, l.lock = lock ∧ l.holder = client) ∨ g.holders.get? lock = some client := by
  induction holds generalizing g with
  | nil => exact .inr h
  | cons l holds ih =>
    rcases ih h with ⟨l', hl', hlock⟩ | h
    · exact .inl ⟨l', List.mem_cons_of_mem _ hl', hlock⟩
    · replace h : (g.holders.insert l.lock l.holder).get? lock = some client := h
      rw [Dict.get?_insert] at h
      split at h
      · next hlock =>
        cases h
        exact .inl ⟨l, List.mem_cons_self, hlock.symm, rfl⟩
      · exact .inr h

/-- The clients of the graph that want a lock are those that wait for it. -/
theorem linked_wants_waitForGraph :
    Linked (r.waitForGraph now).wants client lock ↔ r.Waits lock client := by
  rw [waitForGraph, foldl_addHold_wants, linked_wants_foldl_addWait,
    or_iff_left not_linked_empty, waits_iff_linked]
  simp only [List.mem_flatMap, List.mem_map, Prod.mk.injEq, Linked, Dict.get?_eq_some_iff]
  constructor
  · rintro ⟨⟨lock', s⟩, hmem, client', hclient, rfl, rfl⟩
    exact ⟨s, hmem, Names.mem_toList.1 hclient⟩
  · rintro ⟨s, hmem, hclient⟩
    exact ⟨(lock, s), hmem, client, Names.mem_toList.2 hclient, rfl, rfl⟩

/-- An edge of the graph is a client that waits for a lock, and a lease of that lock that has not
expired. -/
theorem waits_of_edge {c d : ClientId} (h : (r.waitForGraph now).Edge c lock d) :
    r.Waits lock c ∧
      ∃ k l, r.lease? k = some l ∧ now < l.expiresAt ∧ l.lock = lock ∧ l.holder = d := by
  obtain ⟨hwants, hholder⟩ := h
  refine ⟨linked_wants_waitForGraph.1 hwants, ?_⟩
  rcases exists_of_foldl_addHold hholder with ⟨l, hl, hlock, hd⟩ | hnone
  · obtain ⟨hl, hlive⟩ := List.mem_filter.1 hl
    obtain ⟨k, hk⟩ := mem_values_iff.1 hl
    refine ⟨k, l, hk, ?_, hlock, hd⟩
    simpa [Lease.isExpired] using hlive
  · rw [foldl_addWait_holders] at hnone
    cases hnone

end Registry

end LeaseLock
