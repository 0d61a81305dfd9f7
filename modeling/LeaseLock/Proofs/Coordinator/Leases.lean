import LeaseLock.Coordinator.Basic

/-!
# The leases of a registry

What each operation of a registry does to the leases that it knows, seen through `Registry.lease?`.
Dropping the leases of a lock and dropping those that have expired are loops over removals; seen
through look-ups each of them is a filter.

A registry is `Keyed` if it keeps every lease under the lease's own id. Every operation keeps it so,
and only in such a registry does removing a lease by its id remove that lease and no other.

## Look-ups and listings

A registry is listed in the order in which its leases were entered, and that order matters to those
who read the list. The theorems here are about what is in a registry, where order does not matter.
In a keyed registry the two views agree: what is listed is what is found, and no id is listed twice
(`Registry.Keyed.mem_leases_iff`, `Registry.Keyed.nodup_leases`).

## Durations of renewals

A renewal aims at an instant and hands the store the time until then, in milliseconds and rounded
up to at least one. At the start of the module that is undone: a target that lies ahead and is a
word is what the store will write if its clock shows the same (`add_keyMillis_ofMillis_sub`), and a
later clock makes it later.
-/

namespace LeaseLock

namespace Duration

variable {now target : Nat}

/-- A key that is kept for the time until `target` lasts until then at least. -/
theorem le_add_keyMillis_ofMillis_sub (hfits : target < wordBound) :
    target ≤ now + (ofMillis (target - now)).keyMillis := by
  rw [keyMillis, wholeMillis_ofMillis (by omega)]
  omega

/-- If `target` is ahead, the key lasts until then exactly. -/
theorem add_keyMillis_ofMillis_sub (hlt : now < target) (hfits : target < wordBound) :
    now + (ofMillis (target - now)).keyMillis = target := by
  rw [keyMillis, wholeMillis_ofMillis (by omega)]
  omega

end Duration

/-- No key of a map occurs twice. -/
theorem Dict.nodup_keys {β : Type} (d : Dict β) : d.keys.Nodup := by
  refine List.pairwise_map.2 (d.ordered.imp fun hlt heq ↦ ?_)
  exact String.lt_irrefl _ (heq ▸ hlt)

namespace Registry

variable {r : Registry} {k id : LeaseId} {lock : LockName} {client : ClientId} {l : Lease}
  {now target : Nat}

/-! ### Leases under their own ids -/

/-- Every lease is kept under its own id. -/
def Keyed (r : Registry) : Prop := ∀ k l, r.lease? k = some l → l.id = k

theorem keyed_empty : ({} : Registry).Keyed := by
  intro k l h
  cases h

theorem lease?_congr {r' : Registry} (h : r'.granted = r.granted) : r'.lease? k = r.lease? k := by
  rw [lease?, h, lease?]

theorem Keyed.of_granted_eq {r' : Registry} (h : r.Keyed) (hr : r'.granted = r.granted) :
    r'.Keyed := by
  intro k l hl
  rw [lease?_congr hr] at hl
  exact h k l hl

/-- The leases that are kept are those that are found. -/
theorem mem_values_iff : l ∈ r.granted.values.map (·.lease) ↔ ∃ k, r.lease? k = some l := by
  rw [Dict.values, List.map_map, List.mem_map]
  constructor
  · rintro ⟨⟨k, g⟩, hmem, rfl⟩
    refine ⟨k, ?_⟩
    rw [lease?, Dict.get?_eq_some_iff.2 hmem]
    rfl
  · rintro ⟨k, h⟩
    obtain ⟨g, hg, rfl⟩ := Option.map_eq_some_iff.1 h
    exact ⟨(k, g), Dict.get?_eq_some_iff.1 hg, rfl⟩

/-- The leases of the grants whose leases satisfy `p`. -/
theorem mem_filter_values_iff {p : Lease → Bool} :
    l ∈ (r.granted.values.filter fun g ↦ p g.lease).map (·.lease) ↔
      (∃ k, r.lease? k = some l) ∧ p l = true := by
  rw [← mem_values_iff, List.mem_map, List.mem_map]
  simp only [List.mem_filter]
  constructor
  · rintro ⟨g, ⟨hg, hp⟩, rfl⟩
    exact ⟨⟨g, hg, rfl⟩, hp⟩
  · rintro ⟨⟨g, hg, rfl⟩, hp⟩
    exact ⟨g, ⟨hg, hp⟩, rfl⟩

theorem mem_insertByGrant {a g : Grant} {gs : List Grant} :
    a ∈ insertByGrant g gs ↔ a = g ∨ a ∈ gs := by
  induction gs with
  | nil => simp [insertByGrant]
  | cons h hs ih =>
    rw [insertByGrant]
    split
    · rw [List.mem_cons]
    · rw [List.mem_cons, ih, List.mem_cons]
      exact or_left_comm

theorem mem_byGrant {g : Grant} {gs : List Grant} : g ∈ byGrant gs ↔ g ∈ gs := by
  induction gs with
  | nil => rfl
  | cons h hs ih =>
    rw [byGrant, List.foldr_cons, mem_insertByGrant, ← byGrant, ih, List.mem_cons]

/-- The leases that are listed are the leases that are kept. -/
theorem mem_leases_iff : l ∈ r.leases ↔ ∃ k, r.lease? k = some l := by
  rw [← mem_values_iff, leases, List.mem_map, List.mem_map]
  simp only [mem_byGrant]

/-- A lease is listed if it is found under its own id. -/
theorem Keyed.mem_leases_iff (h : r.Keyed) : l ∈ r.leases ↔ r.lease? l.id = some l := by
  rw [Registry.mem_leases_iff]
  constructor
  · rintro ⟨k, hk⟩
    rw [h k l hk, hk]
  · exact fun hl ↦ ⟨l.id, hl⟩

theorem perm_insertByGrant (g : Grant) (gs : List Grant) :
    (insertByGrant g gs).Perm (g :: gs) := by
  induction gs with
  | nil => exact .refl _
  | cons h hs ih =>
    rw [insertByGrant]
    split
    · exact .refl _
    · exact (ih.cons h).trans (.swap g h hs)

theorem perm_byGrant (gs : List Grant) : (byGrant gs).Perm gs := by
  induction gs with
  | nil => exact .refl _
  | cons g gs ih => exact (perm_insertByGrant g _).trans (ih.cons g)

/-- No id is listed twice. -/
theorem Keyed.nodup_leases (h : r.Keyed) : (r.leases.map (·.id)).Nodup := by
  have hids : (r.granted.values.map (·.lease)).map (·.id) = r.granted.keys := by
    rw [Dict.values, List.map_map, List.map_map, Dict.keys]
    refine List.map_congr_left fun e he ↦ h e.1 e.2.lease ?_
    rw [lease?, Dict.get?_eq_some_iff.2 he, Option.map_some]
  have hperm : (r.leases.map (·.id)).Perm r.granted.keys :=
    hids ▸ ((perm_byGrant r.granted.values).map _).map _
  exact hperm.nodup_iff.2 r.granted.nodup_keys

/-! ### Removal -/

/-- A removal takes away the lease under the id, whoever holds it. -/
theorem lease?_remove :
    (r.remove id lock client).lease? k = if k = id then none else r.lease? k := by
  show ((r.granted.erase id).get? k).map _ = _
  rw [Dict.get?_erase]
  split <;> rfl

/-- What is known behind a removal was known before. -/
theorem lease?_of_remove (hl : (r.remove id lock client).lease? k = some l) :
    r.lease? k = some l := by
  rw [lease?_remove] at hl
  split at hl
  · cases hl
  · exact hl

/-- Removals keep a registry keyed. -/
theorem Keyed.remove (h : r.Keyed) : (r.remove id lock client).Keyed :=
  fun k l hl ↦ h k l (lease?_of_remove hl)

/-- A loop of removals forgets the ids that it goes through. -/
theorem lease?_foldl_remove {α : Type} (idOf : α → LeaseId) (lockOf : α → LockName)
    (clientOf : α → ClientId) (xs : List α) (r : Registry) :
    (xs.foldl (fun r x ↦ r.remove (idOf x) (lockOf x) (clientOf x)) r).lease? k =
      if k ∈ xs.map idOf then none else r.lease? k := by
  induction xs generalizing r with
  | nil => simp
  | cons x xs ih =>
    rw [List.foldl_cons, ih, lease?_remove]
    by_cases hx : k = idOf x
    · simp [hx]
    · simp [hx]

/-- Where leases are kept under their ids, a loop that removes the leases with `p` keeps the other
ones. -/
theorem Keyed.lease?_foldl_remove (h : r.Keyed) {α : Type} (leaseOf : α → Lease) (p : Lease → Bool)
    (lockOf : α → LockName) (xs : List α)
    (hxs : ∀ l, l ∈ xs.map leaseOf ↔ (∃ k, r.lease? k = some l) ∧ p l = true) :
    (xs.foldl (fun r x ↦ r.remove (leaseOf x).id (lockOf x) (leaseOf x).holder) r).lease? k =
      (r.lease? k).filter fun l ↦ !p l := by
  rw [Registry.lease?_foldl_remove (fun x ↦ (leaseOf x).id) lockOf fun x ↦ (leaseOf x).holder]
  have hmem : k ∈ xs.map (fun x ↦ (leaseOf x).id) ↔ ∃ l, r.lease? k = some l ∧ p l = true := by
    rw [show (fun x ↦ (leaseOf x).id) = Lease.id ∘ leaseOf from rfl, ← List.map_map, List.mem_map]
    constructor
    · rintro ⟨l, hl, rfl⟩
      obtain ⟨⟨k, hk⟩, hp⟩ := (hxs l).1 hl
      refine ⟨l, ?_, hp⟩
      rw [h k l hk, hk]
    · rintro ⟨l, hl, hp⟩
      exact ⟨l, (hxs l).2 ⟨⟨k, hl⟩, hp⟩, h k l hl⟩
  cases hk : r.lease? k with
  | none => simp
  | some l =>
    rw [Option.filter_some]
    cases hp : p l with
    | true =>
      rw [if_pos (hmem.2 ⟨l, hk, hp⟩)]
      rfl
    | false =>
      rw [if_neg, if_pos]
      · rfl
      · rintro hin
        obtain ⟨l', hl', hp'⟩ := hmem.1 hin
        obtain rfl : l = l' := Option.some.inj (hk.symm.trans hl')
        exact absurd (hp.symm.trans hp') (by decide)

/-! ### Grants -/

/-- A grant takes the place of every lease that was known for its lock. -/
theorem Keyed.lease?_insert (h : r.Keyed) (l : Lease) :
    (r.insert l).lease? k =
      if k = l.id then some l else (r.lease? k).filter fun l' ↦ !(l'.lock == l.lock) := by
  rw [insert, lease?, Dict.get?_insert]
  split
  · rfl
  · exact h.lease?_foldl_remove Grant.lease (·.lock == l.lock) (fun _ ↦ l.lock) _ fun _ ↦
      mem_filter_values_iff (p := (·.lock == l.lock))

/-- Grants keep a registry keyed. -/
theorem Keyed.insert (h : r.Keyed) (l : Lease) : (r.insert l).Keyed := by
  intro k l' hl'
  rw [h.lease?_insert] at hl'
  split at hl'
  · next hk =>
    cases hl'
    exact hk.symm
  · exact h k l' (Option.filter_eq_some_iff.1 hl').1

/-! ### Renewals -/

/-- A renewal changes the lease under the id. -/
theorem lease?_noteRenewal :
    (r.noteRenewal id target).1.lease? k =
      if k = id then (r.lease? id).map (renewed · target) else r.lease? k := by
  rw [noteRenewal, lease?, lease?]
  cases hid : r.granted.get? id with
  | none =>
    dsimp only
    split
    · next hk =>
      rw [hk, hid]
      rfl
    · rfl
  | some g =>
    dsimp only
    rw [Dict.get?_insert]
    split <;> rfl

/-- What is told of a renewal is the lease behind it, if there is one. -/
theorem noteRenewal_snd :
    (r.noteRenewal id target).2 = (r.lease? id).map (renewed · target) := by
  rw [noteRenewal, lease?]
  cases r.granted.get? id <;> rfl

/-- Renewals keep a registry keyed. -/
theorem Keyed.noteRenewal (h : r.Keyed) : (r.noteRenewal id target).1.Keyed := by
  intro k l hl
  rw [lease?_noteRenewal] at hl
  split at hl
  · next hk =>
    obtain ⟨l', hl', rfl⟩ := Option.map_eq_some_iff.1 hl
    exact hk ▸ h id l' hl'
  · exact h k l hl

/-! ### Pruning -/

/-- The leases that pruning keeps are those that upkeep renews and those that have not expired. -/
theorem Keyed.lease?_prune (h : r.Keyed) :
    (r.prune now).1.lease? k =
      (r.lease? k).filter fun l ↦ !(!l.autoRenew && l.isExpired now) := by
  refine h.lease?_foldl_remove id (fun l ↦ !l.autoRenew && l.isExpired now) (·.lock) _ fun l ↦ ?_
  rw [List.map_id, List.mem_filter, mem_values_iff]

/-- Pruning keeps a registry keyed. -/
theorem Keyed.prune (h : r.Keyed) : (r.prune now).1.Keyed := by
  intro k l hl
  rw [h.lease?_prune] at hl
  exact h k l (Option.filter_eq_some_iff.1 hl).1

end Registry

namespace Coordinator

variable {c : Coordinator} {now target : Nat} {id : LeaseId} {extension : Option Duration}

theorem registry_noteRenewal :
    (c.noteRenewal id target).2.registry = (c.registry.noteRenewal id target).1 := by
  rw [noteRenewal]
  split <;> next h => rw [h]

/-- What is known of a lease is below the end of a renewal that is made of it. -/
theorem lt_renewalEnd {l : Lease} (h : c.registry.lease? id = some l) :
    l.expiresAt < c.renewalEnd now id extension := by
  simp only [renewalEnd, h]
  omega

/-- A renewal that is noted at once ends when it was meant to. -/
theorem expiresAt_noteRenewal :
    (c.noteRenewal id (c.renewalEnd now id extension)).1.expiresAt =
      c.renewalEnd now id extension := by
  have hsnd : (c.registry.noteRenewal id (c.renewalEnd now id extension)).2 =
      (c.registry.lease? id).map (Registry.renewed · (c.renewalEnd now id extension)) :=
    Registry.noteRenewal_snd
  rw [noteRenewal]
  split
  · next l h =>
    rw [h] at hsnd
    obtain ⟨l', hl', rfl⟩ := Option.map_eq_some_iff.1 hsnd.symm
    have hlt : l'.expiresAt < c.renewalEnd now id extension := lt_renewalEnd hl'
    simp only [Registry.renewed]
    omega
  · rfl

end Coordinator

end LeaseLock
