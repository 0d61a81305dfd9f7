import LeaseLock.Proofs.Coordinator.Holdings

/-!
# The list of leases

A registry keeps its leases by id and lists them in the order of their grants. What each operation
does to the list is said here as an equation between lists, order included: a grant goes to the end
(`Registry.leases_insert`), a removal and pruning filter, and a renewal changes a lease where it
stands (`Registry.leases_noteRenewal`).

This needs leases that are kept under their own ids, and grants of which no two have the same number
(`Registry.Numbered`). Then a list of the same grants that is in the order of their numbers is the
list (`Registry.grants_eq_of_perm`), however a map may come by its values.

## Why sorting is never opened

The list is made by sorting the values of the map. An equation for it is shown by giving the list
that is claimed, and checking two things: it has the same grants as the map, up to their order, and
it is in the order of their numbers. The first one is a permutation of the entries of the map, which
`Dict.perm_values_insert` gives for an insertion; the second one is inherited by filtering, by
mapping that keeps the numbers, and by adding a larger number at the end. So no lemma here goes
through the steps of the sorting algorithm but the one that says that it sorts.

## Loops

A grant first drops what is known of its lock, and pruning drops what has expired, both by removing
leases one after another from the list that they have made before. What such a loop leaves is the
list without the leases that satisfied the condition at the beginning
(`Registry.leases_foldl_remove_filter`), because an id tells its lease.
-/

namespace LeaseLock

namespace Dict

variable {β : Type} {d : Dict β} {k : String} {v : β}

/-- No entry occurs twice. -/
theorem nodup_entries (d : Dict β) : d.entries.Nodup := by
  refine d.ordered.imp fun {a b} hlt heq ↦ ?_
  exact String.lt_irrefl b.1 (heq ▸ hlt)

/-- The entries behind an insertion are the other ones and the new one. -/
theorem perm_entries_insert (d : Dict β) (k : String) (v : β) :
    ((d.erase k).entries ++ [(k, v)]).Perm (d.insert k v).entries := by
  have hnot : (k, v) ∉ (d.erase k).entries := fun hmem ↦ by
    have hget := get?_eq_some_iff.2 hmem
    rw [get?_erase, if_pos rfl] at hget
    cases hget
  have hnodup : ((d.erase k).entries ++ [(k, v)]).Nodup := by
    rw [← List.concat_eq_append]
    exact (nodup_entries _).concat hnot
  refine (List.perm_ext_iff_of_nodup hnodup (nodup_entries _)).2 fun ⟨j, w⟩ ↦ ?_
  rw [List.mem_append, List.mem_singleton, ← get?_eq_some_iff, ← get?_eq_some_iff, get?_erase,
    get?_insert, Prod.mk.injEq]
  by_cases hj : j = k
  · simp [hj, eq_comm]
  · simp [hj]

/-- Inserting what is there changes nothing. -/
theorem insert_of_get? (h : d.get? k = some v) : d.insert k v = d := by
  refine ext_get? fun j ↦ ?_
  rw [get?_insert]
  split
  · next hj => rw [hj, h]
  · rfl

/-- The values behind an insertion are the other ones and the new one. -/
theorem perm_values_insert (d : Dict β) (k : String) (v : β) :
    ((d.erase k).values ++ [v]).Perm (d.insert k v).values := by
  have hperm := (d.perm_entries_insert k v).map (·.2)
  rwa [List.map_append, List.map_singleton] at hperm

end Dict

namespace Registry

variable {r : Registry} {id k : LeaseId} {lock : LockName} {client : ClientId} {l : Lease}
  {g : Grant} {gs : List Grant} {now target : Nat}

/-! ### Grants in order -/

/-- The numbers of the grants are below the next one, and no two grants have the same. -/
structure Numbered (r : Registry) : Prop where
  /-- The next number is larger. -/
  number_lt : ∀ k g, r.granted.get? k = some g → g.number < r.nextNumber
  /-- Every grant has its own number. -/
  number_inj : ∀ k k' g g', r.granted.get? k = some g → r.granted.get? k' = some g' →
    g.number = g'.number → k = k'

/-- The grants in the order of their numbers. -/
def grants (r : Registry) : List Grant := byGrant r.granted.values

/-- The leases are listed as their grants are. -/
theorem leases_eq_map_grants (r : Registry) : r.leases = r.grants.map (·.lease) := rfl

/-- A grant is a value of the map just if it is kept under some id. -/
theorem mem_values_granted_iff : g ∈ r.granted.values ↔ ∃ k, r.granted.get? k = some g := by
  simp only [Dict.values, List.mem_map, Dict.get?_eq_some_iff]
  constructor
  · rintro ⟨⟨k, g⟩, hmem, rfl⟩
    exact ⟨k, hmem⟩
  · rintro ⟨k, hmem⟩
    exact ⟨(k, g), hmem, rfl⟩

/-- A grant is in the list just if it is kept under some id. -/
theorem mem_grants_iff : g ∈ r.grants ↔ ∃ k, r.granted.get? k = some g := by
  rw [grants, mem_byGrant, mem_values_granted_iff]

/-- Inserting in order keeps the order. -/
theorem sorted_insertByGrant (h : gs.Pairwise (·.number < ·.number))
    (hne : ∀ a ∈ gs, g.number ≠ a.number) :
    (insertByGrant g gs).Pairwise (·.number < ·.number) := by
  induction gs with
  | nil => exact List.pairwise_singleton _ g
  | cons a gs ih =>
    obtain ⟨hlt, hrest⟩ := List.pairwise_cons.1 h
    rw [insertByGrant]
    split
    · next hg =>
      refine List.pairwise_cons.2 ⟨fun b hb ↦ ?_, h⟩
      rcases List.mem_cons.1 hb with rfl | hb
      · exact hg
      · exact Nat.lt_trans hg (hlt b hb)
    · next hg =>
      refine List.pairwise_cons.2
        ⟨fun b hb ↦ ?_, ih hrest fun b hb ↦ hne b (List.mem_cons_of_mem a hb)⟩
      rcases mem_insertByGrant.1 hb with rfl | hb
      · exact Nat.lt_of_le_of_ne (Nat.le_of_not_lt hg) (hne a List.mem_cons_self).symm
      · exact hlt b hb

/-- **The list is sorted**, strictly if no two numbers are the same. -/
theorem sorted_byGrant (h : gs.Pairwise (·.number ≠ ·.number)) :
    (byGrant gs).Pairwise (·.number < ·.number) := by
  induction gs with
  | nil => exact List.Pairwise.nil
  | cons g gs ih =>
    obtain ⟨hne, hrest⟩ := List.pairwise_cons.1 h
    exact sorted_insertByGrant (ih hrest) fun a ha ↦ hne a (mem_byGrant.1 ha)

/-- The grants of a registry are in the order of their numbers. -/
theorem Numbered.sorted_grants (h : r.Numbered) : r.grants.Pairwise (·.number < ·.number) := by
  refine sorted_byGrant (List.pairwise_map.2 (r.granted.ordered.imp_of_mem fun ha hb hlt heq ↦ ?_))
  have hsame := h.number_inj _ _ _ _ (Dict.get?_eq_some_iff.2 ha) (Dict.get?_eq_some_iff.2 hb) heq
  exact String.lt_irrefl _ (hsame ▸ hlt)

/-- The same grants in the order of their numbers are the list. -/
theorem grants_eq_of_perm (hsorted : gs.Pairwise (·.number < ·.number))
    (hperm : gs.Perm r.granted.values) : r.grants = gs := by
  have hne : r.granted.values.Pairwise (·.number ≠ ·.number) :=
    (hperm.pairwise_iff fun h ↦ h.symm).1 (hsorted.imp Nat.ne_of_lt)
  exact List.Perm.eq_of_pairwise (fun a b _ _ hab hba ↦ absurd hab (Nat.lt_asymm hba))
    (sorted_byGrant hne) hsorted ((perm_byGrant _).trans hperm.symm)

/-- A grant is kept under the id of its lease. -/
theorem Keyed.get?_granted (h : r.Keyed) (hg : r.granted.get? k = some g) : g.lease.id = k :=
  h k g.lease (by rw [lease?, hg, Option.map_some])

/-- Erasing an id filters the values. -/
theorem Keyed.values_erase (h : r.Keyed) (id : LeaseId) :
    (r.granted.erase id).values = r.granted.values.filter fun g ↦ g.lease.id ≠ id := by
  rw [Dict.values, Dict.values, List.filter_map]
  refine congrArg _ (List.filter_congr fun e he ↦ ?_)
  rw [Function.comp_apply, h.get?_granted (Dict.get?_eq_some_iff.2 he)]

/-! ### Removal -/

/-- Removing a lease takes a number away at most. -/
theorem Numbered.remove (h : r.Numbered) : (r.remove id lock client).Numbered := by
  have hback (k : LeaseId) (g : Grant) (hg : (r.granted.erase id).get? k = some g) :
      r.granted.get? k = some g := by
    rw [Dict.get?_erase] at hg
    split at hg
    · cases hg
    · exact hg
  exact ⟨fun k g hg ↦ h.number_lt k g (hback k g hg),
    fun k k' g g' hg hg' ↦ h.number_inj k k' g g' (hback k g hg) (hback k' g' hg')⟩

/-- A removal takes the grant out of the list, and leaves the others in order. -/
theorem grants_remove (hk : r.Keyed) (hn : r.Numbered) :
    (r.remove id lock client).grants = r.grants.filter fun g ↦ g.lease.id ≠ id := by
  refine grants_eq_of_perm (hn.sorted_grants.filter _) ?_
  rw [show (r.remove id lock client).granted = r.granted.erase id from rfl, hk.values_erase]
  exact (perm_byGrant _).filter _

/-- A removal takes the lease out of the list. -/
theorem leases_remove (hk : r.Keyed) (hn : r.Numbered) :
    (r.remove id lock client).leases = r.leases.filter fun l ↦ l.id ≠ id := by
  rw [leases_eq_map_grants, grants_remove hk hn, leases_eq_map_grants, List.filter_map]
  rfl

section Loop

variable {α : Type} (idOf : α → LeaseId) (lockOf : α → LockName) (clientOf : α → ClientId)
  (xs : List α)

/-- Removing leases one after another keeps them under their ids. -/
theorem Keyed.foldl_remove (h : r.Keyed) :
    (xs.foldl (fun r x ↦ r.remove (idOf x) (lockOf x) (clientOf x)) r).Keyed := by
  induction xs generalizing r with
  | nil => exact h
  | cons x xs ih => exact ih h.remove

/-- Removing leases one after another keeps their numbers. -/
theorem Numbered.foldl_remove (h : r.Numbered) :
    (xs.foldl (fun r x ↦ r.remove (idOf x) (lockOf x) (clientOf x)) r).Numbered := by
  induction xs generalizing r with
  | nil => exact h
  | cons x xs ih => exact ih h.remove

/-- Removing leases one after another takes all of them out of the list. -/
theorem leases_foldl_remove (hk : r.Keyed) (hn : r.Numbered) :
    (xs.foldl (fun r x ↦ r.remove (idOf x) (lockOf x) (clientOf x)) r).leases =
      r.leases.filter fun l ↦ l.id ∉ xs.map idOf := by
  induction xs generalizing r with
  | nil => simp
  | cons x xs ih =>
    rw [List.foldl_cons, ih hk.remove hn.remove, leases_remove hk hn, List.filter_filter]
    refine List.filter_congr fun l _ ↦ ?_
    rw [Bool.eq_iff_iff, Bool.and_eq_true, decide_eq_true_iff, decide_eq_true_iff,
      decide_eq_true_iff, List.map_cons, List.mem_cons, not_or, and_comm]

end Loop

/-- Removing the leases that satisfy `p` one after another leaves the other ones in the list. -/
theorem leases_foldl_remove_filter (hk : r.Keyed) (hn : r.Numbered) {α : Type} (leaseOf : α → Lease)
    (p : Lease → Bool) (lockOf : α → LockName) (xs : List α)
    (hxs : ∀ l, l ∈ xs.map leaseOf ↔ (∃ k, r.lease? k = some l) ∧ p l = true) :
    (xs.foldl (fun r x ↦ r.remove (leaseOf x).id (lockOf x) (leaseOf x).holder) r).leases =
      r.leases.filter fun l ↦ !p l := by
  rw [leases_foldl_remove (fun x ↦ (leaseOf x).id) lockOf (fun x ↦ (leaseOf x).holder) xs hk hn]
  refine List.filter_congr fun l hl ↦ ?_
  have hmem : l.id ∈ xs.map (fun x ↦ (leaseOf x).id) ↔ p l = true := by
    rw [show (fun x ↦ (leaseOf x).id) = Lease.id ∘ leaseOf from rfl, ← List.map_map, List.mem_map]
    constructor
    · rintro ⟨l', hl', hid⟩
      obtain ⟨hknown, hp⟩ := (hxs l').1 hl'
      have h := hk.mem_leases_iff.1 (mem_leases_iff.2 hknown)
      rw [hid, hk.mem_leases_iff.1 hl] at h
      rwa [Option.some.inj h]
    · exact fun hp ↦ ⟨l, (hxs l).2 ⟨mem_leases_iff.1 hl, hp⟩, rfl⟩
  simp [hmem]

/-! ### Grants -/

/-- The next number is larger than all others, so it is new. -/
theorem Numbered.enrol (h : r.Numbered) (l : Lease) : (r.enrol l).Numbered := by
  have hcases (k : LeaseId) (g : Grant) (hg : (r.enrol l).granted.get? k = some g) :
      k = l.id ∧ g.number = r.nextNumber ∨ r.granted.get? k = some g := by
    rw [Registry.enrol, Dict.get?_insert] at hg
    split at hg
    · next hk =>
      cases hg
      exact .inl ⟨hk, rfl⟩
    · exact .inr hg
  constructor
  · intro k g hg
    show g.number < r.nextNumber + 1
    rcases hcases k g hg with ⟨-, hnumber⟩ | hold
    · omega
    · have := h.number_lt k g hold
      omega
  · intro k k' g g' hg hg' hsame
    rcases hcases k g hg with ⟨hk, hnumber⟩ | hold
    · rcases hcases k' g' hg' with ⟨hk', -⟩ | hold'
      · rw [hk, hk']
      · have := h.number_lt k' g' hold'
        omega
    · rcases hcases k' g' hg' with ⟨-, hnumber'⟩ | hold'
      · have := h.number_lt k g hold
        omega
      · exact h.number_inj k k' g g' hold hold' hsame

/-- A lease that is entered goes to the end. -/
theorem leases_enrol (hk : r.Keyed) (hn : r.Numbered) (l : Lease) :
    (r.enrol l).leases = (r.leases.filter fun l' ↦ l'.id ≠ l.id) ++ [l] := by
  have hgrants : (r.enrol l).grants =
      (r.grants.filter fun g ↦ g.lease.id ≠ l.id) ++ [⟨r.nextNumber, l⟩] := by
    refine grants_eq_of_perm ?_ ?_
    · refine List.pairwise_append.2
        ⟨hn.sorted_grants.filter _, List.pairwise_singleton _ _, fun g hg g' hg' ↦ ?_⟩
      obtain ⟨k, hget⟩ := mem_grants_iff.1 (List.mem_filter.1 hg).1
      rw [List.mem_singleton.1 hg']
      exact hn.number_lt k g hget
    · refine List.Perm.trans ?_ (Dict.perm_values_insert r.granted l.id ⟨r.nextNumber, l⟩)
      rw [hk.values_erase]
      exact ((perm_byGrant _).filter _).append_right _
  rw [leases_eq_map_grants, hgrants, leases_eq_map_grants, List.map_append, List.filter_map]
  rfl

/-- The list of a registry without the leases of a lock. -/
theorem leases_drop (hk : r.Keyed) (hn : r.Numbered) (lock : LockName) :
    ((r.granted.values.filter fun g ↦ g.lease.lock == lock).foldl
      (fun r g ↦ r.remove g.lease.id lock g.lease.holder) r).leases =
        r.leases.filter fun l ↦ !(l.lock == lock) :=
  leases_foldl_remove_filter hk hn Grant.lease (·.lock == lock) (fun _ ↦ lock) _ fun _ ↦
    mem_filter_values_iff (p := (·.lock == lock))

/-- A grant puts the lease at the end of the list, from which it takes what was known of the lock or
under the id. -/
theorem leases_insert (hk : r.Keyed) (hn : r.Numbered) (l : Lease) :
    (r.insert l).leases =
      (r.leases.filter fun l' ↦ l'.id ≠ l.id ∧ l'.lock ≠ l.lock) ++ [l] := by
  let stale := r.granted.values.filter fun g ↦ g.lease.lock == l.lock
  have hdrop := leases_drop hk hn l.lock
  have henrol := leases_enrol
    (hk.foldl_remove (·.lease.id) (fun _ ↦ l.lock) (·.lease.holder) stale)
    (hn.foldl_remove (·.lease.id) (fun _ ↦ l.lock) (·.lease.holder) stale) l
  rw [hdrop, List.filter_filter] at henrol
  refine henrol.trans (congrArg (· ++ [l]) (List.filter_congr fun l' _ ↦ ?_))
  by_cases hlock : l'.lock = l.lock <;> simp [hlock]

/-- A grant keeps the numbers of those that stay. -/
theorem Numbered.insert (h : r.Numbered) (l : Lease) : (r.insert l).Numbered := by
  let stale := r.granted.values.filter fun g ↦ g.lease.lock == l.lock
  exact (h.foldl_remove (·.lease.id) (fun _ ↦ l.lock) (·.lease.holder) stale).enrol l

/-! ### Renewals -/

/-- A grant as a renewal of the lease `id` leaves it. -/
def renewGrant (id : LeaseId) (target : Nat) (g : Grant) : Grant :=
  if g.lease.id = id then { g with lease := renewed g.lease target } else g

/-- A renewal does not change the number of a grant. -/
theorem number_renewGrant (id : LeaseId) (target : Nat) (g : Grant) :
    (renewGrant id target g).number = g.number := by
  rw [renewGrant]
  split <;> rfl

/-- A renewal changes the lease of one id. -/
theorem lease_renewGrant (id : LeaseId) (target : Nat) (g : Grant) :
    (renewGrant id target g).lease =
      if g.lease.id = id then renewed g.lease target else g.lease := by
  rw [renewGrant]
  split <;> rfl

/-- The values behind a renewal are those before, each renewed or left alone. -/
theorem perm_values_noteRenewal (hk : r.Keyed) (id : LeaseId) (target : Nat) :
    (r.granted.values.map (renewGrant id target)).Perm
      (r.noteRenewal id target).1.granted.values := by
  have hother (gs : List Grant) (hgs : ∀ g ∈ gs, g.lease.id ≠ id) :
      gs.map (renewGrant id target) = gs :=
    (List.map_congr_left fun g hg ↦ if_neg (hgs g hg)).trans (List.map_id _)
  rw [noteRenewal]
  cases hid : r.granted.get? id with
  | none =>
    rw [hother]
    intro g hg hgid
    obtain ⟨k, hget⟩ := mem_values_granted_iff.1 hg
    rw [← hk.get?_granted hget, hgid, hid] at hget
    cases hget
  | some g =>
    -- The values are those under other ids and this one.
    have hsplit := Dict.perm_values_insert r.granted id g
    rw [Dict.insert_of_get? hid] at hsplit
    refine (hsplit.symm.map _).trans ?_
    rw [List.map_append, hother _ fun g' hg' ↦ ?_, List.map_singleton, renewGrant,
      if_pos (hk.get?_granted hid)]
    · exact Dict.perm_values_insert r.granted id _
    · rw [hk.values_erase] at hg'
      simpa using (List.mem_filter.1 hg').2

/-- A renewal changes a lease where it stands in the list. -/
theorem leases_noteRenewal (hk : r.Keyed) (hn : r.Numbered) (id : LeaseId) (target : Nat) :
    (r.noteRenewal id target).1.leases =
      r.leases.map fun l ↦ if l.id = id then renewed l target else l := by
  have hgrants : (r.noteRenewal id target).1.grants = r.grants.map (renewGrant id target) := by
    refine grants_eq_of_perm ?_ (((perm_byGrant _).map _).trans (perm_values_noteRenewal hk id _))
    refine List.pairwise_map.2 (hn.sorted_grants.imp fun hlt ↦ ?_)
    rwa [number_renewGrant, number_renewGrant]
  rw [leases_eq_map_grants, hgrants, leases_eq_map_grants, List.map_map, List.map_map]
  exact List.map_congr_left fun g _ ↦ lease_renewGrant id target g

/-- A renewal keeps all numbers. -/
theorem Numbered.noteRenewal (h : r.Numbered) (id : LeaseId) (target : Nat) :
    (r.noteRenewal id target).1.Numbered := by
  rw [Registry.noteRenewal]
  cases hid : r.granted.get? id with
  | none => exact h
  | some g =>
    have hback (k : LeaseId) (g' : Grant)
        (hg' : (r.granted.insert id { g with lease := renewed g.lease target }).get? k =
          some g') : ∃ g₀, r.granted.get? k = some g₀ ∧ g₀.number = g'.number := by
      rw [Dict.get?_insert] at hg'
      split at hg'
      · next hk =>
        cases hg'
        exact ⟨g, hk ▸ hid, rfl⟩
      · exact ⟨g', hg', rfl⟩
    constructor
    · intro k g' hg'
      obtain ⟨g₀, hg₀, hnumber⟩ := hback k g' hg'
      exact hnumber ▸ h.number_lt k g₀ hg₀
    · intro k k' g₁ g₂ hg₁ hg₂ hsame
      obtain ⟨g₃, hg₃, hnumber⟩ := hback k g₁ hg₁
      obtain ⟨g₄, hg₄, hnumber'⟩ := hback k' g₂ hg₂
      exact h.number_inj k k' g₃ g₄ hg₃ hg₄ (hnumber.trans (hsame.trans hnumber'.symm))

/-! ### Pruning -/

/-- Pruning takes those leases out of the list that have expired and are not renewed by upkeep. -/
theorem leases_prune (hk : r.Keyed) (hn : r.Numbered) (now : Nat) :
    (r.prune now).1.leases = r.leases.filter fun l ↦ !(!l.autoRenew && l.isExpired now) :=
  leases_foldl_remove_filter hk hn (fun l : Lease ↦ l) _ (·.lock) _ fun l ↦ by
    rw [List.map_id', List.mem_filter, mem_values_iff]

/-- The leases that are pruned are those that have expired and that upkeep does not renew. -/
theorem perm_prune (r : Registry) (now : Nat) :
    (r.prune now).2.Perm (r.leases.filter fun l ↦ !l.autoRenew && l.isExpired now) :=
  (((perm_byGrant r.granted.values).map _).filter _).symm

end Registry

end LeaseLock
