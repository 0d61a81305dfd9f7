import Mathlib.Data.List.Induction
import LeaseLock.Proofs.Coordinator.Listing
import LeaseLock.Proofs.Coordinator.Snapshot

/-!
# What every registry keeps

A registry is changed by its operations only (`Registry.Update`), and they may come in any order and
with any arguments: ids that are known already or not at all, removals under another lock or for
another client than those of the lease. Whatever they are, the registry that they leave is `Sound`:
no lock has two leases, every grant has a number of its own, and no empty set is kept.

The lists and the graph that are shown of a registry owe it to this that they have one meaning
(`Registry.representation_after`). The operations alone tell the list of leases
(`Registry.remaining`), in the order of their last insertion; the clients that wait are counted pair
by pair; and the wait-for graph does not depend on the order in which the maps are gone through.

## Main results

* `Registry.sound_after`: every operation keeps `Sound`, hence so do any number of them.
* `Registry.leases_after`: the list of leases follows the operations one by one.
* `Registry.ids_remaining_sublist`: what remains comes in the order of its last insertion.
* `Registry.representation_after`: the three together, with what is counted and drawn from them.
-/

namespace LeaseLock

/-- `dedup` keeps the last occurrence of each element. -/
theorem dedup_concat {α : Type} [DecidableEq α] (xs : List α) (a : α) :
    (xs ++ [a]).dedup = xs.dedup.filter (· ≠ a) ++ [a] := by
  induction xs with
  | nil => rfl
  | cons x xs ih =>
    rw [List.cons_append]
    by_cases hx : x = a
    · -- The element comes again at the end.
      subst hx
      rw [List.dedup_cons_of_mem (List.mem_append_right xs List.mem_cons_self), ih]
      by_cases hmem : x ∈ xs
      · rw [List.dedup_cons_of_mem hmem]
      · rw [List.dedup_cons_of_notMem hmem, List.filter_cons_of_neg (by simp)]
    · by_cases hmem : x ∈ xs
      · rw [List.dedup_cons_of_mem (List.mem_append_left _ hmem), List.dedup_cons_of_mem hmem, ih]
      · have hnot : x ∉ xs ++ [a] := by simp [hmem, hx]
        rw [List.dedup_cons_of_notMem hnot, List.dedup_cons_of_notMem hmem, ih,
          List.filter_cons_of_pos (by simpa using hx), List.cons_append]

namespace Registry

/-- An operation on a registry. -/
inductive Update where
  /-- Remember a lease. -/
  | insert (l : Lease)
  /-- Forget a lease. -/
  | remove (id : LeaseId) (lock : LockName) (client : ClientId)
  /-- Note a renewal. -/
  | noteRenewal (id : LeaseId) (expiresAt : Nat)
  /-- Note that a client waits. -/
  | enlist (lock : LockName) (client : ClientId)
  /-- Note that a client does not wait. -/
  | dismiss (lock : LockName) (client : ClientId)
  /-- Forget the leases that have expired. -/
  | prune (now : Nat)
  /-- Forget everything. -/
  | clear

/-- Make an operation. -/
def apply (r : Registry) : Update → Registry
  | .insert l => r.insert l
  | .remove id lock client => r.remove id lock client
  | .noteRenewal id expiresAt => (r.noteRenewal id expiresAt).1
  | .enlist lock client => r.enlist lock client
  | .dismiss lock client => r.dismiss lock client
  | .prune now => (r.prune now).1
  | .clear => r.clear

/-- The registry behind the given operations. -/
def after (updates : List Update) : Registry := updates.foldl apply {}

/-- The ids of the leases that have been entered, one for each time that one was. -/
def entered (updates : List Update) : List LeaseId :=
  updates.filterMap fun
    | .insert l => some l.id
    | _ => none

/-- What an operation makes of a list of leases. A lease that is entered goes to the end, and what
the list has of its lock or under its id goes away. -/
def relist (leases : List Lease) : Update → List Lease
  | .insert l => (leases.filter fun l' ↦ l'.id ≠ l.id ∧ l'.lock ≠ l.lock) ++ [l]
  | .remove id _ _ => leases.filter fun l ↦ l.id ≠ id
  | .noteRenewal id expiresAt => leases.map fun l ↦ if l.id = id then renewed l expiresAt else l
  | .enlist _ _ | .dismiss _ _ => leases
  | .prune now => leases.filter fun l ↦ !(!l.autoRenew && l.isExpired now)
  | .clear => []

/-- The leases that remain behind the given operations, as the operations alone tell it. -/
def remaining (updates : List Update) : List Lease := updates.foldl relist []

variable {r r' : Registry} {id : LeaseId} {lock : LockName} {client : ClientId} {l : Lease}
  {now target : Nat} {updates : List Update}

theorem after_concat (updates : List Update) (u : Update) :
    after (updates ++ [u]) = (after updates).apply u := by
  rw [after, List.foldl_append]
  rfl

theorem remaining_concat (updates : List Update) (u : Update) :
    remaining (updates ++ [u]) = relist (remaining updates) u := by
  rw [remaining, List.foldl_append]
  rfl

/-! ### Sound registries -/

/-- No two leases are of one lock. -/
def OneEach (r : Registry) : Prop :=
  ∀ k k' l l', r.lease? k = some l → r.lease? k' = some l' → l.lock = l'.lock → k = k'

/-- What holds of every registry. -/
structure Sound (r : Registry) : Prop extends Numbered r where
  /-- Every lease is kept under its own id. -/
  keyed : r.Keyed
  /-- No lock has two leases. -/
  oneEach : r.OneEach
  /-- No lock is kept without clients that wait for it. -/
  waiting : NoneEmpty r.waiting
  /-- No client is kept without locks. -/
  holdings : NoneEmpty r.holdings

/-- With no lease there is no lock with two. -/
theorem sound_of_granted_eq_empty (h : r.granted = ∅) (hwaiting : NoneEmpty r.waiting)
    (hholdings : NoneEmpty r.holdings) : r.Sound := by
  have hget (k : LeaseId) (g : Grant) : r.granted.get? k ≠ some g := by
    rw [h]
    exact nofun
  have hnone (k : LeaseId) (l : Lease) : r.lease? k ≠ some l := fun hl ↦ by
    obtain ⟨g, hg, -⟩ := Option.map_eq_some_iff.1 hl
    exact hget k g hg
  exact ⟨⟨fun k g hg ↦ absurd hg (hget k g), fun k _ g _ hg ↦ absurd hg (hget k g)⟩,
    fun k l hl ↦ absurd hl (hnone k l), fun k _ l _ hl ↦ absurd hl (hnone k l), hwaiting, hholdings⟩

/-- What changes neither leases nor holdings and leaves no lock without clients. -/
theorem Sound.of_granted_eq (h : r.Sound) (hgranted : r'.granted = r.granted)
    (hnext : r'.nextNumber = r.nextNumber) (hholdings : r'.holdings = r.holdings)
    (hwaiting : NoneEmpty r'.waiting) : r'.Sound where
  number_lt := by
    rw [hgranted, hnext]
    exact h.number_lt
  number_inj := by
    rw [hgranted]
    exact h.number_inj
  keyed := h.keyed.of_granted_eq hgranted
  oneEach k k' l l' hl hl' := by
    rw [lease?_congr hgranted] at hl hl'
    exact h.oneEach k k' l l' hl hl'
  waiting := hwaiting
  holdings := hholdings ▸ h.holdings

theorem Sound.remove (h : r.Sound) : (r.remove id lock client).Sound where
  toNumbered := h.toNumbered.remove
  keyed := h.keyed.remove
  oneEach k k' l l' hl hl' := h.oneEach k k' l l' (lease?_of_remove hl) (lease?_of_remove hl')
  waiting := h.waiting
  holdings := noneEmpty_holdings_remove h.holdings

theorem Sound.foldl_remove (h : r.Sound) {α : Type} (idOf : α → LeaseId) (lockOf : α → LockName)
    (clientOf : α → ClientId) (xs : List α) :
    (xs.foldl (fun r x ↦ r.remove (idOf x) (lockOf x) (clientOf x)) r).Sound := by
  induction xs generalizing r with
  | nil => exact h
  | cons x xs ih => exact ih h.remove

/-- A grant leaves no other lease of its lock. -/
theorem Sound.insert (h : r.Sound) (l : Lease) : (r.insert l).Sound where
  toNumbered := h.toNumbered.insert l
  keyed := h.keyed.insert l
  oneEach k k' l₁ l₂ hl₁ hl₂ hlock := by
    have hother {k : LeaseId} {l' : Lease}
        (hl' : (r.lease? k).filter (fun l' ↦ !(l'.lock == l.lock)) = some l') :
        r.lease? k = some l' ∧ l'.lock ≠ l.lock := by
      obtain ⟨hl', hne⟩ := Option.filter_eq_some_iff.1 hl'
      exact ⟨hl', by simpa using hne⟩
    rw [h.keyed.lease?_insert] at hl₁ hl₂
    split at hl₁
    · next hk =>
      cases hl₁
      split at hl₂
      · next hk' => rw [hk, hk']
      · exact absurd hlock.symm (hother hl₂).2
    · split at hl₂
      · cases hl₂
        exact absurd hlock (hother hl₁).2
      · exact h.oneEach k k' l₁ l₂ (hother hl₁).1 (hother hl₂).1 hlock
  waiting := by
    rw [waiting_insert]
    exact h.waiting
  holdings := by
    let stale := r.granted.values.filter fun g ↦ g.lease.lock == l.lock
    have hdropped := h.foldl_remove (·.lease.id) (fun _ ↦ l.lock) (·.lease.holder) stale
    exact noneEmpty_link hdropped.holdings

theorem Sound.noteRenewal (h : r.Sound) (id : LeaseId) (target : Nat) :
    (r.noteRenewal id target).1.Sound where
  toNumbered := h.toNumbered.noteRenewal id target
  keyed := h.keyed.noteRenewal
  oneEach k k' l l' hl hl' hlock := by
    have hsame := r.sameHolders_noteRenewal id target
    obtain ⟨l₀, hl₀, -, hlock₀, -⟩ := hsame.exists_lease hl
    obtain ⟨l₁, hl₁, -, hlock₁, -⟩ := hsame.exists_lease hl'
    exact h.oneEach k k' l₀ l₁ hl₀ hl₁ (hlock₀.trans (hlock.trans hlock₁.symm))
  waiting := by
    rw [waiting_noteRenewal]
    exact h.waiting
  holdings := (r.sameHolders_noteRenewal id target).holdings ▸ h.holdings

/-- Every operation leaves a sound registry. -/
theorem Sound.apply (h : r.Sound) (u : Update) : (r.apply u).Sound := by
  cases u with
  | insert l => exact h.insert l
  | remove id lock client => exact h.remove
  | noteRenewal id target => exact h.noteRenewal id target
  | enlist lock client => exact h.of_granted_eq rfl rfl rfl (noneEmpty_link h.waiting)
  | dismiss lock client => exact h.of_granted_eq rfl rfl rfl (noneEmpty_unlink h.waiting)
  | prune now => exact h.foldl_remove Lease.id Lease.lock Lease.holder _
  | clear => exact sound_of_granted_eq_empty rfl noneEmpty_empty noneEmpty_empty

theorem sound_after (updates : List Update) : (after updates).Sound := by
  induction updates using List.reverseRecOn with
  | nil => exact sound_of_granted_eq_empty rfl noneEmpty_empty noneEmpty_empty
  | append_singleton updates u ih =>
    rw [after_concat]
    exact ih.apply u

/-! ### The leases that remain -/

/-- The list of leases after an operation is what the operation makes of the list before. -/
theorem Sound.leases_apply (h : r.Sound) (u : Update) : (r.apply u).leases = relist r.leases u := by
  cases u with
  | insert l => exact leases_insert h.keyed h.toNumbered l
  | remove id lock client => exact leases_remove h.keyed h.toNumbered
  | noteRenewal id target => exact leases_noteRenewal h.keyed h.toNumbered id target
  | enlist lock client => rfl
  | dismiss lock client => rfl
  | prune now => exact leases_prune h.keyed h.toNumbered now
  | clear => rfl

/-- The list of leases is told by the operations. -/
theorem leases_after (updates : List Update) : (after updates).leases = remaining updates := by
  induction updates using List.reverseRecOn with
  | nil => rfl
  | append_singleton updates u ih =>
    rw [after_concat, remaining_concat, (sound_after updates).leases_apply, ih]

/-! ### The order of the leases -/

/-- An operation that enters no lease adds none to the list and changes no order. -/
theorem ids_relist_sublist {u : Update} (hu : ∀ l, u ≠ .insert l) (leases : List Lease) :
    ((relist leases u).map (·.id)).Sublist (leases.map (·.id)) := by
  cases u with
  | insert l => exact absurd rfl (hu l)
  | remove id lock client => exact List.filter_sublist.map _
  | noteRenewal id target =>
    have hids : (relist leases (.noteRenewal id target)).map (·.id) = leases.map (·.id) := by
      rw [relist, List.map_map]
      refine List.map_congr_left fun l _ ↦ ?_
      rw [Function.comp_apply]
      split <;> rfl
    exact hids ▸ List.Sublist.refl _
  | enlist lock client => exact List.Sublist.refl _
  | dismiss lock client => exact List.Sublist.refl _
  | prune now => exact List.filter_sublist.map _
  | clear => exact List.nil_sublist _

theorem entered_concat_insert (updates : List Update) (l : Lease) :
    entered (updates ++ [.insert l]) = entered updates ++ [l.id] := by
  rw [entered, List.filterMap_append]
  rfl

theorem entered_concat_of_ne {u : Update} (hu : ∀ l, u ≠ .insert l) :
    entered (updates ++ [u]) = entered updates := by
  rw [entered, List.filterMap_append]
  cases u with
  | insert l => exact absurd rfl (hu l)
  | _ => exact List.append_nil _

/-- The leases that remain come in the order in which they were entered, each for the last time. -/
theorem ids_remaining_sublist (updates : List Update) :
    ((remaining updates).map (·.id)).Sublist (entered updates).dedup := by
  induction updates using List.reverseRecOn with
  | nil => exact List.nil_sublist _
  | append_singleton updates u ih =>
    rw [remaining_concat]
    by_cases hu : ∃ l, u = .insert l
    · obtain ⟨l, rfl⟩ := hu
      let left := (remaining updates).filter fun l' ↦ l'.id ≠ l.id ∧ l'.lock ≠ l.lock
      have hleft : (left.map (·.id)).filter (· ≠ l.id) = left.map (·.id) := by
        refine List.filter_eq_self.2 fun id hid ↦ ?_
        obtain ⟨l', hl', rfl⟩ := List.mem_map.1 hid
        simpa using (of_decide_eq_true (List.mem_filter.1 hl').2).1
      have hsub : (left.map (·.id)).Sublist (entered updates).dedup :=
        (List.filter_sublist.map _).trans ih
      rw [entered_concat_insert, dedup_concat, relist, List.map_append]
      exact List.Sublist.append (hleft ▸ hsub.filter _) (List.Sublist.refl _)
    · have hother (l : Lease) : u ≠ .insert l := fun heq ↦ hu ⟨l, heq⟩
      rw [entered_concat_of_ne hother]
      exact (ids_relist_sublist hother _).trans ih

/-! ### What is shown -/

/-- Leases of one lock have one holder. -/
theorem Sound.holder_eq (h : r.Sound) {l l' : Lease} (hl : l ∈ r.leases) (hl' : l' ∈ r.leases)
    (hlock : l.lock = l'.lock) : l.holder = l'.holder := by
  obtain ⟨k, hk⟩ := mem_leases_iff.1 hl
  obtain ⟨k', hk'⟩ := mem_leases_iff.1 hl'
  obtain rfl := h.oneEach k k' l l' hk hk' hlock
  rw [Option.some.inj (hk.symm.trans hk')]

/-- The graph of a registry, drawn from its lists in any order. -/
theorem Sound.waitForGraph_eq (h : r.Sound) {waits : List (ClientId × LockName)}
    {leases : List Lease} (hwaits : waits.Perm r.waitPairs) (hleases : leases.Perm r.leases)
    (now : Nat) : graphOf waits leases now = r.waitForGraph now := by
  rw [waitForGraph_eq_graphOf]
  refine graphOf_congr (fun w ↦ hwaits.mem_iff) (fun l ↦ ?_) fun l hl l' hl' ↦ ?_
  · rw [hleases.mem_iff, mem_leases_iff, mem_values_iff]
  · exact h.holder_eq (hleases.mem_iff.1 hl) (hleases.mem_iff.1 hl')

/-- **What every registry is.** Whatever operations have been made, with whatever arguments, the
registry is sound. Its list of leases has every lease that is kept. These are the leases that the
operations leave (`remaining`), in the order of their last insertion: a lease stays until it is
removed, pruned or cleared away, or gives way to one of its lock or under its id. The figure of
waiting clients is the number of the pairs that are listed as waiting, and the wait-for graph is the
same in whatever order waiting clients and leases are gone through. In the graph a lock is held by
the holder of its unexpired lease, and a client wants the locks under which it is listed. -/
theorem representation_after (updates : List Update) (now : Nat) :
    (after updates).Sound ∧
    (∀ l, l ∈ (after updates).leases ↔ ∃ k, (after updates).lease? k = some l) ∧
    (after updates).leases = remaining updates ∧
    ((after updates).leases.map (·.id)).Sublist (entered updates).dedup ∧
    (after updates).waitPairs.Nodup ∧
    (after updates).stats.waitingClients = (after updates).waitPairs.length ∧
    (∀ waits leases, waits.Perm (after updates).waitPairs → leases.Perm (after updates).leases →
      graphOf waits leases now = (after updates).waitForGraph now) ∧
    (∀ lock client, ((after updates).waitForGraph now).holders.get? lock = some client ↔
      ∃ l ∈ (after updates).leases, l.isExpired now = false ∧ l.lock = lock ∧ l.holder = client) ∧
    ∀ client lock, Linked ((after updates).waitForGraph now).wants client lock ↔
      (after updates).Waits lock client := by
  have h := sound_after updates
  refine ⟨h, fun l ↦ mem_leases_iff, leases_after updates,
    (leases_after updates).symm ▸ ids_remaining_sublist updates, nodup_waitPairs _,
    waitingClients_eq _, fun _ _ hwaits hleases ↦ h.waitForGraph_eq hwaits hleases now,
    fun lock client ↦ ?_, fun client lock ↦ linked_wants_waitForGraph⟩
  rw [← h.waitForGraph_eq (.refl _) (.refl _) now]
  exact get?_holders_graphOf fun l hl l' hl' ↦ h.holder_eq hl hl'

/-- A lease that is entered again goes to the end, and with it goes what else was known of its
lock. -/
example :
    let enter (lock : LockName) (id : LeaseId) : Update :=
      .insert (Lease.grant lock id "c" .zero false ∅ 0)
    (after [enter "K" "1", enter "L" "2", enter "M" "3", enter "L" "1"]).leases.map (·.id) =
      ["3", "1"] := by
  decide

end Registry

end LeaseLock
