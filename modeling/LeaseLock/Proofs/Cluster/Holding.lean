import LeaseLock.Proofs.Cluster.Mirror
import LeaseLock.Proofs.Coordinator.Pass

/-!
# Held leases stay held

A lease that is `Held` and live stays held until it is released or everything is forgotten: no other
move of the only coordinator of a store takes away its key or its entry (`Cluster.Move.held`). This
is for moves that come one after another before the lease or its row ends (`Cluster.Moves.held`);
what keeps the end away is upkeep.

The lease and its row stay as they are, except for renewals of the lease itself (`Cluster.Moved`). A
renewal of a known lease moves its end away, to an instant that is told, and the row ends then or
later: the store counts the length of the renewal from the time at which it is reached, and the
renewal has begun before.

## Why one coordinator

With others at the store a lease may be renewed, released or have its lock taken elsewhere, and the
registry does not hear of it. Here every renewal and every release of the lease is made through the
coordinator that knows it, so the registry is told of each as it happens. A grant of the same lock
to somebody else would take its key, but the store gives no key away that is live.

A row that ends before its lease is not ruled out, as it may by the time between two readings of the
clock. Holding a lease is about both ends, and each of them is followed on its own.
-/

namespace LeaseLock

namespace Cluster

variable {ι : Type} [DecidableEq ι] {b : Lags}

/-- Time does not go back. -/
theorem Move.now_le {f f' : Cluster ι} {n : List Notice} (hmove : Move b f n f') :
    f.now ≤ f'.now := by
  cases hmove with
  | elapse millis ticks => exact Nat.le_add_right _ _
  | award i p s lag hlag hp hs => exact Nat.le_add_right _ lag
  | quiet | outage | refuse | begin | leave | free | extend | purge | prune | drop | clear =>
    exact Nat.le_refl _

theorem Moves.now_le {f f' : Cluster ι} {n : List Notice} (hmoves : Moves b f n f') :
    f.now ≤ f'.now := by
  induction hmoves with
  | refl f => exact Nat.le_refl _
  | head hmove _ ih => exact Nat.le_trans hmove.now_le ih

/-- The lease `l` with a row until `x` has become `l'` with a row until `x'`, and `n` has been
told: nothing has changed, or the lease has been renewed. -/
structure Moved (l : Lease) (x : Nat) (n : List Notice) (l' : Lease) (x' : Nat) : Prop where
  /-- The lock is the same. -/
  lock : l'.lock = l.lock
  /-- The end has moved away, and the row has followed it. -/
  moved : l'.expiresAt = l.expiresAt ∧ x' = x ∨ l.expiresAt < l'.expiresAt ∧ l'.expiresAt ≤ x' ∧
    ∃ renewal, .renewed l.lock l.id renewal ∈ n ∧ renewal.expiresAt = l'.expiresAt

variable {f f' : Cluster Unit} {h n n' : List Notice} {id : LeaseId} {l l₁ l₂ : Lease}
  {x x₁ x₂ : Nat}

theorem Moved.refl (l : Lease) (x : Nat) (n : List Notice) : Moved l x n l x :=
  ⟨rfl, .inl ⟨rfl, rfl⟩⟩

theorem Moved.trans (h : Moved l x n l₁ x₁) (h' : Moved l₁ x₁ n' l₂ x₂) (hid : l₁.id = l.id) :
    Moved l x (n ++ n') l₂ x₂ := by
  refine ⟨h'.lock.trans h.lock, ?_⟩
  rcases h.moved with ⟨hsame, rfl⟩ | ⟨hlater, hrow, renewal, hmem, htold⟩
  · rcases h'.moved with ⟨hsame', rfl⟩ | ⟨hlater', hrow', renewal, hmem, htold⟩
    · exact .inl ⟨hsame'.trans hsame, rfl⟩
    · rw [h.lock, hid] at hmem
      exact .inr ⟨hsame ▸ hlater', hrow', renewal, List.mem_append_right n hmem, htold⟩
  · rcases h'.moved with ⟨hsame', rfl⟩ | ⟨hlater', hrow', renewal', hmem', htold'⟩
    · refine .inr ⟨hsame' ▸ hlater, hsame' ▸ hrow, renewal, ?_, htold.trans hsame'.symm⟩
      exact List.mem_append_left n' hmem
    · rw [h.lock, hid] at hmem'
      exact .inr ⟨Nat.lt_trans hlater hlater', hrow', renewal', List.mem_append_right n hmem',
        htold'⟩

/-- The end does not come closer. -/
theorem Moved.expiresAt_le (h : Moved l x n l₁ x₁) : l.expiresAt ≤ l₁.expiresAt := by
  rcases h.moved with ⟨hsame, -⟩ | ⟨hlater, -⟩
  · exact Nat.le_of_eq hsame.symm
  · exact Nat.le_of_lt hlater

/-- A row that is live for as long as the lease stays live. -/
theorem Moved.lt_row (h : Moved l x n l₁ x₁) {now : Nat} (hrow : now < x)
    (hend : now < l.expiresAt) : now < x₁ := by
  rcases h.moved with ⟨-, rfl⟩ | ⟨hlater, hfollows, -⟩
  · exact hrow
  · omega

/-- A move keeps a lease that is held and live, unless the lease is released or everything is
forgotten. -/
theorem Move.held (hmove : Move b f n f') (hw : f.WellFormed) (hg : f.GrantedOnce h)
    (hfits : ∀ m ∈ n, m.Fits) (hheld : Held f.registry f.store id l x) (hlive : f.now < x)
    (hcleared : .cleared ∉ n) (hreleased : .released l.lock id ∉ n) :
    ∃ l' x', Held f'.registry f'.store id l' x' ∧ Moved l x n l' x' := by
  have hkeyed : f.registry.Keyed := hw.registry ()
  have hlid : l.id = id := hkeyed id l hheld.known
  -- Most moves leave the lease as it is.
  have hsame (hknown : f'.registry.lease? id = some l)
      (hrow : f'.store.row? l.lock = some ⟨id, x⟩) :
      ∃ l' x', Held f'.registry f'.store id l' x' ∧ Moved l x n l' x' :=
    ⟨l, x, ⟨hknown, hheld.autoRenew, hrow⟩, .refl l x n⟩
  -- The id belongs to the lock of the lease.
  have hlock (lock : LockName) (e : Nat) (hrow : f.store.row? lock = some ⟨id, e⟩) :
      lock = l.lock :=
    hg.unique _ _ _ (hg.row _ _ _ hrow) (hg.row _ _ _ hheld.row)
  cases hmove with
  | quiet i c hleases =>
    refine hsame ?_ hheld.row
    rw [registry_enter]
    exact (Registry.lease?_congr hleases).trans hheld.known
  | outage | elapse | refuse | begin | leave => exact hsame hheld.known hheld.row
  | award i p s lag hlag hp hs =>
    obtain ⟨hnobody, hsets⟩ := hs
    have hne : id ≠ p.id := by
      rintro rfl
      rw [(hg.settled _ _ (hg.row _ _ _ hheld.row)).2] at hp
      cases hp
    have hother : l.lock ≠ p.request.lock := by
      intro heq
      rw [← heq, Store.live?_eq_some_iff.2 ⟨hheld.row, hlive⟩] at hnobody
      cases hnobody
    refine hsame ?_ ((hsets.elsewhere hother).trans hheld.row)
    show (((f.enter i _).withStore s).await p.id none).registry.lease? id = some l
    rw [registry_await, registry_withStore, registry_enter]
    refine (hkeyed.lease?_insert _).trans ((if_neg hne).trans ?_)
    rw [hheld.known]
    refine (Option.filter_some ..).trans (if_pos ?_)
    show (!(l.lock == p.request.lock)) = true
    simpa using hother
  | free i lock client k s hs =>
    obtain ⟨⟨e, he⟩, hsets⟩ := hs
    have hrow := (Store.live?_eq_some_iff.1 he).1
    have hne : id ≠ k := by
      rintro rfl
      exact hreleased (hlock lock e hrow ▸ List.mem_cons_self)
    refine hsame ?_ (hsets.row?_of_ne hrow hne hheld.row)
    rw [registry_withStore, registry_disturb, Registry.lease?_remove, if_neg hne]
    exact hheld.known
  | extend i lock k start target extension s hstart hlag htarget hs =>
    obtain ⟨⟨e, he⟩, hsets⟩ := hs
    have hrow := (Store.live?_eq_some_iff.1 he).1
    have hknown : (f.registry.noteRenewal k target).1.lease? id =
        if id = k then (f.registry.lease? k).map (Registry.renewed · target)
        else f.registry.lease? id := Registry.lease?_noteRenewal
    by_cases hid : id = k
    · subst hid
      obtain rfl := hlock lock e hrow
      -- The lease itself is renewed, to an end beyond the one that it has.
      have hlater : l.expiresAt < target := htarget ▸ Coordinator.lt_renewalEnd hheld.known
      have hfit := hfits _ List.mem_cons_self
      have htold : ((f.member i).noteRenewal id target).1.expiresAt = target := by
        rw [htarget, Coordinator.expiresAt_noteRenewal]
      rw [Notice.Fits, htold] at hfit
      have hend : (Registry.renewed l target).expiresAt = target := Nat.max_eq_left hlater
      refine ⟨Registry.renewed l target, _, ⟨?_, hheld.autoRenew, hsets.at_lock⟩, rfl,
        .inr ⟨?_, ?_, _, hlid ▸ List.mem_cons_self, htold.trans hend.symm⟩⟩
      · rw [registry_withStore, registry_enter, Coordinator.registry_noteRenewal]
        rw [if_pos rfl, hheld.known] at hknown
        exact hknown
      · rw [hend]
        exact hlater
      · -- The store counts from when it is reached, which is later than when the renewal began.
        rw [hend]
        have hlength : target ≤ start + (Duration.ofMillis (target - start)).keyMillis :=
          Duration.le_add_keyMillis_ofMillis_sub hfit
        omega
    · refine hsame ?_ (hsets.row?_of_ne hrow hid hheld.row)
      rw [registry_withStore, registry_enter, Coordinator.registry_noteRenewal]
      rw [if_neg hid] at hknown
      exact hknown.trans hheld.known
  | purge s m hs => exact hsame hheld.known (Store.row?_purge_of_lt hs hheld.row hlive)
  | prune i =>
    refine hsame ?_ hheld.row
    rw [registry_disturb]
    refine hkeyed.lease?_prune.trans ?_
    rw [hheld.known, Option.filter_some, hheld.autoRenew]
    rfl
  | drop i l₁ hknown hlost =>
    refine hsame ?_ hheld.row
    rw [registry_disturb, Registry.lease?_remove, if_neg]
    · exact hheld.known
    · -- The store has just turned the dropped lease away, and this one owns its lock.
      rintro rfl
      have hrow : f.store.live? f.now l₁.lock = some ⟨l₁.id, x⟩ :=
        Store.live?_eq_some_iff.2 ⟨hknown l hheld.known ▸ hheld.row, hlive⟩
      exact hlost _ hrow rfl
  | clear i => exact absurd List.mem_cons_self hcleared

/-- Moves in sequence keep a lease that is held, if they are over before it ends. -/
theorem Moves.held (hmoves : Moves b f n f') (hw : f.WellFormed) (hg : f.GrantedOnce h)
    (hfits : ∀ m ∈ n, m.Fits) (hheld : Held f.registry f.store id l x) (hlive : f'.now < x)
    (hahead : f'.now < l.expiresAt) (hcleared : .cleared ∉ n)
    (hreleased : .released l.lock id ∉ n) :
    ∃ l' x', Held f'.registry f'.store id l' x' ∧ Moved l x n l' x' := by
  induction hmoves generalizing h l x with
  | refl f => exact ⟨l, x, hheld, .refl l x []⟩
  | @head f f₁ f' n n' hmove hmoves ih =>
    have hle : f.now ≤ f'.now := Nat.le_trans hmove.now_le hmoves.now_le
    obtain ⟨l₁, x₁, hheld₁, hmoved₁⟩ := hmove.held hw hg
      (fun m hm ↦ hfits m (List.mem_append_left n' hm)) hheld (Nat.lt_of_le_of_lt hle hlive)
      (fun hmem ↦ hcleared (List.mem_append_left n' hmem))
      (fun hmem ↦ hreleased (List.mem_append_left n' hmem))
    have hw₁ := hmove.wellFormed hw
    obtain ⟨l₂, x₂, hheld₂, hmoved₂⟩ := ih hw₁ (hmove.grantedOnce hw hg)
      (fun m hm ↦ hfits m (List.mem_append_right n hm)) hheld₁ (hmoved₁.lt_row hlive hahead)
      (Nat.lt_of_lt_of_le hahead hmoved₁.expiresAt_le)
      (fun hmem ↦ hcleared (List.mem_append_right n hmem))
      (fun hmem ↦ hreleased (hmoved₁.lock ▸ List.mem_append_right n hmem))
    refine ⟨l₂, x₂, hheld₂, hmoved₁.trans hmoved₂ ?_⟩
    have hkeyed := hw.registry ()
    have hkeyed₁ := hw₁.registry ()
    exact (hkeyed₁ id l₁ hheld₁.known).trans (hkeyed id l hheld.known).symm

end Cluster

end LeaseLock
