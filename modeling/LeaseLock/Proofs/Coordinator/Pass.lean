import LeaseLock.Proofs.Coordinator.Leases
import LeaseLock.Proofs.Coordinator.Operations

/-!
# What a pass of upkeep does to a lease

A lease that upkeep is to keep alive is `Held`: the registry knows it, and its row is in the store.
The two need not end at the same time, because the store and the coordinator read the clock one
after the other. A pass that takes no time, over a store within reach, leaves such a lease held. One
with less than the window left is renewed for the default length, and its row ends with it then; one
with more is left as it is (`Coordinator.held_upkeep`). So whatever was left of it before, behind
the pass it lasts for the default length or for the window.

The candidates are renewed one after another, while the clock moves on or stands still. An id is
listed once (`Coordinator.nodup_dueForRenewal`), so a lease is renewed once, and the renewals of the
other ones do not touch it (`Coordinator.Spares`).

Renewing, pruning and purging are the three parts of a pass, and a held lease goes through each of
them: it is among the candidates or is spared by them, it has not expired in the registry, and its
row has not expired in the store. The last two are asked for as conditions on the instant of the
pass and not on the window, so the theorems hold of a lease that is about to end as well.
-/

namespace LeaseLock

/-- A lease that upkeep keeps alive is known under its id, and its row is in the store and ends at
`x`. -/
structure Held (r : Registry) (s : Store) (id : LeaseId) (l : Lease) (x : Nat) : Prop where
  /-- The registry knows the lease. -/
  known : r.lease? id = some l
  /-- Upkeep is to renew it. -/
  autoRenew : l.autoRenew = true
  /-- The store has the row of the lease. -/
  row : s.row? l.lock = some ⟨id, x⟩

namespace Coordinator

variable {c : Coordinator} {s : Store} {now x : Nat} {id : LeaseId} {l l₁ : Lease}
  {o o' o'' : Outcome UpkeepReport} {ls : List Lease}

/-- The lease behind a renewal by upkeep at `now`. -/
def kept (c : Coordinator) (now : Nat) (l : Lease) : Lease :=
  Registry.renewed l (max (now + c.config.defaultTtl.wholeMillis) (l.expiresAt + 1))

theorem lock_renewed (l : Lease) (target : Nat) : (Registry.renewed l target).lock = l.lock := rfl

theorem autoRenew_renewed (l : Lease) (target : Nat) :
    (Registry.renewed l target).autoRenew = l.autoRenew := rfl

@[simp] theorem lock_kept : (c.kept now l).lock = l.lock := by
  rw [kept, lock_renewed]

@[simp] theorem autoRenew_kept : (c.kept now l).autoRenew = l.autoRenew := by
  rw [kept, autoRenew_renewed]

/-- It ends after the default length, and later than before in any case. -/
theorem expiresAt_kept :
    (c.kept now l).expiresAt =
      max (now + c.config.defaultTtl.wholeMillis) (l.expiresAt + 1) := by
  simp only [kept, Registry.renewed]
  omega

/-- A known lease is renewed up to the end of the lease that is kept. -/
theorem renewalEnd_eq_kept (hknown : c.registry.lease? id = some l) (now : Nat) :
    c.renewalEnd now id none = (c.kept now l).expiresAt := by
  rw [expiresAt_kept]
  simp only [renewalEnd, hknown, Config.ttlFor]

/-- Each id is listed once among the candidates. -/
theorem nodup_dueForRenewal (hkeyed : c.registry.Keyed) (now window : Nat) :
    ((c.dueForRenewal now window).map (·.id)).Nodup :=
  hkeyed.nodup_leases.sublist (List.filter_sublist.map _)

/-! ### Other leases -/

/-- What is known under `id` and the rows under `id` are what they were. -/
structure Spares (id : LeaseId) (o o' : Outcome UpkeepReport) : Prop where
  /-- The registry knows the same lease. -/
  known : o'.coordinator.registry.lease? id = o.coordinator.registry.lease? id
  /-- The store has the same rows. -/
  row : ∀ lock e, o'.store.row? lock = some ⟨id, e⟩ ↔ o.store.row? lock = some ⟨id, e⟩

theorem Spares.refl (id : LeaseId) (o : Outcome UpkeepReport) : Spares id o o :=
  ⟨rfl, fun _ _ ↦ Iff.rfl⟩

theorem Spares.trans (h : Spares id o o') (h' : Spares id o' o'') : Spares id o o'' :=
  ⟨h'.known.trans h.known, fun lock e ↦ (h'.row lock e).trans (h.row lock e)⟩

/-- Renewing a lease spares the other ids. -/
theorem spares_renewDue (now lag : Nat) (o : Outcome UpkeepReport) (hne : l₁.id ≠ id) :
    Spares id o (renewDue now lag o l₁) := by
  rw [renewDue]
  obtain ⟨fault, ho⟩ | ⟨s', hextend, ho⟩ :=
    o.coordinator.renew_cases o.store now l₁.lock l₁.id none lag
  · rw [ho]
    refine ⟨?_, fun _ _ ↦ Iff.rfl⟩
    dsimp only
    split
    · rw [Registry.lease?_remove, if_neg hne.symm]
    · rfl
  · obtain ⟨⟨e, he⟩, hsets⟩ := Store.extend_spec hextend
    rw [ho]
    refine ⟨?_, fun _ _ ↦ hsets.row?_iff_of_ne (Store.live?_eq_some_iff.1 he).1 hne.symm⟩
    show ((o.coordinator.noteRenewal l₁.id _).2.registry).lease? id = _
    rw [registry_noteRenewal, Registry.lease?_noteRenewal, if_neg hne.symm]

/-- The candidates in turn spare the ids that are not among theirs. -/
theorem spares_renewAll (w : Watch) (o : Outcome UpkeepReport) (hid : id ∉ ls.map (·.id)) :
    Spares id o (renewAll w o ls).2 := by
  induction ls generalizing w o with
  | nil => exact .refl id o
  | cons l₁ ls ih =>
    rw [List.map_cons, List.mem_cons, not_or] at hid
    exact (spares_renewDue _ _ o (Ne.symm hid.1)).trans (ih _ _ hid.2)

/-- A held lease whose id is spared stays held. -/
theorem Spares.held (hspares : Spares id o o') (h : Held o.coordinator.registry o.store id l x) :
    Held o'.coordinator.registry o'.store id l x :=
  ⟨hspares.known.trans h.known, h.autoRenew, (hspares.row _ _).2 h.row⟩

/-! ### A held lease -/

/-- A held lease that is live is renewed for the default length. -/
theorem held_renewDue_self (h : Held o.coordinator.registry o.store id l x) (hlive : now < x)
    (hend : now < l.expiresAt) (hping : o.store.ping = .ok ())
    (hfits : (o.coordinator.kept now l).expiresAt < signedBound) (hid : l.id = id) :
    Held (renewDue now 0 o l).coordinator.registry (renewDue now 0 o l).store id
      (o.coordinator.kept now l) (o.coordinator.kept now l).expiresAt := by
  have htarget := renewalEnd_eq_kept h.known now
  have hahead : now < (o.coordinator.kept now l).expiresAt := by
    rw [expiresAt_kept]
    omega
  have hword : (o.coordinator.kept now l).expiresAt < wordBound :=
    Nat.lt_trans hfits (by decide)
  have hlength : now +
      (Duration.ofMillis ((o.coordinator.kept now l).expiresAt - now)).keyMillis =
        (o.coordinator.kept now l).expiresAt :=
    Duration.add_keyMillis_ofMillis_sub hahead hword
  obtain ⟨s', hextend, -, hrow⟩ :=
    Store.extend_of_owner hping h.row hlive (lt_of_eq_of_lt hlength hfits)
  rw [hlength] at hrow
  rw [renewDue, renew, hid]
  simp only [Nat.add_zero, htarget, hextend, Verdict.ofRenewal, reduceCtorEq, if_false]
  constructor
  · rw [registry_noteRenewal, Registry.lease?_noteRenewal, if_pos rfl, h.known, Option.map_some,
      expiresAt_kept, kept]
  · rw [autoRenew_kept, h.autoRenew]
  · rw [lock_kept, hrow]

/-- A held lease that is one of the candidates is renewed in its turn. -/
theorem held_renewAll_of_mem (h : Held o.coordinator.registry o.store id l x) (hlive : now < x)
    (hend : now < l.expiresAt) (hping : o.store.ping = .ok ())
    (hfits : (o.coordinator.kept now l).expiresAt < signedBound) (hid : l.id = id) (hmem : l ∈ ls)
    (hnodup : (ls.map (·.id)).Nodup) :
    Held (renewAll ⟨now, []⟩ o ls).2.coordinator.registry (renewAll ⟨now, []⟩ o ls).2.store id
      (o.coordinator.kept now l) (o.coordinator.kept now l).expiresAt := by
  induction ls generalizing o with
  | nil => cases hmem
  | cons l₁ ls ih =>
    rw [List.map_cons, List.nodup_cons] at hnodup
    show Held (renewAll ⟨now, []⟩ (renewDue now 0 o l₁) ls).2.coordinator.registry
      (renewAll ⟨now, []⟩ (renewDue now 0 o l₁) ls).2.store id _ _
    rcases List.mem_cons.1 hmem with rfl | hrest
    · exact (spares_renewAll ⟨now, []⟩ _ (hid ▸ hnodup.1)).held
        (held_renewDue_self h hlive hend hping hfits hid)
    · have hne : l₁.id ≠ id := by
        rintro rfl
        exact hnodup.1 (hid ▸ List.mem_map_of_mem hrest)
      have hconfig : (renewDue now 0 o l₁).coordinator.kept now l = o.coordinator.kept now l := by
        rw [kept, (onlyLeases_renewDue now 0 o l₁).config, kept]
      have hreach : (renewDue now 0 o l₁).store.ping = .ok () :=
        (ping_renew o.coordinator o.store now l₁.lock l₁.id none 0).trans hping
      rw [← hconfig] at hfits ⊢
      exact ih ((spares_renewDue now 0 o hne).held h) hreach hfits hrest hnodup.2

/-- A purge leaves a lease held whose row has not expired. -/
theorem held_purgeAfter (h : Held o.coordinator.registry o.store id l x) (hlive : now < x) :
    Held (purgeAfter now o).coordinator.registry (purgeAfter now o).store id l x := by
  rw [purgeAfter]
  split
  · next hpurge => exact ⟨h.known, h.autoRenew, Store.row?_purge_of_lt hpurge h.row hlive⟩
  · exact h

/-- A pass renews a held lease with less than the window left, and leaves another one as it is. -/
theorem held_upkeep (hkeyed : c.registry.Keyed) (h : Held c.registry s id l x) (hlive : now < x)
    (hend : now < l.expiresAt) (hping : s.ping = .ok ())
    (hfits : (c.kept now l).expiresAt < signedBound) {interval window : Duration}
    (hwindow : interval.double? = some window) :
    Held (c.upkeep s now interval).coordinator.registry (c.upkeep s now interval).store id
      (if l.remaining now < window.wholeMillis then c.kept now l else l)
      (if l.remaining now < window.wholeMillis then (c.kept now l).expiresAt else x) := by
  -- Pruning spares the lease, because upkeep is to renew it.
  let c₁ : Coordinator := { c with registry := (c.registry.prune now).1 }
  have hkeyed₁ : c₁.registry.Keyed := hkeyed.prune
  have hheld : Held c₁.registry s id l x := by
    refine ⟨?_, h.autoRenew, h.row⟩
    rw [hkeyed.lease?_prune, h.known, Option.filter_some, h.autoRenew]
    rfl
  have hid : l.id = id := hkeyed id l h.known
  have hdue (l₁ : Lease) : l₁ ∈ c₁.dueForRenewal now window.wholeMillis ↔
      l₁ ∈ c₁.registry.leases ∧ l₁.autoRenew = true ∧ l₁.remaining now < window.wholeMillis := by
    rw [dueForRenewal, List.mem_filter, Bool.and_eq_true, decide_eq_true_iff]
    rfl
  rw [upkeep, hwindow]
  dsimp only
  -- The clock stands still, so the purge is made at the time of the pass.
  rw [show (renewAll ⟨now, []⟩ ⟨_, s, c₁⟩ (c₁.dueForRenewal now window.wholeMillis)).1 = ⟨now, []⟩
    from congrArg Prod.fst (renewAll_still now _ _)]
  refine held_purgeAfter ?_ ?_
  · split
    · next hshort =>
      have hmem : l ∈ c₁.dueForRenewal now window.wholeMillis :=
        (hdue l).2 ⟨Registry.mem_leases_iff.2 ⟨id, hheld.known⟩, h.autoRenew, hshort⟩
      exact held_renewAll_of_mem (o := ⟨_, s, c₁⟩) hheld hlive hend hping hfits hid hmem
        (nodup_dueForRenewal hkeyed₁ now _)
    · next hlong =>
      refine (spares_renewAll _ ⟨_, s, c₁⟩ fun hmem ↦ hlong ?_).held hheld
      obtain ⟨l₁, hl₁, hid₁⟩ := List.mem_map.1 hmem
      obtain ⟨hlisted, -, hshort⟩ := (hdue l₁).1 hl₁
      rw [hkeyed₁.mem_leases_iff, hid₁, hheld.known] at hlisted
      exact Option.some.inj hlisted ▸ hshort
  · show now < _
    split
    · rw [expiresAt_kept]
      omega
    · exact hlive

end Coordinator

end LeaseLock
