import LeaseLock.Proofs.Cluster.Calls

/-!
# Mutual exclusion

A lease is in force as long as it has not been released and the expiry that was last told of it has
not come. Two leases of one lock are meant never to be in force together, and the store to attribute
a lock to the lease that is in force on it.

## The margin

A lease is told to last from the time at which the coordinator dates it. Its key lasts from the time
at which the store gave it, and the store has read the clock first. So the key may expire before the
lease does, by as much as the clock has moved on in between, and until the lease has expired as well
another one may be granted (`Cluster.not_excludes_late`).

That is all that can go wrong. In every run in which leases are dated within `d` milliseconds, of
any number of coordinators and on any kind of store, a lease is alone on its lock and owns it in the
store except in its last `d` milliseconds; and nothing can be said of these unless `d` is zero
(`Cluster.mutual_exclusion`).

## What carries the proof

The key of a lease in force lasts as long as was told but for the margin (`Cluster.Covered`). It may
last longer, by the millisecond for which every key is kept, or by a renewal whose answer was lost.
A renewal is told to last until an instant that is computed first, and its key is extended by the
time until then, but counted from a later reading of the clock; so renewals do not add to the
margin, however long they take.

Registries do not matter here. A renewal that is computed from a stale registry extends the key to
the instant that it tells, and whatever interrupted operations leave in registries, the invariant
does not read it.
-/

namespace LeaseLock

namespace Notice

/-- When the lease `id` of `lock` ends, if the notice tells. -/
def expiry? (lock : LockName) (id : LeaseId) : Notice → Option Nat
  | granted l => if l.lock = lock ∧ l.id = id then some l.expiresAt else none
  | renewed lock' id' renewal => if lock' = lock ∧ id' = id then some renewal.expiresAt else none
  | released _ _ => none
  | refused _ _ _ => none
  | cleared => none

/-- A grant tells the expiry of its own lease. -/
@[simp] theorem expiry?_granted_self (l : Lease) :
    (granted l).expiry? l.lock l.id = some l.expiresAt :=
  if_pos ⟨rfl, rfl⟩

/-- A renewal tells the expiry of the lease that it renews. -/
@[simp] theorem expiry?_renewed_self (lock : LockName) (id : LeaseId) (renewal : Renewal) :
    (renewed lock id renewal).expiry? lock id = some renewal.expiresAt :=
  if_pos ⟨rfl, rfl⟩

/-- An expiry that is told is a machine word. -/
def Fits : Notice → Prop
  | granted l => l.expiresAt < wordBound
  | renewed _ _ renewal => renewal.expiresAt < wordBound
  | released _ _ => True
  | refused _ _ _ => True
  | cleared => True

/-- What is told within bounds is a word. -/
theorem lt_of_expiry? {n : Notice} {lock : LockName} {id : LeaseId} {e : Nat} (hfits : n.Fits)
    (h : n.expiry? lock id = some e) : e < wordBound := by
  cases n with
  | granted l => exact Option.some.inj (Option.ite_none_right_eq_some.1 h).2 ▸ hfits
  | renewed lock' id' renewal =>
    exact Option.some.inj (Option.ite_none_right_eq_some.1 h).2 ▸ hfits
  | released | refused | cleared => cases h

instance (n : Notice) : Decidable n.Fits := by
  cases n <;> simp only [Fits] <;> infer_instance

end Notice

/-- When the lease `id` of `lock` ends by what was last told. -/
def lastExpiry? (h : List Notice) (lock : LockName) (id : LeaseId) : Option Nat :=
  (h.filterMap (Notice.expiry? lock id)).getLast?

/-- The lease `id` of `lock` is in force: it has not been released, and the end that was last told
has not come. -/
structure InForce (h : List Notice) (now : Nat) (lock : LockName) (id : LeaseId) : Prop where
  /-- No release was answered. -/
  released : Notice.released lock id ∉ h
  /-- The end has not come. -/
  expiry : ∃ e, lastExpiry? h lock id = some e ∧ now < e

variable {h : List Notice} {n : Notice} {lock lock' : LockName} {id id' : LeaseId}

/-- A notice that does not tell of the lease changes nothing. -/
theorem lastExpiry?_append_of_none (hn : n.expiry? lock id = none) :
    lastExpiry? (h ++ [n]) lock id = lastExpiry? h lock id := by
  rw [lastExpiry?, List.filterMap_append, List.filterMap_cons_none hn, List.filterMap_nil,
    List.append_nil, lastExpiry?]

/-- A notice that tells of it counts from then on. -/
theorem lastExpiry?_append_of_some {e : Nat} (hn : n.expiry? lock id = some e) :
    lastExpiry? (h ++ [n]) lock id = some e := by
  rw [lastExpiry?, List.filterMap_append, List.filterMap_cons_some hn, List.filterMap_nil,
    List.getLast?_concat]

/-- What was last told was told in a notice. -/
theorem fits_of_lastExpiry? {e : Nat} (hfits : ∀ n ∈ h, n.Fits)
    (hlast : lastExpiry? h lock id = some e) : e < wordBound := by
  obtain ⟨n, hn, htold⟩ := List.mem_filterMap.1 (List.mem_of_getLast? hlast)
  exact Notice.lt_of_expiry? (hfits n hn) htold

namespace Cluster

/-! ### The keys of leases in force -/

variable {ι : Type} [DecidableEq ι] {b : Lags} {d : Nat} {f f' : Cluster ι}

/-- Every lease in force has its key, for as long as was told but for the margin `d`. -/
def Covered (d : Nat) (f : Cluster ι) (h : List Notice) : Prop :=
  ∀ lock id e, Notice.released lock id ∉ h → lastExpiry? h lock id = some e → e < wordBound →
    f.now + d < e → ∃ x, f.store.row? lock = some ⟨id, x⟩ ∧ e ≤ x + d

omit [DecidableEq ι] in
/-- Nothing is told, and the rows that are live stay as long as they are. -/
theorem Covered.of_live? (hc : f.Covered d h) (hle : f.now ≤ f'.now)
    (hlive : ∀ k row, f.store.row? k = some row → f'.now < row.expiresAt →
      f'.store.row? k = some row) : f'.Covered d h := by
  intro lock id e hreleased hlast hfit hlt
  obtain ⟨x, hrow, hx⟩ := hc lock id e hreleased hlast hfit (by omega)
  have hahead : f'.now < x := by omega
  exact ⟨x, hlive lock _ hrow hahead, hx⟩

omit [DecidableEq ι] in
/-- The key of `lock` changes and `id` is told of it, while nobody else owns the lock. -/
theorem Covered.of_sets (hc : f.Covered d h) (id : LeaseId) (hnow : f.now ≤ f'.now)
    {row : Option Row} (hsets : f.store.Sets f'.store lock row)
    (halone : ∀ old, f.store.live? f.now lock = some old → old.lease = id)
    (hsilent : ∀ lock' id', ¬ (lock = lock' ∧ id = id') → n.expiry? lock' id' = none)
    (hself : Notice.released lock id ∉ h ++ [n] → ∀ e, lastExpiry? (h ++ [n]) lock id = some e →
      e < wordBound → ∃ x, row = some ⟨id, x⟩ ∧ e ≤ x + d) : f'.Covered d (h ++ [n]) := by
  intro lock' id' e hreleased hlast hfit hlt
  by_cases heq : lock = lock' ∧ id = id'
  · obtain ⟨rfl, rfl⟩ := heq
    obtain ⟨x, rfl, hx⟩ := hself hreleased e hlast hfit
    exact ⟨x, hsets.at_lock, hx⟩
  · rw [lastExpiry?_append_of_none (hsilent lock' id' heq)] at hlast
    obtain ⟨x, hrow, hx⟩ := hc lock' id' e
      (fun hmem ↦ hreleased (List.mem_append_left _ hmem)) hlast hfit (by omega)
    refine ⟨x, ?_, hx⟩
    rw [hsets.elsewhere, hrow]
    rintro rfl
    -- Another lease whose key lasts as long would own this lock.
    have hahead : f.now < x := by omega
    have hid : id' = id := halone ⟨id', x⟩ (Store.live?_eq_some_iff.2 ⟨hrow, hahead⟩)
    exact heq ⟨rfl, hid.symm⟩

omit [DecidableEq ι] in
/-- A notice that tells no expiry. -/
theorem Covered.of_silent (hc : f.Covered d h) (hsilent : ∀ lock id, n.expiry? lock id = none) :
    f.Covered d (h ++ [n]) := by
  intro lock id e hreleased hlast hfit hlt
  rw [lastExpiry?_append_of_none (hsilent lock id)] at hlast
  exact hc lock id e (fun hmem ↦ hreleased (List.mem_append_left _ hmem)) hlast hfit hlt

/-- Whoever changes the key of `id` is alone on the lock. -/
theorem lease_of_changed {s s' : Store} {now : Nat} {row : Option Row}
    (hs : s.Changed s' now lock id row true) (old : Row) (hold : s.live? now lock = some old) :
    old.lease = id := by
  obtain ⟨⟨e, he⟩, -⟩ := hs
  rw [hold] at he
  rw [Option.some.inj he]

/-- Every move keeps the keys of leases in force, those that grant or renew included. -/
theorem Move.covered {n : List Notice} (hmove : Move b f n f') (hc : f.Covered b.grant h) :
    f'.Covered b.grant (h ++ n) := by
  have hstay (h' : f'.now = f.now ∧ f'.store = f.store) : f'.Covered b.grant h :=
    hc.of_live? (Nat.le_of_eq h'.1.symm) fun k row hrow _ ↦ h'.2 ▸ hrow
  cases hmove with
  | quiet i c hleases => exact (List.append_nil h).symm ▸ hstay ⟨rfl, rfl⟩
  | outage on => exact (List.append_nil h).symm ▸ hstay ⟨rfl, rfl⟩
  | elapse millis ticks =>
    rw [List.append_nil]
    exact hc.of_live? (Nat.le_add_right _ _) fun k row hrow _ ↦ hrow
  | refuse lock id fault hfault => exact hc.of_silent fun _ _ ↦ rfl
  | begin i p hfresh => exact (List.append_nil h).symm ▸ hstay ⟨rfl, rfl⟩
  | leave id => exact (List.append_nil h).symm ▸ hstay ⟨rfl, rfl⟩
  | award i p s lag hlag hp hs =>
    obtain ⟨hnobody, hsets⟩ := hs
    refine hc.of_sets p.id (Nat.le_add_right _ lag) hsets ?_ ?_ ?_
    · intro old hold
      rw [hnobody] at hold
      cases hold
    · intro lock' id' hne
      exact if_neg hne
    · intro _ e hlast _
      -- The lease counts from later than its key, but not by more than the margin.
      have htold := lastExpiry?_append_of_some (h := h)
        (Notice.expiry?_granted_self ((f.member i).grant (f.now + lag) p.request p.id p.ttl).1)
      obtain rfl := Option.some.inj (htold.symm.trans hlast)
      refine ⟨_, rfl, ?_⟩
      show f.now + lag + p.ttl.keyMillis ≤ f.now + p.ttl.keyMillis + b.grant
      omega
  | free i lock client id s hs =>
    refine hc.of_sets id (Nat.le_refl _) hs.2 (lease_of_changed hs) (fun _ _ _ ↦ rfl) ?_
    intro hreleased
    exact absurd (List.mem_append_right h List.mem_cons_self) hreleased
  | extend i lock id start target extension s hstart hlag htarget hs =>
    refine hc.of_sets id (Nat.le_refl _) hs.2 (lease_of_changed hs) (fun _ _ hne ↦ if_neg hne) ?_
    intro _ e hlast hfit
    have htold : ((f.member i).noteRenewal id target).1.expiresAt = target := by
      rw [htarget, Coordinator.expiresAt_noteRenewal]
    rw [lastExpiry?_append_of_some (Notice.expiry?_renewed_self lock id _), htold] at hlast
    obtain rfl := Option.some.inj hlast
    -- The registry may be stale, but the key is extended to what is told at least.
    have hle : target ≤ start + (Duration.ofMillis (target - start)).keyMillis :=
      Duration.le_add_keyMillis_ofMillis_sub hfit
    exact ⟨_, rfl, by omega⟩
  | purge s m hs =>
    rw [List.append_nil]
    exact hc.of_live? (Nat.le_refl _) fun k row hrow hlt ↦ Store.row?_purge_of_lt hs hrow hlt
  | prune i => exact (List.append_nil h).symm ▸ hstay ⟨rfl, rfl⟩
  | drop i l hknown hlost => exact (List.append_nil h).symm ▸ hstay ⟨rfl, rfl⟩
  | clear i => exact hc.of_silent fun _ _ ↦ rfl

/-- Every run keeps them. -/
theorem covered_run (hstart : f.IsStart) (es : List (Event ι))
    (hd : ∀ c, .call c ∈ es → c.GrantsWithin d) : (f.run es).2.Covered d (f.run es).1 := by
  -- How long renewals take does not matter, so any bound that there is for them will do.
  obtain ⟨⟨_, d'⟩, hwithin⟩ := exists_within es
  refine run_invariant_of_within (b := ⟨d, d'⟩) (P := Covered d) (h := []) es
    (fun c hc ↦ ⟨hd c hc, (hwithin c hc).2⟩) (fun f h n f' _ hP hmove ↦ hmove.covered hP)
    (fun i r _ _ f h hP ↦ hP) hstart.wellFormed ?_
  intro lock id e _ hlast
  cases hlast

/-! ### Leases alone on their locks -/

/-- Except in its last `margin` milliseconds, a lease in force is alone on its lock and owns it. -/
structure Excludes (f : Cluster ι) (h : List Notice) (margin : Nat) : Prop where
  /-- A lock has one such lease at most. -/
  alone : ∀ lock id id', InForce h (f.now + margin) lock id →
    InForce h (f.now + margin) lock id' → id = id'
  /-- The store attributes the lock to the lease. -/
  owner : ∀ lock id, InForce h (f.now + margin) lock id → f.store.owner? f.now lock = some id

omit [DecidableEq ι] in
/-- Leases whose keys are kept are alone on their locks except for the margin. -/
theorem Covered.excludes (hc : f.Covered d h) (hfits : ∀ n ∈ h, n.Fits) : f.Excludes h d := by
  have howner (lock : LockName) (id : LeaseId) (hforce : InForce h (f.now + d) lock id) :
      f.store.owner? f.now lock = some id := by
    obtain ⟨e, hlast, hlt⟩ := hforce.expiry
    obtain ⟨x, hrow, hx⟩ := hc lock id e hforce.released hlast (fits_of_lastExpiry? hfits hlast) hlt
    exact Store.owner?_eq_some_iff.2 ⟨x, hrow, by omega⟩
  refine ⟨fun lock id id' hid hid' ↦ ?_, howner⟩
  exact Option.some.inj ((howner lock id hid).symm.trans (howner lock id' hid'))

/-- In every run in which leases are dated within `d` milliseconds and no expiry overflows, leases
exclude each other except in their last `margin` milliseconds. -/
def ExcludesWithin (d margin : Nat) : Prop :=
  ∀ (ι : Type) [DecidableEq ι] (f : Cluster ι), f.IsStart → ∀ es : List (Event ι),
    (∀ c, .call c ∈ es → c.GrantsWithin d) → (∀ n ∈ (f.run es).1, n.Fits) →
    (f.run es).2.Excludes (f.run es).1 margin

/-- A lease that is dated `lag` milliseconds behind its key, and one that is granted as soon as the
key has expired. -/
def late (lag : Nat) : List (Event Unit) :=
  [.call (.acquire () "a" { lock := "L", client := "x", ttl := some (.ofMillis 100) } lag),
   .call (.elapse (100 - lag) (100 - lag)),
   .call (.acquire () "b" { lock := "L", client := "y", ttl := some (.ofMillis 100) })]

/-- **Mutual exclusion.** If leases are dated within `d` milliseconds, they exclude each other
except in their last `d` milliseconds. They exclude each other throughout if and only if they are
dated at once. -/
theorem mutual_exclusion (d : Nat) :
    ExcludesWithin d d ∧ (ExcludesWithin d 0 ↔ d = 0) := by
  have hwithin : ExcludesWithin d d := fun ι _ f hstart es hd hfits ↦
    (covered_run hstart es hd).excludes hfits
  refine ⟨hwithin, fun h ↦ ?_, fun h ↦ h ▸ hwithin⟩
  by_contra hd
  -- One millisecond is enough for two leases in force.
  have hlags : ∀ c, .call c ∈ late 1 → c.GrantsWithin d := by
    simp only [late, List.mem_cons, Event.call.injEq, List.not_mem_nil, or_false]
    rintro c (rfl | rfl | rfl)
    · exact Nat.pos_of_ne_zero hd
    · trivial
    · exact Nat.zero_le d
  have hkept (id : LeaseId) : Notice.released "L" id ∉ (single.run (late 1)).1 := by
    intro hmem
    change _ ∈ [Notice.granted _, .granted _] at hmem
    simp at hmem
  have hboth := (h Unit single isStart_single (late 1) hlags (by decide)).alone "L" "a" "b"
    ⟨hkept "a", 101, by decide, by decide⟩ ⟨hkept "b", 200, by decide, by decide⟩
  exact absurd hboth (by decide)

/-- A lease that is dated five milliseconds late is in force together with the next one. -/
theorem not_excludes_late : single.IsStart ∧ (∀ n ∈ (single.run (late 5)).1, n.Fits) ∧
    ¬(single.run (late 5)).2.Excludes (single.run (late 5)).1 0 := by
  refine ⟨isStart_single, by decide, fun h ↦ ?_⟩
  have hkept (id : LeaseId) : Notice.released "L" id ∉ (single.run (late 5)).1 := by
    intro hmem
    change _ ∈ [Notice.granted _, .granted _] at hmem
    simp at hmem
  have hboth := h.alone "L" "a" "b" ⟨hkept "a", 105, by decide, by decide⟩
    ⟨hkept "b", 200, by decide, by decide⟩
  exact absurd hboth (by decide)

end Cluster

end LeaseLock
