import LeaseLock.Proofs.Cluster.Known

/-!
# The registry mirrors the store

A coordinator that shares its store with nobody is meant to know what is in it: a lease in its
registry that has not expired is the live row of its lock, with the same expiry to the millisecond,
and a live row that was granted since the registry was last cleared has its lease in the registry
(`Cluster.Mirrored`).

## Two readings, two expiries

The expiry is computed twice, once by the store from the length that it is handed and once by the
registry, at a grant from the length of the lease and at a renewal from the instant that was aimed
at. The two sums start from two readings of the clock. At a grant the store reads it first, so the
lease may outlast its row by the time in between. At a renewal the coordinator reads it first, so
the row may outlast the lease by the time in between. Neither adds up over a run, because every
renewal starts both sums anew (`Cluster.Mirrors.agree`).

So the mirror is exact in all runs if and only if no time passes in between, neither at a grant nor
at a renewal. Otherwise it is exact up to these times (`Cluster.registry_mirrors_store`).

## How leases leave the registry

Leases leave the registry when they are released, when their lock is granted anew, when they are
pruned, when upkeep is turned away with them, and when the registry is cleared. Clearing loses sight
of live rows, and so does pruning while a row outlasts its lease. A lease that is lost like this can
still be renewed, and its row then lasts for as long as was asked for; but the answer gives it away,
because the renewals of a lease that is not known are counted as none.
-/

namespace LeaseLock

/-- Whether a coordinator has forgotten all its leases. -/
def Notice.isCleared : Notice → Bool
  | cleared => true
  | _ => false

/-- The notices since a coordinator last forgot all its leases. -/
def sinceCleared (h : List Notice) : List Notice :=
  (h.reverse.takeWhile (!·.isCleared)).reverse

variable {h : List Notice} {n : Notice} {lock : LockName} {id : LeaseId}

/-- A notice that clears leaves nothing, and another one is added. -/
theorem sinceCleared_append (h : List Notice) (n : Notice) :
    sinceCleared (h ++ [n]) = if n.isCleared then [] else sinceCleared h ++ [n] := by
  rw [sinceCleared, List.reverse_append, List.reverse_singleton, List.singleton_append,
    List.takeWhile_cons]
  cases n.isCleared with
  | true => rfl
  | false => exact List.reverse_cons

/-- A notice that grants nothing adds no grant. -/
theorem Granted.of_sinceCleared_append (hn : ∀ l, n ≠ .granted l)
    (hg : Granted (sinceCleared (h ++ [n])) lock id) : Granted (sinceCleared h) lock id := by
  rw [sinceCleared_append] at hg
  split at hg
  · obtain ⟨l, hl, -⟩ := hg
    cases hl
  · exact hg.of_append_ne hn

namespace Cluster

variable {b : Lags} {f f' : Cluster Unit} {h' : List Notice}

/-- What the coordinator remembers. -/
def registry (f : Cluster Unit) : Registry := (f.member ()).registry

theorem registry_enter (f : Cluster Unit) (c : Coordinator) :
    (f.enter () c).registry = c.registry :=
  congrArg Coordinator.registry (member_enter_self f () c)

theorem registry_disturb (f : Cluster Unit) (r : Registry) : (f.disturb () r).registry = r :=
  registry_enter f _

theorem registry_withStore (f : Cluster Unit) (s : Store) : (f.withStore s).registry = f.registry :=
  rfl

theorem registry_await (f : Cluster Unit) (id : LeaseId) (p : Option (Unit × Pending)) :
    (f.await id p).registry = f.registry :=
  rfl

/-- The registry mirrors the store up to the time that passes within calls. -/
structure Mirrors (b : Lags) (f : Cluster Unit) (h : List Notice) : Prop where
  /-- A row that is a lease's own ends when the lease does. -/
  agree : ∀ k l x, f.registry.lease? k = some l → l.expiresAt < wordBound →
    f.store.row? l.lock = some ⟨k, x⟩ → l.expiresAt ≤ x + b.grant ∧ x ≤ l.expiresAt + b.renewal
  /-- A lease that has not expired has its row. -/
  kept : ∀ k l, f.registry.lease? k = some l → l.expiresAt < wordBound →
    f.now + b.grant < l.expiresAt → ∃ x, f.store.row? l.lock = some ⟨k, x⟩
  /-- A live row has its lease, if it was granted since the registry was cleared and has not been
  renewed as the row of an unknown lease. -/
  known : (∀ n ∈ h, n.Fits) → ∀ lock id x, f.store.row? lock = some ⟨id, x⟩ →
    f.now + b.renewal < x → Granted (sinceCleared h) lock id →
    (b.renewal = 0 ∨ ∀ renewal, .renewed lock id renewal ∈ h → renewal.renewals ≠ 0) →
    ∃ l, f.registry.lease? id = some l ∧ l.lock = lock

/-- What is known of rows carries over to a longer history. -/
theorem Mirrors.known_append (hm : f.Mirrors b h) {n : List Notice} {x : Nat}
    (hn : ∀ lock id, Granted (sinceCleared (h ++ n)) lock id → Granted (sinceCleared h) lock id)
    (hfits : ∀ m ∈ h ++ n, m.Fits) (hx : f.store.row? lock = some ⟨id, x⟩)
    (hlt : f.now + b.renewal < x) (hg : Granted (sinceCleared (h ++ n)) lock id)
    (hcount : b.renewal = 0 ∨
      ∀ renewal, .renewed lock id renewal ∈ h ++ n → renewal.renewals ≠ 0) :
    ∃ l, f.registry.lease? id = some l ∧ l.lock = lock :=
  hm.known (fun m hmem ↦ hfits m (List.mem_append_left n hmem)) lock id x hx hlt (hn lock id hg)
    (hcount.imp_right fun hcount renewal hmem ↦ hcount renewal (List.mem_append_left n hmem))

/-- A step that grants nothing and leaves the rows as they are, while the registry forgets at most
leases whose row is about to end. -/
theorem Mirrors.forget (hm : f.Mirrors b h) {n : List Notice}
    (hn : ∀ lock id, Granted (sinceCleared (h ++ n)) lock id → Granted (sinceCleared h) lock id)
    (hnow : f.now ≤ f'.now) (hstore : f'.store = f.store)
    (hback : ∀ k l, f'.registry.lease? k = some l → f.registry.lease? k = some l)
    (hlive : ∀ k l x, f.registry.lease? k = some l → f.store.row? l.lock = some ⟨k, x⟩ →
      f'.now + b.renewal < x → (∀ m ∈ h ++ n, m.Fits) → Granted (sinceCleared (h ++ n)) l.lock k →
      f'.registry.lease? k = some l) : f'.Mirrors b (h ++ n) where
  agree k l x hl hfit hx := hm.agree k l x (hback k l hl) hfit (hstore ▸ hx)
  kept k l hl hfit hlt := by
    rw [hstore]
    exact hm.kept k l (hback k l hl) hfit (by omega)
  known hfits lock id x hx hlt hg hcount := by
    rw [hstore] at hx
    obtain ⟨l, hl, rfl⟩ := hm.known_append hn hfits hx (by omega) hg hcount
    exact ⟨l, hlive id l x hl hx hlt hfits hg, rfl⟩

/-- A step without a notice that leaves rows and leases as they are. -/
theorem Mirrors.still (hm : f.Mirrors b h) (hnow : f.now ≤ f'.now) (hstore : f'.store = f.store)
    (hleases : ∀ k, f'.registry.lease? k = f.registry.lease? k) : f'.Mirrors b (h ++ []) := by
  refine hm.forget (fun lock id hg ↦ ?_) hnow hstore (fun k l hl ↦ hleases k ▸ hl) ?_
  · rwa [List.append_nil] at hg
  · intro k l x hl _ _ _ _
    rwa [hleases k]

/-- A free lock is given to a fresh lease, which ends when its row does or at most `b.grant`
milliseconds behind. -/
theorem Mirrors.award (hm : f.Mirrors b h) (hg : f.GrantedOnce h) {l : Lease} {x : Nat}
    (hnow : f.now ≤ f'.now) (hfresh : ∀ lock, ¬ Granted h lock l.id)
    (hsets : f.store.Sets f'.store l.lock (some ⟨l.id, x⟩))
    (hx : l.expiresAt ≤ x + b.grant ∧ x ≤ l.expiresAt)
    (hleases : ∀ k, f'.registry.lease? k =
      if k = l.id then some l else (f.registry.lease? k).filter fun l' ↦ !(l'.lock == l.lock)) :
    f'.Mirrors b (h ++ [.granted l]) := by
  -- What is known of other leases is what was known of other locks.
  have hother (k : LeaseId) (l' : Lease) (hk : k ≠ l.id) (hl' : f'.registry.lease? k = some l') :
      f.registry.lease? k = some l' ∧ l'.lock ≠ l.lock := by
    rw [hleases, if_neg hk, Option.filter_eq_some_iff] at hl'
    exact ⟨hl'.1, by simpa using hl'.2⟩
  have hself (l' : Lease) (hl' : f'.registry.lease? l.id = some l') : l = l' := by
    rw [hleases, if_pos rfl] at hl'
    exact Option.some.inj hl'
  constructor
  · intro k l' y hl' hfit hy
    by_cases hk : k = l.id
    · subst hk
      obtain rfl := hself l' hl'
      rw [hsets.at_lock] at hy
      cases hy
      omega
    · obtain ⟨hl', hlock⟩ := hother k l' hk hl'
      rw [hsets.elsewhere hlock] at hy
      exact hm.agree k l' y hl' hfit hy
  · intro k l' hl' hfit hlt
    by_cases hk : k = l.id
    · subst hk
      obtain rfl := hself l' hl'
      exact ⟨x, hsets.at_lock⟩
    · obtain ⟨hl', hlock⟩ := hother k l' hk hl'
      rw [hsets.elsewhere hlock]
      exact hm.kept k l' hl' hfit (by omega)
  · intro hfits lock id y hy hlt hsince hcount
    by_cases hlock : lock = l.lock
    · subst hlock
      rw [hsets.at_lock] at hy
      cases hy
      exact ⟨l, by rw [hleases, if_pos rfl], rfl⟩
    · rw [hsets.elsewhere hlock] at hy
      -- The registry forgets the leases of this lock only.
      have hne : id ≠ l.id := by
        rintro rfl
        exact hfresh lock (hg.row lock l.id y hy)
      have hsince' : Granted (sinceCleared h) lock id := by
        rw [sinceCleared_append] at hsince
        rcases hsince.of_append_singleton with hsince | ⟨l', hl', -, hid⟩
        · exact hsince
        · cases hl'
          exact absurd hid.symm hne
      obtain ⟨l', hl', rfl⟩ := hm.known (fun m hmem ↦ hfits m (List.mem_append_left _ hmem)) lock id
        y hy (by omega) hsince'
        (hcount.imp_right fun hcount renewal hmem ↦ hcount renewal (List.mem_append_left _ hmem))
      refine ⟨l', ?_, rfl⟩
      rw [hleases, if_neg hne, hl', Option.filter_some, if_pos (by simpa using hlock)]

/-- The key of a lease is freed. -/
theorem Mirrors.free (hm : f.Mirrors b h) (hg : f.GrantedOnce h) (hnow : f'.now = f.now) {e : Nat}
    (howner : f.store.row? lock = some ⟨id, e⟩) (hsets : f.store.Sets f'.store lock none)
    (hleases : ∀ k, f'.registry.lease? k = if k = id then none else f.registry.lease? k) :
    f'.Mirrors b (h ++ [.released lock id]) := by
  have hother (k : LeaseId) (l : Lease) (hl : f'.registry.lease? k = some l) :
      k ≠ id ∧ f.registry.lease? k = some l := by
    rw [hleases] at hl
    split at hl
    · cases hl
    · next hk => exact ⟨hk, hl⟩
  constructor
  · intro k l x hl hfit hx
    by_cases hlock : l.lock = lock
    · rw [hlock, hsets.at_lock] at hx
      cases hx
    · rw [hsets.elsewhere hlock] at hx
      exact hm.agree k l x (hother k l hl).2 hfit hx
  · intro k l hl hfit hlt
    obtain ⟨hk, hl⟩ := hother k l hl
    obtain ⟨x, hx⟩ := hm.kept k l hl hfit (hnow ▸ hlt)
    exact ⟨x, hsets.row?_of_ne howner hk hx⟩
  · intro hfits lock' id' x hx hlt hsince hcount
    have hlock : lock' ≠ lock := by
      rintro rfl
      rw [hsets.at_lock] at hx
      cases hx
    rw [hsets.elsewhere hlock] at hx
    obtain ⟨l, hl, rfl⟩ := hm.known_append (fun _ _ hs ↦ hs.of_sinceCleared_append (by simp)) hfits
      hx (hnow ▸ hlt) hsince hcount
    refine ⟨l, ?_, rfl⟩
    rw [hleases, if_neg, hl]
    rintro rfl
    exact hlock (hg.unique _ _ _ (hg.row _ _ _ hx) (hg.row _ _ _ howner))

/-- A lease is renewed until `target`, and its key is extended to `x`. -/
theorem Mirrors.extend (hm : f.Mirrors b h) (ha : f.Attributed h) (hg : f.GrantedOnce h)
    (hnow : f'.now = f.now) {e x : Nat} (target : Nat) {renewal : Renewal}
    (howner : f.store.row? lock = some ⟨id, e⟩) (hlive : f.now < e)
    (hsets : f.store.Sets f'.store lock (some ⟨id, x⟩))
    (hleases : ∀ k, f'.registry.lease? k =
      if k = id then (f.registry.lease? id).map (Registry.renewed · target)
      else f.registry.lease? k)
    (hcount : f.registry.lease? id = none → renewal.renewals = 0)
    (hx : ∀ l, f.registry.lease? id = some l → (Registry.renewed l target).expiresAt < wordBound →
      (Registry.renewed l target).expiresAt ≤ x + b.grant ∧
        x ≤ (Registry.renewed l target).expiresAt + b.renewal) :
    f'.Mirrors b (h ++ [.renewed lock id renewal]) := by
  have hold (k : LeaseId) (l : Lease) (hl : f'.registry.lease? k = some l) :
      (k ≠ id ∧ f.registry.lease? k = some l) ∨
        k = id ∧ ∃ l₀, f.registry.lease? id = some l₀ ∧ l = Registry.renewed l₀ target := by
    rw [hleases] at hl
    split at hl
    · next hk =>
      obtain ⟨l₀, hl₀, rfl⟩ := Option.map_eq_some_iff.1 hl
      exact .inr ⟨hk, l₀, hl₀, rfl⟩
    · next hk => exact .inl ⟨hk, hl⟩
  -- The lease is known under the lock that it owns.
  have hlock (l₀ : Lease) (hl₀ : f.registry.lease? id = some l₀) : l₀.lock = lock :=
    hg.unique _ _ _ (ha.granted_lock hl₀) (hg.row _ _ _ howner)
  constructor
  · intro k l y hl hfit hy
    rcases hold k l hl with ⟨hk, hl⟩ | ⟨rfl, l₀, hl₀, rfl⟩
    · by_cases hll : l.lock = lock
      · rw [hll, hsets.at_lock] at hy
        cases hy
        exact absurd rfl hk
      · rw [hsets.elsewhere hll] at hy
        exact hm.agree k l y hl hfit hy
    · rw [show (Registry.renewed l₀ target).lock = lock from hlock l₀ hl₀, hsets.at_lock] at hy
      cases hy
      exact hx l₀ hl₀ hfit
  · intro k l hl hfit hlt
    rcases hold k l hl with ⟨hk, hl⟩ | ⟨rfl, l₀, hl₀, rfl⟩
    · obtain ⟨y, hy⟩ := hm.kept k l hl hfit (hnow ▸ hlt)
      exact ⟨y, hsets.row?_of_ne howner hk hy⟩
    · refine ⟨x, ?_⟩
      rw [show (Registry.renewed l₀ target).lock = lock from hlock l₀ hl₀]
      exact hsets.at_lock
  · intro hfits lock' id' y hy hlt hsince hcounted
    by_cases hl' : lock' = lock
    · subst hl'
      rw [hsets.at_lock] at hy
      cases hy
      have hknown : ∃ l, f.registry.lease? id = some l := by
        rcases hcounted with hzero | hcounted
        · -- The old row was live and as exact as the new one, so its lease was known.
          obtain ⟨l, hl, -⟩ := hm.known_append (fun _ _ hs ↦ hs.of_sinceCleared_append (by simp))
            hfits howner (hzero ▸ hlive) hsince (.inl hzero)
          exact ⟨l, hl⟩
        · -- Otherwise the answer would have counted no renewals.
          rw [← Option.ne_none_iff_exists']
          intro hnone
          exact hcounted renewal (List.mem_append_right h List.mem_cons_self) (hcount hnone)
      obtain ⟨l, hl⟩ := hknown
      refine ⟨Registry.renewed l target, ?_, hlock l hl⟩
      rw [hleases, if_pos rfl, hl, Option.map_some]
    · rw [hsets.elsewhere hl'] at hy
      obtain ⟨l, hl, rfl⟩ := hm.known_append (fun _ _ hs ↦ hs.of_sinceCleared_append (by simp))
        hfits hy (hnow ▸ hlt) hsince hcounted
      refine ⟨l, ?_, rfl⟩
      rw [hleases, if_neg, hl]
      rintro rfl
      exact hl' (hlock l hl)

/-- The two ends of a renewal of the known lease `l` that began at `start`. -/
theorem renewed_ends (hm : f.Mirrors b h) {l : Lease} {e start target : Nat}
    (hl : f.registry.lease? id = some l) (hrow : f.store.row? l.lock = some ⟨id, e⟩)
    (hlive : f.now < e) (hstart : start ≤ f.now) (hlag : f.now ≤ start + b.renewal)
    (hlater : l.expiresAt < target) (hfit : (Registry.renewed l target).expiresAt < wordBound) :
    (Registry.renewed l target).expiresAt ≤
        f.now + (Duration.ofMillis (target - start)).keyMillis + b.grant ∧
      f.now + (Duration.ofMillis (target - start)).keyMillis ≤
        (Registry.renewed l target).expiresAt + b.renewal := by
  have hmax : (Registry.renewed l target).expiresAt = target := Nat.max_eq_left hlater
  rw [hmax] at hfit ⊢
  have hbehind := (hm.agree id l e hl (Nat.lt_trans hlater hfit) hrow).2
  have hkey : (Duration.ofMillis (target - start)).keyMillis = max (target - start) 1 := by
    rw [Duration.keyMillis, Duration.wholeMillis_ofMillis (by omega)]
  rw [hkey]
  -- If the new end had come when the renewal began, the old row would outlast it by the lag.
  omega

/-- Every move keeps to it, with the bounds on the time within calls. -/
theorem Move.mirrors {n : List Notice} (hmove : Move b f n f') (hw : f.WellFormed)
    (hg : f.GrantedOnce h) (ha : f.Attributed h) (hm : f.Mirrors b h) : f'.Mirrors b (h ++ n) := by
  have hkeyed : f.registry.Keyed := hw.registry ()
  cases hmove with
  | quiet i c hleases =>
    refine hm.still (Nat.le_refl _) rfl fun k ↦ ?_
    rw [registry_enter]
    exact Registry.lease?_congr hleases
  | outage on => exact hm.still (Nat.le_refl _) rfl fun _ ↦ rfl
  | elapse millis ticks => exact hm.still (Nat.le_add_right _ _) rfl fun _ ↦ rfl
  | refuse lock id fault hfault =>
    exact hm.forget (fun _ _ hs ↦ hs.of_sinceCleared_append (by simp)) (Nat.le_refl _) rfl
      (fun _ _ hl ↦ hl) fun _ _ _ hl _ _ _ _ ↦ hl
  | begin i p hfresh => exact hm.still (Nat.le_refl _) rfl fun _ ↦ rfl
  | leave id => exact hm.still (Nat.le_refl _) rfl fun _ ↦ rfl
  | award i p s lag hlag hp hs =>
    refine hm.award hg (Nat.le_add_right _ lag) (fun lock hgranted ↦ ?_) hs.2 ?_ fun k ↦ ?_
    · have hgone := hp.symm.trans (hg.settled lock _ hgranted).2
      cases hgone
    · show f.now + lag + p.ttl.keyMillis ≤ f.now + p.ttl.keyMillis + b.grant ∧
        f.now + p.ttl.keyMillis ≤ f.now + lag + p.ttl.keyMillis
      omega
    · show (((f.enter i _).withStore s).await p.id none).registry.lease? k = _
      rw [registry_await, registry_withStore, registry_enter]
      exact hkeyed.lease?_insert _
  | free i lock client id s hs =>
    obtain ⟨⟨e, he⟩, hsets⟩ := hs
    refine hm.free hg rfl (Store.live?_eq_some_iff.1 he).1 hsets fun k ↦ ?_
    rw [registry_withStore, registry_disturb]
    exact Registry.lease?_remove
  | extend i lock id start target extension s hstart hlag htarget hs =>
    obtain ⟨⟨e, he⟩, hsets⟩ := hs
    obtain ⟨hrow, hlive⟩ := Store.live?_eq_some_iff.1 he
    refine hm.extend ha hg (by rfl) target hrow hlive hsets (fun k ↦ ?_) (fun hnone ↦ ?_)
      fun l hl hfit ↦ ?_
    · rw [registry_withStore, registry_enter, Coordinator.registry_noteRenewal]
      exact Registry.lease?_noteRenewal
    · exact Coordinator.renewals_noteRenewal_of_unknown hnone target
    · have hlock : l.lock = lock :=
        hg.unique _ _ _ (ha.granted_lock hl) (hg.row _ _ _ hrow)
      exact renewed_ends hm hl (hlock ▸ hrow) hlive hstart hlag
        (htarget ▸ Coordinator.lt_renewalEnd hl) hfit
  | purge s m hs =>
    rw [List.append_nil]
    refine ⟨fun k l x hl hfit hx ↦ ?_, fun k l hl hfit hlt ↦ ?_, fun hfits lock id x hx ↦ ?_⟩
    · exact hm.agree k l x hl hfit (Store.row?_of_row?_purge hs hx)
    · obtain ⟨x, hx⟩ := hm.kept k l hl hfit hlt
      -- A lease that has not expired has a live row, which a purge keeps.
      have hahead := (hm.agree k l x hl hfit hx).1
      replace hlt : f.now + b.grant < l.expiresAt := hlt
      exact ⟨x, Store.row?_purge_of_lt hs hx (by show f.now < x; omega)⟩
    · exact hm.known hfits lock id x (Store.row?_of_row?_purge hs hx)
  | prune i =>
    refine hm.forget (fun lock id hs ↦ ?_) (Nat.le_refl _) rfl (fun k l hl ↦ ?_) ?_
    · rwa [List.append_nil] at hs
    · rw [registry_disturb] at hl
      rw [show (f.member i).registry = f.registry from rfl, hkeyed.lease?_prune,
        Option.filter_eq_some_iff] at hl
      exact hl.1
    · intro k l x hl hx hlt hfits _
      rw [List.append_nil] at hfits
      rw [registry_disturb, show (f.member i).registry = f.registry from rfl, hkeyed.lease?_prune,
        hl, Option.filter_some, if_pos]
      -- The row is not about to end, so the lease has not expired.
      have hbehind := (hm.agree k l x hl (ha.lt_wordBound hfits hl) hx).2
      replace hlt : f.now + b.renewal < x := hlt
      have hlive : l.isExpired f.now = false := by
        rw [Lease.isExpired, decide_eq_false_iff_not]
        omega
      rw [hlive, Bool.and_false]
      rfl
  | drop i l hknown hlost =>
    refine hm.forget (fun lock id hs ↦ ?_) (Nat.le_refl _) rfl (fun k l' hl' ↦ ?_) ?_
    · rwa [List.append_nil] at hs
    · rw [registry_disturb] at hl'
      exact Registry.lease?_of_remove hl'
    · intro k l' x hl' hx hlt _ _
      rw [registry_disturb, Registry.lease?_remove, if_neg]
      · exact hl'
      · -- The store has just turned the dropped lease away, so it has no live row.
        rintro rfl
        rw [hknown l' hl'] at hx
        replace hlt : f.now + b.renewal < x := hlt
        exact hlost _ (Store.live?_eq_some_iff.2 ⟨hx, by show f.now < x; omega⟩) rfl
  | clear i =>
    refine hm.forget (fun _ _ hs ↦ hs.of_sinceCleared_append (by simp)) (Nat.le_refl _) rfl
      (fun k l hl ↦ ?_) ?_
    · rw [registry_disturb] at hl
      cases hl
    · intro k l x _ _ _ _ hs
      rw [sinceCleared_append, if_pos (show Notice.cleared.isCleared = true from rfl)] at hs
      obtain ⟨l', hl', -⟩ := hs
      cases hl'

/-- At the start both are empty. -/
theorem IsStart.mirrors (hstart : f.IsStart) : f.Mirrors b [] := by
  have hempty (k : LeaseId) (l : Lease) : f.registry.lease? k ≠ some l := by
    rw [show f.registry = {} from hstart.registry ()]
    intro hl
    cases hl
  refine ⟨fun k l x hl ↦ absurd hl (hempty k l), fun k l hl ↦ absurd hl (hempty k l), ?_⟩
  intro _ lock id x hx
  rw [hstart.row? lock] at hx
  cases hx

/-- In every run that keeps to the bounds, the registry mirrors the store up to them. -/
theorem mirrors_runCalls (hstart : f.IsStart) (calls : List (Call Unit))
    (hcalls : ∀ c ∈ calls, c.Within b) :
    (f.runCalls calls).2.Mirrors b (f.runCalls calls).1 := by
  refine (run_invariant_of_within (b := b) (h := [])
    (P := fun f h ↦ (f.GrantedOnce h ∧ f.Attributed h) ∧ f.Mirrors b h) (calls.map .call) ?_ ?_ ?_
    hstart.wellFormed ⟨⟨hstart.grantedOnce, hstart.attributed⟩, hstart.mirrors⟩).2
  · simpa using hcalls
  · rintro f h n f' hw ⟨⟨hg, ha⟩, hm⟩ hmove
    exact ⟨⟨hmove.grantedOnce hw hg, hmove.attributed hw hg ha⟩, hmove.mirrors hw hg ha hm⟩
  · intro i r keyed hmem
    simp at hmem

/-! ### The mirror -/

/-- The registry of the only coordinator mirrors the store. -/
structure Mirrored (f : Cluster Unit) (h : List Notice) : Prop where
  /-- A lease that has not expired is the row of its lock, to the millisecond. -/
  row : ∀ l ∈ (f.member ()).leases, f.now < l.expiresAt →
    f.store.row? l.lock = some ⟨l.id, l.expiresAt⟩
  /-- A live row that was granted since the registry was cleared has its lease there. -/
  lease : ∀ lock row, f.store.live? f.now lock = some row →
    Granted (sinceCleared h) lock row.lease →
    ∃ l ∈ (f.member ()).leases, l.lock = lock ∧ l.id = row.lease ∧ l.expiresAt = row.expiresAt

/-- The registry of the only coordinator mirrors the store, but for the last milliseconds of leases
and of rows. -/
structure Blurred (b : Lags) (f : Cluster Unit) (h : List Notice) : Prop where
  /-- A lease that has more than `b.grant` milliseconds left is the row of its lock. -/
  row : ∀ l ∈ (f.member ()).leases, f.now + b.grant < l.expiresAt →
    ∃ x, f.store.row? l.lock = some ⟨l.id, x⟩ ∧
      l.expiresAt ≤ x + b.grant ∧ x ≤ l.expiresAt + b.renewal
  /-- A row that has more than `b.renewal` milliseconds left and was granted since the registry was
  cleared has its lease there, unless it was renewed as the row of an unknown lease. -/
  lease : ∀ lock row, f.store.live? (f.now + b.renewal) lock = some row →
    Granted (sinceCleared h) lock row.lease →
    (b.renewal = 0 ∨ ∀ renewal, .renewed lock row.lease renewal ∈ h → renewal.renewals ≠ 0) →
    ∃ l ∈ (f.member ()).leases, l.lock = lock ∧ l.id = row.lease ∧
      l.expiresAt ≤ row.expiresAt + b.grant ∧ row.expiresAt ≤ l.expiresAt + b.renewal

/-- Up to those bounds the mirror is exact, if what was told does not leave the words. -/
theorem Mirrors.blurred (hm : f.Mirrors b h) (ha : f.Attributed h) (hw : f.WellFormed)
    (hfits : ∀ n ∈ h, n.Fits) : f.Blurred b h := by
  have hkeyed : f.registry.Keyed := hw.registry ()
  constructor
  · intro l hl hlt
    replace hl : f.registry.lease? l.id = some l := hkeyed.mem_leases_iff.1 hl
    have hfit : l.expiresAt < wordBound := ha.lt_wordBound hfits hl
    obtain ⟨x, hx⟩ := hm.kept l.id l hl hfit hlt
    exact ⟨x, hx, hm.agree l.id l x hl hfit hx⟩
  · rintro lock ⟨id, x⟩ hrow hsince hcount
    obtain ⟨hrow, hlt⟩ := Store.live?_eq_some_iff.1 hrow
    obtain ⟨l, hl, rfl⟩ := hm.known hfits lock id x hrow hlt hsince hcount
    exact ⟨l, Registry.mem_leases_iff.2 ⟨id, hl⟩, rfl, hkeyed id l hl,
      hm.agree id l x hl (ha.lt_wordBound hfits hl) hrow⟩

/-- Without bounds for blur, the mirror is exact. -/
theorem Blurred.mirrored (h : f.Blurred ⟨0, 0⟩ h') : f.Mirrored h' := by
  constructor
  · intro l hl hlt
    obtain ⟨x, hx, hle, hge⟩ := h.row l hl hlt
    obtain rfl : x = l.expiresAt := Nat.le_antisymm hge hle
    exact hx
  · intro lock row hrow hsince
    obtain ⟨l, hl, hlock, hid, hle, hge⟩ := h.lease lock row hrow hsince (.inl rfl)
    exact ⟨l, hl, hlock, hid, Nat.le_antisymm hle hge⟩

/-- The property holds behind every run of a single coordinator in which calls keep to the bounds
and no expiry overflows. -/
def Lags.Always (b : Lags) (P : Cluster Unit → List Notice → Prop) : Prop :=
  ∀ f : Cluster Unit, f.IsStart → ∀ calls : List (Call Unit), (∀ c ∈ calls, c.Within b) →
    (∀ n ∈ (f.runCalls calls).1, n.Fits) → P (f.runCalls calls).2 (f.runCalls calls).1

/-- A lease that is dated some time behind its row. -/
def datedLate (lag : Nat) : List (Call Unit) :=
  [.acquire () "a" { lock := "L", client := "x" } lag]

/-- A lease whose renewal reaches the store some time behind its beginning. -/
def renewedLate (lag : Nat) : List (Call Unit) :=
  [.acquire () "a" { lock := "L", client := "x" }, .renew () "L" "a" (some (.ofSecs 60)) lag]

/-- **The registry mirrors the store.** If leases are dated and renewals reach the store within the
bounds, the registry of the only coordinator mirrors the store up to them. It mirrors the store
exactly, in every run, if and only if the bounds are zero. -/
theorem registry_mirrors_store (b : Lags) :
    b.Always (Blurred b) ∧ (b.Always Mirrored ↔ b.grant = 0 ∧ b.renewal = 0) := by
  have hblurred : b.Always (Blurred b) := fun f hstart calls hcalls hfits ↦
    (mirrors_runCalls hstart calls hcalls).blurred (attributed_runCalls hstart calls).2
      (wellFormed_run hstart.wellFormed _) hfits
  refine ⟨hblurred, fun hexact ↦ ?_, ?_⟩
  · refine ⟨by_contra fun hgrant ↦ ?_, by_contra fun hrenewal ↦ ?_⟩
    · -- One millisecond puts the lease ahead of its row.
      have hcalls : ∀ c ∈ datedLate 1, c.Within b := by
        simp only [datedLate, List.mem_singleton, forall_eq]
        exact ⟨Nat.pos_of_ne_zero hgrant, trivial⟩
      have hrow := (hexact single isStart_single (datedLate 1) hcalls (by decide)).row _
        List.mem_cons_self (by decide)
      exact absurd hrow (by decide)
    · -- One millisecond puts the row ahead of its lease.
      have hcalls : ∀ c ∈ renewedLate 1, c.Within b := by
        simp only [renewedLate, List.mem_cons, List.not_mem_nil, or_false]
        rintro c (rfl | rfl)
        · exact ⟨Nat.zero_le _, trivial⟩
        · exact ⟨trivial, Nat.pos_of_ne_zero hrenewal⟩
      have hrow := (hexact single isStart_single (renewedLate 1) hcalls (by decide)).row _
        List.mem_cons_self (by decide)
      exact absurd hrow (by decide)
  · rintro ⟨hgrant, hrenewal⟩ f hstart calls hcalls hfits
    obtain rfl : b = ⟨0, 0⟩ := by
      cases b
      cases hgrant
      cases hrenewal
      rfl
    exact (hblurred f hstart calls hcalls hfits).mirrored

/-- A lease that is pruned while its row outlasts it by two milliseconds, and is renewed then. -/
def forgotten : List (Call Unit) :=
  [.acquire () "a" { lock := "L", client := "x", ttl := some (.ofMillis 100) },
   .renew () "L" "a" (some (.ofMillis 200)) 5, .elapse 197 197, .upkeep () (.ofSecs 5),
   .renew () "L" "a" (some (.ofSecs 60))]

-- What is excepted in `Blurred.lease` happens.
example : ((single.runCalls forgotten).2.member ()).leases.map (·.id) = [] ∧
    (single.runCalls forgotten).2.store.row? "L" = some ⟨"a", 60202⟩ := by decide

/-- A lease that is dated five milliseconds late ends later than its row. -/
theorem not_mirrored_datedLate : single.IsStart ∧
    (∀ n ∈ (single.runCalls (datedLate 5)).1, n.Fits) ∧
    ¬(single.runCalls (datedLate 5)).2.Mirrored (single.runCalls (datedLate 5)).1 := by
  refine ⟨isStart_single, by decide, fun h ↦ ?_⟩
  have hrow := h.row _ List.mem_cons_self (by decide)
  exact absurd hrow (by decide)

end Cluster

end LeaseLock
