import LeaseLock.Proofs.Coordinator.Pass
import LeaseLock.Proofs.Coordinator.Updates
import LeaseLock.Proofs.Store.Limits

/-!
# The turns of the candidates of a pass

A pass of upkeep takes its candidates one after another, and each turn changes the registry and the
store. But a turn changes only the lease of its id and the row of its lock, and no two leases share
either. So what the turn of a candidate comes to can be read off the state before the first one
(`Coordinator.turned`, `Coordinator.answered`), and turns in sequence compose
(`Coordinator.Turned.cons`).

## The end of a renewal

A renewal by a pass takes a lease to the default length from now on, and past its end by a
millisecond if it has more left than that. Here this is said in plain numbers
(`Coordinator.prolonged`). The coordinator computes it in words of milliseconds, and the two agree
as long as the sum is a word (`Coordinator.kept_eq_prolonged`).

## One outcome for all turns

What `Coordinator.Turned` says is exact in every part: which leases are left, in which order, with
which ends; which rows there are; what the report has. It is phrased by the state before the turns
only, so the turns of a list are put together without looking at the states in between, and a turn
for an id that is not in the list leaves its lease and row alone by definition.

While the store is out of reach every turn fails with the same fault, and nothing is changed but the
report (`Coordinator.foldl_renewDue_of_outage`).
-/

namespace LeaseLock

namespace Coordinator

variable {c : Coordinator} {s s' : Store} {now : Nat} {l l' : Lease}
  {o o' o'' : Outcome UpkeepReport} {ls : List Lease}

/-- The lease behind its renewal for the default length. -/
def prolonged (c : Coordinator) (now : Nat) (l : Lease) : Lease :=
  { l with
    expiresAt := max (now + c.config.defaultTimeout * 1000) (l.expiresAt + 1)
    renewals := l.renewals + 1 }

/-! ### The turn of a candidate -/

/-- What the turn of a candidate leaves of it. -/
def turned (c : Coordinator) (s : Store) (now : Nat) (l : Lease) : Option Lease :=
  if s.owner? now l.lock = some l.id then some (c.prolonged now l) else none

/-- What comes of the renewal of a candidate. -/
def answered (c : Coordinator) (s : Store) (now : Nat) (l : Lease) : Except LockFault Renewal :=
  if s.owner? now l.lock = some l.id then
    .ok ⟨(c.prolonged now l).expiresAt, (c.prolonged now l).renewals⟩
  else .error (.notOwner l.lock)

/-- The candidates `ls` have had their turns, which have turned `o` into `o'`. -/
structure Turned (now : Nat) (ls : List Lease) (o o' : Outcome UpkeepReport) : Prop where
  /-- The settings and the waiting clients are the same. -/
  onlyLeases : o.coordinator.OnlyLeases o'.coordinator
  /-- The registry is still sound. -/
  sound : o'.coordinator.registry.Sound
  /-- The store differs in its rows only. -/
  emptied : o'.store.emptied = o.store.emptied
  /-- Of each candidate is left what its turn leaves, and the other leases are left alone. -/
  leases : o'.coordinator.leases = o.coordinator.leases.filterMap fun l ↦
    if l.id ∈ ls.map (·.id) then o.coordinator.turned o.store now l else some l
  /-- The rows of the candidates that own their locks last longer. -/
  row_of_owner : ∀ l ∈ ls, o.store.owner? now l.lock = some l.id →
    o'.store.row? l.lock = some ⟨l.id, (o.coordinator.prolonged now l).expiresAt⟩
  /-- The other rows are what they were. -/
  row_elsewhere : ∀ k, (∀ l ∈ ls, o.store.owner? now l.lock = some l.id → l.lock ≠ k) →
    o'.store.row? k = o.store.row? k
  /-- The renewals are reported, and nothing else is. -/
  answer : o'.answer = { o.answer with
    renewals := o.answer.renewals ++ ls.map fun l ↦ (l, o.coordinator.answered o.store now l) }

theorem renewed_prolonged (c : Coordinator) (now : Nat) (l : Lease) :
    Registry.renewed l (c.prolonged now l).expiresAt = c.prolonged now l := by
  simp only [Registry.renewed, prolonged]
  rw [Nat.max_eq_left (Nat.le_max_right _ _)]

/-- The lease that upkeep keeps is the lease prolonged, if the default length is below the bound of
words. -/
theorem kept_eq_prolonged (hnow : now + c.config.defaultTimeout * 1000 < wordBound) (l : Lease) :
    c.kept now l = c.prolonged now l := by
  have hlength : c.config.defaultTtl.wholeMillis = c.config.defaultTimeout * 1000 := by
    rw [Duration.wholeMillis, Config.defaultTtl, Duration.millis_ofSecs, Nat.mod_eq_of_lt]
    omega
  rw [kept, hlength]
  exact renewed_prolonged c now l

/-- The end of a renewal of a known lease for the default length. -/
theorem renewalEnd_of_known (hknown : c.registry.lease? l.id = some l)
    (hnow : now + c.config.defaultTimeout * 1000 < wordBound) :
    c.renewalEnd now l.id none = (c.prolonged now l).expiresAt := by
  rw [renewalEnd_eq_kept hknown, kept_eq_prolonged hnow]

/-- A candidate whose key is extended. -/
theorem renewDue_of_extended (hknown : o.coordinator.registry.lease? l.id = some l)
    (hnow : now + o.coordinator.config.defaultTimeout * 1000 < wordBound)
    (hextend : o.store.extend now l.lock l.id
      (.ofMillis ((o.coordinator.prolonged now l).expiresAt - now)) = .ok (true, s')) :
    renewDue now 0 o l =
      ⟨{ o.answer with renewals := o.answer.renewals ++
          [(l, .ok ⟨(o.coordinator.prolonged now l).expiresAt,
            (o.coordinator.prolonged now l).renewals⟩)] }, s',
        { o.coordinator with registry := (o.coordinator.registry.noteRenewal l.id
            (o.coordinator.prolonged now l).expiresAt).1 }⟩ := by
  have hnote : o.coordinator.noteRenewal l.id (o.coordinator.prolonged now l).expiresAt =
      (⟨(o.coordinator.prolonged now l).expiresAt, (o.coordinator.prolonged now l).renewals⟩,
        { o.coordinator with registry := (o.coordinator.registry.noteRenewal l.id
            (o.coordinator.prolonged now l).expiresAt).1 }) := by
    have hsnd : (o.coordinator.registry.noteRenewal l.id
        (o.coordinator.prolonged now l).expiresAt).2 = some (o.coordinator.prolonged now l) := by
      rw [Registry.noteRenewal_snd, hknown, Option.map_some, renewed_prolonged]
    rw [noteRenewal]
    split
    · next registry l' h =>
      rw [h] at hsnd ⊢
      cases hsnd
      rfl
    · next h =>
      rw [h] at hsnd
      cases hsnd
  rw [renewDue, renew, renewalEnd_of_known hknown hnow]
  simp only [Nat.add_zero, hextend, hnote, Verdict.ofRenewal, reduceCtorEq, if_false]

/-- A candidate whose key is not its own. -/
theorem renewDue_of_refused (hknown : o.coordinator.registry.lease? l.id = some l)
    (hnow : now + o.coordinator.config.defaultTimeout * 1000 < wordBound)
    (hextend : o.store.extend now l.lock l.id
      (.ofMillis ((o.coordinator.prolonged now l).expiresAt - now)) = .ok (false, o.store)) :
    renewDue now 0 o l =
      ⟨{ o.answer with renewals := o.answer.renewals ++ [(l, .error (.notOwner l.lock))] },
        o.store,
        { o.coordinator with registry := o.coordinator.registry.remove l.id l.lock l.holder }⟩ := by
  rw [renewDue, renew, renewalEnd_of_known hknown hnow]
  simp only [Nat.add_zero, hextend, Verdict.ofRenewal, if_true]

/-- A candidate while the store is out of reach. -/
theorem renewDue_of_outage {fault : StoreFault} (hping : o.store.ping = .error fault) :
    renewDue now 0 o l =
      ⟨{ o.answer with renewals := o.answer.renewals ++ [(l, .error (.storeUnavailable fault))] },
        o.store, o.coordinator⟩ := by
  rw [renewDue, renew]
  simp only [Store.extend_of_outage hping, Verdict.ofRenewal, reduceCtorEq, if_false]

/-- Under the id of a known lease the list has that lease only. -/
theorem eq_of_known (hsound : c.registry.Sound) (hknown : c.registry.lease? l.id = some l)
    (hl' : l' ∈ c.leases) (hid : l'.id = l.id) : l' = l := by
  have hget := hsound.keyed.mem_leases_iff.1 hl'
  rw [hid, hknown] at hget
  exact (Option.some.inj hget).symm

/-- The turn of a candidate that owns its lock. -/
theorem turned_of_extended (hsound : o.coordinator.registry.Sound)
    (hknown : o.coordinator.registry.lease? l.id = some l)
    (hnow : now + o.coordinator.config.defaultTimeout * 1000 < wordBound)
    (howner : o.store.owner? now l.lock = some l.id)
    (hextend : o.store.extend now l.lock l.id
      (.ofMillis ((o.coordinator.prolonged now l).expiresAt - now)) = .ok (true, s'))
    (hsets : o.store.Sets s' l.lock (some ⟨l.id, (o.coordinator.prolonged now l).expiresAt⟩)) :
    Turned now [l] o (renewDue now 0 o l) := by
  rw [renewDue_of_extended hknown hnow hextend]
  refine ⟨⟨rfl, rfl, Registry.waiting_noteRenewal⟩, hsound.noteRenewal l.id _,
    Store.emptied_extend hextend, ?leases, fun l' hl' _ ↦ ?row, fun k hk ↦ ?elsewhere, ?answer⟩
  case leases =>
    show (o.coordinator.registry.noteRenewal l.id _).1.leases = _
    rw [Registry.leases_noteRenewal hsound.keyed hsound.toNumbered, ← List.filterMap_eq_map]
    refine List.filterMap_congr fun l' hl' ↦ ?_
    rw [Function.comp_apply, List.map_singleton]
    by_cases hid : l'.id = l.id
    · rw [if_pos hid, eq_of_known hsound hknown hl' hid, renewed_prolonged,
        if_pos List.mem_cons_self, turned, if_pos howner]
    · rw [if_neg hid, if_neg (List.mem_singleton.not.2 hid)]
  case row => rw [List.mem_singleton.1 hl', hsets.at_lock]
  case elsewhere => exact hsets.elsewhere (hk l List.mem_cons_self howner).symm
  case answer => rw [List.map_singleton, answered, if_pos howner]

/-- The turn of a candidate that does not own its lock. -/
theorem turned_of_refused (hsound : o.coordinator.registry.Sound)
    (hknown : o.coordinator.registry.lease? l.id = some l)
    (hnow : now + o.coordinator.config.defaultTimeout * 1000 < wordBound)
    (hother : o.store.owner? now l.lock ≠ some l.id)
    (hextend : o.store.extend now l.lock l.id
      (.ofMillis ((o.coordinator.prolonged now l).expiresAt - now)) = .ok (false, o.store)) :
    Turned now [l] o (renewDue now 0 o l) := by
  rw [renewDue_of_refused hknown hnow hextend]
  refine ⟨onlyLeases_remove _ l.id l.lock l.holder, hsound.remove, rfl, ?leases,
    fun l' hl' howner ↦ ?row, fun _ _ ↦ rfl, ?answer⟩
  case leases =>
    show (o.coordinator.registry.remove l.id l.lock l.holder).leases = _
    rw [Registry.leases_remove hsound.keyed hsound.toNumbered, ← List.filterMap_eq_filter]
    refine List.filterMap_congr fun l' hl' ↦ ?_
    rw [List.map_singleton]
    by_cases hid : l'.id = l.id
    · rw [Option.guard, if_neg (by simpa using hid), eq_of_known hsound hknown hl' hid,
        if_pos List.mem_cons_self, turned, if_neg hother]
    · rw [Option.guard, if_pos (by simpa using hid), if_neg (List.mem_singleton.not.2 hid)]
  case row =>
    rw [List.mem_singleton.1 hl'] at howner
    exact absurd howner hother
  case answer => rw [List.map_singleton, answered, if_neg hother]

/-- The turn of one candidate. -/
theorem turned_singleton (hsound : o.coordinator.registry.Sound)
    (hknown : o.coordinator.registry.lease? l.id = some l) (hping : o.store.ping = .ok ())
    (hdefault : 0 < o.coordinator.config.defaultTimeout)
    (hnow : now + o.coordinator.config.defaultTimeout * 1000 < o.store.numberBound)
    (hfits : l.expiresAt + 1 < o.store.numberBound) :
    Turned now [l] o (renewDue now 0 o l) := by
  have hbound := o.store.numberBound_le
  have hword : now + o.coordinator.config.defaultTimeout * 1000 < wordBound := by omega
  have hahead : now < (o.coordinator.prolonged now l).expiresAt := by
    simp only [prolonged]
    omega
  have htarget : (o.coordinator.prolonged now l).expiresAt < o.store.numberBound := by
    simp only [prolonged]
    omega
  have hlength : now +
      (Duration.ofMillis ((o.coordinator.prolonged now l).expiresAt - now)).keyMillis =
        (o.coordinator.prolonged now l).expiresAt :=
    Duration.add_keyMillis_ofMillis_sub hahead (by omega)
  rcases @Store.extend_eq _ _ l.lock l.id _ hping (hlength ▸ htarget) with
    ⟨howner, s', hextend, hsets⟩ | ⟨hother, hextend⟩
  · exact turned_of_extended hsound hknown hword howner hextend (hlength ▸ hsets)
  · exact turned_of_refused hsound hknown hword hother hextend

/-- What the turn of a lease comes to is settled by the settings and by the row of its lock. -/
theorem turned_congr {c c' : Coordinator} {s s' : Store} (hconfig : c'.config = c.config)
    (hrow : s'.row? l.lock = s.row? l.lock) :
    s'.owner? now l.lock = s.owner? now l.lock ∧ c'.prolonged now l = c.prolonged now l := by
  constructor
  · rw [Store.owner?, Store.live?, hrow, Store.owner?, Store.live?]
  · rw [prolonged, hconfig, prolonged]

theorem id_of_turned (h : c.turned s now l = some l') : l'.id = l.id := by
  rw [turned] at h
  split at h
  · cases h
    rfl
  · cases h

/-- Turns in sequence. The first one changes neither the row nor the lease of another candidate. -/
theorem Turned.cons (h : Turned now [l] o o') (h' : Turned now ls o' o'')
    (hsound : o.coordinator.registry.Sound)
    (hknown : ∀ l' ∈ l :: ls, o.coordinator.registry.lease? l'.id = some l')
    (hnodup : ((l :: ls).map (·.id)).Nodup) : Turned now (l :: ls) o o'' := by
  rw [List.map_cons, List.nodup_cons] at hnodup
  have hrow (l' : Lease) (hl' : o.coordinator.registry.lease? l'.id = some l')
      (hne : l'.id ≠ l.id) : o'.store.row? l'.lock = o.store.row? l'.lock := by
    refine h.row_elsewhere _ fun l₁ hl₁ _ hlock ↦ hne ?_
    obtain rfl := List.mem_singleton.1 hl₁
    exact hsound.oneEach _ _ _ _ hl' (hknown l₁ List.mem_cons_self) hlock.symm
  have hsame (l' : Lease) (hl' : o.coordinator.registry.lease? l'.id = some l')
      (hne : l'.id ≠ l.id) : o'.store.owner? now l'.lock = o.store.owner? now l'.lock ∧
        o'.coordinator.prolonged now l' = o.coordinator.prolonged now l' :=
    turned_congr h.onlyLeases.config (hrow l' hl' hne)
  have hrest (l' : Lease) (hl' : l' ∈ ls) :
      o.coordinator.registry.lease? l'.id = some l' ∧ l'.id ≠ l.id :=
    ⟨hknown l' (List.mem_cons_of_mem l hl'),
      fun heq ↦ hnodup.1 (heq ▸ List.mem_map_of_mem hl')⟩
  refine ⟨h.onlyLeases.trans h'.onlyLeases, h'.sound, h'.emptied.trans h.emptied, ?leases,
    fun l₁ hl₁ howner ↦ ?row, fun k hk ↦ ?elsewhere, ?answer⟩
  case leases =>
    rw [h'.leases, h.leases, List.filterMap_filterMap]
    refine List.filterMap_congr fun l' hl' ↦ ?_
    rw [List.map_singleton, List.map_cons]
    by_cases hid : l'.id = l.id
    · rw [if_pos (List.mem_singleton.2 hid), if_pos (List.mem_cons.2 (.inl hid))]
      cases hturned : o.coordinator.turned o.store now l' with
      | none => rfl
      | some p =>
        rw [Option.bind_some, if_neg]
        rw [id_of_turned hturned, hid]
        exact hnodup.1
    · obtain ⟨howner, hprolonged⟩ := hsame l' (hsound.keyed.mem_leases_iff.1 hl') hid
      rw [if_neg (List.mem_singleton.not.2 hid), Option.bind_some, turned, howner, hprolonged,
        ← turned]
      simp only [List.mem_cons, hid, false_or]
  case row =>
    rcases List.mem_cons.1 hl₁ with rfl | hl₁
    · rw [h'.row_elsewhere, h.row_of_owner l₁ List.mem_cons_self howner]
      intro l₂ hl₂ _ hlock
      obtain ⟨hknown₂, hne⟩ := hrest l₂ hl₂
      exact hne (hsound.oneEach _ _ _ _ hknown₂ (hknown l₁ List.mem_cons_self) hlock)
    · obtain ⟨hknown₁, hne⟩ := hrest l₁ hl₁
      obtain ⟨howner', hprolonged⟩ := hsame l₁ hknown₁ hne
      rw [h'.row_of_owner l₁ hl₁ (howner'.trans howner), hprolonged]
  case elsewhere =>
    rw [h'.row_elsewhere, h.row_elsewhere]
    · intro l₁ hl₁ howner
      obtain rfl := List.mem_singleton.1 hl₁
      exact hk l₁ List.mem_cons_self howner
    · intro l₁ hl₁ howner
      obtain ⟨hknown₁, hne⟩ := hrest l₁ hl₁
      exact hk l₁ (List.mem_cons_of_mem l hl₁) ((hsame l₁ hknown₁ hne).1.symm.trans howner)
  case answer =>
    have hanswered : ls.map (fun l' ↦ (l', o'.coordinator.answered o'.store now l')) =
        ls.map fun l' ↦ (l', o.coordinator.answered o.store now l') := by
      refine List.map_congr_left fun l' hl' ↦ ?_
      obtain ⟨hknown', hne⟩ := hrest l' hl'
      obtain ⟨howner, hprolonged⟩ := hsame l' hknown' hne
      rw [answered, howner, hprolonged, ← answered]
    rw [h'.answer, h.answer, hanswered]
    simp only [List.append_assoc, List.map_cons, List.map_nil, List.singleton_append]

/-- The turns of all candidates. -/
theorem turned_foldl (hsound : o.coordinator.registry.Sound)
    (hknown : ∀ l ∈ ls, o.coordinator.registry.lease? l.id = some l)
    (hnodup : (ls.map (·.id)).Nodup) (hping : o.store.ping = .ok ())
    (hdefault : 0 < o.coordinator.config.defaultTimeout)
    (hnow : now + o.coordinator.config.defaultTimeout * 1000 < o.store.numberBound)
    (hfits : ∀ l ∈ ls, l.expiresAt + 1 < o.store.numberBound) :
    Turned now ls o (ls.foldl (renewDue now 0) o) := by
  induction ls generalizing o with
  | nil =>
    refine ⟨.refl _, hsound, rfl, ?_, fun _ hl ↦ absurd hl List.not_mem_nil, fun _ _ ↦ rfl, ?_⟩
    · simp
    · simp
  | cons l ls ih =>
    have hfirst : Turned now [l] o (renewDue now 0 o l) :=
      turned_singleton hsound (hknown l List.mem_cons_self) hping hdefault hnow
        (hfits l List.mem_cons_self)
    refine hfirst.cons (ih hfirst.sound ?_ (List.nodup_cons.1 hnodup).2 ?_ ?_ ?_ ?_) hsound hknown
      hnodup
    · intro l' hl'
      have hne : l.id ≠ l'.id := fun heq ↦
        (List.nodup_cons.1 hnodup).1 (List.mem_map.2 ⟨l', hl', heq.symm⟩)
      exact (spares_renewDue now 0 o hne).known.trans (hknown l' (List.mem_cons_of_mem l hl'))
    · rw [Store.ping_congr hfirst.emptied, hping]
    · rw [hfirst.onlyLeases.config]
      exact hdefault
    · rw [hfirst.onlyLeases.config, Store.numberBound_congr hfirst.emptied]
      exact hnow
    · rw [Store.numberBound_congr hfirst.emptied]
      exact fun l' hl' ↦ hfits l' (List.mem_cons_of_mem l hl')

/-- The rows that the turns have prolonged were live and are, so the same ones have expired. -/
theorem Turned.deadCount_eq (h : Turned now ls o o')
    (hdefault : 0 < o.coordinator.config.defaultTimeout) :
    o'.store.deadCount now = o.store.deadCount now := by
  refine Store.deadCount_eq_of_dead fun k row hdead ↦ ?_
  by_cases hk : ∃ l ∈ ls, o.store.owner? now l.lock = some l.id ∧ l.lock = k
  · obtain ⟨l, hl, howner, rfl⟩ := hk
    have hdead : ¬ now < row.expiresAt := by simpa [Row.isLive] using hdead
    refine iff_of_false (fun hrow ↦ hdead ?_) fun hrow ↦ hdead ?_
    · rw [h.row_of_owner l hl howner] at hrow
      cases hrow
      simp only [prolonged]
      omega
    · obtain ⟨e, he, hlt⟩ := Store.owner?_eq_some_iff.1 howner
      rw [he] at hrow
      cases hrow
      exact hlt
  · rw [h.row_elsewhere k fun l hl howner hlock ↦ hk ⟨l, hl, howner, hlock⟩]

/-- The turns of the candidates while the store is out of reach. -/
theorem foldl_renewDue_of_outage {fault : StoreFault} (hping : o.store.ping = .error fault) :
    ls.foldl (renewDue now 0) o =
      ⟨{ o.answer with
          renewals := o.answer.renewals ++ ls.map fun l ↦ (l, .error (.storeUnavailable fault)) },
        o.store, o.coordinator⟩ := by
  induction ls generalizing o with
  | nil => rw [List.map_nil, List.append_nil, List.foldl_nil]
  | cons l ls ih =>
    have hfirst : (renewDue now 0 o l).store.ping = .error fault := by
      rw [renewDue_of_outage hping]
      exact hping
    rw [List.foldl_cons, ih hfirst, renewDue_of_outage hping]
    simp only [List.append_assoc, List.singleton_append, List.map_cons]

end Coordinator

end LeaseLock
