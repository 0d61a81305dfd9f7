import LeaseLock.Proofs.Cluster.Calls

/-!
# Every lease is granted once

An id is issued to one acquisition, and an acquisition ends with its grant. So a lease that was
granted is waited with no longer, its id belongs to one lock, and the rows of the store are under
ids that were granted on their locks.

The three facts are kept as one invariant of the cluster and what was told so far
(`Cluster.GrantedOnce`), because each needs the others: a row that is written on behalf of a wait is
under an id that was not granted yet, and it is the row that the grant answers for. Only the move
that grants has anything to show. Every other move gives notices that grant nothing, and it leaves
the rows of the store as they are, takes some away or moves their expiries.

The invariant says nothing of times. A lease may be granted and be over before anybody hears of it,
and it was granted nonetheless.
-/

namespace LeaseLock

variable {h : List Notice} {n : Notice} {lock : LockName} {id : LeaseId}

theorem Granted.append (hg : Granted h lock id) (later : List Notice) :
    Granted (h ++ later) lock id := by
  obtain ⟨l, hl, hlock⟩ := hg
  exact ⟨l, List.mem_append_left _ hl, hlock⟩

/-- A lease was granted before the last notice, or that notice grants it. -/
theorem Granted.of_append_singleton (hg : Granted (h ++ [n]) lock id) :
    Granted h lock id ∨ ∃ l, n = .granted l ∧ l.lock = lock ∧ l.id = id := by
  obtain ⟨l, hl, hlock⟩ := hg
  rcases List.mem_append.1 hl with hl | hl
  · exact .inl ⟨l, hl, hlock⟩
  · exact .inr ⟨l, (List.mem_singleton.1 hl).symm, hlock⟩

/-- A notice that is no grant grants nothing. -/
theorem Granted.of_append_ne (hn : ∀ l, n ≠ .granted l) (hg : Granted (h ++ [n]) lock id) :
    Granted h lock id := by
  rcases hg.of_append_singleton with hg | ⟨l, hl, -⟩
  · exact hg
  · exact absurd hl (hn l)

namespace Cluster

variable {ι : Type} [DecidableEq ι] {b : Lags} {f f' : Cluster ι}

/-- What is kept about grants. -/
structure GrantedOnce (f : Cluster ι) (h : List Notice) : Prop where
  /-- The acquisitions of leases have ended. -/
  settled : ∀ lock id, Granted h lock id → id ∈ f.issued ∧ f.pending id = none
  /-- An id belongs to one lock. -/
  unique : ∀ lock lock' id, Granted h lock id → Granted h lock' id → lock = lock'
  /-- The rows of the store are under ids that were granted. -/
  row : ∀ lock id e, f.store.row? lock = some ⟨id, e⟩ → Granted h lock id

omit [DecidableEq ι] in
/-- No grant, and no row under another id than before. -/
theorem GrantedOnce.append (hg : f.GrantedOnce h) {n : List Notice} (hn : ∀ l, .granted l ∉ n)
    (hsettled : ∀ lock id, Granted h lock id → id ∈ f'.issued ∧ f'.pending id = none)
    (hrow : ∀ lock id e, f'.store.row? lock = some ⟨id, e⟩ →
      ∃ e', f.store.row? lock = some ⟨id, e'⟩) : f'.GrantedOnce (h ++ n) := by
  have hback (lock : LockName) (id : LeaseId) (hl : Granted (h ++ n) lock id) :
      Granted h lock id := by
    obtain ⟨l, hl, hlock⟩ := hl
    rcases List.mem_append.1 hl with hl | hl
    · exact ⟨l, hl, hlock⟩
    · exact absurd hl (hn l)
  constructor
  · exact fun lock id hl ↦ hsettled lock id (hback lock id hl)
  · exact fun lock lock' id hl hl' ↦ hg.unique lock lock' id (hback _ _ hl) (hback _ _ hl')
  · intro lock id e he
    obtain ⟨e', he'⟩ := hrow lock id e he
    exact (hg.row lock id e' he').append n

/-- Every move keeps to it, with the notices it gives. -/
theorem Move.grantedOnce {n : List Notice} (hmove : Move b f n f') (hw : f.WellFormed)
    (hg : f.GrantedOnce h) : f'.GrantedOnce (h ++ n) := by
  cases hmove with
  | quiet i c hleases => exact hg.append (by simp) hg.settled fun _ _ e he ↦ ⟨e, he⟩
  | outage on => exact hg.append (by simp) hg.settled fun _ _ e he ↦ ⟨e, he⟩
  | elapse millis ticks => exact hg.append (by simp) hg.settled fun _ _ e he ↦ ⟨e, he⟩
  | refuse lock id fault hfault => exact hg.append (by simp) hg.settled fun _ _ e he ↦ ⟨e, he⟩
  | begin i p hfresh =>
    refine hg.append (by simp) (fun lock id hl ↦ ?_) fun _ _ e he ↦ ⟨e, he⟩
    obtain ⟨hissued, hpending⟩ := hg.settled lock id hl
    refine ⟨List.mem_cons_of_mem _ hissued, ?_⟩
    rw [pending_await, if_neg]
    · exact hpending
    · rintro rfl
      exact hfresh hissued
  | leave id =>
    refine hg.append (by simp) (fun lock id' hl ↦ ?_) fun _ _ e he ↦ ⟨e, he⟩
    obtain ⟨hissued, hpending⟩ := hg.settled lock id' hl
    refine ⟨hissued, ?_⟩
    rw [pending_await]
    split
    · rfl
    · exact hpending
  | award i p s lag hlag hp hs =>
    have hnew : ∀ lock, ¬ Granted h lock p.id := by
      intro lock hl
      rw [(hg.settled lock p.id hl).2] at hp
      cases hp
    constructor
    · intro lock id hl
      rcases hl.of_append_singleton with hl | ⟨l, hl, -, hid⟩
      · obtain ⟨hissued, hpending⟩ := hg.settled lock id hl
        refine ⟨hissued, (pending_await _ p.id id none).trans ?_⟩
        split
        · rfl
        · exact hpending
      · cases hl
        obtain rfl : p.id = id := hid
        exact ⟨(hw.pending p.id i p hp).2, (pending_await _ p.id p.id none).trans (if_pos rfl)⟩
    · intro lock lock' id hl hl'
      -- The new id was granted on no lock before, so both grants are old or both are the new one.
      rcases hl.of_append_singleton with hl | ⟨l, hl, hlock, hid⟩
      · rcases hl'.of_append_singleton with hl' | ⟨l', hl', -, hid'⟩
        · exact hg.unique lock lock' id hl hl'
        · cases hl'
          obtain rfl : p.id = id := hid'
          exact absurd hl (hnew lock)
      · rcases hl'.of_append_singleton with hl' | ⟨l', hl', hlock', -⟩
        · cases hl
          obtain rfl : p.id = id := hid
          exact absurd hl' (hnew lock')
        · cases hl
          cases hl'
          exact hlock.symm.trans hlock'
    · intro lock id e he
      replace he : s.row? lock = some ⟨id, e⟩ := he
      by_cases hlock : lock = p.request.lock
      · subst hlock
        rw [hs.2.at_lock] at he
        cases he
        exact ⟨_, List.mem_append_right h List.mem_cons_self, rfl, rfl⟩
      · rw [hs.2.elsewhere hlock] at he
        exact (hg.row lock id e he).append _
  | free i lock client id s hs =>
    refine hg.append (by simp) hg.settled fun lock' id' e he ↦ ?_
    replace he : s.row? lock' = some ⟨id', e⟩ := he
    rw [hs.2 lock'] at he
    split at he
    · cases he
    · exact ⟨e, he⟩
  | extend i lock id start target extension s hstart hlag htarget hs =>
    refine hg.append (by simp) hg.settled fun lock' id' e he ↦ ?_
    replace he : s.row? lock' = some ⟨id', e⟩ := he
    rw [hs.2 lock'] at he
    split at he
    · next hlock =>
      cases he
      obtain ⟨e', he'⟩ := hs.1
      exact ⟨e', hlock ▸ (Store.live?_eq_some_iff.1 he').1⟩
    · exact ⟨e, he⟩
  | purge s m hs =>
    exact hg.append (by simp) hg.settled fun lock id e he ↦ ⟨e, Store.row?_of_row?_purge hs he⟩
  | prune i => exact hg.append (by simp) hg.settled fun _ _ e he ↦ ⟨e, he⟩
  | drop i l hknown hlost => exact hg.append (by simp) hg.settled fun _ _ e he ↦ ⟨e, he⟩
  | clear i => exact hg.append (by simp) hg.settled fun _ _ e he ↦ ⟨e, he⟩

omit [DecidableEq ι] in
/-- At the start nothing is granted, issued or stored. -/
theorem IsStart.grantedOnce (hstart : f.IsStart) : f.GrantedOnce [] := by
  constructor
  · rintro lock id ⟨l, hl, -⟩
    cases hl
  · rintro lock lock' id ⟨l, hl, -⟩
    cases hl
  · intro lock id e he
    rw [hstart.row? lock] at he
    cases he

end Cluster

end LeaseLock
