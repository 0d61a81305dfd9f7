import LeaseLock.Store.Basic
import LeaseLock.Proofs.Store.Statements

/-!
# What the operations of a store do to its rows

The kinds of store decide in different ways: one branches on a row of a map, another counts the
rows that a conditional statement touched. Seen through `Store.row?` they do the same, and this
module says what, once for each operation.

An operation that answers *no* leaves the store as it was, to the letter; one that answers *yes*
changes the row of its own lock and no other (`Store.Sets`). Which of the two happens depends on the
live row of the lock alone (`Store.live?`), so a row that has expired counts as none. Purging is the
only operation on more than one row, and no live row is among them (`Store.row?_purge_of_lt`).

## How the three kinds come together

Memory and tables are treated first, each with its own reason. In memory the reason is the branch
that the operation takes on the row of the lock (`MemoryStore.changed_of_owned`). In a table it is
the number of rows that satisfy the condition of the statement (`LeaseTable.changed_of_count`),
which is positive just if the row of the lock is live and owned. The two interfaces over memory
differ in how a state is wrapped and in nothing else, so the lemmas about memory take the wrapper as
an argument and serve for both.

From then on nobody looks at the kind of a store any more. Whether a key was taken, freed or
extended and what that did to the rows is read off `Store.take_spec`, `Store.free_spec` and
`Store.extend_spec`.

## What is not said

The statements are inversions of a successful call. Nothing is said of a call that fails, because a
failed call yields no store. When a call succeeds is said for extending only
(`Store.exists_extend`), for a store within reach and an expiry that it can hold.
-/

namespace LeaseLock

/-! ### Rows of a store -/

namespace Store

variable {s s' : Store} {now : Nat} {lock k : LockName} {id : LeaseId} {ttl : Duration} {b : Bool}

/-- Under `lock` the store `s'` has `row`, and under the other keys what `s` has. -/
def Sets (s s' : Store) (lock : LockName) (row : Option Row) : Prop :=
  ∀ k, s'.row? k = if k = lock then row else s.row? k

/-- The lock has the row that it was set to. -/
theorem Sets.at_lock {row : Option Row} (h : s.Sets s' lock row) : s'.row? lock = row := by
  rw [h lock, if_pos rfl]

/-- The other locks keep their rows. -/
theorem Sets.elsewhere {row : Option Row} (h : s.Sets s' lock row) (hk : k ≠ lock) :
    s'.row? k = s.row? k := by
  rw [h k, if_neg hk]

/-- A change of the row of `id` is none to the rows under other ids. -/
theorem Sets.row?_of_ne {row : Option Row} {e x : Nat} {j : LeaseId} (h : s.Sets s' lock row)
    (howner : s.row? lock = some ⟨id, e⟩) (hj : j ≠ id) (hx : s.row? k = some ⟨j, x⟩) :
    s'.row? k = some ⟨j, x⟩ := by
  have hk : k ≠ lock := by
    rintro rfl
    rw [howner] at hx
    cases hx
    exact hj rfl
  rwa [h.elsewhere hk]

/-- A row of `id` that gives way to another one of `id` is none of the rows under other ids. -/
theorem Sets.row?_iff_of_ne {e e' x : Nat} {j : LeaseId} (h : s.Sets s' lock (some ⟨id, e'⟩))
    (howner : s.row? lock = some ⟨id, e⟩) (hj : j ≠ id) :
    s'.row? k = some ⟨j, x⟩ ↔ s.row? k = some ⟨j, x⟩ := by
  refine ⟨fun hx ↦ ?_, h.row?_of_ne howner hj⟩
  have hk : k ≠ lock := by
    rintro rfl
    rw [h.at_lock] at hx
    cases hx
    exact hj rfl
  rwa [h.elsewhere hk] at hx

/-- Whether the interface of the store tells times and purges. -/
def isFull : Store → Bool
  | memory _ | table _ => true
  | bare _ => false

/-- Who owns a lock at `now`. -/
def owner? (s : Store) (now : Nat) (lock : LockName) : Option LeaseId :=
  (s.live? now lock).map (·.lease)

/-- A live row is one that expires later than now. -/
theorem live?_eq_some_iff {row : Row} :
    s.live? now lock = some row ↔ s.row? lock = some row ∧ now < row.expiresAt := by
  rw [live?, Option.filter_eq_some_iff, Row.isLive, decide_eq_true_iff]

/-- Without a live row, whatever row there is has expired. -/
theorem live?_eq_none_iff :
    s.live? now lock = none ↔ ∀ row, s.row? lock = some row → row.expiresAt ≤ now := by
  simp only [live?, Option.filter_eq_none_iff, Row.isLive, decide_eq_true_iff, Nat.not_lt]

/-- The owner of a lock is who has its live row. -/
theorem owner?_eq_some_iff :
    s.owner? now lock = some id ↔ ∃ e, s.row? lock = some ⟨id, e⟩ ∧ now < e := by
  rw [owner?, Option.map_eq_some_iff]
  constructor
  · rintro ⟨row, hrow, rfl⟩
    exact ⟨row.expiresAt, live?_eq_some_iff.1 hrow⟩
  · rintro ⟨e, hrow, hlt⟩
    exact ⟨⟨id, e⟩, live?_eq_some_iff.2 ⟨hrow, hlt⟩, rfl⟩

/-- Wrapping a store changes neither whether an operation succeeds nor its answer. -/
theorem lift_eq_ok_iff {σ α : Type} {wrap : σ → Store} {x : Except StoreFault (α × σ)} {a : α} :
    lift wrap x = .ok (a, s') ↔ ∃ t, x = .ok (a, t) ∧ wrap t = s' := by
  rcases x with fault | ⟨a', t⟩
  · simp [lift, Except.map]
  · simp only [lift, Except.map, Except.ok.injEq, Prod.mk.injEq]
    constructor
    · rintro ⟨rfl, rfl⟩
      exact ⟨t, ⟨rfl, rfl⟩, rfl⟩
    · rintro ⟨_, ⟨rfl, rfl⟩, rfl⟩
      exact ⟨rfl, rfl⟩

/-- What taking a key does when it answers `b`: the key is live and stays, or it is not and becomes
the taker's. -/
def Taken (s s' : Store) (now : Nat) (lock : LockName) (id : LeaseId) (ttl : Duration) : Bool → Prop
  | false => s' = s ∧ ∃ row, s.live? now lock = some row
  | true => s.live? now lock = none ∧ s.Sets s' lock (some ⟨id, now + ttl.keyMillis⟩)

/-- What a change of the key of `id` to `row` does when it answers `b`: the key is not live under
`id` and nothing happens, or it is and becomes `row`. -/
def Changed (s s' : Store) (now : Nat) (lock : LockName) (id : LeaseId) (row : Option Row) :
    Bool → Prop
  | false => s' = s ∧ ∀ old, s.live? now lock = some old → old.lease ≠ id
  | true => (∃ e, s.live? now lock = some ⟨id, e⟩) ∧ s.Sets s' lock row

/-- A row that is owned and live is the live row of its lock. -/
theorem exists_live?_of_row {row : Row} (hrow : s.row? lock = some row)
    (hown : row.lease = id ∧ row.isLive now = true) : ∃ e, s.live? now lock = some ⟨id, e⟩ := by
  obtain ⟨rfl, hlive⟩ := hown
  refine ⟨row.expiresAt, live?_eq_some_iff.2 ⟨hrow, ?_⟩⟩
  simpa [Row.isLive] using hlive

/-- If the row of a lock is not owned or not live, nobody else's row is live in its place. -/
theorem live?_ne_of_row {row : Row} (hrow : s.row? lock = some row)
    (hown : ¬ (row.lease = id ∧ row.isLive now = true)) (old : Row)
    (hold : s.live? now lock = some old) : old.lease ≠ id := by
  intro hid
  obtain ⟨hrow', hlt⟩ := live?_eq_some_iff.1 hold
  obtain rfl : row = old := Option.some.inj (hrow.symm.trans hrow')
  exact hown ⟨hid, by simpa [Row.isLive] using hlt⟩

end Store

/-! ### Operations in memory -/

namespace MemoryStore

variable {s s' : MemoryStore} {now : Nat} {lock : LockName} {id : LeaseId} {ttl : Duration}
  {b : Bool} (wrap : MemoryStore → Store)

/-- In memory a key is taken over just if there is no live row. -/
theorem take_spec (hwrap : ∀ s k, (wrap s).row? k = s.rows.get? k)
    (h : s.take now lock id ttl = .ok (b, s')) :
    (wrap s).Taken (wrap s') now lock id ttl b := by
  have hset : (wrap s).Sets
      (wrap { s with rows := s.rows.insert lock ⟨id, now + ttl.keyMillis⟩ })
      lock (some ⟨id, now + ttl.keyMillis⟩) := by
    intro k
    rw [hwrap, hwrap, Dict.get?_insert]
  rw [take] at h
  split at h
  case isFalse => cases h
  case isTrue =>
  -- A key that has expired is taken like one that is not there.
  cases hrow : s.rows.get? lock with
  | none =>
    simp only [hrow, Except.ok.injEq, Prod.mk.injEq] at h
    obtain ⟨rfl, rfl⟩ := h
    refine ⟨Store.live?_eq_none_iff.2 fun row hrow' ↦ ?_, hset⟩
    rw [hwrap, hrow] at hrow'
    cases hrow'
  | some row =>
    simp only [hrow] at h
    split at h
    · next hlive =>
      cases h
      have hlt : now < row.expiresAt := by simpa [Row.isLive] using hlive
      exact ⟨rfl, row, Store.live?_eq_some_iff.2 ⟨(hwrap _ _).trans hrow, hlt⟩⟩
    · next hdead =>
      cases h
      refine ⟨Store.live?_eq_none_iff.2 fun row' hrow' ↦ ?_, hset⟩
      rw [hwrap, hrow] at hrow'
      cases hrow'
      simpa [Row.isLive] using hdead

/-- An answer that depends on whether the key is live under `id`. -/
theorem changed_of_owned (hwrap : ∀ s k, (wrap s).row? k = s.rows.get? k) {row : Option Row}
    {changed : Row → MemoryStore}
    (hset : ∀ old, old.lease = id → (wrap s).Sets (wrap (changed old)) lock row)
    (h : (match s.rows.get? lock with
      | some old =>
        if old.lease = id ∧ old.isLive now = true then .ok (true, changed old) else .ok (false, s)
      | none => .ok (false, s) : Except StoreFault (Bool × MemoryStore)) = .ok (b, s')) :
    (wrap s).Changed (wrap s') now lock id row b := by
  cases hrow : s.rows.get? lock with
  | none =>
    simp only [hrow, Except.ok.injEq, Prod.mk.injEq] at h
    obtain ⟨rfl, rfl⟩ := h
    refine ⟨rfl, fun old hold ↦ ?_⟩
    rw [Store.live?, hwrap, hrow] at hold
    cases hold
  | some old =>
    have hold : (wrap s).row? lock = some old := (hwrap _ _).trans hrow
    simp only [hrow] at h
    split at h
    · next hown =>
      cases h
      exact ⟨Store.exists_live?_of_row hold hown, hset old hown.1⟩
    · next hown =>
      cases h
      exact ⟨rfl, Store.live?_ne_of_row hold hown⟩

/-- In memory a key is deleted if it is live and owned. -/
theorem free_spec (hwrap : ∀ s k, (wrap s).row? k = s.rows.get? k)
    (h : s.free now lock id = .ok (b, s')) :
    (wrap s).Changed (wrap s') now lock id none b := by
  rw [free] at h
  split at h
  case isFalse => cases h
  case isTrue =>
  refine changed_of_owned wrap hwrap ?_ h
  intro old _ k
  rw [hwrap, hwrap, Dict.get?_erase]

/-- In memory a key is set to a new expiry if it is live and owned. -/
theorem extend_spec (hwrap : ∀ s k, (wrap s).row? k = s.rows.get? k)
    (h : s.extend now lock id ttl = .ok (b, s')) :
    (wrap s).Changed (wrap s') now lock id (some ⟨id, now + ttl.keyMillis⟩) b := by
  rw [extend] at h
  split at h
  case isFalse => cases h
  case isTrue =>
  refine changed_of_owned wrap hwrap ?_ h
  intro old hid k
  rw [hwrap, hwrap, Dict.get?_insert, hid]

/-- Memory that is in reach answers, and stays in reach. -/
theorem exists_extend (h : s.available = true) :
    ∃ b s', s.extend now lock id ttl = .ok (b, s') ∧ s'.available = true := by
  rw [extend, if_pos h]
  cases s.rows.get? lock with
  | none => exact ⟨false, s, rfl, h⟩
  | some row =>
    dsimp only
    split
    · exact ⟨true, _, rfl, h⟩
    · exact ⟨false, s, rfl, h⟩

/-- Memory that answers is switched on. -/
theorem available_of_ping (h : s.ping = .ok ()) : s.available = true := by
  rw [ping] at h
  split at h
  · assumption
  · cases h

/-- Looking at a lock in memory shows its owner. -/
theorem owner_of_peek (hwrap : ∀ s k, (wrap s).row? k = s.rows.get? k) {g : Glimpse}
    (h : s.peek now lock = .ok g) : g.owner = (wrap s).owner? now lock := by
  rw [peek] at h
  split at h
  case isFalse => cases h
  case isTrue =>
  rw [Store.owner?, Store.live?, hwrap]
  cases hrow : s.rows.get? lock with
  | none =>
    simp only [hrow, Except.ok.injEq] at h
    rw [← h]
    rfl
  | some row =>
    simp only [hrow] at h
    rw [Option.filter_some]
    split at h
    · next hlive =>
      cases h
      rw [if_pos hlive]
      rfl
    · next hdead =>
      cases h
      rw [if_neg hdead]
      rfl

end MemoryStore

/-! ### Operations on a table -/

namespace LeaseTable

variable {t t' : LeaseTable} {now : Nat} {lock : LockName} {id : LeaseId} {ttl : Duration}
  {b : Bool}

/-- The condition under which a statement changes the key of a lease. -/
def owned (now : Nat) (lock : LockName) (id : LeaseId) (r : TableRow) : Bool :=
  r.lock == lock && r.lease == id && decide (now < r.expiresAt)

/-- The condition of a statement picks the live row of the lock that `id` owns. -/
theorem owned_underKey {k : LockName} {row : Row} :
    owned now lock id (row.underKey k) = true ↔
      k = lock ∧ row.lease = id ∧ now < row.expiresAt := by
  simp only [owned, Bool.and_eq_true, beq_iff_eq, decide_eq_true_eq, and_assoc]

/-- A change of the key of `id` that counts the rows it touched. -/
theorem changed_of_count {row : Option Row}
    (hcount : decide (0 < t.rows.countP (owned now lock id)) = b) (hzero : b = false → t' = t)
    (hpos : ∀ old, t.row? lock = some old → old.lease = id → now < old.expiresAt →
      (Store.table t).Sets (.table t') lock row) :
    (Store.table t).Changed (.table t') now lock id row b := by
  cases b with
  | true =>
    rw [decide_eq_true_iff] at hcount
    obtain ⟨k, old, hold, hp⟩ := exists_row?_of_countP_pos hcount
    obtain ⟨rfl, rfl, hlt⟩ := owned_underKey.1 hp
    exact ⟨⟨old.expiresAt, Store.live?_eq_some_iff.2 ⟨hold, hlt⟩⟩, hpos old hold rfl hlt⟩
  | false =>
    replace hcount := Nat.eq_zero_of_not_pos (of_decide_eq_false hcount)
    refine ⟨congrArg Store.table (hzero rfl), fun old hold hid ↦ ?_⟩
    obtain ⟨hrow, hlt⟩ := Store.live?_eq_some_iff.1 hold
    have hp := not_of_countP_eq_zero hcount hrow
    rw [owned_underKey.2 ⟨rfl, hid, hlt⟩] at hp
    cases hp

/-- In a table a key is inserted, or takes the place of an expired one, just if there is no live
row. -/
theorem take_spec (h : t.take now lock id ttl = .ok (b, t')) :
    (Store.table t).Taken (.table t') now lock id ttl b := by
  obtain ⟨-, h⟩ := withNumber_eq_ok_iff.1 h
  rw [Prod.mk.injEq] at h
  obtain ⟨hcount, rfl⟩ := h
  cases hrow : t.row? lock with
  | none =>
    have hup := fun k ↦ upsert_of_row?_eq_none (k := k)
      (r := ⟨lock, id, now + ttl.keyMillis⟩) (p := fun r ↦ decide (r.expiresAt ≤ now)) hrow
    rw [(hup lock).1] at hcount
    subst hcount
    refine ⟨Store.live?_eq_none_iff.2 fun row hrow' ↦ ?_, fun k ↦ (hup k).2⟩
    exact absurd (hrow.symm.trans hrow') (by simp)
  | some row =>
    rcases upsert_of_row?_eq_some (r := ⟨lock, id, now + ttl.keyMillis⟩)
      (p := fun r ↦ decide (r.expiresAt ≤ now)) hrow with
      ⟨hpos, hdead, hset⟩ | ⟨hzero, hlive, hself⟩
    · rw [decide_eq_true hpos] at hcount
      subst hcount
      refine ⟨Store.live?_eq_none_iff.2 fun row' hrow' ↦ ?_, hset⟩
      obtain rfl : row = row' := Option.some.inj (hrow.symm.trans hrow')
      exact of_decide_eq_true hdead
    · rw [hzero] at hcount
      subst hcount
      refine ⟨congrArg Store.table hself, row, Store.live?_eq_some_iff.2 ⟨hrow, ?_⟩⟩
      exact Nat.not_le.1 (of_decide_eq_false hlive)

/-- In a table a key is deleted if it is live and owned. -/
theorem free_spec (h : t.free now lock id = .ok (b, t')) :
    (Store.table t).Changed (.table t') now lock id none b := by
  obtain ⟨-, h⟩ := withNumber_eq_ok_iff.1 h
  rw [Prod.mk.injEq] at h
  obtain ⟨hcount, rfl⟩ := h
  refine changed_of_count hcount (fun hb ↦ ?_) fun old hold hid hlt k ↦ ?_
  · subst hb
    exact delete_eq_self (Nat.eq_zero_of_not_pos (of_decide_eq_false hcount))
  · show (t.delete (owned now lock id)).2.row? k = _
    rw [row?_delete]
    by_cases hk : k = lock
    · subst hk
      rw [if_pos rfl, hold, Option.filter_some, owned_underKey.2 ⟨rfl, hid, hlt⟩]
      rfl
    · rw [if_neg hk]
      -- The condition names the key, so the rows of the other keys pass.
      have hkeep (row : Row) : (!owned now lock id (row.underKey k)) = true := by
        rw [Bool.not_eq_true', Bool.eq_false_iff]
        exact fun h ↦ hk (owned_underKey.1 h).1
      show (t.row? k).filter _ = t.row? k
      cases hrow : t.row? k with
      | none => rfl
      | some row => rw [Option.filter_some, if_pos (hkeep row)]

/-- In a table a key is set to a new expiry if it is live and owned. -/
theorem extend_spec (h : t.extend now lock id ttl = .ok (b, t')) :
    (Store.table t).Changed (.table t') now lock id (some ⟨id, now + ttl.keyMillis⟩) b := by
  obtain ⟨-, h⟩ := withNumber_eq_ok_iff.1 h
  rw [Prod.mk.injEq] at h
  obtain ⟨hcount, rfl⟩ := h
  refine changed_of_count hcount (fun hb ↦ ?_) fun old hold hid hlt k ↦ ?_
  · subst hb
    exact update_eq_self (Nat.eq_zero_of_not_pos (of_decide_eq_false hcount))
  · show (t.update (now + ttl.keyMillis) (owned now lock id)).2.row? k = _
    rw [row?_update]
    by_cases hk : k = lock
    · subst hk
      rw [if_pos rfl, hold, Option.map_some, if_pos (owned_underKey.2 ⟨rfl, hid, hlt⟩), hid]
    · rw [if_neg hk]
      have hkeep (row : Row) : (if owned now lock id (row.underKey k) = true then
          ⟨row.lease, now + ttl.keyMillis⟩ else row) = row :=
        if_neg fun h ↦ hk (owned_underKey.1 h).1
      simp only [hkeep, Option.map_id']
      rfl

/-- Looking at a lock in a table shows its owner. -/
theorem owner_of_peek {g : Glimpse} (h : t.peek now lock = .ok g) :
    g.owner = (Store.table t).owner? now lock := by
  obtain ⟨-, hg⟩ := withNumber_eq_ok_iff.1 h
  split at hg
  · next r hr =>
    have hp := List.find?_some hr
    simp only [Bool.and_eq_true, beq_iff_eq, decide_eq_true_eq] at hp
    obtain ⟨rfl, hlt⟩ := hp
    have hrow : (Store.table t).row? r.lock = some ⟨r.lease, r.expiresAt⟩ :=
      row?_eq_some_iff.2 (List.mem_of_find?_eq_some hr)
    rw [← hg]
    exact (Store.owner?_eq_some_iff.2 ⟨r.expiresAt, hrow, hlt⟩).symm
  · next hnone =>
    have hdead : (Store.table t).live? now lock = none := by
      refine Store.live?_eq_none_iff.2 fun row hrow ↦ ?_
      have := List.find?_eq_none.1 hnone _ (row?_eq_some_iff.1 hrow)
      simpa using this
    rw [← hg, Store.owner?, hdead]
    rfl

end LeaseTable

/-! ### Operations of a store -/

namespace Store

variable {s s' : Store} {now : Nat} {lock : LockName} {id : LeaseId} {ttl : Duration} {b : Bool}

/-- **Taking a key.** It is taken just if nobody owns it, and has its expiry then. -/
theorem take_spec (h : s.take now lock id ttl = .ok (b, s')) : s.Taken s' now lock id ttl b := by
  cases s with
  | memory m =>
    obtain ⟨m', hm, rfl⟩ := lift_eq_ok_iff.1 h
    exact m.take_spec memory (fun _ _ ↦ rfl) hm
  | table t =>
    obtain ⟨t', ht, rfl⟩ := lift_eq_ok_iff.1 h
    exact t.take_spec ht
  | bare m =>
    obtain ⟨m', hm, rfl⟩ := lift_eq_ok_iff.1 h
    exact m.take_spec bare (fun _ _ ↦ rfl) hm

/-- **Freeing a key.** It is deleted just if it is live and owned. -/
theorem free_spec (h : s.free now lock id = .ok (b, s')) : s.Changed s' now lock id none b := by
  cases s with
  | memory m =>
    obtain ⟨m', hm, rfl⟩ := lift_eq_ok_iff.1 h
    exact m.free_spec memory (fun _ _ ↦ rfl) hm
  | table t =>
    obtain ⟨t', ht, rfl⟩ := lift_eq_ok_iff.1 h
    exact t.free_spec ht
  | bare m =>
    obtain ⟨m', hm, rfl⟩ := lift_eq_ok_iff.1 h
    exact m.free_spec bare (fun _ _ ↦ rfl) hm

/-- **Extending a key.** It is set to its new expiry just if it is live and owned. -/
theorem extend_spec (h : s.extend now lock id ttl = .ok (b, s')) :
    s.Changed s' now lock id (some ⟨id, now + ttl.keyMillis⟩) b := by
  cases s with
  | memory m =>
    obtain ⟨m', hm, rfl⟩ := lift_eq_ok_iff.1 h
    exact m.extend_spec memory (fun _ _ ↦ rfl) hm
  | table t =>
    obtain ⟨t', ht, rfl⟩ := lift_eq_ok_iff.1 h
    exact t.extend_spec ht
  | bare m =>
    obtain ⟨m', hm, rfl⟩ := lift_eq_ok_iff.1 h
    exact m.extend_spec bare (fun _ _ ↦ rfl) hm

/-- A store that can be used answers if the numbers fit, and it can be used after that. -/
theorem exists_extend (hping : s.ping = .ok ()) (hfits : now + ttl.keyMillis < signedBound) :
    ∃ b s', s.extend now lock id ttl = .ok (b, s') ∧ s'.ping = .ok () := by
  cases s with
  | memory m =>
    obtain ⟨b, m', h, hm⟩ := m.exists_extend (MemoryStore.available_of_ping hping)
    exact ⟨b, memory m', by rw [extend, h]; rfl, if_pos hm⟩
  | table t =>
    rw [extend, LeaseTable.extend, LeaseTable.withNumber, if_pos hfits]
    exact ⟨_, _, rfl, rfl⟩
  | bare m =>
    obtain ⟨b, m', h, hm⟩ := m.exists_extend (MemoryStore.available_of_ping hping)
    exact ⟨b, bare m', by rw [extend, h]; rfl, if_pos hm⟩

/-- The owner of a live key extends it. -/
theorem extend_of_owner {e : Nat} (hping : s.ping = .ok ()) (hrow : s.row? lock = some ⟨id, e⟩)
    (hlt : now < e) (hfits : now + ttl.keyMillis < signedBound) :
    ∃ s', s.extend now lock id ttl = .ok (true, s') ∧ s'.ping = .ok () ∧
      s'.row? lock = some ⟨id, now + ttl.keyMillis⟩ := by
  obtain ⟨b, s', h, hping'⟩ : ∃ b s', s.extend now lock id ttl = .ok (b, s') ∧ s'.ping = .ok () :=
    exists_extend hping hfits
  have hs := extend_spec h
  cases b with
  | true => exact ⟨s', h, hping', hs.2.at_lock⟩
  | false => exact absurd rfl (hs.2 ⟨id, e⟩ (live?_eq_some_iff.2 ⟨hrow, hlt⟩))

/-- A look at a key shows its owner. -/
theorem owner_of_peek {g : Glimpse} (h : s.peek now lock = .ok g) :
    g.owner = s.owner? now lock := by
  cases s with
  | memory m => exact m.owner_of_peek memory (fun _ _ ↦ rfl) h
  | table t => exact t.owner_of_peek h
  | bare m =>
    rw [peek] at h
    cases hpeek : m.peek now lock with
    | error fault => simp [hpeek, Except.map] at h
    | ok g' =>
      simp only [hpeek, Except.map, Except.ok.injEq] at h
      rw [← m.owner_of_peek bare (fun _ _ ↦ rfl) hpeek, ← h]

/-- Purging, where there is something to purge by, keeps the live rows and no other ones. -/
theorem row?_purge_of_isFull {n : Nat} (hfull : s.isFull = true) (h : s.purge now = .ok (n, s'))
    (k : LockName) : s'.row? k = s.live? now k := by
  cases s with
  | memory m =>
    obtain ⟨m', hm, rfl⟩ := lift_eq_ok_iff.1 h
    rw [MemoryStore.purge] at hm
    split at hm
    · cases hm
      exact Dict.get?_filter m.rows _ k
    · cases hm
  | table t =>
    obtain ⟨t', ht, rfl⟩ := lift_eq_ok_iff.1 h
    obtain ⟨-, ht⟩ := LeaseTable.withNumber_eq_ok_iff.1 ht
    obtain rfl : (t.delete fun r ↦ decide (r.expiresAt ≤ now)).2 = t' := congrArg Prod.snd ht
    rw [live?, row?, LeaseTable.row?_delete]
    refine congrArg (Option.filter · _) (funext fun row ↦ ?_)
    simp only [Row.isLive, ← decide_not, Nat.not_le]
  | bare m => cases hfull

/-- Purging keeps the rows that are live, adds none and changes none. -/
theorem row?_purge {n : Nat} (h : s.purge now = .ok (n, s')) :
    (∀ k, s'.row? k = s.live? now k) ∨ s' = s := by
  cases s with
  | memory m | table t => exact .inl (row?_purge_of_isFull rfl h)
  | bare m =>
    -- There is nothing to purge by, so expired rows stay.
    cases h
    exact .inr rfl

/-- Purging makes no rows. -/
theorem row?_of_row?_purge {n : Nat} {row : Row} {k : LockName} (h : s.purge now = .ok (n, s'))
    (hrow : s'.row? k = some row) : s.row? k = some row := by
  rcases row?_purge h with hlive | rfl
  · rw [hlive] at hrow
    exact (live?_eq_some_iff.1 hrow).1
  · exact hrow

/-- **Purging keeps every live row.** -/
theorem row?_purge_of_lt {n : Nat} {row : Row} {k : LockName} (h : s.purge now = .ok (n, s'))
    (hrow : s.row? k = some row) (hlt : now < row.expiresAt) : s'.row? k = some row := by
  rcases row?_purge h with hlive | rfl
  · rw [hlive]
    exact live?_eq_some_iff.2 ⟨hrow, hlt⟩
  · exact hrow

/-- Rows are gone at most, and only such as had expired by `last`. -/
structure PurgedBy (s s' : Store) (last : Nat) : Prop where
  /-- No row is new or changed. -/
  row?_of_row? : ∀ k row, s'.row? k = some row → s.row? k = some row
  /-- A row that is live at `last` is still there. -/
  stays : ∀ k row, s.row? k = some row → last < row.expiresAt → s'.row? k = some row

theorem PurgedBy.refl (s : Store) (last : Nat) : s.PurgedBy s last :=
  ⟨fun _ _ h ↦ h, fun _ _ h _ ↦ h⟩

/-- A purge at `now` takes no row that is live at `now` or later. -/
theorem purgedBy_purge {n last : Nat} (h : s.purge now = .ok (n, s')) (hlast : now ≤ last) :
    s.PurgedBy s' last :=
  ⟨fun _ _ hrow ↦ row?_of_row?_purge h hrow,
    fun _ _ hrow hlt ↦ row?_purge_of_lt h hrow (Nat.lt_of_le_of_lt hlast hlt)⟩

end Store

end LeaseLock
