import LeaseLock.Proofs.Store.Rows

/-!
# Operations keep a store within reach

Whether a store can be used does not depend on what is in it. An operation that succeeds changes
the rows and nothing else (`Store.emptied_take` and the lemmas beside it), so it leaves a store that
can be used as well as before, and a store that can be used has an answer to every request whose
numbers fit a signed word (`Store.exists_take`).

A store is compared with itself without its rows (`Store.emptied`). That keeps the kind of the store
and, for memory, whether it is switched on, and it is all that pinging a store looks at. So one
equation for each operation says that the operation neither turns a table into memory nor switches
anything on or off, and that pinging gives the same answer afterwards is a consequence
(`Store.ping_congr`).

Only answers that are there can be inverted. That there is an answer at all is said of memory for
any numbers, and of stores for numbers that a table can hold.
-/

namespace LeaseLock

namespace MemoryStore

variable {s s' : MemoryStore} {now : Nat} {lock : LockName} {id : LeaseId} {ttl : Duration}
  {b : Bool}

/-- Taking a key switches nothing on or off. -/
theorem available_take (h : s.take now lock id ttl = .ok (b, s')) :
    s'.available = s.available := by
  rw [take] at h
  split at h
  · split at h
    · split at h <;> cases h <;> rfl
    · cases h
      rfl
  · cases h

/-- Nor does freeing one. -/
theorem available_free (h : s.free now lock id = .ok (b, s')) : s'.available = s.available := by
  rw [free] at h
  split at h
  · split at h
    · split at h <;> cases h <;> rfl
    · cases h
      rfl
  · cases h

/-- Nor does extending one. -/
theorem available_extend (h : s.extend now lock id ttl = .ok (b, s')) :
    s'.available = s.available := by
  rw [extend] at h
  split at h
  · split at h
    · split at h <;> cases h <;> rfl
    · cases h
      rfl
  · cases h

/-- Nor does purging. -/
theorem available_purge {n : Nat} (h : s.purge now = .ok (n, s')) :
    s'.available = s.available := by
  rw [purge] at h
  split at h
  · cases h
    rfl
  · cases h

/-- What answers can be used. -/
theorem ping_of_extend (h : s.extend now lock id ttl = .ok (b, s')) : s.ping = .ok () := by
  rw [extend] at h
  split at h
  · next havailable => exact if_pos havailable
  · cases h

/-- Memory that is switched on has an answer. -/
theorem exists_take (h : s.available = true) : ∃ b s', s.take now lock id ttl = .ok (b, s') := by
  rw [take, if_pos h]
  split
  · split
    · exact ⟨_, _, rfl⟩
    · exact ⟨_, _, rfl⟩
  · exact ⟨_, _, rfl⟩

end MemoryStore

namespace Store

variable {s s' : Store} {now : Nat} {lock : LockName} {id : LeaseId} {ttl : Duration} {b : Bool}

/-- The store without its rows: its kind, and whether it can be used. -/
def emptied : Store → Store
  | memory m => memory { m with rows := ∅ }
  | table _ => table {}
  | bare m => bare { m with rows := ∅ }

/-- Pinging does not look at rows. -/
theorem ping_emptied (s : Store) : s.emptied.ping = s.ping := by
  cases s <;> rfl

/-- Stores that differ in their rows only can be used alike. -/
theorem ping_congr (h : s'.emptied = s.emptied) : s'.ping = s.ping := by
  rw [← ping_emptied, h, ping_emptied]

/-- Taking a key changes nothing but rows. -/
theorem emptied_take (h : s.take now lock id ttl = .ok (b, s')) : s'.emptied = s.emptied := by
  cases s with
  | memory m | bare m =>
    obtain ⟨m', hm, rfl⟩ := lift_eq_ok_iff.1 h
    simp only [emptied, MemoryStore.available_take hm]
  | table t =>
    obtain ⟨t', -, rfl⟩ := lift_eq_ok_iff.1 h
    rfl

/-- Freeing a key changes nothing but rows. -/
theorem emptied_free (h : s.free now lock id = .ok (b, s')) : s'.emptied = s.emptied := by
  cases s with
  | memory m | bare m =>
    obtain ⟨m', hm, rfl⟩ := lift_eq_ok_iff.1 h
    simp only [emptied, MemoryStore.available_free hm]
  | table t =>
    obtain ⟨t', -, rfl⟩ := lift_eq_ok_iff.1 h
    rfl

/-- Extending a key changes nothing but rows. -/
theorem emptied_extend (h : s.extend now lock id ttl = .ok (b, s')) : s'.emptied = s.emptied := by
  cases s with
  | memory m | bare m =>
    obtain ⟨m', hm, rfl⟩ := lift_eq_ok_iff.1 h
    simp only [emptied, MemoryStore.available_extend hm]
  | table t =>
    obtain ⟨t', -, rfl⟩ := lift_eq_ok_iff.1 h
    rfl

/-- Purging changes nothing but rows. -/
theorem emptied_purge {n : Nat} (h : s.purge now = .ok (n, s')) : s'.emptied = s.emptied := by
  cases s with
  | memory m =>
    obtain ⟨m', hm, rfl⟩ := lift_eq_ok_iff.1 h
    simp only [emptied, MemoryStore.available_purge hm]
  | table t =>
    obtain ⟨t', -, rfl⟩ := lift_eq_ok_iff.1 h
    rfl
  | bare m =>
    cases h
    rfl

/-- A store can be used behind taking a key as before. -/
theorem ping_take (h : s.take now lock id ttl = .ok (b, s')) : s'.ping = s.ping :=
  ping_congr (emptied_take h)

theorem ping_free (h : s.free now lock id = .ok (b, s')) : s'.ping = s.ping :=
  ping_congr (emptied_free h)

theorem ping_extend (h : s.extend now lock id ttl = .ok (b, s')) : s'.ping = s.ping :=
  ping_congr (emptied_extend h)

theorem ping_purge {n : Nat} (h : s.purge now = .ok (n, s')) : s'.ping = s.ping :=
  ping_congr (emptied_purge h)

/-- A store that has extended a key can be used. -/
theorem ping_of_extend (h : s.extend now lock id ttl = .ok (b, s')) : s.ping = .ok () := by
  cases s with
  | memory m | bare m =>
    obtain ⟨m', hm, -⟩ := lift_eq_ok_iff.1 h
    exact MemoryStore.ping_of_extend hm
  | table t => rfl

/-- A key that is not live is taken, if the store can be used and the numbers fit. -/
theorem exists_take (hping : s.ping = .ok ()) (hfits : now + ttl.keyMillis < signedBound)
    (hfree : s.live? now lock = none) : ∃ s', s.take now lock id ttl = .ok (true, s') := by
  obtain ⟨b, s', htake⟩ : ∃ b s', s.take now lock id ttl = .ok (b, s') := by
    cases s with
    | memory m =>
      obtain ⟨b, m', h⟩ := m.exists_take (MemoryStore.available_of_ping hping)
      exact ⟨b, memory m', by rw [take, h]; rfl⟩
    | table t =>
      rw [take, LeaseTable.take, LeaseTable.withNumber, if_pos hfits]
      exact ⟨_, _, rfl⟩
    | bare m =>
      obtain ⟨b, m', h⟩ := m.exists_take (MemoryStore.available_of_ping hping)
      exact ⟨b, bare m', by rw [take, h]; rfl⟩
  cases b with
  | true => exact ⟨s', htake⟩
  | false =>
    obtain ⟨-, row, hrow⟩ := take_spec htake
    rw [hfree] at hrow
    cases hrow

end Store

end LeaseLock
