import LeaseLock.Store.Row

/-!
# Leases kept in a table

A `LeaseTable` is a database table with the lock name as its primary key. It is changed by
statements with conditions on rows: an insertion that turns into a conditional update when the key
is taken (`upsert`), an update (`update`), a deletion (`delete`). Each statement counts the rows it
touched, and the operations of the store read their outcome off that count.

A number in a statement must fit a signed 64-bit word. The statement fails before it looks at any
row if one does not.
-/

namespace LeaseLock

/-- A row of the table. -/
structure TableRow where
  /-- The primary key. -/
  lock : LockName
  /-- The lease that owns the key. -/
  lease : LeaseId
  /-- When the key expires. -/
  expiresAt : Nat
deriving DecidableEq, Repr

/-- A table of leases, at most one row for each lock. -/
structure LeaseTable where
  /-- The rows. -/
  rows : List TableRow := []
  /-- The lock name is a key. -/
  keyed : (rows.map (·.lock)).Nodup := by exact List.nodup_nil

namespace LeaseTable

/-! ### Statements -/

/-- Insert the row; if its key is taken, overwrite the row there provided that it satisfies
`replaceable`. -/
def upsert (t : LeaseTable) (row : TableRow) (replaceable : TableRow → Bool) : Nat × LeaseTable :=
  if h : row.lock ∈ t.rows.map (·.lock) then
    let replaces := fun (r : TableRow) ↦ r.lock == row.lock && replaceable r
    (t.rows.countP replaces,
      { rows := t.rows.map fun r ↦ if replaces r then row else r
        keyed := by
          have : (t.rows.map fun r ↦ if replaces r then row else r).map (·.lock) =
              t.rows.map (·.lock) := by
            rw [List.map_map]
            refine List.map_congr_left fun r _ ↦ ?_
            simp only [Function.comp, replaces]
            split
            · next hr => simp only [Bool.and_eq_true, beq_iff_eq] at hr; exact hr.1.symm
            · rfl
          exact this ▸ t.keyed })
  else
    (1,
      { rows := t.rows ++ [row]
        keyed := by
          rw [List.map_append, List.nodup_append]
          refine ⟨t.keyed, by simp, ?_⟩
          intro a ha b hb hab
          simp only [List.map_cons, List.map_nil, List.mem_singleton] at hb
          exact h (hb ▸ hab ▸ ha) })

/-- Set the expiry of the rows that satisfy `p`. -/
def update (t : LeaseTable) (expiresAt : Nat) (p : TableRow → Bool) : Nat × LeaseTable :=
  (t.rows.countP p,
    { rows := t.rows.map fun r ↦ if p r then { r with expiresAt } else r
      keyed := by
        have : (t.rows.map fun r ↦ if p r then { r with expiresAt } else r).map (·.lock) =
            t.rows.map (·.lock) := by
          rw [List.map_map]
          refine List.map_congr_left fun r _ ↦ ?_
          simp only [Function.comp]
          split <;> rfl
        exact this ▸ t.keyed })

/-- Delete the rows that satisfy `p`. -/
def delete (t : LeaseTable) (p : TableRow → Bool) : Nat × LeaseTable :=
  (t.rows.countP p,
    { rows := t.rows.filter fun r ↦ !p r
      keyed := t.keyed.sublist (List.filter_sublist.map _) })

/-- The first row that satisfies `p`. -/
def select (t : LeaseTable) (p : TableRow → Bool) : Option TableRow := t.rows.find? p

/-! ### Operations of the store -/

/-- The fault of a number that is too large for a statement. -/
def tooLarge : StoreFault := .unavailable "number too large to fit in target type"

/-- Run a statement whose largest number is `n`. -/
def withNumber (n : Nat) (statement : Unit → α) : Except StoreFault α :=
  if n < signedBound then .ok (statement ()) else .error tooLarge

/-- Take the key for `id` unless it is live. -/
def take (t : LeaseTable) (now : Nat) (lock : LockName) (id : LeaseId) (ttl : Duration) :
    Except StoreFault (Bool × LeaseTable) :=
  withNumber (now + ttl.keyMillis) fun _ ↦
    let (touched, t) := t.upsert ⟨lock, id, now + ttl.keyMillis⟩ fun r ↦ decide (r.expiresAt ≤ now)
    (decide (0 < touched), t)

/-- Delete the key if it is live and owned by `id`. -/
def free (t : LeaseTable) (now : Nat) (lock : LockName) (id : LeaseId) :
    Except StoreFault (Bool × LeaseTable) :=
  withNumber now fun _ ↦
    let (touched, t) := t.delete fun r ↦
      r.lock == lock && r.lease == id && decide (now < r.expiresAt)
    (decide (0 < touched), t)

/-- Let the key expire `ttl` from now if it is live and owned by `id`. -/
def extend (t : LeaseTable) (now : Nat) (lock : LockName) (id : LeaseId)
    (ttl : Duration) : Except StoreFault (Bool × LeaseTable) :=
  withNumber (now + ttl.keyMillis) fun _ ↦
    let (touched, t) := t.update (now + ttl.keyMillis) fun r ↦
      r.lock == lock && r.lease == id && decide (now < r.expiresAt)
    (decide (0 < touched), t)

/-- Look at the key without changing anything. -/
def peek (t : LeaseTable) (now : Nat) (lock : LockName) : Except StoreFault Glimpse :=
  withNumber now fun _ ↦
    match t.select fun r ↦ r.lock == lock && decide (now < r.expiresAt) with
    | some r => ⟨some r.lease, some (.ofMillis (r.expiresAt - now))⟩
    | none => {}

/-- Delete the keys that have expired and count them. -/
def purge (t : LeaseTable) (now : Nat) : Except StoreFault (Nat × LeaseTable) :=
  withNumber now fun _ ↦ t.delete fun r ↦ decide (r.expiresAt ≤ now)

/-- The row of a lock. -/
def row? (t : LeaseTable) (lock : LockName) : Option Row :=
  (t.select fun r ↦ r.lock == lock).map fun r ↦ ⟨r.lease, r.expiresAt⟩

end LeaseTable

end LeaseLock
