import LeaseLock.Store.Table

/-!
# What statements do to the rows of a table

Each statement of a `LeaseTable` seen through `LeaseTable.row?`: what it finds under a key, what it
leaves there, and that it leaves the table as it was if it touches no row. The lock name is a key,
so a look-up finds the only row there is, and the order of the rows never shows.

## Statements with conditions

A statement is given with the condition of its rows (`LeaseTable.delete`, `LeaseTable.update`,
`LeaseTable.upsert`), and tells how many of them it has touched. So what an operation of the store
decides by counting rows is decided here by the one row under the key: a count that is not zero is a
row that meets the condition (`LeaseTable.exists_row?_of_countP_pos`), and a count of zero says that
it does not (`LeaseTable.not_of_countP_eq_zero`).

That a lock has one row is part of what a table is, and each statement carries the proof that it
leaves it so.
-/

namespace LeaseLock

/-- The row as it stands in a table under the key `lock`. -/
abbrev Row.underKey (row : Row) (lock : LockName) : TableRow := ⟨lock, row.lease, row.expiresAt⟩

/-- Where the lock name is a key, the row found at a lock is the only one there. -/
theorem find?_lock_eq_some_iff {rows : List TableRow} (hkeyed : (rows.map (·.lock)).Nodup)
    {lock : LockName} {r : TableRow} :
    rows.find? (fun r ↦ r.lock == lock) = some r ↔ r ∈ rows ∧ r.lock = lock := by
  constructor
  · intro h
    exact ⟨List.mem_of_find?_eq_some h, by simpa using List.find?_some h⟩
  · rintro ⟨hmem, hlock⟩
    induction rows with
    | nil => exact absurd hmem List.not_mem_nil
    | cons a rows ih =>
      rw [List.map_cons, List.nodup_cons] at hkeyed
      rw [List.find?_cons]
      rcases List.mem_cons.1 hmem with rfl | hmem
      · simp [hlock]
      · have hne : a.lock ≠ lock := by
          intro heq
          exact hkeyed.1 (List.mem_map.2 ⟨r, hmem, hlock.trans heq.symm⟩)
        rw [beq_eq_false_iff_ne.2 hne]
        exact ih hkeyed.2 hmem

namespace LeaseTable

variable {t : LeaseTable} {lock k : LockName} {row : Row} {p : TableRow → Bool}

/-- The row of a lock, read off the list. -/
theorem row?_eq_some_iff : t.row? lock = some row ↔ row.underKey lock ∈ t.rows := by
  rw [row?, select, Option.map_eq_some_iff]
  constructor
  · rintro ⟨r, hr, rfl⟩
    obtain ⟨hmem, rfl⟩ := (find?_lock_eq_some_iff t.keyed).1 hr
    exact hmem
  · intro hmem
    exact ⟨_, (find?_lock_eq_some_iff t.keyed).2 ⟨hmem, rfl⟩, rfl⟩

theorem row?_eq_none_iff : t.row? lock = none ↔ lock ∉ t.rows.map (·.lock) := by
  rw [row?, select, Option.map_eq_none_iff, List.find?_eq_none]
  simp only [beq_iff_eq, List.mem_map, not_exists, not_and]

/-- What a look-up finds is settled by the members of the list. -/
theorem row?_congr {t' : LeaseTable} {o : Option Row}
    (h : ∀ row : Row, row.underKey k ∈ t'.rows ↔ o = some row) : t'.row? k = o := by
  apply Option.ext
  intro row
  rw [row?_eq_some_iff, h row]

/-- A statement touches a row if one satisfies its condition. -/
theorem exists_row?_of_countP_pos (h : 0 < t.rows.countP p) :
    ∃ k row, t.row? k = some row ∧ p (row.underKey k) = true := by
  obtain ⟨r, hmem, hp⟩ := List.countP_pos_iff.1 h
  exact ⟨r.lock, ⟨r.lease, r.expiresAt⟩, row?_eq_some_iff.2 hmem, hp⟩

/-- A statement that touches no row finds none that satisfies its condition. -/
theorem not_of_countP_eq_zero (h : t.rows.countP p = 0) (hrow : t.row? k = some row) :
    p (row.underKey k) = false := by
  have := List.countP_eq_zero.1 h _ (row?_eq_some_iff.1 hrow)
  simpa using this

theorem row?_delete : (t.delete p).2.row? k = (t.row? k).filter fun row ↦ !p (row.underKey k) := by
  refine row?_congr fun row ↦ ?_
  rw [Option.filter_eq_some_iff, row?_eq_some_iff]
  exact List.mem_filter

theorem delete_eq_self (h : t.rows.countP p = 0) : (t.delete p).2 = t := by
  have hrows : t.rows.filter (fun r ↦ !p r) = t.rows := by
    rw [List.filter_eq_self]
    intro r hr
    simpa using List.countP_eq_zero.1 h r hr
  obtain ⟨rows, hkeyed⟩ := t
  simp only [delete, mk.injEq]
  exact hrows

/-- Rows under other keys survive a replacement that keeps keys, and so does the key itself. -/
theorem row?_replaced {t' : LeaseTable} {f : TableRow → TableRow} {g : Row → Row}
    (hrows : t'.rows = t.rows.map f) (hlock : ∀ r, (f r).lock = r.lock)
    (hg : ∀ row : Row, f (row.underKey k) = (g row).underKey k) :
    t'.row? k = (t.row? k).map g := by
  refine row?_congr fun row ↦ ?_
  rw [hrows, List.mem_map, Option.map_eq_some_iff]
  constructor
  · rintro ⟨r, hmem, hr⟩
    have hk : r.lock = k := by
      rw [← hlock r, hr]
    subst hk
    refine ⟨⟨r.lease, r.expiresAt⟩, row?_eq_some_iff.2 hmem, ?_⟩
    have heq : (g ⟨r.lease, r.expiresAt⟩).underKey r.lock = row.underKey r.lock :=
      (hg _).symm.trans hr
    simp only [Row.underKey, TableRow.mk.injEq, true_and] at heq
    calc g ⟨r.lease, r.expiresAt⟩ = ⟨row.lease, row.expiresAt⟩ := by rw [← heq.1, ← heq.2]
      _ = row := rfl
  · rintro ⟨old, hold, rfl⟩
    exact ⟨_, row?_eq_some_iff.1 hold, hg old⟩

theorem row?_update {e : Nat} :
    (t.update e p).2.row? k =
      (t.row? k).map fun row ↦ if p (row.underKey k) then ⟨row.lease, e⟩ else row := by
  refine row?_replaced rfl (fun r ↦ ?_) fun row ↦ ?_
  · split <;> rfl
  · split <;> rfl

theorem update_eq_self {e : Nat} (h : t.rows.countP p = 0) : (t.update e p).2 = t := by
  have hrows : t.rows.map (fun r ↦ if p r then { r with expiresAt := e } else r) = t.rows := by
    refine (List.map_congr_left fun r hr ↦ ?_).trans (List.map_id _)
    rw [if_neg (List.countP_eq_zero.1 h r hr), id]
  obtain ⟨rows, hkeyed⟩ := t
  simp only [update, mk.injEq]
  exact hrows

/-- Insertion under a key that is not there. -/
theorem upsert_of_row?_eq_none {r : TableRow} (h : t.row? r.lock = none) :
    (t.upsert r p).1 = 1 ∧
      (t.upsert r p).2.row? k = if k = r.lock then some ⟨r.lease, r.expiresAt⟩ else t.row? k := by
  have habsent := row?_eq_none_iff.1 h
  rw [upsert, dif_neg habsent]
  refine ⟨rfl, row?_congr fun row ↦ ?_⟩
  simp only [List.mem_append, List.mem_singleton, ← row?_eq_some_iff]
  by_cases hk : k = r.lock
  · subst hk
    simp only [h, if_pos, reduceCtorEq, false_or, Option.some.injEq]
    constructor
    · intro heq
      rw [← heq]
    · intro heq
      rw [← heq]
  · simp only [hk, if_false, or_iff_left_iff_imp]
    intro heq
    exact absurd (congrArg TableRow.lock heq) hk

/-- Insertion under a key that is there changes the row under the key, if it changes anything. -/
theorem upsert_of_row?_eq_some {r : TableRow} (h : t.row? r.lock = some row) :
    (0 < (t.upsert r p).1 ∧ p (row.underKey r.lock) = true ∧
        ∀ k, (t.upsert r p).2.row? k =
          if k = r.lock then some ⟨r.lease, r.expiresAt⟩ else t.row? k) ∨
      ((t.upsert r p).1 = 0 ∧ p (row.underKey r.lock) = false ∧ (t.upsert r p).2 = t) := by
  have hthere : r.lock ∈ t.rows.map (·.lock) := by
    apply Decidable.byContradiction
    intro hnot
    rw [row?_eq_none_iff.2 hnot] at h
    cases h
  rw [upsert, dif_pos hthere]
  cases hp : p (row.underKey r.lock) with
  | true =>
    refine Or.inl ⟨?_, rfl, fun k ↦ ?_⟩
    · refine List.countP_pos_iff.2 ⟨_, row?_eq_some_iff.1 h, ?_⟩
      rw [hp, Bool.and_true]
      exact beq_self_eq_true r.lock
    · rw [row?_replaced (g := fun old ↦
        if k = r.lock ∧ p (old.underKey k) = true then ⟨r.lease, r.expiresAt⟩ else old) rfl]
      · by_cases hk : k = r.lock
        · subst hk
          simp [h, hp]
        · simp [hk]
      · intro a
        dsimp only
        split
        · next ha => simp only [Bool.and_eq_true, beq_iff_eq] at ha; exact ha.1.symm
        · rfl
      · intro old
        by_cases hk : k = r.lock
        · subst hk
          simp only [Row.underKey, beq_self_eq_true, Bool.true_and, true_and]
          split <;> rfl
        · simp [hk, Row.underKey]
  | false =>
    have hcount : t.rows.countP (fun a ↦ a.lock == r.lock && p a) = 0 := by
      rw [List.countP_eq_zero]
      intro a ha hpa
      simp only [Bool.and_eq_true, beq_iff_eq] at hpa
      obtain ⟨hlock, hpa⟩ := hpa
      have hrow : t.row? r.lock = some ⟨a.lease, a.expiresAt⟩ := by
        rw [row?_eq_some_iff, ← hlock]
        exact ha
      obtain rfl : row = ⟨a.lease, a.expiresAt⟩ := Option.some.inj (h.symm.trans hrow)
      rw [← hlock] at hp
      exact absurd (hp.symm.trans hpa) (by simp)
    refine Or.inr ⟨hcount, rfl, ?_⟩
    have hrows : t.rows.map (fun a ↦ if (a.lock == r.lock && p a) = true then r else a) =
        t.rows := by
      refine (List.map_congr_left fun a ha ↦ ?_).trans (List.map_id _)
      rw [if_neg (List.countP_eq_zero.1 hcount a ha), id]
    obtain ⟨rows, hkeyed⟩ := t
    simp only [mk.injEq]
    exact hrows

/-- A statement that runs has run. -/
theorem withNumber_eq_ok_iff {α : Type} {n : Nat} {statement : Unit → α} {a : α} :
    withNumber n statement = .ok a ↔ n < signedBound ∧ statement () = a := by
  rw [withNumber]
  split <;> simp [*]

end LeaseTable

end LeaseLock
