import LeaseLock.Proofs.Store.Answers

/-!
# One lock of a store

What becomes of a lock is settled by the row of the lock, by the kind of the store and by whether it
can be used. Stores that agree in these (`Store.SameAt`) answer every operation on the lock alike
and agree in them afterwards (`Store.SameAt.take` and the lemmas beside it), and an operation on
another lock changes none of them (`Store.sameAt_of_take` and the lemmas beside it).

Two extensions that differ in their lengths fail alike as long as both lengths fit a table or
neither does, so a lease that does not own the lock is turned away alike, whatever it asks for
(`Store.SameAt.extend_refused`).

## How answers are compared

Two answers are the same for a lock (`Store.SameResult`) if both are faults and the same, or if both
are successes with the same value and stores that agree in the lock. Whether there is a fault is
settled by the kind of the store and the numbers of the request, which is `Store.fault?`; what a
success says is settled by the row, which is what the inversions of `Store.take_spec` and its
companions have told. So each operation is compared in two steps, the fault and then the row
(`Store.sameResult_of_faultOf`), and no operation is opened again.

Purging is compared as well, although it has no lock. It treats the rows of all locks alike, so
stores that agree in a lock agree in it afterwards. How many rows it has purged is not compared,
because that depends on the other locks.
-/

namespace LeaseLock

namespace Store

variable {s s' t t' u : Store} {now : Nat} {lock lock' : LockName} {id : LeaseId}
  {ttl ttl' : Duration} {b : Bool} {row : Option Row}

/-- The stores are of one kind, can both be used or not, and have the same row under the lock. -/
structure SameAt (lock : LockName) (s t : Store) : Prop where
  /-- The stores are of one kind, and can both be used or not. -/
  emptied : s.emptied = t.emptied
  /-- The rows under the lock are the same. -/
  row? : s.row? lock = t.row? lock

theorem SameAt.refl (lock : LockName) (s : Store) : SameAt lock s s := ⟨rfl, rfl⟩

theorem SameAt.symm (h : SameAt lock s t) : SameAt lock t s := ⟨h.emptied.symm, h.row?.symm⟩

theorem SameAt.trans (h : SameAt lock s t) (h' : SameAt lock t u) : SameAt lock s u :=
  ⟨h.emptied.trans h'.emptied, h.row?.trans h'.row?⟩

/-- Stores that agree in a lock have the same live row of it. -/
theorem SameAt.live? (h : SameAt lock s t) (now : Nat) : s.live? now lock = t.live? now lock := by
  rw [Store.live?, h.row?, Store.live?]

/-! ### Operations on the lock -/

/-- Both results are the same failure, or the same answer with stores that agree in the lock. -/
inductive SameResult {α : Type} (lock : LockName) :
    Except StoreFault (α × Store) → Except StoreFault (α × Store) → Prop
  /-- Both operations fail in one way. -/
  | error (fault : StoreFault) : SameResult lock (.error fault) (.error fault)
  /-- Both operations give one answer. -/
  | ok (a : α) {s t : Store} (h : SameAt lock s t) : SameResult lock (.ok (a, s)) (.ok (a, t))

/-- Answers are the same that fail alike and succeed alike. -/
theorem sameResult_of_faultOf {α : Type} {x y : Except StoreFault (α × Store)}
    (hfault : faultOf x = faultOf y)
    (hok : ∀ a s b t, x = .ok (a, s) → y = .ok (b, t) → a = b ∧ SameAt lock s t) :
    SameResult lock x y := by
  cases x with
  | error fault =>
    cases y with
    | error fault' =>
      obtain rfl := Option.some.inj hfault
      exact .error fault
    | ok r => cases hfault
  | ok r =>
    cases y with
    | error fault => cases hfault
    | ok r' =>
      obtain ⟨a, s⟩ := r
      obtain ⟨b, t⟩ := r'
      obtain ⟨rfl, h⟩ := hok a s b t rfl rfl
      exact .ok a h

/-- A key is taken if and only if it is not live. -/
theorem Taken.decided (h : s.Taken s' now lock id ttl b) : b = (s.live? now lock).isNone := by
  cases b with
  | false =>
    obtain ⟨-, row, hrow⟩ := h
    rw [hrow]
    rfl
  | true =>
    rw [h.1]
    rfl

/-- The row of a key behind an attempt to take it. -/
theorem Taken.row?_self (h : s.Taken s' now lock id ttl b) :
    s'.row? lock = if b then some ⟨id, now + ttl.keyMillis⟩ else s.row? lock := by
  cases b with
  | false => exact congrArg (Store.row? lock) h.1
  | true => exact h.2.at_lock

/-- A key is changed if and only if it is live under the id. -/
theorem Changed.decided (h : s.Changed s' now lock id row b) :
    b = (s.live? now lock).any (·.lease == id) := by
  cases b with
  | false =>
    cases hlive : s.live? now lock with
    | none => rfl
    | some old =>
      rw [Option.any_some]
      exact (beq_eq_false_iff_ne.2 (h.2 old hlive)).symm
  | true =>
    obtain ⟨⟨e, he⟩, -⟩ := h
    rw [he, Option.any_some]
    exact (beq_self_eq_true id).symm

/-- The row of a key behind an attempt to change it. -/
theorem Changed.row?_self (h : s.Changed s' now lock id row b) :
    s'.row? lock = if b then row else s.row? lock := by
  cases b with
  | false => exact congrArg (Store.row? lock) h.1
  | true => exact h.2.at_lock

/-- Taking the key gives the same. -/
theorem SameAt.take (h : SameAt lock s t) (now : Nat) (id : LeaseId) (ttl : Duration) :
    SameResult lock (s.take now lock id ttl) (t.take now lock id ttl) := by
  refine sameResult_of_faultOf ?_ fun b s' b' t' hs ht ↦ ?_
  · rw [faultOf_take, faultOf_take, fault?_congr h.emptied]
  · have htaken := take_spec hs
    have htaken' := take_spec ht
    obtain rfl : b = b' := by
      rw [htaken.decided, htaken'.decided, h.live?]
    refine ⟨rfl, (emptied_take hs).trans (h.emptied.trans (emptied_take ht).symm), ?_⟩
    rw [htaken.row?_self, htaken'.row?_self, h.row?]

/-- An operation that needs the owner gives the same. -/
theorem SameAt.changed {x y : Except StoreFault (Bool × Store)} (h : SameAt lock s t)
    (hfault : faultOf x = faultOf y)
    (hs : ∀ b s', x = .ok (b, s') → s.Changed s' now lock id row b ∧ s'.emptied = s.emptied)
    (ht : ∀ b t', y = .ok (b, t') → t.Changed t' now lock id row b ∧ t'.emptied = t.emptied) :
    SameResult lock x y := by
  refine sameResult_of_faultOf hfault fun b s' b' t' hx hy ↦ ?_
  obtain ⟨hchanged, hkind⟩ := hs b s' hx
  obtain ⟨hchanged', hkind'⟩ := ht b' t' hy
  obtain rfl : b = b' := by
    rw [hchanged.decided, hchanged'.decided, h.live?]
  refine ⟨rfl, hkind.trans (h.emptied.trans hkind'.symm), ?_⟩
  rw [hchanged.row?_self, hchanged'.row?_self, h.row?]

/-- Freeing the key gives the same. -/
theorem SameAt.free (h : SameAt lock s t) (now : Nat) (id : LeaseId) :
    SameResult lock (s.free now lock id) (t.free now lock id) := by
  refine h.changed ?_ (fun _ _ hs ↦ ⟨free_spec hs, emptied_free hs⟩)
    fun _ _ ht ↦ ⟨free_spec ht, emptied_free ht⟩
  rw [faultOf_free, faultOf_free, fault?_congr h.emptied]

/-- Extending the key gives the same. -/
theorem SameAt.extend (h : SameAt lock s t) (now : Nat) (id : LeaseId) (ttl : Duration) :
    SameResult lock (s.extend now lock id ttl) (t.extend now lock id ttl) := by
  refine h.changed ?_ (fun _ _ hs ↦ ⟨extend_spec hs, emptied_extend hs⟩)
    fun _ _ ht ↦ ⟨extend_spec ht, emptied_extend ht⟩
  rw [faultOf_extend, faultOf_extend, fault?_congr h.emptied]

/-- Looking at the lock shows the same. -/
theorem SameAt.peek (h : SameAt lock s t) (now : Nat) : s.peek now lock = t.peek now lock := by
  rw [peek_eq, peek_eq, fault?_congr h.emptied, glimpse, glimpse, h.live?, isFull_congr h.emptied]

/-- A lease that does not own the lock is turned away alike, whatever length it asks for, as long as
both lengths fit a table or neither does. -/
theorem SameAt.extend_refused (h : SameAt lock s t)
    (hfits : now + ttl.keyMillis < signedBound ↔ now + ttl'.keyMillis < signedBound)
    (hnot : ∀ row, s.row? lock = some row → row.lease ≠ id) :
    (∃ fault, s.extend now lock id ttl = .error fault ∧
        t.extend now lock id ttl' = .error fault) ∨
      s.extend now lock id ttl = .ok (false, s) ∧ t.extend now lock id ttl' = .ok (false, t) := by
  have hfault : faultOf (s.extend now lock id ttl) = faultOf (t.extend now lock id ttl') := by
    rw [faultOf_extend, faultOf_extend, fault?_congr h.emptied]
    cases t with
    | memory m | bare m => rfl
    | table x => exact if_congr hfits rfl rfl
  have hrefused {u u' : Store} {ttl : Duration} {b : Bool} (h : SameAt lock s u)
      (hu : u.extend now lock id ttl = .ok (b, u')) : false = b ∧ u = u' := by
    have hchanged := extend_spec hu
    cases b with
    | false => exact ⟨rfl, hchanged.1.symm⟩
    | true =>
      obtain ⟨⟨e, he⟩, -⟩ := hchanged
      exact absurd rfl (hnot _ (h.row?.trans (live?_eq_some_iff.1 he).1))
  cases hs : s.extend now lock id ttl with
  | error fault =>
    cases ht : t.extend now lock id ttl' with
    | error fault' =>
      rw [hs, ht] at hfault
      obtain rfl := Option.some.inj hfault
      exact .inl ⟨fault, rfl, rfl⟩
    | ok r =>
      rw [hs, ht] at hfault
      cases hfault
  | ok r =>
    cases ht : t.extend now lock id ttl' with
    | error fault' =>
      rw [hs, ht] at hfault
      cases hfault
    | ok r' =>
      obtain ⟨b, s'⟩ := r
      obtain ⟨b', t'⟩ := r'
      obtain ⟨rfl, rfl⟩ := hrefused (.refl lock s) hs
      obtain ⟨rfl, rfl⟩ := hrefused h ht
      exact .inr ⟨rfl, rfl⟩

/-- Purging treats the rows of the lock alike. -/
theorem SameAt.purge (h : SameAt lock s t) (now : Nat) :
    SameAt lock (s.serve now .purge).2 (t.serve now .purge).2 := by
  have hfault : s.fault? now .purge = t.fault? now .purge := fault?_congr h.emptied
  have hfull := isFull_congr h.emptied
  refine ⟨?_, ?_⟩
  · rw [emptied_serve, emptied_serve, h.emptied]
  · rcases s.served now .purge with ⟨fault, hs, hserve⟩ | ⟨hs, hdone⟩
    · rcases t.served now .purge with ⟨fault', ht, hserve'⟩ | ⟨ht, -⟩
      · rw [hserve, hserve', h.row?]
      · rw [hfault, ht] at hs
        cases hs
    · rcases t.served now .purge with ⟨fault', ht, -⟩ | ⟨-, hdone'⟩
      · rw [← hfault, hs] at ht
        cases ht
      · generalize (s.serve now .purge).1 = a, (s.serve now .purge).2 = s' at hdone ⊢
        generalize (t.serve now .purge).1 = a', (t.serve now .purge).2 = t' at hdone' ⊢
        cases hdone with
        | purge hyes hrows =>
          cases hdone' with
          | purge _ hrows' => rw [hrows, hrows', h.live?]
          | keep hno =>
            rw [hfull, hno] at hyes
            cases hyes
        | keep hno =>
          cases hdone' with
          | purge hyes _ =>
            rw [← hfull, hno] at hyes
            cases hyes
          | keep _ => exact h.row?

/-! ### Operations on other locks -/

/-- Taking the key of another lock is not seen. -/
theorem sameAt_of_take (hne : lock ≠ lock') (hs : s.take now lock' id ttl = .ok (b, s')) :
    SameAt lock s s' := by
  refine ⟨(emptied_take hs).symm, ?_⟩
  have htaken := take_spec hs
  cases b with
  | false => rw [htaken.1]
  | true => exact (htaken.2.elsewhere hne).symm

/-- Changing the key of another lock is not seen. -/
theorem Changed.sameAt (hne : lock ≠ lock') (h : s.Changed s' now lock' id row b)
    (hkind : s'.emptied = s.emptied) : SameAt lock s s' := by
  refine ⟨hkind.symm, ?_⟩
  cases b with
  | false => rw [h.1]
  | true => exact (h.2.elsewhere hne).symm

/-- Freeing the key of another lock is not seen. -/
theorem sameAt_of_free (hne : lock ≠ lock') (hs : s.free now lock' id = .ok (b, s')) :
    SameAt lock s s' :=
  (free_spec hs).sameAt hne (emptied_free hs)

/-- Extending the key of another lock is not seen. -/
theorem sameAt_of_extend (hne : lock ≠ lock') (hs : s.extend now lock' id ttl = .ok (b, s')) :
    SameAt lock s s' :=
  (extend_spec hs).sameAt hne (emptied_extend hs)

end Store

end LeaseLock
