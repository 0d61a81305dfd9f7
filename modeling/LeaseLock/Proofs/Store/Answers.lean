import Mathlib.Data.List.Nodup
import LeaseLock.Proofs.Store.Reach

/-!
# Calls to a store and their answers

A call to a store (`StoreCall`) is made at an instant and has an answer (`StoreAnswer`). What a call
does (`Store.Done`) is settled by three things only: whether it fails, which does not depend on the
rows (`Store.fault?`), whether the interface tells times and purges (`Store.isFull`), and the rows.
That every kind of store serves every call so is `Store.served`.

The rows of a store in some order are its `Store.listing`. Two stores with the same row under every
lock have the same listing up to the order, so what is counted over it is the same.

## Why faults come first

The kinds of stores differ in when they fail: one fails when it is out of reach, another one when a
number does not fit into a statement. In both cases the rows have no say in it. So two stores of one
kind fail together whatever they hold, and where a call does not fail the kinds need not be told
apart any more. Theorems about two stores that hold the same go by these two steps.

An answer is compared as a whole, counts and remaining times included. A store that has fewer rows
because its expired ones were purged answers the same to everything but the next purge.
-/

namespace LeaseLock

/-- A call to a store. -/
inductive StoreCall where
  /-- Take the key for `id` unless it is live. -/
  | take (lock : LockName) (id : LeaseId) (ttl : Duration)
  /-- Delete the key if it is live and owned by `id`. -/
  | free (lock : LockName) (id : LeaseId)
  /-- Let the key expire `ttl` from now if it is live and owned by `id`. -/
  | extend (lock : LockName) (id : LeaseId) (ttl : Duration)
  /-- Look at the key. -/
  | peek (lock : LockName)
  /-- Ask whether the store can be used. -/
  | ping
  /-- Delete the keys that have expired. -/
  | purge
deriving DecidableEq, Repr

/-- The largest number in a call that is made at `now`: the expiry that it asks for, if it asks for
one, else the time. -/
def StoreCall.largest (now : Nat) : StoreCall → Nat
  | take _ _ ttl | extend _ _ ttl => now + ttl.keyMillis
  | free _ _ | peek _ | ping | purge => now

/-- The answer to a call to a store. -/
inductive StoreAnswer where
  /-- Whether the key was taken, deleted or extended. -/
  | decided (b : Bool)
  /-- What a look at the key shows. -/
  | seen (g : Glimpse)
  /-- The store can be used. -/
  | reached
  /-- How many keys were deleted. -/
  | purged (n : Nat)
  /-- The call failed. -/
  | failed (fault : StoreFault)
deriving DecidableEq, Repr

/-- How a result fails, if it does. -/
def faultOf {α : Type} : Except StoreFault α → Option StoreFault
  | .ok _ => none
  | .error fault => some fault

namespace MemoryStore

variable {m : MemoryStore} {now : Nat} {lock : LockName} {id : LeaseId} {ttl : Duration}

/-- How every operation fails, if it does. -/
def fault? (m : MemoryStore) : Option StoreFault := if m.available then none else some outage

/-- An operation that decides by the row of a lock fails if and only if the store is out of
reach. -/
theorem faultOf_decided {α : Type} {row? : Option Row} {p : Row → Prop} [DecidablePred p]
    {yes : Row → α} {no absent : α} :
    faultOf (if m.available then
      match row? with
      | some row => if p row then .ok (yes row) else .ok no
      | none => .ok absent
      else .error outage) = m.fault? := by
  rw [fault?]
  split
  · cases row? with
    | none => rfl
    | some row =>
      dsimp only
      split <;> rfl
  · rfl

/-- Out of reach the store in memory takes nothing, and with a fault. -/
theorem faultOf_take : faultOf (m.take now lock id ttl) = m.fault? := faultOf_decided

theorem faultOf_free : faultOf (m.free now lock id) = m.fault? := faultOf_decided

theorem faultOf_extend : faultOf (m.extend now lock id ttl) = m.fault? := faultOf_decided

theorem faultOf_ping : faultOf m.ping = m.fault? := by
  rw [ping, fault?]
  split <;> rfl

theorem faultOf_purge : faultOf (m.purge now) = m.fault? := by
  rw [purge, fault?]
  split <;> rfl

/-- A look shows the live row, with the time that is left. -/
theorem peek_eq : m.peek now lock = if m.available then
    .ok (match (m.rows.get? lock).filter (·.isLive now) with
      | some row => ⟨some row.lease, some (.ofMillis (row.expiresAt - now))⟩
      | none => {})
    else .error outage := by
  rw [peek]
  congr 1
  cases m.rows.get? lock with
  | none => rfl
  | some row =>
    rw [Option.filter_some]
    dsimp only
    split <;> rfl

end MemoryStore

namespace LeaseTable

/-- How a statement fails whose largest number is `n`, if it does. -/
def fault? (n : Nat) : Option StoreFault := if n < signedBound then none else some tooLarge

/-- A statement with a number fails exactly if the number does not fit. -/
theorem faultOf_withNumber {α : Type} {n : Nat} {statement : Unit → α} :
    faultOf (withNumber n statement) = fault? n := by
  rw [withNumber, fault?]
  split <;> rfl

end LeaseTable

namespace Store

/-! ### Calls in sequence -/

/-- The answer that a result makes, with the store behind it; a failure leaves the store as it
was. -/
def conclude {α : Type} (s : Store) (wrap : α → StoreAnswer) :
    Except StoreFault (α × Store) → StoreAnswer × Store
  | .ok (a, s') => (wrap a, s')
  | .error fault => (.failed fault, s)

/-- The answer to a call at `now`, with the store behind it. -/
def serve (s : Store) (now : Nat) : StoreCall → StoreAnswer × Store
  | .take lock id ttl => s.conclude .decided (s.take now lock id ttl)
  | .free lock id => s.conclude .decided (s.free now lock id)
  | .extend lock id ttl => s.conclude .decided (s.extend now lock id ttl)
  | .peek lock => s.conclude .seen ((s.peek now lock).map (·, s))
  | .ping => s.conclude (fun () ↦ .reached) (s.ping.map (·, s))
  | .purge => s.conclude .purged (s.purge now)

/-- The answers to calls, each made at its time. -/
def answers (s : Store) : List (Nat × StoreCall) → List StoreAnswer
  | [] => []
  | (now, c) :: calls => (s.serve now c).1 :: (s.serve now c).2.answers calls

/-- The store behind calls, each made at its time. -/
def after (s : Store) (calls : List (Nat × StoreCall)) : Store :=
  calls.foldl (fun s (now, c) ↦ (s.serve now c).2) s

variable {s s' t : Store} {now : Nat} {lock : LockName} {id : LeaseId} {ttl : Duration} {b : Bool}
  {c : StoreCall} {a : StoreAnswer}

theorem answers_append (s : Store) (past later : List (Nat × StoreCall)) :
    s.answers (past ++ later) = s.answers past ++ (s.after past).answers later := by
  induction past generalizing s with
  | nil => rfl
  | cons call past ih => exact congrArg (_ :: ·) (ih (s.serve call.1 call.2).2)

theorem length_answers (s : Store) (calls : List (Nat × StoreCall)) :
    (s.answers calls).length = calls.length := by
  induction calls generalizing s with
  | nil => rfl
  | cons call calls ih => exact congrArg (· + 1) (ih (s.serve call.1 call.2).2)

/-- What is put back is of the kind that the operation leaves. -/
theorem emptied_conclude {α : Type} {wrap : α → StoreAnswer} {x : Except StoreFault (α × Store)}
    (h : ∀ r, x = .ok r → r.2.emptied = s.emptied) : (s.conclude wrap x).2.emptied = s.emptied := by
  cases x with
  | error _ => rfl
  | ok r => exact h r rfl

/-- No call changes the kind of a store or whether it can be used. -/
theorem emptied_serve (s : Store) (now : Nat) (c : StoreCall) :
    (s.serve now c).2.emptied = s.emptied := by
  cases c with
  | take lock id ttl => exact emptied_conclude fun _ ↦ emptied_take
  | free lock id => exact emptied_conclude fun _ ↦ emptied_free
  | extend lock id ttl => exact emptied_conclude fun _ ↦ emptied_extend
  | peek lock =>
    refine emptied_conclude fun r hr ↦ ?_
    cases hpeek : s.peek now lock <;> rw [hpeek] at hr <;> cases hr
    rfl
  | ping =>
    refine emptied_conclude fun r hr ↦ ?_
    cases hping : s.ping <;> rw [hping] at hr <;> cases hr
    rfl
  | purge => exact emptied_conclude fun _ ↦ emptied_purge

/-! ### What settles an answer -/

/-- How a call at `now` fails, if it does. -/
def fault? (now : Nat) (c : StoreCall) : Store → Option StoreFault
  | memory m => m.fault?
  | table _ =>
    match c with
    | .ping => none
    | c => LeaseTable.fault? (c.largest now)
  | bare m =>
    match c with
    | .purge => none
    | _ => m.fault?

/-- What a look at a key shows if it does not fail. -/
def glimpse (s : Store) (now : Nat) (lock : LockName) : Glimpse :=
  match s.live? now lock with
  | some row => ⟨some row.lease, if s.isFull then some (.ofMillis (row.expiresAt - now)) else none⟩
  | none => {}

/-- The rows by lock, in some order. -/
def listing : Store → List (LockName × Row)
  | memory m | bare m => m.rows.entries
  | table t => t.rows.map fun r ↦ (r.lock, ⟨r.lease, r.expiresAt⟩)

/-- How many rows have expired at `now`. -/
def deadCount (s : Store) (now : Nat) : Nat := s.listing.countP fun e ↦ !e.2.isLive now

/-- The interface does not depend on the rows. -/
theorem isFull_emptied (s : Store) : s.emptied.isFull = s.isFull := by
  cases s <;> rfl

/-- Nor do the faults. -/
theorem fault?_emptied (s : Store) (now : Nat) (c : StoreCall) :
    s.emptied.fault? now c = s.fault? now c := by
  cases s <;> rfl

/-- What becomes of a call before any row is looked at depends only on the kind of the store and on
whether it can be used. -/
theorem fault?_congr (h : s.emptied = t.emptied) : s.fault? now c = t.fault? now c := by
  rw [← fault?_emptied, h, fault?_emptied]

theorem isFull_congr (h : s.emptied = t.emptied) : s.isFull = t.isFull := by
  rw [← isFull_emptied, h, isFull_emptied]

/-- A table takes every number below the bound. -/
theorem fault?_table (x : LeaseTable) (hfits : c.largest now < signedBound) :
    (table x).fault? now c = none := by
  cases c with
  | ping => rfl
  | take _ _ _ | free _ _ | extend _ _ _ | peek _ | purge => exact if_pos hfits

/-- The listing holds the row of every lock. -/
theorem mem_listing_iff {row : Row} : (lock, row) ∈ s.listing ↔ s.row? lock = some row := by
  cases s with
  | memory m | bare m => exact Dict.get?_eq_some_iff.symm
  | table t =>
    rw [listing, List.mem_map, row?, LeaseTable.row?_eq_some_iff]
    constructor
    · rintro ⟨r, hr, heq⟩
      obtain ⟨rfl, rfl⟩ := Prod.mk.inj heq
      exact hr
    · exact fun h ↦ ⟨_, h, rfl⟩

/-- No lock is listed twice. -/
theorem nodup_listing (s : Store) : (s.listing.map (·.1)).Nodup := by
  cases s with
  | memory m | bare m =>
    refine List.pairwise_map.2 (m.rows.ordered.imp fun {a b} hlt heq ↦ ?_)
    exact String.lt_irrefl b.1 (heq ▸ hlt)
  | table t =>
    rw [listing, List.map_map]
    exact t.keyed

/-- Stores with the same rows list the same rows. -/
theorem perm_listing (h : ∀ k, s.row? k = t.row? k) : s.listing.Perm t.listing := by
  refine (List.perm_ext_iff_of_nodup s.nodup_listing.of_map t.nodup_listing.of_map).2 ?_
  rintro ⟨k, row⟩
  rw [mem_listing_iff, mem_listing_iff, h k]

/-- Stores with the same rows have as many expired ones. -/
theorem deadCount_congr (h : ∀ k, s.row? k = t.row? k) : s.deadCount now = t.deadCount now :=
  (perm_listing h).countP_eq _

/-! ### What a call does -/

/-- What a call at `now` that does not fail answers and leaves. -/
inductive Done (s : Store) (now : Nat) : StoreCall → StoreAnswer → Store → Prop
  /-- The key is taken, or it is live and stays. -/
  | take {lock : LockName} {id : LeaseId} {ttl : Duration} {b : Bool} {s' : Store}
      (hs : s.Taken s' now lock id ttl b) : Done s now (.take lock id ttl) (.decided b) s'
  /-- The key is deleted, or it is not live under `id`. -/
  | free {lock : LockName} {id : LeaseId} {b : Bool} {s' : Store}
      (hs : s.Changed s' now lock id none b) : Done s now (.free lock id) (.decided b) s'
  /-- The key is extended, or it is not live under `id`. -/
  | extend {lock : LockName} {id : LeaseId} {ttl : Duration} {b : Bool} {s' : Store}
      (hs : s.Changed s' now lock id (some ⟨id, now + ttl.keyMillis⟩) b) :
      Done s now (.extend lock id ttl) (.decided b) s'
  /-- A look shows the live row. -/
  | peek {lock : LockName} : Done s now (.peek lock) (.seen (s.glimpse now lock)) s
  /-- The store can be used. -/
  | ping : Done s now .ping .reached s
  /-- The rows that have expired are deleted and counted. -/
  | purge {s' : Store} (hfull : s.isFull = true) (hs : ∀ k, s'.row? k = s.live? now k) :
      Done s now .purge (.purged (s.deadCount now)) s'
  /-- There is nothing to purge by. -/
  | keep (hfull : s.isFull = false) : Done s now .purge (.purged 0) s

/-- A call at `now` fails and leaves the store as it was, or it is done. -/
def Served (s : Store) (now : Nat) (c : StoreCall) (r : StoreAnswer × Store) : Prop :=
  (∃ fault, s.fault? now c = some fault ∧ r = (.failed fault, s)) ∨
    s.fault? now c = none ∧ s.Done now c r.1 r.2

/-- A result that fails when the call fails, and otherwise is what the call does. -/
theorem served_conclude {α : Type} {wrap : α → StoreAnswer} {x : Except StoreFault (α × Store)}
    (hfault : faultOf x = s.fault? now c)
    (hdone : ∀ a s', x = .ok (a, s') → s.Done now c (wrap a) s') :
    s.Served now c (s.conclude wrap x) := by
  cases x with
  | error fault => exact .inl ⟨fault, hfault.symm, rfl⟩
  | ok r => exact .inr ⟨hfault.symm, hdone r.1 r.2 rfl⟩

/-- The kind of a store has no say in whether an operation has failed. -/
theorem faultOf_lift {σ α : Type} (wrap : σ → Store) (x : Except StoreFault (α × σ)) :
    faultOf (lift wrap x) = faultOf x := by
  cases x <;> rfl

/-- Whether a take fails does not depend on the rows. -/
theorem faultOf_take (s : Store) (now : Nat) (lock : LockName) (id : LeaseId) (ttl : Duration) :
    faultOf (s.take now lock id ttl) = s.fault? now (.take lock id ttl) := by
  cases s with
  | memory m | bare m => exact (faultOf_lift _ _).trans MemoryStore.faultOf_take
  | table t => exact (faultOf_lift _ _).trans LeaseTable.faultOf_withNumber

theorem faultOf_free (s : Store) (now : Nat) (lock : LockName) (id : LeaseId) :
    faultOf (s.free now lock id) = s.fault? now (.free lock id) := by
  cases s with
  | memory m | bare m => exact (faultOf_lift _ _).trans MemoryStore.faultOf_free
  | table t => exact (faultOf_lift _ _).trans LeaseTable.faultOf_withNumber

theorem faultOf_extend (s : Store) (now : Nat) (lock : LockName) (id : LeaseId) (ttl : Duration) :
    faultOf (s.extend now lock id ttl) = s.fault? now (.extend lock id ttl) := by
  cases s with
  | memory m | bare m => exact (faultOf_lift _ _).trans MemoryStore.faultOf_extend
  | table t => exact (faultOf_lift _ _).trans LeaseTable.faultOf_withNumber

theorem faultOf_ping (s : Store) (now : Nat) : faultOf s.ping = s.fault? now .ping := by
  cases s with
  | memory m | bare m => exact MemoryStore.faultOf_ping
  | table t => rfl

theorem faultOf_purge (s : Store) (now : Nat) : faultOf (s.purge now) = s.fault? now .purge := by
  cases s with
  | memory m => exact (faultOf_lift _ _).trans MemoryStore.faultOf_purge
  | table t => exact (faultOf_lift _ _).trans LeaseTable.faultOf_withNumber
  | bare m => rfl

/-- The live row of a lock in a table, found by the statement that looks for it. -/
theorem select_live (t : LeaseTable) (now : Nat) (lock : LockName) :
    (t.select fun r ↦ r.lock == lock && decide (now < r.expiresAt)).map
      (fun r ↦ (⟨r.lease, r.expiresAt⟩ : Row)) = (table t).live? now lock := by
  cases hlive : (table t).live? now lock with
  | some row =>
    obtain ⟨hrow, hlt⟩ := live?_eq_some_iff.1 hlive
    cases hfound : t.select fun r ↦ r.lock == lock && decide (now < r.expiresAt) with
    | some r =>
      have hp := List.find?_some hfound
      simp only [Bool.and_eq_true, beq_iff_eq, decide_eq_true_eq] at hp
      obtain ⟨rfl, -⟩ := hp
      have hr : (table t).row? r.lock = some ⟨r.lease, r.expiresAt⟩ :=
        LeaseTable.row?_eq_some_iff.2 (List.mem_of_find?_eq_some hfound)
      exact hr.symm.trans hrow
    | none =>
      have hnot := List.find?_eq_none.1 hfound _ (LeaseTable.row?_eq_some_iff.1 hrow)
      simp [hlt] at hnot
  | none =>
    rw [Option.map_eq_none_iff, LeaseTable.select, List.find?_eq_none]
    intro r hr hp
    simp only [Bool.and_eq_true, beq_iff_eq, decide_eq_true_eq] at hp
    obtain ⟨rfl, hlt⟩ := hp
    have hdead := live?_eq_none_iff.1 hlive ⟨r.lease, r.expiresAt⟩
      (LeaseTable.row?_eq_some_iff.2 hr)
    exact absurd hlt (Nat.not_lt.2 hdead)

/-- A look fails or shows the live row. -/
theorem peek_eq : s.peek now lock =
    match s.fault? now (.peek lock) with
    | some fault => .error fault
    | none => .ok (s.glimpse now lock) := by
  cases s with
  | memory m =>
    show m.peek now lock = match m.fault? with | some fault => _ | none => _
    rw [MemoryStore.peek_eq, MemoryStore.fault?]
    split <;> rfl
  | table t =>
    show t.peek now lock = match LeaseTable.fault? now with | some fault => _ | none => _
    rw [LeaseTable.peek, LeaseTable.withNumber, LeaseTable.fault?, glimpse, ← select_live]
    split
    · cases t.select fun r ↦ r.lock == lock && decide (now < r.expiresAt) <;> rfl
    · rfl
  | bare m =>
    show (m.peek now lock).map _ = match m.fault? with | some fault => _ | none => _
    rw [MemoryStore.peek_eq, MemoryStore.fault?, glimpse,
      show (bare m).live? now lock = (m.rows.get? lock).filter (·.isLive now) from rfl]
    split
    · cases (m.rows.get? lock).filter (·.isLive now) <;> rfl
    · rfl

/-- Purging, where there is something to purge by, counts the rows that have expired. -/
theorem count_of_purge {n : Nat} (hfull : s.isFull = true) (h : s.purge now = .ok (n, s')) :
    n = s.deadCount now := by
  cases s with
  | memory m =>
    obtain ⟨m', hm, -⟩ := lift_eq_ok_iff.1 h
    rw [MemoryStore.purge] at hm
    split at hm
    · cases hm
      have hall := m.rows.entries.length_eq_countP_add_countP fun e ↦ e.2.isLive now
      have hkept : (m.rows.filter fun _ row ↦ row.isLive now).size =
          m.rows.entries.countP fun e ↦ e.2.isLive now := List.countP_eq_length_filter.symm
      rw [hkept, Dict.size, hall, Nat.add_sub_cancel_left, deadCount, listing]
      simp only [decide_not, Bool.decide_eq_true]
    · cases hm
  | table t =>
    obtain ⟨t', ht, -⟩ := lift_eq_ok_iff.1 h
    obtain ⟨-, ht⟩ := LeaseTable.withNumber_eq_ok_iff.1 ht
    obtain rfl : t.rows.countP (fun r ↦ decide (r.expiresAt ≤ now)) = n := congrArg Prod.fst ht
    rw [deadCount, listing, List.countP_map]
    refine List.countP_congr fun r _ ↦ ?_
    simp [Row.isLive]
  | bare m => cases hfull

/-- Purging, where there is something to purge by or not. -/
theorem done_purge {n : Nat} (h : s.purge now = .ok (n, s')) :
    s.Done now .purge (.purged n) s' := by
  cases hfull : s.isFull with
  | true =>
    obtain rfl := count_of_purge hfull h
    exact .purge hfull (row?_purge_of_isFull hfull h)
  | false =>
    cases s with
    | memory m | table t => cases hfull
    | bare m =>
      cases h
      exact .keep rfl

/-- Every call is served. -/
theorem served (s : Store) (now : Nat) (c : StoreCall) : s.Served now c (s.serve now c) := by
  cases c with
  | take lock id ttl =>
    exact served_conclude (faultOf_take s now lock id ttl) fun _ _ h ↦ .take (take_spec h)
  | free lock id =>
    exact served_conclude (faultOf_free s now lock id) fun _ _ h ↦ .free (free_spec h)
  | extend lock id ttl =>
    exact served_conclude (faultOf_extend s now lock id ttl) fun _ _ h ↦ .extend (extend_spec h)
  | peek lock =>
    rw [serve, peek_eq]
    cases hfault : s.fault? now (.peek lock) with
    | some fault => exact .inl ⟨fault, hfault, rfl⟩
    | none => exact .inr ⟨hfault, .peek⟩
  | ping =>
    have hfault := faultOf_ping s now
    rw [serve]
    cases hping : s.ping with
    | error fault => exact .inl ⟨fault, by rw [← hfault, hping]; rfl, rfl⟩
    | ok u => exact .inr ⟨by rw [← hfault, hping]; rfl, .ping⟩
  | purge => exact served_conclude (faultOf_purge s now) fun _ _ h ↦ done_purge h

end Store

end LeaseLock
