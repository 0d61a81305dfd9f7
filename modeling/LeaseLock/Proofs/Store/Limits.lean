import LeaseLock.Proofs.Store.Answers

/-!
# When a store answers

Whether a call fails is settled before any row is looked at. A store that can be used takes the
numbers below its bound (`Store.numberBound`): a word of 64 bits, or a signed one if there are
statements in which a number has to fit. Then a key is extended exactly for its live owner
(`Store.extend_eq`), and a purge deletes and counts the rows that have expired (`Store.purge_eq`). A
store that is out of reach fails every call with the same fault.

The bound is that of the kind of store and not of the call. A call that makes no number, such as a
release, is served past it, and nothing here says that a number past the bound is refused.

## Where it is used

The conditions are those under which it can be said that an operation of a coordinator succeeds.
Statements about what happened if it did succeed need none of them, and rest on `Store.take_spec`
and its companions alone.
-/

namespace LeaseLock

namespace Store

variable {s s' t : Store} {now : Nat} {lock : LockName} {id : LeaseId} {ttl : Duration}
  {fault : StoreFault}

/-- The least number that is too large for a store. -/
def numberBound : Store → Nat
  | memory _ | bare _ => wordBound
  | table _ => signedBound

/-- Whatever the kind, the numbers are words. -/
theorem numberBound_le (s : Store) : s.numberBound ≤ wordBound := by
  cases s <;> simp [numberBound, wordBound, signedBound]

/-- Stores of one kind have one bound. -/
theorem numberBound_congr (h : s.emptied = t.emptied) : s.numberBound = t.numberBound := by
  cases s <;> cases t <;> first | rfl | cases h

/-- A store within reach does what it is asked to do with numbers that it can take. -/
theorem fault?_eq_none {c : StoreCall} (hping : s.ping = .ok ())
    (hfits : c.largest now < s.numberBound) : s.fault? now c = none := by
  have hreach : s.fault? now .ping = none := by
    rw [← faultOf_ping, hping]
    rfl
  cases s with
  | memory m => exact hreach
  | table t => exact fault?_table t hfits
  | bare m =>
    cases c with
    | purge => rfl
    | _ => exact hreach

/-- What has no fault has succeeded. -/
theorem exists_ok_of_faultOf {α : Type} {x : Except StoreFault α} (h : faultOf x = none) :
    ∃ a, x = .ok a := by
  cases x with
  | ok a => exact ⟨a, rfl⟩
  | error fault => cases h

/-- Whether a key is extended depends on its live owner. -/
theorem extend_eq (hping : s.ping = .ok ()) (hfits : now + ttl.keyMillis < s.numberBound) :
    (s.owner? now lock = some id ∧ ∃ s', s.extend now lock id ttl = .ok (true, s') ∧
      s.Sets s' lock (some ⟨id, now + ttl.keyMillis⟩)) ∨
    s.owner? now lock ≠ some id ∧ s.extend now lock id ttl = .ok (false, s) := by
  have hfault : faultOf (s.extend now lock id ttl) = none :=
    (faultOf_extend s now lock id ttl).trans (fault?_eq_none hping hfits)
  obtain ⟨⟨b, s'⟩, hextend⟩ := exists_ok_of_faultOf hfault
  have hspec := extend_spec hextend
  cases b with
  | true =>
    obtain ⟨⟨e, he⟩, hsets⟩ := hspec
    exact .inl ⟨by rw [owner?, he]; rfl, s', hextend, hsets⟩
  | false =>
    obtain ⟨rfl, hother⟩ := hspec
    refine .inr ⟨fun howner ↦ ?_, hextend⟩
    obtain ⟨row, hrow, hid⟩ := Option.map_eq_some_iff.1 howner
    exact hother row hrow hid

/-- A purge leaves the live rows and counts the other ones. -/
theorem purge_eq (hfull : s.isFull = true) (hping : s.ping = .ok ())
    (hfits : now < s.numberBound) :
    ∃ s', s.purge now = .ok (s.deadCount now, s') ∧ ∀ k, s'.row? k = s.live? now k := by
  have hfault : faultOf (s.purge now) = none :=
    (faultOf_purge s now).trans (fault?_eq_none hping hfits)
  obtain ⟨⟨n, s'⟩, hpurge⟩ := exists_ok_of_faultOf hfault
  obtain rfl := count_of_purge hfull hpurge
  exact ⟨s', hpurge, row?_purge_of_isFull hfull hpurge⟩

/-- The rows that have expired are counted, whatever the other ones are. -/
theorem deadCount_eq_of_dead (h : ∀ k row, row.isLive now = false →
    (s.row? k = some row ↔ t.row? k = some row)) : s.deadCount now = t.deadCount now := by
  rw [deadCount, deadCount, List.countP_eq_length_filter, List.countP_eq_length_filter]
  refine ((List.perm_ext_iff_of_nodup (s.nodup_listing.of_map.filter _)
    (t.nodup_listing.of_map.filter _)).2 ?_).length_eq
  rintro ⟨k, row⟩
  rw [List.mem_filter, List.mem_filter, mem_listing_iff, mem_listing_iff]
  refine and_congr_left fun hdead ↦ h k row ?_
  simpa using hdead

/-! ### Outages -/

/-- What has a fault has failed with it. -/
theorem eq_error_of_faultOf {α : Type} {x : Except StoreFault α} (h : faultOf x = some fault) :
    x = .error fault := by
  cases x with
  | ok a => cases h
  | error fault' =>
    cases h
    rfl

/-- A store that is out of reach extends nothing. -/
theorem extend_of_outage (hping : s.ping = .error fault) (now : Nat) (lock : LockName)
    (id : LeaseId) (ttl : Duration) : s.extend now lock id ttl = .error fault := by
  have hfault : s.fault? now .ping = some fault := by
    rw [← faultOf_ping, hping]
    rfl
  refine eq_error_of_faultOf ((faultOf_extend s now lock id ttl).trans ?_)
  cases s with
  | memory m | bare m => exact hfault
  | table t => cases hping

/-- A store that is out of reach purges nothing. -/
theorem purge_of_outage (hfull : s.isFull = true) (hping : s.ping = .error fault) (now : Nat) :
    s.purge now = .error fault := by
  have hfault : s.fault? now .ping = some fault := by
    rw [← faultOf_ping, hping]
    rfl
  refine eq_error_of_faultOf ((faultOf_purge s now).trans ?_)
  cases s with
  | memory m => exact hfault
  | table t => cases hping
  | bare m => cases hfull

end Store

end LeaseLock
