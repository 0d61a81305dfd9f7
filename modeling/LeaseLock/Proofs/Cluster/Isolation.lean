import Mathlib.Algebra.Group.Nat.Defs
import Mathlib.Data.List.Infix
import LeaseLock.Proofs.Cluster.Answers
import LeaseLock.Proofs.Cluster.Strays
import LeaseLock.Proofs.Coordinator.OneLock

/-!
# Locks are isolated

**What is done to one lock is not seen at another.** Take any run from a start in which every
request has its own id, and delete from it whatever is addressed to other locks than `lock`: the
requests, with all that becomes of their acquisitions, the releases and the renewals. Then whatever
is asked about `lock` has the same answers at the same times (`Cluster.log_isolated`). That includes
releases and renewals of `lock` which present the ids of leases for other locks.

Only the clock notices what is deleted. If a deleted call took time, that time passes without it,
and a pass of upkeep renews the lease for the lock when its turn was (`Cluster.isolated`). If no
time passes within calls, the calls that remain are left as they were.

The two runs are compared step by step. Behind each step the clusters agree in the lock
(`Cluster.PartAt`): the stores have the same row for it, and each coordinator of the one knows the
leases that its counterpart has for the lock, and no others. A call that is deleted leaves the lock
alone (`Cluster.PartAt.skip`), and a call that remains does the same in both runs
(`Cluster.PartAt.keep`).

Coordinators look up leases by id only. That no lookup leads from one lock to another is due to the
store, which has a row under the lock that the id was granted for and nowhere else
(`Cluster.Orderly.lock_of_row`).

## What is addressed to a lock

A try and the end of a wait are addressed to the lock of their request. They say the id only, so
which lock that is has to be looked up among the requests of the run (`Query.lock?`), and every id
has to be asked with once. Calls that are addressed to no lock, such as passes of upkeep, purges and
outages, stay in both runs. Their answers are about all locks and are not compared.
-/

namespace LeaseLock

/-! ### What queries are addressed to -/

namespace Query

variable {ι : Type} {q : Query ι} {asked : List (LeaseId × LockName)} {lock : LockName}

/-- The id and the lock that are asked for, if the query is a request. -/
def asks? : Query ι → Option (LeaseId × LockName)
  | .call (.acquire _ id request _) => some (id, request.lock)
  | _ => none

/-- The lock that a query is addressed to. An acquisition that tries again or is given up is
addressed to the lock with which its id was asked for. -/
def lock? (asked : List (LeaseId × LockName)) : Query ι → Option LockName
  | .call (.acquire _ _ request _) => some request.lock
  | .call (.poll id _) | .call (.cancel id) => asked.lookup id
  | .call (.release _ lock _ _) | .call (.renew _ lock _ _ _) | .call (.status _ lock _) =>
    some lock
  | _ => none

/-- Whether a query is addressed to the lock. -/
def concerns (asked : List (LeaseId × LockName)) (lock : LockName) (q : Query ι) : Bool :=
  q.lock? asked == some lock

/-- Whether a query remains when everything is deleted that is addressed to other locks, except for
looking at them. -/
def remains (asked : List (LeaseId × LockName)) (lock : LockName) : Query ι → Bool
  | .call (.status _ _ _) => true
  | q => (q.lock? asked).all (· == lock)

/-- What is asked about the lock is not deleted. -/
theorem remains_of_concerns (h : q.concerns asked lock = true) : q.remains asked lock = true := by
  rw [concerns, beq_iff_eq] at h
  unfold remains
  split
  · rfl
  · rw [h, Option.all_some, beq_self_eq_true]

end Query

/-- What was asked for under an id, if no id is asked for twice. -/
theorem lookup_eq_some_of_mem {asked : List (LeaseId × LockName)} {id : LeaseId} {lock : LockName}
    (hnodup : (asked.map (·.1)).Nodup) (hmem : (id, lock) ∈ asked) :
    asked.lookup id = some lock := by
  induction asked with
  | nil => cases hmem
  | cons a asked ih =>
    rw [List.map_cons, List.nodup_cons] at hnodup
    rw [List.lookup_cons]
    rcases List.mem_cons.1 hmem with rfl | hmem
    · rw [beq_self_eq_true]
    · have hne : id ≠ a.1 := by
        rintro rfl
        exact hnodup.1 (List.mem_map.2 ⟨(a.1, lock), hmem, rfl⟩)
      rw [beq_eq_false_iff_ne.2 hne]
      exact ih hnodup.2 hmem

/-! ### Stores out of reach -/

namespace Store

variable {s t : Store} {lock : LockName} {row : Row}

/-- Stores that agree in the lock agree in it during an outage. -/
theorem SameAt.outOfReach (h : SameAt lock s t) : SameAt lock s.outOfReach t.outOfReach := by
  obtain ⟨hkind, hrow⟩ := h
  cases s with
  | memory m =>
    cases t with
    | memory m' => exact ⟨rfl, hrow⟩
    | table | bare => cases hkind
  | table x =>
    cases t with
    | table x' => exact ⟨rfl, rfl⟩
    | memory | bare => cases hkind
  | bare m =>
    cases t with
    | bare m' => exact ⟨rfl, hrow⟩
    | memory | table => cases hkind

theorem row?_of_outOfReach (h : s.outOfReach.row? lock = some row) : s.row? lock = some row := by
  cases s with
  | memory m | bare m => exact h
  | table x => cases h

end Store

namespace Coordinator

variable {c : Coordinator} {s : Store} {now tick : Nat} {id : LeaseId} {request : LockRequest}
  {p q : Pending} {lag : Nat}

/-- An acquisition waits for the lock that was asked for. -/
theorem request_of_acquire (h : (c.acquire s now tick id request lag).answer.pending? = some p) :
    p.request = request := by
  obtain ⟨fault, ho⟩ | ⟨s', -, ho⟩ | ⟨wake, ho⟩ | ⟨fault, ho⟩ :=
    c.acquire_cases s now tick id request lag
  all_goals
    rw [ho] at h
    cases h
  rfl

/-- An acquisition that goes on waiting waits for the same lock. -/
theorem request_of_poll (h : (c.poll s now tick p lag).answer.pending? = some q) :
    q.request = p.request := by
  obtain ⟨wake, ho⟩ | ⟨fault, ho⟩ | ⟨s', -, ho⟩ := c.poll_cases s now tick p lag
  all_goals
    rw [ho] at h
    cases h
  rfl

end Coordinator

namespace Cluster

variable {ι : Type} [DecidableEq ι] {f g : Cluster ι} {q : Query ι} {id : LeaseId} {i : ι}
  {lock : LockName} {l : Lease} {asked : List (LeaseId × LockName)}

/-! ### Two runs side by side -/

/-- The cluster `g` is the cluster `f` as far as the lock is concerned, and nothing else. -/
structure PartAt (lock : LockName) (f g : Cluster ι) : Prop where
  /-- The stores agree in the lock. -/
  store : f.store.SameAt lock g.store
  /-- The coordinators know the same leases for the lock, and those of `g` no others. -/
  member : ∀ i, (f.member i).PartAt lock (g.member i)
  /-- The same acquisitions wait for the lock, and in `g` no others. -/
  pending : ∀ id, g.pending id = (f.pending id).filter fun r ↦ r.2.request.lock == lock
  /-- No other ids have been issued. -/
  issued : ∀ id ∈ g.issued, id ∈ f.issued
  /-- The store is out of reach in both, or in neither. -/
  outage : g.outage = f.outage
  /-- The times are the same. -/
  now : g.now = f.now
  /-- The ticks are the same. -/
  tick : g.tick = f.tick

omit [DecidableEq ι] in
/-- At the start a cluster agrees with itself. -/
theorem IsStart.partAt (hstart : f.IsStart) (lock : LockName) : PartAt lock f f where
  store := .refl lock f.store
  member i := ⟨rfl, rfl, Registry.partAt_empty lock (by rw [hstart.registry i])
    (by rw [hstart.registry i])⟩
  pending id := by
    rw [hstart.pending id]
    rfl
  issued _ hid := hid
  outage := rfl
  now := rfl
  tick := rfl

omit [DecidableEq ι] in
theorem PartAt.reach (h : PartAt lock f g) : f.reach.SameAt lock g.reach := by
  rw [Cluster.reach, Cluster.reach, h.outage]
  split
  · exact h.store.outOfReach
  · exact h.store

omit [DecidableEq ι] in
theorem PartAt.pass (h : PartAt lock f g) (millis ticks : Nat) :
    PartAt lock (f.pass millis ticks) (g.pass millis ticks) :=
  { h with
    now := congrArg (· + millis) h.now
    tick := congrArg (· + ticks) h.tick }

omit [DecidableEq ι] in
/-- A lease that has a row within reach is known for the lock of the row, if it is known. -/
theorem Orderly.lock_of_reach {e : Nat} (ho : f.Orderly) (hrow : f.reach.row? lock = some ⟨id, e⟩)
    (hl : (f.member i).registry.lease? id = some l) : l.lock = lock := by
  refine ho.lock_of_row (e := e) ?_ hl
  rw [Cluster.reach] at hrow
  split at hrow
  · exact Store.row?_of_outOfReach hrow
  · exact hrow

/-! ### Deleted calls -/

/-- An operation that leaves the lock alone. -/
theorem PartAt.put_left {α : Type} (h : PartAt lock f g) {o : Outcome α}
    (ho : o.LeavesAlone lock f.reach (f.member i)) : PartAt lock (f.put i o) g :=
  { h with
    store := by
      show Store.SameAt lock (if f.outage then f.store else o.store) g.store
      cases hout : f.outage with
      | true => exact h.store
      | false =>
        have hstore := ho.store
        rw [reach_of_outage hout] at hstore
        exact hstore.symm.trans h.store
    member := by
      intro j
      show ((f.enter i o.coordinator).member j).PartAt lock (g.member j)
      rw [member_enter]
      split
      · next hj =>
        subst hj
        exact ⟨(h.member j).config.trans ho.config.symm, (h.member j).timing.trans ho.timing.symm,
          (h.member j).registry.of_left ho.ofLock⟩
      · exact h.member j }

omit [DecidableEq ι] in
/-- A step of an acquisition for another lock. -/
theorem PartAt.await_left (h : PartAt lock f g) {r : Option (ι × Pending)}
    (hbefore : ∀ i p, f.pending id = some (i, p) → p.request.lock ≠ lock)
    (hbehind : ∀ i p, r = some (i, p) → p.request.lock ≠ lock) : PartAt lock (f.await id r) g :=
  { h with
    pending := by
      have hnone {r : Option (ι × Pending)} (hr : ∀ i p, r = some (i, p) → p.request.lock ≠ lock) :
          r.filter (fun r ↦ r.2.request.lock == lock) = none := by
        refine Option.filter_eq_none_iff.2 fun r' hr' ↦ ?_
        rw [beq_iff_eq]
        exact hr r'.1 r'.2 hr'
      intro k
      rw [pending_await, h.pending k]
      split
      · next hk => rw [hk, hnone hbefore, hnone hbehind]
      · rfl }

omit [DecidableEq ι] in
theorem PartAt.issue_left (h : PartAt lock f g) (id : LeaseId) : PartAt lock (f.issue id) g :=
  { h with issued := fun k hk ↦ List.mem_cons_of_mem id (h.issued k hk) }

/-- A request for another lock. -/
theorem PartAt.skip_acquire (h : PartAt lock f g) (ho : f.Orderly) (i : ι) {request : LockRequest}
    (hne : request.lock ≠ lock) (hfresh : id ∉ f.issued) (lag : Nat) :
    PartAt lock (f.turn (.call (.acquire i id request lag))) (g.pass lag lag) := by
  rw [turn, serve, if_neg hfresh]
  refine PartAt.pass ?_ lag lag
  refine ((h.issue_left id).put_left (Coordinator.leavesAlone_acquire (ho.tidy i).keyed
    (ho.lease?_eq_none i (.inl hfresh)) hne)).await_left (fun j p hp ↦ ?_) fun j p hp ↦ ?_
  · exact absurd (ho.wellFormed.pending id j p hp).2 hfresh
  · obtain ⟨p', hp', heq⟩ := Option.map_eq_some_iff.1 hp
    cases heq
    rwa [Coordinator.request_of_acquire hp']

/-- An acquisition that waits for another lock tries again. -/
theorem PartAt.skip_poll (h : PartAt lock f g) (ho : f.Orderly)
    (hother : ∀ i p, f.pending id = some (i, p) → p.request.lock ≠ lock) (lag : Nat) :
    PartAt lock (f.turn (.call (.poll id lag))) (g.pass lag lag) := by
  rw [turn, serve]
  cases hp : f.pending id with
  | none => exact h.pass lag lag
  | some r =>
    obtain ⟨i, p⟩ := r
    have hne := hother i p hp
    obtain ⟨rfl, -⟩ := ho.wellFormed.pending id i p hp
    have hwaits : f.pending p.id ≠ none := by
      rw [hp]
      exact Option.some_ne_none _
    refine PartAt.pass ?_ lag lag
    refine (h.put_left (Coordinator.leavesAlone_poll (ho.tidy i).keyed
      (ho.lease?_eq_none i (.inr hwaits)) hne)).await_left hother fun j p' hp' ↦ ?_
    obtain ⟨p'', hp'', heq⟩ := Option.map_eq_some_iff.1 hp'
    cases heq
    rwa [Coordinator.request_of_poll hp'']

/-- An acquisition that waits for another lock is given up. -/
theorem PartAt.skip_cancel (h : PartAt lock f g)
    (hother : ∀ i p, f.pending id = some (i, p) → p.request.lock ≠ lock) :
    PartAt lock (f.turn (.call (.cancel id))) g := by
  rw [turn, serve]
  cases hp : f.pending id with
  | none => exact h
  | some r =>
    obtain ⟨i, p⟩ := r
    have hleft : PartAt lock (f.put i ⟨(), f.reach, (f.member i).cancel p⟩) g :=
      h.put_left ⟨.refl lock f.reach, rfl, rfl, fun _ ↦ rfl⟩
    rw [put_reach] at hleft
    exact hleft.await_left hother fun _ _ hp' ↦ (by cases hp')

/-- A call that is deleted leaves the lock alone. -/
theorem PartAt.skip (h : PartAt lock f g) (ho : f.Orderly) (hq : q.remains asked lock = false)
    (hasked : ∀ id i p, f.pending id = some (i, p) → asked.lookup id = some p.request.lock)
    (hnew : ∀ id lock', q.asks? = some (id, lock') → id ∉ f.issued) :
    PartAt lock (f.turn q) (g.pass q.took q.took) := by
  -- What owns another lock is not known for this one.
  have hown {lock' : LockName} (hne : lock' ≠ lock) {i : ι} {id : LeaseId} {now : Nat} (e : Nat)
      (he : f.reach.live? now lock' = some ⟨id, e⟩) (l : Lease)
      (hl : (f.member i).registry.lease? id = some l) : l.lock ≠ lock := by
    rwa [ho.lock_of_reach (Store.live?_eq_some_iff.1 he).1 hl]
  have hother {id : LeaseId} (hq : (asked.lookup id).all (· == lock) = false) (i : ι) (p : Pending)
      (hp : f.pending id = some (i, p)) : p.request.lock ≠ lock := by
    rwa [hasked id i p hp, Option.all_some, beq_eq_false_iff_ne] at hq
  cases q with
  | list i => cases hq
  | call c =>
    cases c with
    | acquire i id request lag =>
      exact h.skip_acquire ho i (beq_eq_false_iff_ne.1 hq) (hnew id request.lock rfl) lag
    | poll id lag => exact h.skip_poll ho (hother hq) lag
    | cancel id => exact h.skip_cancel (hother hq)
    | release i lock' client id =>
      have hne := beq_eq_false_iff_ne.1 hq
      exact h.put_left (Coordinator.leavesAlone_release hne (hown hne))
    | renew i lock' id extension lag =>
      have hne := beq_eq_false_iff_ne.1 hq
      exact (h.put_left (Coordinator.leavesAlone_renew hne (hown hne))).pass lag lag
    | upkeep | purge | status | detect | clear | outage | elapse => cases hq

/-! ### Remaining calls -/

/-- Operations that agree in the lock may be put back in both. -/
theorem PartAt.put {α β : Type} (h : PartAt lock f g) {o : Outcome α} {o' : Outcome β}
    (ho : o.PartAt lock o') : PartAt lock (f.put i o) (g.put i o') :=
  { h with
    store := by
      show Store.SameAt lock (if f.outage then f.store else o.store)
        (if g.outage then g.store else o'.store)
      rw [h.outage]
      split
      · exact h.store
      · exact ho.store
    member := by
      intro j
      show ((f.enter i o.coordinator).member j).PartAt lock ((g.enter i o'.coordinator).member j)
      rw [member_enter, member_enter]
      split
      · exact ho.coordinator
      · exact h.member j }

/-- Coordinators that agree in the lock may be entered in both. -/
theorem PartAt.enter (h : PartAt lock f g) {c c' : Coordinator} (hc : c.PartAt lock c') :
    PartAt lock (f.enter i c) (g.enter i c') := by
  have hput : PartAt lock (f.put i ⟨(), f.reach, c⟩) (g.put i ⟨(), g.reach, c'⟩) :=
    h.put ⟨h.reach, hc⟩
  rwa [put_reach, put_reach] at hput

omit [DecidableEq ι] in
/-- A step of an acquisition for the lock. -/
theorem PartAt.await (h : PartAt lock f g) {r : Option (ι × Pending)}
    (hr : ∀ i p, r = some (i, p) → p.request.lock = lock) :
    PartAt lock (f.await id r) (g.await id r) :=
  { h with
    pending := by
      intro k
      rw [pending_await, pending_await, h.pending k]
      split
      · cases r with
        | none => rfl
        | some r =>
          exact (Option.filter_some_pos (p := fun r : ι × Pending ↦ r.2.request.lock == lock)
            (beq_iff_eq.2 (hr r.1 r.2 rfl))).symm
      · rfl }

omit [DecidableEq ι] in
theorem PartAt.issue (h : PartAt lock f g) (id : LeaseId) :
    PartAt lock (f.issue id) (g.issue id) :=
  { h with
    issued := by
      intro k hk
      rcases List.mem_cons.1 hk with rfl | hk
      · exact List.mem_cons_self
      · exact List.mem_cons_of_mem id (h.issued k hk) }

/-- A step of an acquisition for the lock, with the same answer. -/
theorem PartAt.answered (h : PartAt lock f g) {o o' : Outcome Acquisition} (ho : o.Alike lock o')
    (hr : ∀ p, o.answer.pending? = some p → p.request.lock = lock) :
    PartAt lock (f.answered i id o) (g.answered i id o') := by
  rw [Cluster.answered, Cluster.answered, ho.answer]
  refine (h.put ho.toPartAt).await fun j p hp ↦ ?_
  obtain ⟨_, hp', heq⟩ := Option.map_eq_some_iff.1 hp
  cases heq
  exact hr p hp'

/-- A request for the lock. -/
theorem PartAt.keep_acquire (ho : f.Orderly) (ho' : g.Orderly) (i : ι) {request : LockRequest}
    (h : PartAt request.lock f g) (hfresh : id ∉ f.issued) (lag : Nat) :
    g.answer (.call (.acquire i id request lag)) = f.answer (.call (.acquire i id request lag)) ∧
      PartAt request.lock (f.turn (.call (.acquire i id request lag)))
        (g.turn (.call (.acquire i id request lag))) := by
  have hfresh' : id ∉ g.issued := fun hid ↦ hfresh (h.issued id hid)
  have halike := Coordinator.PartAt.acquire (ho.tidy i).keyed (ho'.tidy i).keyed (h.member i)
    h.reach f.now f.tick id lag
  rw [answer, answer, if_neg hfresh, if_neg hfresh', turn, turn, serve, serve, if_neg hfresh,
    if_neg hfresh', h.now, h.tick]
  refine ⟨congrArg _ halike.answer, ((h.issue id).answered halike fun p hp ↦ ?_).pass lag lag⟩
  rw [Coordinator.request_of_acquire hp]

omit [DecidableEq ι] in
/-- What waits for the lock waits in both. -/
theorem PartAt.pending_eq (h : PartAt lock f g)
    (hown : ∀ i p, f.pending id = some (i, p) → p.request.lock = lock) :
    g.pending id = f.pending id := by
  rw [h.pending id]
  cases hp : f.pending id with
  | none => rfl
  | some r =>
    exact Option.filter_some_pos (p := fun r : ι × Pending ↦ r.2.request.lock == lock)
      (beq_iff_eq.2 (hown r.1 r.2 hp))

/-- An acquisition that waits for the lock tries again. -/
theorem PartAt.keep_poll (h : PartAt lock f g) (ho : f.Orderly) (ho' : g.Orderly)
    (hown : ∀ i p, f.pending id = some (i, p) → p.request.lock = lock) (lag : Nat) :
    g.answer (.call (.poll id lag)) = f.answer (.call (.poll id lag)) ∧
      PartAt lock (f.turn (.call (.poll id lag))) (g.turn (.call (.poll id lag))) := by
  rw [answer, answer, turn, turn, serve, serve, h.pending_eq hown]
  cases hp : f.pending id with
  | none => exact ⟨rfl, h.pass lag lag⟩
  | some r =>
    obtain ⟨i, p⟩ := r
    obtain rfl := hown i p hp
    have halike := Coordinator.PartAt.poll (ho.tidy i).keyed (ho'.tidy i).keyed (h.member i)
      h.reach f.now f.tick lag
    dsimp only
    rw [h.now, h.tick]
    refine ⟨congrArg _ halike.answer, (h.answered halike fun p' hp' ↦ ?_).pass lag lag⟩
    rw [Coordinator.request_of_poll hp']

/-- An acquisition that waits for the lock is given up. -/
theorem PartAt.keep_cancel (h : PartAt lock f g)
    (hown : ∀ i p, f.pending id = some (i, p) → p.request.lock = lock) :
    g.answer (.call (.cancel id)) = f.answer (.call (.cancel id)) ∧
      PartAt lock (f.turn (.call (.cancel id))) (g.turn (.call (.cancel id))) := by
  rw [answer, answer, turn, turn, serve, serve, h.pending_eq hown]
  cases hp : f.pending id with
  | none => exact ⟨rfl, h⟩
  | some r =>
    obtain ⟨i, p⟩ := r
    have hcancelled : ((f.member i).cancel p).PartAt lock ((g.member i).cancel p) :=
      ⟨(h.member i).config, (h.member i).timing, (h.member i).registry.congr rfl rfl⟩
    exact ⟨rfl, (h.enter hcancelled).await fun _ _ hnone ↦ (by cases hnone)⟩

/-- A release of the lock is answered alike. -/
theorem PartAt.keep_release (h : PartAt lock f g) (i : ι) (client : ClientId) (id : LeaseId) :
    g.answer (.call (.release i lock client id)) = f.answer (.call (.release i lock client id)) ∧
      PartAt lock (f.turn (.call (.release i lock client id)))
        (g.turn (.call (.release i lock client id))) := by
  have halike := (h.member i).release h.reach f.now client id
  rw [answer, answer, turn, turn, serve, serve, h.now]
  exact ⟨congrArg _ halike.answer, h.put halike.toPartAt⟩

/-- A renewal of the lock, whatever the lock of the lease that is presented. -/
theorem PartAt.keep_renew (h : PartAt lock f g) (ho : f.Orderly) (i : ι) (id : LeaseId)
    (extension : Option Duration) (lag : Nat)
    (hbelow : ∀ l, (f.member i).registry.lease? id = some l →
      l.expiresAt + 1 + lag < signedBound) :
    g.answer (.call (.renew i lock id extension lag)) =
        f.answer (.call (.renew i lock id extension lag)) ∧
      PartAt lock (f.turn (.call (.renew i lock id extension lag)))
        (g.turn (.call (.renew i lock id extension lag))) := by
  have halike := (h.member i).renew h.reach f.now id extension lag fun l hl hne ↦ by
    refine ⟨hbelow l hl, fun row hrow hid ↦ hne ?_⟩
    obtain ⟨k, e⟩ := row
    cases hid
    exact ho.lock_of_reach hrow hl
  rw [answer, answer, turn, turn, serve, serve, h.now]
  exact ⟨congrArg _ halike.answer, (h.put halike.toPartAt).pass lag lag⟩

/-- The query as it is made where only the lock is dealt with. A pass renews one lease at most then,
and it does so when the turn of that lease was. -/
def seenAt (f : Cluster ι) (lock : LockName) : Query ι → Query ι
  | .call (.upkeep i interval lags) =>
    .call (.upkeep i interval ((f.member i).lagsAt lock f.now interval lags))
  | q => q

omit [DecidableEq ι] in
/-- Only passes are seen otherwise. -/
theorem seenAt_cases (f : Cluster ι) (lock : LockName) (q : Query ι) :
    f.seenAt lock q = q ∨ ∃ i interval lags, q = .call (.upkeep i interval lags) := by
  cases q with
  | list i => exact .inl rfl
  | call c =>
    cases c with
    | upkeep i interval lags => exact .inr ⟨i, interval, lags, rfl⟩
    | acquire | poll | cancel | release | renew | purge | status | detect | clear | outage
    | elapse => exact .inl rfl

omit [DecidableEq ι] in
theorem concerns_seenAt (f : Cluster ι) (q : Query ι) :
    (f.seenAt lock q).concerns asked lock = q.concerns asked lock := by
  rcases f.seenAt_cases lock q with hsame | ⟨i, interval, lags, rfl⟩
  · rw [hsame]
  · rfl

omit [DecidableEq ι] in
theorem seenAt_of_concerns (hq : q.concerns asked lock = true) : f.seenAt lock q = q := by
  rcases f.seenAt_cases lock q with hsame | ⟨i, interval, lags, rfl⟩
  · exact hsame
  · cases hq

/-- A pass does the same for the lock at the same times, whatever else it renews. -/
theorem PartAt.keep_upkeep (h : PartAt lock f g) (ho : f.Orderly) (ho' : g.Orderly) (i : ι)
    (interval : Duration) (lags : List (Nat × Nat)) :
    PartAt lock (f.turn (.call (.upkeep i interval lags)))
      (g.turn (f.seenAt lock (.call (.upkeep i interval lags)))) := by
  have hpass := (h.member i).upkeep (ho.tidy i) (ho'.tidy i) h.reach f.now interval lags
  rw [seenAt, turn, turn, upkeep_serve, upkeep_serve, h.now, Coordinator.total_lagsAt]
  exact (h.put hpass).pass ..

/-- Purging changes the store if it is within reach, and nothing else. -/
theorem turn_purge (f : Cluster ι) : f.turn (.call .purge) =
    f.withStore (if f.outage then f.store else (f.reach.serve f.now .purge).2) := by
  rw [turn, serve, Store.serve]
  cases f.reach.purge f.now with
  | error fault =>
    cases hout : f.outage with
    | true => rfl
    | false =>
      rw [Store.conclude, reach_of_outage hout]
      rfl
  | ok r =>
    dsimp only
    split <;> rfl

/-- A purge takes the same rows of the lock. -/
theorem PartAt.keep_purge (h : PartAt lock f g) :
    PartAt lock (f.turn (.call .purge)) (g.turn (.call .purge)) := by
  rw [turn_purge, turn_purge, h.outage, h.now]
  refine { h with store := ?_ }
  show Store.SameAt lock (if f.outage then f.store else _) (if f.outage then g.store else _)
  split
  · exact h.store
  · exact h.reach.purge f.now

/-- A call that remains does the same for the lock, and has the same answer if it is addressed to
the lock. -/
theorem PartAt.keep (h : PartAt lock f g) (ho : f.Orderly) (ho' : g.Orderly)
    (hq : q.remains asked lock = true)
    (hasked : ∀ id i p, f.pending id = some (i, p) → asked.lookup id = some p.request.lock)
    (hnew : ∀ id lock', q.asks? = some (id, lock') → id ∉ f.issued) {d : Nat}
    (hlag : ∀ c, q = .call c → c.RenewsWithin d)
    (hbelow : ∀ i k l, (f.member i).registry.lease? k = some l →
      l.expiresAt + 1 + d < signedBound) :
    (q.concerns asked lock = true → g.answer q = f.answer q) ∧
      PartAt lock (f.turn q) (g.turn (f.seenAt lock q)) := by
  -- An acquisition that waits and whose steps remain waits for the lock.
  have hown {id : LeaseId} (hq : (asked.lookup id).all (· == lock) = true) (i : ι) (p : Pending)
      (hp : f.pending id = some (i, p)) : p.request.lock = lock := by
    rwa [hasked id i p hp, Option.all_some, beq_iff_eq] at hq
  cases q with
  | list i => exact ⟨fun hc ↦ (by cases hc), h⟩
  | call c =>
    cases c with
    | acquire i id request lag =>
      obtain rfl : request.lock = lock := beq_iff_eq.1 hq
      exact (PartAt.keep_acquire ho ho' i h (hnew id request.lock rfl) lag).imp_left
        fun heq _ ↦ heq
    | poll id lag => exact (h.keep_poll ho ho' (hown hq) lag).imp_left fun heq _ ↦ heq
    | cancel id => exact (h.keep_cancel (hown hq)).imp_left fun heq _ ↦ heq
    | release i lock' client id =>
      obtain rfl : lock' = lock := beq_iff_eq.1 hq
      exact (h.keep_release i client id).imp_left fun heq _ ↦ heq
    | renew i lock' id extension lag =>
      obtain rfl : lock' = lock := beq_iff_eq.1 hq
      have hlag : lag ≤ d := hlag _ rfl
      exact (h.keep_renew ho i id extension lag fun l hl ↦ by
        have := hbelow i id l hl
        omega).imp_left fun heq _ ↦ heq
    | upkeep i interval lags =>
      exact ⟨fun hc ↦ (by cases hc), h.keep_upkeep ho ho' i interval lags⟩
    | purge => exact ⟨fun hc ↦ (by cases hc), h.keep_purge⟩
    | status i lock' lag =>
      refine ⟨fun hc ↦ ?_, h.pass lag lag⟩
      obtain rfl : lock' = lock := beq_iff_eq.1 hc
      rw [answer, answer, h.now]
      exact congrArg _ ((h.member i).status h.reach f.now lag fun row hrow l hl ↦
        ho.lock_of_reach hrow hl)
    | detect i =>
      exact ⟨fun hc ↦ (by cases hc),
        h.enter ⟨(h.member i).config, (h.member i).timing, (h.member i).registry⟩⟩
    | clear i =>
      exact ⟨fun _ ↦ rfl,
        h.enter ⟨(h.member i).config, (h.member i).timing, Registry.partAt_empty lock rfl rfl⟩⟩
    | outage on => exact ⟨fun _ ↦ rfl, { h with outage := rfl }⟩
    | elapse millis ticks => exact ⟨fun _ ↦ rfl, h.pass millis ticks⟩

/-! ### Runs -/

/-- Every query keeps clusters orderly. -/
theorem Orderly.turn (ho : f.Orderly) (q : Query ι) : (f.turn q).Orderly := by
  cases q with
  | call c => exact ho.serve c
  | list i => exact ho

/-- The list `asked` has the locks of all acquisitions that wait or that `qs` asks for, and the ids
of the latter are fresh. -/
structure Foreseen (asked : List (LeaseId × LockName)) (f : Cluster ι) (qs : List (Query ι)) :
    Prop where
  /-- It has the locks of the acquisitions that wait. -/
  pending : ∀ id i p, f.pending id = some (i, p) → asked.lookup id = some p.request.lock
  /-- It has the locks that are asked for. -/
  asks : ∀ q ∈ qs, ∀ id lock, q.asks? = some (id, lock) → asked.lookup id = some lock
  /-- No id is asked for twice. -/
  nodup : ((qs.filterMap Query.asks?).map (·.1)).Nodup
  /-- The ids that are asked for have not been issued. -/
  fresh : ∀ q ∈ qs, ∀ id lock, q.asks? = some (id, lock) → id ∉ f.issued

omit [DecidableEq ι] in
/-- At the start nobody waits, so all requests are still to come. -/
theorem IsStart.foreseen (hstart : f.IsStart) {qs : List (Query ι)}
    (hnodup : ((qs.filterMap Query.asks?).map (·.1)).Nodup) :
    Foreseen (qs.filterMap Query.asks?) f qs where
  pending id i p hp := by
    rw [hstart.pending id] at hp
    cases hp
  asks q hq id lock hasks := lookup_eq_some_of_mem hnodup (List.mem_filterMap.2 ⟨q, hq, hasks⟩)
  nodup := hnodup
  fresh _ _ id _ _ := by
    rw [hstart.issued]
    exact List.not_mem_nil

/-- Whoever comes to wait was foreseen, with the lock of the request. -/
theorem Foreseen.turn {qs : List (Query ι)} (h : Foreseen asked f (q :: qs)) :
    Foreseen asked (f.turn q) qs := by
  have hlater : ∀ q' ∈ qs, ∀ id lock, q'.asks? = some (id, lock) → id ∉ f.issued := fun q' hq' ↦
    h.fresh q' (List.mem_cons_of_mem q hq')
  refine ⟨?_, fun q' hq' ↦ h.asks q' (List.mem_cons_of_mem q hq'), ?_, ?_⟩
  · cases q with
    | list i => exact h.pending
    | call c =>
      intro id i p hp
      rcases pending_serve hp with hp | ⟨lag, rfl, -, -⟩
      · exact h.pending id i p hp
      · exact h.asks _ List.mem_cons_self id p.request.lock rfl
  · exact h.nodup.sublist (((List.sublist_cons_self q qs).filterMap _).map _)
  · cases q with
    | list i => exact hlater
    | call c =>
      rcases f.issued_serve c with hsame | ⟨i, id, request, lag, rfl, -, hmore⟩
      · intro q' hq' id lock hasks
        rw [Cluster.turn, hsame]
        exact hlater q' hq' id lock hasks
      · intro q' hq' id' lock hasks
        rw [Cluster.turn, hmore, List.mem_cons, not_or]
        refine ⟨?_, hlater q' hq' id' lock hasks⟩
        rintro rfl
        exact (List.nodup_cons.1 h.nodup).1
          (List.mem_map.2 ⟨_, List.mem_filterMap.2 ⟨q', hq', hasks⟩, rfl⟩)

/-- What remains of a run when everything is deleted that is addressed to other locks. -/
def isolated (asked : List (LeaseId × LockName)) (lock : LockName) (f : Cluster ι) :
    List (Query ι) → List (Query ι)
  | [] => []
  | q :: qs =>
    (if q.remains asked lock then [f.seenAt lock q] else q.idle?.toList) ++
      (f.turn q).isolated asked lock qs

/-- If no time passes within what is deleted and within passes, the calls that remain are made as
they were. -/
theorem isolated_eq_filter {qs : List (Query ι)}
    (hdeleted : ∀ q ∈ qs, q.remains asked lock = false → q.took = 0)
    (hpasses : ∀ i interval lags, .call (.upkeep i interval lags) ∈ qs → lags = []) :
    f.isolated asked lock qs = qs.filter (·.remains asked lock) := by
  induction qs generalizing f with
  | nil => rfl
  | cons q qs ih =>
    have hseen : f.seenAt lock q = q := by
      rcases f.seenAt_cases lock q with hsame | ⟨i, interval, lags, rfl⟩
      · exact hsame
      · rw [seenAt, hpasses i interval lags List.mem_cons_self, Coordinator.lagsAt_nil]
    rw [isolated, hseen, ih (fun q' hq' ↦ hdeleted q' (List.mem_cons_of_mem q hq'))
      fun i interval lags hmem ↦ hpasses i interval lags (List.mem_cons_of_mem q hmem),
      List.filter_cons]
    split
    · rfl
    · next hq =>
      rw [Query.idle?, if_pos (hdeleted q List.mem_cons_self (Bool.eq_false_iff.2 hq))]
      rfl

theorem filter_log_cons (f : Cluster ι) (q : Query ι) (qs : List (Query ι))
    (keeps : Query ι → Bool) :
    (f.log (q :: qs)).filter (keeps ·.query) =
      if keeps q then f.entry q :: ((f.turn q).log qs).filter (keeps ·.query)
      else ((f.turn q).log qs).filter (keeps ·.query) :=
  List.filter_cons

/-- What is left of a deleted call is addressed to no lock. -/
theorem filter_log_idle? (g : Cluster ι) (q : Query ι) (qs : List (Query ι)) :
    (g.log (q.idle?.toList ++ qs)).filter (·.query.concerns asked lock) =
      ((g.pass q.took q.took).log qs).filter (·.query.concerns asked lock) := by
  rw [log_append, turns_idle?, List.filter_append, Query.idle?]
  split <;> rfl

/-- Two runs side by side, the one with everything deleted that is addressed to other locks. -/
theorem PartAt.log {qs : List (Query ι)} {d : Nat} (h : PartAt lock f g) (ho : f.Orderly)
    (ho' : g.Orderly) (hforeseen : Foreseen asked f qs)
    (hlags : ∀ c, .call c ∈ qs → c.RenewsWithin d)
    (hbelow : ∀ past, past <+: qs → ∀ i, ∀ l ∈ ((f.turns past).member i).leases,
      l.expiresAt + 1 + d < signedBound) :
    (g.log (f.isolated asked lock qs)).filter (·.query.concerns asked lock) =
      (f.log qs).filter (·.query.concerns asked lock) := by
  induction qs generalizing f g with
  | nil => rfl
  | cons q qs ih =>
    have hnew := hforeseen.fresh q List.mem_cons_self
    have hlags' (c : Call ι) (hc : .call c ∈ qs) : c.RenewsWithin d :=
      hlags c (List.mem_cons_of_mem q hc)
    have hrest past (hpast : past <+: qs) :=
      hbelow (q :: past) (List.cons_prefix_cons.2 ⟨rfl, hpast⟩)
    rw [isolated]
    cases hq : q.remains asked lock with
    | false =>
      have hother : ¬ q.concerns asked lock = true := fun hconcerns ↦ by
        rw [Query.remains_of_concerns hconcerns] at hq
        cases hq
      have hskip := h.skip ho hq hforeseen.pending hnew
      rw [if_neg Bool.false_ne_true, filter_log_idle? g, filter_log_cons, if_neg hother,
        ih hskip (ho.turn q) (ho'.pass _ _) hforeseen.turn hlags' hrest]
    | true =>
      have hbound i k l (hl : (f.member i).registry.lease? k = some l) :
          l.expiresAt + 1 + d < signedBound :=
        hbelow [] List.nil_prefix i l (Registry.mem_leases_iff.2 ⟨k, hl⟩)
      obtain ⟨hanswer, hpart⟩ := h.keep ho ho' hq hforeseen.pending hnew
        (fun c hc ↦ hlags c (hc ▸ List.mem_cons_self)) hbound
      have hnext := ih hpart (ho.turn q) (ho'.turn _) hforeseen.turn hlags' hrest
      rw [if_pos rfl, List.singleton_append, filter_log_cons, filter_log_cons, hnext,
        concerns_seenAt]
      by_cases hconcerns : q.concerns asked lock = true
      · rw [if_pos hconcerns, if_pos hconcerns, seenAt_of_concerns hconcerns, entry, entry,
          hanswer hconcerns, h.now, h.tick]
      · rw [if_neg hconcerns, if_neg hconcerns]

/-- **Locks are isolated.** In every run from a start in which every request has its own id,
expiries stay below `2 ^ 62` and no renewal takes that long to reach the store, everything may be
deleted that is addressed to other locks than `lock`, and whatever is addressed to `lock` has the
same answers at the same times. If no time passes within what is deleted and within passes, the
other calls are made as they were. -/
theorem log_isolated (f : Cluster ι) (hstart : f.IsStart) (qs : List (Query ι)) (lock : LockName)
    (hfresh : ((qs.filterMap Query.asks?).map (·.1)).Nodup)
    (hlags : ∀ c, .call c ∈ qs → c.RenewsWithin (2 ^ 62 - 1))
    (hbelow : ∀ past, past <+: qs →
      ∀ i, ∀ l ∈ ((f.turns past).member i).leases, l.expiresAt < 2 ^ 62) :
    (f.log (f.isolated (qs.filterMap Query.asks?) lock qs)).filter
        (·.query.concerns (qs.filterMap Query.asks?) lock) =
      (f.log qs).filter (·.query.concerns (qs.filterMap Query.asks?) lock) ∧
    ((∀ q ∈ qs, q.remains (qs.filterMap Query.asks?) lock = false → q.took = 0) →
      (∀ i interval lags, .call (.upkeep i interval lags) ∈ qs → lags = []) →
      f.isolated (qs.filterMap Query.asks?) lock qs =
        qs.filter (·.remains (qs.filterMap Query.asks?) lock)) := by
  refine ⟨?_, isolated_eq_filter⟩
  refine (hstart.partAt lock).log hstart.orderly hstart.orderly (hstart.foreseen hfresh) hlags
    fun past hpast i l hl ↦ ?_
  have hlt := hbelow past hpast i l hl
  rw [signedBound]
  omega

/-- A client holds the locks `L` and `M`, and presents for the one the lease for the other. Somebody
else waits for `L` meanwhile, and the store goes out of reach for a moment. -/
def crossed : List (Query Bool) :=
  [.call (.acquire true "a" { lock := "L", client := "x", autoRenew := true } 2),
   .call (.acquire true "b"
     { lock := "M", client := "x", ttl := some (.ofSecs 10), autoRenew := true }),
   .call (.acquire false "c" { lock := "L", client := "y", wait := .ofSecs 60 }),
   .call (.renew true "L" "b" none 3),
   .call (.release true "L" "x" "b"),
   .call (.elapse 5995 5995),
   .call (.upkeep true (.ofSecs 5)),
   .call (.outage true),
   .call (.renew true "L" "a" none),
   .call (.outage false),
   .call (.renew true "M" "b" none),
   .call (.release true "L" "x" "a"),
   .call (.poll "c"),
   .call (.release true "M" "x" "b")]

/-- Two leases and their ids cross. What is asked about the lock is answered at the same times as
without the other one. -/
theorem log_isolated_crossed :
    pair.IsStart ∧
      ((crossed.filterMap Query.asks?).map (·.1)).Nodup ∧
      (crossed.filter (·.remains (crossed.filterMap Query.asks?) "L")).length = 11 ∧
      ((pair.log (crossed.filter (·.remains (crossed.filterMap Query.asks?) "L"))).filter
          (·.query.concerns (crossed.filterMap Query.asks?) "L")).map
            (fun e ↦ (e.now, e.answer.isWin, e.answer.isRefusal)) =
        [(0, true, false), (2, false, false), (2, false, true), (5, false, true),
          (6000, false, true), (6000, false, false), (6000, true, false)] := by
  have hfresh : ((crossed.filterMap Query.asks?).map (·.1)).Nodup := by decide
  have hlags : ∀ c, .call c ∈ crossed → c.RenewsWithin (2 ^ 62 - 1) := by
    simp [crossed, Call.RenewsWithin]
  have hbelow : ∀ past ∈ crossed.inits,
      ∀ i, ∀ l ∈ ((pair.turns past).member i).leases, l.expiresAt < 2 ^ 62 := by
    decide +kernel
  obtain ⟨hsame, hrest⟩ := log_isolated pair isStart_pair crossed "L" hfresh hlags
    fun past hpast ↦ hbelow past ((List.mem_inits past crossed).2 hpast)
  rw [hrest (by decide) (by simp [crossed])] at hsame
  refine ⟨isStart_pair, hfresh, by decide, ?_⟩
  rw [hsame]
  decide +kernel

end Cluster

end LeaseLock
