import LeaseLock.Proofs.Cluster.Requests

/-!
# The log of a run

Histories say of a call only what it means for leases. Here a call has its whole answer
(`Cluster.answer`), and somebody may also ask a coordinator for its leases; the notices of a call
can be read off its answer (`Cluster.notices_answer`). The log of a run is everything that was asked
for, with the answers and the times.

An acquisition concludes when it ends, with a lease or in an error, or is given up. It does so
once: after that nothing happens when its id comes up again (`Cluster.Settled`), so an acquisition
that came to nothing has no lease anywhere in the log (`Cluster.not_win_of_lost`).

## Answers and notices

A notice says what a call means for the lease of one lock: granted, renewed, released, refused. Most
statements about runs are about notices, because nothing else of an answer matters to them. Where
two runs are compared the whole answers matter, down to the counts of a report and the order of a
list, and so does when they were given.

## Queries that are deleted

A run can be made without some of its queries. What they took of time is kept, as a query that lets
it pass (`Query.idle?`), so that the queries that remain are made at the same times as before. A
query that took no time leaves nothing behind.
-/

namespace LeaseLock

/-! ### Queries and answers -/

/-- What a cluster is asked for. -/
inductive Query (ι : Type) where
  /-- A call is made. -/
  | call (c : Call ι)
  /-- Somebody asks for the leases of a coordinator. -/
  | list (i : ι)

/-- The milliseconds that pass by the end of the query. -/
def Query.took {ι : Type} : Query ι → Nat
  | .call c => c.took
  | .list _ => 0

/-- What is left of a query that is deleted from a run: the time that it took passes, if it took
any. -/
def Query.idle? {ι : Type} (q : Query ι) : Option (Query ι) :=
  if q.took = 0 then none else some (.call (.elapse q.took q.took))

/-- The acquisition that a query is about. -/
def Query.acquisition? {ι : Type} : Query ι → Option LeaseId
  | .call (.acquire _ id _ _) | .call (.poll id _) | .call (.cancel id) => some id
  | _ => none

/-- An acquisition is asked for, tries again or is given up. -/
theorem Query.acquisition?_cases {ι : Type} {q : Query ι} {id : LeaseId}
    (h : q.acquisition? = some id) :
    (∃ i request lag, q = .call (.acquire i id request lag)) ∨
      (∃ lag, q = .call (.poll id lag)) ∨ q = .call (.cancel id) := by
  unfold Query.acquisition? at h
  split at h
  · obtain rfl := Option.some.inj h
    exact .inl ⟨_, _, _, rfl⟩
  · obtain rfl := Option.some.inj h
    exact .inr (.inl ⟨_, rfl⟩)
  · obtain rfl := Option.some.inj h
    exact .inr (.inr rfl)
  · cases h

/-- The answer to a query. -/
inductive Answer where
  /-- There is no such acquisition, or there has been one already; nothing happens. -/
  | ignored
  /-- What has become of an acquisition. -/
  | acquisition (a : Acquisition)
  /-- The acquisition is given up. -/
  | cancelled
  /-- The answer to a release. -/
  | released (result : Except LockFault Unit)
  /-- The answer to a renewal. -/
  | renewed (result : Except LockFault Renewal)
  /-- The report of a pass. -/
  | kept (result : Except UpkeepFault UpkeepReport)
  /-- How many keys were deleted. -/
  | purged (result : Except StoreFault Nat)
  /-- What is known about a lock. -/
  | status (result : Except LockFault LockStatus)
  /-- The leases of a coordinator. -/
  | leases (ls : List Lease)
  /-- The deadlocks that were found. -/
  | deadlocks (found : List DeadlockReport)
  /-- It is done. -/
  | done

/-- The notices in the answer to a call. -/
def Answer.notices {ι : Type} : Call ι → Answer → List Notice
  | .release _ lock _ id, .released result => [.ofRelease lock id result]
  | .renew _ lock id _ _, .renewed result => [.ofRenewal lock id result]
  | .clear _, .done => [.cleared]
  | _, .acquisition a => a.notices
  | _, .kept (.ok report) => report.notices
  | _, _ => []

namespace Answer

/-- Whether an acquisition has ended with a lease. -/
def isWin : Answer → Bool
  | acquisition (.ended (.ok _)) => true
  | _ => false

/-- Whether an acquisition has ended in an error or been given up. -/
def isLoss : Answer → Bool
  | acquisition (.ended (.error _)) | cancelled => true
  | _ => false

/-- Whether a release or a renewal has ended in an error. -/
def isRefusal : Answer → Bool
  | released (.error _) | renewed (.error _) => true
  | _ => false

theorem isWin_of_isLoss {a : Answer} (h : a.isLoss = true) : a.isWin = false := by
  unfold isLoss at h
  split at h
  · rfl
  · rfl
  · cases h

end Answer

/-- A query with its answer and the time. -/
structure Entry (ι : Type) where
  /-- The time at which it was asked for. -/
  now : Nat
  /-- The tick at which it was. -/
  tick : Nat
  /-- What was asked for. -/
  query : Query ι
  /-- The answer. -/
  answer : Answer

/-- The acquisition that has ended in an error or been given up. -/
def Entry.lost? {ι : Type} (e : Entry ι) : Option LeaseId :=
  if e.answer.isLoss then e.query.acquisition? else none

/-- What is left of an entry whose query is deleted. -/
def Entry.idle? {ι : Type} (e : Entry ι) : Option (Entry ι) :=
  e.query.idle?.map fun q ↦ { e with query := q, answer := .done }

namespace Cluster

variable {ι : Type} [DecidableEq ι] {f : Cluster ι} {q : Query ι} {id : LeaseId}

/-- The answer to a query. -/
def answer (f : Cluster ι) : Query ι → Answer
  | .call (.acquire i id request lag) =>
    if id ∈ f.issued then .ignored
    else .acquisition ((f.member i).acquire f.reach f.now f.tick id request lag).answer
  | .call (.poll id lag) =>
    match f.pending id with
    | none => .ignored
    | some (i, p) => .acquisition ((f.member i).poll f.reach f.now f.tick p lag).answer
  | .call (.cancel id) =>
    match f.pending id with
    | none => .ignored
    | some _ => .cancelled
  | .call (.release i lock client id) =>
    .released ((f.member i).release f.reach f.now lock client id).answer
  | .call (.renew i lock id extension lag) =>
    .renewed ((f.member i).renew f.reach f.now lock id extension lag).answer
  | .call (.upkeep i interval lags) =>
    .kept ((f.member i).upkeep f.reach f.now interval lags).answer
  | .call .purge => .purged ((f.reach.purge f.now).map (·.1))
  | .call (.status i lock lag) => .status ((f.member i).status f.reach f.now lock lag)
  | .call (.detect i) => .deadlocks ((f.member i).detect f.now).1
  | .call (.clear _) | .call (.outage _) | .call (.elapse _ _) => .done
  | .list i => .leases (f.member i).leases

/-- The cluster behind a query. -/
def turn (f : Cluster ι) : Query ι → Cluster ι
  | .call c => (f.serve c).2
  | .list _ => f

/-- The cluster behind queries. -/
def turns (f : Cluster ι) (qs : List (Query ι)) : Cluster ι := qs.foldl turn f

/-- The query with its answer and the time. -/
def entry (f : Cluster ι) (q : Query ι) : Entry ι := ⟨f.now, f.tick, q, f.answer q⟩

/-- The queries with their answers and the times. -/
def log (f : Cluster ι) : List (Query ι) → List (Entry ι)
  | [] => []
  | q :: qs => f.entry q :: (f.turn q).log qs

theorem log_append (f : Cluster ι) (qs qs' : List (Query ι)) :
    f.log (qs ++ qs') = f.log qs ++ (f.turns qs).log qs' := by
  induction qs generalizing f with
  | nil => rfl
  | cons q qs ih => exact congrArg (f.entry q :: ·) (ih (f.turn q))

theorem turns_append (f : Cluster ι) (qs qs' : List (Query ι)) :
    f.turns (qs ++ qs') = (f.turns qs).turns qs' :=
  List.foldl_append

/-- Where a query is deleted, the time that it took passes. -/
theorem turns_idle? (f : Cluster ι) (q : Query ι) :
    f.turns q.idle?.toList = f.pass q.took q.took := by
  rw [Query.idle?]
  split
  · next htook =>
    rw [htook]
    rfl
  · rfl

/-- Where a query is deleted, the log has what is left of its entry. -/
theorem log_idle? {g : Cluster ι} (hnow : g.now = f.now) (htick : g.tick = f.tick)
    (q : Query ι) : g.log q.idle?.toList = (f.entry q).idle?.toList := by
  rw [Entry.idle?, entry, Query.idle?, ← hnow, ← htick]
  split <;> rfl

/-- What a history says of a call is said by its answer. -/
theorem notices_answer (f : Cluster ι) (c : Call ι) :
    (f.serve c).1 = (f.answer (.call c)).notices c := by
  cases c with
  | acquire i id request lag =>
    rw [serve, answer]
    split <;> rfl
  | poll id lag | cancel id =>
    rw [serve, answer]
    cases f.pending id <;> rfl
  | upkeep i interval lags =>
    rw [serve, answer]
    cases ((f.member i).upkeep f.reach f.now interval lags).answer <;> rfl
  | purge =>
    rw [serve]
    cases f.reach.purge f.now <;> rfl
  | release | renew | status | detect | clear | outage | elapse => rfl

/-! ### Concluded acquisitions -/

/-- The id has been issued, and its acquisition waits no longer. -/
def Settled (f : Cluster ι) (id : LeaseId) : Prop := id ∈ f.issued ∧ f.pending id = none

omit [DecidableEq ι] in
/-- Nothing happens when the id of an acquisition that has concluded comes up again. -/
theorem Settled.answer (h : f.Settled id) (hq : q.acquisition? = some id) :
    f.answer q = .ignored := by
  rcases Query.acquisition?_cases hq with ⟨i, request, lag, rfl⟩ | ⟨lag, rfl⟩ | rfl
  · exact if_pos h.1
  · rw [Cluster.answer, h.2]
  · rw [Cluster.answer, h.2]

theorem Settled.turn (h : f.Settled id) (q : Query ι) : (f.turn q).Settled id := by
  cases q with
  | list i => exact h
  | call c =>
    refine ⟨mem_issued_serve c h.1, ?_⟩
    cases hp : (f.serve c).2.pending id with
    | none => exact hp
    | some r =>
      obtain ⟨i, p⟩ := r
      rcases pending_serve hp with hp | ⟨_, -, hfresh, -⟩
      · rw [h.2] at hp
        cases hp
      · exact absurd h.1 hfresh

theorem wellFormed_turn (hf : f.WellFormed) (q : Query ι) : (f.turn q).WellFormed := by
  cases q with
  | call c => exact wellFormed_step hf (.call c)
  | list i => exact hf

/-- An acquisition that concludes is settled. -/
theorem settled_turn (hf : f.WellFormed) (hq : q.acquisition? = some id)
    (h : (f.answer q).isWin = true ∨ (f.answer q).isLoss = true) : (f.turn q).Settled id := by
  -- What has ended does not wait.
  have hended {a : Acquisition}
      (ha : (Answer.acquisition a).isWin = true ∨ (Answer.acquisition a).isLoss = true) :
      a.pending? = none := by
    cases a with
    | ended result => rfl
    | waiting p wake => rcases ha with ha | ha <;> cases ha
  rcases Query.acquisition?_cases hq with ⟨i, request, lag, rfl⟩ | ⟨lag, rfl⟩ | rfl
  · rw [answer] at h
    rw [turn, serve]
    by_cases hid : id ∈ f.issued
    · rw [if_pos hid] at h
      rcases h with h | h <;> cases h
    · rw [if_neg hid] at h ⊢
      refine ⟨List.mem_cons_self, ?_⟩
      show ((f.issue id).answered i id _).pending id = none
      rw [answered, pending_await, if_pos rfl, hended h, Option.map_none]
  · rw [answer] at h
    rw [turn, serve]
    cases hp : f.pending id with
    | none =>
      rw [hp] at h
      rcases h with h | h <;> cases h
    | some r =>
      obtain ⟨i, p⟩ := r
      rw [hp] at h
      refine ⟨(hf.pending id i p hp).2, ?_⟩
      show (f.answered i id _).pending id = none
      rw [answered, pending_await, if_pos rfl, hended h, Option.map_none]
  · rw [answer] at h
    rw [turn, serve]
    cases hp : f.pending id with
    | none =>
      rw [hp] at h
      rcases h with h | h <;> cases h
    | some r =>
      obtain ⟨i, p⟩ := r
      refine ⟨(hf.pending id i p hp).2, ?_⟩
      show ((f.enter i _).await id none).pending id = none
      rw [pending_await, if_pos rfl]

/-- Nothing happens in the log of what has concluded before. -/
theorem Settled.log (h : f.Settled id) {qs : List (Query ι)} {e : Entry ι} (he : e ∈ f.log qs)
    (hq : e.query.acquisition? = some id) : e.answer = .ignored := by
  induction qs generalizing f with
  | nil => cases he
  | cons q qs ih =>
    rcases List.mem_cons.1 he with rfl | he
    · exact h.answer hq
    · exact ih (h.turn q) he

/-- An acquisition that came to nothing has no lease anywhere in the log. -/
theorem not_win_of_lost (hf : f.WellFormed) {qs : List (Query ι)} {e e' : Entry ι}
    (he : e ∈ f.log qs) (hlost : e.lost? = some id) (he' : e' ∈ f.log qs)
    (hq : e'.query.acquisition? = some id) : e'.answer.isWin = false := by
  rw [Entry.lost?, Option.ite_none_right_eq_some] at hlost
  obtain ⟨hloss, hq₀⟩ := hlost
  induction qs generalizing f with
  | nil => cases he
  | cons q qs ih =>
    rcases List.mem_cons.1 he with rfl | he
    · rcases List.mem_cons.1 he' with rfl | he'
      · exact Answer.isWin_of_isLoss hloss
      · rw [(settled_turn hf hq₀ (.inr hloss)).log he' hq]
        rfl
    · rcases List.mem_cons.1 he' with rfl | he'
      · -- A lease would have settled the acquisition before it was lost.
        refine Bool.eq_false_iff.2 fun hwin ↦ ?_
        rw [(settled_turn hf hq (.inl hwin)).log he hq₀] at hloss
        cases hloss
      · exact ih (wellFormed_turn hf q) he he'

end Cluster

end LeaseLock
