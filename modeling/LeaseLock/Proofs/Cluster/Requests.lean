import LeaseLock.Proofs.Cluster.Serve

/-!
# Acquisitions and leases come from requests

An acquisition that waits was asked for, and so was a lease that has been granted. The call that
asked for it is the one that issued its id (`Asked`), so there is one such call for an id
(`Asked.unique`). The acquisition and the lease are what the request of that call says
(`pending_asked`, `granted_asked`).

A call is read here as a whole: what it leaves waiting either waited before or has just been asked
for (`pending_serve`), and what it grants either waited before or has just been asked for
(`granted_serve`).

A lease counts from the end of the call that grants it, and its key from the beginning, so the two
end as far apart as the call has taken.

## Ids and requests

An id that comes up a second time is ignored, whatever request comes with it. So the request of an
id is that of the first call with it, and that is settled when the call is made
(`Cluster.Asked`). Whether the acquisition waits, has ended or was given up later does not change
it, and neither does anything that is done to its lease.
-/

namespace LeaseLock

/-- The lease that answers a request at `now`. -/
def LockRequest.lease (request : LockRequest) (id : LeaseId) (ttl : Duration) (now : Nat) : Lease :=
  .grant request.lock id request.client ttl request.autoRenew request.metadata now

theorem LockRequest.expiresAt_lease (request : LockRequest) (id : LeaseId) (ttl : Duration)
    (now : Nat) : (request.lease id ttl now).expiresAt = now + ttl.keyMillis := rfl

namespace Cluster

variable {ι : Type} [DecidableEq ι] {f : Cluster ι} {c : Call ι} {calls past later : List (Call ι)}
  {i j : ι} {id : LeaseId} {request : LockRequest} {p : Pending} {l : Lease}

/-! ### What waits and what is granted -/

/-- What waits behind a call waited before, or the call asked for it. -/
theorem pending_serve (h : (f.serve c).2.pending id = some (i, p)) :
    f.pending id = some (i, p) ∨
      ∃ lag, c = .acquire i id p.request lag ∧ id ∉ f.issued ∧
        p.ttl = (f.member i).config.ttlFor p.request.ttl := by
  cases c with
  | acquire i' id' request lag =>
    rw [serve] at h
    split at h
    · exact .inl h
    · next hfresh =>
      replace h := (pending_await ((f.issue id').put i' _) id' id _).symm.trans h
      split at h
      · next hid =>
        subst hid
        obtain ⟨q, hq, heq⟩ := Option.map_eq_some_iff.1 h
        obtain ⟨fault, ho⟩ | ⟨s, -, ho⟩ | ⟨wake, ho⟩ | ⟨fault, ho⟩ :=
          (f.member i').acquire_cases f.reach f.now f.tick id request lag
        all_goals
          rw [ho] at hq
          cases hq
        cases heq
        exact .inr ⟨lag, rfl, hfresh, rfl⟩
      · exact .inl h
  | poll id' lag =>
    rw [serve] at h
    split at h
    · exact .inl h
    · next i' p' hp' =>
      replace h := (pending_await (f.put i' _) id' id _).symm.trans h
      split at h
      · next hid =>
        subst hid
        obtain ⟨q, hq, heq⟩ := Option.map_eq_some_iff.1 h
        obtain ⟨wake, ho⟩ | ⟨fault, ho⟩ | ⟨s, -, ho⟩ :=
          (f.member i').poll_cases f.reach f.now f.tick p' lag
        all_goals
          rw [ho] at hq
          cases hq
        exact .inl (heq ▸ hp')
      · exact .inl h
  | cancel id' =>
    rw [serve] at h
    split at h
    · exact .inl h
    · dsimp only at h
      rw [pending_await] at h
      split at h
      · cases h
      · exact .inl h
  | upkeep i' interval lags =>
    rw [serve] at h
    split at h <;> exact .inl h
  | purge =>
    rw [serve] at h
    split at h
    · dsimp only at h
      split at h <;> exact .inl h
    · exact .inl h
  | release | renew | status | detect | clear | outage | elapse => exact .inl h

/-- The cluster behind an acquisition that has got its key: the lease is known and in the store. -/
theorem known_of_taken {c : Coordinator} {ttl : Duration} {s : Store} (lag : Nat)
    (hkeyed : c.registry.Keyed) (ho : f.outage = false)
    (hs : f.store.Taken s f.now request.lock id ttl true) :
    ((f.answered i id ⟨.ended (.ok (c.grant (f.now + lag) request id ttl).1), s,
        (c.grant (f.now + lag) request id ttl).2⟩).member i).registry.lease? id =
      some (request.lease id ttl (f.now + lag)) ∧
    (f.answered i id ⟨.ended (.ok (c.grant (f.now + lag) request id ttl).1), s,
        (c.grant (f.now + lag) request id ttl).2⟩).store.row? request.lock =
      some ⟨id, (request.lease id ttl f.now).expiresAt⟩ := by
  rw [answered, put_of_outage ho]
  constructor
  · show ((f.enter i (c.grant (f.now + lag) request id ttl).2).member i).registry.lease? id = _
    rw [member_enter_self]
    exact (hkeyed.lease?_insert _).trans (if_pos rfl)
  · exact hs.2.at_lock

/-- A request for a lock whose key can be taken is answered with a lease. -/
theorem acquire_serve {s : Store} (lag : Nat) (hfresh : id ∉ f.issued) (ho : f.outage = false)
    (hlock : request.lock ≠ "") (hclient : request.client ≠ "")
    (htake : f.store.take f.now request.lock id ((f.member i).config.ttlFor request.ttl) =
      .ok (true, s)) :
    (f.serve (.acquire i id request lag)).1 =
        [.granted (request.lease id ((f.member i).config.ttlFor request.ttl) (f.now + lag))] ∧
      (f.serve (.acquire i id request lag)).2.store = s := by
  rw [serve, if_neg hfresh, reach_of_outage ho]
  dsimp only
  rw [Coordinator.acquire_of_take lag hlock hclient htake, answered,
    put_of_outage (f := f.issue id) ho]
  exact ⟨rfl, rfl⟩

/-- What a call grants waited before, or the call asked for it; behind the call it is known and in
the store. -/
theorem granted_serve (hf : f.WellFormed) (h : .granted l ∈ (f.serve c).1) :
    ∃ i request ttl, l = request.lease l.id ttl (f.now + c.took) ∧
      ((f.serve c).2.member i).registry.lease? l.id = some l ∧
      (f.serve c).2.store.row? l.lock = some ⟨l.id, (request.lease l.id ttl f.now).expiresAt⟩ ∧
      ((∃ p, f.pending l.id = some (i, p) ∧ p.request = request ∧ p.ttl = ttl) ∨
        ∃ lag, c = .acquire i l.id request lag ∧ l.id ∉ f.issued ∧
          ttl = (f.member i).config.ttlFor request.ttl) := by
  cases c with
  | acquire i id request lag =>
    rw [serve] at h ⊢
    split at h
    · cases h
    · next hfresh =>
      rw [if_neg hfresh]
      dsimp only at h ⊢
      obtain ⟨fault, ho⟩ | ⟨s, htake, ho⟩ | ⟨wake, ho⟩ | ⟨fault, ho⟩ :=
        (f.member i).acquire_cases f.reach f.now f.tick id request lag
      · rw [ho] at h
        cases h
      · rw [ho] at h ⊢
        cases List.mem_singleton.1 h
        obtain ⟨hout, hs⟩ := reach_take htake
        obtain ⟨hknown, hrow⟩ :=
          known_of_taken (f := f.issue id) (i := i) lag (hf.registry i) hout hs
        exact ⟨i, request, _, rfl, hknown, hrow, .inr ⟨lag, rfl, hfresh, rfl⟩⟩
      · rw [ho] at h
        cases h
      · rw [ho] at h
        cases h
  | poll id lag =>
    rw [serve] at h ⊢
    split at h
    · cases h
    · next i p hp =>
      dsimp only at h ⊢
      obtain ⟨rfl, -⟩ := hf.pending id i p hp
      obtain ⟨wake, ho⟩ | ⟨fault, ho⟩ | ⟨s, htake, ho⟩ :=
        (f.member i).poll_cases f.reach f.now f.tick p lag
      · rw [ho] at h
        cases h
      · rw [ho] at h
        cases h
      · rw [ho] at h ⊢
        cases List.mem_singleton.1 h
        obtain ⟨hout, hs⟩ := reach_take htake
        have hkeyed : ((f.member i).cancel p).registry.Keyed := hf.registry i
        obtain ⟨hknown, hrow⟩ := known_of_taken (i := i) lag hkeyed hout hs
        exact ⟨i, p.request, p.ttl, rfl, hknown, hrow, .inl ⟨p, hp, rfl, rfl⟩⟩
  | cancel id =>
    rw [serve] at h
    split at h <;> cases h
  | release i lock client id =>
    have hn := List.mem_singleton.1 h
    generalize ((f.member i).release f.reach f.now lock client id).answer = answer at hn
    cases answer <;> cases hn
  | renew i lock id extension lag =>
    exact absurd (List.mem_singleton.1 h).symm ofRenewal_ne_granted
  | upkeep i interval lags => exact absurd h granted_not_mem_upkeep
  | purge =>
    rw [serve] at h
    split at h <;> cases h
  | clear i => cases List.mem_singleton.1 h
  | status | detect | outage | elapse => cases h

/-! ### Requests -/

/-- The acquisition `id` was asked for through the member `i`, by the call that issued the id. -/
def Asked (f : Cluster ι) (calls : List (Call ι)) (i : ι) (id : LeaseId) (request : LockRequest) :
    Prop :=
  ∃ past later lag, calls = past ++ .acquire i id request lag :: later ∧
    id ∉ (f.runCalls past).2.issued

/-- What has been asked for was asked for before, or has just been asked for. -/
theorem asked_concat :
    f.Asked (calls ++ [c]) i id request ↔
      f.Asked calls i id request ∨
        ∃ lag, c = .acquire i id request lag ∧ id ∉ (f.runCalls calls).2.issued := by
  constructor
  · rintro ⟨past, later, lag, heq, hfresh⟩
    rcases List.eq_nil_or_concat later with rfl | ⟨later, d, rfl⟩
    · obtain ⟨rfl, hc⟩ := List.append_inj' heq rfl
      exact .inr ⟨lag, List.singleton_inj.1 hc, hfresh⟩
    · rw [List.concat_eq_append, ← List.cons_append, ← List.append_assoc] at heq
      obtain ⟨rfl, -⟩ := List.append_inj' heq rfl
      exact .inl ⟨past, later, lag, rfl, hfresh⟩
  · rintro (⟨past, later, lag, rfl, hfresh⟩ | ⟨lag, rfl, hfresh⟩)
    · exact ⟨past, later ++ [c], lag, by simp, hfresh⟩
    · exact ⟨calls, [], lag, rfl, hfresh⟩

theorem not_asked_nil : ¬ f.Asked [] i id request := by
  rintro ⟨past, later, lag, heq, -⟩
  simp at heq

theorem Asked.append (h : f.Asked calls i id request) (later : List (Call ι)) :
    f.Asked (calls ++ later) i id request := by
  obtain ⟨past, rest, lag, rfl, hfresh⟩ := h
  exact ⟨past, rest ++ later, lag, by simp, hfresh⟩

theorem Asked.mem_issued (h : f.Asked calls i id request) : id ∈ (f.runCalls calls).2.issued := by
  induction calls using List.reverseRecOn with
  | nil => exact absurd h not_asked_nil
  | append_singleton calls c ih =>
    rw [runCalls_concat]
    rcases asked_concat.1 h with h | ⟨lag, rfl, hfresh⟩
    · exact mem_issued_serve c (ih h)
    · dsimp only
      rw [serve, if_neg hfresh]
      exact List.mem_cons_self

/-- An id was asked for once. -/
theorem Asked.unique {request' : LockRequest} (h : f.Asked calls i id request)
    (h' : f.Asked calls j id request') : i = j ∧ request = request' := by
  induction calls using List.reverseRecOn with
  | nil => exact absurd h not_asked_nil
  | append_singleton calls c ih =>
    rcases asked_concat.1 h with hpast | ⟨lag, rfl, hfresh⟩
    · rcases asked_concat.1 h' with hpast' | ⟨_, -, hfresh'⟩
      · exact ih hpast hpast'
      · exact absurd hpast.mem_issued hfresh'
    · rcases asked_concat.1 h' with hpast' | ⟨_, heq, -⟩
      · exact absurd hpast'.mem_issued hfresh
      · cases heq
        exact ⟨rfl, rfl⟩

/-- In every run, an acquisition that waits was asked for, and the length of its lease follows from
the request. -/
theorem pending_asked (hstart : f.IsStart) (calls : List (Call ι))
    (hp : (f.runCalls calls).2.pending id = some (i, p)) :
    f.Asked calls i id p.request ∧ p.ttl = (f.member i).config.ttlFor p.request.ttl := by
  induction calls using List.reverseRecOn with
  | nil =>
    have hnone := hstart.pending id
    rw [show f.pending id = some (i, p) from hp] at hnone
    cases hnone
  | append_singleton calls c ih =>
    rw [runCalls_concat] at hp
    rcases pending_serve hp with hp | ⟨lag, rfl, hfresh, httl⟩
    · exact (ih hp).imp_left (·.append [c])
    · rw [config_runCalls] at httl
      exact ⟨asked_concat.2 (.inr ⟨lag, rfl, hfresh⟩), httl⟩

/-- In every run, a lease that is granted was asked for and is the one that answers the request at
the end of the call; it is known at once, and it is in the store, where it counts from the beginning
of the call. -/
theorem granted_asked (hstart : f.IsStart) (calls : List (Call ι)) (c : Call ι)
    (hl : .granted l ∈ ((f.runCalls calls).2.serve c).1) :
    ∃ i request ttl, f.Asked (calls ++ [c]) i l.id request ∧
      ttl = (f.member i).config.ttlFor request.ttl ∧
      l = request.lease l.id ttl (f.runCalls (calls ++ [c])).2.now ∧
      ((f.runCalls (calls ++ [c])).2.member i).registry.lease? l.id = some l ∧
      (f.runCalls (calls ++ [c])).2.store.row? l.lock =
        some ⟨l.id, (request.lease l.id ttl (f.runCalls calls).2.now).expiresAt⟩ := by
  obtain ⟨i, request, ttl, hlease, hknown, hrow, horigin⟩ :=
    granted_serve (wellFormed_runCalls hstart.wellFormed calls) hl
  rw [← now_serve] at hlease
  rw [runCalls_concat]
  rcases horigin with ⟨p, hp, rfl, rfl⟩ | ⟨lag, rfl, hfresh, rfl⟩
  · obtain ⟨hasked, httl⟩ := pending_asked hstart calls hp
    exact ⟨i, p.request, p.ttl, hasked.append [c], httl, hlease, hknown, hrow⟩
  · exact ⟨i, request, _, asked_concat.2 (.inr ⟨lag, rfl, hfresh⟩),
      congrArg (·.ttlFor request.ttl) (config_runCalls f calls i), hlease, hknown, hrow⟩

end Cluster

end LeaseLock
