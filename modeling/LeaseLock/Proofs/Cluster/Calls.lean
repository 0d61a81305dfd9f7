import LeaseLock.Proofs.Cluster.Moves
import LeaseLock.Proofs.Coordinator.Operations

/-!
# Calls as moves

Every call of a cluster is a sequence of moves, and the notices of the moves are those in the answer
to the call (`Cluster.moves_serve`). From this comes the induction over runs
(`Cluster.run_invariant`), and the one over runs in which the time that passes within calls is
bounded (`Cluster.run_invariant_of_within`).

During an outage no operation on the store succeeds, so a store that has answered is the store of
the cluster.

A pass of upkeep is the one call that makes many moves. It is taken candidate by candidate
(`Cluster.PassPart`), each of which finds the store and the registry that the one before has left,
at the time that the clock shows by then.

## Bounds on the time within calls

Moves are made within bounds on the time that passes in one of them (`Lags`), because what a grant
or a renewal is worth depends on it. A call comes with the times that it took, so it has a bound,
and finitely many calls have one in common (`Cluster.exists_within`). An invariant that holds for
all bounds is therefore proved of a run without any condition on the calls, and one that names a
bound asks for it.

## What an invariant is about

It is about the cluster and all notices so far. It is shown for the start and for each move, with
well-formed clusters on both sides, and then holds behind every run. No proof about runs splits
into the cases of calls again unless it is about a call as a whole.
-/

namespace LeaseLock

/-! ### The store during an outage -/

namespace Store

variable {s : Store} {now : Nat} {lock : LockName} {id : LeaseId} {ttl : Duration}

/-- Out of reach, nothing is taken. -/
theorem take_outOfReach : s.outOfReach.take now lock id ttl = .error MemoryStore.outage := by
  cases s <;> rfl

theorem free_outOfReach : s.outOfReach.free now lock id = .error MemoryStore.outage := by
  cases s <;> rfl

theorem extend_outOfReach : s.outOfReach.extend now lock id ttl = .error MemoryStore.outage := by
  cases s <;> rfl

end Store

namespace Cluster

variable {ι : Type} [DecidableEq ι] {b : Lags} {f f' : Cluster ι} {h n : List Notice}
  {lock : LockName} {id : LeaseId} {ttl : Duration} {s : Store} {done : Bool} {now : Nat}

omit [DecidableEq ι] in
/-- If an operation that fails out of reach has succeeded, then on the store itself. -/
theorem store_of_reach {α : Type} {g : Store → Except StoreFault α} {a : α}
    (hout : g f.store.outOfReach = .error MemoryStore.outage) (hs : g f.reach = .ok a) :
    f.outage = false ∧ g f.store = .ok a := by
  cases ho : f.outage with
  | false =>
    rw [reach_of_outage ho] at hs
    exact ⟨rfl, hs⟩
  | true =>
    have hfail : g f.reach = .error MemoryStore.outage := by
      rw [reach, if_pos ho]
      exact hout
    rw [hfail] at hs
    cases hs

omit [DecidableEq ι] in
/-- A key that was taken was taken in the store of the cluster. -/
theorem reach_take (hs : f.reach.take now lock id ttl = .ok (done, s)) :
    f.outage = false ∧ f.store.Taken s now lock id ttl done := by
  obtain ⟨ho, hs⟩ := store_of_reach (g := fun s ↦ s.take now lock id ttl) Store.take_outOfReach hs
  exact ⟨ho, Store.take_spec hs⟩

omit [DecidableEq ι] in
/-- A key that was freed was freed in the store of the cluster. -/
theorem reach_free (hs : f.reach.free now lock id = .ok (done, s)) :
    f.outage = false ∧ f.store.Changed s now lock id none done := by
  obtain ⟨ho, hs⟩ := store_of_reach (g := fun s ↦ s.free now lock id) Store.free_outOfReach hs
  exact ⟨ho, Store.free_spec hs⟩

omit [DecidableEq ι] in
/-- A key that was extended was extended in the store of the cluster. -/
theorem reach_extend (hs : f.reach.extend now lock id ttl = .ok (done, s)) :
    f.outage = false ∧ f.store.Changed s now lock id (some ⟨id, now + ttl.keyMillis⟩) done := by
  obtain ⟨ho, hs⟩ :=
    store_of_reach (g := fun s ↦ s.extend now lock id ttl) Store.extend_outOfReach hs
  exact ⟨ho, Store.extend_spec hs⟩

/-! ### Releases and renewals -/

/-- A release is a move with a notice of its answer. -/
theorem moves_release (f : Cluster ι) (i : ι) (lock : LockName) (client : ClientId) (id : LeaseId) :
    Moves b f [.ofRelease lock id ((f.member i).release f.reach f.now lock client id).answer]
      (f.put i ((f.member i).release f.reach f.now lock client id)) := by
  rw [Coordinator.release]
  cases hfree : f.reach.free f.now lock id with
  | error fault =>
    dsimp only
    rw [put_reach, enter_member]
    exact (Move.refuse f lock id _ (.inr ⟨fault, rfl⟩)).moves
  | ok r =>
    obtain ⟨b, s⟩ := r
    obtain ⟨ho, hs⟩ := reach_free hfree
    cases b with
    | false =>
      obtain ⟨rfl, hlost⟩ := hs
      dsimp only
      rw [← reach_of_outage ho, put_reach, enter_member]
      exact (Move.refuse f lock id _ (.inl ⟨rfl, hlost⟩)).moves
    | true =>
      dsimp only
      rw [put_of_outage ho]
      exact (Move.free f i lock client id s hs).moves

omit [DecidableEq ι] in
/-- A renewal that reaches the store now is turned away and changes nothing, or it extends the key
and is noted. -/
theorem renew_cases {start lag : Nat} (hnow : f.now = start + lag) (i : ι) (lock : LockName)
    (id : LeaseId) (extension : Option Duration) :
    (∃ fault, (f.member i).renew f.reach start lock id extension lag =
        ⟨.error fault, f.reach, f.member i⟩ ∧
      ((fault = .notOwner lock ∧ ∀ row, f.store.live? f.now lock = some row → row.lease ≠ id) ∨
        ∃ e, fault = .storeUnavailable e)) ∨
    ∃ s target, f.outage = false ∧ target = (f.member i).renewalEnd start id extension ∧
      (f.member i).renew f.reach start lock id extension lag =
        ⟨.ok ((f.member i).noteRenewal id target).1, s, ((f.member i).noteRenewal id target).2⟩ ∧
      f.store.Changed s f.now lock id
        (some ⟨id, f.now + (Duration.ofMillis (target - start)).keyMillis⟩) true := by
  rw [Coordinator.renew, ← hnow]
  cases hextend : f.reach.extend f.now lock id
      (.ofMillis ((f.member i).renewalEnd start id extension - start)) with
  | error fault =>
    exact .inl ⟨_, rfl, .inr ⟨fault, rfl⟩⟩
  | ok r =>
    obtain ⟨done, s⟩ := r
    obtain ⟨ho, hs⟩ := reach_extend hextend
    cases done with
    | false =>
      obtain ⟨rfl, hlost⟩ := hs
      dsimp only
      rw [← reach_of_outage ho] at hlost ⊢
      exact .inl ⟨_, rfl, .inl ⟨rfl, hlost⟩⟩
    | true => exact .inr ⟨s, _, ho, rfl, rfl, hs⟩

/-- A renewal is a move with a notice of its answer, at the time when it is over. -/
theorem moves_renew {start lag : Nat} (hnow : f.now = start + lag) (hlag : lag ≤ b.renewal) (i : ι)
    (lock : LockName) (id : LeaseId) (extension : Option Duration) :
    Moves b f [.ofRenewal lock id ((f.member i).renew f.reach start lock id extension lag).answer]
      (f.put i ((f.member i).renew f.reach start lock id extension lag)) := by
  obtain ⟨fault, hrenew, hfault⟩ | ⟨s, target, ho, htarget, hrenew, hs⟩ :=
    renew_cases hnow i lock id extension
  · rw [hrenew, put_reach, enter_member]
    exact (Move.refuse f lock id fault hfault).moves
  · rw [hrenew, put_of_outage ho]
    exact (Move.extend f i lock id start target extension s (by omega) (by omega) htarget hs).moves

/-! ### Acquisitions -/

/-- A wait that goes on or ends has not ended with the lock. -/
theorem resume_ne_acquired (w : Wait) (tick : Nat) : w.resume tick ≠ .stop .acquired := by
  rw [Wait.resume]
  split <;> simp

/-- A wait that goes on or ends in vain. -/
theorem moves_proceed (now : Nat) {i : ι} {p : Pending} (hp : f.pending p.id = some (i, p))
    {w : WaitStep} (hw : w ≠ .stop .acquired) :
    Moves b f ((f.member i).proceed now p w).1.notices
      (f.answered i p.id
        ⟨((f.member i).proceed now p w).1, f.reach, ((f.member i).proceed now p w).2⟩) := by
  rw [answered, put_reach]
  have hleave : ∀ c : Coordinator, c.registry.granted = (f.member i).registry.granted →
      Moves b f [] ((f.enter i c).await p.id none) := fun c hc ↦
    .head (.quiet f i c hc) (Move.leave _ p.id).moves
  cases w with
  | sleep wake =>
    -- The acquisition waits already, under its own id.
    have hstay : f.await p.id (some (i, p)) = f := by
      rw [await, ← hp, Function.update_eq_self]
    show Moves b f [] ((f.enter i (f.member i)).await p.id (some (i, p)))
    rw [enter_member, hstay]
    exact .refl f
  | stop how =>
    rw [Coordinator.proceed, Coordinator.settle]
    cases how with
    | acquired => exact absurd rfl hw
    | timedOut waited => exact hleave _ rfl
    | failed fault => exact hleave _ rfl

/-- Time may pass behind moves. -/
theorem Moves.pass (h : Moves b f n f') (millis ticks : Nat) :
    Moves b f n (f'.pass millis ticks) := by
  have hall := h.trans (Move.elapse f' millis ticks).moves
  rwa [List.append_nil] at hall

/-- A try is a sequence of moves, as it goes back to sleep or ends one way or the other. -/
theorem moves_poll {i : ι} {p : Pending} {lag : Nat} (hlag : lag ≤ b.grant)
    (hp : f.pending p.id = some (i, p)) :
    Moves b f ((f.member i).poll f.reach f.now f.tick p lag).answer.notices
      ((f.answered i p.id ((f.member i).poll f.reach f.now f.tick p lag)).pass lag lag) := by
  rw [Coordinator.poll]
  cases htake : f.reach.take f.now p.request.lock p.id p.ttl with
  | error fault =>
    exact (moves_proceed (f.now + lag) hp (by simp [Wait.proceed])).pass lag lag
  | ok r =>
    obtain ⟨taken, s⟩ := r
    obtain ⟨ho, hs⟩ := reach_take htake
    cases taken with
    | false =>
      obtain ⟨rfl, -⟩ := hs
      dsimp only
      rw [← reach_of_outage ho]
      exact (moves_proceed (f.now + lag) hp (resume_ne_acquired p.wait (f.tick + lag))).pass lag lag
    | true =>
      dsimp only
      rw [answered, put_of_outage ho]
      let c : Coordinator := { f.member i with
        registry := (f.member i).registry.dismiss p.request.lock p.request.client }
      have haward := Move.award (f.enter i c) i p s lag hlag hp hs
      rw [member_enter_self, enter_enter] at haward
      exact .head (.quiet f i c rfl) haward.moves

/-- So is a request, which issues its id first. -/
theorem moves_acquire {lag : Nat} (hlag : lag ≤ b.grant) (i : ι) (request : LockRequest)
    (hfresh : id ∉ f.issued) :
    Moves b f ((f.member i).acquire f.reach f.now f.tick id request lag).answer.notices
      (((f.issue id).answered i id
        ((f.member i).acquire f.reach f.now f.tick id request lag)).pass lag lag) := by
  -- Every acquisition begins in the same way; what differs is how it goes on.
  let p := (f.member i).pendingFor (f.tick + lag) id request
  have hbegin : Move b f [] ((f.issue id).await id (some (i, p))) := .begin f i p hfresh
  have hp : ((f.issue id).await id (some (i, p))).pending p.id = some (i, p) := by
    rw [pending_await, if_pos (show p.id = id from rfl)]
  have hfail (fault : LockFault) : Moves b f []
      (((f.issue id).answered i id ⟨.ended (.error fault), f.reach, f.member i⟩).pass lag lag) := by
    have hleave := Moves.head hbegin (Move.leave _ id).moves
    rw [await_await] at hleave
    rw [answered, show f.reach = (f.issue id).reach from rfl, put_reach,
      show f.member i = (f.issue id).member i from rfl, enter_member]
    exact hleave.pass lag lag
  rw [Coordinator.acquire]
  split
  · exact hfail _
  split
  · exact hfail _
  cases htake : f.reach.take f.now request.lock id p.ttl with
  | error fault =>
    simp only [show (f.member i).config.ttlFor request.ttl = p.ttl from rfl, htake]
    exact hfail _
  | ok r =>
    obtain ⟨taken, s⟩ := r
    obtain ⟨ho, hs⟩ := reach_take htake
    simp only [show (f.member i).config.ttlFor request.ttl = p.ttl from rfl, htake]
    cases taken with
    | true =>
      have haward := Move.award _ i p s lag hlag hp hs
      change Move b _ _
        ((((((f.issue id).enter i _).withStore s).await id (some (i, p))).await id none).pass lag
          lag) at haward
      rw [await_await] at haward
      dsimp only
      rw [answered, put_of_outage (show (f.issue id).outage = false from ho)]
      exact .head hbegin haward.moves
    | false =>
      obtain ⟨rfl, -⟩ := hs
      dsimp only
      rw [← reach_of_outage ho]
      split
      · exact hfail _
      · let c : Coordinator :=
          { f.member i with registry := (f.member i).registry.enlist request.lock request.client }
        have hwait := moves_proceed (b := b) (f := ((f.issue id).await id (some (i, p))).enter i c)
          (f.now + lag) hp
          (resume_ne_acquired p.wait (f.tick + lag))
        rw [member_enter_self, answered, put_reach, enter_enter] at hwait
        change Moves b _ _ ((((f.issue id).enter i _).await id (some (i, p))).await id _) at hwait
        rw [await_await] at hwait
        dsimp only
        rw [answered, show f.reach = (f.issue id).reach from rfl, put_reach]
        exact (Moves.head hbegin
          (.head (.quiet ((f.issue id).await id (some (i, p))) i c rfl) hwait)).pass lag lag

/-! ### Upkeep -/

/-- A part of a pass that begins with `report` ends with `o` after `t` milliseconds: its moves, with
the notices that it adds, and the locks of the leases that it leaves. -/
structure PassPart (b : Lags) (f : Cluster ι) (i : ι) (report : UpkeepReport) (t : Nat)
    (o : Outcome UpkeepReport) (n : List Notice) : Prop where
  /-- The notices are those of the attempts that are added. -/
  notices : o.answer.notices = report.notices ++ n
  /-- The moves. -/
  moves : Moves b f n ((f.put i o).pass t t)
  /-- The store is the one that coordinators find next. -/
  store : o.store = (f.put i o).reach
  /-- Leases are forgotten or renewed, and stay on their locks. -/
  locks : ∀ k l, o.coordinator.registry.lease? k = some l →
    ∃ l', (f.member i).registry.lease? k = some l' ∧ l'.lock = l.lock

/-- A candidate of a pass is renewed, or turned away and dropped, or left for the next pass. -/
theorem passPart_renewDue {start lag : Nat} (hnow : f.now = start + lag) (hlag : lag ≤ b.renewal)
    (i : ι) (report : UpkeepReport) (l : Lease)
    (hknown : ∀ l', (f.member i).registry.lease? l.id = some l' → l'.lock = l.lock) :
    ∃ n, PassPart b f i report 0
      (Coordinator.renewDue start lag ⟨report, f.reach, f.member i⟩ l) n := by
  rw [Coordinator.renewDue]
  obtain ⟨fault, hrenew, hfault⟩ | ⟨s, target, ho, htarget, hrenew, hs⟩ :=
    renew_cases hnow i l.lock l.id none
  · obtain ⟨rfl, hlost⟩ | ⟨e, rfl⟩ := hfault
    · refine ⟨[.refused l.lock l.id (.notOwner l.lock)], ?_⟩
      simp only [hrenew, Verdict.ofRenewal, if_true]
      constructor
      · simp [UpkeepReport.notices, Notice.ofRenewal]
      · rw [put_reach]
        exact .head (.refuse f _ _ _ (.inl ⟨rfl, hlost⟩)) (Move.drop f i l hknown hlost).moves
      · rw [put_reach]
        rfl
      · exact fun k l' hl' ↦ ⟨l', Registry.lease?_of_remove hl', rfl⟩
    · refine ⟨[.refused l.lock l.id (.storeUnavailable e)], ?_⟩
      simp only [hrenew, Verdict.ofRenewal, reduceCtorEq, if_false]
      constructor
      · simp [UpkeepReport.notices, Notice.ofRenewal]
      · rw [put_reach, enter_member]
        exact (Move.refuse f _ _ _ (.inr ⟨e, rfl⟩)).moves
      · rw [put_reach]
        rfl
      · exact fun k l' hl' ↦ ⟨l', hl', rfl⟩
  · refine ⟨[.renewed l.lock l.id ((f.member i).noteRenewal l.id target).1], ?_⟩
    simp only [hrenew, Verdict.ofRenewal, reduceCtorEq, if_false]
    constructor
    · simp [UpkeepReport.notices, Notice.ofRenewal]
    · rw [put_of_outage ho]
      exact (Move.extend f i l.lock l.id start target none s (by omega) (by omega) htarget hs).moves
    · rw [put_of_outage ho]
      exact (reach_of_outage (f := withStore _ s) ho).symm
    · intro k l' hl'
      rw [Coordinator.registry_noteRenewal, Registry.lease?_noteRenewal] at hl'
      split at hl'
      · next hk =>
        obtain ⟨l'', hl'', rfl⟩ := Option.map_eq_some_iff.1 hl'
        exact ⟨l'', hk ▸ hl'', rfl⟩
      · exact ⟨l', hl', rfl⟩

/-- The candidates of a pass in turn. -/
theorem passPart_renewAll (i : ι) (ls : List Lease) (w : Watch) (f : Cluster ι)
    (report : UpkeepReport) (hnow : w.now = f.now) (hlags : ∀ p ∈ w.lags, p.2 ≤ b.renewal)
    (hknown : ∀ l ∈ ls, ∀ l', (f.member i).registry.lease? l.id = some l' → l'.lock = l.lock) :
    ∃ n t, (Coordinator.renewAll w ⟨report, f.reach, f.member i⟩ ls).1.now = f.now + t ∧
      PassPart b f i report t (Coordinator.renewAll w ⟨report, f.reach, f.member i⟩ ls).2 n := by
  induction ls generalizing w f report with
  | nil =>
    refine ⟨[], 0, hnow, (List.append_nil _).symm, ?_, ?_, fun k l hl ↦ ⟨l, hl, rfl⟩⟩
    · rw [Coordinator.renewAll, put_reach, enter_member]
      exact .refl f
    · rw [Coordinator.renewAll, put_reach, enter_member]
  | cons l ls ih =>
    -- The clock moves on until the renewal of the first candidate reaches the store.
    let t := w.pause + w.lag
    let g := f.pass t t
    have hg : g.now = w.start + w.lag := by
      show f.now + (w.pause + w.lag) = w.now + w.pause + w.lag
      omega
    obtain ⟨n, hpart⟩ := passPart_renewDue hg (Watch.lag_le hlags) i report l
      (hknown l List.mem_cons_self)
    rw [Coordinator.renewAll]
    change PassPart b g i report 0
      (Coordinator.renewDue w.start w.lag ⟨report, f.reach, f.member i⟩ l) n at hpart
    generalize Coordinator.renewDue w.start w.lag ⟨report, f.reach, f.member i⟩ l = o at hpart
    -- The rest of the pass starts from the cluster that the first candidate leaves.
    have ho : o = ⟨o.answer, (g.put i o).reach, (g.put i o).member i⟩ := by
      rw [← hpart.store, put]
      exact congrArg (Outcome.mk o.answer o.store) (member_enter_self g i o.coordinator).symm
    have hmember : (g.put i o).member i = o.coordinator := (congrArg Outcome.coordinator ho).symm
    obtain ⟨n', t', hlater, hrest⟩ := ih w.next (g.put i o) o.answer hg.symm
      (fun p hp ↦ hlags p (List.mem_of_mem_tail hp)) (by
        intro l₁ hl₁ l' hl'
        rw [hmember] at hl'
        obtain ⟨l'', hl'', hlock⟩ := hpart.locks _ _ hl'
        rw [← hlock]
        exact hknown l₁ (List.mem_cons_of_mem _ hl₁) l'' hl'')
    rw [← ho] at hlater hrest
    generalize Coordinator.renewAll w.next o ls = r at hlater hrest
    refine ⟨n ++ n', t + t', ?_, ?_, ?_, ?_, ?_⟩
    · rw [hlater, ← Nat.add_assoc]
      rfl
    · rw [hrest.notices, hpart.notices, List.append_assoc]
    · have hmoves := hrest.moves
      rw [put_put] at hmoves
      have hall := Moves.head (.elapse f t t) (hpart.moves.trans hmoves)
      rwa [show (g.put i r.2).pass t' t' = ((f.put i r.2).pass t t).pass t' t' from rfl,
        pass_pass] at hall
    · have hstore := hrest.store
      rwa [put_put] at hstore
    · intro k l' hl'
      obtain ⟨l'', hl'', hlock⟩ := hrest.locks k l' hl'
      rw [hmember] at hl''
      obtain ⟨l₃, hl₃, hlock₃⟩ := hpart.locks k l'' hl''
      exact ⟨l₃, hl₃, hlock₃.trans hlock⟩

/-- An operation replaces the coordinator that it is about. -/
theorem put_enter {α : Type} (f : Cluster ι) (i : ι) (c : Coordinator) (o : Outcome α) :
    (f.enter i c).put i o = f.put i o := by
  show ((f.enter i c).enter i o.coordinator).withStore _ = _
  rw [enter_enter]
  rfl

/-- Purging the store that a member finds. -/
theorem moves_purge {m : Nat} (hs : f.reach.purge f.now = .ok (m, s)) :
    Moves b f [] (if f.outage then f else f.withStore s) := by
  cases ho : f.outage with
  | false =>
    rw [reach_of_outage ho] at hs
    exact (Move.purge f s m hs).moves
  | true => exact .refl f

/-- The purge at the end of a pass. -/
theorem moves_purgeAfter {i : ι} {o : Outcome UpkeepReport} {t : Nat}
    (hmoves : Moves b f n ((f.put i o).pass t t)) (hstore : o.store = (f.put i o).reach) :
    Moves b f n ((f.put i (Coordinator.purgeAfter (f.now + t) o)).pass t t) ∧
      (Coordinator.purgeAfter (f.now + t) o).answer.notices = o.answer.notices := by
  rw [Coordinator.purgeAfter]
  cases hpurge : o.store.purge (f.now + t) with
  | error fault => exact ⟨hmoves, rfl⟩
  | ok r =>
    obtain ⟨m, s⟩ := r
    rw [hstore] at hpurge
    refine ⟨?_, rfl⟩
    let g := (f.put i o).pass t t
    have hput (a : UpkeepReport) : (f.put i ⟨a, s, o.coordinator⟩).pass t t =
        if g.outage then g else g.withStore s := by
      show _ = if f.outage then g else g.withStore s
      cases ho : f.outage <;> simp [g, pass, put, enter, withStore, ho]
    have hall := hmoves.trans (moves_purge (f := g) hpurge)
    rw [List.append_nil] at hall
    dsimp only
    rw [hput]
    exact hall

/-- A pass of upkeep, with a notice for each renewal that it tried. -/
theorem moves_upkeep (hf : f.WellFormed) (i : ι) (interval : Duration) {lags : List (Nat × Nat)}
    (hlags : ∀ p ∈ lags, p.2 ≤ b.renewal) :
    Moves b f (match ((f.member i).upkeep f.reach f.now interval lags).answer with
        | .ok report => report.notices
        | .error _ => [])
      ((f.put i ((f.member i).upkeep f.reach f.now interval lags)).pass
        (Watch.total lags) (Watch.total lags)) := by
  -- The candidates are leases of the pruned registry, so the prune is a move of its own.
  let f₁ := f.disturb i ((f.member i).registry.prune f.now).1
  have hprune : Move b f [] f₁ := .prune f i
  have hmember : f₁.member i =
      { f.member i with registry := ((f.member i).registry.prune f.now).1 } :=
    member_enter_self f i _
  rw [Coordinator.upkeep, show f.reach = f₁.reach from rfl]
  dsimp only
  rw [← hmember]
  generalize htook : Watch.total lags = took
  cases interval.double? with
  | none =>
    dsimp only
    rw [← put_enter f i (f₁.member i), hmember, show f.enter i _ = f₁ from rfl, put_reach,
      ← hmember, enter_member]
    exact hprune.moves.pass took took
  | some window =>
    dsimp only
    obtain ⟨n, t, hlater, hpart⟩ := passPart_renewAll (b := b) i
      ((f₁.member i).dueForRenewal f.now window.wholeMillis) ⟨f.now, lags⟩ f₁
      { pruned := ((f.member i).registry.prune f.now).2 } rfl hlags (by
        intro l hl l' hl'
        have hkeyed : (f₁.member i).registry.Keyed := (hprune.wellFormed hf).registry i
        rw [hkeyed.mem_leases_iff.1 (List.mem_filter.1 hl).1] at hl'
        rw [Option.some.inj hl'])
    have hlast := (Coordinator.precedes_renewAll ⟨f.now, lags⟩
      ((f₁.member i).dueForRenewal f.now window.wholeMillis)
      ⟨{ pruned := ((f.member i).registry.prune f.now).2 }, f₁.reach, f₁.member i⟩).last_eq
    generalize Coordinator.renewAll ⟨f.now, lags⟩ _ _ = r at hlater hpart hlast ⊢
    -- The clock moves on to the purge, and behind it to the end of the pass.
    have hpurge := moves_purgeAfter (t := t + r.1.pause) (by
      rw [← pass_pass]
      exact hpart.moves.pass r.1.pause r.1.pause) hpart.store
    have hstart : f₁.now + (t + r.1.pause) = r.1.start := by
      rw [Watch.start, hlater, Nat.add_assoc]
    rw [hstart, hpart.notices] at hpurge
    obtain ⟨hmoves, hnotices⟩ := hpurge
    have hend : t + r.1.pause + (took - (t + r.1.pause)) = took := by
      have hover : f.now + (t + r.1.pause) + r.1.lag ≤ f.now + took := calc
        _ = r.1.start + r.1.lag := congrArg (· + r.1.lag) hstart
        _ ≤ r.1.last := r.1.start_add_lag_le_last
        _ = f.now + took := hlast.trans (congrArg (f.now + ·) htook)
      omega
    have hall := hmoves.pass (took - (t + r.1.pause)) (took - (t + r.1.pause))
    rw [pass_pass, hend] at hall
    generalize Coordinator.purgeAfter _ _ = o at hall hnotices ⊢
    rw [hnotices]
    show Moves b f ([] ++ n) ((f.put i o).pass took took)
    rw [← put_enter f i { f.member i with registry := ((f.member i).registry.prune f.now).1 }]
    exact .head hprune hall

end Cluster

/-! ### Bounds for a call -/

namespace Call

open Cluster

variable {ι : Type} {c : Call ι} {b : Lags} {d d' : Nat}

/-- If each of finitely many things has a bound, and every greater number is one as well, then they
have a common one. -/
theorem exists_common_bound {α : Type} {P : Nat → α → Prop}
    (hmono : ∀ {d d' x}, P d x → d ≤ d' → P d' x) (hP : ∀ x, ∃ d, P d x) (xs : List α) :
    ∃ d, ∀ x ∈ xs, P d x := by
  induction xs with
  | nil => exact ⟨0, List.forall_mem_nil _⟩
  | cons x xs ih =>
    obtain ⟨d, hd⟩ := hP x
    obtain ⟨d', hd'⟩ := ih
    exact ⟨max d d', List.forall_mem_cons.2 ⟨hmono hd (Nat.le_max_left _ _),
      fun y hy ↦ hmono (hd' y hy) (Nat.le_max_right _ _)⟩⟩

/-- The time that passes within the call keeps to the bounds. -/
def Within (b : Lags) (c : Call ι) : Prop := c.GrantsWithin b.grant ∧ c.RenewsWithin b.renewal

theorem GrantsWithin.mono (h : c.GrantsWithin d) (hle : d ≤ d') : c.GrantsWithin d' := by
  cases c with
  | acquire | poll => exact Nat.le_trans h hle
  | _ => trivial

theorem RenewsWithin.mono (h : c.RenewsWithin d) (hle : d ≤ d') : c.RenewsWithin d' := by
  cases c with
  | renew => exact Nat.le_trans h hle
  | upkeep => exact fun p hp ↦ Nat.le_trans (h p hp) hle
  | _ => trivial

/-- Every call has a bound on its grants. -/
theorem exists_grantsWithin (c : Call ι) : ∃ d, c.GrantsWithin d := by
  cases c with
  | acquire i id request lag => exact ⟨lag, Nat.le_refl lag⟩
  | poll id lag => exact ⟨lag, Nat.le_refl lag⟩
  | _ => exact ⟨0, trivial⟩

/-- Every call has a bound on its renewals. -/
theorem exists_renewsWithin (c : Call ι) : ∃ d, c.RenewsWithin d := by
  cases c with
  | renew i lock id extension lag => exact ⟨lag, Nat.le_refl lag⟩
  | upkeep i interval lags =>
    exact exists_common_bound (P := fun d p ↦ p.2 ≤ d) Nat.le_trans
      (fun p ↦ ⟨p.2, Nat.le_refl _⟩) lags
  | _ => exact ⟨0, trivial⟩

end Call

namespace Cluster

variable {ι : Type} [DecidableEq ι] {b : Lags} {f f' : Cluster ι} {h n : List Notice}

omit [DecidableEq ι] in
/-- There are bounds to which all calls of a run keep. -/
theorem exists_within (es : List (Event ι)) : ∃ b, ∀ c, Event.call c ∈ es → c.Within b := by
  have hcommon {P : Nat → Call ι → Prop} (hmono : ∀ {d d' c}, P d c → d ≤ d' → P d' c)
      (hP : ∀ c, ∃ d, P d c) : ∃ d, ∀ e ∈ es, ∀ c, e = Event.call c → P d c := by
    refine Call.exists_common_bound (fun h hle c hc ↦ hmono (h c hc) hle) (fun e ↦ ?_) es
    cases e with
    | disturb i r keyed => exact ⟨0, fun c hc ↦ by cases hc⟩
    | call c =>
      obtain ⟨d, hd⟩ := hP c
      exact ⟨d, fun c' hc' ↦ by cases hc'; exact hd⟩
  obtain ⟨d, hd⟩ := hcommon (P := Call.GrantsWithin) Call.GrantsWithin.mono
    Call.exists_grantsWithin
  obtain ⟨d', hd'⟩ := hcommon (P := Call.RenewsWithin) Call.RenewsWithin.mono
    Call.exists_renewsWithin
  exact ⟨⟨d, d'⟩, fun c hc ↦ ⟨hd _ hc c rfl, hd' _ hc c rfl⟩⟩

/-! ### Runs -/

/-- Every call is made of moves, and the notices in its answer are theirs. -/
theorem moves_serve (hf : f.WellFormed) {c : Call ι} (hc : c.Within b) :
    Moves b f (f.serve c).1 (f.serve c).2 := by
  cases c with
  | acquire i id request lag =>
    rw [serve]
    split
    · exact (Move.elapse f lag lag).moves
    · next hfresh => exact moves_acquire hc.1 i request hfresh
  | poll id lag =>
    rw [serve]
    split
    · exact (Move.elapse f lag lag).moves
    · next i p hp =>
      obtain ⟨rfl, -⟩ := hf.pending id i p hp
      exact moves_poll hc.1 hp
  | cancel id =>
    rw [serve]
    split
    · exact .refl f
    · next i p hp => exact .head (.quiet f i ((f.member i).cancel p) rfl) (Move.leave _ id).moves
  | release i lock client id => exact moves_release f i lock client id
  | renew i lock id extension lag =>
    have hnow : (f.pass lag lag).now = f.now + lag := rfl
    exact .head (.elapse f lag lag) (moves_renew hnow hc.2 i lock id extension)
  | upkeep i interval lags =>
    have hmoves := moves_upkeep hf i interval hc.2
    rw [serve]
    split <;> next report hanswer => rwa [hanswer] at hmoves
  | purge =>
    rw [serve]
    split
    · next hpurge => exact moves_purge hpurge
    · exact .refl f
  | status i lock lag => exact (Move.elapse f lag lag).moves
  | detect i => exact (Move.quiet f i ((f.member i).detect f.now).2 rfl).moves
  | clear i => exact (Move.clear f i).moves
  | outage on => exact (Move.outage f on).moves
  | elapse millis ticks => exact (Move.elapse f millis ticks).moves

/-- Every call is a sequence of moves within some bounds. -/
theorem exists_moves_serve (hf : f.WellFormed) (c : Call ι) :
    ∃ b, Moves b f (f.serve c).1 (f.serve c).2 := by
  obtain ⟨d, hd⟩ := c.exists_grantsWithin
  obtain ⟨d', hd'⟩ := c.exists_renewsWithin
  exact ⟨⟨d, d'⟩, moves_serve hf ⟨hd, hd'⟩⟩

/-- Every event keeps clusters well-formed. -/
theorem wellFormed_step (hf : f.WellFormed) (e : Event ι) : (f.step e).2.WellFormed := by
  cases e with
  | call c =>
    obtain ⟨b, hmoves⟩ := exists_moves_serve hf c
    exact (hmoves.invariant (P := fun _ _ ↦ True) (h := [])
      (fun _ _ _ _ _ _ _ ↦ trivial) hf trivial).1
  | disturb i r keyed => exact hf.enter keyed

/-- Every run keeps clusters well-formed. -/
theorem wellFormed_run (hf : f.WellFormed) (es : List (Event ι)) : (f.run es).2.WellFormed := by
  induction es generalizing f with
  | nil => exact hf
  | cons e es ih => exact ih (wellFormed_step hf e)

/-- What every disturbance of a run and every move within the bounds preserve, the run preserves if
its calls keep to the bounds. -/
theorem run_invariant_of_within {P : Cluster ι → List Notice → Prop} (es : List (Event ι))
    (hes : ∀ c, .call c ∈ es → c.Within b)
    (hmove : ∀ f h n f', f.WellFormed → P f h → Move b f n f' → P f' (h ++ n))
    (hdisturb : ∀ i r keyed, Event.disturb i r keyed ∈ es → ∀ f h, P f h → P (f.disturb i r) h)
    (hf : f.WellFormed) (hP : P f h) : P (f.run es).2 (h ++ (f.run es).1) := by
  induction es generalizing f h with
  | nil =>
    rw [run, List.append_nil]
    exact hP
  | cons e es ih =>
    have hstep : P (f.step e).2 (h ++ (f.step e).1) := by
      cases e with
      | call c => exact ((moves_serve hf (hes c List.mem_cons_self)).invariant hmove hf hP).2
      | disturb i r keyed =>
        rw [step, List.append_nil]
        exact hdisturb i r keyed List.mem_cons_self f h hP
    rw [run, ← List.append_assoc]
    exact ih (fun c hc ↦ hes c (List.mem_cons_of_mem _ hc))
      (fun i r keyed hmem ↦ hdisturb i r keyed (List.mem_cons_of_mem _ hmem))
      (wellFormed_step hf e) hstep

/-- What every move and every disturbance of a run preserve, the run preserves. -/
theorem run_invariant {P : Cluster ι → List Notice → Prop} (es : List (Event ι))
    (hmove : ∀ {b} f h n f', f.WellFormed → P f h → Move b f n f' → P f' (h ++ n))
    (hdisturb : ∀ i r keyed, Event.disturb i r keyed ∈ es → ∀ f h, P f h → P (f.disturb i r) h)
    (hf : f.WellFormed) (hP : P f h) : P (f.run es).2 (h ++ (f.run es).1) := by
  obtain ⟨b, hes⟩ := exists_within es
  exact run_invariant_of_within es hes hmove hdisturb hf hP

end Cluster

end LeaseLock
