import LeaseLock.Proofs.Cluster.Known
import LeaseLock.Proofs.Cluster.Serve
import LeaseLock.Proofs.Coordinator.Holdings

/-!
# Holdings and leases of a coordinator

A coordinator lists which locks a client holds beside the leases themselves. Whatever is done
through the coordinators of a cluster, a lock that is listed for a client is that of a lease of the
client. The converse fails by stray releases (`Cluster.not_agree_leftover`): a coordinator knows a
lease that has been lost, its client has got the lock again through another coordinator, and then
releases it through the first one. The new lease is unknown there, so nothing is removed but the
lock from the client's holdings, and the old lease stays without it.

**Holdings and leases agree as long as no release is stray.** In every run, the holdings of a
coordinator say what its leases say, all the time, if and only if no release is made through it that
leaves a lease of the same client for the same lock (`Cluster.holdings_agree_iff_no_stray`). The
clock plays no part in this, so calls are made here at whatever times the clock reads.

## Which releases are stray

A release takes the lease with its id, and the lock from the holdings of its client. If both are of
one lease nothing else can be listed for the two, since a lock has one lease in a registry. A stray
release presents an id that the coordinator does not know as that lease, for a client and a lock of
which it does know one. The condition looks at the registry before the release and at its
arguments, so it can be checked when the call is made (`Cluster.Stray`).
-/

namespace LeaseLock

namespace Cluster

variable {ι : Type} [DecidableEq ι] {f f' : Cluster ι} {h : List Notice} {i j : ι} {id : LeaseId}
  {lock : LockName} {client : ClientId} {l : Lease} {c : Call ι} {now : Nat}

/-! ### Calls -/

/-- The call releases a lock through the member `i`, which knows another lease of the same client
for the lock. -/
def Stray (f : Cluster ι) (i : ι) : Call ι → Prop
  | .release j lock client id =>
    j = i ∧ ((f.member j).release f.reach f.now lock client id).answer = .ok () ∧
      ∃ l ∈ (f.member j).leases, l.holder = client ∧ l.lock = lock ∧ l.id ≠ id
  | _ => False

/-- What is kept whatever is called: registries are tidy, and what they say was said in notices. -/
structure Orderly (f : Cluster ι) : Prop where
  /-- Registries and acquisitions that wait are well formed. -/
  wellFormed : f.WellFormed
  /-- Ids are granted once, and what the registries say was said. -/
  history : ∃ h, f.GrantedOnce h ∧ f.Attributed h
  /-- The registries are tidy. -/
  tidy : ∀ i, (f.member i).registry.Tidy

omit [DecidableEq ι] in
/-- An id that is yet to be granted is known nowhere. -/
theorem Orderly.lease?_eq_none (ho : f.Orderly) (i : ι)
    (hfresh : id ∉ f.issued ∨ f.pending id ≠ none) :
    (f.member i).registry.lease? id = none := by
  obtain ⟨h, hg, ha⟩ := ho.history
  refine Option.eq_none_iff_forall_ne_some.2 fun l hl ↦ ?_
  obtain ⟨l₀, hl₀, hid, hlock, -⟩ := ha.granted i id l hl
  obtain ⟨hissued, hpending⟩ := hg.settled l.lock id ⟨l₀, hl₀, hlock, hid⟩
  exact hfresh.elim (fun hnew ↦ hnew hissued) fun hwaits ↦ hwaits hpending

omit [DecidableEq ι] in
/-- A lease that has a row is known for the lock of the row, if it is known. -/
theorem Orderly.lock_of_row {e : Nat} (ho : f.Orderly) (hrow : f.store.row? lock = some ⟨id, e⟩)
    (hl : (f.member i).registry.lease? id = some l) : l.lock = lock := by
  obtain ⟨h, hg, ha⟩ := ho.history
  obtain ⟨l₀, hl₀, hid, hlock, -⟩ := ha.granted i id l hl
  exact hg.unique _ _ id ⟨l₀, hl₀, hlock, hid⟩ (hg.row lock id e hrow)

/-- What one member does touches no other registry. -/
theorem Orderly.preserves_enter (ho : f.Orderly) {c : Coordinator}
    (hc : (f.member i).registry.Preserves c.registry) (j : ι) :
    (f.member j).registry.Preserves ((f.enter i c).member j).registry := by
  rw [member_enter]
  split
  · next hj => exact hj ▸ hc
  · exact ⟨ho.tidy j, id⟩

/-- Every call but a release keeps registries tidy and complete. -/
theorem Orderly.preserves_serve (ho : f.Orderly) (hc : ∀ i lock client id,
    c ≠ .release i lock client id) (j : ι) :
    (f.member j).registry.Preserves ((f.serve c).2.member j).registry := by
  have hrefl : (f.member j).registry.Preserves (f.member j).registry := ⟨ho.tidy j, id⟩
  cases c with
  | acquire i id request lag =>
    rw [serve]
    split
    · exact hrefl
    · next hfresh =>
      exact ho.preserves_enter (i := i) (Coordinator.preserves_acquire (ho.tidy i)
        (ho.lease?_eq_none i (.inl hfresh)) f.reach f.now f.tick request lag) j
  | poll id lag =>
    rw [serve]
    split
    · exact hrefl
    · next i p hp =>
      obtain ⟨rfl, -⟩ := ho.wellFormed.pending id i p hp
      have hwaits : f.pending p.id ≠ none := by
        rw [hp]
        exact Option.some_ne_none _
      exact ho.preserves_enter (i := i) (Coordinator.preserves_poll (ho.tidy i)
        (ho.lease?_eq_none i (.inr hwaits)) f.reach f.now f.tick lag) j
  | cancel id =>
    rw [serve]
    split
    · exact hrefl
    · next i p _ =>
      exact ho.preserves_enter (c := (f.member i).cancel p)
        (Coordinator.preserves_of_eq (ho.tidy i) rfl rfl) j
  | release i lock client id => exact absurd rfl (hc i lock client id)
  | renew i lock id extension lag =>
    refine ho.preserves_enter (i := i) ?_ j
    exact ((f.member i).sameHolders_renew f.reach f.now lock id extension lag).preserves (ho.tidy i)
  | upkeep i interval lags =>
    rw [upkeep_serve]
    exact ho.preserves_enter
      (Coordinator.preserves_upkeep (ho.tidy i) f.reach f.now interval lags) j
  | purge =>
    rw [serve]
    split
    · dsimp only
      split <;> exact hrefl
    · exact hrefl
  | detect i =>
    exact ho.preserves_enter (c := ((f.member i).detect f.now).2)
      (Coordinator.preserves_of_eq (ho.tidy i) rfl rfl) j
  | clear i => exact ho.preserves_enter (Registry.preserves_empty rfl rfl) j
  | status | outage | elapse => exact hrefl

/-- A release keeps registries tidy, and the complete ones complete unless it is stray. -/
theorem Orderly.release (ho : f.Orderly) (i j : ι) (lock : LockName) (client : ClientId)
    (id : LeaseId) :
    ((f.serve (.release i lock client id)).2.member j).registry.Tidy ∧
      ((f.member j).registry.Complete →
        (((f.serve (.release i lock client id)).2.member j).registry.Complete ↔
          ¬ f.Stray j (.release i lock client id))) := by
  show ((f.enter i _).member j).registry.Tidy ∧
    (_ → (((f.enter i _).member j).registry.Complete ↔ _))
  rw [member_enter]
  by_cases hj : j = i
  · subst hj
    rw [if_pos rfl, Stray]
    obtain ⟨fault, hcase⟩ | ⟨s, hfree, hcase⟩ :=
      (f.member j).release_cases f.reach f.now lock client id
    · rw [hcase]
      exact ⟨ho.tidy j, fun hc ↦ iff_of_true hc fun hstray ↦ by cases hstray.2.1⟩
    · obtain ⟨-, ⟨e, he⟩, -⟩ := reach_free hfree
      have hlock (l : Lease) (hl : (f.member j).registry.lease? id = some l) : l.lock = lock :=
        ho.lock_of_row (Store.live?_eq_some_iff.1 he).1 hl
      rw [hcase]
      refine ⟨(ho.tidy j).remove hlock client, fun hc ↦ ?_⟩
      dsimp only
      rw [Registry.complete_remove_iff (ho.tidy j) hc hlock,
        Registry.keeps_remove (ho.tidy j).keyed]
      refine not_congr ⟨?_, ?_⟩
      · rintro ⟨l, hl, hne, hholder, hsame⟩
        exact ⟨rfl, rfl, l, hl, hholder, hsame, hne⟩
      · rintro ⟨-, -, l, hl, hholder, hsame, hne⟩
        exact ⟨l, hl, hne, hholder, hsame⟩
  · rw [if_neg hj]
    exact ⟨ho.tidy j, fun hc ↦ iff_of_true hc fun hstray ↦ hj hstray.1.symm⟩

/-- Every call keeps registries tidy, and the complete ones complete unless it is a stray
release. -/
theorem Orderly.tidy_and_complete_serve (ho : f.Orderly) (c : Call ι) (j : ι) :
    ((f.serve c).2.member j).registry.Tidy ∧
      ((f.member j).registry.Complete →
        (((f.serve c).2.member j).registry.Complete ↔ ¬ f.Stray j c)) := by
  by_cases hc : ∃ i lock client id, c = .release i lock client id
  · obtain ⟨i, lock, client, id, rfl⟩ := hc
    exact ho.release i j lock client id
  · have hne (i : ι) (lock : LockName) (client : ClientId) (id : LeaseId) :
        c ≠ .release i lock client id := fun heq ↦ hc ⟨i, lock, client, id, heq⟩
    have hpreserves := ho.preserves_serve hne j
    refine ⟨hpreserves.tidy, fun hcomplete ↦ iff_of_true (hpreserves.complete hcomplete) ?_⟩
    intro hstray
    cases c with
    | release i lock client id => exact hne i lock client id rfl
    | acquire | poll | cancel | renew | upkeep | purge | status | detect | clear | outage
    | elapse => exact hstray

theorem Orderly.serve (ho : f.Orderly) (c : Call ι) : (f.serve c).2.Orderly where
  wellFormed := wellFormed_step ho.wellFormed (.call c)
  history := by
    obtain ⟨h, hP⟩ := ho.history
    -- Any bounds will do, and every call keeps to some.
    obtain ⟨b, hb⟩ := exists_within [.call c]
    have hmoves := (moves_serve ho.wellFormed (hb c List.mem_cons_self)).invariant
      (P := fun f h ↦ f.GrantedOnce h ∧ f.Attributed h)
      (fun f h n f' hw hP hmove ↦ ⟨hmove.grantedOnce hw hP.1, hmove.attributed hw hP.1 hP.2⟩)
      ho.wellFormed hP
    exact ⟨_, hmoves.2⟩
  tidy j := (ho.tidy_and_complete_serve c j).1

theorem Orderly.pass (ho : f.Orderly) (millis ticks : Nat) : (f.pass millis ticks).Orderly :=
  ho.serve (.elapse millis ticks)

omit [DecidableEq ι] in
/-- What the clock reads does not matter. -/
theorem Orderly.atTime (ho : f.Orderly) (now : Nat) : ({ f with now } : Cluster ι).Orderly where
  wellFormed := ⟨ho.wellFormed.registry, ho.wellFormed.pending⟩
  history := by
    obtain ⟨h, hg, ha⟩ := ho.history
    exact ⟨h, ⟨hg.settled, hg.unique, hg.row⟩, ha.granted, ha.told⟩
  tidy := ho.tidy

omit [DecidableEq ι] in
theorem IsStart.orderly (hstart : f.IsStart) : f.Orderly where
  wellFormed := hstart.wellFormed
  history := ⟨[], hstart.grantedOnce, hstart.attributed⟩
  tidy i := by
    rw [hstart.registry i]
    exact (Registry.preserves_empty (r := {}) rfl rfl).tidy

/-! ### Runs -/

/-- The cluster behind calls, each of which is made when the clock reads what stands beside it. -/
def behind (f : Cluster ι) (calls : List (Nat × Call ι)) : Cluster ι :=
  calls.foldl (fun f call ↦ ({ f with now := call.1 }.serve call.2).2) f

theorem behind_concat (f : Cluster ι) (calls : List (Nat × Call ι)) (now : Nat) (c : Call ι) :
    f.behind (calls ++ [(now, c)]) = ({ f.behind calls with now }.serve c).2 := by
  rw [behind, List.foldl_append]
  rfl

theorem orderly_behind (hstart : f.IsStart) (calls : List (Nat × Call ι)) :
    (f.behind calls).Orderly := by
  induction calls using List.reverseRecOn with
  | nil => exact hstart.orderly
  | append_singleton calls call ih =>
    rw [behind_concat]
    exact (ih.atTime call.1).serve call.2

omit [DecidableEq ι] in
theorem IsStart.complete (hstart : f.IsStart) (i : ι) : (f.member i).registry.Complete := by
  rw [hstart.registry i]
  exact (Registry.preserves_empty (r := {}) rfl rfl).complete fun client lock hkeeps ↦ by
    obtain ⟨k, l, hl, -⟩ := Registry.keeps_iff.1 hkeeps
    cases hl

/-- In every run without stray releases registries are complete. -/
theorem complete_behind (hstart : f.IsStart) (calls : List (Nat × Call ι))
    (hnone : ∀ past now c later, calls = past ++ (now, c) :: later →
      ¬ ({ f.behind past with now } : Cluster ι).Stray i c) :
    ((f.behind calls).member i).registry.Complete := by
  induction calls using List.reverseRecOn with
  | nil => exact hstart.complete i
  | append_singleton calls call ih =>
    obtain ⟨now, c⟩ := call
    have hbefore := ih fun past now' c' later heq ↦
      hnone past now' c' (later ++ [(now, c)]) (by simp [heq])
    rw [behind_concat]
    have ho := (orderly_behind hstart calls).atTime now
    exact ((ho.tidy_and_complete_serve c i).2 hbefore).2 (hnone calls now c [] rfl)

/-- **Holdings and leases agree as long as no release is stray.** In every run, each call at any
reading of the clock, the following are equivalent for a member `i`: at all times the locks that are
listed for the clients are those of the leases, so that the number of clients that hold locks is the
number of holders; and no release is made through `i` while it knows another lease of the same
client for the lock. -/
theorem holdings_agree_iff_no_stray (f : Cluster ι) (hstart : f.IsStart)
    (calls : List (Nat × Call ι)) (i : ι) :
    (∀ past, past <+: calls →
      (∀ client lock, Linked ((f.behind past).member i).registry.holdings client lock ↔
        ∃ l ∈ ((f.behind past).member i).leases, l.holder = client ∧ l.lock = lock) ∧
      ((f.behind past).member i).stats.clientsHolding =
        (((f.behind past).member i).leases.map (·.holder)).dedup.length) ↔
    ∀ past now c later, calls = past ++ (now, c) :: later →
      ¬ ({ f.behind past with now } : Cluster ι).Stray i c := by
  constructor
  · intro hagree past now c later heq hstray
    have ho := (orderly_behind hstart past).atTime now
    have hbefore : ((f.behind past).member i).registry.Complete := fun client lock ↦
      ((hagree past (heq ▸ List.prefix_append ..)).1 client lock).2
    have hbehind : ((f.behind (past ++ [(now, c)])).member i).registry.Complete :=
      fun client lock ↦ ((hagree (past ++ [(now, c)]) ⟨later, by simp [heq]⟩).1 client lock).2
    rw [behind_concat] at hbehind
    exact ((ho.tidy_and_complete_serve c i).2 hbefore).1 hbehind hstray
  · rintro hnone past ⟨rest, rfl⟩
    have htidy := (orderly_behind hstart past).tidy i
    have hcomplete : ((f.behind past).member i).registry.Complete :=
      complete_behind hstart past fun past' now c later heq ↦
        hnone past' now c (later ++ rest) (by simp [heq])
    exact ⟨fun client lock ↦ Registry.linked_iff_keeps htidy hcomplete,
      Registry.clientsHolding_eq htidy hcomplete⟩

/-- A client loses a lease to another client, by way of another coordinator, and the clock is set
back; the lease is listed, and its lock is among the client's, until the coordinator grants the lock
again. -/
def takenOver : List (Nat × Call Bool) :=
  [(5000, .acquire true "a" { lock := "L", client := "x", ttl := some (.ofSecs 1) }),
   (6000, .acquire false "b" { lock := "L", client := "y" }),
   (4000, .release false "L" "y" "b"),
   (4000, .acquire true "c" { lock := "M", client := "x" }),
   (4000, .renew true "M" "c" none)]

theorem holdings_agree_iff_no_stray_takenOver :
    pair.IsStart ∧
      (((pair.behind takenOver).member true).leases.map fun l ↦ (l.holder, l.lock)) =
        [("x", "L"), ("x", "M")] ∧
      ((pair.behind takenOver).member true).stats.clientsHolding = 1 := by
  have hlisted : (((pair.behind takenOver).member true).leases.map fun l ↦ (l.holder, l.lock)) =
      [("x", "L"), ("x", "M")] := by
    decide
  have hagree := (holdings_agree_iff_no_stray pair isStart_pair takenOver true).2 (by
    intro past now c later heq hstray
    have hmem : (now, c) ∈ takenOver := heq ▸ List.mem_append_right past List.mem_cons_self
    -- The one release is made through the other coordinator.
    simp only [takenOver, List.mem_cons, List.not_mem_nil, or_false, Prod.mk.injEq] at hmem
    rcases hmem with ⟨-, rfl⟩ | ⟨-, rfl⟩ | ⟨-, rfl⟩ | ⟨-, rfl⟩ | ⟨-, rfl⟩
    · exact hstray
    · exact hstray
    · exact absurd hstray.1 (by decide)
    · exact hstray
    · exact hstray)
  refine ⟨isStart_pair, hlisted, ?_⟩
  have hholders : ((pair.behind takenOver).member true).leases.map (·.holder) = ["x", "x"] := by
    decide
  rw [(hagree takenOver (List.prefix_refl _)).2, hholders]
  decide

/-- A client loses a lease, gets the lock again through another coordinator, and releases it through
the first one. -/
def leftover : List (Nat × Call Bool) :=
  [(0, .acquire true "a" { lock := "L", client := "x" }),
   (0, .release false "L" "x" "a"),
   (0, .acquire false "b" { lock := "L", client := "x" }),
   (0, .release true "L" "x" "b")]

/-- The first lease is listed still, but its client is not. -/
theorem not_agree_leftover :
    ¬ ∀ (calls : List (Nat × Call Bool)) (i : Bool),
      (∀ client lock, Linked ((pair.behind calls).member i).registry.holdings client lock ↔
        ∃ l ∈ ((pair.behind calls).member i).leases, l.holder = client ∧ l.lock = lock) ∧
      ((pair.behind calls).member i).stats.clientsHolding =
        (((pair.behind calls).member i).leases.map (·.holder)).dedup.length := by
  intro hagree
  have hcount := (hagree leftover true).2
  have hholders : ((pair.behind leftover).member true).leases.map (·.holder) = ["x"] := by decide
  rw [hholders] at hcount
  exact absurd hcount (by decide)

end Cluster

end LeaseLock
