import LeaseLock.Proofs.Cluster.Requests

/-!
# No registration outlives its wait

A coordinator lists the clients that wait through it, and the deadlock detector believes the list.
Whoever is on it waits: the client has asked this coordinator for the lock, and the acquisition has
neither been answered nor given up. So while nobody waits the list is empty.

An acquisition is registered when it begins to wait, and its registration goes on every way out:
with the lease, with the deadline, with a failure of the store, and with the client. The list is a
set of pairs, so one acquisition can take away the registration of another one of the same pair.
The converse of what is shown here does not hold for that reason.

The invariant names a witness for every pair on a list (`Cluster.Registered`): an acquisition that
waits through that coordinator, for that client and that lock. It is shown call by call and not move
by move: moves leave open what a registry says of those who wait, so that a grant and the end of the
registration before it need not be one move. What the registry knows of leases does not enter.
-/

namespace LeaseLock

namespace Cluster

variable {ι : Type} [DecidableEq ι] {f f' : Cluster ι} {i : ι} {id : LeaseId}

/-- Whoever is listed as waiting waits. -/
structure Registered (f : Cluster ι) : Prop where
  /-- A client that a member lists has an acquisition that waits. -/
  pending : ∀ i lock client, (f.member i).registry.Waits lock client →
    ∃ id p, f.pending id = some (i, p) ∧ p.request.lock = lock ∧ p.request.client = client
  /-- No member lists a lock without clients. -/
  noneEmpty : ∀ i, NoneEmpty (f.member i).registry.waiting

omit [DecidableEq ι] in
/-- A call that leaves the acquisitions that wait as they are, and the registrations too. -/
theorem Registered.of_waiting_eq (h : f.Registered) (hpending : f'.pending = f.pending)
    (hwaiting : ∀ j, (f'.member j).registry.waiting = (f.member j).registry.waiting) :
    f'.Registered where
  pending j lock client hwaits := by
    rw [hpending]
    exact h.pending j lock client ((Registry.waits_congr (hwaiting j)).1 hwaits)
  noneEmpty j := by
    rw [hwaiting j]
    exact h.noneEmpty j

/-- Operations on leases touch no registration. -/
theorem Registered.enter (h : f.Registered) (i : ι) {c : Coordinator}
    (hc : (f.member i).OnlyLeases c) : (f.enter i c).Registered := by
  refine h.of_waiting_eq rfl fun j ↦ ?_
  rw [member_enter]
  split
  · next hj => rw [hj, hc.waiting]
  · rfl

/-- An operation of a member on leases. -/
theorem Registered.put {α : Type} (h : f.Registered) (i : ι) {o : Outcome α}
    (ho : (f.member i).OnlyLeases o.coordinator) : (f.put i o).Registered :=
  (h.enter i ho).of_waiting_eq rfl fun _ ↦ rfl

omit [DecidableEq ι] in
theorem Registered.pass (h : f.Registered) (millis ticks : Nat) :
    (f.pass millis ticks).Registered :=
  h.of_waiting_eq rfl fun _ ↦ rfl

/-- A step of the acquisition `id` of the member `i`. Behind it the acquisition waits or not, as `q`
says. A registration that is left is the one of `q`, or it was there before and is not the one with
which the acquisition waited. -/
theorem Registered.await (h : f.Registered) {c : Coordinator} {q : Option Pending}
    (hmember : f'.member = Function.update f.member i c)
    (hpending : f'.pending = Function.update f.pending id (q.map (i, ·)))
    (hid : ∀ j p, f.pending id = some (j, p) → j = i)
    (hnone : NoneEmpty c.registry.waiting)
    (hwaits : ∀ lock client, c.registry.Waits lock client →
      (∃ p, q = some p ∧ p.request.lock = lock ∧ p.request.client = client) ∨
        (f.member i).registry.Waits lock client ∧ ∀ p, f.pending id = some (i, p) →
          ¬ (lock = p.request.lock ∧ client = p.request.client)) : f'.Registered where
  pending j lock client hj := by
    -- An acquisition under another id waits on.
    have hother (k : LeaseId) (hk : k ≠ id) : f'.pending k = f.pending k := by
      rw [hpending, Function.update_of_ne hk]
    by_cases hji : j = i
    · subst hji
      rw [hmember, Function.update_self] at hj
      rcases hwaits lock client hj with ⟨p, rfl, hlock, hclient⟩ | ⟨hold, hgone⟩
      · refine ⟨id, p, ?_, hlock, hclient⟩
        rw [hpending, Function.update_self, Option.map_some]
      · obtain ⟨k, p, hp, hlock, hclient⟩ := h.pending j lock client hold
        refine ⟨k, p, ?_, hlock, hclient⟩
        rw [hother k, hp]
        rintro rfl
        exact hgone p hp ⟨hlock.symm, hclient.symm⟩
    · rw [hmember, Function.update_of_ne hji] at hj
      obtain ⟨k, p, hp, hlock, hclient⟩ := h.pending j lock client hj
      refine ⟨k, p, ?_, hlock, hclient⟩
      rw [hother k, hp]
      rintro rfl
      exact hji (hid j p hp)
  noneEmpty j := by
    rw [hmember, Function.update_apply]
    split
    · exact hnone
    · exact h.noneEmpty j

/-- A client that begins to wait is registered with its own acquisition. -/
theorem registered_acquire (hf : f.WellFormed) (h : f.Registered) (i : ι) (request : LockRequest)
    (hfresh : id ∉ f.issued) (lag : Nat) :
    (f.serve (.acquire i id request lag)).2.Registered := by
  have hunused : ∀ j p, f.pending id ≠ some (j, p) :=
    fun j p hp ↦ hfresh (hf.pending id j p hp).2
  have hsame (lock : LockName) (client : ClientId) (hw : (f.member i).registry.Waits lock client) :
      (f.member i).registry.Waits lock client ∧ ∀ p, f.pending id = some (i, p) →
        ¬ (lock = p.request.lock ∧ client = p.request.client) :=
    ⟨hw, fun p hp ↦ absurd hp (hunused i p)⟩
  have hid : ∀ j p, f.pending id = some (j, p) → j = i := fun j p hp ↦ absurd hp (hunused j p)
  rw [serve, if_neg hfresh]
  refine Registered.pass ?_ lag lag
  obtain ⟨fault, ho⟩ | ⟨s, -, ho⟩ | ⟨wake, ho⟩ | ⟨fault, ho⟩ :=
    (f.member i).acquire_cases f.reach f.now f.tick id request lag
  · rw [ho]
    exact h.await rfl rfl hid (h.noneEmpty i) fun lock client hw ↦ .inr (hsame lock client hw)
  · have hgrant := (f.member i).onlyLeases_grant (f.now + lag) request id
      ((f.member i).config.ttlFor request.ttl)
    rw [ho]
    refine h.await rfl rfl hid ?_ fun lock client hw ↦ .inr (hsame lock client ?_)
    · exact hgrant.waiting ▸ h.noneEmpty i
    · exact (Registry.waits_congr hgrant.waiting).1 hw
  · rw [ho]
    refine h.await rfl rfl hid (Registry.noneEmpty_link (h.noneEmpty i)) fun lock client hw ↦ ?_
    rcases Registry.waits_enlist.1 hw with ⟨rfl, rfl⟩ | hw
    · exact .inl ⟨_, rfl, rfl, rfl⟩
    · exact .inr (hsame lock client hw)
  · rw [ho]
    refine h.await rfl rfl hid
      (Registry.noneEmpty_unlink (Registry.noneEmpty_link (h.noneEmpty i))) fun lock client hw ↦ ?_
    -- The registration has gone as it came.
    obtain ⟨hw, hne⟩ := Registry.waits_dismiss.1 hw
    rcases Registry.waits_enlist.1 hw with heq | hw
    · exact absurd heq hne
    · exact .inr (hsame lock client hw)

/-- The registration of an acquisition that ends goes with it. -/
theorem Registered.leave (h : f.Registered) {p : Pending} (hp : f.pending id = some (i, p))
    {c : Coordinator} (hc : ((f.member i).cancel p).OnlyLeases c)
    (hmember : f'.member = Function.update f.member i c)
    (hpending : f'.pending = Function.update f.pending id none) : f'.Registered := by
  refine h.await (q := none) hmember hpending (fun j p' hp' ↦ ?_) ?_ fun lock client hw ↦ ?_
  · rw [hp] at hp'
    cases hp'
    rfl
  · rw [hc.waiting]
    exact Registry.noneEmpty_unlink (h.noneEmpty i)
  · obtain ⟨hw, hne⟩ := Registry.waits_dismiss.1 ((Registry.waits_congr hc.waiting).1 hw)
    refine .inr ⟨hw, fun p' hp' ↦ ?_⟩
    rw [hp] at hp'
    cases hp'
    exact hne

/-- A try that ends the wait takes the registration with it, and another one leaves it. -/
theorem registered_poll (h : f.Registered) (id : LeaseId) (lag : Nat) :
    (f.serve (.poll id lag)).2.Registered := by
  rw [serve]
  split
  · exact h.pass lag lag
  · next i p hp =>
    refine Registered.pass ?_ lag lag
    obtain ⟨wake, ho⟩ | ⟨fault, ho⟩ | ⟨s, -, ho⟩ :=
      (f.member i).poll_cases f.reach f.now f.tick p lag
    · -- The acquisition waits on, with the registration that it has.
      have hstay : f.answered i id ((f.member i).poll f.reach f.now f.tick p lag) = f := by
        rw [ho, answered, put_reach, enter_member]
        show f.await id (some (i, p)) = f
        rw [Cluster.await, ← hp, Function.update_eq_self]
      rw [hstay]
      exact h
    · rw [ho]
      exact h.leave hp (.refl _) rfl rfl
    · rw [ho]
      exact h.leave hp (Coordinator.onlyLeases_grant ..) rfl rfl

/-- Every call keeps the registrations to those who wait. -/
theorem registered_serve (hf : f.WellFormed) (h : f.Registered) (c : Call ι) :
    (f.serve c).2.Registered := by
  cases c with
  | acquire i id request lag =>
    by_cases hfresh : id ∈ f.issued
    · rw [serve, if_pos hfresh]
      exact h.pass lag lag
    · exact registered_acquire hf h i request hfresh lag
  | poll id lag => exact registered_poll h id lag
  | cancel id =>
    rw [serve]
    split
    · exact h
    · next i p hp => exact h.leave hp (.refl _) rfl rfl
  | release i lock client id => exact h.put i (Coordinator.onlyLeases_release ..)
  | renew i lock id extension lag => exact (h.put i (Coordinator.onlyLeases_renew ..)).pass lag lag
  | upkeep i interval lags =>
    have hput := h.put i ((f.member i).onlyLeases_upkeep f.reach f.now interval lags)
    rw [serve]
    split <;> exact hput.pass ..
  | purge =>
    rw [serve]
    split
    · dsimp only
      split <;> exact h.of_waiting_eq rfl fun _ ↦ rfl
    · exact h
  | status i lock lag => exact h.pass lag lag
  | detect i => exact h.enter i ⟨rfl, rfl, rfl⟩
  | clear i =>
    refine ⟨fun j lock client hw ↦ ?_, fun j ↦ ?_⟩
    · replace hw : ((f.enter i (f.member i).clear).member j).registry.Waits lock client := hw
      rw [member_enter] at hw
      split at hw
      · exact absurd hw (Registry.not_waits_of_waiting_eq_empty rfl)
      · exact h.pending j lock client hw
    · show NoneEmpty ((f.enter i (f.member i).clear).member j).registry.waiting
      rw [member_enter]
      split
      · exact noneEmpty_empty
      · exact h.noneEmpty j
  | outage on => exact h.of_waiting_eq rfl fun _ ↦ rfl
  | elapse millis ticks => exact h.pass millis ticks

omit [DecidableEq ι] in
/-- At the start nobody is registered. -/
theorem IsStart.registered (hstart : f.IsStart) : f.Registered := by
  constructor
  · intro i lock client hw
    exact absurd hw (Registry.not_waits_of_waiting_eq_empty (by rw [hstart.registry i]))
  · intro i
    rw [hstart.registry i]
    exact noneEmpty_empty

/-- Every run keeps to it. -/
theorem registered_runCalls (hstart : f.IsStart) (calls : List (Call ι)) :
    (f.runCalls calls).2.Registered := by
  induction calls using List.reverseRecOn with
  | nil => exact hstart.registered
  | append_singleton calls c ih =>
    rw [runCalls_concat]
    exact registered_serve (wellFormed_runCalls hstart.wellFormed calls) ih c

/-- **No registration leaks.** After any calls, every client that a coordinator lists as waiting for
a lock has asked it for that lock and still waits; so while no acquisition of a coordinator waits,
its list is empty and its figures count nobody. -/
theorem pending_of_mem_waiters (f : Cluster ι) (hstart : f.IsStart) (calls : List (Call ι))
    (i : ι) :
    (∀ lock clients client, (lock, clients) ∈ ((f.runCalls calls).2.member i).waiters →
      client ∈ clients → ∃ id p, (f.runCalls calls).2.pending id = some (i, p) ∧
        f.Asked calls i id p.request ∧ p.request.lock = lock ∧ p.request.client = client) ∧
    ((∀ id p, (f.runCalls calls).2.pending id ≠ some (i, p)) →
      ((f.runCalls calls).2.member i).waiters = [] ∧
        ((f.runCalls calls).2.member i).stats.waitingClients = 0) := by
  have hregistered := registered_runCalls hstart calls
  constructor
  · intro lock clients client hmem hclient
    obtain ⟨id, p, hp, hlock, hname⟩ := hregistered.pending i lock client ⟨clients, hmem, hclient⟩
    exact ⟨id, p, hp, (pending_asked hstart calls hp).1, hlock, hname⟩
  · intro hnobody
    refine Registry.waiters_eq_nil_of_not_waits (hregistered.noneEmpty i) fun lock client hw ↦ ?_
    obtain ⟨id, p, hp, -⟩ := hregistered.pending i lock client hw
    exact hnobody id p hp

/-- Two clients wait for a lock; the time of one of them runs out. -/
def queue : List (Call Bool) :=
  [.acquire true "a" { lock := "L", client := "x" },
   .acquire false "b" { lock := "L", client := "y", wait := .ofSecs 60 },
   .acquire false "c" { lock := "L", client := "z", wait := .ofSecs 1 },
   .elapse 1000 1000, .poll "c"]

/-- Behind the calls one client is left on the list of one coordinator, and its acquisition waits.
The other coordinator counts nobody. -/
theorem pending_of_mem_waiters_queue :
    pair.IsStart ∧ ((pair.runCalls queue).2.member false).waiters = [("L", ["y"])] ∧
      (∃ id p, (pair.runCalls queue).2.pending id = some (false, p) ∧
        pair.Asked queue false id p.request ∧ p.request.lock = "L" ∧ p.request.client = "y") ∧
      ((pair.runCalls queue).2.member true).stats.waitingClients = 0 := by
  have hlisted : ((pair.runCalls queue).2.member false).waiters = [("L", ["y"])] := by decide
  have hnobody : ∀ id p, (pair.runCalls queue).2.pending id ≠ some (true, p) := by
    intro id p hp
    have hissued : id ∈ ["c", "b", "a"] :=
      ((wellFormed_runCalls isStart_pair.wellFormed queue).pending id true p hp).2
    simp only [List.mem_cons, List.not_mem_nil, or_false] at hissued
    rcases hissued with rfl | rfl | rfl <;> cases hp
  exact ⟨isStart_pair, hlisted,
    (pending_of_mem_waiters pair isStart_pair queue false).1 "L" ["y"] "y"
      (hlisted ▸ List.mem_cons_self) List.mem_cons_self,
    ((pending_of_mem_waiters pair isStart_pair queue true).2 hnobody).2⟩

end Cluster

end LeaseLock
