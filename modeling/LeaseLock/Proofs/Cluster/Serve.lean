import Mathlib.Data.List.Induction
import LeaseLock.Proofs.Cluster.Calls
import LeaseLock.Proofs.Coordinator.Operations

/-!
# What a call leaves alone

A call is read here as a whole, for what it does not touch. Only a fresh request issues an id, and
no call changes the settings of a coordinator or takes the store itself out of reach. As much time
passes as the call says (`Cluster.now_serve`), whatever comes of it. A pass of upkeep grants
nothing, and a coordinator forgets everything only when it is told to.

The notices of an operation tell what it has answered, so what it cannot answer it gives no notice
of.

## One call and many

For each field there is a theorem about one call, by the cases of the calls, and where a run is
asked for one that carries it over the calls of a run. Statements about runs are about what is
behind the calls and do not look at the clusters between them.

The store out of reach (`Cluster.outage`) is a switch that is turned by calls of its own. The store
itself, which answers again once the outage ends, is always there: that is what
`Cluster.ping_serve` says.
-/

namespace LeaseLock

namespace Cluster

variable {ι : Type} [DecidableEq ι] {f : Cluster ι} {id : LeaseId} {l : Lease}

/-! ### Runs of calls -/

/-- Runs can be made one behind the other. The notices are told in that order. -/
theorem runCalls_append (f : Cluster ι) (past later : List (Call ι)) :
    f.runCalls (past ++ later) =
      ((f.runCalls past).1 ++ ((f.runCalls past).2.runCalls later).1,
        ((f.runCalls past).2.runCalls later).2) := by
  induction past generalizing f with
  | nil => rfl
  | cons c past ih =>
    have hrest := ih (f.serve c).2
    show ((f.serve c).1 ++ ((f.serve c).2.runCalls (past ++ later)).1,
      ((f.serve c).2.runCalls (past ++ later)).2) = _
    rw [hrest, ← List.append_assoc]
    rfl

theorem runCalls_concat (f : Cluster ι) (calls : List (Call ι)) (c : Call ι) :
    f.runCalls (calls ++ [c]) =
      ((f.runCalls calls).1 ++ ((f.runCalls calls).2.serve c).1,
        ((f.runCalls calls).2.serve c).2) := by
  have hlast : (f.runCalls calls).2.runCalls [c] =
      (((f.runCalls calls).2.serve c).1 ++ [], ((f.runCalls calls).2.serve c).2) := rfl
  rw [runCalls_append, hlast, List.append_nil]

theorem runCalls_singleton (f : Cluster ι) (c : Call ι) :
    (f.runCalls [c]).2 = (f.serve c).2 :=
  congrArg Prod.snd (f.runCalls_concat [] c)

theorem wellFormed_runCalls (hf : f.WellFormed) (calls : List (Call ι)) :
    (f.runCalls calls).2.WellFormed :=
  wellFormed_run hf _

/-! ### The fields behind a call -/

/-- A call issues the id of a fresh request, and no other. -/
theorem issued_serve (f : Cluster ι) (c : Call ι) :
    (f.serve c).2.issued = f.issued ∨
      ∃ i id request lag, c = .acquire i id request lag ∧ id ∉ f.issued ∧
        (f.serve c).2.issued = id :: f.issued := by
  cases c with
  | acquire i id request lag =>
    rw [serve]
    split
    · exact .inl rfl
    · next hfresh => exact .inr ⟨i, id, request, lag, rfl, hfresh, rfl⟩
  | poll id lag | cancel id | upkeep i interval lags =>
    rw [serve]
    split <;> exact .inl rfl
  | purge =>
    rw [serve]
    split
    · dsimp only
      split <;> exact .inl rfl
    · exact .inl rfl
  | release | renew | status | detect | clear | outage | elapse => exact .inl rfl

/-- An id that was issued stays so. -/
theorem mem_issued_serve (c : Call ι) (h : id ∈ f.issued) : id ∈ (f.serve c).2.issued := by
  rcases f.issued_serve c with hsame | ⟨_, _, _, _, _, _, hmore⟩
  · exact hsame ▸ h
  · rw [hmore]
    exact List.mem_cons_of_mem _ h

/-- No call touches the settings of a coordinator. -/
theorem settings_serve (f : Cluster ι) (c : Call ι) (j : ι) :
    ((f.serve c).2.member j).config = (f.member j).config ∧
      ((f.serve c).2.member j).timing = (f.member j).timing := by
  have henter (i : ι) (c' : Coordinator) (hconfig : c'.config = (f.member i).config)
      (htiming : c'.timing = (f.member i).timing) :
      ((f.enter i c').member j).config = (f.member j).config ∧
        ((f.enter i c').member j).timing = (f.member j).timing := by
    rw [member_enter]
    split
    · next hj => exact hj ▸ ⟨hconfig, htiming⟩
    · exact ⟨rfl, rfl⟩
  have honly (i : ι) {c' : Coordinator} (hc : (f.member i).OnlyLeases c') :
      ((f.enter i c').member j).config = (f.member j).config ∧
        ((f.enter i c').member j).timing = (f.member j).timing :=
    henter i c' hc.config hc.timing
  cases c with
  | acquire i id request lag =>
    rw [serve]
    split
    · exact ⟨rfl, rfl⟩
    · obtain ⟨fault, ho⟩ | ⟨s, -, ho⟩ | ⟨wake, ho⟩ | ⟨fault, ho⟩ :=
        (f.member i).acquire_cases f.reach f.now f.tick id request lag
      all_goals
        exact henter i _ (congrArg (·.coordinator.config) ho) (congrArg (·.coordinator.timing) ho)
  | poll id lag =>
    rw [serve]
    split
    · exact ⟨rfl, rfl⟩
    · next i p hp =>
      obtain ⟨wake, ho⟩ | ⟨fault, ho⟩ | ⟨s, -, ho⟩ :=
        (f.member i).poll_cases f.reach f.now f.tick p lag
      all_goals
        exact henter i _ (congrArg (·.coordinator.config) ho) (congrArg (·.coordinator.timing) ho)
  | cancel id =>
    rw [serve]
    split
    · exact ⟨rfl, rfl⟩
    · exact henter _ _ rfl rfl
  | release i lock client id => exact honly i (Coordinator.onlyLeases_release ..)
  | renew i lock id extension lag => exact honly i (Coordinator.onlyLeases_renew ..)
  | upkeep i interval lags =>
    rw [serve]
    split <;> exact honly i (Coordinator.onlyLeases_upkeep ..)
  | purge =>
    rw [serve]
    split
    · dsimp only
      split <;> exact ⟨rfl, rfl⟩
    · exact ⟨rfl, rfl⟩
  | detect i => exact henter i _ rfl rfl
  | clear i => exact henter i _ rfl rfl
  | status | outage | elapse => exact ⟨rfl, rfl⟩

/-- No run touches the settings of a coordinator, or what its configuration is read as. -/
theorem settings_runCalls (f : Cluster ι) (calls : List (Call ι)) (j : ι) :
    ((f.runCalls calls).2.member j).config = (f.member j).config ∧
      ((f.runCalls calls).2.member j).timing = (f.member j).timing := by
  induction calls using List.reverseRecOn with
  | nil => exact ⟨rfl, rfl⟩
  | append_singleton calls c ih =>
    rw [runCalls_concat]
    obtain ⟨hconfig, htiming⟩ := settings_serve (f.runCalls calls).2 c j
    exact ⟨hconfig.trans ih.1, htiming.trans ih.2⟩

theorem config_runCalls (f : Cluster ι) (calls : List (Call ι)) (j : ι) :
    ((f.runCalls calls).2.member j).config = (f.member j).config :=
  (settings_runCalls f calls j).1

/-- An operation that leaves the store in reach is put back with the store in reach. -/
theorem ping_put {α : Type} {f : Cluster ι} {i : ι} {o : Outcome α}
    (ho : o.store.ping = f.reach.ping) : (f.put i o).store.ping = f.store.ping := by
  show (if f.outage then f.store else o.store).ping = f.store.ping
  cases hout : f.outage with
  | true => rfl
  | false =>
    rw [reach_of_outage hout] at ho
    exact ho

/-- No call takes the store itself out of reach. -/
theorem ping_serve (f : Cluster ι) (c : Call ι) : (f.serve c).2.store.ping = f.store.ping := by
  cases c with
  | acquire i id request lag =>
    rw [serve]
    split
    · rfl
    · exact ping_put (f := f) (i := i) (Coordinator.ping_acquire ..)
  | poll id lag =>
    rw [serve]
    split
    · rfl
    · next i p hp => exact ping_put (f := f) (i := i) (Coordinator.ping_poll ..)
  | cancel id =>
    rw [serve]
    split <;> rfl
  | release i lock client id => exact ping_put (Coordinator.ping_release ..)
  | renew i lock id extension lag =>
    exact ping_put (f := f) (i := i) (Coordinator.ping_renew ..)
  | upkeep i interval lags =>
    rw [serve]
    split <;> exact ping_put (f := f) (i := i) (Coordinator.ping_upkeep ..)
  | purge =>
    rw [serve]
    split
    · next m s hpurge =>
      dsimp only
      cases hout : f.outage with
      | true => rfl
      | false =>
        rw [reach_of_outage hout] at hpurge
        exact Store.ping_purge hpurge
    · rfl
  | status | detect | clear | outage | elapse => rfl

/-- No run takes the store itself out of reach. -/
theorem ping_runCalls (f : Cluster ι) (calls : List (Call ι)) :
    (f.runCalls calls).2.store.ping = f.store.ping := by
  induction calls using List.reverseRecOn with
  | nil => rfl
  | append_singleton calls c ih => rw [runCalls_concat, ping_serve, ih]

/-- The store goes out of reach by an outage only. -/
theorem outage_serve {f : Cluster ι} {c : Call ι} (hc : ∀ on, c ≠ .outage on) :
    (f.serve c).2.outage = f.outage := by
  cases c with
  | acquire | poll | cancel | upkeep =>
    rw [serve]
    split <;> rfl
  | purge =>
    rw [serve]
    split
    · dsimp only
      split <;> rfl
    · rfl
  | outage on => exact absurd rfl (hc on)
  | release | renew | status | detect | clear | elapse => rfl

/-- As much time passes as the call says. -/
theorem now_serve (f : Cluster ι) (c : Call ι) : (f.serve c).2.now = f.now + c.took := by
  cases c with
  | acquire | poll | cancel | upkeep =>
    rw [serve]
    split <;> rfl
  | purge =>
    rw [serve]
    split
    · dsimp only
      split <;> rfl
    · rfl
  | release | renew | status | detect | clear | outage | elapse => rfl

/-- The timer moves on with the wall clock, if it does so while no call is made. -/
theorem tick_serve (f : Cluster ι) {c : Call ι}
    (hc : ∀ millis ticks, c = .elapse millis ticks → ticks = millis) :
    (f.serve c).2.tick = f.tick + c.took := by
  cases c with
  | acquire | poll | cancel | upkeep =>
    rw [serve]
    split <;> rfl
  | purge =>
    rw [serve]
    split
    · dsimp only
      split <;> rfl
    · rfl
  | elapse millis ticks => exact congrArg (f.tick + ·) (hc millis ticks rfl)
  | release | renew | status | detect | clear | outage => rfl

theorem now_le_serve (f : Cluster ι) (c : Call ι) : f.now ≤ (f.serve c).2.now :=
  f.now_serve c ▸ Nat.le_add_right f.now c.took

/-- The cluster behind a pass of upkeep. -/
theorem upkeep_serve (f : Cluster ι) (i : ι) (interval : Duration) (lags : List (Nat × Nat)) :
    (f.serve (.upkeep i interval lags)).2 =
      (f.put i ((f.member i).upkeep f.reach f.now interval lags)).pass
        (Watch.total lags) (Watch.total lags) := by
  rw [serve]
  split <;> rfl

/-! ### Notices that a call does not give -/

/-- A renewal grants nothing, whatever its answer. -/
theorem ofRenewal_ne_granted {lock : LockName} {answer : Except LockFault Renewal} :
    Notice.ofRenewal lock id answer ≠ .granted l := by
  cases answer <;> simp [Notice.ofRenewal]

/-- A pass of upkeep grants nothing. -/
theorem granted_not_mem_upkeep {f : Cluster ι} {i : ι} {interval : Duration}
    {lags : List (Nat × Nat)} {l : Lease} : .granted l ∉ (f.serve (.upkeep i interval lags)).1 := by
  intro h
  rw [serve] at h
  split at h
  · obtain ⟨attempt, -, hn⟩ := List.mem_map.1 h
    exact absurd hn ofRenewal_ne_granted
  · cases h

/-- The end of an acquisition clears nothing. -/
theorem cleared_not_mem_notices (a : Acquisition) : .cleared ∉ a.notices := by
  cases a with
  | ended result => cases result <;> simp [Acquisition.notices]
  | waiting p wake => simp [Acquisition.notices]

theorem ofRenewal_ne_cleared {lock : LockName} {id : LeaseId} {answer : Except LockFault Renewal} :
    Notice.ofRenewal lock id answer ≠ .cleared := by
  cases answer <;> simp [Notice.ofRenewal]

/-- A coordinator forgets everything when it is told to, and only then. -/
theorem cleared_not_mem_serve {f : Cluster ι} {c : Call ι} (hc : ∀ i, c ≠ .clear i) :
    .cleared ∉ (f.serve c).1 := by
  intro h
  cases c with
  | acquire i id request lag =>
    rw [serve] at h
    split at h
    · cases h
    · exact cleared_not_mem_notices _ h
  | poll id lag =>
    rw [serve] at h
    split at h
    · cases h
    · exact cleared_not_mem_notices _ h
  | cancel id =>
    rw [serve] at h
    split at h <;> cases h
  | release i lock client id =>
    have hn := List.mem_singleton.1 h
    generalize ((f.member i).release f.reach f.now lock client id).answer = answer at hn
    cases answer <;> cases hn
  | renew i lock id extension lag => exact absurd (List.mem_singleton.1 h).symm ofRenewal_ne_cleared
  | upkeep i interval lags =>
    rw [serve] at h
    split at h
    · obtain ⟨attempt, -, hn⟩ := List.mem_map.1 h
      exact absurd hn ofRenewal_ne_cleared
    · cases h
  | purge =>
    rw [serve] at h
    split at h <;> cases h
  | clear i => exact hc i rfl
  | status | detect | outage | elapse => cases h

end Cluster

end LeaseLock
