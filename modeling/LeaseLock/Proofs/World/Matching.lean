import LeaseLock.Proofs.Cluster.Serve
import LeaseLock.Proofs.World.Acts

/-!
# Clusters that match a world

A `World` is what the program runs: coordinators with timers, clients that wait and are polled, a
clock with two sides. A `Cluster` is what runs are reasoned about: calls, one after another, and a
history of notices.

A cluster that has the store, the coordinators and the time of a world is the same as the world
(`World.SameAs`), and matches it if the same acquisitions wait in it (`World.Matches`). Which member
of the cluster a coordinator of the world is, a function `e` says, so that a world with one
coordinator is matched by clusters of one member as well as by larger ones.

What is said of a part of a run is that the world behind it follows on a cluster
(`World.Follows`): calls lead from the cluster to one that matches the world. Parts are put together
by `World.Follows.bind`.

## Design

The clients that wait are an argument of `World.Matches`, apart from those of the world itself.
While clients are polled one after another, some of them are neither in the list of the world any
more nor back in it, and they wait all the same.

What is told is not all that happens. A task renews leases without telling anyone, so the notices of
a world are some of those of the cluster; but the leases that are granted are the same.
-/

namespace LeaseLock

/-- The lease that the notice tells of as granted. -/
def Notice.lease? : Notice → Option Lease
  | granted l => some l
  | _ => none

/-- The id under which somebody waits. -/
def Job.id : Job → LeaseId
  | key _ id _ _ => id
  | lease _ pending => pending.id

theorem Clock.now_le_passTo (c : Clock) (tick : Nat) : c.now ≤ (c.passTo tick).now := by
  show (c.base + c.tick).toNat ≤ (c.base + (max c.tick tick : Nat)).toNat
  omega

namespace World

variable {τ ι : Type} {w w' : World τ} {e : Nat → ι} {f f' : Cluster ι} {x : Waiter τ}
  {xs ys : List (Waiter τ)} {i : Nat} {m : Member} {c : Coordinator}
  {ids ids' : List LeaseId}
  {told told' : List Notice}

/-- The coordinator with the given number. -/
def coordinator? (w : World τ) (i : Nat) : Option Coordinator := w.members[i]?.map (·.coordinator)

/-- A member that changes has another coordinator, and the other members have theirs. -/
theorem coordinator?_modify (w : World τ) (i j : Nat) {g : Member → Member}
    {u : Coordinator → Coordinator} (hg : ∀ m, (g m).coordinator = u m.coordinator) :
    { w with members := w.members.modify i g }.coordinator? j =
      if j = i then (w.coordinator? j).map u else w.coordinator? j := by
  rw [coordinator?, List.getElem?_modify, coordinator?]
  by_cases hj : j = i
  · subst hj
    cases w.members[j]? <;> simp [hg]
  · cases w.members[j]? <;> simp [hj, Ne.symm hj]

/-- What else is kept with a coordinator does not matter. -/
theorem coordinator?_modify_of_eq (w : World τ) (i j : Nat) {g : Member → Member}
    (hg : ∀ m, (g m).coordinator = m.coordinator) :
    { w with members := w.members.modify i g }.coordinator? j = w.coordinator? j := by
  rw [w.coordinator?_modify i j (u := id) hg, Option.map_id]
  exact ite_self _

theorem coordinator?_of_member (hm : w.members[i]? = some m) :
    w.coordinator? i = some m.coordinator := by
  rw [coordinator?, hm, Option.map_some]

/-! ### Clusters that match a world -/

/-- The cluster has the store, the coordinators and the time of the world. The coordinator with the
number `i` is the member `e i` of the cluster. -/
structure SameAs (w : World τ) (e : Nat → ι) (f : Cluster ι) : Prop where
  /-- The store. -/
  store : f.store = w.store
  /-- The store is within reach. -/
  outage : f.outage = false
  /-- No two coordinators are one member. -/
  inj : ∀ i j, (w.coordinator? i).isSome → (w.coordinator? j).isSome → e i = e j → i = j
  /-- The coordinators. -/
  member : ∀ i c, w.coordinator? i = some c → f.member (e i) = c
  /-- The time. -/
  now : f.now = w.now
  /-- The milliseconds that have passed. -/
  tick : f.tick = w.tick

/-- The job is that of an acquisition that waits in the cluster. -/
def WaitsIn (w : World τ) (e : Nat → ι) (f : Cluster ι) : Job → Prop
  | .key _ _ _ _ => False
  | .lease i p => (w.coordinator? i).isSome ∧ f.pending p.id = some (e i, p) ∧ p.id ∈ f.issued

/-- The cluster is the same as the world, and all of `xs` wait in it. -/
structure Matches (w : World τ) (e : Nat → ι) (xs : List (Waiter τ)) (f : Cluster ι) : Prop
    extends w.SameAs e f where
  /-- Whoever waits in the world waits in the cluster. -/
  waiting : ∀ x ∈ xs, w.WaitsIn e f x.job
  /-- Everybody waits under an id of his own. -/
  distinct : xs.Pairwise fun x y ↦ x.job.id ≠ y.job.id

/-- The cluster finds the store of the world, as there is no outage. -/
theorem SameAs.reach (h : w.SameAs e f) : f.reach = w.store :=
  (Cluster.reach_of_outage h.outage).trans h.store

/-- The world is what an operation of the coordinator `i` of `v` leaves. -/
structure Behind {α : Type} (v : World τ) (i : Nat) (o : Outcome α) (w : World τ) : Prop where
  /-- There is such a coordinator. -/
  known : (v.coordinator? i).isSome
  /-- The store is that of the outcome. -/
  store : w.store = o.store
  /-- No time has passed. -/
  clock : w.clock = v.clock
  /-- The coordinator is that of the outcome, and the other ones are as before. -/
  coordinator : ∀ j, w.coordinator? j =
    if j = i then (v.coordinator? j).map fun _ ↦ o.coordinator else v.coordinator? j

/-- An operation of a coordinator is the store that it leaves and the coordinator that it leaves. -/
theorem behind_operate {α : Type} (hi : w.coordinator? i = some c) (o : Outcome α) :
    w.Behind i o ({ w with store := o.store }.setCoordinator i o.coordinator) :=
  ⟨Option.isSome_iff_exists.2 ⟨c, hi⟩, rfl, rfl, fun j ↦ coordinator?_modify _ i j fun _ ↦ rfl⟩

/-- The same members are there. -/
theorem Behind.isSome {α : Type} {o : Outcome α} (h : w.Behind i o w') (j : Nat) :
    (w'.coordinator? j).isSome = (w.coordinator? j).isSome := by
  rw [h.coordinator]
  split
  · exact Option.isSome_map
  · rfl

namespace Matches

/-- Whoever waits was issued an id. -/
theorem issued (h : w.Matches e xs f) (hx : x ∈ xs) : x.job.id ∈ f.issued := by
  have hwaits := h.waiting x hx
  obtain ⟨tag, wake, job⟩ := x
  cases job with
  | key => exact hwaits.elim
  | lease i p => exact hwaits.2.2

theorem perm (h : w.Matches e xs f) (hperm : xs.Perm ys) : w.Matches e ys f where
  toSameAs := h.toSameAs
  waiting x hx := h.waiting x (hperm.mem_iff.2 hx)
  distinct := (hperm.pairwise_iff fun hne ↦ hne.symm).1 h.distinct

theorem tail (h : w.Matches e (x :: xs) f) : w.Matches e xs f where
  toSameAs := h.toSameAs
  waiting y hy := h.waiting y (List.mem_cons_of_mem x hy)
  distinct := (List.pairwise_cons.1 h.distinct).2

theorem head_ne (h : w.Matches e (x :: xs) f) : ∀ y ∈ xs, y.job.id ≠ x.job.id :=
  fun y hy ↦ ((List.pairwise_cons.1 h.distinct).1 y hy).symm

/-- One that waits in the cluster can be taken in. -/
theorem cons (h : w.Matches e xs f) (hx : w.WaitsIn e f x.job)
    (hother : ∀ y ∈ xs, y.job.id ≠ x.job.id) : w.Matches e (x :: xs) f where
  toSameAs := h.toSameAs
  waiting y hy := by
    rcases List.mem_cons.1 hy with rfl | hy
    · exact hx
    · exact h.waiting y hy
  distinct := List.pairwise_cons.2 ⟨fun y hy ↦ (hother y hy).symm, h.distinct⟩

/-- The same acquisitions wait under the ids of those who wait. -/
theorem of_pending (h : w.Matches e xs f) (hsame : w'.SameAs e f')
    (hmember : ∀ i, (w'.coordinator? i).isSome = (w.coordinator? i).isSome)
    (hpending : ∀ x ∈ xs, f'.pending x.job.id = f.pending x.job.id)
    (hissued : ∀ id ∈ f.issued, id ∈ f'.issued) : w'.Matches e xs f' where
  toSameAs := hsame
  waiting x hx := by
    have hwaits := h.waiting x hx
    have hkept := hpending x hx
    obtain ⟨tag, wake, job⟩ := x
    cases job with
    | key => exact hwaits
    | lease i p =>
      exact ⟨(hmember i).trans hwaits.1, hkept.trans hwaits.2.1, hissued _ hwaits.2.2⟩
  distinct := h.distinct

/-- What else a world has does not matter. -/
theorem of_coordinators (h : w.Matches e xs f) (hstore : w'.store = w.store)
    (hclock : w'.clock = w.clock) (hsame : ∀ j, w'.coordinator? j = w.coordinator? j) :
    w'.Matches e xs f := by
  refine h.of_pending ?_ (fun j ↦ by rw [hsame]) (fun _ _ ↦ rfl) fun _ hid ↦ hid
  have hcoordinators : w'.coordinator? = w.coordinator? := funext hsame
  exact
    { store := hstore ▸ h.store
      outage := h.outage
      inj := hcoordinators ▸ h.inj
      member := hcoordinators ▸ h.member
      now := h.now.trans (congrArg Clock.now hclock.symm)
      tick := h.tick.trans (congrArg Clock.tick hclock.symm) }

/-- What the world lists for itself does not matter. -/
theorem with_waiters (h : w.Matches e xs f) (hperm : xs.Perm ys) {zs : List (Waiter τ)} :
    { w with waiters := zs }.Matches e ys f :=
  (h.perm hperm).of_coordinators rfl rfl fun _ ↦ rfl

theorem issue (h : w.Matches e xs f) (id : LeaseId) : w.Matches e xs (f.issue id) :=
  h.of_pending { h.toSameAs with } (fun _ ↦ rfl) (fun _ _ ↦ rfl)
    fun _ hid ↦ List.mem_cons_of_mem id hid

/-- Time passes, on the wall clock too. -/
theorem pass (h : w.Matches e xs f) {clock : Clock} (hnow : w.now ≤ clock.now)
    (htick : w.tick ≤ clock.tick) :
    { w with clock }.Matches e xs (f.pass (clock.now - w.now) (clock.tick - w.tick)) := by
  refine h.of_pending { h.toSameAs with now := ?_, tick := ?_ } (fun _ ↦ rfl) (fun _ _ ↦ rfl)
    fun _ hid ↦ hid
  · show f.now + (clock.now - w.now) = clock.now
    rw [h.now, Nat.add_sub_cancel' hnow]
  · show f.tick + (clock.tick - w.tick) = clock.tick
    rw [h.tick, Nat.add_sub_cancel' htick]

/-- One more acquisition waits, or one less. -/
theorem await (h : w.Matches e xs f) {id : LeaseId} (hother : ∀ x ∈ xs, x.job.id ≠ id)
    (p : Option (ι × Pending)) : w.Matches e xs (f.await id p) := by
  refine h.of_pending { h.toSameAs with } (fun _ ↦ rfl) (fun x hx ↦ ?_) fun _ hid ↦ hid
  rw [Cluster.pending_await, if_neg (hother x hx)]


variable [DecidableEq ι]

/-- An operation of a coordinator is the same in the cluster. -/
theorem put {α : Type} (h : w.Matches e xs f) {o : Outcome α} (hw' : w.Behind i o w') :
    w'.Matches e xs (f.put (e i) o) := by
  refine h.of_pending ?_ hw'.isSome (fun _ _ ↦ rfl) fun _ hid ↦ hid
  have hmember (j : Nat) (c : Coordinator) (hc : w'.coordinator? j = some c) :
      (f.enter (e i) o.coordinator).member (e j) = c := by
    have hj : (w.coordinator? j).isSome := by rw [← hw'.isSome, hc, Option.isSome_some]
    rw [hw'.coordinator] at hc
    rw [Cluster.member_enter]
    split at hc
    · next heq =>
      obtain ⟨c', -, rfl⟩ := Option.map_eq_some_iff.1 hc
      rw [if_pos (congrArg e heq)]
    · next hne => rw [if_neg fun heq ↦ hne (h.inj j i hj hw'.known heq), h.member j c hc]
  exact
    { store := by
        rw [Cluster.put_of_outage h.outage, hw'.store]
        rfl
      outage := h.outage
      inj := fun j k hj hk ↦ h.inj j k (hw'.isSome j ▸ hj) (hw'.isSome k ▸ hk)
      member := hmember
      now := h.now.trans (congrArg Clock.now hw'.clock.symm)
      tick := h.tick.trans (congrArg Clock.tick hw'.clock.symm) }

/-- An acquisition is answered, and waits on or does not. -/
theorem answered (h : w.Matches e xs f) {o : Outcome Acquisition} (hw' : w.Behind i o w')
    {id : LeaseId} (hother : ∀ y ∈ xs, y.job.id ≠ id) : w'.Matches e xs (f.answered (e i) id o) :=
  (h.put hw').await hother _

/-- An acquisition is answered that it waits. -/
theorem waiting_answered (h : w.Matches e xs f) {o : Outcome Acquisition}
    (hw' : w.Behind i o w') {p : Pending} {wake : Nat} (ho : o.answer = .waiting p wake)
    (hissued : p.id ∈ f.issued) (hother : ∀ y ∈ xs, y.job.id ≠ p.id) (tag : τ) :
    w'.Matches e (⟨tag, wake, .lease i p⟩ :: xs) (f.answered (e i) p.id o) := by
  refine (h.answered hw' hother).cons ⟨(hw'.isSome i).trans hw'.known, ?_, hissued⟩ hother
  rw [Cluster.answered, Cluster.pending_await, if_pos rfl, ho]
  rfl

end Matches

variable [DecidableEq ι]

/-! ### Calls that lead from one world to another -/

/-- Calls that take no time lead from the cluster to one that matches the world. -/
structure Traces (w : World τ) (e : Nat → ι) (xs : List (Waiter τ)) (f : Cluster ι)
    (ids : List LeaseId) (told : List Notice) (calls : List (Call ι)) : Prop where
  /-- The calls take no time. -/
  within : ∀ c ∈ calls, c.Within ⟨0, 0⟩
  /-- What is told is in the history. -/
  notices : told.Sublist (f.runCalls calls).1
  /-- The leases that are granted are all told. -/
  granted : told.filterMap Notice.lease? = (f.runCalls calls).1.filterMap Notice.lease?
  /-- No other ids are issued than those. -/
  issued : ∀ id ∈ (f.runCalls calls).2.issued, id ∈ f.issued ∨ id ∈ ids
  /-- The cluster behind the calls matches the world. -/
  behind : w.Matches e xs (f.runCalls calls).2

/-- The world, in which `xs` wait, follows on the cluster, while ids among `ids` are issued and
clients are told `told`. -/
def Follows (w : World τ) (e : Nat → ι) (xs : List (Waiter τ)) (f : Cluster ι)
    (ids : List LeaseId) (told : List Notice) : Prop := ∃ calls, w.Traces e xs f ids told calls

/-- Nothing happens. -/
theorem Matches.follows (h : w.Matches e xs f) : w.Follows e xs f [] [] :=
  ⟨[], nofun, .slnil, rfl, fun _ hid ↦ .inl hid, h⟩

/-- A call is made, and all its notices are told. -/
theorem follows_of_call {c : Call ι} (hc : c.Within ⟨0, 0⟩) (hserve : f.serve c = (told, f'))
    (hissued : ∀ id ∈ f'.issued, id ∈ f.issued ∨ id ∈ ids) (h : w.Matches e xs f') :
    w.Follows e xs f ids told := by
  have hrun : f.runCalls [c] = (told, f') := by
    rw [← List.nil_append [c], Cluster.runCalls_concat]
    exact hserve
  refine ⟨[c], fun d hd ↦ List.mem_singleton.1 hd ▸ hc, ?_, ?_, ?_, ?_⟩
  · simp only [hrun, List.Sublist.refl]
  · rw [hrun]
  · rwa [hrun]
  · rwa [hrun]

/-- Calls are made, and none of them grants anything or is told of. -/
theorem follows_of_silent {calls : List (Call ι)} (hc : ∀ c ∈ calls, c.Within ⟨0, 0⟩)
    (hsilent : ∀ l, .granted l ∉ (f.runCalls calls).1)
    (hissued : (f.runCalls calls).2.issued = f.issued) (h : w.Matches e xs (f.runCalls calls).2) :
    w.Follows e xs f [] [] := by
  refine ⟨calls, hc, List.nil_sublist _, ?_, fun id hid ↦ .inl (hissued ▸ hid), h⟩
  refine (List.filterMap_eq_nil_iff.2 fun n hn ↦ ?_).symm
  cases n with
  | granted l => exact absurd hn (hsilent l)
  | _ => rfl

theorem Follows.mono (h : w.Follows e xs f ids told) (hids : ∀ id ∈ ids, id ∈ ids') :
    w.Follows e xs f ids' told := by
  obtain ⟨calls, hcalls⟩ := h
  exact ⟨calls, { hcalls with issued := fun id hid ↦ (hcalls.issued id hid).imp_right (hids id) }⟩

/-- One thing after another. -/
theorem Follows.bind (h : w.Follows e xs f ids told)
    (hnext : ∀ f', w.Matches e xs f' → (∀ id ∈ f'.issued, id ∈ f.issued ∨ id ∈ ids) →
      w'.Follows e ys f' ids' told') : w'.Follows e ys f (ids ++ ids') (told ++ told') := by
  obtain ⟨calls, hcalls⟩ := h
  obtain ⟨calls', hcalls'⟩ := hnext _ hcalls.behind hcalls.issued
  refine ⟨calls ++ calls', ?_, ?_, ?_, ?_, ?_⟩
  · exact List.forall_mem_append.2 ⟨hcalls.within, hcalls'.within⟩
  · rw [Cluster.runCalls_append]
    exact hcalls.notices.append hcalls'.notices
  · rw [Cluster.runCalls_append, List.filterMap_append, List.filterMap_append, hcalls.granted,
      hcalls'.granted]
  · rw [Cluster.runCalls_append]
    intro id hid
    rcases hcalls'.issued id hid with hid | hid
    · exact (hcalls.issued id hid).imp_right (List.mem_append_left ids')
    · exact .inr (List.mem_append_right ids hid)
  · rw [Cluster.runCalls_append]
    exact hcalls'.behind

/-- One thing after another, without new ids. -/
theorem Follows.andThen (h : w.Follows e xs f [] told)
    (hnext : ∀ f', w.Matches e xs f' → w'.Follows e ys f' [] told') :
    w'.Follows e ys f [] (told ++ told') :=
  h.bind fun f' hf' _ ↦ hnext f' hf'

end World

end LeaseLock
