import LeaseLock.Proofs.Cluster.Known
import LeaseLock.Proofs.Cluster.Tasks
import LeaseLock.Proofs.World.Matching

/-!
# A run of a world is a run of a cluster

Whatever happens in a world, it is made of calls (`World.exists_traces`). So whatever holds of every
run of a cluster holds of the program. Two examples are given: what a coordinator remembers of a
lease, a client was told (`World.granted_of_lease?`), and leases in force exclude each other
(`World.exists_excludes`).

Every operation of the world leads from a matching cluster to a matching one: a try of a client is a
poll, a run of tasks is what the tasks call for (`Background.put_run`), and an instant that is
visited is one to which time has passed. That time passes up to a target is shown by induction on
the instants that are visited, and a run of acts by induction on the acts.

## What is supposed

Nobody waits for a key without a coordinator, since a cluster has nobody else at the store. Every id
is given once, and the wall clock is not set back. The calls take no time: in a world everything
that happens at one instant happens at one reading of the clock. So all that is shown of clusters
for calls within bounds holds of worlds with no margin at all.
-/

namespace LeaseLock

namespace Coordinator

/-- An acquisition that waits does so under the id that it was given. -/
theorem id_acquire (c : Coordinator) (s : Store) (now tick : Nat) (id : LeaseId)
    (request : LockRequest) (p : Pending) (wake : Nat)
    (h : (c.acquire s now tick id request).answer = .waiting p wake) : p.id = id := by
  obtain ⟨fault, ho⟩ | ⟨s', -, ho⟩ | ⟨wake, ho⟩ | ⟨fault, ho⟩ :=
    c.acquire_cases s now tick id request 0
  all_goals
    rw [ho] at h
    cases h
  rfl

/-- An acquisition that waits on is the same. -/
theorem pending_poll (c : Coordinator) (s : Store) (now tick : Nat) (p p' : Pending) (wake : Nat)
    (h : (c.poll s now tick p).answer = .waiting p' wake) : p' = p := by
  obtain ⟨wake, ho⟩ | ⟨fault, ho⟩ | ⟨s', -, ho⟩ := c.poll_cases s now tick p 0
  all_goals
    rw [ho] at h
    cases h
  rfl

end Coordinator

namespace World

variable {τ ι : Type} [DecidableEq ι] {w w' : World τ} {e : Nat → ι} {f f' : Cluster ι}
  {x : Waiter τ} {xs ys : List (Waiter τ)} {i : Nat} {m : Member} {c : Coordinator}

/-! ### Operations -/

/-- What leaves the waiting clients alone does so any number of times. -/
theorem waiters_foldl {α : Type} {step : World τ → α → World τ}
    (hstep : ∀ w a, (step w a).waiters = w.waiters) (w : World τ) (as : List α) :
    (as.foldl step w).waiters = w.waiters := by
  induction as generalizing w with
  | nil => rfl
  | cons a as ih => exact (ih _).trans (hstep w a)

theorem waiters_ask {α : Type} (w : World τ) (i : Nat) (g : Coordinator → Store → Outcome α)
    (tell : α → List Notice) : (w.ask i g tell).2.waiters = w.waiters := by
  rw [ask, operate]
  cases w.members[i]? <;> rfl

/-- A coordinator that is asked answers as it answers a call. -/
theorem Matches.ask {α : Type} (h : w.Matches e w.waiters f) {g : Coordinator → Store → Outcome α}
    {tell : α → List Notice} {d : Call ι} (hd : d.Within ⟨0, 0⟩)
    (hserve : f.serve d = (tell (g (f.member (e i)) f.reach).answer,
      f.put (e i) (g (f.member (e i)) f.reach))) :
    (w.ask i g tell).2.Follows e (w.ask i g tell).2.waiters f [] (w.ask i g tell).1 := by
  rw [waiters_ask, World.ask, operate]
  cases hm : w.members[i]? with
  | none => exact h.follows
  | some m =>
    have hi := coordinator?_of_member hm
    rw [h.reach, h.member i m.coordinator hi] at hserve
    exact follows_of_call hd hserve (fun _ hid ↦ .inl hid) (h.put (behind_operate hi _))

/-! ### Acquisitions -/

/-- A client asks for a lock under a fresh id. -/
theorem Matches.acquire (h : w.Matches e w.waiters f) {id : LeaseId} (hfresh : id ∉ f.issued)
    (i : Nat) (tag : τ) (request : LockRequest) :
    (w.act (.acquire i tag id request)).2.Follows e (w.act (.acquire i tag id request)).2.waiters f
      [id] (w.act (.acquire i tag id request)).1 := by
  rw [act, World.acquire, operate]
  cases hm : w.members[i]? with
  | none => exact h.follows.mono fun _ hid ↦ absurd hid List.not_mem_nil
  | some m =>
    have hi := coordinator?_of_member hm
    have hmember := h.member i m.coordinator hi
    have hother : ∀ y ∈ w.waiters, y.job.id ≠ id := fun y hy heq ↦ hfresh (heq ▸ h.issued hy)
    have hserve : f.serve (.acquire (e i) id request) =
        ((m.coordinator.acquire w.store w.now w.tick id request).answer.notices,
          (f.issue id).answered (e i) id
            (m.coordinator.acquire w.store w.now w.tick id request)) := by
      rw [← h.reach, ← hmember, ← h.now, ← h.tick, Cluster.serve, if_neg hfresh]
      rfl
    have hissued : ∀ k ∈ (f.issue id).issued, k ∈ f.issued ∨ k ∈ [id] := fun k hk ↦
      (List.mem_cons.1 hk).symm.imp_right List.mem_singleton.2
    have hid := m.coordinator.id_acquire w.store w.now w.tick id request
    dsimp only [Option.map_some]
    generalize m.coordinator.acquire w.store w.now w.tick id request = o at hserve hid ⊢
    have hw' := behind_operate hi o
    cases hanswer : o.answer with
    | ended result =>
      rw [hanswer] at hserve
      exact follows_of_call (c := .acquire (e i) id request) ⟨Nat.le_refl 0, trivial⟩ hserve hissued
        ((h.issue id).answered hw' hother)
    | waiting p wake =>
      rw [hanswer] at hserve
      obtain rfl := hid p wake hanswer
      have hwaiting :=
        (h.issue p.id).waiting_answered hw' hanswer List.mem_cons_self hother tag
      exact follows_of_call (c := .acquire (e i) p.id request) ⟨Nat.le_refl 0, trivial⟩ hserve
        hissued (hwaiting.with_waiters (List.perm_append_singleton _ _).symm)

/-- Who still waits behind a try. -/
def stillWaiting : Waiter τ ⊕ Reply → List (Waiter τ)
  | .inl x => [x]
  | .inr _ => []

/-- What is told in a try. -/
def replied : Waiter τ ⊕ Reply → List Notice
  | .inl _ => []
  | .inr reply => reply.notices

/-- A client that waits tries again. -/
theorem Matches.poll (h : w.Matches e (x :: xs) f) :
    (w.poll x).2.Follows e (stillWaiting (w.poll x).1 ++ xs) f [] (replied (w.poll x).1) := by
  have hwaits := h.waiting x List.mem_cons_self
  have hother := h.head_ne
  obtain ⟨tag, due, job⟩ := x
  cases job with
  | key => exact hwaits.elim
  | lease i p =>
    obtain ⟨hsome, hpending, hissued⟩ := hwaits
    obtain ⟨c, hi⟩ := Option.isSome_iff_exists.1 hsome
    obtain ⟨m, hm, rfl⟩ := Option.map_eq_some_iff.1 hi
    have hserve : f.serve (.poll p.id) =
        ((m.coordinator.poll w.store w.now w.tick p).answer.notices,
          f.answered (e i) p.id (m.coordinator.poll w.store w.now w.tick p)) := by
      rw [← h.reach, ← h.member i _ hi, ← h.now, ← h.tick, Cluster.serve, hpending]
      rfl
    have hp := m.coordinator.pending_poll w.store w.now w.tick p
    simp only [World.poll, operate, hm, Option.map_some]
    generalize m.coordinator.poll w.store w.now w.tick p = o at hserve hp ⊢
    have hw' := behind_operate hi o
    cases hanswer : o.answer with
    | ended result =>
      rw [hanswer] at hserve
      dsimp only
      exact follows_of_call (c := .poll p.id) ⟨Nat.le_refl 0, trivial⟩ hserve (fun _ hid ↦ .inl hid)
        (h.tail.answered hw' hother)
    | waiting p' wake =>
      rw [hanswer] at hserve
      obtain rfl := hp p' wake hanswer
      exact follows_of_call (c := .poll p'.id) ⟨Nat.le_refl 0, trivial⟩ hserve
        (fun _ hid ↦ .inl hid) (h.tail.waiting_answered hw' hanswer hissued hother tag)

theorem waiters_poll (w : World τ) (x : Waiter τ) : (w.poll x).2.waiters = w.waiters := by
  obtain ⟨tag, due, job⟩ := x
  cases job with
  | key lock id ttl wait =>
    rw [World.poll]
    dsimp only
    cases w.store.take w.now lock id ttl with
    | error fault => dsimp only; split <;> rfl
    | ok r => dsimp only; split <;> rfl
  | lease i p =>
    simp only [World.poll, operate]
    cases w.members[i]? with
    | none => rfl
    | some m =>
      dsimp only [Option.map_some]
      cases (m.coordinator.poll w.store w.now w.tick p).answer <;> rfl

/-- The clients that are due try one after another. -/
theorem Matches.pollAll (h : w.Matches e (xs ++ w.waiters) f) :
    (w.pollAll xs).2.Follows e (w.pollAll xs).2.waiters f []
      ((w.pollAll xs).1.flatMap (·.reply.notices)) := by
  induction xs generalizing w f with
  | nil => exact h.follows
  | cons x xs ih =>
    -- Who has tried goes to the end of those who wait.
    have hback (y : Waiter τ) : (y :: (xs ++ w.waiters)).Perm (xs ++ (w.waiters ++ [y])) := by
      rw [← List.append_assoc]
      exact (List.perm_append_singleton y _).symm
    rw [World.pollAll]
    split
    · have hpoll := Matches.poll h
      have hw := w.waiters_poll x
      generalize w.poll x = r at hpoll hw ⊢
      obtain ⟨outcome, w'⟩ := r
      cases outcome with
      | inl x' =>
        refine hpoll.andThen fun f' hf' ↦ ih (hf'.with_waiters ?_)
        show (x' :: (xs ++ w.waiters)).Perm (xs ++ (w'.waiters ++ [x']))
        rw [hw]
        exact hback x'
      | inr reply =>
        refine hpoll.andThen fun f' hf' ↦ ih ?_
        rw [show w'.waiters = w.waiters from hw]
        exact hf'
    · exact ih (h.with_waiters (hback x))

/-! ### Waits that are given up -/

/-- A client gives up its wait. -/
theorem Matches.withdraw (h : w.Matches e (x :: xs) f) : (w.withdraw x).Follows e xs f [] [] := by
  have hwaits := h.waiting x List.mem_cons_self
  have hother := h.head_ne
  obtain ⟨tag, due, job⟩ := x
  cases job with
  | key => exact hwaits.elim
  | lease i p =>
    obtain ⟨hsome, hpending, -⟩ := hwaits
    obtain ⟨c, hi⟩ := Option.isSome_iff_exists.1 hsome
    obtain ⟨m, hm, rfl⟩ := Option.map_eq_some_iff.1 hi
    have hserve : f.serve (.cancel p.id) =
        ([], (f.put (e i) ⟨(), w.store, m.coordinator.cancel p⟩).await p.id none) := by
      rw [← h.reach, Cluster.put_reach, ← h.member i _ hi, Cluster.serve, hpending]
    rw [World.withdraw]
    dsimp only
    rw [hm]
    have hw' : w.Behind i (⟨(), w.store, m.coordinator.cancel p⟩ : Outcome Unit)
        (w.setCoordinator i (m.coordinator.cancel p)) := behind_operate hi _
    exact follows_of_call (c := .cancel p.id) ⟨trivial, trivial⟩ hserve (fun _ hid ↦ .inl hid)
      ((h.tail.put hw').await hother none)

theorem waiters_withdraw (w : World τ) (x : Waiter τ) : (w.withdraw x).waiters = w.waiters := by
  rw [withdraw]
  split
  · rfl
  · split <;> rfl

theorem Matches.foldl_withdraw (h : w.Matches e (ys ++ xs) f) :
    (ys.foldl World.withdraw w).Follows e xs f [] [] := by
  induction ys generalizing w f with
  | nil => exact h.follows
  | cons y ys ih => exact (Matches.withdraw h).andThen fun f' hf' ↦ ih hf'

/-- Clients give up their waits. -/
theorem Matches.cancel (h : w.Matches e w.waiters f) (p : τ → Bool) :
    (w.cancel p).2.Follows e (w.cancel p).2.waiters f [] [] := by
  have hperm : w.waiters.Perm ((w.waiters.filter fun x ↦ p x.tag) ++
      w.waiters.filter fun x ↦ !p x.tag) :=
    (List.filter_append_perm (fun x : Waiter τ ↦ p x.tag) w.waiters).symm
  rw [World.cancel]
  dsimp only
  rw [waiters_foldl waiters_withdraw]
  exact (h.with_waiters hperm).foldl_withdraw

/-! ### Tasks and time -/

/-- The tasks of a coordinator do what they do by calls. -/
theorem Matches.runTasks (h : w.Matches e xs f) (i : Nat) :
    (w.runTasks i).Follows e xs f [] [] := by
  rw [World.runTasks]
  cases hm : w.members[i]? with
  | none => exact h.follows
  | some m =>
    dsimp only
    cases hb : m.tasks with
    | none => exact h.follows
    | some b =>
      have hi := coordinator?_of_member hm
      have hrun := b.put_run f (e i)
      rw [h.reach, h.member i _ hi, h.now, h.tick] at hrun
      dsimp only
      generalize b.run m.coordinator w.store w.now w.tick = o at hrun ⊢
      refine follows_of_silent (b.within_calls f (e i)) (b.granted_not_mem_calls f (e i))
        (hrun ▸ rfl) (hrun ▸ h.put ⟨hi ▸ rfl, rfl, rfl, fun j ↦ ?_⟩)
      rw [coordinator?, List.getElem?_set, coordinator?]
      by_cases hj : j = i
      · subst hj
        have hlt : j < w.members.length := (List.getElem?_eq_some_iff.1 hm).1
        rw [if_pos rfl, if_pos rfl, if_pos hlt, hm]
        rfl
      · rw [if_neg (Ne.symm hj), if_neg hj]

theorem waiters_runTasks (w : World τ) (i : Nat) : (w.runTasks i).waiters = w.waiters := by
  rw [runTasks]
  split
  · rfl
  · split <;> rfl

theorem Matches.foldl_runTasks (h : w.Matches e xs f) (is : List Nat) :
    (is.foldl World.runTasks w).Follows e xs f [] [] := by
  induction is generalizing w f with
  | nil => exact h.follows
  | cons i is ih => exact (h.runTasks i).andThen fun f' hf' ↦ ih hf'

/-- All that is due at an instant happens. -/
theorem Matches.settle (h : w.Matches e w.waiters f) :
    w.settle.2.Follows e w.settle.2.waiters f [] (w.settle.1.flatMap (·.reply.notices)) := by
  have hpoll : w.pollDue.2.Follows e w.pollDue.2.waiters f []
      (w.pollDue.1.flatMap (·.reply.notices)) := by
    refine Matches.pollAll (h.with_waiters ?_)
    rw [List.append_nil]
  rw [World.settle]
  dsimp only
  generalize w.pollDue = r at hpoll ⊢
  obtain ⟨finished, w'⟩ := r
  rw [waiters_foldl waiters_runTasks]
  have hall := hpoll.andThen fun f' hf' ↦ hf'.foldl_runTasks (List.range w'.members.length)
  rwa [List.append_nil] at hall

/-- The clock moves on. -/
theorem Matches.passTo (h : w.Matches e xs f) (tick : Nat) :
    { w with clock := w.clock.passTo tick }.Follows e xs f [] [] :=
  follows_of_call (c := .elapse _ _) ⟨trivial, trivial⟩ rfl (fun _ hid ↦ .inl hid)
    (h.pass (w.clock.now_le_passTo tick) (Nat.le_max_left _ _))

/-- Time passes up to a target. -/
theorem Matches.advanceTo (h : w.Matches e w.waiters f) (target fuel : Nat) :
    (advanceTo target fuel w).2.Follows e (advanceTo target fuel w).2.waiters f []
      ((advanceTo target fuel w).1.flatMap (·.reply.notices)) := by
  induction fuel generalizing w f with
  | zero => exact h.passTo target
  | succ fuel ih =>
    rw [World.advanceTo]
    split
    · exact h.passTo target
    · next due hdue =>
      split
      · -- The next instant at which something is due, and then the others.
        have hsettle := (h.passTo due).andThen fun f' hf' ↦
          Matches.settle (w := { w with clock := w.clock.passTo due }) hf'
        generalize { w with clock := w.clock.passTo due }.settle = r at hsettle ⊢
        obtain ⟨finished, w'⟩ := r
        rw [List.flatMap_append]
        exact hsettle.andThen fun f' hf' ↦ ih hf'
      · exact h.passTo target

/-! ### Acts -/

/-- What else is kept with a coordinator changes. -/
theorem Matches.modify (h : w.Matches e w.waiters f) (i : Nat) {g : Member → Member}
    (hg : ∀ m, (g m).coordinator = m.coordinator) :
    { w with members := w.members.modify i g }.Follows e w.waiters f [] [] := by
  have hsame : { w with members := w.members.modify i g }.Matches e w.waiters f :=
    h.of_coordinators rfl rfl fun j ↦ w.coordinator?_modify_of_eq i j hg
  exact hsame.follows

/-- A coordinator shuts down. -/
theorem Matches.shutdown (h : w.Matches e w.waiters f) (i : Nat) :
    (w.act (.shutdown i)).2.Follows e (w.act (.shutdown i)).2.waiters f []
      (w.act (.shutdown i)).1 := by
  have hdrop : (w.dropTasks i).2.Matches e w.waiters f :=
    h.of_coordinators rfl rfl fun j ↦ w.coordinator?_modify_of_eq i j fun _ ↦ rfl
  have hknown : (w.dropTasks i).1 = true → ∃ c, (w.dropTasks i).2.coordinator? i = some c := by
    intro hany
    obtain ⟨b, hb⟩ := Option.isSome_iff_exists.1 hany
    obtain ⟨m, hm, -⟩ := Option.bind_eq_some_iff.1 hb
    exact ⟨m.coordinator, (w.coordinator?_modify_of_eq i i (g := fun m ↦ { m with tasks := none })
      fun _ ↦ rfl).trans (coordinator?_of_member hm)⟩
  have hwaiters : (w.dropTasks i).2.waiters = w.waiters := rfl
  rw [World.act, World.shutdown]
  generalize w.dropTasks i = r at hdrop hknown hwaiters ⊢
  obtain ⟨any, w'⟩ := r
  cases any with
  | false =>
    show w'.Follows e w'.waiters f [] []
    rw [show w'.waiters = w.waiters from hwaiters]
    exact hdrop.follows
  | true =>
    obtain ⟨c, hi⟩ := hknown rfl
    have hserve : f.serve (.clear (e i)) = ([.cleared], f.put (e i) ⟨(), w'.store, c.clear⟩) := by
      rw [← hdrop.reach, Cluster.put_reach, ← hdrop.member i c hi]
      rfl
    show World.Follows _ e w'.waiters f [] [.cleared]
    rw [show w'.waiters = w.waiters from hwaiters]
    refine follows_of_call (c := .clear (e i)) ⟨trivial, trivial⟩ hserve (fun _ hid ↦ .inl hid)
      (hdrop.put ⟨Option.isSome_iff_exists.2 ⟨c, hi⟩, rfl, rfl, fun j ↦ ?_⟩)
    rw [coordinator?_modify _ i j (u := Coordinator.clear) fun _ ↦ rfl]
    by_cases hj : j = i
    · subst hj
      rw [if_pos rfl, if_pos rfl, show World.coordinator? _ _ = _ from hi]
      rfl
    · rw [if_neg hj, if_neg hj]

/-- Every act that is allowed is made of calls. -/
theorem Matches.act (h : w.Matches e w.waiters f) {a : Act τ} (hallowed : a.Allowed w)
    (hfresh : ∀ id ∈ a.id?, id ∉ f.issued) :
    (w.act a).2.Follows e (w.act a).2.waiters f a.id?.toList (w.act a).1 := by
  cases a with
  | acquire i tag id request => exact h.acquire (hfresh id rfl) i tag request
  | cancel p => exact h.cancel p
  | release i lock client id =>
    refine h.ask (d := .release (e i) lock client id) ⟨trivial, trivial⟩ ?_
    rw [← h.now]
    rfl
  | renew i lock id extension =>
    refine h.ask (d := .renew (e i) lock id extension) ⟨trivial, Nat.le_refl 0⟩ ?_
    rw [← h.now]
    rfl
  | upkeep i interval =>
    refine h.ask (d := .upkeep (e i) interval) ⟨trivial, nofun⟩ ?_
    rw [← h.now, Cluster.serve]
    cases ((f.member (e i)).upkeep f.reach f.now interval).answer <;> rfl
  | detect i =>
    refine h.ask (d := .detect (e i)) ⟨trivial, trivial⟩ ?_
    rw [← h.now, Cluster.put_reach]
    rfl
  | purge =>
    rw [World.act]
    cases hpurge : w.store.purge w.now with
    | error fault => exact h.follows
    | ok r =>
      obtain ⟨n, store⟩ := r
      have hserve : f.serve .purge = ([], f.withStore store) := by
        rw [Cluster.serve, h.reach, h.now, hpurge, h.outage]
        rfl
      refine follows_of_call (c := .purge) ⟨trivial, trivial⟩ hserve (fun _ hid ↦ .inl hid) ?_
      exact h.of_pending { h.toSameAs with store := rfl } (fun _ ↦ rfl) (fun _ _ ↦ rfl)
        fun _ hid ↦ hid
  | start i => exact h.modify i fun _ ↦ rfl
  | dropTasks i => exact h.modify i fun _ ↦ rfl
  | shutdown i => exact h.shutdown i
  | subscribe i => exact h.modify i fun _ ↦ rfl
  | receive i =>
    rw [World.act, World.receive]
    split
    · exact h.follows
    · split
      · exact h.follows
      · exact h.modify i fun _ ↦ rfl
  | shift ms =>
    have hshift : w.now ≤ (w.clock.shift ms).now := hallowed
    exact follows_of_call (c := .elapse _ _) ⟨trivial, trivial⟩ rfl (fun _ hid ↦ .inl hid)
      (h.pass hshift (Nat.le_refl _))
  | advance ms =>
    have hpass := h.advanceTo (w.tick + ms) (ms + 1)
    rw [World.act, World.advance]
    generalize World.advanceTo (w.tick + ms) (ms + 1) w = r at hpass ⊢
    exact hpass

/-- Acts that are allowed are made of calls, one after another. -/
theorem Matches.perform (h : w.Matches e w.waiters f) {as : List (Act τ)}
    (hallowed : w.AllowsAll as) (hfresh : ∀ id ∈ as.filterMap Act.id?, id ∉ f.issued)
    (honce : (as.filterMap Act.id?).Nodup) :
    (w.perform as).2.Follows e (w.perform as).2.waiters f (as.filterMap Act.id?)
      (w.perform as).1 := by
  induction as generalizing w f with
  | nil => exact h.follows
  | cons a as ih =>
    have hids : (a :: as).filterMap Act.id? = a.id?.toList ++ as.filterMap Act.id? := by
      rw [List.filterMap_cons]
      cases a.id? <;> rfl
    rw [hids] at hfresh honce ⊢
    obtain ⟨-, honce, hdisjoint⟩ := List.nodup_append.1 honce
    have hact := h.act hallowed.1 fun id hid ↦
      hfresh id (List.mem_append_left _ (Option.mem_toList.2 hid))
    refine hact.bind fun f' hf' hissued ↦ ih hf' hallowed.2 (fun id hid hold ↦ ?_) honce
    rcases hissued id hold with hold | hnew
    · exact hfresh id (List.mem_append_right _ hid) hold
    · exact hdisjoint id hnew id hid rfl

/-! ### Runs from the start -/

/-- A world at its start: nothing is kept or known, and nobody waits. -/
structure IsStart (w : World τ) : Prop where
  /-- The store has no rows. -/
  row? : ∀ lock, w.store.row? lock = none
  /-- The registries are empty. -/
  registry : ∀ i c, w.coordinator? i = some c → c.registry = {}
  /-- Nobody waits. -/
  waiters : w.waiters = []

-- Whatever the clock shows, a coordinator over empty memory is at its start.
example (clock : Clock) (config : Config) :
    IsStart (τ := τ)
      { clock, store := .memory {}, members := [{ coordinator := { config } }] } where
  row? _ := rfl
  registry i c hi := by
    cases i with
    | zero => exact Option.some.inj hi ▸ rfl
    | succ i => cases hi
  waiters := rfl

/-- A cluster with the store and the time of the world. -/
def clusterOf (w : World τ) (member : ι → Coordinator) : Cluster ι where
  store := w.store
  member := member
  now := w.now
  tick := w.tick

omit [DecidableEq ι] in
theorem IsStart.isStart_clusterOf (h : w.IsStart) {member : ι → Coordinator}
    (hregistry : ∀ k, (member k).registry = {}) : (w.clusterOf member).IsStart :=
  ⟨h.row?, hregistry, fun _ ↦ rfl, rfl⟩

omit [DecidableEq ι] in
theorem IsStart.matches_clusterOf (h : w.IsStart) {member : ι → Coordinator}
    (hinj : ∀ i j, (w.coordinator? i).isSome → (w.coordinator? j).isSome → e i = e j → i = j)
    (hmember : ∀ i c, w.coordinator? i = some c → member (e i) = c) :
    w.Matches e w.waiters (w.clusterOf member) where
  store := rfl
  outage := rfl
  inj := hinj
  member := hmember
  now := rfl
  tick := rfl
  waiting x hx := by
    rw [h.waiters] at hx
    cases hx
  distinct := h.waiters ▸ .nil

/-- The coordinators of the world by their numbers. -/
def cluster (w : World τ) : Cluster Nat :=
  w.clusterOf fun i ↦ (w.coordinator? i).getD { config := {} }

/-- **A run of a world is a run of a cluster.** Whatever acts are performed from the start on, with
fresh ids and without setting the wall clock back, there are calls that take no time and lead the
coordinators from their start to where they are behind the acts. What clients are told is in the
history of the calls, and no other lease is granted in it. -/
theorem exists_traces (hstart : w.IsStart) {as : List (Act τ)} (hallowed : w.AllowsAll as)
    (honce : (as.filterMap Act.id?).Nodup) :
    w.cluster.IsStart ∧ ∃ calls, (w.perform as).2.Traces id (w.perform as).2.waiters w.cluster
      (as.filterMap Act.id?) (w.perform as).1 calls := by
  have hregistry (i : Nat) : ((w.coordinator? i).getD { config := {} }).registry = {} := by
    cases hi : w.coordinator? i with
    | none => rfl
    | some c => exact hstart.registry i c hi
  have hmatches : w.Matches id w.waiters w.cluster :=
    hstart.matches_clusterOf (fun _ _ _ _ h ↦ h) fun i c hi ↦ by rw [id_eq, hi, Option.getD_some]
  exact ⟨hstart.isStart_clusterOf hregistry,
    hmatches.perform hallowed (fun _ _ ↦ List.not_mem_nil) honce⟩

/-- The same for the only coordinator of a world. -/
theorem exists_traces_of_single (hstart : w.IsStart) (hsingle : w.members = [m])
    {as : List (Act τ)} (hallowed : w.AllowsAll as) (honce : (as.filterMap Act.id?).Nodup) :
    (w.clusterOf fun _ : Unit ↦ m.coordinator).IsStart ∧
      ∃ calls, (w.perform as).2.Traces (fun _ ↦ ()) (w.perform as).2.waiters
        (w.clusterOf fun _ ↦ m.coordinator) (as.filterMap Act.id?) (w.perform as).1 calls := by
  have honly (i : Nat) (c : Coordinator) (hi : w.coordinator? i = some c) :
      i = 0 ∧ m.coordinator = c := by
    rw [coordinator?, hsingle] at hi
    cases i with
    | zero => exact ⟨rfl, Option.some.inj hi⟩
    | succ i => cases hi
  have hmatches : w.Matches (fun _ ↦ ()) w.waiters (w.clusterOf fun _ ↦ m.coordinator) := by
    refine hstart.matches_clusterOf (fun i j hi hj _ ↦ ?_) fun i c hi ↦ (honly i c hi).2
    obtain ⟨c, hi⟩ := Option.isSome_iff_exists.1 hi
    obtain ⟨c', hj⟩ := Option.isSome_iff_exists.1 hj
    rw [(honly i c hi).1, (honly j c' hj).1]
  refine ⟨hstart.isStart_clusterOf fun _ ↦ hstart.registry 0 m.coordinator ?_,
    hmatches.perform hallowed (fun _ _ ↦ List.not_mem_nil) honce⟩
  rw [coordinator?, hsingle]
  rfl

/-- What a coordinator remembers of a lease, a client was told when it was granted. -/
theorem granted_of_lease? (hstart : w.IsStart) {as : List (Act τ)} (hallowed : w.AllowsAll as)
    (honce : (as.filterMap Act.id?).Nodup) {k : LeaseId} {l : Lease}
    (hi : (w.perform as).2.coordinator? i = some c) (hl : c.registry.lease? k = some l) :
    ∃ l₀, .granted l₀ ∈ (w.perform as).1 ∧ l₀.id = k ∧ l₀.lock = l.lock ∧
      l₀.holder = l.holder := by
  obtain ⟨hcluster, calls, hcalls⟩ := exists_traces hstart hallowed honce
  have hattributed := (Cluster.attributed_runCalls hcluster calls).2
  obtain ⟨l₀, hmem, hsame⟩ := hattributed.granted i k l (hcalls.behind.member i c hi ▸ hl)
  refine ⟨l₀, ?_, hsame⟩
  have hgranted : l₀ ∈ (w.cluster.runCalls calls).1.filterMap Notice.lease? :=
    List.mem_filterMap.2 ⟨_, hmem, rfl⟩
  rw [← hcalls.granted] at hgranted
  obtain ⟨n, hn, hlease⟩ := List.mem_filterMap.1 hgranted
  cases n <;> cases hlease
  exact hn

/-- Behind a run of a world in which no expiry overflows, no two leases of a lock are in force by
what has been told of them, to clients and in passes of upkeep, and the store attributes the lock to
the one that is. -/
theorem exists_excludes (hstart : w.IsStart) {as : List (Act τ)} (hallowed : w.AllowsAll as)
    (honce : (as.filterMap Act.id?).Nodup) :
    ∃ (f : Cluster Nat) (h : List Notice), (w.perform as).2.SameAs id f ∧
      (w.perform as).1.Sublist h ∧
      (w.perform as).1.filterMap Notice.lease? = h.filterMap Notice.lease? ∧
      ((∀ n ∈ h, n.Fits) → f.Excludes h 0) := by
  obtain ⟨hcluster, calls, hcalls⟩ := exists_traces hstart hallowed honce
  refine ⟨_, _, hcalls.behind.toSameAs, hcalls.notices, hcalls.granted, fun hfits ↦ ?_⟩
  refine (Cluster.covered_run hcluster (calls.map .call) fun d hd ↦ ?_).excludes hfits
  obtain ⟨d', hd', heq⟩ := List.mem_map.1 hd
  cases heq
  exact (hcalls.within _ hd').1

end World

end LeaseLock
