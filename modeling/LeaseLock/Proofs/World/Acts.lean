import LeaseLock.Proofs.Cluster.Basic
import LeaseLock.Service.Handler

/-!
# What happens in a world

A world moves by acts (`World.Act`): a coordinator is asked for something, the store is purged, the
tasks of a coordinator are started or stopped, reports are read, the wall clock is set, time passes.
While time passes, clients that wait get their replies and tasks run, so one act can be the work of
many calls.

What clients are told of leases in the course of an act is said in notices, as it is for clusters
(`World.act`). What the tasks of a coordinator do they do silently.

A request to the service is one act at most (`World.serve_eq_perform`). So what holds behind all
acts holds of the service as well.

## What may happen

Acts come in any order, for coordinators that are there or not. A world serves all of them. A clock
that is set back is served too, but nothing is said here of what becomes of leases then, so acts of
that kind are told apart (`World.Act.Allowed`). That no id is given to two acquisitions is a matter
of the ids in a run (`World.Act.id?`).

There is no act by which a client asks the store for a key without a coordinator. A world can serve
that as well, and how such a wait goes is described with the waits of coordinators.
-/

namespace LeaseLock

variable {τ : Type}

/-- What a reply tells of leases. -/
def Reply.notices : Reply → List Notice
  | key _ => []
  | lease result _ => Acquisition.notices (.ended result)

namespace World

/-- What happens in a world. -/
inductive Act (τ : Type) where
  /-- A client asks a coordinator for a lock. -/
  | acquire (i : Nat) (tag : τ) (id : LeaseId) (request : LockRequest)
  /-- All clients whose tag satisfies `p` give up their waits. -/
  | cancel (p : τ → Bool)
  /-- A client releases a lease. -/
  | release (i : Nat) (lock : LockName) (client : ClientId) (id : LeaseId)
  /-- A client renews a lease. -/
  | renew (i : Nat) (lock : LockName) (id : LeaseId) (extension : Option Duration)
  /-- An operator asks for a pass of upkeep. -/
  | upkeep (i : Nat) (interval : Duration)
  /-- An operator looks for deadlocks. -/
  | detect (i : Nat)
  /-- An operator purges the store. -/
  | purge
  /-- The tasks of a coordinator are started. -/
  | start (i : Nat)
  /-- The tasks of a coordinator are stopped. -/
  | dropTasks (i : Nat)
  /-- The tasks of a coordinator are stopped, and it forgets everything. -/
  | shutdown (i : Nat)
  /-- Someone subscribes to the reports of a coordinator. -/
  | subscribe (i : Nat)
  /-- Someone reads a report of a coordinator. -/
  | receive (i : Nat)
  /-- The wall clock is set. -/
  | shift (ms : Int)
  /-- Time passes. -/
  | advance (ms : Nat)

/-- The id that an act may give to a lease. -/
def Act.id? : Act τ → Option LeaseId
  | acquire _ _ id _ => some id
  | _ => none

/-- Let a coordinator work on the store, with what is told of its answer. -/
def ask {α : Type} (w : World τ) (i : Nat) (f : Coordinator → Store → Outcome α)
    (told : α → List Notice) : List Notice × World τ :=
  match w.operate i f with
  | none => ([], w)
  | some (answer, w) => (told answer, w)

/-- What is told of a pass of upkeep. -/
def passNotices : Except UpkeepFault UpkeepReport → List Notice
  | .ok report => report.notices
  | .error _ => []

/-- An act, with what clients are told in its course. -/
def act (w : World τ) : Act τ → List Notice × World τ
  | .acquire i tag id request =>
    match w.acquire i tag id request with
    | none => ([], w)
    | some (none, w) => ([], w)
    | some (some reply, w) => (reply.notices, w)
  | .cancel p => ([], (w.cancel p).2)
  | .release i lock client id =>
    w.ask i (fun c s ↦ c.release s w.now lock client id) fun answer ↦ [.ofRelease lock id answer]
  | .renew i lock id extension =>
    w.ask i (fun c s ↦ c.renew s w.now lock id extension) fun answer ↦ [.ofRenewal lock id answer]
  | .upkeep i interval => w.ask i (fun c s ↦ c.upkeep s w.now interval) passNotices
  | .detect i =>
    w.ask i (fun c s ↦ ⟨(c.detect w.now).1, s, (c.detect w.now).2⟩) fun _ ↦ []
  | .purge =>
    match w.store.purge w.now with
    | .ok (_, store) => ([], { w with store })
    | .error _ => ([], w)
  | .start i => ([], w.start i)
  | .dropTasks i => ([], (w.dropTasks i).2)
  | .shutdown i =>
    let (any, w) := w.shutdown i
    (if any then [.cleared] else [], w)
  | .subscribe i => ([], w.subscribe i)
  | .receive i => ([], (w.receive i).2)
  | .shift ms => ([], w.shift ms)
  | .advance ms =>
    let (finished, w) := w.advance ms
    (finished.flatMap (·.reply.notices), w)

/-- The wall clock is not set back. -/
def Act.Allowed (w : World τ) : Act τ → Prop
  | .shift ms => w.now ≤ (w.shift ms).now
  | _ => True

/-- One act after another, with all that clients are told. -/
def perform (w : World τ) : List (Act τ) → List Notice × World τ
  | [] => ([], w)
  | a :: as =>
    let (n, w) := w.act a
    let (h, w) := w.perform as
    (n ++ h, w)

/-- The acts are allowed one after another. -/
def AllowsAll : World τ → List (Act τ) → Prop
  | _, [] => True
  | w, a :: as => a.Allowed w ∧ (w.act a).2.AllowsAll as

end World

/-! ### Requests to the service -/

/-- What becomes of a request for a lock. -/
def Handled.ofAcquisition : Acquisition → Handled
  | .ended result => .answered (.acquired result .zero)
  | .waiting pending wake => .waiting pending wake

/-- A request is refused or answered from what is known, or it is handed on to one operation of the
coordinator, to ask for a lock, to release one or to renew a lease. -/
theorem Service.handle_cases (c : Coordinator) (s : Store) (now tick : Nat) (id : LeaseId)
    (r : Request) :
    (∃ response, handle c s now tick id r = ⟨.answered response, s, c⟩) ∨
    (∃ request, handle c s now tick id r =
      ⟨.ofAcquisition (c.acquire s now tick id request).answer,
        (c.acquire s now tick id request).store,
        (c.acquire s now tick id request).coordinator⟩) ∨
    (∃ lock client lease response, handle c s now tick id r =
      ⟨.answered response, (c.release s now lock client lease).store,
        (c.release s now lock client lease).coordinator⟩) ∨
    ∃ lock lease extension response, handle c s now tick id r =
      ⟨.answered response, (c.renew s now lock lease extension).store,
        (c.renew s now lock lease extension).coordinator⟩ := by
  rw [handle]
  split
  · exact .inl ⟨_, rfl⟩
  split
  · exact .inl ⟨_, rfl⟩
  next target htarget =>
  split
  · split
    · cases target with
      | acquire segment =>
        rw [command, acquire]
        split
        · exact .inl ⟨_, rfl⟩
        · next request hrequest =>
          refine .inr (.inl ⟨request, ?_⟩)
          generalize c.acquire s now tick id request = o
          obtain ⟨answer, s', c'⟩ := o
          cases answer <;> rfl
      | release segment =>
        rw [command, release]
        split
        · exact .inl ⟨_, rfl⟩
        · next name body hbody =>
          exact .inr (.inr (.inl ⟨name, body.client, body.lease, _, rfl⟩))
      | renew segment =>
        rw [command, renew]
        split
        · exact .inl ⟨_, rfl⟩
        · next name body hbody =>
          exact .inr (.inr (.inr ⟨name, body.lease, body.extension, _, rfl⟩))
      | _ => exact .inl ⟨_, rfl⟩
    · exact .inl ⟨_, rfl⟩
  · split
    · exact .inl ⟨_, rfl⟩
    · split <;> exact .inl ⟨_, rfl⟩

namespace World

theorem setCoordinator_self {w : World τ} {i : Nat} {m : Member} (hm : w.members[i]? = some m) :
    w.setCoordinator i m.coordinator = w := by
  have hmembers : w.members.modify i (fun m' ↦ { m' with coordinator := m.coordinator }) =
      w.members := by
    refine List.ext_getElem? fun j ↦ ?_
    rw [List.getElem?_modify]
    by_cases hj : i = j
    · subst hj
      rw [hm, Option.map_eq_map, Option.map_some, if_pos rfl]
    · simp only [if_neg hj, Option.map_eq_map, Option.map_id']
  rw [setCoordinator, hmembers]

/-- **A request is one act at most.** Whatever is sent to a coordinator over the service, the world
behind it is the world behind no act or one, which is to ask for a lock, to release one or to renew
a lease. -/
theorem serve_eq_perform {w w' : World τ} {i : Nat} {tag : τ} {id : LeaseId} {r : Request}
    {response : Option Response} (h : w.serve i tag id r = some (response, w')) :
    ∃ as : List (Act τ), as.length ≤ 1 ∧ (∀ a ∈ as, ∀ k ∈ a.id?, k = id) ∧
      w' = (w.perform as).2 := by
  have hone (a : Act τ) (hid : ∀ k ∈ a.id?, k = id) (hw : w' = (w.act a).2) :
      ∃ as : List (Act τ), as.length ≤ 1 ∧ (∀ a ∈ as, ∀ k ∈ a.id?, k = id) ∧
        w' = (w.perform as).2 :=
    ⟨[a], Nat.le_refl 1, fun _ ha ↦ List.mem_singleton.1 ha ▸ hid, hw⟩
  rw [serve, operate] at h
  cases hm : w.members[i]? with
  | none =>
    rw [hm] at h
    cases h
  | some m =>
    rw [hm] at h
    obtain ⟨answer, ho⟩ | ⟨request, ho⟩ | ⟨lock, client, lease, answer, ho⟩ |
        ⟨lock, lease, extension, answer, ho⟩ :=
      Service.handle_cases m.coordinator w.store w.now w.tick id r
    all_goals simp only [Option.map_some, ho] at h
    · obtain ⟨-, rfl⟩ := Prod.mk.inj (Option.some.inj h)
      exact ⟨[], Nat.zero_le 1, nofun, setCoordinator_self hm⟩
    · refine hone (.acquire i tag id request) (fun k hk ↦ (Option.some.inj hk).symm) ?_
      rw [act, acquire, operate, hm]
      dsimp only [Option.map_some]
      generalize m.coordinator.acquire w.store w.now w.tick id request = o at h ⊢
      obtain ⟨answer, s, c⟩ := o
      cases answer with
      | ended result => exact (Prod.mk.inj (Option.some.inj h)).2.symm
      | waiting pending wake => exact (Prod.mk.inj (Option.some.inj h)).2.symm
    · refine hone (.release i lock client lease) nofun ?_
      rw [act, ask, operate, hm]
      exact (Prod.mk.inj (Option.some.inj h)).2.symm
    · refine hone (.renew i lock lease extension) nofun ?_
      rw [act, ask, operate, hm]
      exact (Prod.mk.inj (Option.some.inj h)).2.symm

end World

end LeaseLock
