import LeaseLock.World.Background
import LeaseLock.World.Clock

/-!
# Worlds

A `World` is a whole system at one moment: the clock, a store, the coordinators that share it, and
the clients that wait. Coordinators come with their background tasks and with one subscription to
their reports.

Nothing in a world moves by itself. The operations of this module happen at the present instant;
`World.advance` lets time pass, and visits every instant at which something is due in order. At one
instant the waiting clients try first, in the order in which they began to wait, and then the tasks
of each coordinator run.

A waiting client carries a tag by which whoever started it knows it again.
-/

namespace LeaseLock

/-- A coordinator of a world. -/
structure Member where
  /-- The coordinator. -/
  coordinator : Coordinator
  /-- Its background tasks, if they have been started. -/
  tasks : Option Background := none
  /-- The subscription to its reports, if there is one. -/
  subscription : Option Subscription := none

/-- What a client waits for. -/
inductive Job where
  /-- The key of a lock in the store, without any coordinator. -/
  | key (lock : LockName) (id : LeaseId) (ttl : Duration) (wait : Wait)
  /-- A lease from the coordinator with the given number. -/
  | lease (member : Nat) (pending : Pending)

/-- A client that waits, and when it tries next. -/
structure Waiter (τ : Type) where
  /-- Its tag. -/
  tag : τ
  /-- The tick of its next try. -/
  wake : Nat
  /-- What it waits for. -/
  job : Job

/-- What a client got that wanted a key or a lease. -/
inductive Reply where
  /-- The key, or the fault. -/
  | key (result : Except LockFault Unit)
  /-- The lease, or the fault, and how long the client waited. -/
  | lease (result : Except LockFault Lease) (waited : Duration)

/-- The end of a wait. -/
structure Finished (τ : Type) where
  /-- The tag of the client. -/
  tag : τ
  /-- When its wait ended. -/
  tick : Nat
  /-- What it got. -/
  reply : Reply

/-- A clock, a store, coordinators, and clients that wait. -/
structure World (τ : Type) where
  /-- The clock. -/
  clock : Clock
  /-- The store that all coordinators share. -/
  store : Store
  /-- The coordinators. -/
  members : List Member
  /-- The clients that wait, in the order in which they began. -/
  waiters : List (Waiter τ) := []

namespace World

variable {τ : Type}

/-- What the wall clock shows. -/
def now (w : World τ) : Nat := w.clock.now

/-- The number of milliseconds that have passed. -/
def tick (w : World τ) : Nat := w.clock.tick

/-- Replace the coordinator with the given number. -/
def setCoordinator (w : World τ) (i : Nat) (c : Coordinator) : World τ :=
  { w with members := w.members.modify i fun m ↦ { m with coordinator := c } }

/-! ### Operations of coordinators -/

/-- Run an operation of the coordinator with the given number on the store. -/
def operate (w : World τ) (i : Nat) (f : Coordinator → Store → Outcome α) : Option (α × World τ) :=
  w.members[i]?.map fun m ↦
    let ⟨answer, store, c⟩ := f m.coordinator w.store
    (answer, { w with store }.setCoordinator i c)

/-- Ask a coordinator for a lease. There is no reply yet if the client has to wait. -/
def acquire (w : World τ) (i : Nat) (tag : τ) (id : LeaseId) (request : LockRequest) :
    Option (Option Reply × World τ) :=
  (w.operate i fun c store ↦ c.acquire store w.now w.tick id request).map fun (a, w) ↦
    match a with
    | .ended result => (some (.lease result .zero), w)
    | .waiting pending wake =>
      (none, { w with waiters := w.waiters ++ [⟨tag, wake, .lease i pending⟩] })

/-- Wait for the key of a lock without a coordinator. There is no reply yet unless the wait is
empty. -/
def waitFor (w : World τ) (tag : τ) (lock : LockName) (id : LeaseId) (ttl wait poll : Duration)
    (timing : Timing := .usual) : Option Reply × World τ :=
  let wait := Wait.begin timing w.tick wait poll
  match wait.resume w.tick with
  | .stop how => (some (.key (how.toExcept lock)), w)
  | .sleep wake => (none, { w with waiters := w.waiters ++ [⟨tag, wake, .key lock id ttl wait⟩] })

/-- Give up the wait of a client. -/
def withdraw (w : World τ) (x : Waiter τ) : World τ :=
  match x.job with
  | .key .. => w
  | .lease i pending =>
    match w.members[i]? with
    | none => w
    | some m => w.setCoordinator i (m.coordinator.cancel pending)

/-- Give up the waits of all clients whose tag satisfies `p`, and count them. -/
def cancel (w : World τ) (p : τ → Bool) : Nat × World τ :=
  let gone := w.waiters.filter fun x ↦ p x.tag
  let w := { w with waiters := w.waiters.filter fun x ↦ !p x.tag }
  (gone.length, gone.foldl withdraw w)

/-! ### Background tasks and reports -/

/-- Start the background tasks of a coordinator, in place of those that run. -/
def start (w : World τ) (i : Nat) : World τ :=
  { w with members := w.members.modify i fun m ↦
      { m with tasks := some (Background.start m.coordinator w.tick) } }

/-- Whether any background task of a coordinator is alive, if they have been started. -/
def isRunning (w : World τ) (i : Nat) : Option Bool :=
  (w.members[i]?.bind (·.tasks)).map (·.isRunning)

/-- Stop the background tasks of a coordinator; whether there were any. -/
def dropTasks (w : World τ) (i : Nat) : Bool × World τ :=
  ((w.members[i]?.bind (·.tasks)).isSome,
    { w with members := w.members.modify i fun m ↦ { m with tasks := none } })

/-- Stop the background tasks of a coordinator and clear its registry; whether there were any. -/
def shutdown (w : World τ) (i : Nat) : Bool × World τ :=
  match w.dropTasks i with
  | (false, w) => (false, w)
  | (true, w) =>
    (true, { w with members := w.members.modify i fun m ↦
        { m with coordinator := m.coordinator.clear } })

/-- Subscribe anew to the reports of a coordinator. -/
def subscribe (w : World τ) (i : Nat) : World τ :=
  { w with members := w.members.modify i fun m ↦
      { m with subscription := some m.coordinator.reports.subscribe } }

/-- Read the next report of a coordinator, if there is a subscription to it. -/
def receive (w : World τ) (i : Nat) : Option (Received DeadlockReport) × World τ :=
  match w.members[i]? with
  | none => (none, w)
  | some m =>
    match m.subscription with
    | none => (none, w)
    | some s =>
      let (r, s) := m.coordinator.reports.receive s
      (some r, { w with members := w.members.modify i fun m ↦ { m with subscription := some s } })

/-! ### Time -/

/-- Set the wall clock forward or back. -/
def shift (w : World τ) (ms : Int) : World τ := { w with clock := w.clock.shift ms }

/-- How long the wait has taken. -/
def waited (w : World τ) (wait : Wait) : Duration := .ofMillis (w.tick - wait.started)

/-- Let a waiting client try. It waits on or gets its reply. -/
def poll (w : World τ) (x : Waiter τ) : (Waiter τ ⊕ Reply) × World τ :=
  match x.job with
  | .key lock id ttl wait =>
    let (step, w) :=
      match w.store.take w.now lock id ttl with
      | .error fault => (wait.proceed w.tick (.error fault), w)
      | .ok (taken, store) => (wait.proceed w.tick (.ok taken), { w with store })
    match step with
    | .sleep wake => (.inl { x with wake }, w)
    | .stop how => (.inr (.key (how.toExcept lock)), w)
  | .lease i pending =>
    match w.operate i fun c store ↦ c.poll store w.now w.tick pending with
    | none => (.inr (.lease (.error (.lockUnavailable pending.request.lock)) .zero), w)
    | some (.waiting pending wake, w) => (.inl { x with wake, job := .lease i pending }, w)
    | some (.ended result, w) => (.inr (.lease result (w.waited pending.wait)), w)

/-- Let the clients try that are due, of those given; the others wait on. -/
def pollAll (w : World τ) : List (Waiter τ) → List (Finished τ) × World τ
  | [] => ([], w)
  | x :: xs =>
    if x.wake ≤ w.tick then
      match w.poll x with
      | (.inl x, w) => ({ w with waiters := w.waiters ++ [x] }).pollAll xs
      | (.inr reply, w) =>
        let (finished, w) := w.pollAll xs
        (⟨x.tag, w.tick, reply⟩ :: finished, w)
    else ({ w with waiters := w.waiters ++ [x] }).pollAll xs

/-- Let all clients try that are due. -/
def pollDue (w : World τ) : List (Finished τ) × World τ :=
  ({ w with waiters := [] }).pollAll w.waiters

/-- Run the tasks of the coordinator with the given number that are due. -/
def runTasks (w : World τ) (i : Nat) : World τ :=
  match w.members[i]? with
  | none => w
  | some m =>
    match m.tasks with
    | none => w
    | some b =>
      let ⟨b, store, coordinator⟩ := b.run m.coordinator w.store w.now w.tick
      { w with
        store
        members := w.members.set i { m with coordinator, tasks := some b } }

/-- Do all that is due at the present instant. -/
def settle (w : World τ) : List (Finished τ) × World τ :=
  let (finished, w) := w.pollDue
  (finished, (List.range w.members.length).foldl runTasks w)

/-- The ticks at which something is due. -/
def dues (w : World τ) : List Nat :=
  w.waiters.map (·.wake) ++ w.members.flatMap fun m ↦ (m.tasks.map Background.due).getD []

/-- The next tick at which something is due. -/
def nextDue (w : World τ) : Option Nat := w.dues.min?

/-- Let time pass up to a tick, visiting at most `fuel` instants. -/
def advanceTo (target : Nat) : (fuel : Nat) → World τ → List (Finished τ) × World τ
  | 0, w => ([], { w with clock := w.clock.passTo target })
  | fuel + 1, w =>
    match w.nextDue with
    | none => ([], { w with clock := w.clock.passTo target })
    | some due =>
      if due ≤ target then
        let (finished, w) := { w with clock := w.clock.passTo due }.settle
        let (more, w) := advanceTo target fuel w
        (finished ++ more, w)
      else ([], { w with clock := w.clock.passTo target })

/-- Let this many milliseconds pass. No instant is visited twice, so their number bounds how many
there are. -/
def advance (w : World τ) (ms : Nat) : List (Finished τ) × World τ :=
  advanceTo (w.tick + ms) (ms + 1) w

end World

end LeaseLock
