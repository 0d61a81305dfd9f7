import LeaseLock.Proofs.Coordinator.Operations
import LeaseLock.Proofs.Time.Schedule
import LeaseLock.World.Basic

/-!
# The course of a wait

A client that waits is let try at the instant for which it has asked, and asks for another one or
gets its reply (`World.Course`). What happens in between is arbitrary: the world that it finds at
one instant need not have anything to do with the world that it left at the instant before, apart
from the time and from the coordinator that waits for it, if there is one.

A client waits for the key of a lock by itself, or a coordinator that has found the lock held waits
for it (`World.Begins`). The two do the same. Each try asks the store once, and leaves in it what
that leaves there (`World.store_poll`); the answer decides how the wait goes on
(`World.poll_of_sleep`, `World.poll_of_stop`). So each of them is a run of the loop of `Wait.run`
(`World.exists_awaits`), and tries at the instants of its schedule and at no other
(`World.awaits_on_schedule`).

Nothing is supposed of the runtime but that the wait is timed exactly (`Wait.Exact`): its sleeps
last as long as they say, and its end is within the range of the clock.

## Worlds at instants

The worlds in which tries are made are given by a function from ticks. It says what is there when a
try is made, and nothing of how it has come about; that one of them is what a run of a world has
made of the one before is a special case. What a wait leaves in the store is said try by try, as the
store behind each of them, next to the instants.

A course is a relation, as the client may never be answered: it is an inductive one, so what it
relates has ended. That it exists, and only once, is shown from what the loop of a wait does
(`World.exists_course`, `World.Course.unique`).
-/

namespace LeaseLock

variable {τ : Type} {lock : LockName} {id : LeaseId} {ttl : Duration} {wait : Wait}

/-- What a reply says about the lock, no matter who waited for it. -/
def Reply.outcome : Reply → Except LockFault Unit
  | key result => result
  | lease result _ => result.map fun _ ↦ ()

/-- The job, in the world `w`, is to wait for the key of `lock` on the schedule `wait`, to keep it
for `id` and for `ttl`. -/
inductive Job.WaitsFor (w : World τ) : LockName → LeaseId → Duration → Wait → Job → Prop
  /-- A client waits by itself. -/
  | key {lock : LockName} {id : LeaseId} {ttl : Duration} {wait : Wait} :
      WaitsFor w lock id ttl wait (.key lock id ttl wait)
  /-- A coordinator waits. -/
  | lease {i : Nat} {p : Pending} (member : i < w.members.length) :
      WaitsFor w p.request.lock p.id p.ttl p.wait (.lease i p)

namespace World

variable {w : World τ} {x : Waiter τ}

/-! ### A try -/

/-- What the store answers to someone who tries now to take a key. -/
def answerTo (w : World τ) (lock : LockName) (id : LeaseId) (ttl : Duration) :
    Except StoreFault Bool :=
  (w.store.take w.now lock id ttl).map Prod.fst

/-- The store behind such a try. -/
def storeBehind (w : World τ) (lock : LockName) (id : LeaseId) (ttl : Duration) : Store :=
  match w.store.take w.now lock id ttl with
  | .ok (_, store) => store
  | .error _ => w.store

/-- What a try for a key by itself makes of the client and of the world. -/
theorem poll_key (w : World τ) (tag : τ) (due : Nat) (lock : LockName) (id : LeaseId)
    (ttl : Duration) (wait : Wait) :
    w.poll ⟨tag, due, .key lock id ttl wait⟩ =
      (match wait.proceed w.tick (w.answerTo lock id ttl) with
        | .sleep wake => .inl ⟨tag, wake, .key lock id ttl wait⟩
        | .stop how => .inr (.key (how.toExcept lock)),
        { w with store := w.storeBehind lock id ttl }) := by
  rw [poll, answerTo, storeBehind]
  dsimp only
  cases w.store.take w.now lock id ttl with
  | error fault => rfl
  | ok r =>
    dsimp only [Except.map]
    cases wait.proceed w.tick (.ok r.1) with
    | sleep wake => rfl
    | stop how => rfl

/-- What a try for a lease makes of the client, and of the store. -/
theorem poll_lease (w : World τ) (tag : τ) (due : Nat) {i : Nat} {m : Member} (p : Pending)
    (hm : w.members[i]? = some m) :
    (w.poll ⟨tag, due, .lease i p⟩).1 =
      (match p.wait.proceed w.tick (w.answerTo p.request.lock p.id p.ttl) with
        | .sleep wake => .inl ⟨tag, wake, .lease i p⟩
        | .stop how => .inr (.lease (m.coordinator.settle w.now p how).1 (w.waited p.wait))) ∧
    (w.poll ⟨tag, due, .lease i p⟩).2.store = w.storeBehind p.request.lock p.id p.ttl := by
  rw [poll, answerTo, storeBehind]
  simp only [operate, hm, Option.map_some, Coordinator.poll]
  cases w.store.take w.now p.request.lock p.id p.ttl with
  | error fault => exact ⟨rfl, rfl⟩
  | ok r =>
    dsimp only [Except.map]
    cases p.wait.proceed w.tick (.ok r.1) with
    | sleep wake => exact ⟨rfl, rfl⟩
    | stop how => exact ⟨rfl, rfl⟩

/-- A try asks the store once and leaves in it what that leaves there. -/
theorem store_poll (hx : x.job.WaitsFor w lock id ttl wait) :
    (w.poll x).2.store = w.storeBehind lock id ttl := by
  obtain ⟨tag, due, job⟩ := x
  cases hx with
  | key => rw [poll_key]
  | lease hi => exact (poll_lease w tag due _ (List.getElem?_eq_getElem hi)).2

/-- An acquisition ends as its wait does. -/
theorem outcome_settle (c : Coordinator) (now : Nat) (p : Pending) (how : WaitEnd)
    (waited : Duration) :
    (Reply.lease (c.settle now p how).1 waited).outcome = how.toExcept p.request.lock := by
  cases how <;> rfl

/-- A client goes back to sleep if the answer of the store to its try leaves it time for that. -/
theorem poll_of_sleep (hx : x.job.WaitsFor w lock id ttl wait) {wake : Nat}
    (h : wait.proceed w.tick (w.answerTo lock id ttl) = .sleep wake) :
    (w.poll x).1 = .inl { x with wake } := by
  obtain ⟨tag, due, job⟩ := x
  cases hx with
  | key => rw [poll_key, h]
  | lease hi => rw [(poll_lease w tag due _ (List.getElem?_eq_getElem hi)).1, h]

/-- A client gets its reply if the answer of the store to its try ends the wait. -/
theorem poll_of_stop (hx : x.job.WaitsFor w lock id ttl wait) {how : WaitEnd}
    (h : wait.proceed w.tick (w.answerTo lock id ttl) = .stop how) :
    ∃ reply, (w.poll x).1 = .inr reply ∧ reply.outcome = how.toExcept lock := by
  obtain ⟨tag, due, job⟩ := x
  cases hx with
  | key => exact ⟨_, by rw [poll_key, h], rfl⟩
  | lease hi =>
    exact ⟨_, by rw [(poll_lease w tag due _ (List.getElem?_eq_getElem hi)).1, h],
      outcome_settle _ _ _ _ _⟩

/-! ### One try after another -/

/-- A client is let try at each instant for which it has asked, in the world that it finds then,
until it gets its reply: the ticks at which it tries, the stores behind these tries, when it gets
the reply, and the reply. -/
inductive Course (world : Nat → World τ) : Waiter τ → List Nat → List Store → Nat → Reply → Prop
  /-- The try brings the reply. -/
  | ended {x : Waiter τ} {reply : Reply} (attempt : ((world x.wake).poll x).1 = .inr reply) :
      Course world x [x.wake] [((world x.wake).poll x).2.store] x.wake reply
  /-- The client goes back to sleep. -/
  | slept {x y : Waiter τ} {tries : List Nat} {stores : List Store} {tick : Nat} {reply : Reply}
      (attempt : ((world x.wake).poll x).1 = .inl y)
      (rest : Course world y tries stores tick reply) :
      Course world x (x.wake :: tries) (((world x.wake).poll x).2.store :: stores) tick reply

variable {world : Nat → World τ} {tries tries' : List Nat} {stores stores' : List Store}
  {tick tick' : Nat} {reply reply' : Reply} {timing : Timing}

/-- A course is settled by its beginning. -/
theorem Course.unique (h : Course world x tries stores tick reply)
    (h' : Course world x tries' stores' tick' reply') :
    tries' = tries ∧ stores' = stores ∧ tick' = tick ∧ reply' = reply := by
  induction h generalizing tries' stores' with
  | ended htry =>
    cases h' with
    | ended htry' =>
      rw [htry] at htry'
      cases htry'
      exact ⟨rfl, rfl, rfl, rfl⟩
    | slept htry' rest =>
      rw [htry] at htry'
      cases htry'
  | slept htry rest ih =>
    cases h' with
    | ended htry' =>
      rw [htry] at htry'
      cases htry'
    | slept htry' rest' =>
      rw [htry] at htry'
      cases htry'
      obtain ⟨rfl, rfl, hend⟩ := ih rest'
      exact ⟨rfl, rfl, hend⟩

/-- A client that sleeps goes through the loop from there on. -/
theorem exists_course (htick : ∀ t, (world t).tick = t)
    (hx : ∀ t, x.job.WaitsFor (world t) lock id ttl wait) {t : Nat} {how : WaitEnd}
    (hsleep : wait.resume t = .sleep x.wake)
    (hrun : wait.run (fun t ↦ (world t).answerTo lock id ttl) t = (tries, how)) :
    ∃ reply, Course world x tries (tries.map fun t ↦ (world t).storeBehind lock id ttl)
      (tries.getLastD t) reply ∧ reply.outcome = how.toExcept lock := by
  induction hleft : wait.deadline - t using Nat.strong_induction_on generalizing t x tries how with
  | _ left ih =>
    have hlater := Wait.lt_of_resume_eq_sleep hsleep
    have hstore := store_poll (hx x.wake)
    cases hstep : wait.proceed x.wake ((world x.wake).answerTo lock id ttl) with
    | stop how' =>
      rw [Wait.run_of_proceed_eq_stop hsleep hstep] at hrun
      cases hrun
      obtain ⟨reply, htry, hreply⟩ := poll_of_stop (hx x.wake) (by rwa [htick])
      rw [List.map_singleton, ← hstore]
      exact ⟨reply, .ended htry, hreply⟩
    | sleep wake =>
      obtain ⟨hresume, hrest⟩ := Wait.run_of_proceed_eq_sleep
        (fun t ↦ (world t).answerTo lock id ttl) hsleep hstep
      rw [hrest] at hrun
      cases hrun
      obtain ⟨reply, hcourse, hreply⟩ := ih (wait.deadline - x.wake) (by omega)
        (x := { x with wake }) hx hresume Prod.mk.eta.symm rfl
      rw [List.getLastD_cons, List.map_cons, ← hstore]
      exact ⟨reply, .slept (poll_of_sleep (hx x.wake) (by rwa [htick])) hcourse, hreply⟩

/-! ### How a wait begins -/

/-- Somebody begins at the tick `T` to wait for the key of `lock`: for at most `wait`, with a try
every `poll`, timed by `timing`. The last argument is what comes of it: a reply at once or none yet,
and the world. -/
inductive Begins (world : Nat → World τ) (T : Nat) (tag : τ) :
    Timing → LockName → LeaseId → Duration → (wait poll : Duration) → Option Reply × World τ → Prop
  /-- A client begins to wait by itself. -/
  | key (timing : Timing) (lock : LockName) (id : LeaseId) (ttl wait poll : Duration) :
      Begins world T tag timing lock id ttl wait poll
        ((world T).waitFor tag lock id ttl wait poll timing)
  /-- A coordinator, which is always there, is asked for a lock that is held, and the client allows
  for a wait. -/
  | lease {i : Nat} {m : Member} {id : LeaseId} {request : LockRequest} {store : Store}
      {start : Option Reply × World τ} (member : (world T).members[i]? = some m)
      (stays : ∀ t, i < (world t).members.length)
      (lock : request.lock ≠ "") (client : request.client ≠ "")
      (patient : request.wait.isZero = false)
      (held : (world T).store.take (world T).now request.lock id
        (m.coordinator.config.ttlFor request.ttl) = .ok (false, store))
      (asked : (world T).acquire i tag id request = some start) :
      Begins world T tag m.coordinator.timing request.lock id
        (m.coordinator.config.ttlFor request.ttl) request.wait m.coordinator.config.pollPeriod start

variable {T W P : Nat} {tag : τ} {poll timeout : Duration} {start : Option Reply × World τ}

/-- The client has its reply at once, or it is listed for the instant at which it wakes. -/
theorem Begins.cases (h : Begins world T tag timing lock id ttl timeout poll start) :
    (∃ how reply,
      (Wait.begin timing (world T).tick timeout poll).resume (world T).tick = .stop how ∧
      start.1 = some reply ∧ reply.outcome = how.toExcept lock) ∨
    ∃ x, (Wait.begin timing (world T).tick timeout poll).resume (world T).tick = .sleep x.wake ∧
      start.1 = none ∧ start.2.waiters = (world T).waiters ++ [x] ∧
      ∀ t, x.job.WaitsFor (world t) lock id ttl
        (Wait.begin timing (world T).tick timeout poll) := by
  cases h with
  | key =>
    rw [waitFor]
    cases (Wait.begin timing (world T).tick timeout poll).resume (world T).tick with
    | stop how => exact .inl ⟨how, _, rfl, rfl, rfl⟩
    | sleep wake => exact .inr ⟨⟨tag, wake, _⟩, rfl, rfl, rfl, fun _ ↦ .key⟩
  | @lease i m _ request store _ hm hstays hlock hclient hpatient hheld hasked =>
    simp only [acquire, operate, hm, Option.map_some, Coordinator.acquire, if_neg hlock,
      if_neg hclient, hheld, hpatient, Bool.false_eq_true, if_false, Option.some.injEq] at hasked
    subst hasked
    cases (Wait.begin m.coordinator.timing (world T).tick request.wait
      m.coordinator.config.pollPeriod).resume (world T).tick with
    | stop how => exact .inl ⟨how, _, rfl, rfl, outcome_settle _ _ _ _ _⟩
    | sleep wake =>
      exact .inr ⟨⟨tag, wake, _⟩, rfl, rfl, rfl,
        fun t ↦ .lease (p := ⟨request, id, _, _⟩) (hstays t)⟩

/-- From the beginning of a wait at the tick `T` to its reply: the ticks of the tries, the stores
behind them, when the reply comes, and the reply. -/
inductive Awaits (world : Nat → World τ) (T : Nat) (start : Option Reply × World τ) :
    List Nat → List Store → Nat → Reply → Prop
  /-- There is no wait. -/
  | atOnce {reply : Reply} (now : start.1 = some reply) : Awaits world T start [] [] T reply
  /-- The client joins those that wait. -/
  | later {x : Waiter τ} {tries : List Nat} {stores : List Store} {tick : Nat} {reply : Reply}
      (later : start.1 = none) (joins : start.2.waiters = (world T).waiters ++ [x])
      (course : Course world x tries stores tick reply) :
      Awaits world T start tries stores tick reply

/-- A wait has one course. -/
theorem Awaits.unique (h : Awaits world T start tries stores tick reply)
    (h' : Awaits world T start tries' stores' tick' reply') :
    tries' = tries ∧ stores' = stores ∧ tick' = tick ∧ reply' = reply := by
  cases h with
  | atOnce hnow =>
    cases h' with
    | atOnce hnow' =>
      rw [hnow] at hnow'
      cases hnow'
      exact ⟨rfl, rfl, rfl, rfl⟩
    | later hlater' =>
      rw [hnow] at hlater'
      cases hlater'
  | later hlater hjoins hcourse =>
    cases h' with
    | atOnce hnow' =>
      rw [hlater] at hnow'
      cases hnow'
    | later hlater' hjoins' hcourse' =>
      rw [hjoins] at hjoins'
      cases List.append_cancel_left hjoins'
      exact hcourse.unique hcourse'

/-- A wait is a run of the loop, and each of its tries leaves in the store what one try leaves
there. -/
theorem exists_awaits (htick : ∀ t, (world t).tick = t)
    (hbegins : Begins world T tag timing lock id ttl timeout poll start) {how : WaitEnd}
    (hrun : (Wait.begin timing T timeout poll).run (fun t ↦ (world t).answerTo lock id ttl) T =
      (tries, how)) :
    ∃ reply, Awaits world T start tries (tries.map fun t ↦ (world t).storeBehind lock id ttl)
      (tries.getLastD T) reply ∧ reply.outcome = how.toExcept lock := by
  have hcases := hbegins.cases
  rw [htick] at hcases
  obtain ⟨how', reply, hresume, hnow, hreply⟩ | ⟨x, hresume, hlater, hjoins, hx⟩ := hcases
  · rw [Wait.run_of_stop hresume] at hrun
    cases hrun
    exact ⟨reply, .atOnce hnow, hreply⟩
  · obtain ⟨reply, hcourse, hreply⟩ := exists_course htick hx hresume hrun
    exact ⟨reply, .later hlater hjoins hcourse, hreply⟩

/-- **A wait keeps to its schedule.** Somebody who waits from `T` on for at most `W` milliseconds,
with a try every `P`, tries at the instants of this schedule and at no other, until the store gives
the lock away or fails or the time is up. Each try leaves in the store that it finds what one try
leaves there. The wait ends, at the tick of its last try, and the reply says how. -/
theorem awaits_on_schedule (hexact : Wait.Exact timing W P) (htick : ∀ t, (world t).tick = t)
    (hbegins : Begins world T tag timing lock id ttl (.ofMillis W) (.ofMillis P) start) :
    (∃ tries stores tick reply, Awaits world T start tries stores tick reply) ∧
      ∀ tries stores tick reply, Awaits world T start tries stores tick reply →
        (∃ how, Wait.Keeps (fun t ↦ (world t).answerTo lock id ttl) (T + W) (.ofMillis W)
          (Wait.instants T W P) tries tick how ∧ reply.outcome = how.toExcept lock) ∧
        stores = tries.map fun t ↦ (world t).storeBehind lock id ttl := by
  obtain ⟨reply, hawaits, hreply⟩ := exists_awaits htick hbegins Prod.mk.eta.symm
  refine ⟨⟨_, _, _, reply, hawaits⟩, fun tries stores tick reply' h ↦ ?_⟩
  obtain ⟨rfl, rfl, rfl, rfl⟩ := hawaits.unique h
  exact ⟨⟨_, Wait.keeps_of_run hexact Prod.mk.eta.symm, hreply⟩, rfl⟩

/-- A coordinator over a store in which the lock is taken until 200. -/
def queue (t : Nat) : World Unit where
  clock := ⟨0, t⟩
  store := .memory { rows := .ofList [("L", ⟨"1", 200⟩)] }
  members := [{ coordinator := { config := {} } }]

/-- A client that allows for a wait of a quarter of a second. -/
def patience : LockRequest where
  lock := "L"
  client := "c"
  wait := .ofMillis 250

/-- The client asks at 10. -/
theorem awaits_on_schedule_queue :
    ∃ start tries stores tick reply how, (queue 10).acquire 0 () "2" patience = some start ∧
      Awaits queue 10 start tries stores tick reply ∧
      Wait.Keeps (fun t ↦ (queue t).answerTo "L" "2" (.ofSecs 30)) 260 (.ofMillis 250)
        [110, 210, 260] tries tick how ∧ reply.outcome = how.toExcept "L" ∧
      stores = tries.map fun t ↦ (queue t).storeBehind "L" "2" (.ofSecs 30) := by
  have hexact : Wait.Exact .usual 250 100 :=
    Wait.exact_of_le_horizon (by decide) (by decide) (by decide)
  have hbegins := @Begins.lease Unit queue 10 () 0 _ "2" patience _ _ rfl
    (fun _ ↦ Nat.zero_lt_one) (by decide) (by decide) rfl rfl rfl
  obtain ⟨⟨tries, stores, tick, reply, hawaits⟩, hall⟩ :=
    awaits_on_schedule hexact (fun _ ↦ rfl) hbegins
  obtain ⟨⟨how, hkeeps, hreply⟩, hstores⟩ := hall tries stores tick reply hawaits
  exact ⟨_, tries, stores, tick, reply, how, rfl, hawaits, hkeeps, hreply, hstores⟩

end World

end LeaseLock
