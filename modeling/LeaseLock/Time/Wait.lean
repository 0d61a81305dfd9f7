import LeaseLock.Fault

/-!
# Waiting for a lock

A client that waits for a lock tries again and again until it gets the lock or its deadline passes.
Between two tries it sleeps for the poll interval, or until the deadline if that comes first, so the
last try is made exactly at the deadline.

Waiting is timed on a clock of its own that ticks once a millisecond and never goes back, whatever
happens to the wall clock. A wait lasts to the end of the millisecond in which it is over, so its
length counts in whole ticks, rounded up. A wait whose end is beyond the range of the clock takes
thirty years.

How long a sleep takes and how far the clock reaches is a matter of the runtime, of which a `Timing`
says what is relied on. Whoever states what becomes of a wait names what is supposed of its timing;
`Timing.usual` is one that runs.

`Wait.resume` is the decision between two tries, and `Wait.run` the whole loop against arbitrary
answers of the store, as the list of instants at which it tries and the way it ends.
-/

namespace LeaseLock

/-- The length of a wait that reaches beyond the range of the clock: thirty years. -/
def Wait.horizon : Duration := .ofSecs (86400 * 365 * 30)

/-- How a program is timed that sleeps. -/
structure Timing where
  /-- The ticks that a sleep of the given length takes. -/
  sleepTicks : Duration → Nat
  /-- Every sleep takes time. -/
  sleepTicks_pos : ∀ d, 0 < sleepTicks d
  /-- Whether the clock can count to the end of a wait of the given length. -/
  reaches : Duration → Bool

/-- A sleep lasts to the end of the millisecond in which it is over, up to the horizon of a wait,
and the clock counts seconds to a signed word of 64 bits, from a day on. -/
def Timing.usual : Timing where
  sleepTicks d := max (min d.ticks Wait.horizon.ticks) 1
  sleepTicks_pos _ := Nat.lt_of_lt_of_le Nat.zero_lt_one (Nat.le_max_right _ _)
  reaches d := decide (86400 + d.secs < signedBound)

/-- The schedule of a wait. -/
structure Wait where
  /-- How it is timed. -/
  timing : Timing
  /-- The tick at which the wait began. -/
  started : Nat
  /-- The tick of the last try. -/
  deadline : Nat
  /-- How long to sleep between two tries. -/
  poll : Duration

/-- How a wait ends. -/
inductive WaitEnd where
  /-- A try succeeded. -/
  | acquired
  /-- The deadline passed after this long. -/
  | timedOut (waited : Duration)
  /-- The store failed. -/
  | failed (fault : StoreFault)
deriving DecidableEq, Repr

/-- What a waiting client does between two tries. -/
inductive WaitStep where
  /-- Sleep until a tick and try again then. -/
  | sleep (wake : Nat)
  /-- Stop waiting. -/
  | stop (how : WaitEnd)
deriving DecidableEq, Repr

namespace Wait

/-- The ticks of a wait, which may reach beyond the range of the clock. -/
def ticksOf (timing : Timing) (d : Duration) : Nat :=
  if timing.reaches d then d.ticks else horizon.ticks

/-- A wait that begins at `tick`. -/
def begin (timing : Timing) (tick : Nat) (wait poll : Duration) : Wait where
  timing
  started := tick
  deadline := tick + ticksOf timing wait
  poll

/-- Sleep, unless the deadline has come. -/
def resume (w : Wait) (tick : Nat) : WaitStep :=
  if w.deadline ≤ tick then .stop (.timedOut (.ofMillis (tick - w.started)))
  else .sleep (tick + w.timing.sleepTicks (w.poll.shorter (.ofMillis (w.deadline - tick))))

/-- Go on after a try at `tick` with the given answer. -/
def proceed (w : Wait) (tick : Nat) : Except StoreFault Bool → WaitStep
  | .error fault => .stop (.failed fault)
  | .ok true => .stop .acquired
  | .ok false => w.resume tick

theorem lt_of_resume_eq_sleep {w : Wait} {tick wake : Nat} (h : w.resume tick = .sleep wake) :
    tick < wake ∧ tick < w.deadline := by
  simp only [resume] at h
  split at h
  · simp at h
  · next hlate =>
    have := w.timing.sleepTicks_pos (w.poll.shorter (.ofMillis (w.deadline - tick)))
    simp only [WaitStep.sleep.injEq] at h
    omega

/-- The tries made from `tick` on when the store answers a try at `t` with `answer t`, and how the
wait ends. -/
def run (w : Wait) (answer : Nat → Except StoreFault Bool) (tick : Nat) : List Nat × WaitEnd :=
  match h : w.resume tick with
  | .stop how => ([], how)
  | .sleep wake =>
    have : w.deadline - wake < w.deadline - tick := by
      have := lt_of_resume_eq_sleep h
      omega
    match answer wake with
    | .error fault => ([wake], .failed fault)
    | .ok true => ([wake], .acquired)
    | .ok false =>
      let (tries, how) := w.run answer wake
      (wake :: tries, how)
termination_by w.deadline - tick

end Wait

/-- The answer to a client whose wait for a lock has ended. -/
def WaitEnd.toExcept (lock : LockName) : WaitEnd → Except LockFault Unit
  | acquired => .ok ()
  | timedOut waited => .error (.waitTimeoutExceeded lock waited)
  | failed fault => .error (.storeUnavailable fault)

end LeaseLock
