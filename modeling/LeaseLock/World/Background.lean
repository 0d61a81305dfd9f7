import LeaseLock.Coordinator.Upkeep

/-!
# Background tasks

A coordinator can run two tasks in the background, each with a period of its own: upkeep, and the
deadlock detector unless it is switched off. A task runs for the first time one period after it was
started, and sleeps for a period between its runs. A task without a period dies at once, and upkeep
dies when its interval turns out to be too long to be doubled.
-/

namespace LeaseLock

/-- A task that runs once in a period. -/
structure Timer where
  /-- The ticks between two runs. -/
  period : Nat
  /-- The tick of the next run. -/
  next : Nat
deriving DecidableEq, Repr

namespace Timer

/-- A task started at `tick`, unless it has no period. -/
def start (timing : Timing) (tick : Nat) (period : Duration) : Option Timer :=
  if period.isZero then none
  else some ⟨timing.sleepTicks period, tick + timing.sleepTicks period⟩

/-- The task after the run at `tick`. -/
def rearm (t : Timer) (tick : Nat) : Timer := { t with next := tick + t.period }

/-- Whether the task runs at `tick`. -/
def isDue (t : Timer) (tick : Nat) : Bool := decide (t.next ≤ tick)

end Timer

/-- The tasks of a coordinator, as far as they are alive. -/
structure Background where
  /-- Upkeep. -/
  upkeep : Option Timer
  /-- The deadlock detector. -/
  detection : Option Timer
deriving DecidableEq, Repr

namespace Background

/-- The tasks that the settings of a coordinator ask for, started at `tick`. -/
def start (c : Coordinator) (tick : Nat) : Background where
  upkeep := Timer.start c.timing tick c.config.upkeepPeriod
  detection :=
    if c.config.detectDeadlocks then Timer.start c.timing tick c.config.detectionPeriod else none

/-- Whether any task is alive. -/
def isRunning (b : Background) : Bool := b.upkeep.isSome || b.detection.isSome

/-- The ticks of the next runs. -/
def due (b : Background) : List Nat :=
  b.upkeep.toList.map (·.next) ++ b.detection.toList.map (·.next)

/-- Make a pass of upkeep if it is due at `tick`. -/
def runUpkeep (b : Background) (c : Coordinator) (store : Store) (now tick : Nat) :
    Outcome Background :=
  match b.upkeep with
  | none => ⟨b, store, c⟩
  | some t =>
    if t.isDue tick then
      match c.upkeep store now c.config.upkeepPeriod with
      | ⟨.ok _, store, c⟩ => ⟨{ b with upkeep := some (t.rearm tick) }, store, c⟩
      | ⟨.error _, store, c⟩ => ⟨{ b with upkeep := none }, store, c⟩
    else ⟨b, store, c⟩

/-- Run the deadlock detector if it is due at `tick`. -/
def runDetection (b : Background) (c : Coordinator) (now tick : Nat) : Background × Coordinator :=
  match b.detection with
  | none => (b, c)
  | some t =>
    if t.isDue tick then ({ b with detection := some (t.rearm tick) }, (c.detect now).2) else (b, c)

/-- Run the tasks that are due at `tick`. -/
def run (b : Background) (c : Coordinator) (store : Store) (now tick : Nat) : Outcome Background :=
  let ⟨b, store, c⟩ := b.runUpkeep c store now tick
  let (b, c) := b.runDetection c now tick
  ⟨b, store, c⟩

end Background

end LeaseLock
