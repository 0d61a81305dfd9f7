import LeaseLock.Proofs.Cluster.Serve
import LeaseLock.World.Background

/-!
# What background tasks do they do by calls

A run of the tasks of a coordinator is given by `Background.run`, as the program runs them. It looks
at timers, and works on a coordinator and a store. A call of a cluster knows nothing of timers.

The two go together. The timers decide which calls are made (`Background.calls`): a pass of upkeep
if its timer has run out, then a look for deadlocks if the other timer has. The coordinator and the
store behind the tasks are what these calls leave (`Background.put_run`), so whatever holds behind
every call holds behind the tasks.

The calls take no time. The tasks run at one tick, and both timers are looked at then.

## Timers and calls

The calls that a run makes depend on the timers before it and on the settings. They do not depend on
what the calls come to: a pass that fails is followed by the look for deadlocks all the same. So the
calls can be listed before the first of them is made, and the registry that the look sees is the one
that the pass has left.

What is put on the broadcast of reports is no part of a cluster. It follows the look and changes
neither a coordinator nor the store.
-/

namespace LeaseLock

variable {ι : Type} [DecidableEq ι]

/-- A coordinator that is entered behind an operation takes the place of the one behind it. -/
theorem Cluster.enter_put {α β : Type} (f : Cluster ι) (i : ι) (o : Outcome α) (a : β)
    (c : Coordinator) : (f.put i o).enter i c = f.put i ⟨a, o.store, c⟩ :=
  congrArg (·.withStore (if f.outage then f.store else o.store)) (f.enter_enter i o.coordinator c)

/-- What no call gives notice of is not in the history. -/
theorem Cluster.not_mem_runCalls {f : Cluster ι} {n : Notice} {calls : List (Call ι)}
    (h : ∀ c ∈ calls, ∀ g : Cluster ι, n ∉ (g.serve c).1) : n ∉ (f.runCalls calls).1 := by
  induction calls generalizing f with
  | nil => exact List.not_mem_nil
  | cons c calls ih =>
    obtain ⟨hfirst, hrest⟩ := List.forall_mem_cons.1 h
    intro hn
    rcases List.mem_append.1 hn with hn | hn
    · exact hfirst f hn
    · exact ih hrest hn

namespace Background

/-- The call of upkeep, if it is due. -/
def pass (b : Background) (f : Cluster ι) (i : ι) : List (Call ι) :=
  match b.upkeep with
  | none => []
  | some timer => if timer.isDue f.tick then [.upkeep i (f.member i).config.upkeepPeriod] else []

/-- The call of the deadlock detector, if it is due. -/
def look (b : Background) (f : Cluster ι) (i : ι) : List (Call ι) :=
  match b.detection with
  | none => []
  | some timer => if timer.isDue f.tick then [.detect i] else []

/-- The calls that the tasks of the member `i` make. -/
def calls (b : Background) (f : Cluster ι) (i : ι) : List (Call ι) := b.pass f i ++ b.look f i

/-- A pass of the task is the pass of a call. -/
theorem put_runUpkeep (b : Background) (f : Cluster ι) (i : ι) :
    f.put i (b.runUpkeep (f.member i) f.reach f.now f.tick) = (f.runCalls (b.pass f i)).2 := by
  rw [runUpkeep, pass]
  cases b.upkeep with
  | none =>
    rw [Cluster.put_reach, Cluster.enter_member]
    rfl
  | some timer =>
    dsimp only
    cases timer.isDue f.tick with
    | false =>
      rw [if_neg Bool.false_ne_true, if_neg Bool.false_ne_true, Cluster.put_reach,
        Cluster.enter_member]
      rfl
    | true =>
      rw [if_pos rfl, if_pos rfl, Cluster.runCalls_singleton, Cluster.upkeep_serve]
      generalize (f.member i).upkeep f.reach f.now (f.member i).config.upkeepPeriod [] = o
      obtain ⟨answer, store, c⟩ := o
      cases answer <;> rfl

/-- The other task looks for deadlocks as a call does. -/
theorem enter_runDetection (b : Background) (f : Cluster ι) (i : ι) :
    f.enter i (b.runDetection (f.member i) f.now f.tick).2 = (f.runCalls (b.look f i)).2 := by
  rw [runDetection, look]
  cases b.detection with
  | none => exact f.enter_member i
  | some timer =>
    dsimp only
    cases timer.isDue f.tick with
    | false => exact f.enter_member i
    | true => exact (f.runCalls_singleton (.detect i)).symm

theorem detection_runUpkeep (b : Background) (c : Coordinator) (s : Store) (now tick : Nat) :
    (b.runUpkeep c s now tick).answer.detection = b.detection := by
  rw [runUpkeep]
  split
  · rfl
  · split
    · split <;> rfl
    · rfl

/-- What the tasks do they do by the calls that are due. -/
theorem put_run (b : Background) (f : Cluster ι) (i : ι) :
    f.put i (b.run (f.member i) f.reach f.now f.tick) = (f.runCalls (b.calls f i)).2 := by
  let o := b.runUpkeep (f.member i) f.reach f.now f.tick
  have hmember : o.coordinator = (f.put i o).member i :=
    (Cluster.member_enter_self f i o.coordinator).symm
  have hlook : o.answer.look (f.put i o) i = b.look (f.put i o) i := by
    rw [look, look, b.detection_runUpkeep]
  calc f.put i (b.run (f.member i) f.reach f.now f.tick)
      = (f.put i o).enter i (o.answer.runDetection o.coordinator f.now f.tick).2 := by
        exact (f.enter_put i o _ _).symm
    _ = ((f.put i o).runCalls (b.look (f.put i o) i)).2 := by
        rw [← hlook, hmember]
        exact o.answer.enter_runDetection (f.put i o) i
    _ = (f.runCalls (b.calls f i)).2 := by
        rw [calls, Cluster.runCalls_append, ← b.put_runUpkeep f i]
        rfl

/-! ### What the calls do not do -/

omit [DecidableEq ι] in
/-- Each of the calls is a pass of upkeep, in which no time passes, or a look for deadlocks. -/
theorem mem_calls {b : Background} {f : Cluster ι} {i : ι} {c : Call ι} (h : c ∈ b.calls f i) :
    (∃ interval, c = .upkeep i interval) ∨ c = .detect i := by
  rcases List.mem_append.1 h with hpass | hlook
  · rw [pass] at hpass
    split at hpass
    · cases hpass
    · split at hpass
      · exact .inl ⟨_, List.mem_singleton.1 hpass⟩
      · cases hpass
  · rw [look] at hlook
    split at hlook
    · cases hlook
    · split at hlook
      · exact .inr (List.mem_singleton.1 hlook)
      · cases hlook

omit [DecidableEq ι] in
theorem within_calls (b : Background) (f : Cluster ι) (i : ι) :
    ∀ c ∈ b.calls f i, c.Within ⟨0, 0⟩ := by
  intro c hc
  obtain ⟨interval, rfl⟩ | rfl := mem_calls hc
  · exact ⟨trivial, nofun⟩
  · exact ⟨trivial, trivial⟩

/-- The tasks grant nothing. -/
theorem granted_not_mem_calls (b : Background) (f : Cluster ι) (i : ι) (l : Lease) :
    .granted l ∉ (f.runCalls (b.calls f i)).1 := by
  refine Cluster.not_mem_runCalls fun c hc g ↦ ?_
  obtain ⟨interval, rfl⟩ | rfl := mem_calls hc
  · exact Cluster.granted_not_mem_upkeep
  · exact List.not_mem_nil

end Background

end LeaseLock
