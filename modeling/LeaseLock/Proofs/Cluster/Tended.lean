import LeaseLock.Proofs.Cluster.Tasks
import LeaseLock.Proofs.Cluster.Timetable

/-!
# Background tasks keep the timetable

A coordinator that is `Tended` has its tasks in the background, each with a timer. What happens is
that clients make calls, that time passes, and that the tasks run which are due
(`Tended.step`). A step of the tasks is given by `Background.run`, as the program runs them, and
looks at timers; a call of a cluster knows nothing of them.

So there is something to show. Whatever the tasks do, they do by calls (`Background.put_run`), so a
run of a coordinator with its tasks is a run of calls (`Tended.cluster_run`). And if nobody sleeps
past the timer of upkeep, these calls keep to the timetable (`Tended.Keeps.run`): the timer is
rearmed at the tick at which it has run out, so it always shows the next instant of the timetable.

## What is supposed of sleeping

A timer sleeps for as long as the runtime takes for the period (`Timing.sleepTicks`). That this is
the period itself is supposed where it matters, and of this one length only (`Tended.keeps_start`).
-/

namespace LeaseLock

/-- The only coordinator of a store, with its tasks in the background. -/
structure Tended where
  /-- The coordinator, its store and the time. -/
  cluster : Cluster Unit
  /-- The tasks. -/
  tasks : Background

namespace Tended

/-- What happens while tasks run in the background. -/
inductive Step where
  /-- A client makes a call, or time passes. -/
  | call (c : Call Unit)
  /-- The tasks run that are due. -/
  | tasks

variable {g : Tended} {f : Cluster Unit} {c : Config} {t : Timetable} {e : Step} {es : List Step}

/-- The tasks are started. -/
def start (f : Cluster Unit) : Tended := ⟨f, .start (f.member ()) f.tick⟩

/-- One step. -/
def step (g : Tended) : Step → Tended
  | .call c => { g with cluster := (g.cluster.serve c).2 }
  | .tasks =>
    let o := g.tasks.run (g.cluster.member ()) g.cluster.reach g.cluster.now g.cluster.tick
    ⟨g.cluster.put () o, o.answer⟩

/-- The calls that are made in a step. -/
def made (g : Tended) : Step → List (Call Unit)
  | .call c => [c]
  | .tasks => g.tasks.calls g.cluster ()

/-- The calls that are made in a run, and what is behind them. -/
def run (g : Tended) : List Step → List (Call Unit) × Tended
  | [] => ([], g)
  | e :: es =>
    let (calls, g') := (g.step e).run es
    (g.made e ++ calls, g')

/-- The step is made before the next pass of upkeep is due, or when it is. A pass is made by the
task only, and neither the store nor the coordinator goes away. -/
def Allows (g : Tended) : Step → Prop
  | .tasks => True
  | .call (.upkeep _ _ _) | .call (.outage _) | .call (.clear _) => False
  | .call (.elapse millis ticks) =>
    ticks = millis ∧ ∀ timer ∈ g.tasks.upkeep, g.cluster.tick + ticks ≤ timer.next
  | .call c => c.took = 0 ∨ ∀ timer ∈ g.tasks.upkeep, g.cluster.tick + c.took < timer.next

/-- The steps are made in time, one after another. -/
def AllowsAll : Tended → List Step → Prop
  | _, [] => True
  | g, e :: es => g.Allows e ∧ (g.step e).AllowsAll es

/-! ### A run is a run of calls -/

/-- What a step does it does by the calls that are made in it. -/
theorem cluster_step (g : Tended) (e : Step) :
    (g.step e).cluster = (g.cluster.runCalls (g.made e)).2 := by
  cases e with
  | call c => rfl
  | tasks => exact g.tasks.put_run g.cluster ()

theorem cluster_run (g : Tended) (es : List Step) :
    (g.run es).2.cluster = (g.cluster.runCalls (g.run es).1).2 := by
  induction es generalizing g with
  | nil => rfl
  | cons e es ih =>
    show ((g.step e).run es).2.cluster =
      (g.cluster.runCalls (g.made e ++ ((g.step e).run es).1)).2
    rw [ih, cluster_step, Cluster.runCalls_append]

/-! ### The calls keep to the timetable -/

/-- The timer of upkeep runs out when the next pass of the timetable is due. -/
structure Keeps (g : Tended) (c : Config) (t : Timetable) : Prop where
  /-- The settings of the coordinator. -/
  config : (g.cluster.member ()).config = c
  /-- The timetable has the time. -/
  now : t.now = g.cluster.now
  /-- As much is left on the timer as on the timetable. -/
  timer : ∃ left, g.tasks.upkeep = some ⟨c.upkeepPeriod.wholeMillis, g.cluster.tick + left⟩ ∧
    t.due = t.now + left

/-- Tasks that are started keep the timetable, if the sleep for a period takes a period. -/
theorem keeps_start (hconfig : (f.member ()).config = c) (hperiod : c.upkeepPeriod.isZero = false)
    (hsleep : (f.member ()).timing.sleepTicks c.upkeepPeriod = c.upkeepPeriod.wholeMillis) :
    (start f).Keeps c (.start c.upkeepPeriod.wholeMillis f.now) := by
  refine ⟨hconfig, rfl, c.upkeepPeriod.wholeMillis, ?_, rfl⟩
  show Timer.start (f.member ()).timing f.tick (f.member ()).config.upkeepPeriod = _
  rw [hconfig, Timer.start, hperiod, hsleep]
  rfl

/-- A call that is over when the timer runs out leaves it as it is. -/
theorem Keeps.call (hk : g.Keeps c t) {call : Call Unit} {left : Nat}
    (htimer : g.tasks.upkeep = some ⟨c.upkeepPeriod.wholeMillis, g.cluster.tick + left⟩)
    (hdue : t.due = t.now + left) (htook : call.took ≤ left)
    (hticks : ∀ millis ticks, call = .elapse millis ticks → ticks = millis) :
    (g.step (.call call)).Keeps c ⟨t.now + call.took, t.due⟩ where
  config := (Cluster.settings_serve g.cluster call ()).1.trans hk.config
  now := by
    rw [hk.now]
    exact (g.cluster.now_serve call).symm
  timer := by
    refine ⟨left - call.took, ?_, ?_⟩
    · show g.tasks.upkeep = some ⟨_, (g.cluster.serve call).2.tick + _⟩
      rw [htimer, g.cluster.tick_serve hticks, Nat.add_assoc, Nat.add_sub_cancel' htook]
    · show t.due = t.now + call.took + _
      rw [hdue, Nat.add_assoc, Nat.add_sub_cancel' htook]

/-- The task makes a pass when its timer has run out, and rearms the timer. -/
theorem upkeep_runUpkeep {b : Background} {m : Coordinator} {timer : Timer} {window : Duration}
    (hb : b.upkeep = some timer) (hwindow : m.config.upkeepPeriod.double? = some window) (s : Store)
    (now tick : Nat) :
    (b.runUpkeep m s now tick).answer.upkeep =
      some (if timer.isDue tick then timer.rearm tick else timer) := by
  rw [Background.runUpkeep, hb]
  dsimp only
  split
  · obtain ⟨report, hreport⟩ : ∃ report,
        (m.upkeep s now m.config.upkeepPeriod []).answer = .ok report := by
      rw [Coordinator.upkeep, hwindow]
      exact ⟨_, rfl⟩
    generalize m.upkeep s now m.config.upkeepPeriod [] = o at hreport ⊢
    obtain ⟨answer, store, m'⟩ := o
    cases hreport
    rfl
  · exact hb

theorem upkeep_run (b : Background) (m : Coordinator) (s : Store) (now tick : Nat) :
    (b.run m s now tick).answer.upkeep = (b.runUpkeep m s now tick).answer.upkeep := by
  rw [Background.run]
  dsimp only
  rw [Background.runDetection]
  split
  · rfl
  · split <;> rfl

/-- Looking for deadlocks is always in time. -/
theorem allowsAll_look (g : Tended) (t : Timetable) (interval : Duration) :
    t.AllowsAll interval (g.tasks.look g.cluster ()) ∧
      (g.tasks.look g.cluster ()).foldl (Timetable.next interval.wholeMillis) t = t := by
  rw [Background.look]
  split
  · exact ⟨trivial, rfl⟩
  · split
    · exact ⟨⟨.inl rfl, trivial⟩, rfl⟩
    · exact ⟨trivial, rfl⟩

/-- The tasks take no time. -/
theorem time_tasks (g : Tended) :
    (g.step .tasks).cluster.now = g.cluster.now ∧
      (g.step .tasks).cluster.tick = g.cluster.tick := by
  rw [step]
  generalize g.tasks.run _ _ _ _ = o
  exact ⟨rfl, rfl⟩

theorem pass_of_upkeep {timer : Timer} (htimer : g.tasks.upkeep = some timer) :
    g.tasks.pass g.cluster () = if timer.isDue g.cluster.tick then
      [.upkeep () (g.cluster.member ()).config.upkeepPeriod] else [] := by
  rw [Background.pass, htimer]

/-- What is left on the timer behind the tasks. -/
theorem upkeep_tasks {timer : Timer} {window : Duration} (htimer : g.tasks.upkeep = some timer)
    (hwindow : (g.cluster.member ()).config.upkeepPeriod.double? = some window) :
    (g.step .tasks).tasks.upkeep =
      some (if timer.isDue g.cluster.tick then timer.rearm g.cluster.tick else timer) :=
  (upkeep_run ..).trans (upkeep_runUpkeep htimer hwindow ..)

/-- A pass that is made when the timer has run out keeps to the timetable. -/
theorem allowsAll_pass {interval : Duration} {timer : Timer} {left : Nat}
    (htimer : g.tasks.upkeep = some timer) (hnext : timer.next = g.cluster.tick + left)
    (hinterval : (g.cluster.member ()).config.upkeepPeriod = interval)
    (hdue : t.due = t.now + left) :
    t.AllowsAll interval (g.tasks.pass g.cluster ()) ∧
      (g.tasks.pass g.cluster ()).foldl (Timetable.next interval.wholeMillis) t =
        ⟨t.now, if timer.isDue g.cluster.tick then t.due + interval.wholeMillis else t.due⟩ := by
  rw [pass_of_upkeep htimer, hinterval]
  cases hpass : timer.isDue g.cluster.tick with
  | true =>
    -- Nobody has slept past the timer, so it has run out just now.
    have hout : timer.next ≤ g.cluster.tick := of_decide_eq_true hpass
    have hleft : t.now = t.due := by omega
    rw [if_pos rfl, if_pos rfl]
    exact ⟨⟨⟨rfl, rfl, hleft⟩, trivial⟩, rfl⟩
  | false =>
    rw [if_neg Bool.false_ne_true, if_neg Bool.false_ne_true]
    exact ⟨trivial, rfl⟩

/-- The tasks make the calls that are due, and behind them the timer shows the next pass again. -/
theorem Keeps.tasks (hk : g.Keeps c t) {window : Duration}
    (hwindow : c.upkeepPeriod.double? = some window) :
    t.AllowsAll c.upkeepPeriod (g.made .tasks) ∧
      (g.step .tasks).Keeps c
        ((g.made .tasks).foldl (Timetable.next c.upkeepPeriod.wholeMillis) t) := by
  obtain ⟨left, htimer, hdue⟩ := hk.timer
  obtain ⟨hnow, htick⟩ := g.time_tasks
  obtain ⟨hpass, hbehind⟩ := allowsAll_pass htimer rfl (congrArg Config.upkeepPeriod hk.config) hdue
  obtain ⟨hlook, hsame⟩ := g.allowsAll_look
    ((g.tasks.pass g.cluster ()).foldl (Timetable.next c.upkeepPeriod.wholeMillis) t)
    c.upkeepPeriod
  have htasks := upkeep_tasks htimer (hk.config ▸ hwindow)
  rw [made, Background.calls, Timetable.allowsAll_append, List.foldl_append, hsame, hbehind]
  rw [hbehind] at hlook
  refine ⟨⟨hpass, hlook⟩, ?_, hk.now.trans hnow.symm, ?_⟩
  · rw [cluster_step, (Cluster.settings_runCalls ..).1, hk.config]
  · rw [htasks, htick]
    generalize c.upkeepPeriod.wholeMillis = period
    cases hout : (⟨period, g.cluster.tick + left⟩ : Timer).isDue g.cluster.tick with
    | true =>
      have hle : g.cluster.tick + left ≤ g.cluster.tick := of_decide_eq_true hout
      refine ⟨period, by rw [if_pos rfl]; rfl, ?_⟩
      rw [if_pos rfl]
      show t.due + period = t.now + period
      omega
    | false => exact ⟨left, by rw [if_neg Bool.false_ne_true], hdue⟩

/-- A step that is made in time is made of calls that keep to the timetable, and behind it the timer
shows the next pass again. -/
theorem Keeps.step (hk : g.Keeps c t) {window : Duration}
    (hwindow : c.upkeepPeriod.double? = some window) (hallows : g.Allows e) :
    t.AllowsAll c.upkeepPeriod (g.made e) ∧
      (g.step e).Keeps c
        ((g.made e).foldl (Timetable.next c.upkeepPeriod.wholeMillis) t) := by
  cases e with
  | tasks => exact hk.tasks hwindow
  | call call =>
    obtain ⟨left, htimer, hdue⟩ := hk.timer
    have hover (h : call.took = 0 ∨ ∀ timer ∈ g.tasks.upkeep,
        g.cluster.tick + call.took < timer.next) :
        (call.took = 0 ∨ t.now + call.took < t.due) ∧ call.took ≤ left := by
      rw [hdue]
      rcases h with hnone | hbefore
      · exact ⟨.inl hnone, hnone ▸ Nat.zero_le left⟩
      · have htook := Nat.lt_of_add_lt_add_left (hbefore _ htimer)
        exact ⟨.inr (Nat.add_lt_add_left htook _), Nat.le_of_lt htook⟩
    cases call with
    | upkeep | outage | clear => exact hallows.elim
    | elapse millis ticks =>
      obtain ⟨rfl, hbefore⟩ := hallows
      have htook := Nat.le_of_add_le_add_left (hbefore _ htimer)
      exact ⟨⟨⟨rfl, hdue ▸ Nat.add_le_add_left htook _⟩, trivial⟩,
        hk.call htimer hdue htook fun _ _ h ↦ by cases h; rfl⟩
    | acquire | poll | cancel | release | renew | purge | status | detect =>
      obtain ⟨hallowed, htook⟩ := hover hallows
      exact ⟨⟨hallowed, trivial⟩, hk.call htimer hdue htook fun _ _ h ↦ by cases h⟩

/-- **Background tasks keep the timetable.** In a run in which nobody sleeps past the timer of
upkeep, all calls that are made keep to the timetable. -/
theorem Keeps.run (hk : g.Keeps c t) {window : Duration}
    (hwindow : c.upkeepPeriod.double? = some window) (hallows : g.AllowsAll es) :
    t.AllowsAll c.upkeepPeriod (g.run es).1 := by
  induction es generalizing g t with
  | nil => trivial
  | cons e es ih =>
    obtain ⟨hstep, hbehind⟩ := hk.step hwindow hallows.1
    exact Timetable.allowsAll_append.2 ⟨hstep, ih hbehind hallows.2⟩

end Tended

end LeaseLock
