import Mathlib.Algebra.Group.Nat.Defs
import LeaseLock.Proofs.Cluster.Exclusion

/-!
# The timetable of upkeep

A `Timetable` says when the next pass of upkeep is due. Time passes up to that instant and no
further before the pass is made, so the passes are made one period, two periods and so on behind
the start, and at no other time. A pass itself takes no time. Other calls may take some, as long as
they are over before the next pass; one that takes no time can still come before a pass that is due.

A timetable is not part of any program. It is what the program is held to: whoever speaks of passes
at the start plus multiples of the period speaks of runs that keep to a timetable, and that the
background tasks make such runs is another matter (`Tended`).

## Short lengths of time

Lengths of time become words of milliseconds, and are what they were if they are short enough. So
settings are taken to be below a bound (`Config.ShorterThan`), and so are the expiries that are told
(`Notice.Below`). Below 2 to the power of 60 milliseconds twice a length still is one, and nothing
wraps around in a sum of a few of them. The bound is far beyond what anyone sets, and it is not
sharp; what happens at lengths of which the words wrap around is a question of its own
(`Config.Exact`).
-/

namespace LeaseLock

/-! ### Lengths of time -/

/-- The lengths of time in the settings are below `bound` milliseconds. -/
structure Config.ShorterThan (c : Config) (bound : Nat) : Prop where
  /-- The default length of a lease. -/
  defaultTtl : c.defaultTtl.millis < bound
  /-- The longest lease. -/
  maxTtl : c.maxTtl.millis < bound
  /-- The period of upkeep. -/
  upkeepPeriod : c.upkeepPeriod.millis < bound
  /-- The period of the deadlock detector. -/
  detectionPeriod : c.detectionPeriod.millis < bound
  /-- The sleep between two tries. -/
  pollPeriod : c.pollPeriod.millis < bound

namespace Config.ShorterThan

variable {c : Config}

/-- A short default length is its number of seconds in milliseconds. -/
theorem wholeMillis_defaultTtl (h : c.ShorterThan (2 ^ 60)) :
    c.defaultTtl.wholeMillis = c.defaultTimeout * 1000 := by
  rw [Duration.wholeMillis_of_lt (Nat.lt_trans h.defaultTtl (by decide)), Config.defaultTtl,
    Duration.millis_ofSecs]

/-- A key of the default length lasts for just that long, since the length is not zero. -/
theorem keyMillis_defaultTtl (h : c.ShorterThan (2 ^ 60)) (hcheck : c.check = .ok ()) :
    c.defaultTtl.keyMillis = c.defaultTtl.wholeMillis := by
  refine Nat.max_eq_left ?_
  rw [h.wholeMillis_defaultTtl]
  exact Nat.mul_pos (check_eq_ok_iff.1 hcheck).1 (by decide)

/-- A short period is its number of seconds in milliseconds. -/
theorem wholeMillis_upkeepPeriod (h : c.ShorterThan (2 ^ 60)) :
    c.upkeepPeriod.wholeMillis = c.renewalInterval * 1000 := by
  rw [Duration.wholeMillis_of_lt (Nat.lt_trans h.upkeepPeriod (by decide)), Config.upkeepPeriod,
    Duration.millis_ofSecs]

/-- The window of a pass is two periods. -/
theorem double?_upkeepPeriod (h : c.ShorterThan (2 ^ 60)) :
    ∃ window, c.upkeepPeriod.double? = some window ∧
      window.wholeMillis = 2 * c.upkeepPeriod.wholeMillis := by
  have hshort : c.renewalInterval * 1000 < 2 ^ 60 := by
    have hperiod := h.upkeepPeriod
    rwa [Config.upkeepPeriod, Duration.millis_ofSecs] at hperiod
  have hmillis : (Duration.ofSecs (2 * c.renewalInterval)).millis < wordBound := by
    rw [Duration.millis_ofSecs, Nat.mul_assoc]
    exact Nat.lt_trans (Nat.mul_lt_mul_of_pos_left hshort (by decide)) (by decide)
  have hsecs : 2 * c.renewalInterval < wordBound := by
    rw [Duration.millis_ofSecs] at hmillis
    exact Nat.lt_of_le_of_lt (Nat.le_mul_of_pos_right _ (by decide)) hmillis
  refine ⟨.ofSecs (2 * c.renewalInterval), Duration.double?_ofSecs hsecs, ?_⟩
  rw [h.wholeMillis_upkeepPeriod, Duration.wholeMillis_of_lt hmillis, Duration.millis_ofSecs,
    Nat.mul_assoc]

end Config.ShorterThan

/-! ### Expiries that are told -/

namespace Notice

variable {bound e : Nat} {n : Notice} {lock : LockName} {id : LeaseId}

/-- An expiry that is told is below `bound`. -/
def Below (bound : Nat) : Notice → Prop
  | granted l => l.expiresAt < bound
  | renewed _ _ renewal => renewal.expiresAt < bound
  | released _ _ => True
  | refused _ _ _ => True
  | cleared => True

/-- An expiry that was told in a notice below a bound is below it. -/
theorem Below.expiry_lt (h : n.Below bound) (he : n.expiry? lock id = some e) : e < bound := by
  cases n with
  | granted l =>
    rw [expiry?] at he
    split at he
    · cases he
      exact h
    · cases he
  | renewed lock' id' renewal =>
    rw [expiry?] at he
    split at he
    · cases he
      exact h
    · cases he
  | released | refused | cleared => cases he

/-- What is below the bound of words fits a word. -/
theorem Below.fits (h : n.Below bound) (hbound : bound ≤ wordBound) : n.Fits := by
  cases n with
  | granted l => exact Nat.lt_of_lt_of_le h hbound
  | renewed lock id renewal => exact Nat.lt_of_lt_of_le h hbound
  | released | refused | cleared => exact trivial

end Notice

/-! ### The timetable of upkeep -/

/-- The time, and when the next pass of upkeep is due. -/
structure Timetable where
  /-- The time. -/
  now : Nat
  /-- When the next pass is due. -/
  due : Nat

namespace Timetable

variable {interval : Duration} {t : Timetable} {c : Call Unit} {calls later : List (Call Unit)}

/-- Upkeep starts, and makes its first pass in one period. -/
def start (period now : Nat) : Timetable := ⟨now, now + period⟩

/-- The call keeps to the timetable. A pass is made when it is due, and at once. Time passes no
further than to the next pass, and on both clocks alike. Every other call is over before the next
pass, and neither the store nor the coordinator goes away. -/
def Allows (interval : Duration) (t : Timetable) : Call Unit → Prop
  | .elapse millis ticks => ticks = millis ∧ t.now + millis ≤ t.due
  | .upkeep _ interval' lags => interval' = interval ∧ lags = [] ∧ t.now = t.due
  | .outage _ => False
  | .clear _ => False
  | c => c.took = 0 ∨ t.now + c.took < t.due

/-- The timetable behind a call, if a pass is made in every period. -/
def next (period : Nat) (t : Timetable) : Call Unit → Timetable
  | .upkeep _ _ _ => { t with due := t.due + period }
  | c => { t with now := t.now + c.took }

/-- The calls keep to the timetable one after another. -/
def AllowsAll (interval : Duration) : Timetable → List (Call Unit) → Prop
  | _, [] => True
  | t, c :: calls => t.Allows interval c ∧ (t.next interval.wholeMillis c).AllowsAll interval calls

/-- Calls keep to the timetable if the later ones keep to the one that the earlier ones leave. -/
theorem allowsAll_append :
    t.AllowsAll interval (calls ++ later) ↔
      t.AllowsAll interval calls ∧
        (calls.foldl (next interval.wholeMillis) t).AllowsAll interval later := by
  induction calls generalizing t with
  | nil => exact (iff_of_eq (true_and _)).symm
  | cons d calls ih =>
    rw [List.cons_append, AllowsAll, AllowsAll, ih, and_assoc, List.foldl_cons]

/-- The last call keeps to the timetable that the others leave. -/
theorem allowsAll_concat :
    t.AllowsAll interval (calls ++ [c]) ↔
      t.AllowsAll interval calls ∧
        (calls.foldl (next interval.wholeMillis) t).Allows interval c := by
  rw [allowsAll_append, AllowsAll, AllowsAll, and_true]

end Timetable

end LeaseLock
