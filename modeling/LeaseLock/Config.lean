import LeaseLock.Json.Record
import LeaseLock.Time.Duration

/-!
# The configuration of a coordinator

Five numbers and a switch: how long leases last, how often the background tasks run, how often a
waiting client tries again, and whether deadlocks are looked for. `Config.check` names the first
setting that makes no sense; nothing else in the library depends on a configuration having passed
it.

`Config.ttlFor` is the rule for the length of a lease: what was asked for, at most the maximum,
and the default when nothing or nothing but zero was asked for.
-/

namespace LeaseLock

/-- The settings of a coordinator. -/
structure Config where
  /-- The length of a lease for which none was asked, in seconds. -/
  defaultTimeout : Nat := 30
  /-- The longest lease that can be asked for, in seconds. -/
  maxTimeout : Nat := 300
  /-- The period of upkeep, in seconds. -/
  renewalInterval : Nat := 5
  /-- The period of the deadlock detector, in seconds. -/
  detectionInterval : Nat := 10
  /-- How long a waiting client sleeps between two tries, in milliseconds. -/
  pollInterval : Nat := 100
  /-- Whether the deadlock detector runs in the background. -/
  detectDeadlocks : Bool := true
deriving DecidableEq, Repr

/-- What makes a configuration unusable. -/
inductive ConfigFault where
  /-- The named setting is zero. -/
  | zero (setting : String)
  /-- The default length of a lease exceeds the maximum. -/
  | defaultAboveMax (default max : Nat)
deriving DecidableEq, Repr

namespace ConfigFault

/-- The text of a fault. -/
def message : ConfigFault → String
  | zero setting => setting ++ " must be greater than 0"
  | defaultAboveMax default max =>
    "default_timeout_seconds (" ++ toString default ++ ") must not exceed max_timeout_seconds (" ++
      toString max ++ ")"

end ConfigFault

namespace Config

instance : Inhabited Config := ⟨{}⟩

/-- The first fault of a configuration, if it has one. -/
def check (c : Config) : Except ConfigFault Unit :=
  if c.defaultTimeout = 0 then .error (.zero "default_timeout_seconds")
  else if c.maxTimeout < c.defaultTimeout then
    .error (.defaultAboveMax c.defaultTimeout c.maxTimeout)
  else if c.renewalInterval = 0 then .error (.zero "renewal_interval_seconds")
  else if c.detectionInterval = 0 then .error (.zero "detection_interval_seconds")
  else if c.pollInterval = 0 then .error (.zero "poll_interval_milliseconds")
  else .ok ()

/-- A configuration passes exactly if every setting is positive and the default is within the
maximum. -/
theorem check_eq_ok_iff {c : Config} :
    c.check = .ok () ↔
      0 < c.defaultTimeout ∧ c.defaultTimeout ≤ c.maxTimeout ∧ 0 < c.renewalInterval ∧
        0 < c.detectionInterval ∧ 0 < c.pollInterval := by
  simp only [check]
  split
  · simp; omega
  split
  · simp; omega
  split
  · simp; omega
  split
  · simp; omega
  split
  · simp; omega
  · simp; omega

/-- The length of a lease for which none was asked. -/
def defaultTtl (c : Config) : Duration := .ofSecs c.defaultTimeout

/-- The longest lease. -/
def maxTtl (c : Config) : Duration := .ofSecs c.maxTimeout

/-- The period of upkeep. -/
def upkeepPeriod (c : Config) : Duration := .ofSecs c.renewalInterval

/-- The period of the deadlock detector. -/
def detectionPeriod (c : Config) : Duration := .ofSecs c.detectionInterval

/-- How long a waiting client sleeps between two tries. -/
def pollPeriod (c : Config) : Duration := .ofMillis c.pollInterval

/-- The length of a lease for which `requested` was asked. -/
def ttlFor (c : Config) : Option Duration → Duration
  | some ttl => if ttl.isZero then c.defaultTtl else ttl.shorter c.maxTtl
  | none => c.defaultTtl

/-- A configuration that passes gives no lease more than the maximum. -/
theorem millis_ttlFor_le {c : Config} (h : c.check = .ok ()) (requested : Option Duration) :
    (c.ttlFor requested).millis ≤ c.maxTtl.millis := by
  have hdefault : c.defaultTtl.millis ≤ c.maxTtl.millis := by
    rw [defaultTtl, maxTtl, Duration.millis_ofSecs, Duration.millis_ofSecs]
    exact Nat.mul_le_mul_right 1000 (check_eq_ok_iff.1 h).2.1
  cases requested with
  | none => exact hdefault
  | some ttl =>
    rw [ttlFor]
    split
    · exact hdefault
    · exact ttl.millis_shorter_le c.maxTtl

/-- A configuration as an object. Every setting may be missing and has its default then. -/
def record : Json.Record Config where
  types := [Nat, Nat, Nat, Nat, Nat, Bool]
  fields :=
    .cons ((Json.Field.word "default_timeout_seconds").orElse 30) <|
    .cons ((Json.Field.word "max_timeout_seconds").orElse 300) <|
    .cons ((Json.Field.word "renewal_interval_seconds").orElse 5) <|
    .cons ((Json.Field.word "detection_interval_seconds").orElse 10) <|
    .cons ((Json.Field.word "poll_interval_milliseconds").orElse 100) <|
    .cons ((Json.Field.truth "deadlock_detection_enabled").orElse true) .nil
  build := fun (a, b, c, d, e, f, ()) ↦ ⟨a, b, c, d, e, f⟩
  parts := fun c ↦
    (c.defaultTimeout, c.maxTimeout, c.renewalInterval, c.detectionInterval, c.pollInterval,
      c.detectDeadlocks, ())

end Config

end LeaseLock
