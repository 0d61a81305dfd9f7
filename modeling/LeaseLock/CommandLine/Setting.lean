import LeaseLock.Config
import LeaseLock.Dict

/-!
# Settings of the server

What can be set when the server is started, on the command line or by an environment variable, and
how the text of a value is read. A number is a row of decimal digits behind an optional plus sign;
the port is read as a number that may also have a minus sign and must then be in range, so that a
negative zero is a port.
-/

namespace LeaseLock

/-- What the server is started with. -/
structure ServerOptions where
  /-- The port. -/
  port : Nat := 3100
  /-- The host. -/
  host : String := "0.0.0.0"
  /-- The name of the storage. -/
  storage : String := "memory"
  /-- How many requests are served at once. -/
  maxConcurrentRequests : Nat := 1024
  /-- The settings of the coordinator. -/
  config : Config := {}
deriving DecidableEq, Repr

/-- The name of a setting of the server. -/
inductive Setting where
  /-- The port. -/
  | port
  /-- The host. -/
  | host
  /-- The storage. -/
  | storage
  /-- How many requests are served at once. -/
  | maxConcurrentRequests
  /-- The length of a lease for which none was asked. -/
  | defaultTimeout
  /-- The longest lease. -/
  | maxTimeout
  /-- The period of upkeep. -/
  | renewalInterval
  /-- The period of the deadlock detector. -/
  | detectionInterval
  /-- How long a waiting client sleeps between two tries. -/
  | pollInterval
  /-- The switch that turns the deadlock detector off. -/
  | disableDeadlockDetection
deriving DecidableEq, Repr

namespace Setting

/-- All settings, in the order in which the environment is looked up. -/
def all : List Setting :=
  [port, host, storage, maxConcurrentRequests, defaultTimeout, maxTimeout, renewalInterval,
    detectionInterval, pollInterval, disableDeadlockDetection]

/-- The name behind two dashes. -/
def long : Setting → String
  | port => "port"
  | host => "host"
  | storage => "storage"
  | maxConcurrentRequests => "max-concurrent-requests"
  | defaultTimeout => "default-timeout"
  | maxTimeout => "max-timeout"
  | renewalInterval => "renewal-interval"
  | detectionInterval => "detection-interval"
  | pollInterval => "poll-interval-ms"
  | disableDeadlockDetection => "disable-deadlock-detection"

/-- The letter behind one dash. -/
def short? : Setting → Option Char
  | port => some 'p'
  | _ => none

/-- The environment variable. -/
def environmentName : Setting → String
  | port => "LOCKD_PORT"
  | host => "LOCKD_HOST"
  | storage => "LOCKD_STORAGE"
  | maxConcurrentRequests => "LOCKD_MAX_CONCURRENT_REQUESTS"
  | defaultTimeout => "LOCKD_DEFAULT_TIMEOUT"
  | maxTimeout => "LOCKD_MAX_TIMEOUT"
  | renewalInterval => "LOCKD_RENEWAL_INTERVAL"
  | detectionInterval => "LOCKD_DETECTION_INTERVAL"
  | pollInterval => "LOCKD_POLL_INTERVAL_MS"
  | disableDeadlockDetection => "LOCKD_DISABLE_DEADLOCK_DETECTION"

/-- Whether the setting is a switch, which takes no value on the command line. -/
def isSwitch : Setting → Bool
  | disableDeadlockDetection => true
  | _ => false

/-- What the setting is for, in a line of help. -/
def help : Setting → String
  | port => "Port to listen on"
  | host => "Host to bind to"
  | storage => "Storage backend: \"memory\" or \"sqlite:<path>\""
  | maxConcurrentRequests => "Requests processed concurrently before callers queue"
  | defaultTimeout => "Lease TTL applied when a request names none (seconds)"
  | maxTimeout => "Upper bound on any requested TTL (seconds)"
  | renewalInterval => "Period of the auto-renewal pass (seconds)"
  | detectionInterval => "Period of the deadlock detector (seconds)"
  | pollInterval => "Store poll period while waiting on a held lock (milliseconds)"
  | disableDeadlockDetection => "Disable the background deadlock detector"

end Setting

/-- Why a value is no value of its setting. -/
inductive ValueFault where
  /-- It is no number, or one that is out of range. -/
  | unreadable
  /-- It is none of the texts that the setting takes. -/
  | notOffered
deriving DecidableEq, Repr

namespace Setting

/-- The number of a row of decimal digits, if there is at least one. -/
def digits? (cs : List Char) : Option Nat :=
  if cs.isEmpty then none
  else if cs.all Char.isDigit then some (cs.foldl (fun n c ↦ 10 * n + (c.toNat - '0'.toNat)) 0)
  else none

/-- The number of a text of digits with an optional plus sign. -/
def natural? (text : String) : Option Nat :=
  match text.toList with
  | '+' :: cs => digits? cs
  | cs => digits? cs

/-- The number of a text of digits with an optional sign. -/
def integer? (text : String) : Option Int :=
  match text.toList with
  | '-' :: cs => (digits? cs).map fun n ↦ -(n : Int)
  | _ => (natural? text).map Int.ofNat

/-- A number of 64 bits. -/
def word (text : String) : Except ValueFault Nat :=
  match natural? text with
  | some n => if n < wordBound then .ok n else .error .unreadable
  | none => .error .unreadable

/-- The number of a port. -/
def portNumber (text : String) : Except ValueFault Nat :=
  match integer? text with
  | some i => if 0 ≤ i ∧ i < 65536 then .ok i.toNat else .error .unreadable
  | none => .error .unreadable

/-- A truth value. -/
def truth (text : String) : Except ValueFault Bool :=
  if text = "true" then .ok true else if text = "false" then .ok false else .error .notOffered

/-- Give the setting the value that a text stands for. -/
def assign (o : ServerOptions) (text : String) : Setting → Except ValueFault ServerOptions
  | port => (portNumber text).map fun n ↦ { o with port := n }
  | host => .ok { o with host := text }
  | storage => .ok { o with storage := text }
  | maxConcurrentRequests => (word text).map fun n ↦ { o with maxConcurrentRequests := n }
  | defaultTimeout => (word text).map fun n ↦ { o with config.defaultTimeout := n }
  | maxTimeout => (word text).map fun n ↦ { o with config.maxTimeout := n }
  | renewalInterval => (word text).map fun n ↦ { o with config.renewalInterval := n }
  | detectionInterval => (word text).map fun n ↦ { o with config.detectionInterval := n }
  | pollInterval => (word text).map fun n ↦ { o with config.pollInterval := n }
  | disableDeadlockDetection => (truth text).map fun b ↦ { o with config.detectDeadlocks := !b }

end Setting

end LeaseLock
