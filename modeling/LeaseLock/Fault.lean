import LeaseLock.Lease
import LeaseLock.Time.Text

/-!
# Faults

What can go wrong when a lock is acquired, released or renewed, each cause with its text and with a
short reason that programs can act on.
-/

namespace LeaseLock

/-- A store could not be used. -/
inductive StoreFault where
  /-- The store is out of reach or refused a value. -/
  | unavailable (detail : String)
deriving DecidableEq, Repr

/-- The text of a store's fault. -/
def StoreFault.message : StoreFault → String
  | unavailable detail => "lease store unavailable: " ++ detail

/-- A request for a lock failed. -/
inductive LockFault where
  /-- The lock is held and the client did not want to wait. -/
  | lockUnavailable (lock : LockName)
  /-- The lock was still held when the wait ended. -/
  | waitTimeoutExceeded (lock : LockName) (waited : Duration)
  /-- The lease does not hold the lock, or no longer does. -/
  | notOwner (lock : LockName)
  /-- The store failed. -/
  | storeUnavailable (fault : StoreFault)
  /-- The request makes no sense. -/
  | invalidRequest (detail : String)
deriving DecidableEq, Repr

namespace LockFault

/-- The text of a fault. -/
def message : LockFault → String
  | lockUnavailable lock => "lock '" ++ lock ++ "' is not available"
  | waitTimeoutExceeded lock waited =>
    "wait timeout exceeded for lock '" ++ lock ++ "' after " ++ waited.text
  | notOwner lock => "lock '" ++ lock ++ "' is not owned by this lease or has already expired"
  | storeUnavailable fault => fault.message
  | invalidRequest detail => "invalid request: " ++ detail

/-- The reason for programs. -/
def reason : LockFault → String
  | lockUnavailable _ => "LOCK_UNAVAILABLE"
  | waitTimeoutExceeded _ _ => "WAIT_TIMEOUT_EXCEEDED"
  | notOwner _ => "NOT_OWNER"
  | storeUnavailable _ => "STORE_UNAVAILABLE"
  | invalidRequest _ => "INVALID_REQUEST"

end LockFault

end LeaseLock
