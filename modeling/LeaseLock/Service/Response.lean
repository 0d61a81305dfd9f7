import LeaseLock.Coordinator.Basic
import LeaseLock.Service.Body

/-!
# Responses

A response has a status and, if a handler made it, a JSON body: whether the request succeeded, the
data asked for, and on failure the text of the fault and its reason.
-/

namespace LeaseLock

/-- The body of a response. -/
structure Envelope where
  /-- Whether the request succeeded. -/
  success : Bool
  /-- The data. -/
  data : Option Json := none
  /-- The text of the fault. -/
  error : Option String := none
  /-- The reason for programs. -/
  reason : Option String := none

namespace Envelope

/-- The body of a success. -/
def ok (data : Json) : Envelope := { success := true, data := some data }

/-- The body of a refusal. -/
def invalid (detail : String) : Envelope :=
  { success := false, error := some detail, reason := some "INVALID_REQUEST" }

/-- The body of a failure. -/
def ofFault (fault : LockFault) : Envelope :=
  { success := false, error := some fault.message, reason := some fault.reason }

/-- The body of a failure that still describes the failed state. -/
def degraded (data : Json) (fault : LockFault) : Envelope :=
  { ofFault fault with data := some data }

/-- The body as an object, without the members that are unset. -/
def toJson (e : Envelope) : Json :=
  .object <|
    [("success", .bool e.success)] ++ (e.data.map fun d ↦ ("data", d)).toList ++
      (e.error.map fun t ↦ ("error", .text t)).toList ++
      (e.reason.map fun t ↦ ("reason", .text t)).toList

end Envelope

/-- The status for a fault of the coordinator. -/
def LockFault.status : LockFault → Nat
  | lockUnavailable _ | waitTimeoutExceeded _ _ => 409
  | notOwner _ | invalidRequest _ => 400
  | storeUnavailable _ => 503

/-- A response. -/
structure Response where
  /-- The status. -/
  status : Nat
  /-- The body, if there is one. -/
  body : Option Envelope := none

namespace Response

/-- Success, with data. -/
def ok (data : Json) : Response := ⟨200, some (.ok data)⟩

/-- Refusal of a request that makes no sense. -/
def invalid (fault : BodyFault) : Response := ⟨400, some (.invalid fault.message)⟩

/-- Failure of the coordinator. -/
def ofFault (fault : LockFault) : Response := ⟨fault.status, some (.ofFault fault)⟩

/-- The response to a result, whose data is written by `f`. -/
def ofResult (f : α → Json) : Except LockFault α → Response
  | .ok a => ok (f a)
  | .error fault => ofFault fault

/-- The data of an acquired lease. -/
def acquiredData (waited : Duration) (l : Lease) : Json :=
  .object
    [("lease_id", .text l.id), ("lock_name", .text l.lock), ("client_id", .text l.holder),
      ("acquired_at", .nat l.acquiredAt), ("expires_at", .nat l.expiresAt),
      ("auto_renew", .bool l.autoRenew), ("wait_ms", .nat waited.wholeMillis)]

/-- The response to an acquisition that has ended after a wait. -/
def acquired (result : Except LockFault Lease) (waited : Duration) : Response :=
  ofResult (acquiredData waited) result

/-- The data of a lease in the list of leases. -/
def listedData (l : Lease) : Json :=
  .object
    [("lock_name", .text l.lock), ("lease_id", .text l.id), ("holder_id", .text l.holder),
      ("acquired_at", .nat l.acquiredAt), ("expires_at", .nat l.expiresAt),
      ("auto_renew", .bool l.autoRenew), ("renewal_count", .nat l.renewals)]

/-- The data of waiting clients: the clients by lock. -/
def waitersData (waiters : List (LockName × List ClientId)) : Json :=
  .object (waiters.map fun (lock, clients) ↦ (lock, .array (clients.map .text)))

/-- The data of the list of leases. -/
def locksData (c : Coordinator) : Json :=
  .object
    [("locks", .array (c.leases.map listedData)), ("count", .nat c.leases.length),
      ("waiting_clients", waitersData c.waiters)]

/-- The version of the service. -/
def version : String := "0.1.0"

/-- The data of the health of the service. -/
def healthData (status store : String) (activeLeases : Nat) : Json :=
  .object
    [("status", .text status), ("store", .text store), ("active_leases", .nat activeLeases),
      ("version", .text version)]

end Response

end LeaseLock
