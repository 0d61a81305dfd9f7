import LeaseLock.Service.MediaType
import LeaseLock.Service.Response
import LeaseLock.Service.Target
import LeaseLock.World.Basic

/-!
# Serving requests

How a request to the service is answered. The path and the method are settled first, then the name
in the path, the content type and the body, and at last the handler's own checks; the first of them
that fails decides. A refusal that does not come from a handler has no body.

Where `GET` is known `HEAD` is too, with the same answer but without its body, and `OPTIONS` is
answered everywhere. A request for a lock that is held may stay open until its wait ends.
-/

namespace LeaseLock

/-- A request to the service. -/
structure Request where
  /-- The method. -/
  method : String
  /-- The path with its query. -/
  target : String
  /-- The content type, if it is given. -/
  contentType : Option String
  /-- The body. -/
  body : List UInt8

/-- What has become of a request. -/
inductive Handled where
  /-- It is answered. -/
  | answered (response : Response)
  /-- It waits for its lock until a tick. -/
  | waiting (pending : Pending) (wake : Nat)

namespace Service

/-- How many bytes the body of a request may have, two to the power of 21. -/
def maxBody : Nat := 2097152

/-- The body of a command, or the response that refuses it. -/
def readBody (record : Json.Record α) (r : Request) : Except Response α :=
  match r.contentType with
  | none => .error ⟨415, none⟩
  | some type =>
    if !MediaType.isJson type then .error ⟨415, none⟩
    else if maxBody < r.body.length then .error ⟨413, none⟩
    else match record.decode r.body with
      | .ok a => .ok a
      | .error .unfit => .error ⟨422, none⟩
      | .error _ => .error ⟨400, none⟩

/-- The name in a path, or the response that refuses it. -/
def readName (segment : String) : Except Response String :=
  match Target.decodeName? segment with
  | some name => .ok name
  | none => .error ⟨400, none⟩

/-- Refuse a request whose check failed. -/
def checked (check : Except BodyFault Unit) : Except Response Unit := check.mapError .invalid

/-- The health of the service. -/
def health (c : Coordinator) (store : Store) : Response :=
  match Coordinator.ping store with
  | .ok () => .ok (Response.healthData "ok" "connected" c.stats.activeLeases)
  | .error fault =>
    ⟨503, some (.degraded
      (Response.healthData "unhealthy" fault.message c.stats.activeLeases) fault)⟩

/-- Look at something. -/
def look (c : Coordinator) (store : Store) (now : Nat) : Target → Response
  | .health => health c store
  | .locks => .ok (Response.locksData c)
  | .stats => .ok (Stats.record.write c.stats)
  | .status segment =>
    match (do
      let name ← readName segment
      checked (checkLockName name)
      return name) with
    | .error response => response
    | .ok name => .ofResult LockStatus.record.write (c.status store now name)
  | _ => ⟨405, none⟩

/-- Acquire a lock. -/
def acquire (c : Coordinator) (store : Store) (now tick : Nat) (id : LeaseId) (segment : String)
    (r : Request) : Outcome Handled :=
  match (do
    let name ← readName segment
    let body ← readBody AcquireBody.record r
    checked (body.check name)
    return body.toRequest name) with
  | .error response => ⟨.answered response, store, c⟩
  | .ok request =>
    match c.acquire store now tick id request with
    | ⟨.ended result, store, c⟩ => ⟨.answered (.acquired result .zero), store, c⟩
    | ⟨.waiting pending wake, store, c⟩ => ⟨.waiting pending wake, store, c⟩

/-- Release a lock. -/
def release (c : Coordinator) (store : Store) (now : Nat) (segment : String) (r : Request) :
    Outcome Handled :=
  match (do
    let name ← readName segment
    let body ← readBody ReleaseBody.record r
    checked (body.check name)
    return (name, body)) with
  | .error response => ⟨.answered response, store, c⟩
  | .ok (name, body) =>
    let ⟨result, store, c⟩ := c.release store now name body.client body.lease
    ⟨.answered (.ofResult (fun () ↦ .text ("Lock '" ++ name ++ "' released")) result), store, c⟩

/-- Renew a lease. -/
def renew (c : Coordinator) (store : Store) (now : Nat) (segment : String) (r : Request) :
    Outcome Handled :=
  match (do
    let name ← readName segment
    let body ← readBody RenewBody.record r
    checked (body.check name)
    return (name, body)) with
  | .error response => ⟨.answered response, store, c⟩
  | .ok (name, body) =>
    let ⟨result, store, c⟩ := c.renew store now name body.lease body.extension
    ⟨.answered (.ofResult Renewal.record.write result), store, c⟩

/-- Carry out a command. -/
def command (c : Coordinator) (store : Store) (now tick : Nat) (id : LeaseId) (r : Request) :
    Target → Outcome Handled
  | .acquire segment => acquire c store now tick id segment r
  | .release segment => release c store now segment r
  | .renew segment => renew c store now segment r
  | _ => ⟨.answered ⟨405, none⟩, store, c⟩

/-- Answer a request. The id is that of the lease it may be granted. -/
def handle (c : Coordinator) (store : Store) (now tick : Nat) (id : LeaseId) (r : Request) :
    Outcome Handled :=
  if r.method = "OPTIONS" then ⟨.answered ⟨200, none⟩, store, c⟩
  else
    match Target.ofPath? r.target with
    | none => ⟨.answered ⟨404, none⟩, store, c⟩
    | some target =>
      if target.isCommand then
        if r.method = "POST" then command c store now tick id r target
        else ⟨.answered ⟨405, none⟩, store, c⟩
      else if r.method = "GET" then ⟨.answered (look c store now target), store, c⟩
      else if r.method = "HEAD" then
        ⟨.answered { look c store now target with body := none }, store, c⟩
      else ⟨.answered ⟨405, none⟩, store, c⟩

end Service

/-- Send a request to the coordinator with the given number. There is no response yet if the request
waits for its lock. -/
def World.serve {τ : Type} (w : World τ) (i : Nat) (tag : τ) (id : LeaseId) (r : Request) :
    Option (Option Response × World τ) :=
  (w.operate i fun c store ↦ Service.handle c store w.now w.tick id r).map fun (h, w) ↦
    match h with
    | .answered response => (some response, w)
    | .waiting pending wake =>
      (none, { w with waiters := w.waiters ++ [⟨tag, wake, .lease i pending⟩] })

end LeaseLock
