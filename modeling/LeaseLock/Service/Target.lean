import LeaseLock.Text.Percent

/-!
# Targets of requests

The paths that the service knows. A path is split at its slashes, and the name of a lock is one
segment, which may be empty and is percent-decoded. A scheme and a host in front of the path do not
matter, and the query is cut off. Which methods a path takes follows from what is found there.
-/

namespace LeaseLock

/-- What is found at a path. The name of a lock is as it stands in the path. -/
inductive Target where
  /-- The health of the service. -/
  | health
  /-- The leases. -/
  | locks
  /-- The figures of the coordinator. -/
  | stats
  /-- Acquire a lock. -/
  | acquire (name : String)
  /-- Release a lock. -/
  | release (name : String)
  /-- Renew a lease. -/
  | renew (name : String)
  /-- The status of a lock. -/
  | status (name : String)
deriving DecidableEq, Repr

namespace Target

/-- Whether the character may stand in the scheme of an address. -/
def isSchemeChar (c : Char) : Bool := c.isAlphanum || c == '+' || c == '-' || c == '.'

/-- Whether the character ends a path. -/
def endsPath (c : Char) : Bool := c == '?' || c == '#'

/-- What follows the scheme and the host of an address; any other text is left as it is. -/
def behindHost (cs : List Char) : List Char :=
  match cs.dropWhile isSchemeChar with
  | ':' :: '/' :: '/' :: rest => rest.dropWhile fun c ↦ c ≠ '/' && !endsPath c
  | _ => cs

/-- The path in front of a query or a fragment. -/
def path (text : String) : String :=
  String.ofList ((behindHost text.toList).takeWhile fun c ↦ !endsPath c)

/-- What is found at a path, if anything is. -/
def ofPath? (text : String) : Option Target :=
  match (path text).splitOn "/" with
  | ["", "health"] => some health
  | ["", "locks"] => some locks
  | ["", "locks", "stats"] => some stats
  | ["", "locks", name, "acquire"] => some (acquire name)
  | ["", "locks", name, "release"] => some (release name)
  | ["", "locks", name, "renew"] => some (renew name)
  | ["", "locks", name, "status"] => some (status name)
  | _ => none

/-- Whether the target is something to do, and not something to look at. -/
def isCommand : Target → Bool
  | acquire _ | release _ | renew _ => true
  | _ => false

/-- The name that a segment of a path stands for, unless that is no text. -/
def decodeName? (segment : String) : Option String :=
  String.fromUTF8? ⟨(Percent.decode (Text.utf8 segment)).toArray⟩

end Target

end LeaseLock
