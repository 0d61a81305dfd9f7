import LeaseLock.Deadlock.Graph

/-!
# Searching for deadlocks

Cycles of a wait-for graph are found by walking it depth first from each waiting client in turn. The
walk keeps the path from its start to where it stands. An edge back to a client on that path closes
a cycle; a client that the walk has already left is not entered again.

The walk is a machine: `Search` is its state and `Search.step` one move of it, which follows one
edge or leaves one client. `Search.run` makes moves while there are any, at most as many as
`WaitForGraph.moves` allows, which is enough for every client to be entered and left once and every
edge to be followed once.

`WaitForGraph.deadlocks` puts the walks together. Each cycle is turned so that its smallest client
comes first, and reported the first time it is found.
-/

namespace LeaseLock

/-- A cycle: clients, and the lock that each of them waits for. -/
structure Cycle where
  /-- The clients around the cycle. -/
  clients : List ClientId
  /-- The lock that each of them waits for. -/
  locks : List LockName
deriving DecidableEq, Repr

namespace Cycle

/-- The smallest client, or the given one if none is smaller. -/
def smallest (c : ClientId) (cs : List ClientId) : ClientId :=
  cs.foldl (fun least d ↦ if d < least then d else least) c

/-- The same cycle with its smallest client in front. -/
def normalize (c : Cycle) : Cycle :=
  match c.clients with
  | [] => c
  | first :: others =>
    let start := c.clients.idxOf (smallest first others)
    ⟨c.clients.drop start ++ c.clients.take start, c.locks.drop start ++ c.locks.take start⟩

end Cycle

/-- The state of a walk. -/
structure Search where
  /-- The clients entered so far. -/
  visited : Names
  /-- How far each client on the path is from the start of the walk. -/
  position : Dict Nat
  /-- The clients on the path from the start of the walk to where it stands, last one first. -/
  path : List ClientId
  /-- The lock in front of each client of the path but the start, last one first. -/
  pathLocks : List LockName
  /-- For each client of the path, last one first, its edges that have not been followed. -/
  stack : List (List (LockName × ClientId))

namespace Search

/-- A walk that stands at its start. -/
def start (g : WaitForGraph) (client : ClientId) : Search where
  visited := (∅ : Names).add client
  position := (∅ : Dict Nat).insert client 0
  path := [client]
  pathLocks := []
  stack := [g.edges client]

/-- Enter the client behind an edge. -/
def enter (g : WaitForGraph) (s : Search) (lock : LockName) (client : ClientId) : Search where
  visited := s.visited.add client
  position := s.position.insert client s.path.length
  path := client :: s.path
  pathLocks := lock :: s.pathLocks
  stack := g.edges client :: s.stack

/-- Leave the last client of the path. The start has no lock in front of it. -/
def leave (s : Search) (stack : List (List (LockName × ClientId))) : Search where
  visited := s.visited
  position :=
    match s.path with
    | client :: _ => s.position.erase client
    | [] => s.position
  path := s.path.tail
  pathLocks := if s.path.tail.isEmpty then s.pathLocks else s.pathLocks.tail
  stack := stack

/-- The cycle that an edge closes when it leads from the last client of the path back to the one at
position `i`. -/
def closing (s : Search) (i : Nat) (lock : LockName) : Cycle where
  clients := (s.path.take (s.path.length - i)).reverse
  locks := (lock :: s.pathLocks.take (s.pathLocks.length - i)).reverse

/-- One move: follow the next edge of the last client of the path, or leave that client if it has
none left. With the new state comes the cycle that the edge closes, if it closes one. A walk that
has left its start has no moves. -/
def step (g : WaitForGraph) (s : Search) : Option (Search × Option Cycle) :=
  match s.stack with
  | [] => none
  | [] :: frames => some (s.leave frames, none)
  | ((lock, holder) :: edges) :: frames =>
    let s := { s with stack := edges :: frames }
    match s.position.get? holder with
    | some i => some (s, some (s.closing i lock))
    | none => if holder ∈ s.visited then some (s, none) else some (s.enter g lock holder, none)

/-- The cycles closed by at most `moves` moves, in order. -/
def run (g : WaitForGraph) : (moves : Nat) → Search → List Cycle
  | 0, _ => []
  | moves + 1, s =>
    match s.step g with
    | none => []
    | some (s, found) => found.toList ++ run g moves s

end Search

namespace WaitForGraph

/-- How many edges there are. -/
def edgeCount (g : WaitForGraph) : Nat :=
  g.waiters.foldr (fun c n ↦ (g.edges c).length + n) 0

/-- How many moves a walk can make: it follows each edge once, and it leaves its start and each
client that it entered by an edge once. -/
def moves (g : WaitForGraph) : Nat := 2 * g.edgeCount + 1

/-- The cycles found on a walk from a client in at most the given number of moves, in order. -/
def cyclesFrom (g : WaitForGraph) (moves : Nat) (client : ClientId) : List Cycle :=
  ((Search.start g client).run g moves).map Cycle.normalize

/-- The cycles in the order in which they are found, each once. -/
def cycles (g : WaitForGraph) : List Cycle :=
  let moves := g.moves
  (g.waiters.flatMap (g.cyclesFrom moves)).foldl
    (fun seen c ↦ if c ∈ seen then seen else seen ++ [c]) []

/-- The deadlocks found at `now`. -/
def deadlocks (g : WaitForGraph) (now : Nat) : List DeadlockReport :=
  g.cycles.map fun c ↦ ⟨c.clients, c.locks, now⟩

end WaitForGraph

end LeaseLock
