import LeaseLock.Lease

/-!
# Wait-for graphs

Who waits for which lock, and who holds which lock. A client that waits for a lock has an edge to
the lock's holder; a lock that nobody holds gives no edge. Between two clients there are as many
edges as there are locks that the one waits for and the other holds, and a client that waits for its
own lock has an edge to itself.

`WaitForGraph.Edge` is that relation, `WaitForGraph.Reaches` its reflexive and transitive closure,
and `WaitForGraph.IsCycle` says when a list of clients and a list of locks are a cycle without
repeated clients. They are stated without reference to how cycles are searched for.
-/

namespace LeaseLock

/-- Who waits for what, and who holds what. -/
structure WaitForGraph where
  /-- The locks that each client waits for. -/
  wants : Dict Names := ∅
  /-- The holder of each lock. -/
  holders : Dict ClientId := ∅
deriving Inhabited

namespace WaitForGraph

/-- Let a client wait for a lock as well. -/
def addWait (g : WaitForGraph) (client : ClientId) (lock : LockName) : WaitForGraph :=
  { g with wants :=
      g.wants.insert client (((g.wants.get? client).getD ∅ : Names).add lock) }

/-- Let a client be one that waits, for the time being for nothing more. -/
def addIdle (g : WaitForGraph) (client : ClientId) : WaitForGraph :=
  { g with wants :=
      g.wants.insert client ((g.wants.get? client).getD ∅) }

/-- Let a client hold a lock, in place of who held it. -/
def addHold (g : WaitForGraph) (lock : LockName) (holder : ClientId) : WaitForGraph :=
  { g with holders := g.holders.insert lock holder }

/-- The edges that leave a client: the locks it waits for, each with its holder, in lock order. -/
def edges (g : WaitForGraph) (client : ClientId) : List (LockName × ClientId) :=
  ((g.wants.get? client).getD ∅ : Names).toList.filterMap fun lock ↦
    (g.holders.get? lock).map fun holder ↦ (lock, holder)

/-- The clients that wait, in order. -/
def waiters (g : WaitForGraph) : List ClientId := g.wants.keys

/-- Client `c` waits for the lock `l`, which `d` holds. -/
def Edge (g : WaitForGraph) (c : ClientId) (l : LockName) (d : ClientId) : Prop :=
  (∃ locks, g.wants.get? c = some locks ∧ l ∈ (locks : Names)) ∧ g.holders.get? l = some d

/-- Edges lead from the first client to the second in any number of steps. -/
inductive Reaches (g : WaitForGraph) : ClientId → ClientId → Prop where
  /-- In no step. -/
  | refl (c : ClientId) : Reaches g c c
  /-- In one step more. -/
  | step {c d e : ClientId} {l : LockName} (edge : g.Edge c l d) (path : Reaches g d e) :
      Reaches g c e

/-- The clients and the locks, of which each client waits for the one beside it and the next client
around holds it, are a cycle that meets no client twice. -/
structure IsCycle (g : WaitForGraph) (clients : List ClientId) (locks : List LockName) : Prop where
  /-- There is a client. -/
  nonempty : clients ≠ []
  /-- No client occurs twice. -/
  nodup : clients.Nodup
  /-- Every client has its lock. -/
  length_eq : locks.length = clients.length
  /-- Every client waits for its lock, which the next client around holds. -/
  edge : ∀ i c l d, clients[i]? = some c → locks[i]? = some l →
    clients[(i + 1) % clients.length]? = some d → g.Edge c l d

theorem mem_edges_iff {g : WaitForGraph} {c d : ClientId} {l : LockName} :
    (l, d) ∈ g.edges c ↔ g.Edge c l d := by
  simp only [edges, List.mem_filterMap, Option.map_eq_some_iff, Prod.mk.injEq, Edge]
  constructor
  · rintro ⟨l', hl', d', hd', rfl, rfl⟩
    refine ⟨?_, hd'⟩
    cases hw : g.wants.get? c with
    | none =>
      rw [hw] at hl'
      exact absurd (Names.mem_toList.1 hl') Names.not_mem_empty
    | some locks =>
      rw [hw] at hl'
      exact ⟨locks, rfl, Names.mem_toList.1 hl'⟩
  · rintro ⟨⟨locks, hw, hl⟩, hd⟩
    exact ⟨l, by rw [hw]; exact Names.mem_toList.2 hl, d, hd, rfl, rfl⟩

end WaitForGraph

end LeaseLock
