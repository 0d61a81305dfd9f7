import Mathlib.Algebra.BigOperators.Group.Finset.Basic
import Mathlib.Algebra.GroupWithZero.Nat
import Mathlib.Algebra.Order.BigOperators.Group.Finset
import Mathlib.Data.Set.Finite.Basic
import LeaseLock.Proofs.Deadlock.Walk

/-!
# A walk goes everywhere and ends

The clients that can be reached from a client along edges are finitely many
(`WaitForGraph.reachable`). A walk enters each of them once, follows each of their edges once and
leaves each of them once. So the moves that are left of a walk can be counted before they are made
(`Search.movesLeft`), and every move takes one away (`Search.Rooted.movesLeft_step`). From the start
on these are no more than `WaitForGraph.moves` allows (`Search.movesLeft_start_le`), so a walk
leaves its start in the end (`Search.exists_run`).

## Counting

A client that was not entered yet counts for its edges and for the move that leaves it. One that is
on the path counts for the edges that are still to be followed and the move that leaves it. One that
was left counts for nothing. The count goes over the reachable clients only, so every edge of the
graph is counted at most once in it, and the number of reachable clients is at most one more than
the number of edges: the start, and the ends of edges.

The count is exact. A walk cannot skip a move, so it ends when the count says so and not before,
and the bound that the detector gives its walks is never what stops them.
-/

namespace LeaseLock

namespace WaitForGraph

variable {g : WaitForGraph} {a b c d : ClientId} {l : LockName}

/-! ### Reachable clients -/

theorem Reaches.trans (h : g.Reaches a b) (h' : g.Reaches b c) : g.Reaches a c := by
  induction h with
  | refl => exact h'
  | step edge _ ih => exact .step edge (ih h')

theorem Reaches.concat (h : g.Reaches a b) (edge : g.Edge b l c) : g.Reaches a c :=
  h.trans (.step edge (.refl c))

/-- The holders to whom edges lead, once for each edge. -/
def targets (g : WaitForGraph) : List ClientId := g.waiters.flatMap fun c ↦ (g.edges c).map (·.2)

theorem mem_waiters_of_edge (h : g.Edge c l d) : c ∈ g.waiters := by
  obtain ⟨⟨locks, hlocks, -⟩, -⟩ := h
  exact List.mem_map.2 ⟨(c, locks), Dict.get?_eq_some_iff.1 hlocks, rfl⟩

theorem mem_targets_of_edge (h : g.Edge c l d) : d ∈ g.targets :=
  List.mem_flatMap.2
    ⟨c, mem_waiters_of_edge h, List.mem_map.2 ⟨(l, d), mem_edges_iff.2 h, rfl⟩⟩

/-- No client is listed twice among those who wait. -/
theorem nodup_waiters (g : WaitForGraph) : g.waiters.Nodup := by
  refine List.pairwise_map.2 (g.wants.ordered.imp ?_)
  intro a b hlt heq
  exact String.lt_irrefl b.1 (heq ▸ hlt)

/-- What is reached is the beginning, or an edge leads there. -/
theorem Reaches.eq_or_mem_targets (h : g.Reaches c d) : d = c ∨ d ∈ g.targets := by
  induction h with
  | refl => exact .inl rfl
  | step edge _ ih =>
    rcases ih with rfl | hmem
    · exact .inr (mem_targets_of_edge edge)
    · exact .inr hmem

/-- No more can be reached than the client itself and the ends of edges. -/
theorem finite_reaches (g : WaitForGraph) (c : ClientId) : {d | g.Reaches c d}.Finite :=
  (insert c g.targets.toFinset).finite_toSet.subset fun d hd ↦ by
    simpa using Reaches.eq_or_mem_targets hd

/-- The clients that can be reached from a client. -/
noncomputable def reachable (g : WaitForGraph) (c : ClientId) : Finset ClientId :=
  (g.finite_reaches c).toFinset

/-- The set of what can be reached. -/
@[simp] theorem mem_reachable_iff : d ∈ g.reachable c ↔ g.Reaches c d := by
  rw [reachable, Set.Finite.mem_toFinset, Set.mem_ofPred_eq]

/-- The edges, counted client by client. -/
theorem edgeCount_eq_sum (g : WaitForGraph) :
    g.edgeCount = ∑ c ∈ g.waiters.toFinset, (g.edges c).length := by
  rw [List.sum_toFinset _ g.nodup_waiters, edgeCount]
  induction g.waiters with
  | nil => rfl
  | cons c cs ih => rw [List.foldr_cons, ih, List.map_cons, List.sum_cons]

/-- Every edge has one end. -/
theorem length_targets (g : WaitForGraph) : g.targets.length = g.edgeCount := by
  rw [targets, edgeCount]
  induction g.waiters with
  | nil => rfl
  | cons c cs ih =>
    rw [List.flatMap_cons, List.length_append, List.length_map, ih, List.foldr_cons]

/-- Besides the client itself, whoever is reached is the end of an edge. -/
theorem card_reachable_le (g : WaitForGraph) (c : ClientId) :
    (g.reachable c).card ≤ g.edgeCount + 1 := by
  have hsub : g.reachable c ⊆ insert c g.targets.toFinset := fun d hd ↦ by
    simpa using (mem_reachable_iff.1 hd).eq_or_mem_targets
  calc (g.reachable c).card
    _ ≤ (insert c g.targets.toFinset).card := Finset.card_le_card hsub
    _ ≤ g.targets.toFinset.card + 1 := Finset.card_insert_le _ _
    _ ≤ g.targets.length + 1 := Nat.succ_le_succ (List.toFinset_card_le _)
    _ = g.edgeCount + 1 := by rw [length_targets]

/-- The edges of the clients that can be reached are among all edges. -/
theorem sum_edges_reachable_le (g : WaitForGraph) (c : ClientId) :
    ∑ d ∈ g.reachable c, (g.edges d).length ≤ g.edgeCount := by
  rw [edgeCount_eq_sum]
  refine Finset.sum_le_sum_of_ne_zero fun d _ hne ↦ ?_
  obtain ⟨⟨l, e⟩, hmem⟩ := List.exists_mem_of_length_pos (Nat.pos_of_ne_zero hne)
  exact List.mem_toFinset.2 (mem_waiters_of_edge (mem_edges_iff.1 hmem))

end WaitForGraph

namespace Search

variable {g : WaitForGraph} {root : ClientId} {s s' : Search} {found : Option Cycle}

/-! ### Where a walk has been -/

/-- What is kept on a walk from `root`. -/
structure Rooted (g : WaitForGraph) (root : ClientId) (s : Search) : Prop extends Walk g s where
  /-- The start has been entered. -/
  root_visited : root ∈ s.visited
  /-- The clients of the path have been entered. -/
  path_visited : ∀ c ∈ s.path, c ∈ s.visited
  /-- Only what can be reached has been entered. -/
  reaches : ∀ c ∈ s.visited, g.Reaches root c
  /-- The path begins with the start until the start is left. -/
  path_root : s.path ≠ [] → s.path.getLast? = some root

/-- The walk begins on its root, having been nowhere. -/
theorem rooted_start (g : WaitForGraph) (root : ClientId) : Rooted g root (start g root) where
  toWalk := walk_start g root
  root_visited := Names.mem_add.2 (.inl rfl)
  path_visited c hc := Names.mem_add.2 (.inl (List.mem_singleton.1 hc))
  reaches c hc := by
    rcases Names.mem_add.1 hc with rfl | hc
    · exact .refl c
    · exact absurd hc Names.not_mem_empty
  path_root _ := rfl

/-- A move does not change who has been entered, except that the client behind an edge may be. -/
theorem Rooted.step (h : Rooted g root s) (hmoves : Moves g s s' found) : Rooted g root s' := by
  have hwalk := (h.toWalk.step hmoves).1
  cases hmoves with
  | leave hstack =>
    refine ⟨hwalk, h.root_visited, fun c hc ↦ h.path_visited c (List.mem_of_mem_tail hc),
      h.reaches, ?_⟩
    intro hne
    have hpath := h.path_root
    rw [Search.leave] at hne ⊢
    cases hs : s.path with
    | nil =>
      rw [hs] at hne
      exact absurd rfl hne
    | cons c path =>
      rw [hs, List.tail_cons] at hne
      rw [hs] at hpath
      rw [List.tail_cons, ← List.getLast?_cons_of_ne_nil hne]
      exact hpath (List.cons_ne_nil c path)
  | close hstack hi => exact ⟨hwalk, h.root_visited, h.path_visited, h.reaches, h.path_root⟩
  | skip hstack hnone hd =>
    exact ⟨hwalk, h.root_visited, h.path_visited, h.reaches, h.path_root⟩
  | @enter l d es frames hstack hnone hd =>
    obtain ⟨c, path, hpath, hedge⟩ := h.toWalk.edge hstack
    have hc : c ∈ s.path := hpath ▸ List.mem_cons_self
    refine ⟨hwalk, Names.mem_add.2 (.inr h.root_visited), fun x hx ↦ ?_, fun x hx ↦ ?_, fun _ ↦ ?_⟩
    · rcases List.mem_cons.1 hx with rfl | hx
      · exact Names.mem_add.2 (.inl rfl)
      · exact Names.mem_add.2 (.inr (h.path_visited x hx))
    · rcases Names.mem_add.1 hx with rfl | hx
      · exact (h.reaches c (h.path_visited c hc)).concat hedge
      · exact h.reaches x hx
    · have hne : s.path ≠ [] := List.ne_nil_of_mem hc
      show (d :: s.path).getLast? = some root
      rw [List.getLast?_cons_of_ne_nil hne]
      exact h.path_root hne

/-! ### The moves that are left -/

/-- How many moves are left of a walk from `root`: one for each edge that is left of a client of the
path and one to leave that client, and as many for each client that is still to be entered. -/
noncomputable def movesLeft (g : WaitForGraph) (root : ClientId) (s : Search) : Nat :=
  (s.stack.map fun es ↦ es.length + 1).sum +
    ∑ d ∈ g.reachable root with d ∉ s.visited, ((g.edges d).length + 1)

/-- Every move takes one away. -/
theorem Rooted.movesLeft_step (h : Rooted g root s) (hmoves : Moves g s s' found) :
    movesLeft g root s = movesLeft g root s' + 1 := by
  cases hmoves with
  | leave hstack =>
    rw [movesLeft, movesLeft, hstack, Search.leave]
    simp only [List.map_cons, List.sum_cons, List.length_nil]
    omega
  | close hstack | skip hstack =>
    rw [movesLeft, movesLeft, hstack]
    simp only [List.map_cons, List.sum_cons, List.length_cons]
    omega
  | @enter l d es frames hstack hnone hd =>
    obtain ⟨c, path, hpath, hedge⟩ := h.toWalk.edge hstack
    have hreach : g.Reaches root d :=
      (h.reaches c (h.path_visited c (hpath ▸ List.mem_cons_self))).concat hedge
    -- The client that is entered is one less to be entered, and brings its edges.
    have hrest : (g.reachable root).filter (· ∉ s.visited.add d) =
        ((g.reachable root).filter (· ∉ s.visited)).erase d := by
      ext x
      rw [Finset.mem_erase, Finset.mem_filter, Finset.mem_filter, Names.mem_add]
      tauto
    have hsum := Finset.add_sum_erase ((g.reachable root).filter (· ∉ s.visited))
      (fun d ↦ (g.edges d).length + 1)
      (Finset.mem_filter.2 ⟨WaitForGraph.mem_reachable_iff.2 hreach, hd⟩)
    rw [movesLeft, movesLeft, hstack, Search.enter]
    dsimp only at hsum ⊢
    rw [hrest, ← hsum]
    simp only [List.map_cons, List.sum_cons, List.length_cons]
    omega

/-- A walk with no moves left has left its start. -/
theorem stack_eq_nil_of_movesLeft (h : movesLeft g root s = 0) : s.stack = [] := by
  cases hs : s.stack with
  | nil => rfl
  | cons es frames =>
    rw [movesLeft, hs, List.map_cons, List.sum_cons] at h
    omega

/-- From the start on, each client that can be reached is left once, and each edge of such a client
is followed once. -/
theorem movesLeft_start (g : WaitForGraph) (root : ClientId) :
    movesLeft g root (start g root) =
      (g.reachable root).card + ∑ d ∈ g.reachable root, (g.edges d).length := by
  have hrest : (g.reachable root).filter (· ∉ (∅ : Names).add root) =
      (g.reachable root).erase root := by
    ext x
    rw [Finset.mem_erase, Finset.mem_filter, Names.mem_add,
      or_iff_left (b := x ∈ (∅ : Names)) Names.not_mem_empty, and_comm]
  have hroot : root ∈ g.reachable root := WaitForGraph.mem_reachable_iff.2 (.refl root)
  have hsum := Finset.add_sum_erase (g.reachable root) (fun d ↦ (g.edges d).length + 1) hroot
  rw [movesLeft, start]
  dsimp only at hsum ⊢
  rw [hrest, List.map_singleton, List.sum_singleton, hsum, Finset.sum_add_distrib,
    ← Finset.card_eq_sum_ones, add_comm]

/-- There are as many moves allowed as a walk can make. -/
theorem movesLeft_start_le (g : WaitForGraph) (root : ClientId) :
    movesLeft g root (start g root) ≤ g.moves := by
  have hcard := g.card_reachable_le root
  have hsum := g.sum_edges_reachable_le root
  rw [movesLeft_start, WaitForGraph.moves]
  omega

/-- A walk with enough moves leaves its start in the end, and what every move keeps then holds of
the walk and of all the cycles that it has closed. -/
theorem exists_run {P : Search → List Cycle → Prop}
    (rooted : ∀ s shown, P s shown → Rooted g root s)
    (step : ∀ s s' shown found, P s shown → Moves g s s' found → P s' (shown ++ found.toList))
    {shown : List Cycle} {moves : Nat} (h : P s shown) (hmoves : movesLeft g root s ≤ moves) :
    ∃ s', s'.stack = [] ∧ P s' (shown ++ s.run g moves) := by
  induction moves generalizing s shown with
  | zero =>
    rw [Search.run, List.append_nil]
    exact ⟨s, stack_eq_nil_of_movesLeft (Nat.le_zero.1 hmoves), h⟩
  | succ moves ih =>
    rw [Search.run]
    cases hstep : s.step g with
    | none =>
      rw [List.append_nil]
      exact ⟨s, stack_eq_nil_of_step hstep, h⟩
    | some r =>
      obtain ⟨s', found⟩ := r
      have hnext := moves_of_step hstep
      have hleft := (rooted s shown h).movesLeft_step hnext
      dsimp only
      rw [← List.append_assoc]
      exact ih (step s s' shown found h hnext) (by omega)

end Search

end LeaseLock
