import Mathlib.Data.List.Rotate
import LeaseLock.Deadlock.Search

/-!
# What a walk finds

Every cycle that is found on a walk through a wait-for graph is a cycle of the graph
(`WaitForGraph.isCycle_of_mem_cycles`), also after it has been turned so that its smallest client
comes first.

The invariant of a walk says of its path what a drawing of it would show (`Search.Trail`): each
client of the path waits for the lock behind it, which the next client holds, and the edges that are
left of a client are the last ones of its edges. The positions are those of the clients on the path,
counted from the start (`Search.Walk`), so no client is on the path twice. An edge back to the path
then closes a cycle: the path from the position on, with the lock of the edge at its end.

## The path is kept backwards

The lists of a walk begin with the client that was entered last, since that is where a walk goes on.
A drawing begins with the start, and so do the positions. The invariants that a move changes at one
end are therefore stated for the lists as they are, and what is read from the start on is stated for
the reversed ones.

## Four moves

A move enters a client, closes a cycle, passes over an edge to a client that was left before, or
leaves the last client (`Search.Moves`). That is an inversion of the step of a walk, and everything
that is shown of walks, here and elsewhere, is shown for these four cases.
-/

namespace LeaseLock

namespace WaitForGraph

variable {g : WaitForGraph} {clients : List ClientId} {locks : List LockName}

/-- A cycle stays one when it is turned. -/
theorem IsCycle.rotate (h : g.IsCycle clients locks) (k : Nat) :
    g.IsCycle (clients.rotate k) (locks.rotate k) where
  nonempty := by
    rw [ne_eq, List.rotate_eq_nil_iff]
    exact h.nonempty
  nodup := List.nodup_rotate.2 h.nodup
  length_eq := by rw [List.length_rotate, List.length_rotate, h.length_eq]
  edge := by
    intro i c l d hc hl hd
    obtain ⟨hi, -⟩ := List.getElem?_eq_some_iff.1 hc
    rw [List.length_rotate] at hi hd
    have hpos : 0 < clients.length := Nat.zero_lt_of_lt hi
    rw [List.getElem?_rotate hi] at hc
    rw [List.getElem?_rotate (h.length_eq ▸ hi), h.length_eq] at hl
    rw [List.getElem?_rotate (Nat.mod_lt _ hpos)] at hd
    have hnext : ((i + 1) % clients.length + k) % clients.length =
        ((i + k) % clients.length + 1) % clients.length := by
      rw [Nat.mod_add_mod, Nat.mod_add_mod, Nat.add_right_comm]
    exact h.edge _ c l d hc hl (hnext ▸ hd)

/-- A cycle with its smallest client in front is the same cycle. -/
theorem IsCycle.normalize {c : Cycle} (h : g.IsCycle c.clients c.locks) :
    g.IsCycle c.normalize.clients c.normalize.locks := by
  rw [Cycle.normalize]
  split
  · exact h
  · next first others hclients =>
    have hle : c.clients.idxOf (Cycle.smallest first others) ≤ c.clients.length :=
      List.idxOf_le_length
    dsimp only
    rw [← List.rotate_eq_drop_append_take hle,
      ← List.rotate_eq_drop_append_take (h.length_eq ▸ hle)]
    exact h.rotate _

/-- A path along edges and an edge from its last client to its first one are a cycle. -/
theorem isCycle_concat {c d : ClientId} {l : LockName} (hnodup : clients.Nodup)
    (hlength : clients.length = locks.length + 1)
    (hpath : ∀ i c l d, clients[i]? = some c → locks[i]? = some l → clients[i + 1]? = some d →
      g.Edge c l d)
    (hlast : clients[locks.length]? = some c) (hfirst : clients[0]? = some d)
    (hedge : g.Edge c l d) : g.IsCycle clients (locks ++ [l]) where
  nonempty := by
    rintro rfl
    cases hfirst
  nodup := hnodup
  length_eq := by rw [List.length_append, List.length_singleton, hlength]
  edge := by
    intro i x y z hx hy hz
    obtain ⟨hi, -⟩ := List.getElem?_eq_some_iff.1 hx
    by_cases hlt : i < locks.length
    · rw [List.getElem?_append_left hlt] at hy
      rw [Nat.mod_eq_of_lt (by omega)] at hz
      exact hpath i x y z hx hy hz
    · -- The last client is the one that the edge leaves.
      obtain rfl : i = locks.length := by omega
      rw [List.getElem?_concat_length] at hy
      rw [hlength, Nat.mod_self, hfirst] at hz
      rw [hlast] at hx
      cases hx
      cases hy
      cases hz
      exact hedge

end WaitForGraph

namespace Search

variable {g : WaitForGraph} {path : List ClientId} {locks : List LockName}
  {stack : List (List (LockName × ClientId))}

/-- The clients of a path, the locks between them and the edges that are left of each client, all of
them last one first. -/
inductive Trail (g : WaitForGraph) :
    List ClientId → List LockName → List (List (LockName × ClientId)) → Prop
  /-- The walk has left its start. -/
  | nil : Trail g [] [] []
  /-- The walk stands at its start. -/
  | start {c : ClientId} {es : List (LockName × ClientId)} (hes : es <:+ g.edges c) :
      Trail g [c] [] [es]
  /-- The walk has gone on along an edge. -/
  | enter {c d : ClientId} {l : LockName} {path : List ClientId} {locks : List LockName}
      {es es' : List (LockName × ClientId)} {stack : List (List (LockName × ClientId))}
      (trail : Trail g (c :: path) locks (es :: stack)) (edge : g.Edge c l d)
      (hes : es' <:+ g.edges d) : Trail g (d :: c :: path) (l :: locks) (es' :: es :: stack)

theorem Trail.length_eq {c : ClientId} (h : Trail g (c :: path) locks stack) :
    locks.length = path.length := by
  generalize hclients : c :: path = clients at h
  induction h generalizing c path with
  | nil => cases hclients
  | start hes =>
    cases hclients
    rfl
  | enter trail edge hes ih =>
    cases hclients
    rw [List.length_cons, List.length_cons, ih rfl]

/-- Edges are left of a client only. -/
theorem Trail.exists_path {es : List (LockName × ClientId)} (h : Trail g path locks (es :: stack)) :
    ∃ c path', path = c :: path' := by
  cases h with
  | start hes => exact ⟨_, _, rfl⟩
  | enter trail edge hes => exact ⟨_, _, rfl⟩

/-- The edges that are left of the last client are edges of it. -/
theorem Trail.suffix {c : ClientId} {es : List (LockName × ClientId)}
    (h : Trail g (c :: path) locks (es :: stack)) : es <:+ g.edges c := by
  cases h with
  | start hes => exact hes
  | enter trail edge hes => exact hes

/-- An edge has been followed. -/
theorem Trail.follow {e : LockName × ClientId} {es : List (LockName × ClientId)}
    (h : Trail g path locks ((e :: es) :: stack)) : Trail g path locks (es :: stack) := by
  have hes : es <:+ e :: es := List.suffix_cons e es
  cases h with
  | start h => exact .start (hes.trans h)
  | enter trail edge h => exact .enter trail edge (hes.trans h)

/-- When the last client is left, so is the lock in front of it. The start has none, and then there
are no locks. -/
theorem Trail.locks_leave {es : List (LockName × ClientId)} (h : Trail g path locks (es :: stack)) :
    (if path.tail.isEmpty then locks else locks.tail) = locks.tail := by
  cases h with
  | start hes => rfl
  | enter trail edge hes => rfl

/-- The last client is left. -/
theorem Trail.leave {es : List (LockName × ClientId)} (h : Trail g path locks (es :: stack)) :
    Trail g path.tail locks.tail stack := by
  cases h with
  | start hes => exact .nil
  | enter trail edge hes => exact trail

/-- Counted from the start, each client of the path waits for its lock, and the next one holds
it. -/
theorem Trail.edge (h : Trail g path locks stack) {i : Nat} {c d : ClientId} {l : LockName}
    (hc : path.reverse[i]? = some c) (hl : locks.reverse[i]? = some l)
    (hd : path.reverse[i + 1]? = some d) : g.Edge c l d := by
  induction h with
  | nil => cases hc
  | start hes => cases hl
  | @enter c' d' l' path locks es es' stack trail edge hes ih =>
    have hlen : locks.reverse.length + 1 = (c' :: path).reverse.length := by
      rw [List.length_reverse, List.length_reverse, trail.length_eq, List.length_cons]
    rw [List.reverse_cons] at hc hl hd
    by_cases hi : i < locks.reverse.length
    · rw [List.getElem?_append_left (by omega)] at hc hl hd
      exact ih hc hl hd
    · -- The index is that of the last edge, which has just been followed.
      obtain ⟨hlt, -⟩ := List.getElem?_eq_some_iff.1 hl
      rw [List.length_append, List.length_singleton] at hlt
      obtain rfl : i = locks.reverse.length := by omega
      rw [List.getElem?_concat_length] at hl
      rw [hlen, List.getElem?_concat_length] at hd
      rw [List.reverse_cons, List.length_reverse, trail.length_eq, ← List.length_reverse,
        List.getElem?_append_left (by simp), List.getElem?_concat_length] at hc
      cases hc
      cases hl
      cases hd
      exact edge

/-- What is kept on a walk. -/
structure Walk (g : WaitForGraph) (s : Search) : Prop where
  /-- The path leads along edges. -/
  trail : Trail g s.path s.pathLocks s.stack
  /-- The positions are those of the clients on the path. -/
  position : ∀ c i, s.position.get? c = some i ↔ s.path.reverse[i]? = some c

variable {s s' : Search}

/-- No client is on the path twice, since it has one position. -/
theorem Walk.nodup (h : Walk g s) : s.path.reverse.Nodup := by
  rw [List.nodup_iff_getElem?_ne_getElem?]
  intro i j hij hj heq
  have hsome := List.getElem?_eq_getElem hj
  have hi := (h.position _ i).2 (heq.trans hsome)
  rw [(h.position _ j).2 hsome] at hi
  exact absurd (Option.some.inj hi) (Nat.ne_of_gt hij)

/-- A walk that is not over has a last client on its path, whose edges come first. -/
theorem Walk.exists_last {es : List (LockName × ClientId)} (h : Walk g s)
    (hstack : s.stack = es :: stack) :
    ∃ c path, s.path = c :: path ∧ Trail g (c :: path) s.pathLocks (es :: stack) := by
  have htrail := h.trail
  rw [hstack] at htrail
  obtain ⟨c, path, hpath⟩ := htrail.exists_path
  exact ⟨c, path, hpath, hpath ▸ htrail⟩

theorem walk_start (g : WaitForGraph) (c : ClientId) : Walk g (start g c) where
  trail := .start List.suffix_rfl
  position := by
    intro d i
    rw [start, Dict.get?_insert]
    cases i with
    | zero =>
      rw [List.reverse_singleton, List.getElem?_cons_zero, Dict.get?_empty]
      constructor
      · intro h
        split at h
        · next hd => rw [hd]
        · cases h
      · rintro ⟨⟩
        rw [if_pos rfl]
    | succ i => simp

/-- What stands in a list that is made longer by `d`. -/
theorem getElem?_concat_eq_some_iff {cs : List ClientId} {d x : ClientId} {i : Nat} :
    (cs ++ [d])[i]? = some x ↔ cs[i]? = some x ∨ i = cs.length ∧ x = d := by
  by_cases hlt : i < cs.length
  · rw [List.getElem?_append_left hlt]
    exact (or_iff_left fun h ↦ Nat.ne_of_lt hlt h.1).symm
  · rw [List.getElem?_append_right (Nat.le_of_not_lt hlt),
      List.getElem?_eq_none (Nat.le_of_not_lt hlt), List.getElem?_singleton]
    simp only [reduceCtorEq, false_or]
    split
    · next hi =>
      have : i = cs.length := by omega
      simp [this, eq_comm]
    · next hi =>
      have : i ≠ cs.length := by omega
      simp [this]

/-- A client is entered that the path does not meet. -/
theorem Walk.enter {c d : ClientId} {l : LockName} {es : List (LockName × ClientId)}
    (h : Walk g s) (hpath : s.path = c :: path) (hstack : s.stack = es :: stack)
    (hedge : g.Edge c l d) (hfresh : s.position.get? d = none) : Walk g (s.enter g l d) where
  trail := by
    have htrail := h.trail
    rw [hpath, hstack] at htrail
    rw [Search.enter, hpath, hstack]
    exact htrail.enter hedge List.suffix_rfl
  position := by
    intro x i
    rw [Search.enter, Dict.get?_insert, List.reverse_cons, getElem?_concat_eq_some_iff,
      ← h.position x i, List.length_reverse]
    split
    · next hx =>
      subst hx
      simp [hfresh, eq_comm]
    · next hx => simp [hx]

theorem Walk.pathLocks_leave {es : List (LockName × ClientId)} (h : Walk g s)
    (hstack : s.stack = es :: stack) : (s.leave stack).pathLocks = s.pathLocks.tail :=
  Trail.locks_leave (hstack ▸ h.trail)

/-- The last client is left. -/
theorem Walk.leave {es : List (LockName × ClientId)} (h : Walk g s)
    (hstack : s.stack = es :: stack) : Walk g (s.leave stack) where
  trail := by
    have htrail := h.trail
    rw [hstack] at htrail
    rw [h.pathLocks_leave hstack]
    exact htrail.leave
  position := by
    intro x i
    have hnodup := h.nodup
    have hposition := h.position x i
    rw [Search.leave]
    dsimp only
    cases hpath : s.path with
    | nil =>
      rw [hpath] at hposition
      exact hposition
    | cons c path =>
      rw [hpath, List.reverse_cons] at hposition hnodup
      dsimp only
      rw [Dict.get?_erase, List.tail_cons]
      split
      · next hx =>
        subst hx
        have hc : x ∉ path.reverse := fun hmem ↦
          List.disjoint_of_nodup_append hnodup hmem List.mem_cons_self
        exact iff_of_false (by simp) fun hi ↦ hc (List.mem_of_getElem? hi)
      · next hx =>
        rw [hposition, getElem?_concat_eq_some_iff]
        exact or_iff_left fun h ↦ hx h.2

/-- Counted from the start, the cycle that is closed at position `i` is the path from there on. -/
theorem closing_eq {i : Nat} (l : LockName) (hi : i ≤ s.pathLocks.length)
    (hlength : s.path.length = s.pathLocks.length + 1) :
    s.closing i l = ⟨s.path.reverse.drop i, s.pathLocks.reverse.drop i ++ [l]⟩ := by
  have hclients : s.path.length - (s.path.length - i) = i := by omega
  have hlocks : s.pathLocks.length - (s.pathLocks.length - i) = i := by omega
  rw [closing, List.reverse_cons, List.reverse_take, List.reverse_take, hclients, hlocks]

/-- An edge has been followed. -/
theorem Walk.follow {e : LockName × ClientId} {es : List (LockName × ClientId)} (h : Walk g s)
    (hstack : s.stack = (e :: es) :: stack) : Walk g { s with stack := es :: stack } where
  trail := by
    have htrail := h.trail
    rw [hstack] at htrail
    exact htrail.follow
  position := h.position

/-- The edge that is followed next is one. -/
theorem Walk.edge {l : LockName} {d : ClientId} {es : List (LockName × ClientId)} (h : Walk g s)
    (hstack : s.stack = ((l, d) :: es) :: stack) :
    ∃ c path, s.path = c :: path ∧ g.Edge c l d := by
  obtain ⟨c, path, hpath, htrail⟩ := h.exists_last hstack
  exact ⟨c, path, hpath, WaitForGraph.mem_edges_iff.1 (htrail.suffix.subset List.mem_cons_self)⟩

/-- Counted from the start, a position on the path is not beyond the last lock. -/
theorem Walk.le_length_pathLocks {es : List (LockName × ClientId)} (h : Walk g s)
    (hstack : s.stack = es :: stack) {d : ClientId} {i : Nat} (hi : s.position.get? d = some i) :
    s.path.length = s.pathLocks.length + 1 ∧ i ≤ s.pathLocks.length := by
  obtain ⟨c, path, hpath, htrail⟩ := h.exists_last hstack
  have hlength : s.path.length = s.pathLocks.length + 1 := by
    rw [hpath, List.length_cons, htrail.length_eq]
  obtain ⟨hlt, -⟩ := List.getElem?_eq_some_iff.1 ((h.position d i).1 hi)
  rw [List.length_reverse] at hlt
  exact ⟨hlength, by omega⟩

/-- An edge back to a client of the path closes a cycle. -/
theorem Walk.isCycle_closing {l : LockName} {d : ClientId} {es : List (LockName × ClientId)}
    (h : Walk g s) (hstack : s.stack = ((l, d) :: es) :: stack) {i : Nat}
    (hd : s.position.get? d = some i) :
    g.IsCycle (s.closing i l).clients (s.closing i l).locks := by
  have hback : s.path.reverse[i]? = some d := (h.position d i).1 hd
  obtain ⟨c, path, hpath, hedge⟩ := h.edge hstack
  obtain ⟨hlength, hi⟩ := h.le_length_pathLocks hstack hd
  have hlocks : s.pathLocks.length = path.length := by
    rw [hpath, List.length_cons] at hlength
    omega
  have hlast : s.path.reverse[path.length]? = some c := by
    rw [hpath, List.reverse_cons, ← List.length_reverse, List.getElem?_concat_length]
  have hend : i + (s.pathLocks.reverse.drop i).length = path.length := by
    rw [List.length_drop, List.length_reverse]
    omega
  rw [closing_eq l hi hlength]
  refine WaitForGraph.isCycle_concat (h.nodup.sublist (List.drop_sublist _ _)) ?_ ?_ ?_ ?_ hedge
  · rw [List.length_drop, List.length_drop, List.length_reverse, List.length_reverse]
    omega
  · intro j x y z hx hy hz
    rw [List.getElem?_drop] at hx hy hz
    exact h.trail.edge hx hy hz
  · rw [List.getElem?_drop, hend, hlast]
  · rw [List.getElem?_drop, Nat.add_zero, hback]

/-! ### Moves -/

/-- What a move does, with the cycle that it closes. -/
inductive Moves (g : WaitForGraph) (s : Search) : Search → Option Cycle → Prop
  /-- The last client has no edge left and is left. -/
  | leave {frames : List (List (LockName × ClientId))} (hstack : s.stack = [] :: frames) :
      Moves g s (s.leave frames) none
  /-- An edge leads back to the path. -/
  | close {l : LockName} {d : ClientId} {es : List (LockName × ClientId)}
      {frames : List (List (LockName × ClientId))} {i : Nat}
      (hstack : s.stack = ((l, d) :: es) :: frames) (hi : s.position.get? d = some i) :
      Moves g s { s with stack := es :: frames } (some (s.closing i l))
  /-- An edge leads to a client that the walk has left. -/
  | skip {l : LockName} {d : ClientId} {es : List (LockName × ClientId)}
      {frames : List (List (LockName × ClientId))} (hstack : s.stack = ((l, d) :: es) :: frames)
      (hnone : s.position.get? d = none) (hd : d ∈ s.visited) :
      Moves g s { s with stack := es :: frames } none
  /-- An edge leads to a client that the walk enters. -/
  | enter {l : LockName} {d : ClientId} {es : List (LockName × ClientId)}
      {frames : List (List (LockName × ClientId))} (hstack : s.stack = ((l, d) :: es) :: frames)
      (hnone : s.position.get? d = none) (hd : d ∉ s.visited) :
      Moves g s ({ s with stack := es :: frames }.enter g l d) none

theorem moves_of_step {found : Option Cycle} (h : s.step g = some (s', found)) :
    Moves g s s' found := by
  rw [Search.step] at h
  split at h
  · cases h
  · next frames hstack =>
    cases h
    exact .leave hstack
  · next l d es frames hstack =>
    dsimp only at h
    split at h
    · next i hi =>
      cases h
      exact .close hstack hi
    · next hnone =>
      split at h
      · next hd =>
        cases h
        exact .skip hstack hnone hd
      · next hd =>
        cases h
        exact .enter hstack hnone hd

/-- A walk that has no moves has left its start. -/
theorem stack_eq_nil_of_step (h : s.step g = none) : s.stack = [] := by
  rw [Search.step] at h
  split at h
  · assumption
  · cases h
  · dsimp only at h
    split at h
    · cases h
    · split at h <;> cases h

/-- A move keeps the invariant, and the cycle that it closes is one. -/
theorem Walk.step {found : Option Cycle} (h : Walk g s) (hmoves : Moves g s s' found) :
    Walk g s' ∧ ∀ c ∈ found, g.IsCycle c.clients c.locks := by
  cases hmoves with
  | leave hstack => exact ⟨h.leave hstack, by simp⟩
  | close hstack hi =>
    refine ⟨h.follow hstack, ?_⟩
    rintro c ⟨⟩
    exact h.isCycle_closing hstack hi
  | skip hstack hnone hd => exact ⟨h.follow hstack, by simp⟩
  | enter hstack hnone hd =>
    obtain ⟨c, path, hpath, hedge⟩ := h.edge hstack
    exact ⟨(h.follow hstack).enter hpath rfl hedge hnone, by simp⟩

/-- Every cycle that a walk finds is one. -/
theorem Walk.isCycle_of_mem_run {c : Cycle} (h : Walk g s) (moves : Nat) (hc : c ∈ s.run g moves) :
    g.IsCycle c.clients c.locks := by
  induction moves generalizing s with
  | zero => cases hc
  | succ moves ih =>
    rw [run] at hc
    split at hc
    · cases hc
    · next s' found hstep =>
      obtain ⟨hwalk, hfound⟩ := h.step (moves_of_step hstep)
      rcases List.mem_append.1 hc with hc | hc
      · exact hfound c (Option.mem_toList.1 hc)
      · exact ih hwalk hc

end Search

namespace WaitForGraph

variable {g : WaitForGraph} {c : Cycle} {now : Nat}

/-- Keeping each cycle once adds none and loses none. -/
theorem mem_foldl_append_iff {cs seen : List Cycle} :
    c ∈ cs.foldl (fun seen c ↦ if c ∈ seen then seen else seen ++ [c]) seen ↔
      c ∈ cs ∨ c ∈ seen := by
  induction cs generalizing seen with
  | nil => simp
  | cons c' cs ih =>
    rw [List.foldl_cons, ih, List.mem_cons, or_comm (a := c = c'), or_assoc]
    refine or_congr_right ?_
    split
    · next hmem => exact (or_iff_right_of_imp fun heq ↦ heq ▸ hmem).symm
    · rw [List.mem_append, List.mem_singleton, or_comm]

/-- What is found in a graph is what the walks find, each cycle with its smallest client in
front. -/
theorem mem_cycles_iff :
    c ∈ g.cycles ↔
      ∃ client ∈ g.waiters, ∃ c' ∈ (Search.start g client).run g g.moves, c'.normalize = c := by
  rw [cycles, mem_foldl_append_iff, or_iff_left List.not_mem_nil, List.mem_flatMap]
  simp only [cyclesFrom, List.mem_map]

/-- **What is found is there.** Every cycle that is found in a wait-for graph is one of its
cycles. -/
theorem isCycle_of_mem_cycles (h : c ∈ g.cycles) : g.IsCycle c.clients c.locks := by
  obtain ⟨client, -, c', hc', rfl⟩ := mem_cycles_iff.1 h
  exact ((Search.walk_start g client).isCycle_of_mem_run _ hc').normalize

theorem isCycle_of_mem_deadlocks {report : DeadlockReport} (h : report ∈ g.deadlocks now) :
    g.IsCycle report.clients report.locks := by
  obtain ⟨c, hc, rfl⟩ := List.mem_map.1 h
  exact isCycle_of_mem_cycles hc

end WaitForGraph

end LeaseLock
