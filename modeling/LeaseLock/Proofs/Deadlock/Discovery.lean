import LeaseLock.Proofs.Deadlock.Canonical
import LeaseLock.Proofs.Deadlock.Coverage
import LeaseLock.Proofs.Deadlock.Path

/-!
# Which cycles are reported

Not every cycle of a wait-for graph is. A walk comes to a client on one path only, and closes the
cycles that edges from there back to this path close; where two clients are tied by several locks,
or where there are several ways from one to the other, the walks may between them leave out a cycle
(`WaitForGraph.not_reported_crossed`).

The path on which a walk comes to a client is the first one of all paths from the start of the walk
to that client (`WaitForGraph.IsFirstPath`). So a cycle is reported if and only if, cut open behind
one of its clients, it is the end of a first path (`WaitForGraph.reported_iff_first`).

The invariant (`Search.Traced`) is that there is no way around on the path of the walk. The edges
that are left of a client lie behind the one that the path has taken, so every edge with a smaller
lock leads to a client that has been entered before; such a client is on the path, or the walk has
left it, and has left with it whatever can be reached from there off the path.

## Cycles cut open

A cycle has as many beginnings as clients. It is the same cycle whichever of them it is read from
(`Cycle.Turned`), and a report shows it from its smallest client. The walk that finds it may have
started anywhere, even off the cycle, and closes it with the edge from the last client of its path.
So the condition is about the cycle cut open behind one of its clients: read from there to the end,
it has to be the end of the first path from the start of some walk.

## What is left out

Two clients that wait for each other through two locks each are tied by four cycles, and three of
them are found (`WaitForGraph.not_reported_crossed`). The fourth has the larger lock of each client,
and whichever of the two a walk starts from, it comes to the other one by the smaller lock. All
waits of the fourth are in other reports.
-/

namespace LeaseLock

namespace Cycle

variable {c c' c'' : Cycle} {k : Nat}

/-! ### Turned cycles -/

/-- The second cycle is the first one, read from another client. -/
def Turned (c c' : Cycle) : Prop :=
  ∃ k, c'.clients = c.clients.rotate k ∧ c'.locks = c.locks.rotate k

theorem Turned.trans (h : c.Turned c') (h' : c'.Turned c'') : c.Turned c'' := by
  obtain ⟨k, hclients, hlocks⟩ := h
  obtain ⟨k', hclients', hlocks'⟩ := h'
  exact ⟨k + k', by rw [hclients', hclients, List.rotate_rotate],
    by rw [hlocks', hlocks, List.rotate_rotate]⟩

/-- Turning a list on to a multiple of its length leads back. -/
theorem rotate_rotate_length_mul_sub (xs : List String) (k : Nat) :
    (xs.rotate k).rotate (xs.length * k - k) = xs := by
  cases xs with
  | nil => rw [List.rotate_nil, List.rotate_nil]
  | cons x xs =>
    have hround : k + ((x :: xs).length * k - k) = (x :: xs).length * k := by
      rw [List.length_cons, Nat.succ_mul]
      omega
    rw [List.rotate_rotate, hround, List.rotate_length_mul]

theorem Turned.symm (hlength : c.locks.length = c.clients.length) (h : c.Turned c') :
    c'.Turned c := by
  obtain ⟨k, hclients, hlocks⟩ := h
  refine ⟨c.clients.length * k - k, ?_, ?_⟩
  · rw [hclients, rotate_rotate_length_mul_sub]
  · rw [hlocks, ← hlength, rotate_rotate_length_mul_sub]

theorem turned_normalize (hlength : c.locks.length = c.clients.length) :
    c.Turned c.normalize := by
  rw [normalize]
  split
  · exact ⟨0, (List.rotate_zero _).symm, (List.rotate_zero _).symm⟩
  · next first others hclients =>
    have hle : c.clients.idxOf (smallest first others) ≤ c.clients.length := List.idxOf_le_length
    exact ⟨_, (List.rotate_eq_drop_append_take hle).symm,
      (List.rotate_eq_drop_append_take (hlength ▸ hle)).symm⟩

/-- A cycle has the same form wherever it is read from. -/
theorem Turned.normalize_eq (h : c.Turned c') (hne : c.clients ≠ []) (hnodup : c.clients.Nodup)
    (hlength : c.locks.length = c.clients.length) : c'.normalize = c.normalize := by
  obtain ⟨i, hclients', hlocks'⟩ := id h
  obtain ⟨j, hclients, hlocks⟩ := turned_normalize hlength
  have hne' : c'.clients ≠ [] := by
    rw [hclients', ne_eq, List.rotate_eq_nil_iff]
    exact hne
  have hlength' : c'.locks.length = c'.clients.length := by
    rw [hclients', hlocks', List.length_rotate, List.length_rotate, hlength]
  obtain ⟨k, hk, hk'⟩ : c.normalize.Turned c'.normalize :=
    ((turned_normalize hlength).symm hlength).trans (h.trans (turned_normalize hlength'))
  refine eq_of_rotate (smallestFirst_normalize hne) (smallestFirst_normalize hne') ?_ ?_ hk hk'
  · rw [hclients]
    exact List.nodup_rotate.2 hnodup
  · rw [hclients, hlocks, List.length_rotate, List.length_rotate, hlength]

end Cycle

/-- The edges of a client come in the order of their locks. -/
theorem WaitForGraph.sorted_edges (g : WaitForGraph) (c : ClientId) :
    (g.edges c).Pairwise fun e e' ↦ e.1 < e'.1 := by
  have hlocks (s : Names) : s.toList.Pairwise (· < ·) := List.pairwise_map.2 s.ordered
  refine (hlocks _).filterMap _ fun l l' hlt e he e' he' ↦ ?_
  obtain ⟨d, -, rfl⟩ := Option.map_eq_some_iff.1 he
  obtain ⟨d', -, rfl⟩ := Option.map_eq_some_iff.1 he'
  exact hlt

namespace Search

variable {g : WaitForGraph} {root c d x : ClientId} {s s' : Search} {shown : List Cycle}
  {found : Option Cycle} {path : List ClientId} {l l' : LockName}
  {es : List (LockName × ClientId)} {frames : List (List (LockName × ClientId))}
  {e : LockName × ClientId} {i : Nat}

/-! ### The path of a walk -/

/-- The path of a walk, read from its start. -/
theorem Walk.isPath (h : Walk g s) (hpath : s.path = c :: path) :
    g.IsPath s.path.reverse s.pathLocks.reverse where
  nodup := h.nodup
  length_eq := by
    have htrail := h.trail
    rw [hpath] at htrail
    rw [List.length_reverse, List.length_reverse, hpath, List.length_cons, htrail.length_eq]
  edge _ _ _ _ hc hl hd := h.trail.edge hc hl hd

/-- The edges that are left behind the next one have larger locks. -/
theorem Walk.lt_of_mem_left (h : Walk g s) (hpath : s.path = c :: path)
    (hstack : s.stack = ((l, d) :: es) :: frames) (he : e ∈ es) : l < e.1 := by
  have htrail := h.trail
  rw [hpath, hstack] at htrail
  exact (List.pairwise_cons.1 ((g.sorted_edges c).sublist htrail.suffix.sublist)).1 e he

theorem Rooted.head?_path (h : Rooted g root s) (hpath : s.path = c :: path) :
    s.path.reverse.head? = some root := by
  rw [List.head?_reverse]
  exact h.path_root (hpath ▸ List.cons_ne_nil c path)

theorem getLast?_path (hpath : s.path = c :: path) : s.path.reverse.getLast? = some c := by
  rw [List.getLast?_reverse, hpath, List.head?_cons]

/-- Only of clients of the path edges are left. -/
theorem mem_path_of_left (h : s.Left c e) : c ∈ s.path := by
  obtain ⟨es, hmem, -⟩ := h
  exact (List.of_mem_zip hmem).1

/-- Of the last client those edges are left that stand on top. -/
theorem Walk.left_last_iff (h : Walk g s) (hpath : s.path = c :: path)
    (hstack : s.stack = es :: frames) : s.Left c e ↔ e ∈ es := by
  have hnodup := h.nodup
  rw [List.nodup_reverse, hpath, List.nodup_cons] at hnodup
  rw [left_iff hpath hstack]
  constructor
  · rintro (⟨-, he⟩ | ⟨es, hmem, -⟩)
    · exact he
    · exact absurd (List.of_mem_zip hmem).1 hnodup.1
  · exact fun he ↦ .inl ⟨rfl, he⟩

/-- What is left when an edge has been followed was left before. -/
theorem left_of_follow (hpath : s.path = x :: path) (hstack : s.stack = (e :: es) :: frames)
    {e' : LockName × ClientId} (h : { s with stack := es :: frames }.Left c e') : s.Left c e' := by
  rw [left_iff (s := { s with stack := es :: frames }) hpath rfl] at h
  rw [left_iff hpath hstack]
  exact h.imp_left fun ⟨hc, he⟩ ↦ ⟨hc, List.mem_cons_of_mem e he⟩

/-- A walk that has left a client has entered whatever can be reached from there off the path. -/
theorem Explored.visited_of_reachesOff (h : Explored g root s shown) (hc : c ∈ s.visited)
    (hreach : g.ReachesOff s.path.reverse c d) : d ∈ s.visited := by
  induction hreach with
  | refl => exact hc
  | step hoff edge _ ih =>
    rcases h.followed _ hc _ _ edge with hleft | ⟨hd, -⟩
    · exact absurd (List.mem_reverse.2 (mem_path_of_left hleft)) hoff
    · exact ih hd

/-! ### The invariant -/

/-- The cycle is made of the end of the first path from `root` to `c`, from `d` on, and of an edge
from `c` back to `d` that the lock `l` makes. -/
def ClosedBy (g : WaitForGraph) (root c : ClientId) (l : LockName) (d : ClientId) (cycle : Cycle) :
    Prop :=
  ∃ clients locks, ∃ i : Nat, g.IsFirstPath clients locks ∧ clients.head? = some root ∧
    clients.getLast? = some c ∧ clients[i]? = some d ∧
      cycle = ⟨clients.drop i, locks.drop i ++ [l]⟩

/-- An edge from the end of a first path from `root` back to the path closes the cycle. -/
def Closes (g : WaitForGraph) (root : ClientId) (cycle : Cycle) : Prop :=
  ∃ c l d, g.Edge c l d ∧ ClosedBy g root c l d cycle

/-- What is kept on a walk from `root` that has shown the cycles `shown`, about the ways that it
takes. -/
structure Traced (g : WaitForGraph) (root : ClientId) (s : Search) (shown : List Cycle) : Prop
    extends Explored g root s shown where
  /-- The edges that are left of a client lie behind the one that the path has taken. -/
  beyond : ∀ (i : Nat) c l e, s.path.reverse[i]? = some c → s.pathLocks.reverse[i]? = some l →
    s.Left c e → l < e.1
  /-- There is no way around on the path. -/
  foremost : g.Foremost s.path.reverse s.pathLocks.reverse
  /-- What has been shown is closed at the end of a first path. -/
  origin : ∀ cycle ∈ shown, Closes g root cycle
  /-- An edge of a client that has been entered is left, or the cycle that it closes has been
  shown. -/
  closed : ∀ c ∈ s.visited, ∀ l d, g.Edge c l d →
    s.Left c (l, d) ∨ ∀ cycle, ClosedBy g root c l d cycle → cycle ∈ shown

/-- The path on which a walk comes to a client is the first one to that client. -/
theorem Traced.isFirstPath (h : Traced g root s shown) (hpath : s.path = c :: path) :
    g.IsFirstPath s.path.reverse s.pathLocks.reverse :=
  h.foremost.isFirstPath (h.toWalk.isPath hpath)

theorem traced_start (g : WaitForGraph) (root : ClientId) : Traced g root (start g root) [] where
  toExplored := explored_start g root
  beyond i c l e hc hl := by cases hl
  foremost := by
    intro i j c l l' d v hc hl
    cases hl
  origin cycle hcycle := absurd hcycle List.not_mem_nil
  closed _ hc _ _ hedge := .inl (left_start hc hedge)

/-- The edges with smaller locks have been followed when the path takes an edge. -/
theorem Traced.not_left (h : Traced g root s shown) (hpath : s.path = x :: path)
    (hstack : s.stack = ((l, d) :: es) :: frames) {l₁ : LockName}
    (hc : s.path.reverse[i]? = some c) (hl : (s.pathLocks.reverse ++ [l])[i]? = some l₁)
    (hlt : e.1 < l₁) : ¬ s.Left c e := by
  intro hleft
  rcases getElem?_concat_eq_some_iff.1 hl with hl | ⟨hi, rfl⟩
  · exact lt_asymm hlt (h.beyond i c l₁ e hc hl hleft)
  · -- The client is the last one, whose edges are in order.
    have hlast := getLast?_path hpath
    rw [(h.toWalk.isPath hpath).getLast?_eq, ← hi, hc] at hlast
    cases hlast
    rw [h.toWalk.left_last_iff hpath hstack] at hleft
    rcases List.mem_cons.1 hleft with rfl | he
    · exact lt_irrefl _ hlt
    · exact lt_asymm hlt (h.toWalk.lt_of_mem_left hpath hstack he)

/-- **There is no way around to a client that is entered.** -/
theorem Traced.foremost_enter (h : Traced g root s shown) (hpath : s.path = x :: path)
    (hstack : s.stack = ((l, d) :: es) :: frames) (hd : d ∉ s.visited) :
    g.Foremost (s.path.reverse ++ [d]) (s.pathLocks.reverse ++ [l]) := by
  have hlength := (h.toWalk.isPath hpath).length_eq
  intro i j c l₁ l' d' v hc hl hlt hedge hij hv hreach
  have hi := (List.getElem?_eq_some_iff.1 hl).1
  rw [List.length_append, List.length_singleton] at hi
  rw [List.getElem?_append_left (by omega)] at hc
  rw [List.take_append_of_le_length (by omega)] at hreach
  -- To the later clients of the path there was no way around before.
  have hnone (m : Nat) (q : ClientId) (hm : i < m) (hq : s.path.reverse[m]? = some q) :
      ¬ g.ReachesOff (s.path.reverse.take (i + 1)) d' q := by
    have := (List.getElem?_eq_some_iff.1 hq).1
    rw [List.getElem?_append_left (by omega)] at hl
    exact h.foremost i m c l₁ l' d' q hc hl hlt hedge hm hq
  rcases getElem?_concat_eq_some_iff.1 hv with hv | ⟨-, rfl⟩
  · exact hnone j v hij hv hreach
  · have hc' : c ∈ s.visited := h.path_visited c (List.mem_reverse.1 (List.mem_of_getElem? hc))
    have hd' : d' ∈ s.visited :=
      ((h.followed c hc' l' d' hedge).resolve_left (h.not_left hpath hstack hc hl hlt)).1
    refine hd (h.toExplored.visited_of_reachesOff hd' ?_)
    rw [← List.take_append_drop (i + 1) s.path.reverse]
    refine hreach.append fun q hq ↦ ?_
    obtain ⟨m, hm⟩ := List.mem_iff_getElem?.1 hq
    rw [List.getElem?_drop] at hm
    exact hnone (i + 1 + m) q (by omega) hm

theorem getElem?_of_isPrefix {xs ys : List String} {a : String} (h : xs <+: ys)
    (ha : xs[i]? = some a) : ys[i]? = some a := by
  obtain ⟨more, rfl⟩ := h
  rw [List.getElem?_append_left (List.getElem?_eq_some_iff.1 ha).1, ha]

theorem reverse_tail_isPrefix (xs : List String) : xs.tail.reverse <+: xs.reverse :=
  List.reverse_prefix.2 (List.tail_suffix xs)

/-- What is left when the last client is left was left before. -/
theorem left_of_leave {stack : List (List (LockName × ClientId))} (hpath : s.path = x :: path)
    (hstack : s.stack = es :: stack) (h : (s.leave stack).Left c e) : s.Left c e := by
  rw [left_iff hpath hstack]
  rw [Left, Search.leave, hpath] at h
  exact .inr h

/-- An edge of the last client closes the cycle along the path, if it leads back there. -/
theorem Traced.closedBy_last_iff (h : Traced g root s shown) (hpath : s.path = x :: path)
    {cycle : Cycle} : ClosedBy g root x l d cycle ↔
      ∃ i, s.position.get? d = some i ∧
        cycle = ⟨s.path.reverse.drop i, s.pathLocks.reverse.drop i ++ [l]⟩ := by
  constructor
  · rintro ⟨clients, locks, i, hfirst, hhead, hlast, hd, rfl⟩
    -- The first path to the last client is the one that the walk is on.
    obtain ⟨rfl, rfl⟩ := (h.isFirstPath hpath).unique hfirst
      (hhead.trans (h.toRooted.head?_path hpath).symm) (hlast.trans (getLast?_path hpath).symm)
    exact ⟨i, (h.position d i).2 hd, rfl⟩
  · rintro ⟨i, hi, rfl⟩
    exact ⟨_, _, i, h.isFirstPath hpath, h.toRooted.head?_path hpath, getLast?_path hpath,
      (h.position d i).1 hi, rfl⟩

/-- An edge of the last client that leads off the path closes no cycle. -/
theorem Traced.not_closedBy_last (h : Traced g root s shown) (hpath : s.path = x :: path)
    (hnone : s.position.get? d = none) (cycle : Cycle) : ¬ ClosedBy g root x l d cycle := by
  intro hcycle
  obtain ⟨i, hi, -⟩ := (h.closedBy_last_iff hpath).1 hcycle
  rw [hnone] at hi
  cases hi

theorem Traced.beyond_step (h : Traced g root s shown) (hmoves : Moves g s s' found) (i : Nat)
    (c : ClientId) (l : LockName) (e : LockName × ClientId) (hc : s'.path.reverse[i]? = some c)
    (hl : s'.pathLocks.reverse[i]? = some l) (hleft : s'.Left c e) : l < e.1 := by
  cases hmoves with
  | leave hstack =>
    obtain ⟨x, path, hpath, -⟩ := h.toWalk.exists_last hstack
    rw [h.toWalk.pathLocks_leave hstack] at hl
    exact h.beyond i c l e (getElem?_of_isPrefix (reverse_tail_isPrefix s.path) hc)
      (getElem?_of_isPrefix (reverse_tail_isPrefix s.pathLocks) hl)
      (left_of_leave hpath hstack hleft)
  | close hstack | skip hstack =>
    obtain ⟨x, path, hpath, -⟩ := h.toWalk.edge hstack
    exact h.beyond i c l e hc hl (left_of_follow hpath hstack hleft)
  | @enter l' d es frames hstack hnone hd =>
    obtain ⟨x, path, hpath, -⟩ := h.toWalk.edge hstack
    replace hc : (d :: s.path).reverse[i]? = some c := hc
    replace hl : (l' :: s.pathLocks).reverse[i]? = some l := hl
    rw [List.reverse_cons] at hc hl
    have hlength := (h.toWalk.isPath hpath).length_eq
    have hi := (List.getElem?_eq_some_iff.1 hl).1
    rw [List.length_append, List.length_singleton] at hi
    rw [List.getElem?_append_left (by omega)] at hc
    have hcpath : c ∈ s.path := List.mem_reverse.1 (List.mem_of_getElem? hc)
    -- The client that is entered is none of the path.
    have hne : c ≠ d := by
      rintro rfl
      exact hd (h.path_visited c hcpath)
    have hfollowed : { s with stack := es :: frames }.Left c e := by
      rcases (left_iff rfl rfl).1 hleft with ⟨hcd, -⟩ | hold
      · exact absurd hcd hne
      · exact hold
    rcases getElem?_concat_eq_some_iff.1 hl with hl | ⟨hi, rfl⟩
    · exact h.beyond i c l e hc hl (left_of_follow hpath hstack hfollowed)
    · have hlast := getLast?_path hpath
      rw [(h.toWalk.isPath hpath).getLast?_eq, ← hi, hc] at hlast
      cases hlast
      exact h.toWalk.lt_of_mem_left hpath hstack
        (((h.toWalk.follow hstack).left_last_iff hpath rfl).1 hfollowed)

theorem Traced.foremost_step (h : Traced g root s shown) (hmoves : Moves g s s' found) :
    g.Foremost s'.path.reverse s'.pathLocks.reverse := by
  cases hmoves with
  | leave hstack =>
    rw [h.toWalk.pathLocks_leave hstack]
    exact h.foremost.of_isPrefix (reverse_tail_isPrefix s.path) (reverse_tail_isPrefix s.pathLocks)
  | close | skip => exact h.foremost
  | @enter l d es frames hstack hnone hd =>
    obtain ⟨x, path, hpath, -⟩ := h.toWalk.edge hstack
    show g.Foremost (d :: s.path).reverse (l :: s.pathLocks).reverse
    rw [List.reverse_cons, List.reverse_cons]
    exact h.foremost_enter hpath hstack hd

theorem Traced.origin_step (h : Traced g root s shown) (hmoves : Moves g s s' found) :
    ∀ cycle ∈ shown ++ found.toList, Closes g root cycle := by
  intro cycle hcycle
  rcases List.mem_append.1 hcycle with hcycle | hfound
  · exact h.origin cycle hcycle
  · cases hmoves with
    | leave | skip | enter => cases hfound
    | @close l d es frames i hstack hi =>
      obtain rfl := List.mem_singleton.1 hfound
      obtain ⟨x, path, hpath, hedge⟩ := h.toWalk.edge hstack
      obtain ⟨hlength, hle⟩ := h.toWalk.le_length_pathLocks hstack hi
      exact ⟨x, l, d, hedge, (h.closedBy_last_iff hpath).2 ⟨i, hi, closing_eq l hle hlength⟩⟩

/-- When the next edge of the last client is followed, an edge of a client that has been entered is
left still, or it is this one, or it has been followed before. -/
theorem Traced.follow_closed (h : Traced g root s shown) {l' : LockName} {d' : ClientId}
    (hpath : s.path = x :: path) (hstack : s.stack = ((l', d') :: es) :: frames)
    (hc : c ∈ s.visited) (hedge : g.Edge c l d) :
    { s with stack := es :: frames }.Left c (l, d) ∨ (c = x ∧ l = l' ∧ d = d') ∨
      ∀ cycle, ClosedBy g root c l d cycle → cycle ∈ shown := by
  rcases h.closed c hc l d hedge with hleft | hclosed
  · rcases left_follow hpath hstack hleft with hleft | ⟨hx, heq⟩
    · exact .inl hleft
    · exact .inr (.inl ⟨hx, Prod.mk.inj heq⟩)
  · exact .inr (.inr hclosed)

theorem Traced.closed_step (h : Traced g root s shown) (hmoves : Moves g s s' found) :
    ∀ c ∈ s'.visited, ∀ l d, g.Edge c l d →
      s'.Left c (l, d) ∨ ∀ cycle, ClosedBy g root c l d cycle → cycle ∈ shown ++ found.toList := by
  intro c hc l d hedge
  cases hmoves with
  | leave hstack =>
    rw [Option.toList_none, List.append_nil]
    exact (h.closed c hc l d hedge).imp_left fun hleft ↦ h.toWalk.left_leave hstack hleft
  | @close l' d' es frames i' hstack hi' =>
    obtain ⟨x, path, hpath, -⟩ := h.toWalk.edge hstack
    rcases h.follow_closed hpath hstack hc hedge with hleft | ⟨rfl, rfl, rfl⟩ | hclosed
    · exact .inl hleft
    · refine .inr fun cycle hcycle ↦ ?_
      obtain ⟨i, hi, rfl⟩ := (h.closedBy_last_iff hpath).1 hcycle
      obtain rfl : i' = i := Option.some.inj (hi'.symm.trans hi)
      obtain ⟨hlength, hle⟩ := h.toWalk.le_length_pathLocks hstack hi'
      rw [← closing_eq l hle hlength]
      exact List.mem_append_right shown List.mem_cons_self
    · exact .inr fun cycle hcycle ↦ List.mem_append_left _ (hclosed cycle hcycle)
  | @skip l' d' es frames hstack hnone hd' =>
    rw [Option.toList_none, List.append_nil]
    obtain ⟨x, path, hpath, -⟩ := h.toWalk.edge hstack
    rcases h.follow_closed hpath hstack hc hedge with hleft | ⟨rfl, rfl, rfl⟩ | hclosed
    · exact .inl hleft
    · exact .inr fun cycle hcycle ↦ absurd hcycle (h.not_closedBy_last hpath hnone cycle)
    · exact .inr hclosed
  | @enter l' d' es frames hstack hnone hd' =>
    rw [Option.toList_none, List.append_nil]
    obtain ⟨x, path, hpath, -⟩ := h.toWalk.edge hstack
    rcases Names.mem_add.1 hc with rfl | hc
    · exact .inl ((left_iff rfl rfl).2 (.inl ⟨rfl, WaitForGraph.mem_edges_iff.2 hedge⟩))
    rcases h.follow_closed hpath hstack hc hedge with hleft | ⟨rfl, rfl, rfl⟩ | hclosed
    · exact .inl ((left_iff rfl rfl).2 (.inr hleft))
    · exact .inr fun cycle hcycle ↦ absurd hcycle (h.not_closedBy_last hpath hnone cycle)
    · exact .inr hclosed

theorem Traced.step (h : Traced g root s shown) (hmoves : Moves g s s' found) :
    Traced g root s' (shown ++ found.toList) where
  toExplored := h.toExplored.step hmoves
  beyond := h.beyond_step hmoves
  foremost := h.foremost_step hmoves
  origin := h.origin_step hmoves
  closed := h.closed_step hmoves

/-- **What a walk shows.** It shows exactly the cycles that an edge closes from the end of a first
path from its start back to that path. -/
theorem mem_run_iff {cycle : Cycle} :
    cycle ∈ (start g root).run g g.moves ↔ Closes g root cycle := by
  obtain ⟨s', hstack, h⟩ := exists_run (fun _ _ h ↦ h.toRooted) (fun _ _ _ _ h ↦ h.step)
    (traced_start g root) (movesLeft_start_le g root)
  refine ⟨h.origin cycle, ?_⟩
  rintro ⟨c, l, d, hedge, hclosed⟩
  have hc : c ∈ s'.visited := by
    obtain ⟨clients, locks, i, hfirst, hhead, hlast, -⟩ := hclosed
    exact h.visited_of_reaches hstack h.root_visited (hfirst.toIsPath.reaches hhead hlast)
  rcases h.closed c hc l d hedge with ⟨es, hmem, -⟩ | hshown
  · rw [hstack, List.zip_nil_right] at hmem
    cases hmem
  · exact hshown cycle hclosed

end Search

namespace WaitForGraph

variable {g : WaitForGraph} {c : Cycle}

/-- What is reported is what has been found. -/
theorem mem_deadlocks_iff {now : Nat} :
    ⟨c.clients, c.locks, now⟩ ∈ g.deadlocks now ↔ c ∈ g.cycles := by
  rw [deadlocks, List.mem_map]
  constructor
  · rintro ⟨c', hc', heq⟩
    injection heq with hclients hlocks
    obtain rfl : c' = c := congrArg₂ Cycle.mk hclients hlocks
    exact hc'
  · exact fun hc ↦ ⟨c, hc, rfl⟩

/-- A cycle that is closed at the end of a first path is found. -/
theorem IsFirstPath.mem_cycles {clients : List ClientId} {locks : List LockName}
    (h : g.IsFirstPath (clients ++ c.clients) (locks ++ c.locks.dropLast))
    (hcycle : g.IsCycle c.clients c.locks) : c.normalize ∈ g.cycles := by
  have hpos : 0 < c.clients.length := List.length_pos_of_ne_nil hcycle.nonempty
  have hlength := hcycle.length_eq
  have hlengths : clients.length = locks.length := by
    have := h.length_eq
    rw [List.length_append, List.length_append, List.length_dropLast] at this
    omega
  have hne : c.locks ≠ [] := List.ne_nil_of_length_pos (hlength ▸ hpos)
  -- The cycle is closed by the edge from its last client to its first one.
  have hlast : c.clients[c.clients.length - 1]? = some (c.clients.getLast hcycle.nonempty) := by
    rw [← List.getLast?_eq_getElem?, List.getLast?_eq_some_getLast]
  have hlock : c.locks[c.clients.length - 1]? = some (c.locks.getLast hne) := by
    rw [← hlength, ← List.getLast?_eq_getElem?, List.getLast?_eq_some_getLast]
  have hfirst : c.clients[(c.clients.length - 1 + 1) % c.clients.length]? = some c.clients[0] := by
    rw [Nat.sub_add_cancel hpos, Nat.mod_self, List.getElem?_eq_getElem hpos]
  have hedge := hcycle.edge _ _ _ _ hlast hlock hfirst
  have hend : (clients ++ c.clients).getLast? = some (c.clients.getLast hcycle.nonempty) := by
    rw [List.getLast?_append, List.getLast?_eq_some_getLast hcycle.nonempty, Option.some_or]
  obtain ⟨root, hroot⟩ : ∃ root, (clients ++ c.clients).head? = some root :=
    Option.isSome_iff_exists.1 (by simp [hcycle.nonempty])
  have hwaits : root ∈ g.waiters := by
    cases h.toIsPath.reaches hroot hend with
    | refl => exact mem_waiters_of_edge hedge
    | step edge _ => exact mem_waiters_of_edge edge
  refine mem_cycles_iff.2 ⟨root, hwaits, c, Search.mem_run_iff.2 ⟨_, _, _, hedge, _, _,
    clients.length, h, hroot, hend, ?_, ?_⟩, rfl⟩
  · rw [List.getElem?_append_right le_rfl, Nat.sub_self, List.getElem?_eq_getElem hpos]
  · rw [List.drop_left, hlengths, List.drop_left, List.dropLast_append_getLast]

/-- **Which cycles are reported.** A cycle is reported by a scan if and only if, cut open behind one
of its clients, it is the end of the first path from some client to the client where it is cut. -/
theorem reported_iff_first (now : Nat) (h : g.IsCycle c.clients c.locks) :
    ⟨c.normalize.clients, c.normalize.locks, now⟩ ∈ g.deadlocks now ↔
      ∃ k clients locks,
        g.IsFirstPath (clients ++ c.clients.rotate k) (locks ++ (c.locks.rotate k).dropLast) := by
  rw [mem_deadlocks_iff]
  constructor
  · intro hc
    obtain ⟨root, -, c', hc', hnormal⟩ := mem_cycles_iff.1 hc
    have hcycle := (Search.walk_start g root).isCycle_of_mem_run _ hc'
    -- The cycle that the walk shows is this one, read from another client.
    obtain ⟨k, hclients, hlocks⟩ : c.Turned c' :=
      (Cycle.turned_normalize h.length_eq).trans
        (hnormal ▸ (Cycle.turned_normalize hcycle.length_eq).symm hcycle.length_eq)
    obtain ⟨-, l, -, -, clients, locks, i, hfirst, -, -, -, rfl⟩ := Search.mem_run_iff.1 hc'
    refine ⟨k, clients.take i, locks.take i, ?_⟩
    dsimp only at hclients hlocks
    rw [← hclients, ← hlocks, List.dropLast_concat, List.take_append_drop, List.take_append_drop]
    exact hfirst
  · rintro ⟨k, clients, locks, hfirst⟩
    have hturned : c.Turned ⟨c.clients.rotate k, c.locks.rotate k⟩ := ⟨k, rfl, rfl⟩
    rw [← hturned.normalize_eq h.nonempty h.nodup h.length_eq]
    exact IsFirstPath.mem_cycles hfirst (h.rotate k)

/-- Two clients that wait for one another are a cycle. -/
theorem isCycle_pair {a b : ClientId} {k m : LockName} (hne : a ≠ b) (hk : g.Edge a k b)
    (hm : g.Edge b m a) : g.IsCycle [a, b] [k, m] where
  nonempty := List.cons_ne_nil a [b]
  nodup := List.nodup_cons.2 ⟨List.mem_singleton.not.2 hne, List.nodup_singleton b⟩
  length_eq := rfl
  edge i c l d hc hl hd := by
    match i with
    | 0 =>
      cases hc
      cases hl
      cases hd
      exact hk
    | 1 =>
      have hround : (1 + 1) % [a, b].length = 0 := Nat.mod_self 2
      rw [hround] at hd
      cases hc
      cases hl
      cases hd
      exact hm
    | i + 2 => cases hc

/-- `a` waits for two locks of `b`, which waits for two locks of `a`. -/
def crossed : WaitForGraph :=
  let g := ({} : WaitForGraph).addWait "a" "K1" |>.addWait "a" "K2"
  let g := g.addWait "b" "M1" |>.addWait "b" "M2"
  g.addHold "K1" "b" |>.addHold "K2" "b" |>.addHold "M1" "a" |>.addHold "M2" "a"

/-- The first path from `a` to `b` takes the lock `K1`, and the one from `b` to `a` the lock `M1`.
So the cycle of `K1` and `M2` is reported, and the one of `K2` and `M2` is not. -/
theorem reported_iff_first_crossed :
    crossed.IsCycle ["a", "b"] ["K1", "M2"] ∧ crossed.IsCycle ["a", "b"] ["K2", "M2"] ∧
      (∃ k clients locks, crossed.IsFirstPath (clients ++ ["a", "b"].rotate k)
        (locks ++ (["K1", "M2"].rotate k).dropLast)) ∧
      ¬ ∃ k clients locks, crossed.IsFirstPath (clients ++ ["a", "b"].rotate k)
        (locks ++ (["K2", "M2"].rotate k).dropLast) := by
  have hk (k : LockName) (h : (k, "b") ∈ crossed.edges "a") :
      crossed.IsCycle ["a", "b"] [k, "M2"] :=
    isCycle_pair (by decide) (mem_edges_iff.1 h) (mem_edges_iff.1 (by decide))
  have h₁ := hk "K1" (by decide)
  have h₂ := hk "K2" (by decide)
  exact ⟨h₁, h₂, (reported_iff_first (c := ⟨_, _⟩) 1000 h₁).1 (by decide),
    (reported_iff_first (c := ⟨_, _⟩) 1000 h₂).not.1 (by decide)⟩

/-- A cycle that is not reported. The walk from `a` comes to `b` by way of `K1` and has left `b`
when it follows the edge of `K2`; the walk from `b` closes that edge behind `M1` only. -/
theorem not_reported_crossed :
    crossed.IsCycle ["a", "b"] ["K2", "M2"] ∧
      ⟨["a", "b"], ["K2", "M2"], 1000⟩ ∉ crossed.deadlocks 1000 :=
  ⟨isCycle_pair (by decide) (mem_edges_iff.1 (by decide)) (mem_edges_iff.1 (by decide)),
    by decide⟩

end WaitForGraph

end LeaseLock
