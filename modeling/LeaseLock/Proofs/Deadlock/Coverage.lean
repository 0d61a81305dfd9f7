import Mathlib.Data.List.Rotate
import LeaseLock.Proofs.Deadlock.Exploration

/-!
# Who is reported

**Every deadlocked wait is reported, and no other.** A client that waits for a lock is shown with
that lock in some report exactly if it can be reached from the lock's holder
(`WaitForGraph.reported_iff_reaches`), so that it waits, in the end, for itself.

No single walk shows all of them: a walk follows each edge once, and an edge to a client that it has
left shows nothing. But the wait of a client `c` for a lock of `d` is shown on the walk from `d`. On
that walk `d` stays on the path to the end, and `c` is entered, since every client is that can be
reached; so when the edge from `c` to `d` is followed it closes a cycle, and the cycle ends with it.
The invariant is that every edge of a client that has been entered is left to be followed, or leads
to a client that has been entered, and has been shown if that client is the start
(`Search.Explored`).

## Shown and reported

A cycle that is found is turned before it is reported, and it is reported once however often it is
found. Neither changes who is shown in it with which lock (`Cycle.shows_normalize`). So it is enough
to find a cycle with the wait on some walk, and the walk from the holder of the lock is one of those
that are made, because a client that can be reached from itself waits.

That every wait of a deadlock is in some report does not mean that every cycle is reported. Which
ones are is a question of its own (`WaitForGraph.reported_iff_first`).
-/

namespace LeaseLock

namespace Cycle

variable {c : Cycle} {client : ClientId} {lock : LockName}

/-- The cycle shows that the client waits for the lock. -/
def Shows (c : Cycle) (client : ClientId) (lock : LockName) : Prop :=
  (client, lock) ∈ c.clients.zip c.locks

theorem shows_iff :
    c.Shows client lock ↔ ∃ i : Nat, c.clients[i]? = some client ∧ c.locks[i]? = some lock := by
  simp only [Shows, List.mem_iff_getElem?, List.getElem?_zip_eq_some]

/-- A cycle shows the same when it is turned. -/
theorem shows_normalize (hlength : c.locks.length = c.clients.length) :
    c.normalize.Shows client lock ↔ c.Shows client lock := by
  rw [normalize]
  split
  · rfl
  · next first others hclients =>
    have hle : c.clients.idxOf (smallest first others) ≤ c.clients.length := List.idxOf_le_length
    rw [Shows]
    dsimp only
    rw [← List.rotate_eq_drop_append_take hle,
      ← List.rotate_eq_drop_append_take (hlength ▸ hle), List.zip,
      ← List.zipWith_rotate_distrib _ _ _ _ hlength.symm, List.mem_rotate]
    rfl

end Cycle

namespace Search

variable {g : WaitForGraph} {root c : ClientId} {s s' : Search} {shown : List Cycle}
  {found : Option Cycle} {e : LockName × ClientId}

/-- The edge of the client of the path is left to be followed. -/
def Left (s : Search) (c : ClientId) (e : LockName × ClientId) : Prop :=
  ∃ es, (c, es) ∈ s.path.zip s.stack ∧ e ∈ es

/-- The edges that are left of the last client are left. -/
theorem left_iff {d : ClientId} {path : List ClientId} {es : List (LockName × ClientId)}
    {frames : List (List (LockName × ClientId))} (hpath : s.path = d :: path)
    (hstack : s.stack = es :: frames) :
    s.Left c e ↔ (c = d ∧ e ∈ es) ∨ ∃ es, (c, es) ∈ path.zip frames ∧ e ∈ es := by
  rw [Left, hpath, hstack, List.zip_cons_cons]
  simp only [List.mem_cons, Prod.mk.injEq, or_and_right, exists_or, and_assoc]
  rw [exists_and_left, exists_eq_left]

/-- At the start every edge of the client that has been entered is left. -/
theorem left_start {l : LockName} {d : ClientId} (hc : c ∈ (start g root).visited)
    (hedge : g.Edge c l d) : (start g root).Left c (l, d) := by
  obtain rfl : c = root := by
    rcases Names.mem_add.1 hc with h | h
    · exact h
    · exact absurd h Names.not_mem_empty
  exact (left_iff rfl rfl).2 (.inl ⟨rfl, WaitForGraph.mem_edges_iff.2 hedge⟩)

/-- The edges that are left when the last client is left are left behind that, as it had none. -/
theorem Walk.left_leave {frames : List (List (LockName × ClientId))} (h : Walk g s)
    (hstack : s.stack = [] :: frames) (hleft : s.Left c e) : (s.leave frames).Left c e := by
  obtain ⟨x, path, hpath, -⟩ := h.exists_last hstack
  rcases (left_iff hpath hstack).1 hleft with ⟨-, he⟩ | hrest
  · cases he
  · rw [Left, Search.leave, hpath]
    exact hrest

/-- What is kept on a walk from `root` that has shown the cycles `shown`. -/
structure Explored (g : WaitForGraph) (root : ClientId) (s : Search) (shown : List Cycle) : Prop
    extends Rooted g root s where
  /-- An edge of a client that has been entered is left, or it has been followed. -/
  followed : ∀ c ∈ s.visited, ∀ l d, g.Edge c l d →
    s.Left c (l, d) ∨ d ∈ s.visited ∧ (d = root → ∃ cycle ∈ shown, cycle.Shows c l)

theorem explored_start (g : WaitForGraph) (root : ClientId) :
    Explored g root (start g root) [] where
  toRooted := rooted_start g root
  followed _ hc _ _ hedge := .inl (left_start hc hedge)

/-- The client at a position of the path has been entered. -/
theorem Rooted.visited_of_position {i : Nat} (h : Rooted g root s)
    (hi : s.position.get? c = some i) : c ∈ s.visited :=
  h.path_visited c (List.mem_reverse.1 (List.mem_of_getElem? ((h.position c i).1 hi)))

/-- The start has a position for as long as there is a path. -/
theorem Rooted.position_root (h : Rooted g root s) (hne : s.path ≠ []) :
    s.position.get? root ≠ none := by
  have hroot : s.path.reverse[0]? = some root := by
    rw [← List.head?_eq_getElem?, List.head?_reverse, h.path_root hne]
  rw [(h.position root 0).2 hroot]
  exact Option.some_ne_none 0

/-- The cycle that an edge closes shows the wait of the last client. -/
theorem shows_closing {l : LockName} {path : List ClientId} {i : Nat} (hpath : s.path = c :: path)
    (hlength : s.path.length = s.pathLocks.length + 1) (hi : i ≤ s.pathLocks.length) :
    (s.closing i l).Shows c l := by
  rw [closing_eq l hi hlength, Cycle.Shows, hpath, List.reverse_cons,
    List.drop_append_of_le_length, List.zip_append, List.mem_append]
  · exact .inr List.mem_cons_self
  · rw [hpath, List.length_cons] at hlength
    rw [List.length_drop, List.length_drop, List.length_reverse, List.length_reverse]
    omega
  · rw [hpath, List.length_cons] at hlength
    rw [List.length_reverse]
    omega

/-- When the next edge of the last client is followed, the other edges are left as they were. -/
theorem left_follow {l : LockName} {d : ClientId} {es : List (LockName × ClientId)}
    {frames : List (List (LockName × ClientId))} {x : ClientId} {path : List ClientId}
    (hpath : s.path = x :: path) (hstack : s.stack = ((l, d) :: es) :: frames)
    (h : s.Left c e) : { s with stack := es :: frames }.Left c e ∨ c = x ∧ e = (l, d) := by
  have hleft : { s with stack := es :: frames }.Left c e ↔
      (c = x ∧ e ∈ es) ∨ ∃ es, (c, es) ∈ path.zip frames ∧ e ∈ es :=
    left_iff (s := { s with stack := es :: frames }) hpath rfl
  rcases (left_iff hpath hstack).1 h with ⟨rfl, he⟩ | hrest
  · rcases List.mem_cons.1 he with rfl | he
    · exact .inr ⟨rfl, rfl⟩
    · exact .inl (hleft.2 (.inl ⟨rfl, he⟩))
  · exact .inl (hleft.2 (.inr hrest))

/-- When the next edge of the last client is followed, an edge of a client that has been entered is
left still, or it is this one, or it has been followed before. -/
theorem Explored.follow (h : Explored g root s shown) {l l' : LockName} {d d' : ClientId}
    {es : List (LockName × ClientId)} {frames : List (List (LockName × ClientId))} {x : ClientId}
    {path : List ClientId} (hpath : s.path = x :: path)
    (hstack : s.stack = ((l', d') :: es) :: frames) (hc : c ∈ s.visited) (hedge : g.Edge c l d) :
    { s with stack := es :: frames }.Left c (l, d) ∨ (c = x ∧ l = l' ∧ d = d') ∨
      d ∈ s.visited ∧ (d = root → ∃ cycle ∈ shown, cycle.Shows c l) := by
  rcases h.followed c hc l d hedge with hleft | hfollowed
  · rcases left_follow hpath hstack hleft with hleft | ⟨hx, heq⟩
    · exact .inl hleft
    · exact .inr (.inl ⟨hx, Prod.mk.inj heq⟩)
  · exact .inr (.inr hfollowed)

theorem Explored.step (h : Explored g root s shown) (hmoves : Moves g s s' found) :
    Explored g root s' (shown ++ found.toList) := by
  have hrooted := h.toRooted.step hmoves
  refine ⟨hrooted, ?_⟩
  cases hmoves with
  | leave hstack =>
    intro c hc l d hedge
    rw [Option.toList_none, List.append_nil]
    exact (h.followed c hc l d hedge).imp_left fun hleft ↦ h.toWalk.left_leave hstack hleft
  | @close l' d' es frames i hstack hi =>
    intro c hc l d hedge
    obtain ⟨x, path, hpath, -⟩ := h.toWalk.edge hstack
    obtain ⟨hlength, hle⟩ := h.toWalk.le_length_pathLocks hstack hi
    rcases h.follow hpath hstack hc hedge with hleft | ⟨rfl, rfl, rfl⟩ | ⟨hd, hshown⟩
    · exact .inl hleft
    · exact .inr ⟨h.toRooted.visited_of_position hi, fun _ ↦
        ⟨_, List.mem_append_right shown List.mem_cons_self, shows_closing hpath hlength hle⟩⟩
    · refine .inr ⟨hd, fun hroot ↦ ?_⟩
      obtain ⟨cycle, hcycle, hshows⟩ := hshown hroot
      exact ⟨cycle, List.mem_append_left _ hcycle, hshows⟩
  | @skip l' d' es frames hstack hnone hd' =>
    intro c hc l d hedge
    rw [Option.toList_none, List.append_nil]
    obtain ⟨x, path, hpath, -⟩ := h.toWalk.edge hstack
    rcases h.follow hpath hstack hc hedge with hleft | ⟨rfl, rfl, rfl⟩ | hfollowed
    · exact .inl hleft
    · refine .inr ⟨hd', ?_⟩
      rintro rfl
      exact absurd hnone (h.toRooted.position_root (hpath ▸ List.cons_ne_nil _ _))
    · exact .inr hfollowed
  | @enter l' d' es frames hstack hnone hd' =>
    intro c hc l d hedge
    rw [Option.toList_none, List.append_nil]
    obtain ⟨x, path, hpath, -⟩ := h.toWalk.edge hstack
    rcases Names.mem_add.1 hc with rfl | hc
    · exact .inl ((left_iff rfl rfl).2 (.inl ⟨rfl, WaitForGraph.mem_edges_iff.2 hedge⟩))
    rcases h.follow hpath hstack hc hedge with hleft | ⟨rfl, rfl, rfl⟩ | ⟨hd, hshown⟩
    · exact .inl ((left_iff rfl rfl).2 (.inr hleft))
    · refine .inr ⟨Names.mem_add.2 (.inl rfl), ?_⟩
      rintro rfl
      exact absurd h.root_visited hd'
    · exact .inr ⟨Names.mem_add.2 (.inr hd), hshown⟩

/-- A walk that has left its start has entered every client that can be reached. -/
theorem Explored.visited_of_reaches (h : Explored g root s shown) (hstack : s.stack = [])
    {d : ClientId} (hc : c ∈ s.visited) (hreach : g.Reaches c d) : d ∈ s.visited := by
  induction hreach with
  | refl => exact hc
  | step edge _ ih =>
    rcases h.followed _ hc _ _ edge with ⟨es, hmem, -⟩ | ⟨hd, -⟩
    · rw [hstack, List.zip_nil_right] at hmem
      cases hmem
    · exact ih hd

/-- A walk from the holder of a lock shows every client that waits for the lock and can be
reached. -/
theorem exists_shows_of_edge {l : LockName} (hedge : g.Edge c l root) (hreach : g.Reaches root c) :
    ∃ cycle ∈ (start g root).run g g.moves, cycle.Shows c l := by
  obtain ⟨s', hstack, h⟩ := exists_run (fun _ _ h ↦ h.toRooted) (fun _ _ _ _ h ↦ h.step)
    (explored_start g root) (movesLeft_start_le g root)
  have hc : c ∈ s'.visited := h.visited_of_reaches hstack h.root_visited hreach
  rcases h.followed c hc l root hedge with ⟨es, hmem, -⟩ | ⟨-, hshown⟩
  · rw [hstack, List.zip_nil_right] at hmem
    cases hmem
  · exact hshown rfl

end Search

namespace WaitForGraph

variable {g : WaitForGraph} {clients : List ClientId} {locks : List LockName} {c d : ClientId}
  {l : LockName}

/-- Around a cycle each client is reached from each other one. -/
theorem IsCycle.reaches (h : g.IsCycle clients locks) {i : Nat} (hc : clients[i]? = some c)
    (k : Nat) (hd : clients[(i + k) % clients.length]? = some d) : g.Reaches c d := by
  induction k generalizing i c with
  | zero =>
    obtain ⟨hi, -⟩ := List.getElem?_eq_some_iff.1 hc
    rw [Nat.add_zero, Nat.mod_eq_of_lt hi, hc] at hd
    cases hd
    exact .refl _
  | succ k ih =>
    obtain ⟨hi, -⟩ := List.getElem?_eq_some_iff.1 hc
    have hnext : (i + 1) % clients.length < clients.length := Nat.mod_lt _ (by omega)
    have hedge := h.edge i c _ _ hc (List.getElem?_eq_getElem (h.length_eq ▸ hi))
      (List.getElem?_eq_getElem hnext)
    refine .step hedge (ih (List.getElem?_eq_getElem hnext) ?_)
    rw [Nat.mod_add_mod, Nat.add_assoc, Nat.add_comm 1 k, hd]

/-- **Every deadlocked wait is reported, and no other.** A client `c` waits for the lock `l` of `d`.
It stands with that lock in some report of a scan if and only if it can be reached from `d`. -/
theorem reported_iff_reaches (g : WaitForGraph) (now : Nat) (hedge : g.Edge c l d) :
    (∃ report ∈ g.deadlocks now, ∃ i : Nat,
      report.clients[i]? = some c ∧ report.locks[i]? = some l) ↔ g.Reaches d c := by
  constructor
  · rintro ⟨report, hreport, i, hc, hl⟩
    have h := isCycle_of_mem_deadlocks hreport
    obtain ⟨hi, -⟩ := List.getElem?_eq_some_iff.1 hc
    have hnext : (i + 1) % report.clients.length < report.clients.length :=
      Nat.mod_lt _ (by omega)
    -- The next client around is the holder, and the way from there leads back.
    obtain rfl : report.clients[(i + 1) % report.clients.length] = d := by
      have hedge' := h.edge i c l _ hc hl (List.getElem?_eq_getElem hnext)
      exact Option.some.inj (hedge'.2.symm.trans hedge.2)
    refine h.reaches (List.getElem?_eq_getElem hnext) (report.clients.length - 1) ?_
    have hround : i + 1 + (report.clients.length - 1) = i + report.clients.length := by omega
    rw [Nat.mod_add_mod, hround, Nat.add_mod_right, Nat.mod_eq_of_lt hi, hc]
  · intro hreach
    obtain ⟨cycle, hcycle, hshows⟩ := Search.exists_shows_of_edge hedge hreach
    have hd : d ∈ g.waiters := by
      cases hreach with
      | refl => exact mem_waiters_of_edge hedge
      | step edge _ => exact mem_waiters_of_edge edge
    have h := (Search.walk_start g d).isCycle_of_mem_run _ hcycle
    refine ⟨_, List.mem_map.2 ⟨_, mem_cycles_iff.2 ⟨d, hd, cycle, hcycle, rfl⟩, rfl⟩, ?_⟩
    exact Cycle.shows_iff.1 ((Cycle.shows_normalize h.length_eq).2 hshows)

/-- `a` waits for `b`, which waits for `c` and for `d`; `c` waits for `d`, and `d` for `b`. -/
def bypass : WaitForGraph :=
  let g := ({} : WaitForGraph).addWait "a" "J" |>.addWait "b" "K" |>.addWait "b" "L"
  let g := g.addWait "c" "M" |>.addWait "d" "N"
  g.addHold "J" "b" |>.addHold "K" "c" |>.addHold "L" "d" |>.addHold "M" "d" |>.addHold "N" "b"

/-- Walks from `a` and from `b` come to `d` by way of `c` and follow the edge from `b` to `d` when
they have left `d`, so that they do not show it. It is reported none the less. -/
theorem reported_iff_reaches_bypass :
    (bypass.Edge "b" "L" "d" ∧
      bypass.cyclesFrom bypass.moves "b" = [⟨["b", "c", "d"], ["K", "M", "N"]⟩]) ∧
    ∃ report ∈ bypass.deadlocks 0, ∃ i : Nat,
      report.clients[i]? = some "b" ∧ report.locks[i]? = some "L" := by
  have hedge : bypass.Edge "b" "L" "d" := mem_edges_iff.1 (by decide)
  have hback : bypass.Edge "d" "N" "b" := mem_edges_iff.1 (by decide)
  exact ⟨⟨hedge, by decide⟩, (reported_iff_reaches bypass 0 hedge).2 (.step hback (.refl "b"))⟩

end WaitForGraph

end LeaseLock
