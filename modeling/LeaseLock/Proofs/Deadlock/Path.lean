import Mathlib.Data.List.Lex
import Mathlib.Data.List.Nodup
import Mathlib.Data.String.Basic
import LeaseLock.Deadlock.Graph

/-!
# First paths

A path through a wait-for graph leads along edges and meets no client twice
(`WaitForGraph.IsPath`). Its first client and its locks settle the rest of it, since a lock has one
holder. Of the paths between two clients one comes first when they are compared lock by lock from
the start on (`WaitForGraph.IsFirstPath`).

A path comes first if there is no way around: from no client of the path does an edge with a smaller
lock than the one that the path takes lead to a later client without coming back to the path so far
(`WaitForGraph.Foremost`). This is what a walk knows that takes the edges of each client in the
order of their locks; no path has to be compared with any other one.

## Comparing paths

Paths are compared as lists of locks. Two paths from one client along the same locks are the same,
so a first path is the only one (`WaitForGraph.IsFirstPath.unique`). Of two different paths with the
same ends neither is the beginning of the other one, as the last client would be on the longer one
twice. They part at some client, and the lock that they take there decides.

A first path between two clients exists whenever there is a path, as paths meet no client twice and
are finitely many. That is not needed here: a walk provides the paths, and what is shown is that
they come first.
-/

namespace LeaseLock

namespace WaitForGraph

variable {g : WaitForGraph} {clients clients' ps qs : List ClientId} {locks locks' : List LockName}
  {a b c d v : ClientId} {l l' : LockName} {i j : Nat}

/-! ### Paths -/

/-- The clients and the locks, of which each client waits for the one beside it and the next client
holds it, are a path that meets no client twice. -/
structure IsPath (g : WaitForGraph) (clients : List ClientId) (locks : List LockName) : Prop where
  /-- No client occurs twice. -/
  nodup : clients.Nodup
  /-- Every client but the last one has its lock. -/
  length_eq : clients.length = locks.length + 1
  /-- Every client waits for its lock, which the next client holds. -/
  edge : ∀ i c l d, clients[i]? = some c → locks[i]? = some l → clients[i + 1]? = some d →
    g.Edge c l d

/-- Among the paths with the same first and last clients this one comes first. -/
structure IsFirstPath (g : WaitForGraph) (clients : List ClientId) (locks : List LockName) : Prop
    extends IsPath g clients locks where
  /-- The locks of any other path come later. -/
  least : ∀ clients' locks', g.IsPath clients' locks' → clients'.head? = clients.head? →
    clients'.getLast? = clients.getLast? → locks ≤ locks'

/-- A lock has one holder. -/
theorem Edge.holder_unique (h : g.Edge c l d) (h' : g.Edge a l b) : d = b :=
  Option.some.inj (h.2.symm.trans h'.2)

theorem IsPath.getLast?_eq (h : g.IsPath clients locks) :
    clients.getLast? = clients[locks.length]? := by
  rw [List.getLast?_eq_getElem?, h.length_eq, Nat.add_sub_cancel]

theorem IsPath.not_mem_take (h : g.IsPath clients locks) (hij : i ≤ j)
    (hc : clients[j]? = some c) : c ∉ clients.take i := by
  obtain ⟨hlt, rfl⟩ := List.getElem?_eq_some_iff.1 hc
  have hmem : clients[j] ∈ clients.drop j := List.drop_eq_getElem_cons hlt ▸ List.mem_cons_self
  exact fun hin ↦ List.disjoint_take_drop h.nodup hij hin hmem

/-- Two paths from one client go together for as long as their locks do. -/
theorem IsPath.getElem?_eq (h : g.IsPath clients locks) (h' : g.IsPath clients' locks')
    (hhead : clients'.head? = clients.head?) {n : Nat} (hn : n ≤ locks.length)
    (hlocks : ∀ j < n, locks'[j]? = locks[j]?) (hj : j ≤ n) : clients'[j]? = clients[j]? := by
  induction j with
  | zero => rw [← List.head?_eq_getElem?, hhead, List.head?_eq_getElem?]
  | succ j ih =>
    have hlength := h.length_eq
    have hlength' := h'.length_eq
    have hl := List.getElem?_eq_getElem (l := locks) (i := j) (by omega)
    have hc := List.getElem?_eq_getElem (l := clients) (i := j) (by omega)
    have hd := List.getElem?_eq_getElem (l := clients) (i := j + 1) (by omega)
    have hl' := (hlocks j (by omega)).trans hl
    have hlt : j < locks'.length := (List.getElem?_eq_some_iff.1 hl').1
    have hd' := List.getElem?_eq_getElem (l := clients') (i := j + 1) (by omega)
    have hedge := h.edge j _ _ _ hc hl hd
    have hedge' := h'.edge j _ _ _ ((ih (by omega)).trans hc) hl' hd'
    rw [hd, hd', hedge.holder_unique hedge']

/-- First paths with the same ends are the same. -/
theorem IsFirstPath.unique (h : g.IsFirstPath clients locks) (h' : g.IsFirstPath clients' locks')
    (hhead : clients'.head? = clients.head?) (hlast : clients'.getLast? = clients.getLast?) :
    clients' = clients ∧ locks' = locks := by
  have hlocks : locks' = locks :=
    le_antisymm (h'.least clients locks h.toIsPath hhead.symm hlast.symm)
      (h.least clients' locks' h'.toIsPath hhead hlast)
  subst hlocks
  refine ⟨List.ext_getElem? fun j ↦ ?_, rfl⟩
  by_cases hj : j ≤ locks'.length
  · exact h.toIsPath.getElem?_eq h'.toIsPath hhead le_rfl (fun _ _ ↦ rfl) hj
  · have hlength := h.length_eq
    have hlength' := h'.length_eq
    rw [List.getElem?_eq_none (by omega), List.getElem?_eq_none (by omega)]

/-! ### Ways around -/

/-- Edges lead from the first client to the second one without meeting any of `ps`. -/
inductive ReachesOff (g : WaitForGraph) (ps : List ClientId) : ClientId → ClientId → Prop where
  /-- In no step. -/
  | refl {c : ClientId} (hc : c ∉ ps) : ReachesOff g ps c c
  /-- In one step more. -/
  | step {c d e : ClientId} {l : LockName} (hc : c ∉ ps) (edge : g.Edge c l d)
      (path : ReachesOff g ps d e) : ReachesOff g ps c e

theorem ReachesOff.reaches (h : g.ReachesOff ps a b) : g.Reaches a b := by
  induction h with
  | refl => exact .refl _
  | step _ edge _ ih => exact .step edge ih

/-- What cannot be reached is not met. -/
theorem ReachesOff.append (h : g.ReachesOff ps a b) (hqs : ∀ q ∈ qs, ¬ g.ReachesOff ps a q) :
    g.ReachesOff (ps ++ qs) a b := by
  have hoff {c : ClientId} (hc : c ∉ ps) (hqs : ∀ q ∈ qs, ¬ g.ReachesOff ps c q) :
      c ∉ ps ++ qs := by
    rw [List.mem_append, not_or]
    exact ⟨hc, fun hmem ↦ hqs c hmem (.refl hc)⟩
  induction h with
  | refl hc => exact .refl (hoff hc hqs)
  | step hc edge path ih =>
    exact .step (hoff hc hqs) edge (ih fun q hq hpath ↦ hqs q hq (.step hc edge hpath))

/-- A path leads on to its end without meeting what is behind. -/
theorem IsPath.reachesOff (h : g.IsPath clients locks) (hij : i ≤ j) (hc : clients[j]? = some c)
    (hv : clients.getLast? = some v) : g.ReachesOff (clients.take i) c v := by
  have hlength := h.length_eq
  obtain ⟨n, hn⟩ : ∃ n, j + n = locks.length := by
    have hlt := (List.getElem?_eq_some_iff.1 hc).1
    exact ⟨locks.length - j, by omega⟩
  induction n generalizing j c with
  | zero =>
    rw [h.getLast?_eq, ← hn, Nat.add_zero, hc] at hv
    cases hv
    exact .refl (h.not_mem_take hij hc)
  | succ n ih =>
    have hd := List.getElem?_eq_getElem (l := clients) (i := j + 1) (by omega)
    have hedge := h.edge j c _ _ hc (List.getElem?_eq_getElem (by omega)) hd
    exact .step (h.not_mem_take hij hc) hedge (ih (by omega) hd (by omega))

/-- The end of a path can be reached from its first client. -/
theorem IsPath.reaches (h : g.IsPath clients locks) (hc : clients.head? = some c)
    (hv : clients.getLast? = some v) : g.Reaches c v := by
  rw [List.head?_eq_getElem?] at hc
  exact (h.reachesOff (le_refl 0) hc hv).reaches

/-- From no client of the path is there a way around to a later client that begins with a smaller
lock than the one of the path. -/
def Foremost (g : WaitForGraph) (clients : List ClientId) (locks : List LockName) : Prop :=
  ∀ i j c l l' d v, clients[i]? = some c → locks[i]? = some l → l' < l → g.Edge c l' d → i < j →
    clients[j]? = some v → ¬ g.ReachesOff (clients.take (i + 1)) d v

theorem Foremost.of_isPrefix (h : g.Foremost clients' locks') (hclients : clients <+: clients')
    (hlocks : locks <+: locks') : g.Foremost clients locks := by
  intro i j c l l' d v hc hl hlt hedge hij hv
  have hlength := (List.getElem?_eq_some_iff.1 hv).1
  obtain ⟨more, rfl⟩ := hclients
  obtain ⟨more', rfl⟩ := hlocks
  have htake : (clients ++ more).take (i + 1) = clients.take (i + 1) :=
    List.take_append_of_le_length (by omega)
  rw [← htake]
  refine h i j c l l' d v ?_ ?_ hlt hedge hij ?_
  · rw [List.getElem?_append_left (by omega), hc]
  · rw [List.getElem?_append_left (List.getElem?_eq_some_iff.1 hl).1, hl]
  · rw [List.getElem?_append_left hlength, hv]

/-- **Where there is no way around, a path comes first.** Another path leaves it at some client. If
the lock there is smaller, the rest of the other path is a way around. -/
theorem Foremost.isFirstPath (hfore : g.Foremost clients locks) (h : g.IsPath clients locks) :
    g.IsFirstPath clients locks := by
  refine ⟨h, fun clients' locks' h' hhead hlast ↦ not_lt.1 fun hless ↦ ?_⟩
  have hlength := h.length_eq
  have hlength' := h'.length_eq
  obtain ⟨hinit, hshort⟩ | ⟨i, hi', hi, hsame, hsmaller⟩ := List.lt_iff_exists.1 hless
  · -- The other path would end where this one goes on, and at its end.
    have hlocks : ∀ j < locks'.length, locks'[j]? = locks[j]? := fun j hj ↦ by
      rw [hinit, List.getElem?_take_of_lt hj]
    have hthere := h.getElem?_eq h' hhead hshort.le hlocks le_rfl
    rw [← h'.getLast?_eq, hlast, h.getLast?_eq] at hthere
    have := (List.getElem?_inj (by omega) h.nodup).1 hthere
    omega
  · have hlocks : ∀ j < i, locks'[j]? = locks[j]? := fun j hj ↦ by
      rw [List.getElem?_eq_getElem (by omega), List.getElem?_eq_getElem (by omega), hsame j hj]
    have htogether (j : Nat) (hj : j ≤ i) : clients'[j]? = clients[j]? :=
      h.getElem?_eq h' hhead hi.le hlocks hj
    have htake : clients'.take (i + 1) = clients.take (i + 1) := by
      refine List.ext_getElem? fun j ↦ ?_
      rw [List.getElem?_take, List.getElem?_take]
      split
      · next hj => exact htogether j (by omega)
      · rfl
    have hc := List.getElem?_eq_getElem (l := clients) (i := i) (by omega)
    have hd := List.getElem?_eq_getElem (l := clients') (i := i + 1) (by omega)
    have hv := List.getElem?_eq_getElem (l := clients) (i := locks.length) (by omega)
    have hedge := h'.edge i _ _ _ ((htogether i le_rfl).trans hc) (List.getElem?_eq_getElem hi') hd
    have hround := h'.reachesOff (le_refl (i + 1)) hd (hlast.trans (h.getLast?_eq.trans hv))
    rw [htake] at hround
    exact hfore i locks.length _ _ _ _ _ hc (List.getElem?_eq_getElem hi) hsmaller hedge hi hv
      hround

end WaitForGraph

end LeaseLock
