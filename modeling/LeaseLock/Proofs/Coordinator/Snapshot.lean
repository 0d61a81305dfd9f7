import LeaseLock.Proofs.Coordinator.Waiters

/-!
# Snapshots of a registry

The wait-for graph of a registry is drawn client by client and lease by lease, in whatever order
these come. The clients may come in any order, since the graph has sets of locks. The leases may if
no two of them give a lock to different holders; otherwise the last one would count. So the graph is
determined by what there is (`Registry.graphOf_congr`): it has the waits that are drawn, and a lock
is held by the holder of its unexpired lease (`Registry.get?_holders_graphOf`).

The clients that wait are counted set by set, which gives the number of pairs of a lock and a client
that are listed (`Registry.waitingClients_eq`).

Leases that have expired are left out when the graph is drawn and not before, so a snapshot is taken
at an instant, and a later one of the same registry may have fewer edges. Graphs are compared as
maps, with no client that waits for nothing: two that draw the same waits are then equal and not
only alike.
-/

namespace LeaseLock

variable {d d' : Dict Names} {k x : String}

theorem Names.ext {s s' : Names} (h : ∀ x, x ∈ s ↔ x ∈ s') : s = s' := by
  refine Dict.ext_get? fun x ↦ ?_
  have hsome : (s.get? x).isSome = (s'.get? x).isSome := Bool.eq_iff_iff.2 (h x)
  cases hx : s.get? x <;> cases hx' : s'.get? x <;> simp_all

/-- Two maps without empty sets are equal if they have the same members. -/
theorem NoneEmpty.eq_of_linked_iff (h : NoneEmpty d) (h' : NoneEmpty d')
    (hlinked : ∀ k x, Linked d k x ↔ Linked d' k x) : d = d' := by
  -- A set of one map is not empty, so the other map has a set with the same members.
  have hget {d d' : Dict Names} (h : NoneEmpty d) (hlinked : ∀ k x, Linked d k x ↔ Linked d' k x)
      (k : String) (s : Names) (hs : d.get? k = some s) : d'.get? k = some s := by
    obtain ⟨x, hx⟩ := h k s hs
    obtain ⟨s', hs', -⟩ := (hlinked k x).1 ⟨s, hs, hx⟩
    have hsame : s = s' := by
      refine Names.ext fun y ↦ ?_
      have hy := hlinked k y
      simpa [Linked, hs, hs'] using hy
    rw [hs', hsame]
  refine Dict.ext_get? fun k ↦ ?_
  cases hk : d.get? k with
  | some s => exact (hget h hlinked k s hk).symm
  | none =>
    cases hk' : d'.get? k with
    | none => rfl
    | some s =>
      have hback := hget h' (fun k x ↦ (hlinked k x).symm) k s hk'
      rw [hk] at hback
      cases hback

theorem WaitForGraph.ext {g g' : WaitForGraph} (hwants : g.wants = g'.wants)
    (hholders : g.holders = g'.holders) : g = g' := by
  cases g
  cases g'
  cases hwants
  cases hholders
  rfl

namespace Registry

variable {r : Registry} {waits waits' : List (ClientId × LockName)} {ls ls' : List Lease}
  {lock : LockName} {client : ClientId} {now : Nat} {g : WaitForGraph}

/-! ### Who waits -/

/-- The locks that are waited for and the clients that wait for them, pair by pair. -/
def waitPairs (r : Registry) : List (ClientId × LockName) :=
  r.waiters.flatMap fun (lock, clients) ↦ clients.map fun client ↦ (client, lock)

/-- No pair is listed twice. -/
theorem nodup_waitPairs (r : Registry) : r.waitPairs.Nodup := by
  rw [waitPairs, waiters, List.nodup_iff_pairwise_ne, List.pairwise_flatMap, List.pairwise_map]
  constructor
  · rintro _ hmem
    obtain ⟨⟨lock, s⟩, -, rfl⟩ := List.mem_map.1 hmem
    refine List.pairwise_map.2 ((Dict.nodup_keys s).imp fun hne heq ↦ hne ?_)
    exact (Prod.mk.inj heq).1
  · refine r.waiting.ordered.imp fun {e e'} hlt w hw w' hw' heq ↦ ?_
    obtain ⟨client, -, rfl⟩ := List.mem_map.1 hw
    obtain ⟨client', -, rfl⟩ := List.mem_map.1 hw'
    have hlock : e.1 = e'.1 := (Prod.mk.inj heq).2
    exact String.lt_irrefl _ (hlock ▸ hlt)

/-- The clients that wait are counted once for each lock that they wait for. -/
theorem waitingClients_eq (r : Registry) : r.stats.waitingClients = r.waitPairs.length := by
  rw [stats, waitPairs, waiters, Dict.values]
  dsimp only
  induction r.waiting.entries with
  | nil => rfl
  | cons e es ih =>
    rw [List.map_cons, List.foldr_cons, ih, List.map_cons, List.flatMap_cons, List.length_append,
      List.length_map, Names.toList, Dict.keys, List.length_map]
    rfl

/-! ### The graph -/

/-- The wait-for graph that is drawn of the given waits and leases, in the order in which they are
given. -/
def graphOf (waits : List (ClientId × LockName)) (leases : List Lease) (now : Nat) :
    WaitForGraph :=
  (leases.filter fun l ↦ !l.isExpired now).foldl (fun g l ↦ g.addHold l.lock l.holder)
    (waits.foldl (fun g (client, lock) ↦ g.addWait client lock) {})

/-- The graph of a registry is drawn from what it lists. -/
theorem waitForGraph_eq_graphOf (r : Registry) (now : Nat) :
    r.waitForGraph now = graphOf r.waitPairs (r.granted.values.map (·.lease)) now := by
  rw [waitForGraph, graphOf, waitPairs, waiters, List.flatMap_map]

/-- The locks that a client of the graph wants are those of its waits. -/
theorem linked_wants_graphOf :
    Linked (graphOf waits ls now).wants client lock ↔ (client, lock) ∈ waits := by
  rw [graphOf, foldl_addHold_wants, linked_wants_foldl_addWait, or_iff_left not_linked_empty]

/-- Drawing a wait leaves no client without one. -/
theorem noneEmpty_wants_foldl {waits : List (ClientId × LockName)} (h : NoneEmpty g.wants) :
    NoneEmpty (waits.foldl (fun g (client, lock) ↦ g.addWait client lock) g).wants := by
  induction waits generalizing g with
  | nil => exact h
  | cons w waits ih => exact ih (noneEmpty_link h)

/-- Whoever is in the graph waits for something. -/
theorem noneEmpty_wants_graphOf : NoneEmpty (graphOf waits ls now).wants := by
  rw [graphOf, foldl_addHold_wants]
  exact noneEmpty_wants_foldl noneEmpty_empty

/-- The lock of a lease that is drawn has a holder. -/
theorem isSome_holders_foldl {ls : List Lease}
    (h : (∃ l ∈ ls, l.lock = lock) ∨ (g.holders.get? lock).isSome) :
    ((ls.foldl (fun g l ↦ g.addHold l.lock l.holder) g).holders.get? lock).isSome := by
  induction ls generalizing g with
  | nil => exact h.resolve_left fun ⟨_, hl, _⟩ ↦ List.not_mem_nil hl
  | cons l ls ih =>
    rw [List.foldl_cons]
    refine ih ?_
    have hfirst : (g.addHold l.lock l.holder).holders.get? lock =
        if lock = l.lock then some l.holder else g.holders.get? lock := Dict.get?_insert ..
    rw [hfirst]
    rcases h with ⟨l', hl', hlock⟩ | hsome
    · rcases List.mem_cons.1 hl' with rfl | hl'
      · rw [if_pos hlock.symm]
        exact .inr rfl
      · exact .inl ⟨l', hl', hlock⟩
    · split
      · exact .inr rfl
      · exact .inr hsome

/-- A lock is held by the holder of its unexpired lease. -/
theorem get?_holders_graphOf
    (hone : ∀ l ∈ ls, ∀ l' ∈ ls, l.lock = l'.lock → l.holder = l'.holder) :
    (graphOf waits ls now).holders.get? lock = some client ↔
      ∃ l ∈ ls, l.isExpired now = false ∧ l.lock = lock ∧ l.holder = client := by
  have hdrawn {client : ClientId}
      (h : (graphOf waits ls now).holders.get? lock = some client) :
      ∃ l ∈ ls, l.isExpired now = false ∧ l.lock = lock ∧ l.holder = client := by
    rcases exists_of_foldl_addHold h with ⟨l, hl, hlock, hclient⟩ | hnone
    · obtain ⟨hl, hlive⟩ := List.mem_filter.1 hl
      exact ⟨l, hl, by simpa using hlive, hlock, hclient⟩
    · rw [foldl_addWait_holders] at hnone
      cases hnone
  refine ⟨hdrawn, ?_⟩
  rintro ⟨l, hl, hlive, hlock, rfl⟩
  have hsome : ((graphOf waits ls now).holders.get? lock).isSome :=
    isSome_holders_foldl (.inl ⟨l, List.mem_filter.2 ⟨hl, by simp [hlive]⟩, hlock⟩)
  obtain ⟨client, hclient⟩ := Option.isSome_iff_exists.1 hsome
  obtain ⟨l', hl', -, hlock', rfl⟩ := hdrawn hclient
  rw [hclient, hone l hl l' hl' (hlock.trans hlock'.symm)]

/-- **The order does not matter.** The graph is the same for the same waits and leases. -/
theorem graphOf_congr (hwaits : ∀ w, w ∈ waits ↔ w ∈ waits') (hls : ∀ l, l ∈ ls ↔ l ∈ ls')
    (hone : ∀ l ∈ ls, ∀ l' ∈ ls, l.lock = l'.lock → l.holder = l'.holder) :
    graphOf waits ls now = graphOf waits' ls' now := by
  have hone' : ∀ l ∈ ls', ∀ l' ∈ ls', l.lock = l'.lock → l.holder = l'.holder :=
    fun l hl l' hl' ↦ hone l ((hls l).2 hl) l' ((hls l').2 hl')
  have hwants : (graphOf waits ls now).wants = (graphOf waits' ls' now).wants :=
    noneEmpty_wants_graphOf.eq_of_linked_iff noneEmpty_wants_graphOf fun client lock ↦ by
      rw [linked_wants_graphOf, linked_wants_graphOf, hwaits]
  have hholders : (graphOf waits ls now).holders = (graphOf waits' ls' now).holders := by
    refine Dict.ext_get? fun lock ↦ Option.ext fun client ↦ ?_
    rw [get?_holders_graphOf hone, get?_holders_graphOf hone']
    simp only [hls]
  exact WaitForGraph.ext hwants hholders

end Registry

end LeaseLock
