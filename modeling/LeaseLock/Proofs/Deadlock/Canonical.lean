import LeaseLock.Proofs.Deadlock.Walk
import LeaseLock.Proofs.Text.Order

/-!
# Cycles in one form

A cycle can be read from each of its clients. The one form in which it is reported begins with the
smallest client (`Cycle.SmallestFirst`, `Cycle.smallestFirst_normalize`). No client occurs twice on
a cycle, so two cycles of that form are the same as soon as one of them is the other one turned
(`Cycle.eq_of_rotate`).

Together with what a walk finds this says what a report is worth
(`WaitForGraph.isCycle_and_distinct`): it shows a cycle of the graph, in that form, and no other
report of the same scan shows the same cycle, wherever it may begin.

The smallest client is the one whose name comes first byte by byte. That the names are compared as
bytes matters to a reader of the reports and to nothing else here: any order in which different
names are never equal would single out one of the forms.

Two cycles through the same clients over different locks are different cycles, and both may be
reported. What is not said here is that every cycle is found. That is a matter of the walk.
-/

namespace LeaseLock

namespace Cycle

variable {c c' : Cycle} {first least d : ClientId} {others : List ClientId} {k : Nat}

/-! ### The smallest client -/

/-- The smallest of them is one of them. -/
theorem smallest_mem (first : ClientId) (others : List ClientId) :
    smallest first others ∈ first :: others := by
  induction others generalizing first with
  | nil => exact List.mem_cons_self
  | cons d others ih =>
    rw [smallest, List.foldl_cons, ← smallest]
    split
    · exact List.mem_cons_of_mem first (ih d)
    · rcases List.mem_cons.1 (ih first) with h | h
      · rw [h]
        exact List.mem_cons_self
      · exact List.mem_cons_of_mem first (List.mem_cons_of_mem d h)

/-- The smallest of them is not above any of them. -/
theorem smallest_le (hd : d ∈ first :: others) : smallest first others ≤ d := by
  induction others generalizing first d with
  | nil => exact (List.mem_singleton.1 hd).ge
  | cons e others ih =>
    rw [smallest, List.foldl_cons, ← smallest]
    -- What the rest is compared with is the smaller one of the first two.
    generalize hleast : (if e < first then e else first) = least
    have hle : least ≤ first ∧ least ≤ e := by
      split at hleast
      · next hlt => exact hleast ▸ ⟨hlt.le, le_rfl⟩
      · next hge => exact hleast ▸ ⟨le_rfl, not_lt.1 hge⟩
    have hsmallest : smallest least others ≤ least := ih List.mem_cons_self
    rcases List.mem_cons.1 hd with rfl | hd
    · exact hsmallest.trans hle.1
    · rcases List.mem_cons.1 hd with rfl | hd
      · exact hsmallest.trans hle.2
      · exact ih (List.mem_cons_of_mem least hd)

/-! ### One form -/

/-- The first client is the smallest one. -/
def SmallestFirst (c : Cycle) : Prop :=
  ∃ first, c.clients[0]? = some first ∧ ∀ d ∈ c.clients, first ≤ d

/-- What is put into the form is in it. -/
theorem smallestFirst_normalize (h : c.clients ≠ []) : c.normalize.SmallestFirst := by
  rw [normalize]
  split
  · next hnil => exact absurd hnil h
  · next first others hclients =>
    have hmem : smallest first others ∈ c.clients := hclients ▸ smallest_mem first others
    refine ⟨smallest first others, ?_, fun d hd ↦ smallest_le ?_⟩
    · have hlt : c.clients.idxOf (smallest first others) < c.clients.length :=
        List.idxOf_lt_length_iff.2 hmem
      dsimp only
      rw [List.drop_eq_getElem_cons hlt, List.cons_append, List.getElem?_cons_zero,
        List.getElem_idxOf]
    · rw [← hclients]
      rcases List.mem_append.1 hd with hd | hd
      · exact List.mem_of_mem_drop hd
      · exact List.mem_of_mem_take hd

/-- A cycle that begins with its smallest client is turned in one way only. -/
theorem eq_of_rotate (h : c.SmallestFirst) (h' : c'.SmallestFirst) (hnodup : c.clients.Nodup)
    (hlength : c.locks.length = c.clients.length) (hclients : c'.clients = c.clients.rotate k)
    (hlocks : c'.locks = c.locks.rotate k) : c' = c := by
  obtain ⟨first, hfirst, hle⟩ := h
  obtain ⟨first', hfirst', hle'⟩ := h'
  have hpos : 0 < c.clients.length := (List.getElem?_eq_some_iff.1 hfirst).1
  -- Both begin with the same client, which stands at one place.
  obtain rfl : first = first' := by
    refine le_antisymm (hle first' ?_) (hle' first ?_)
    · rw [← List.mem_rotate, ← hclients]
      exact List.mem_of_getElem? hfirst'
    · rw [hclients, List.mem_rotate]
      exact List.mem_of_getElem? hfirst
  have hk : k % c.clients.length = 0 := by
    rw [hclients, List.getElem?_rotate hpos, Nat.zero_add] at hfirst'
    exact (List.getElem?_inj (Nat.mod_lt k hpos) hnodup).1 (hfirst'.trans hfirst.symm)
  have hsame : c'.clients = c.clients ∧ c'.locks = c.locks := by
    rw [hclients, hlocks, ← List.rotate_mod c.clients, ← List.rotate_mod c.locks, hlength, hk,
      List.rotate_zero, List.rotate_zero]
    exact ⟨rfl, rfl⟩
  obtain ⟨clients, locks⟩ := c
  obtain ⟨clients', locks'⟩ := c'
  exact congrArg₂ Cycle.mk hsame.1 hsame.2

end Cycle

namespace WaitForGraph

variable {g : WaitForGraph} {c : Cycle}

/-! ### What is reported -/

/-- A list to which only what is new is added has nothing twice. -/
theorem nodup_foldl_append {cs seen : List Cycle} (h : seen.Nodup) :
    (cs.foldl (fun seen c ↦ if c ∈ seen then seen else seen ++ [c]) seen).Nodup := by
  induction cs generalizing seen with
  | nil => exact h
  | cons c cs ih =>
    rw [List.foldl_cons]
    refine ih ?_
    split
    · exact h
    · next hc =>
      rw [← List.concat_eq_append]
      exact h.concat hc

/-- Each cycle is found once. -/
theorem nodup_cycles (g : WaitForGraph) : g.cycles.Nodup := nodup_foldl_append List.nodup_nil

/-- Whatever is found is in the form. -/
theorem smallestFirst_of_mem_cycles (h : c ∈ g.cycles) : c.SmallestFirst := by
  obtain ⟨client, -, c', hc', rfl⟩ := mem_cycles_iff.1 h
  exact Cycle.smallestFirst_normalize
    ((Search.walk_start g client).isCycle_of_mem_run _ hc').nonempty

/-- **What a report is worth.** Every report of a scan shows a cycle of the graph that meets no
client twice, read from the client that is the smallest one by bytes; and of two reports neither is
the other one read from elsewhere. -/
theorem isCycle_and_distinct (g : WaitForGraph) (now : Nat) :
    (∀ report ∈ g.deadlocks now, g.IsCycle report.clients report.locks ∧
      ∃ first, report.clients[0]? = some first ∧
        ∀ d ∈ report.clients, Text.utf8 first ≤ Text.utf8 d) ∧
    (g.deadlocks now).Pairwise fun report report' ↦
      ∀ k, ¬ (report'.clients = report.clients.rotate k ∧
        report'.locks = report.locks.rotate k) := by
  constructor
  · intro report hreport
    obtain ⟨c, hc, rfl⟩ := List.mem_map.1 hreport
    obtain ⟨first, hfirst, hle⟩ := smallestFirst_of_mem_cycles hc
    exact ⟨isCycle_of_mem_cycles hc, first, hfirst, fun d hd ↦ Text.utf8_le_utf8_iff.2 (hle d hd)⟩
  · rw [deadlocks, List.pairwise_map]
    refine (nodup_cycles g).imp_of_mem fun {c c'} hc hc' hne ↦ ?_
    rintro k ⟨hclients, hlocks⟩
    have hcycle := isCycle_of_mem_cycles hc
    exact hne (Cycle.eq_of_rotate (smallestFirst_of_mem_cycles hc)
      (smallestFirst_of_mem_cycles hc') hcycle.nodup hcycle.length_eq hclients hlocks).symm

/-- Two locks between the same two clients are two cycles, each reported once although it is found
on the walks of both. -/
example :
    let g := ({} : WaitForGraph).addWait "a" "K" |>.addWait "a" "L" |>.addWait "b" "M"
    (g.addHold "K" "b" |>.addHold "L" "b" |>.addHold "M" "a").cycles =
      [⟨["a", "b"], ["K", "M"]⟩, ⟨["a", "b"], ["L", "M"]⟩] := by
  decide

end WaitForGraph

end LeaseLock
