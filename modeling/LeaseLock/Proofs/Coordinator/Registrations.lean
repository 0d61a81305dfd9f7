import Mathlib.Data.List.Count
import Mathlib.Data.List.Induction
import LeaseLock.Proofs.Coordinator.Waiters

/-!
# Registrations of one client for one lock

A registration enters a client among those that wait for a lock when it is made, and takes the entry
out when it is dropped. It is meant to keep the client visible for as long as it is alive.

The registry has sets, though, and registrations do not know of each other. Two acquisitions of the
same lock by the same client make two registrations and one entry; the one that is dropped first
takes the entry out, and the other one is alive and not visible. That is the only way in which a
registration can be hidden: a pair is visible throughout if and only if none of its registrations is
dropped while another one is alive (`Waitlist.visible_iff_dropped_alone`).

## Registrations that are alive

The registry does not know which registrations there are, so they are counted beside it
(`Waitlist`). One is dropped once, because it is gone afterwards. The statement is about one pair of
a lock and a client at a time; registrations of other pairs may come and go between its own, and
neither hide it nor bring it back.
-/

namespace LeaseLock

/-- A registry with the registrations that are alive, of which there may be several for one lock and
client. -/
structure Waitlist where
  /-- The registry. -/
  registry : Registry
  /-- The lock and the client of each registration. -/
  alive : List (LockName × ClientId) := []

/-- What happens to registrations. -/
inductive WaitlistStep where
  /-- A registration is made. -/
  | register (lock : LockName) (client : ClientId)
  /-- A registration is dropped. -/
  | drop (lock : LockName) (client : ClientId)

namespace Waitlist

/-- Make or drop a registration. What is not alive cannot be dropped. -/
def step (s : Waitlist) : WaitlistStep → Waitlist
  | .register lock client => ⟨s.registry.enlist lock client, (lock, client) :: s.alive⟩
  | .drop lock client =>
    if (lock, client) ∈ s.alive then
      ⟨s.registry.dismiss lock client, s.alive.erase (lock, client)⟩
    else s

/-- Make and drop registrations in turn. -/
def run (s : Waitlist) (steps : List WaitlistStep) : Waitlist := steps.foldl step s

variable {s : Waitlist} {lock : LockName} {client : ClientId}

theorem run_concat (s : Waitlist) (past : List WaitlistStep) (a : WaitlistStep) :
    s.run (past ++ [a]) = (s.run past).step a := by
  rw [run, List.foldl_append]
  rfl

/-- The client is listed under the lock if a registration of the two is alive. -/
def Visible (s : Waitlist) (lock : LockName) (client : ClientId) : Prop :=
  (lock, client) ∈ s.alive → s.registry.Waits lock client

/-- The registration that is dropped leaves no other one of its lock and client. -/
def DropsAlone (s : Waitlist) (lock : LockName) (client : ClientId) (a : WaitlistStep) : Prop :=
  a = .drop lock client → s.alive.count (lock, client) ≤ 1

theorem Visible.step (h : s.Visible lock client) {a : WaitlistStep}
    (ha : s.DropsAlone lock client a) : (s.step a).Visible lock client := by
  cases a with
  | register lock' client' =>
    intro halive
    show (s.registry.enlist lock' client').Waits lock client
    rw [Registry.waits_enlist]
    rcases List.mem_cons.1 halive with heq | hold
    · exact .inl (Prod.mk.inj heq)
    · exact .inr (h hold)
  | drop lock' client' =>
    rw [Waitlist.step]
    split
    · intro halive
      show (s.registry.dismiss lock' client').Waits lock client
      refine Registry.waits_dismiss.2 ⟨h (List.mem_of_mem_erase halive), ?_⟩
      rintro ⟨rfl, rfl⟩
      -- Another registration of the pair would be alive behind this drop.
      have hcount : s.alive.count (lock, client) ≤ 1 := ha rfl
      have hleft : 0 < (s.alive.erase (lock, client)).count (lock, client) :=
        List.count_pos_iff.2 halive
      rw [List.count_erase_self] at hleft
      omega
    · exact h

/-- A drop hides the other registrations of its lock and client. -/
theorem dropsAlone_of_visible_step {a : WaitlistStep} (h : (s.step a).Visible lock client) :
    s.DropsAlone lock client a := by
  rintro rfl
  by_contra hcount
  have hmem : (lock, client) ∈ s.alive := List.count_pos_iff.1 (by omega)
  rw [Waitlist.step, if_pos hmem] at h
  have halive : (lock, client) ∈ s.alive.erase (lock, client) := by
    rw [← List.count_pos_iff, List.count_erase_self]
    omega
  exact (Registry.waits_dismiss.1 (h halive)).2 ⟨rfl, rfl⟩

/-- **When a waiting client stays visible.** Whatever registrations are made and dropped over a
registry, those of a client for a lock are visible for as long as they are alive if and only if none
of them is dropped while another one of them is alive. -/
theorem visible_iff_dropped_alone (r : Registry) (steps : List WaitlistStep) (lock : LockName)
    (client : ClientId) :
    (∀ past, past <+: steps → (run { registry := r } past).Visible lock client) ↔
      ∀ past a later, steps = past ++ a :: later →
        (run { registry := r } past).DropsAlone lock client a := by
  constructor
  · rintro hvisible past a later rfl
    have hstep := hvisible (past ++ [a]) ⟨later, by simp⟩
    rw [run_concat] at hstep
    exact dropsAlone_of_visible_step hstep
  · intro halone past hpast
    induction past using List.reverseRecOn with
    | nil =>
      intro hmem
      cases hmem
    | append_singleton past a ih =>
      obtain ⟨later, rfl⟩ := hpast
      rw [run_concat]
      exact (ih ⟨a :: later, by simp⟩).step (halone past a later (by simp))

/-- A client asks for a lock twice, and one of its registrations is dropped. -/
def twice : List WaitlistStep := [.register "L" "c", .register "L" "c", .drop "L" "c"]

/-- The registration that is left is alive, and the registry lists nobody. -/
theorem hidden_twice :
    ("L", "c") ∈ (run { registry := {} } twice).alive ∧
      (run { registry := {} } twice).registry.waiters = [] ∧
      ¬ (run { registry := {} } twice).Visible "L" "c" := by
  have halive : ("L", "c") ∈ (run { registry := {} } twice).alive := List.mem_cons_self
  have hnobody : (run { registry := {} } twice).registry.waiters = [] := rfl
  refine ⟨halive, hnobody, fun hvisible ↦ ?_⟩
  obtain ⟨clients, hmem, -⟩ := hvisible halive
  rw [hnobody] at hmem
  cases hmem

end Waitlist

end LeaseLock
