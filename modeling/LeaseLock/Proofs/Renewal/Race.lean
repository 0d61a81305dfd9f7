import Mathlib.Logic.Function.Basic
import LeaseLock.Proofs.Coordinator.Leases
import LeaseLock.Proofs.Store.Rows

/-!
# Renewals that are under way together

A renewal is three steps: it reads the registry and computes where the lease is to end, it extends
the key in the store, and it notes the new end in the registry. Nothing is held between the steps,
so the steps of several renewals of one lease can come in any order (`Race`). Three steps in a row
are a renewal (`Race.run_read_extend_note`).

A schedule is an order of steps in which every renewal that begins comes to its end, and in which no
time passes between the reading of a renewal and its extension. Where time does pass there, a single
renewal is enough to set the store ahead of the registry (`Race.row?_of_delayed`). A schedule is
sound if it keeps what single renewals keep: whenever no renewal is under way the registry and the
store agree on the end of the lease, and no step moves the end in the store back.

## Phases and stages

How far a renewal has come is its stage, which has the target that it aims at. How far it should
have come by the steps that were made is its phase, which is read off the schedule alone. The two
differ for a renewal that was turned away: it has no target, and its later steps do nothing. A
schedule is judged by its phases, so it does not depend on what the store has answered.

The renewals of a race are named by a type of their own. They are all of one lease, because
renewals of different leases share neither a row nor an entry of the registry.
-/

namespace LeaseLock

/-- A step of the renewals of a lease, which are named by `κ`, or time that passes. -/
inductive RaceStep (κ : Type) where
  /-- The renewal reads the registry. -/
  | read (k : κ)
  /-- The renewal extends the key. -/
  | extend (k : κ)
  /-- The renewal notes the new end. -/
  | note (k : κ)
  /-- Time passes. -/
  | elapse (millis : Nat)

/-- How far a renewal has come. -/
inductive Stage where
  /-- It is not under way. -/
  | idle
  /-- It has read the registry and aims at `target`, which is `length` away. -/
  | aiming (target : Nat) (length : Duration)
  /-- It has extended the key. -/
  | extended (target : Nat)

/-- The instant at which a renewal aims that is under way. -/
def Stage.target? : Stage → Option Nat
  | idle => none
  | aiming target _ => some target
  | extended target => some target

/-- Renewals of a lease that are under way at the same time. -/
structure Race (κ : Type) where
  /-- The coordinator. -/
  coordinator : Coordinator
  /-- The store. -/
  store : Store
  /-- The time. -/
  now : Nat
  /-- How far each renewal has come. -/
  stage : κ → Stage

namespace Race

variable {κ : Type} [DecidableEq κ]

/-- The race with the renewal `k` at another stage. -/
def move (s : Race κ) (k : κ) (g : Stage) : Race κ :=
  { s with stage := Function.update s.stage k g }

section Steps

variable (lock : LockName) (id : LeaseId) (extension : κ → Option Duration)

/-- One step. A renewal that the store turns away is over. -/
def step (s : Race κ) : RaceStep κ → Race κ
  | .read k =>
    match s.stage k with
    | .idle =>
      let target := s.coordinator.renewalEnd s.now id (extension k)
      s.move k (.aiming target (.ofMillis (target - s.now)))
    | _ => s
  | .extend k =>
    match s.stage k with
    | .aiming target length =>
      match s.store.extend s.now lock id length with
      | .ok (true, store) => { s.move k (.extended target) with store }
      | .ok (false, store) => { s.move k .idle with store }
      | .error _ => s.move k .idle
    | _ => s
  | .note k =>
    match s.stage k with
    | .extended target =>
      { s.move k .idle with coordinator := (s.coordinator.noteRenewal id target).2 }
    | _ => s
  | .elapse millis => { s with now := s.now + millis }

/-- Steps one after another. -/
def run (s : Race κ) (steps : List (RaceStep κ)) : Race κ :=
  steps.foldl (step lock id extension) s

/-- The registry and the store know the lease and agree on its end. -/
def Agrees (s : Race κ) : Prop :=
  ∃ l, s.coordinator.registry.lease? id = some l ∧ s.store.row? lock = some ⟨id, l.expiresAt⟩

/-- No renewal is under way. -/
def Quiet (s : Race κ) : Prop := ∀ k, s.stage k = .idle

/-- What is expected of renewals that overlap. -/
structure Sound (s : Race κ) (steps : List (RaceStep κ)) : Prop where
  /-- Whenever no renewal is under way, registry and store agree. -/
  agrees : ∀ past, past <+: steps → (s.run lock id extension past).Quiet →
    (s.run lock id extension past).Agrees lock id
  /-- The end in the store never moves back. -/
  forward : ∀ past a, past ++ [a] <+: steps → ∀ x,
    (s.run lock id extension past).store.row? lock = some ⟨id, x⟩ →
    ∃ y, (s.run lock id extension (past ++ [a])).store.row? lock = some ⟨id, y⟩ ∧ x ≤ y

/-- No renewal aims beyond the range of machine words. -/
def Fits (s : Race κ) (steps : List (RaceStep κ)) : Prop :=
  ∀ past, past <+: steps → ∀ k target length,
    (s.run lock id extension past).stage k = .aiming target length → target < wordBound

end Steps

/-! ### Schedules -/

/-- The next step of a renewal. -/
inductive Phase where
  /-- To read the registry. -/
  | reading
  /-- To extend the key. -/
  | extending
  /-- To note the new end. -/
  | noting
deriving DecidableEq

/-- The next steps of the renewals after a step. -/
def phaseAfter (p : κ → Phase) : RaceStep κ → κ → Phase
  | .read k => Function.update p k .extending
  | .extend k => Function.update p k .noting
  | .note k => Function.update p k .reading
  | .elapse _ => p

/-- The next steps of the renewals after some steps. -/
def phases (steps : List (RaceStep κ)) : κ → Phase :=
  steps.foldl phaseAfter fun _ ↦ .reading

/-- Whether a step is the next one of its renewal. Time does not pass while a renewal that has read
the registry has not extended the key. -/
def Allowed (p : κ → Phase) : RaceStep κ → Prop
  | .read k => p k = .reading
  | .extend k => p k = .extending
  | .note k => p k = .noting
  | .elapse _ => ∀ k, p k ≠ .extending

/-- An order of the steps of renewals. -/
structure Schedule (steps : List (RaceStep κ)) : Prop where
  /-- The steps of a renewal come in their order, and no time passes between the first two. -/
  order : ∀ past a, past ++ [a] <+: steps → Allowed (phases past) a
  /-- Every renewal comes to its end. -/
  complete : ∀ k, phases steps k = .reading

/-- A renewal begins only when no other is under way. -/
def Serial (steps : List (RaceStep κ)) : Prop :=
  ∀ past k, past ++ [.read k] <+: steps → ∀ j, phases past j = .reading

omit [DecidableEq κ] in
/-- The time that passes in the steps. -/
def elapsed : List (RaceStep κ) → Nat
  | [] => 0
  | .elapse millis :: steps => millis + elapsed steps
  | _ :: steps => elapsed steps

theorem phases_append (past : List (RaceStep κ)) (a : RaceStep κ) :
    phases (past ++ [a]) = phaseAfter (phases past) a := by
  rw [phases, List.foldl_append]
  rfl

omit [DecidableEq κ] in
/-- The beginnings of a list that go on are its first so many members, each with the next one. -/
theorem of_prefix_of_take {α : Type} {P : List α → α → Prop} {xs : List α}
    (h : ∀ i (hi : i < xs.length), P (xs.take i) xs[i]) (past : List α) (a : α)
    (hpast : past ++ [a] <+: xs) : P past a := by
  obtain ⟨later, rfl⟩ := hpast
  have hlt : past.length < (past ++ [a] ++ later).length := by simp
  simpa using h past.length hlt

/-! ### Renewals on their own -/

section Single

variable {lock : LockName} {id : LeaseId} {extension : κ → Option Duration} {s : Race κ} {l : Lease}
  {k : κ}

theorem run_append (s : Race κ) (past : List (RaceStep κ)) (a : RaceStep κ) :
    s.run lock id extension (past ++ [a]) =
      (s.run lock id extension past).step lock id extension a := by
  rw [run, List.foldl_append]
  rfl

theorem stage_move (s : Race κ) (j k : κ) (g : Stage) :
    (s.move k g).stage j = if j = k then g else s.stage j :=
  Function.update_apply s.stage k g j

/-- The three steps of a renewal in a row are a renewal. -/
theorem run_read_extend_note (h : s.stage k = .idle) :
    s.run lock id extension [.read k, .extend k, .note k] =
      { s with
        coordinator := (s.coordinator.renew s.store s.now lock id (extension k)).coordinator
        store := (s.coordinator.renew s.store s.now lock id (extension k)).store } := by
  rw [Coordinator.renew]
  cases hextend : s.store.extend s.now lock id
      (.ofMillis (s.coordinator.renewalEnd s.now id (extension k) - s.now)) with
  | error fault => simp [run, step, move, h, hextend]
  | ok r =>
    obtain ⟨b, store⟩ := r
    cases b <;> simp [run, step, move, h, hextend]

/-- A renewal that extends the key only after some time has passed leaves the store ahead of the
registry by that time: it extends the key by a length, and the length was computed before. -/
theorem row?_of_delayed {millis : Nat} (h : s.stage k = .idle) (hping : s.store.ping = .ok ())
    (hlease : s.coordinator.registry.lease? id = some l)
    (hrow : s.store.row? lock = some ⟨id, l.expiresAt⟩) (hlive : s.now + millis < l.expiresAt)
    (hfits : s.coordinator.renewalEnd s.now id (extension k) + millis < signedBound) :
    ∃ l', (s.run lock id extension
        [.read k, .elapse millis, .extend k, .note k]).coordinator.registry.lease? id = some l' ∧
      (s.run lock id extension
        [.read k, .elapse millis, .extend k, .note k]).store.row? lock =
          some ⟨id, l'.expiresAt + millis⟩ := by
  have hbeyond : l.expiresAt < s.coordinator.renewalEnd s.now id (extension k) :=
    Coordinator.lt_renewalEnd hlease
  generalize htarget : s.coordinator.renewalEnd s.now id (extension k) = target at hbeyond hfits
  have hnow : s.now < target := by omega
  have hword : target < wordBound := by
    have : signedBound < wordBound := by decide
    omega
  -- The length is the one at the time of reading, but it counts from the time of extending.
  have hend : s.now + millis + (Duration.ofMillis (target - s.now)).keyMillis =
      target + millis := by
    rw [Nat.add_right_comm, Duration.add_keyMillis_ofMillis_sub hnow hword]
  obtain ⟨store, hextend, -, hrow'⟩ :=
    Store.extend_of_owner hping hrow hlive (hend.symm ▸ hfits)
  rw [hend] at hrow'
  have hrun : s.run lock id extension [.read k, .elapse millis, .extend k, .note k] =
      { s with
        coordinator := (s.coordinator.noteRenewal id target).2
        store
        now := s.now + millis } := by
    simp [run, step, move, h, htarget, hextend]
  rw [hrun]
  refine ⟨Registry.renewed l target, ?_, ?_⟩
  · rw [Coordinator.registry_noteRenewal, Registry.lease?_noteRenewal, if_pos rfl, hlease]
    rfl
  · rw [show (Registry.renewed l target).expiresAt = target from Nat.max_eq_left hbeyond]
    exact hrow'

end Single

end Race

end LeaseLock
