import Mathlib.Data.List.Induction
import LeaseLock.Proofs.Renewal.Race

/-!
# Renewals one after another

A schedule in which a renewal begins only after the last one has ended is sound, for all extensions.
A renewal aims beyond the end that it has read, and that end is the store's. So the end in the store
moves forward, or stays if the store turns the renewal away, and the note of the renewal takes the
registry to the same end.

At most one renewal is under way at any time, and the invariant says how registry and store differ
on account of it (`Race.Calm`): not at all before it has extended the row, and by its target after
that. A renewal that the store turns away leaves both of them alone and has nothing to note.

No condition is put on the extensions but that the targets are words. A renewal may even ask for
less than there is left, since its target is never at or before the end that it has read.
-/

namespace LeaseLock

namespace Race

variable {κ : Type} [DecidableEq κ] {lock : LockName} {id : LeaseId}
  {extension : κ → Option Duration} {s : Race κ} {k : κ} {p : κ → Phase}

omit [DecidableEq κ] in
/-- A renewal that aims beyond the end of its key moves it there. -/
theorem row?_of_extend {store : Store} {e target : Nat} (hrow : s.store.row? lock = some ⟨id, e⟩)
    (hbeyond : e < target) (hfits : target < wordBound)
    (h : s.store.extend s.now lock id (.ofMillis (target - s.now)) = .ok (true, store)) :
    store.row? lock = some ⟨id, target⟩ := by
  obtain ⟨⟨x, hx⟩, hsets⟩ := Store.extend_spec h
  obtain ⟨hx, hlive⟩ := Store.live?_eq_some_iff.1 hx
  obtain rfl : e = x := by simpa using hrow.symm.trans hx
  rw [hsets.at_lock, Duration.add_keyMillis_ofMillis_sub (Nat.lt_trans hlive hbeyond) hfits]

/-! ### One renewal under way -/

/-- The renewal `k`, with the given next step, has the race for itself. Before it extends the key it
aims beyond the end that registry and store agree on. After that it has been turned away, or it has
moved the end in the store and the registry is behind. -/
def Alone (lock : LockName) (id : LeaseId) (s : Race κ) (k : κ) : Phase → Prop
  | .reading => False
  | .extending => ∃ target l, s.stage k = .aiming target (.ofMillis (target - s.now)) ∧
      s.coordinator.registry.lease? id = some l ∧
      s.store.row? lock = some ⟨id, l.expiresAt⟩ ∧ l.expiresAt < target
  | .noting => (s.stage k = .idle ∧ s.Agrees lock id) ∨
      ∃ target l, s.stage k = .extended target ∧ s.coordinator.registry.lease? id = some l ∧
        s.store.row? lock = some ⟨id, target⟩ ∧ l.expiresAt < target

/-- A race with at most one renewal under way. -/
inductive Calm (lock : LockName) (id : LeaseId) (s : Race κ) (p : κ → Phase) : Prop
  /-- None is. -/
  | quiet (hphase : ∀ k, p k = .reading) (hidle : s.Quiet) (hagrees : s.Agrees lock id)
  /-- One is. -/
  | alone (k : κ) (hothers : ∀ j, j ≠ k → p j = .reading ∧ s.stage j = .idle)
      (halone : Alone lock id s k (p k))

omit [DecidableEq κ] in
/-- With no renewal under way registry and store agree. -/
theorem Calm.agrees (hc : Calm lock id s p) (hquiet : s.Quiet) : s.Agrees lock id := by
  cases hc with
  | quiet _ _ hagrees => exact hagrees
  | alone k _ halone =>
    have hidle : s.stage k = .idle := hquiet k
    cases hp : p k with
    | reading =>
      rw [hp] at halone
      exact halone.elim
    | extending =>
      rw [hp] at halone
      obtain ⟨target, l, hstage, -⟩ := halone
      exact absurd (hstage.symm.trans hidle) (by simp)
    | noting =>
      rw [hp] at halone
      rcases halone with ⟨-, hagrees⟩ | ⟨target, l, hstage, -⟩
      · exact hagrees
      · exact absurd (hstage.symm.trans hidle) (by simp)

/-- A renewal that is under way in a calm race has it for itself. -/
theorem Calm.alone_of_ne (hc : Calm lock id s p) (hk : p k ≠ .reading) :
    (∀ j, j ≠ k → p j = .reading ∧ s.stage j = .idle) ∧ Alone lock id s k (p k) := by
  cases hc with
  | quiet hphase => exact absurd (hphase k) hk
  | alone k' hothers halone =>
    have heq : k = k' := Decidable.byContradiction fun hne ↦ hk (hothers k hne).1
    exact heq ▸ ⟨hothers, halone⟩

/-- A renewal that goes on from a race that it has for itself still has it for itself. -/
theorem Calm.move {s' : Race κ} {g : Stage} {q : Phase} (hstage : s'.stage = (s.move k g).stage)
    (hothers : ∀ j, j ≠ k → p j = .reading ∧ s.stage j = .idle) (halone : Alone lock id s' k q) :
    Calm lock id s' (Function.update p k q) := by
  refine .alone k (fun j hj ↦ ⟨?_, ?_⟩) ?_
  · rw [Function.update_of_ne hj]
    exact (hothers j hj).1
  · rw [hstage, stage_move, if_neg hj]
    exact (hothers j hj).2
  · rwa [Function.update_self]

/-- A renewal that ends leaves nobody under way. -/
theorem Calm.finish {s' : Race κ} (hstage : s'.stage = (s.move k .idle).stage)
    (hothers : ∀ j, j ≠ k → p j = .reading ∧ s.stage j = .idle) (hagrees : s'.Agrees lock id) :
    Calm lock id s' (Function.update p k .reading) := by
  refine .quiet (fun j ↦ ?_) (fun j ↦ ?_) hagrees
  · rw [Function.update_apply]
    split
    · rfl
    · next hj => exact (hothers j hj).1
  · rw [hstage, stage_move]
    split
    · rfl
    · next hj => exact (hothers j hj).2

/-! ### Steps of a calm race -/

/-- A renewal begins while no other one is under way. -/
theorem Calm.read (hc : Calm lock id s p) (hserial : ∀ j, p j = .reading) :
    Calm lock id (s.step lock id extension (.read k)) (phaseAfter p (.read k)) ∧
      (s.step lock id extension (.read k)).store = s.store := by
  cases hc with
  | alone k' _ halone =>
    rw [hserial k'] at halone
    exact halone.elim
  | quiet _ hidle hagrees =>
    obtain ⟨l, hlease, hrow⟩ := hagrees
    have hstep : s.step lock id extension (.read k) =
        s.move k (.aiming (s.coordinator.renewalEnd s.now id (extension k))
          (.ofMillis (s.coordinator.renewalEnd s.now id (extension k) - s.now))) := by
      simp only [Race.step, hidle k]
    rw [hstep]
    refine ⟨Calm.move rfl (fun j _ ↦ ⟨hserial j, hidle j⟩) ?_, rfl⟩
    refine ⟨s.coordinator.renewalEnd s.now id (extension k), l, ?_, hlease, hrow,
      Coordinator.lt_renewalEnd hlease⟩
    rw [stage_move, if_pos rfl]
    rfl

/-- The one that is under way extends the row, and does not move it back. -/
theorem Calm.extend (hc : Calm lock id s p) (hk : p k = .extending)
    (hfits : ∀ k target length, s.stage k = .aiming target length → target < wordBound) :
    Calm lock id (s.step lock id extension (.extend k)) (phaseAfter p (.extend k)) ∧
      ∀ x, s.store.row? lock = some ⟨id, x⟩ →
        ∃ y, (s.step lock id extension (.extend k)).store.row? lock = some ⟨id, y⟩ ∧ x ≤ y := by
  obtain ⟨hothers, halone⟩ := hc.alone_of_ne (by rw [hk]; decide)
  rw [hk] at halone
  obtain ⟨target, l, hstage, hlease, hrow, hbeyond⟩ := halone
  have hself (g : Stage) : (s.move k g).stage k = g := by rw [stage_move, if_pos rfl]
  -- Whichever way the store turns the renewal away, the rows are as they were.
  have hrefused : Calm lock id (s.move k .idle) (phaseAfter p (.extend k)) ∧
      ∀ x, s.store.row? lock = some ⟨id, x⟩ →
        ∃ y, (s.move k .idle).store.row? lock = some ⟨id, y⟩ ∧ x ≤ y :=
    ⟨Calm.move rfl hothers (.inl ⟨hself .idle, l, hlease, hrow⟩), fun x hx ↦ ⟨x, hx, Nat.le_refl x⟩⟩
  simp only [Race.step, hstage]
  cases hextend : s.store.extend s.now lock id (.ofMillis (target - s.now)) with
  | error fault => exact hrefused
  | ok r =>
    obtain ⟨b, store⟩ := r
    cases b with
    | false =>
      obtain ⟨rfl, -⟩ := Store.extend_spec hextend
      exact hrefused
    | true =>
      have hrow' : store.row? lock = some ⟨id, target⟩ :=
        row?_of_extend hrow hbeyond (hfits k target _ hstage) hextend
      refine ⟨Calm.move rfl hothers (.inr ⟨target, l, hself _, hlease, hrow', hbeyond⟩), ?_⟩
      intro x hx
      obtain rfl : l.expiresAt = x := by simpa using hrow.symm.trans hx
      exact ⟨target, hrow', Nat.le_of_lt hbeyond⟩

/-- It notes what it has extended the row to, or nothing if it was turned away. -/
theorem Calm.note (hc : Calm lock id s p) (hk : p k = .noting) :
    Calm lock id (s.step lock id extension (.note k)) (phaseAfter p (.note k)) ∧
      (s.step lock id extension (.note k)).store = s.store := by
  obtain ⟨hothers, halone⟩ := hc.alone_of_ne (by rw [hk]; decide)
  rw [hk] at halone
  rcases halone with ⟨hstage, hagrees⟩ | ⟨target, l, hstage, hlease, hrow, hbeyond⟩
  · have hstep : s.step lock id extension (.note k) = s := by simp only [Race.step, hstage]
    have hmove : s.stage = (s.move k .idle).stage := by
      rw [Race.move, ← hstage, Function.update_eq_self]
    rw [hstep]
    exact ⟨Calm.finish hmove hothers hagrees, rfl⟩
  · simp only [Race.step, hstage]
    refine ⟨Calm.finish rfl hothers ⟨Registry.renewed l target, ?_, ?_⟩, rfl⟩
    · rw [Coordinator.registry_noteRenewal, Registry.lease?_noteRenewal, if_pos rfl, hlease]
      rfl
    · rw [show (Registry.renewed l target).expiresAt = target from Nat.max_eq_left hbeyond]
      exact hrow

/-- Time passes, but not while the renewal is about to extend. -/
theorem Calm.elapse {millis : Nat} (hc : Calm lock id s p) (hprompt : ∀ k, p k ≠ .extending) :
    Calm lock id (s.step lock id extension (.elapse millis)) p := by
  cases hc with
  | quiet hphase hidle hagrees => exact .quiet hphase hidle hagrees
  | alone k hothers halone =>
    refine .alone k hothers ?_
    -- Only a renewal that aims knows what time it is.
    cases hp : p k with
    | reading =>
      rw [hp] at halone
      exact halone
    | extending => exact absurd hp (hprompt k)
    | noting =>
      rw [hp] at halone
      exact halone

/-- A step of a serial schedule keeps the race calm and the end in the store from moving back. -/
theorem Calm.step (hc : Calm lock id s p) {a : RaceStep κ} (ha : Allowed p a)
    (hserial : ∀ k, a = .read k → ∀ j, p j = .reading)
    (hfits : ∀ k target length, s.stage k = .aiming target length → target < wordBound) :
    Calm lock id (s.step lock id extension a) (phaseAfter p a) ∧
      ∀ x, s.store.row? lock = some ⟨id, x⟩ →
        ∃ y, (s.step lock id extension a).store.row? lock = some ⟨id, y⟩ ∧ x ≤ y := by
  cases a with
  | read k =>
    obtain ⟨hcalm, hstore⟩ := hc.read (hserial k rfl)
    exact ⟨hcalm, fun x hx ↦ ⟨x, hstore ▸ hx, Nat.le_refl x⟩⟩
  | extend k => exact hc.extend ha hfits
  | note k =>
    obtain ⟨hcalm, hstore⟩ := hc.note ha
    exact ⟨hcalm, fun x hx ↦ ⟨x, hstore ▸ hx, Nat.le_refl x⟩⟩
  | elapse millis => exact ⟨hc.elapse ha, fun x hx ↦ ⟨x, hx, Nat.le_refl x⟩⟩

/-- A serial schedule is sound. -/
theorem sound_of_serial {steps : List (RaceStep κ)} (hagrees : s.Agrees lock id)
    (hquiet : s.Quiet) (hsteps : Schedule steps) (hserial : Serial steps)
    (hfits : s.Fits lock id extension steps) : s.Sound lock id extension steps := by
  have hcalm (past : List (RaceStep κ)) (hpast : past <+: steps) :
      Calm lock id (s.run lock id extension past) (phases past) := by
    induction past using List.reverseRecOn with
    | nil => exact .quiet (fun _ ↦ rfl) hquiet hagrees
    | append_singleton past a ih =>
      have hbefore : past <+: steps := (List.prefix_append past [a]).trans hpast
      rw [run_append, phases_append]
      refine ((ih hbefore).step (hsteps.order past a hpast) ?_ (hfits past hbefore)).1
      rintro k rfl
      exact hserial past k hpast
  constructor
  · intro past hpast
    exact (hcalm past hpast).agrees
  · intro past a hpast
    have hbefore : past <+: steps := (List.prefix_append past [a]).trans hpast
    rw [run_append]
    refine ((hcalm past hbefore).step (hsteps.order past a hpast) ?_ (hfits past hbefore)).2
    rintro k rfl
    exact hserial past k hpast

end Race

end LeaseLock
