import LeaseLock.Proofs.Renewal.Serial

/-!
# Renewals that overlap

The schedules of renewals that are sound for all extensions are exactly the serial ones
(`Race.sound_iff_serial`), where a renewal begins only after the last one has ended.

One overlap is enough to lose soundness, already if all renewals aim as low as they can. Two
renewals that have read the same end aim at the same instant. The registry moves on with each note,
so from then on the store is behind the registry by the time the last of them has ended
(`Race.Behind`). If one of the renewals aims far and the other one does not, the end in the store
moves back besides.

## The extensions against which an overlap fails

Soundness is asked for all extensions, so one choice of extensions refutes it. The least one serves
for every schedule (`Race.least`): the shortest duration has no whole milliseconds to add, so the
target of a renewal is a millisecond past the end that it has read. No target is then far from what
the registry knows, and the proof follows a schedule step by step with bounds for all of them
(`Race.Slow`).

## What the schedules have in common

A schedule completes every renewal that it begins, and no time passes between the reading of a
renewal and its extension (`Race.Schedule`). If some did, the store would run ahead, and a store
that is ahead may hide that it is behind. The lease is in force all along, and nothing that is
computed leaves the words (`Race.Steady`): once it has ended there is nothing to renew.
-/

namespace LeaseLock

namespace Race

variable {κ : Type} [DecidableEq κ] {lock : LockName} {id : LeaseId} {s : Race κ} {k : κ}

/-- The shortest extension that can be asked for: it comes to no time at all. -/
def least : κ → Option Duration := fun _ ↦ some ⟨1⟩

/-- The least extension has no whole milliseconds. -/
theorem wholeMillis_ttlFor_least (c : Config) : (c.ttlFor (some ⟨1⟩)).wholeMillis = 0 := by
  rw [Config.ttlFor, if_neg (by decide), Duration.shorter]
  split
  · rfl
  · next h =>
    have : c.maxTtl.nanos = 0 := by
      have : ¬ 1 ≤ c.maxTtl.nanos := h
      omega
    rw [Duration.wholeMillis, Duration.millis, this]
    rfl

/-- A renewal with the shortest extension aims a millisecond beyond the end that it has read. -/
theorem renewalEnd_least {c : Coordinator} {now : Nat} {l : Lease}
    (hlease : c.registry.lease? id = some l) (hle : now ≤ l.expiresAt) :
    c.renewalEnd now id (some ⟨1⟩) = l.expiresAt + 1 := by
  simp only [Coordinator.renewalEnd, hlease, wholeMillis_ttlFor_least]
  omega

/-- Whether a renewal at a stage, with the given next step, has not been turned away. It aims from
the present instant. -/
def InPhase (now : Nat) (g : Stage) : Phase → Prop
  | .reading => g = .idle
  | .extending => ∃ t, g = .aiming t (.ofMillis (t - now))
  | .noting => ∃ t, g = .extended t

/-- A race of renewals with the shortest extension, after the steps `past`: `ks` are the renewals
under way, `l` is the lease in the registry and `x` its end in the store, both `e` at the start. -/
structure Slow (lock : LockName) (id : LeaseId) (s : Race κ) (past : List (RaceStep κ)) (e : Nat)
    (ks : List κ) (l : Lease) (x : Nat) : Prop where
  /-- The renewals under way are counted once. -/
  nodup : ks.Nodup
  /-- They are those whose next step is not to read. -/
  mem : ∀ k, k ∈ ks ↔ phases past k ≠ .reading
  /-- Every renewal is as far as its steps, so none has been turned away. -/
  stage : ∀ k, InPhase s.now (s.stage k) (phases past k)
  /-- They aim beyond the first end, and not far beyond what the registry knows. -/
  target : ∀ k t, (s.stage k).target? = some t → e < t ∧ t ≤ l.expiresAt + 1
  /-- The registry knows the lease. -/
  lease : s.coordinator.registry.lease? id = some l
  /-- The lease has its row. -/
  row : s.store.row? lock = some ⟨id, x⟩
  /-- The store can be used. -/
  ping : s.store.ping = .ok ()
  /-- The end in the registry is not before the first one. -/
  le_lease : e ≤ l.expiresAt
  /-- The end in the store is not before the first one. -/
  le_row : e ≤ x
  /-- The store is not far ahead of the registry. -/
  row_le : x ≤ l.expiresAt + 1
  /-- Every read moves the end by a millisecond at most. -/
  room : l.expiresAt + ks.length ≤ e + past.length

/-- The store will be behind the registry once the renewals under way have ended: each of their
notes moves the end in the registry by a millisecond at least, and none aims as far as that. -/
structure Behind (s : Race κ) (ks : List κ) (l : Lease) (x : Nat) : Prop where
  /-- The end in the store is before that in the registry after as many notes. -/
  row : x < l.expiresAt + ks.length
  /-- So is what the renewals aim at. -/
  target : ∀ k t, (s.stage k).target? = some t → t < l.expiresAt + ks.length

variable {past steps : List (RaceStep κ)} {e x : Nat} {ks : List κ} {l : Lease}

/-- A step that moves one renewal moves no other one. -/
theorem phases_append_of_move (past : List (RaceStep κ)) (a : RaceStep κ) {q : Phase}
    (ha : phaseAfter (phases past) a = Function.update (phases past) k q) (j : κ) :
    phases (past ++ [a]) j = if j = k then q else phases past j := by
  rw [phases_append, ha]
  exact Function.update_apply _ k q j

/-- A renewal that moves to its next stage leaves the other ones where they are. -/
theorem inPhase_move {now : Nat} {p : κ → Phase} {q : Phase} {g : Stage}
    (h : ∀ j, InPhase now (s.stage j) (p j)) (hg : InPhase now g q) (j : κ) :
    InPhase now ((s.move k g).stage j) (if j = k then q else p j) := by
  rw [stage_move]
  split
  · exact hg
  · exact h j

/-- What all targets have, they have behind a move to a stage whose target has it. -/
theorem target?_move {P : Nat → Prop} {g : Stage}
    (h : ∀ j t, (s.stage j).target? = some t → P t) (hg : ∀ t, g.target? = some t → P t) (j : κ)
    (t : Nat) (ht : ((s.move k g).stage j).target? = some t) : P t := by
  rw [stage_move] at ht
  split at ht
  · exact hg t ht
  · exact h j t ht

/-- A renewal is where its next step says. -/
theorem Slow.inPhase (h : Slow lock id s past e ks l x) {q : Phase} (hk : phases past k = q) :
    InPhase s.now (s.stage k) q := by
  rw [← hk]
  exact h.stage k

/-- There is room for one more read, and for a step that is none. -/
theorem Slow.room_append (h : Slow lock id s past e ks l x) (a : RaceStep κ) :
    l.expiresAt + ks.length + 1 ≤ e + (past ++ [a]).length := by
  have hroom := h.room
  rw [List.length_append, List.length_singleton]
  omega

/-- A renewal reads the end that the registry knows. If another one is under way, the store will be
behind from then on. -/
theorem Slow.read (h : Slow lock id s past e ks l x) (hk : phases past k = .reading)
    (hlive : s.now < e) :
    Slow lock id (s.step lock id least (.read k)) (past ++ [.read k]) e (k :: ks) l x ∧
      (ks ≠ [] → Behind (s.step lock id least (.read k)) (k :: ks) l x) := by
  have hle : s.now ≤ l.expiresAt := Nat.le_of_lt (Nat.lt_of_lt_of_le hlive h.le_lease)
  have hidle : s.stage k = .idle := h.inPhase hk
  have hstep : s.step lock id least (.read k) =
      s.move k (.aiming (l.expiresAt + 1) (.ofMillis (l.expiresAt + 1 - s.now))) := by
    simp only [step, hidle, least, renewalEnd_least h.lease hle]
  have hphase := phases_append_of_move past (.read k) rfl
  rw [hstep]
  have htarget := target?_move (k := k) (g := .aiming (l.expiresAt + 1)
    (.ofMillis (l.expiresAt + 1 - s.now))) h.target (by
      rintro t ⟨⟩
      exact ⟨Nat.lt_succ_of_le h.le_lease, Nat.le_refl _⟩)
  refine ⟨⟨?_, ?_, ?_, htarget, h.lease, h.row, h.ping, h.le_lease, h.le_row, h.row_le, ?_⟩, ?_⟩
  · exact List.nodup_cons.2 ⟨fun hmem ↦ (h.mem k).1 hmem hk, h.nodup⟩
  · intro j
    rw [hphase, List.mem_cons, h.mem j]
    split <;> simp [*]
  · intro j
    rw [hphase]
    exact inPhase_move h.stage (q := .extending) ⟨_, rfl⟩ j
  · exact h.room_append _
  · intro hks
    -- Two notes are still to come, and store and targets are a millisecond ahead at most.
    have hlen : 0 < ks.length := List.length_pos_iff.2 hks
    have hrow := h.row_le
    constructor
    · rw [List.length_cons]
      omega
    · intro j t ht
      have := (htarget j t ht).2
      rw [List.length_cons]
      omega

/-- A renewal extends the row to its target, which is a millisecond past what it has read. -/
theorem Slow.extend (h : Slow lock id s past e ks l x) (hk : phases past k = .extending)
    (hlive : s.now < e) (hroom : e + past.length < signedBound) :
    ∃ t, Slow lock id (s.step lock id least (.extend k)) (past ++ [.extend k]) e ks l t ∧
      (Behind s ks l x → Behind (s.step lock id least (.extend k)) ks l t) := by
  obtain ⟨t, hstage⟩ : ∃ t, s.stage k = .aiming t (.ofMillis (t - s.now)) := h.inPhase hk
  obtain ⟨ht, htl⟩ := h.target k t (by rw [hstage]; rfl)
  have hmem : k ∈ ks := (h.mem k).2 (by rw [hk]; decide)
  have hlen : 0 < ks.length := List.length_pos_of_mem hmem
  have hfits : t < signedBound := by
    have := h.room
    omega
  have hend : s.now + (Duration.ofMillis (t - s.now)).keyMillis = t :=
    Duration.add_keyMillis_ofMillis_sub (Nat.lt_trans hlive ht) (Nat.lt_trans hfits (by decide))
  obtain ⟨store, hextend, hping, hrow⟩ := Store.extend_of_owner h.ping h.row
    (Nat.lt_of_lt_of_le hlive h.le_row) (hend.symm ▸ hfits)
  rw [hend] at hrow
  have hstep : s.step lock id least (.extend k) = { s.move k (.extended t) with store } := by
    simp only [step, hstage, hextend]
  have hphase := phases_append_of_move past (.extend k) rfl
  rw [hstep]
  refine ⟨t, ⟨h.nodup, ?_, ?_, ?_, h.lease, hrow, hping, h.le_lease, Nat.le_of_lt ht, htl, ?_⟩, ?_⟩
  · intro j
    rw [hphase, h.mem j]
    split
    · next hj => simp [hj, hk]
    · rfl
  · intro j
    rw [hphase]
    exact inPhase_move h.stage (q := .noting) ⟨t, rfl⟩ j
  · exact target?_move h.target (by
      rintro t' ⟨⟩
      exact ⟨ht, htl⟩)
  · have hroom := h.room_append (.extend k)
    omega
  · intro hb
    have htb := hb.target k t (by rw [hstage]; rfl)
    exact ⟨htb, target?_move hb.target (by rintro t' ⟨⟩; exact htb)⟩

/-- A renewal notes its target, or a millisecond past what the registry knows by then. -/
theorem Slow.note (h : Slow lock id s past e ks l x) (hk : phases past k = .noting) :
    ∃ l', Slow lock id (s.step lock id least (.note k)) (past ++ [.note k]) e (ks.erase k) l' x ∧
      (Behind s ks l x → Behind (s.step lock id least (.note k)) (ks.erase k) l' x) := by
  obtain ⟨t, hstage⟩ : ∃ t, s.stage k = .extended t := h.inPhase hk
  obtain ⟨-, htl⟩ := h.target k t (by rw [hstage]; rfl)
  have hmem : k ∈ ks := (h.mem k).2 (by rw [hk]; decide)
  have hlen : (ks.erase k).length + 1 = ks.length := by
    rw [List.length_erase_of_mem hmem]
    exact Nat.sub_add_cancel (List.length_pos_of_mem hmem)
  have hstep : s.step lock id least (.note k) =
      { s.move k .idle with coordinator := (s.coordinator.noteRenewal id t).2 } := by
    simp only [step, hstage]
  have hphase := phases_append_of_move past (.note k) rfl
  have hnext : (Registry.renewed l t).expiresAt = l.expiresAt + 1 := Nat.max_eq_right htl
  rw [hstep]
  refine ⟨Registry.renewed l t,
    ⟨h.nodup.erase k, ?_, ?_, ?_, ?_, h.row, h.ping, ?_, h.le_row, ?_, ?_⟩, ?_⟩
  · intro j
    rw [hphase, h.nodup.mem_erase_iff, h.mem j]
    split <;> simp [*]
  · intro j
    rw [hphase]
    exact inPhase_move h.stage (q := .reading) rfl j
  · refine target?_move (fun j t' ht' ↦ ?_) (by rintro t' ⟨⟩)
    obtain ⟨he, hl⟩ := h.target j t' ht'
    exact ⟨he, by omega⟩
  · rw [Coordinator.registry_noteRenewal, Registry.lease?_noteRenewal, if_pos rfl, h.lease]
    rfl
  · have := h.le_lease
    omega
  · have := h.row_le
    omega
  · have hroom := h.room_append (.note k)
    omega
  · intro hb
    -- The note has moved the registry by the millisecond that one note less to come takes away.
    have hsum : (Registry.renewed l t).expiresAt + (ks.erase k).length =
        l.expiresAt + ks.length := by
      omega
    constructor
    · rw [hsum]
      exact hb.row
    · rw [hsum]
      exact target?_move hb.target (by rintro t' ⟨⟩)

/-- Time passes while no renewal is about to extend. -/
theorem Slow.elapse (h : Slow lock id s past e ks l x) (millis : Nat)
    (hprompt : ∀ k, phases past k ≠ .extending) :
    Slow lock id (s.step lock id least (.elapse millis)) (past ++ [.elapse millis]) e ks l x ∧
      (Behind s ks l x → Behind (s.step lock id least (.elapse millis)) ks l x) := by
  have hphase : phases (past ++ [.elapse millis]) = phases past := phases_append past _
  refine ⟨⟨h.nodup, ?_, ?_, h.target, h.lease, h.row, h.ping, h.le_lease, h.le_row, h.row_le, ?_⟩,
    fun hb ↦ ⟨hb.row, hb.target⟩⟩
  · rw [hphase]
    exact h.mem
  · intro j
    rw [hphase]
    -- Only a renewal that aims knows what time it is.
    cases hp : phases past j with
    | reading => exact (h.inPhase hp : s.stage j = .idle)
    | extending => exact absurd hp (hprompt j)
    | noting => exact (h.inPhase hp : ∃ t, s.stage j = .extended t)
  · have hroom := h.room_append (.elapse millis)
    omega

/-- A step of a schedule keeps a race slow. Once the store is behind it stays behind, until no
renewal is under way; and it is behind as soon as a renewal begins while another one is under
way. -/
theorem Slow.step (h : Slow lock id s past e ks l x) {a : RaceStep κ}
    (ha : Allowed (phases past) a) (hlive : s.now < e) (hroom : e + past.length < signedBound) :
    ∃ ks' l' x', Slow lock id (s.step lock id least a) (past ++ [a]) e ks' l' x' ∧
      (ks ≠ [] → (Behind s ks l x ∨ ∃ k, a = .read k) →
        Behind (s.step lock id least a) ks' l' x') := by
  cases a with
  | read k =>
    obtain ⟨hslow, hbehind⟩ := h.read ha hlive
    exact ⟨_, l, x, hslow, fun hks _ ↦ hbehind hks⟩
  | extend k =>
    obtain ⟨t, hslow, hbehind⟩ := h.extend ha hlive hroom
    refine ⟨ks, l, t, hslow, fun _ hb ↦ hbehind ?_⟩
    simpa using hb
  | note k =>
    obtain ⟨l', hslow, hbehind⟩ := h.note ha
    refine ⟨_, l', x, hslow, fun _ hb ↦ hbehind ?_⟩
    simpa using hb
  | elapse millis =>
    obtain ⟨hslow, hbehind⟩ := h.elapse millis ha
    refine ⟨ks, l, x, hslow, fun _ hb ↦ hbehind ?_⟩
    simpa using hb

theorem now_step (s : Race κ) (extension : κ → Option Duration) (a : RaceStep κ) :
    (s.step lock id extension a).now = s.now + elapsed [a] := by
  cases a with
  | read k => simp only [step]; split <;> rfl
  | extend k => simp only [step]; split <;> [split; skip] <;> rfl
  | note k => simp only [step]; split <;> rfl
  | elapse millis => rfl

omit [DecidableEq κ] in
theorem elapsed_append (past later : List (RaceStep κ)) :
    elapsed (past ++ later) = elapsed past + elapsed later := by
  induction past with
  | nil => exact (Nat.zero_add _).symm
  | cons a past ih => cases a <;> simp [elapsed, ih, Nat.add_assoc]

theorem now_run (s : Race κ) (extension : κ → Option Duration) (past : List (RaceStep κ)) :
    (s.run lock id extension past).now = s.now + elapsed past := by
  induction past using List.reverseRecOn with
  | nil => rfl
  | append_singleton past a ih => rw [run_append, now_step, ih, elapsed_append, Nat.add_assoc]

/-- The lease is live during all the steps, in a store that can be used, and far from the end of
numbers. -/
structure Steady (lock : LockName) (id : LeaseId) (s : Race κ) (e : Nat)
    (steps : List (RaceStep κ)) : Prop where
  /-- Registry and store agree that the lease ends at `e`. -/
  agrees : ∃ l, s.coordinator.registry.lease? id = some l ∧ l.expiresAt = e ∧
    s.store.row? lock = some ⟨id, e⟩
  /-- No renewal is under way. -/
  quiet : s.Quiet
  /-- The store can be used. -/
  ping : s.store.ping = .ok ()
  /-- The steps are over before the lease ends. -/
  live : s.now + elapsed steps < e
  /-- There is room for one millisecond in each step. -/
  room : e + steps.length < signedBound

/-- The lease is in force before every step, and the steps so far do not leave the words. -/
theorem Steady.before (h : Steady lock id s e steps) {a : RaceStep κ}
    (hpast : past ++ [a] <+: steps) (extension : κ → Option Duration) :
    (s.run lock id extension past).now < e ∧ e + past.length < signedBound := by
  obtain ⟨later, rfl⟩ := hpast
  have hlive := h.live
  have hroom := h.room
  rw [now_run]
  rw [elapsed_append, elapsed_append] at hlive
  simp only [List.length_append] at hroom
  omega

/-- Before the first step no renewal is under way. -/
theorem Steady.slow_nil (h : Steady lock id s e steps) :
    ∃ l, Slow lock id s ([] : List (RaceStep κ)) e [] l e := by
  obtain ⟨l, hlease, rfl, hrow⟩ := h.agrees
  refine ⟨l, List.nodup_nil, ?_, h.quiet, ?_, hlease, hrow, h.ping, Nat.le_refl _, Nat.le_refl _,
    Nat.le_succ _, Nat.le_refl _⟩
  · intro k
    simp [phases]
  · intro k t ht
    rw [h.quiet k] at ht
    cases ht

/-- Along a schedule a race with the shortest extension is slow. -/
theorem Steady.slow (h : Steady lock id s e steps) (hsteps : Schedule steps)
    (hpast : past <+: steps) :
    ∃ ks l x, Slow lock id (s.run lock id least past) past e ks l x := by
  induction past using List.reverseRecOn with
  | nil =>
    obtain ⟨l, hslow⟩ := h.slow_nil
    exact ⟨[], l, e, hslow⟩
  | append_singleton past a ih =>
    obtain ⟨ks, l, x, hslow⟩ := ih ((List.prefix_append past [a]).trans hpast)
    obtain ⟨hlive, hroom⟩ := h.before hpast least
    obtain ⟨ks', l', x', hslow', -⟩ := hslow.step (hsteps.order past a hpast) hlive hroom
    rw [run_append]
    exact ⟨ks', l', x', hslow'⟩

/-- The least extensions stay within the words. -/
theorem Steady.fits (h : Steady lock id s e steps) (hsteps : Schedule steps) :
    s.Fits lock id least steps := by
  intro past hpast k t length hstage
  obtain ⟨ks, l, x, hslow⟩ := h.slow hsteps hpast
  have htarget := (hslow.target k t (by rw [hstage]; rfl)).2
  have hmem : k ∈ ks := by
    rw [hslow.mem k]
    intro hk
    have hidle : (s.run lock id least past).stage k = .idle := hslow.inPhase hk
    rw [hstage] at hidle
    cases hidle
  have hlen := List.length_pos_of_mem hmem
  have hroom := hslow.room
  have hle := hpast.length_le
  have hall := h.room
  have hbound : signedBound < wordBound := by decide
  omega

/-- Where registry and store agree whenever no renewal is under way, a renewal is under way as long
as the store is behind. -/
theorem Slow.ne_nil_of_behind (h : Slow lock id s past e ks l x) (hb : Behind s ks l x)
    (hagrees : s.Quiet → s.Agrees lock id) : ks ≠ [] := by
  rintro rfl
  have hquiet : s.Quiet := by
    intro k
    have hk : phases past k = .reading := by
      apply Decidable.byContradiction
      intro hk
      exact List.not_mem_nil ((h.mem k).2 hk)
    exact h.inPhase hk
  obtain ⟨l', hlease, hrow⟩ := hagrees hquiet
  obtain rfl : l = l' := by simpa using h.lease.symm.trans hlease
  obtain rfl : x = l.expiresAt := by simpa using h.row.symm.trans hrow
  exact Nat.lt_irrefl _ hb.row

/-- If a schedule is sound with the shortest extension, no renewal begins while another one is under
way. -/
theorem Steady.serial_of_sound (h : Steady lock id s e steps) (hsteps : Schedule steps)
    (hsound : s.Sound lock id least steps) : Serial steps := by
  intro past k hpast j
  apply Decidable.byContradiction
  intro hj
  -- From the overlap on the store stays behind, for a quiet moment would show it.
  have hbehind (later : List (RaceStep κ)) (hlater : past ++ [.read k] ++ later <+: steps) :
      ∃ ks l x, Slow lock id (s.run lock id least (past ++ [.read k] ++ later))
          (past ++ [.read k] ++ later) e ks l x ∧
        Behind (s.run lock id least (past ++ [.read k] ++ later)) ks l x ∧ ks ≠ [] := by
    induction later using List.reverseRecOn with
    | nil =>
      rw [List.append_nil] at hlater ⊢
      obtain ⟨ks, l, x, hslow⟩ := h.slow hsteps ((List.prefix_append past _).trans hpast)
      have hks : ks ≠ [] := List.ne_nil_of_mem ((hslow.mem j).2 hj)
      obtain ⟨hlive, hroom⟩ := h.before hpast least
      obtain ⟨ks', l', x', hslow', hbehind⟩ :=
        hslow.step (hsteps.order past _ hpast) hlive hroom
      rw [← run_append] at hslow' hbehind
      have hb := hbehind hks (.inr ⟨k, rfl⟩)
      exact ⟨ks', l', x', hslow', hb, hslow'.ne_nil_of_behind hb (hsound.agrees _ hlater)⟩
    | append_singleton later a ih =>
      rw [← List.append_assoc] at hlater ⊢
      obtain ⟨ks, l, x, hslow, hb, hks⟩ := ih ((List.prefix_append _ [a]).trans hlater)
      obtain ⟨hlive, hroom⟩ := h.before hlater least
      obtain ⟨ks', l', x', hslow', hbehind⟩ :=
        hslow.step (hsteps.order _ a hlater) hlive hroom
      rw [← run_append] at hslow' hbehind
      have hb' := hbehind hks (.inl hb)
      exact ⟨ks', l', x', hslow', hb', hslow'.ne_nil_of_behind hb' (hsound.agrees _ hlater)⟩
  obtain ⟨later, rfl⟩ := hpast
  obtain ⟨ks, l, x, hslow, -, hks⟩ := hbehind later List.prefix_rfl
  obtain ⟨i, hi⟩ := List.exists_mem_of_ne_nil ks hks
  exact (hslow.mem i).1 hi (hsteps.complete i)

/-- **Which schedules are sound.** Of a lease that is live during all the steps, a schedule of
renewals keeps registry and store in agreement and never moves the end in the store back, whatever
extensions are asked for, exactly if no renewal begins while another one is under way. -/
theorem sound_iff_serial (lock : LockName) (id : LeaseId) (s : Race κ) (e : Nat)
    (steps : List (RaceStep κ)) (hsteady : s.Steady lock id e steps) (hsteps : Schedule steps) :
    (∀ extension, s.Fits lock id extension steps → s.Sound lock id extension steps) ↔
      Serial steps := by
  constructor
  · intro hsound
    exact hsteady.serial_of_sound hsteps (hsound least (hsteady.fits hsteps))
  · intro hserial extension hfits
    obtain ⟨l, hlease, rfl, hrow⟩ := hsteady.agrees
    exact sound_of_serial ⟨l, hlease, hrow⟩ hsteady.quiet hsteps hserial hfits

/-! ### A long and a short renewal -/

/-- A lease of a minute that has just been granted. -/
def minute : Race Bool :=
  let o := ({ config := {} } : Coordinator).acquire (.memory {}) 0 0 "a"
    { lock := "L", client := "x", ttl := some (.ofSecs 60) }
  { coordinator := o.coordinator, store := o.store, now := 0, stage := fun _ ↦ .idle }

/-- Two renewals read the registry before the first of them extends the key. -/
def overlap : List (RaceStep Bool) :=
  [.read true, .read false, .extend true, .extend false, .note true, .note false]

/-- One of them is for five minutes, the other one for a second. -/
def longAndShort : Bool → Option Duration
  | true => some (.ofSecs 300)
  | false => some (.ofSecs 1)

/-- The lease is in force throughout the two renewals. -/
theorem steady_overlap : minute.Steady "L" "a" 60000 overlap :=
  ⟨⟨_, rfl, rfl, rfl⟩, fun _ ↦ rfl, rfl, by decide, by decide⟩

/-- Each of the two takes its steps in order and comes to its end. -/
theorem schedule_overlap : Schedule overlap where
  order := by
    refine of_prefix_of_take (P := fun past a ↦ Allowed (phases past) a) fun i hi ↦ ?_
    rcases i with _ | _ | _ | _ | _ | _ | i
    all_goals first | rfl | exact absurd hi (by simp [overlap])
  complete k := by cases k <;> rfl

/-- The two renewals overlap, so some extensions are unsound. -/
theorem sound_iff_serial_overlap :
    minute.Steady "L" "a" 60000 overlap ∧ Schedule overlap ∧
      ¬ ∀ extension, minute.Fits "L" "a" extension overlap →
        minute.Sound "L" "a" extension overlap := by
  refine ⟨steady_overlap, schedule_overlap, fun hsound ↦ ?_⟩
  have hserial := (sound_iff_serial "L" "a" minute 60000 overlap steady_overlap
    schedule_overlap).1 hsound
  have hreading := hserial [.read true] false ⟨_, rfl⟩ true
  cases hreading

/-- The long renewal has moved the end in the store to five minutes when the short one moves it back
to a millisecond beyond the minute, and the registry ends up with the five minutes. -/
theorem not_sound_overlap :
    Schedule overlap ∧
      (minute.run "L" "a" longAndShort (overlap.take 3)).store.row? "L" = some ⟨"a", 300000⟩ ∧
      (minute.run "L" "a" longAndShort (overlap.take 4)).store.row? "L" = some ⟨"a", 60001⟩ ∧
      ¬ minute.Sound "L" "a" longAndShort overlap := by
  refine ⟨schedule_overlap, by decide, by decide, fun hsound ↦ ?_⟩
  have hquiet : (minute.run "L" "a" longAndShort overlap).Quiet := by
    intro k
    cases k <;> rfl
  obtain ⟨l, hlease, hrow⟩ := hsound.agrees overlap List.prefix_rfl hquiet
  have hregistry : ((minute.run "L" "a" longAndShort overlap).coordinator.registry.lease? "a").map
      (·.expiresAt) = some 300001 := by decide
  have hstore : (minute.run "L" "a" longAndShort overlap).store.row? "L" = some ⟨"a", 60001⟩ := by
    decide
  rw [hlease, Option.map_some, Option.some.injEq] at hregistry
  rw [hstore, hregistry] at hrow
  exact absurd hrow (by decide)

end Race

end LeaseLock
