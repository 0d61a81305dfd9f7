import LeaseLock.Proofs.Coordinator.Fates
import LeaseLock.Proofs.Coordinator.Renewals

/-!
# When lengths of time are exact

Lengths of time are durations, and the coordinator counts in words of milliseconds. A duration of
too many milliseconds becomes the word that is left of their number (`Duration.wholeMillis`). The
settings are exact if nothing is lost that way (`Config.Exact`): a lease lasts at least as long as
was asked for, and a pass of upkeep takes every lease that is to be kept alive and has less than two
periods left.

Passing the check of the settings is not enough for that (`Config.not_exact_drowsy`). What it takes
is that the longest lease and two periods of upkeep are words of milliseconds
(`Config.exact_iff_words`).

How long an operation takes does not matter: a lease that is granted counts from the time at which
the coordinator dates it, and a renewal from the time at which it begins.

The sums of instants and lengths are taken without a bound here. So the statements are about
instants that are words themselves.

## Words of milliseconds

The conversion is applied in two places, to the length of a lease and to the window of a pass. Where
the number of milliseconds is a multiple of what a word can hold, nothing is left of it, and a lease
gets the one millisecond that every key is kept for (`keyMillis_ofMillis_wordBound`). A window of
which nothing is left has no candidates, so a pass renews nothing.

Both directions are shown by the largest lengths that the settings admit. A setting that is not a
word is the length of some lease or of the window, and there the conversion can be seen to lose it
(`Config.Exact.maxTtl_lt`, `Config.Exact.window_lt`).
-/

namespace LeaseLock

namespace Coordinator

variable {c : Coordinator} {s : Store} {now : Nat} {interval window : Duration} {l : Lease}

/-! ### The candidates of a pass -/

/-- The turns of the candidates are reported in their order. -/
theorem map_fst_renewals_renewAll (w : Watch) (ls : List Lease) (o : Outcome UpkeepReport) :
    (renewAll w o ls).2.answer.renewals.map (·.1) = o.answer.renewals.map (·.1) ++ ls := by
  induction ls generalizing w o with
  | nil => exact (List.append_nil _).symm
  | cons l ls ih =>
    have hturn : (renewDue w.start w.lag o l).answer.renewals.map (·.1) =
        o.answer.renewals.map (·.1) ++ [l] := by
      rw [renewDue]
      exact List.map_append
    rw [renewAll, ih, hturn, List.append_assoc, List.singleton_append]

theorem renewals_purgeAfter (now : Nat) (o : Outcome UpkeepReport) :
    (purgeAfter now o).answer.renewals = o.answer.renewals := by
  rw [purgeAfter]
  split <;> rfl

/-- A pass with a window answers, and it has tried to renew the leases that are to be kept alive and
have less than the window left. -/
theorem upkeep_of_window (hkeyed : c.registry.Keyed) (hwindow : interval.double? = some window)
    (s : Store) (now : Nat) (lags : List (Nat × Nat)) :
    ∃ report, (c.upkeep s now interval lags).answer = .ok report ∧
      ∀ l, l ∈ report.renewals.map (·.1) ↔
        l ∈ c.leases ∧ l.autoRenew = true ∧ l.remaining now < window.wholeMillis := by
  rw [upkeep]
  simp only [hwindow]
  refine ⟨_, rfl, fun l ↦ ?_⟩
  rw [renewals_purgeAfter, map_fst_renewals_renewAll, List.map_nil, List.nil_append,
    mem_dueForRenewal_iff]
  -- Pruning leaves every lease that is to be kept alive.
  refine and_congr_left fun hdue ↦ ?_
  rw [leases, hkeyed.prune.mem_leases_iff, hkeyed.lease?_prune, Option.filter_eq_some_iff, leases,
    hkeyed.mem_leases_iff, hdue.1]
  exact and_iff_left rfl

/-- A pass whose window is no duration does not answer. -/
theorem upkeep_of_no_window (hwindow : interval.double? = none) (s : Store) (now : Nat)
    (lags : List (Nat × Nat)) :
    (c.upkeep s now interval lags).answer = .error .intervalTooLong := by
  rw [upkeep]
  simp only [hwindow]

end Coordinator

namespace Config

variable {cfg : Config}

/-! ### Settings that are exact -/

/-- Nothing is lost when lengths of time become words. -/
structure Exact (cfg : Config) : Prop where
  /-- A lease that is granted at once lasts as long as its request is allowed to ask for. -/
  acquire : ∀ (c : Coordinator) (s : Store) (now tick : Nat) (id : LeaseId) (request : LockRequest)
    (lag : Nat) (l : Lease), c.config = cfg →
    (c.acquire s now tick id request lag).answer = .ended (.ok l) →
    l.expiresAt < wordBound → now + lag + (cfg.ttlFor request.ttl).millis ≤ l.expiresAt
  /-- A lease that is granted behind a wait does so from then on. -/
  poll : ∀ (c c' : Coordinator) (s s' : Store) (now now' tick tick' wake : Nat) (id : LeaseId)
    (request : LockRequest) (lag lag' : Nat) (p : Pending) (l : Lease), c.config = cfg →
    (c.acquire s now tick id request lag).answer = .waiting p wake →
    (c'.poll s' now' tick' p lag').answer = .ended (.ok l) → l.expiresAt < wordBound →
    now' + lag' + (cfg.ttlFor request.ttl).millis ≤ l.expiresAt
  /-- So does a lease that is renewed. -/
  renew : ∀ (c : Coordinator) (s : Store) (now : Nat) (lock : LockName) (id : LeaseId)
    (extension : Option Duration) (lag : Nat) (renewal : Renewal), c.config = cfg →
    (c.renew s now lock id extension lag).answer = .ok renewal → renewal.expiresAt < wordBound →
    now + (cfg.ttlFor extension).millis ≤ renewal.expiresAt
  /-- A pass of upkeep is made, and it takes every lease that is to be kept alive and has less than
  two periods left. -/
  upkeep : ∀ (c : Coordinator) (s : Store) (now : Nat) (lags : List (Nat × Nat)), c.config = cfg →
    c.registry.Keyed → now + cfg.defaultTtl.wholeMillis < wordBound →
    (∀ l ∈ c.leases, l.expiresAt + 1 < wordBound) →
    ∃ report, (c.upkeep s now cfg.upkeepPeriod lags).answer = .ok report ∧
      ∀ l ∈ c.leases, l.autoRenew = true → l.remaining now < 2 * cfg.upkeepPeriod.millis →
        l ∈ report.renewals.map (·.1)

/-- The longest lease and two periods of upkeep are words of milliseconds. -/
structure Words (cfg : Config) : Prop where
  /-- The longest lease. -/
  maxTtl : cfg.maxTtl.millis < wordBound
  /-- Two periods of upkeep. -/
  window : 2 * cfg.upkeepPeriod.millis < wordBound

/-! ### Words are enough -/

theorem Words.wholeMillis_ttlFor (h : cfg.Words) (hcheck : cfg.check = .ok ())
    (requested : Option Duration) :
    (cfg.ttlFor requested).wholeMillis = (cfg.ttlFor requested).millis :=
  Duration.wholeMillis_of_lt (Nat.lt_of_le_of_lt (millis_ttlFor_le hcheck requested) h.maxTtl)

/-- A lease that is granted for a request lasts as long as that. -/
theorem Words.le_expiresAt_grant (h : cfg.Words) (hcheck : cfg.check = .ok ()) (c : Coordinator)
    (now : Nat) (request : LockRequest) (id : LeaseId) (requested : Option Duration) :
    now + (cfg.ttlFor requested).millis ≤
      (c.grant now request id (cfg.ttlFor requested)).1.expiresAt := by
  rw [← h.wholeMillis_ttlFor hcheck]
  exact Nat.add_le_add_left (Nat.le_max_left _ _) now

/-- The window of a pass, if there is one, is what is left of two periods. -/
theorem wholeMillis_of_double? {window : Duration} (h : cfg.upkeepPeriod.double? = some window) :
    window.wholeMillis = 2 * cfg.upkeepPeriod.millis % wordBound := by
  rw [Duration.wholeMillis, upkeepPeriod, Duration.millis_of_double?_ofSecs h]

/-- The window of a pass is two periods. -/
theorem Words.double?_upkeepPeriod (h : cfg.Words) :
    ∃ window, cfg.upkeepPeriod.double? = some window ∧
      window.wholeMillis = 2 * cfg.upkeepPeriod.millis := by
  have hsecs : 2 * cfg.renewalInterval < wordBound := by
    have hwindow := h.window
    rw [upkeepPeriod, Duration.millis_ofSecs] at hwindow
    omega
  have hdouble : cfg.upkeepPeriod.double? = some _ := Duration.double?_ofSecs hsecs
  exact ⟨_, hdouble, (wholeMillis_of_double? hdouble).trans (Nat.mod_eq_of_lt h.window)⟩

theorem Words.exact (h : cfg.Words) (hcheck : cfg.check = .ok ()) : cfg.Exact := by
  constructor
  case acquire =>
    rintro c s now tick id request lag l rfl hanswer -
    obtain ⟨fault, ho⟩ | ⟨s', -, ho⟩ | ⟨wake, ho⟩ | ⟨fault, ho⟩ :=
      c.acquire_cases s now tick id request lag
    all_goals rw [ho] at hanswer; cases hanswer
    exact h.le_expiresAt_grant hcheck c (now + lag) request id request.ttl
  case poll =>
    rintro c c' s s' now now' tick tick' wake id request lag lag' p l rfl hwaits hanswer -
    obtain rfl : c.pendingFor (tick + lag) id request = p := by
      obtain ⟨fault, ho⟩ | ⟨s', -, ho⟩ | ⟨wake, ho⟩ | ⟨fault, ho⟩ :=
        c.acquire_cases s now tick id request lag
      all_goals rw [ho] at hwaits; cases hwaits
      rfl
    obtain ⟨wake, ho⟩ | ⟨fault, ho⟩ | ⟨s', -, ho⟩ :=
      c'.poll_cases s' now' tick' (c.pendingFor (tick + lag) id request) lag'
    all_goals rw [ho] at hanswer; cases hanswer
    exact h.le_expiresAt_grant hcheck _ (now' + lag') request id request.ttl
  case renew =>
    rintro c s now lock id extension lag renewal rfl hanswer -
    rw [(Coordinator.renews_renew hanswer).2, ← h.wholeMillis_ttlFor hcheck, Coordinator.renewalEnd]
    split
    · exact Nat.le_max_left _ _
    · exact Nat.le_refl _
  case upkeep =>
    rintro c s now lags rfl hkeyed - -
    obtain ⟨window, hwindow, hmillis⟩ := h.double?_upkeepPeriod
    obtain ⟨report, hreport, hmem⟩ := Coordinator.upkeep_of_window hkeyed hwindow s now lags
    refine ⟨report, hreport, fun l hl hauto hdue ↦ (hmem l).2 ⟨hl, hauto, ?_⟩⟩
    rwa [hmillis]

/-! ### Words are needed -/

/-- A length that is asked for is granted if it is not empty and not above the maximum. -/
theorem ttlFor_of_le {ttl : Duration} (hpos : ttl.isZero = false) (hle : ttl ≤ cfg.maxTtl) :
    cfg.ttlFor (some ttl) = ttl := by
  rw [ttlFor, hpos, if_neg Bool.false_ne_true, Duration.shorter, if_pos hle]

/-- Of the least number of milliseconds that is no word nothing is left. -/
theorem keyMillis_ofMillis_wordBound : (Duration.ofMillis wordBound).keyMillis = 1 := by
  rw [Duration.keyMillis, Duration.wholeMillis, Duration.millis_ofMillis, Nat.mod_self]
  rfl

/-- If the longest lease is no word, then a lease of the least length that is none can be asked for,
and it ends a millisecond after its grant. -/
theorem Exact.maxTtl_lt (h : cfg.Exact) : cfg.maxTtl.millis < wordBound := by
  by_contra hmax
  let request : LockRequest := { lock := "L", client := "c", ttl := some (.ofMillis wordBound) }
  have hask : cfg.ttlFor request.ttl = .ofMillis wordBound :=
    ttlFor_of_le (by decide) ((Nat.le_div_iff_mul_le (by decide)).1 (Nat.le_of_not_lt hmax))
  let c : Coordinator := { config := cfg }
  obtain ⟨s', htake⟩ : ∃ s', (Store.memory {}).take 0 "L" "a" (cfg.ttlFor request.ttl) =
      .ok (true, s') := by
    rw [hask]
    exact Store.exists_take rfl (by rw [keyMillis_ofMillis_wordBound]; decide) rfl
  have hgrant : (c.acquire (.memory {}) 0 0 "a" request).answer =
      .ended (.ok (c.grant 0 request "a" (cfg.ttlFor request.ttl)).1) := by
    rw [Coordinator.acquire_of_take 0 (by decide) (by decide) htake]
  have hend : (c.grant 0 request "a" (cfg.ttlFor request.ttl)).1.expiresAt = 1 := by
    rw [hask]
    exact (Nat.zero_add _).trans keyMillis_ofMillis_wordBound
  have hlasts := h.acquire c _ 0 0 "a" request 0 _ rfl hgrant (by rw [hend]; decide)
  rw [hend, hask, Duration.millis_ofMillis] at hlasts
  exact absurd hlasts (by decide)

/-- If two periods are no word, then the pass is not made, or its window is what is left of them and
a lease with just that left is not taken. -/
theorem Exact.window_lt (h : cfg.Exact) : 2 * cfg.upkeepPeriod.millis < wordBound := by
  by_contra hlong
  have hnow : 0 + cfg.defaultTtl.wholeMillis < wordBound := by
    rw [Nat.zero_add]
    exact cfg.defaultTtl.wholeMillis_lt
  -- What is left of two periods, and a lease with just that left, alone in its registry.
  obtain ⟨left, hleft⟩ : ∃ left, left = 2 * cfg.upkeepPeriod.millis % wordBound := ⟨_, rfl⟩
  let l : Lease := ⟨"L", "a", "c", 0, left, true, 0, ∅⟩
  let c : Coordinator := { config := cfg, registry := ({} : Registry).insert l }
  have hkeyed : c.registry.Keyed := Registry.keyed_empty.insert l
  have hleases : c.leases = [l] := rfl
  have hword : left + 1 < wordBound := by
    rw [upkeepPeriod, Duration.millis_ofSecs] at hleft
    rw [wordBound] at hleft ⊢
    omega
  obtain ⟨report, hreport, htaken⟩ := h.upkeep c (.memory {}) 0 [] rfl hkeyed hnow (by
    rw [hleases]
    exact List.forall_mem_singleton.2 hword)
  have hdue : l.remaining 0 < 2 * cfg.upkeepPeriod.millis := by
    show left - 0 < 2 * cfg.upkeepPeriod.millis
    omega
  have hmem := htaken l (hleases ▸ List.mem_singleton_self l) rfl hdue
  cases hwindow : cfg.upkeepPeriod.double? with
  | none =>
    rw [Coordinator.upkeep_of_no_window hwindow] at hreport
    cases hreport
  | some window =>
    obtain ⟨report', hreport', hiff⟩ :=
      Coordinator.upkeep_of_window hkeyed hwindow (.memory {}) 0 []
    rw [hreport] at hreport'
    cases hreport'
    have hless : left < window.wholeMillis := ((hiff l).1 hmem).2.2
    rw [wholeMillis_of_double? hwindow, ← hleft] at hless
    exact Nat.lt_irrefl left hless

/-- **Settings that pass are exact if and only if their lengths are words.** -/
theorem exact_iff_words (cfg : Config) (hcheck : cfg.check = .ok ()) : cfg.Exact ↔ cfg.Words :=
  ⟨fun h ↦ ⟨h.maxTtl_lt, h.window_lt⟩, fun h ↦ h.exact hcheck⟩

/-- The longest lengths that are words. -/
def utmost : Config :=
  { maxTimeout := 18446744073709551, renewalInterval := 9223372036854775 }

/-- The longest lengths are exact. -/
theorem exact_iff_words_utmost : utmost.check = .ok () ∧ utmost.Words ∧ utmost.Exact := by
  have hcheck : utmost.check = .ok () := by decide
  have hwords : utmost.Words := by
    constructor
    · rw [maxTtl, Duration.millis_ofSecs]
      decide
    · rw [upkeepPeriod, Duration.millis_ofSecs]
      decide
  exact ⟨hcheck, hwords, (exact_iff_words utmost hcheck).2 hwords⟩

/-- Two periods of upkeep that leave nothing. -/
def drowsy : Config := { renewalInterval := 2305843009213693952 }

/-- Settings that pass need not be exact. -/
theorem not_exact_drowsy : drowsy.check = .ok () ∧ ¬drowsy.Exact := by
  refine ⟨by decide, fun h ↦ ?_⟩
  have hwindow := h.window_lt
  rw [upkeepPeriod, Duration.millis_ofSecs] at hwindow
  exact absurd hwindow (by decide)

end Config

end LeaseLock
