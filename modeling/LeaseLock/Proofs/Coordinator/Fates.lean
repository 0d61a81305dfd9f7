import LeaseLock.Proofs.Coordinator.Turns

/-!
# What a pass of upkeep does

A pass decides the fate of each lease of the registry by itself (`Lease.fate`). A lease that nobody
renews is forgotten if it has expired. One that is to be kept alive is left as it is if it has the
window left; otherwise it is renewed if the store has it as the live owner of its lock, and
forgotten if not. The list of leases behind the pass is that of the leases before, each with its
fate (`Coordinator.PassDone`).

Pruning takes no candidate, and the turns of the candidates do not depend on each other, so the
fates can be read off the state before the pass. The rows that a renewal prolongs were live before,
so the purge at the end deletes exactly the rows that had expired before the pass.

## What is counted

The report of a pass lists what became of each candidate, and its counts are those of the fates: so
many leases renewed, so many dropped, so many forgotten because they had expired. Nothing is counted
twice, because a lease has one fate (`Coordinator.count_answered`), and the rows that are purged are
counted in the store before the pass.

## A store out of reach

Then no candidate is renewed or dropped, all of them are reported as failed, and nothing is purged
(`Coordinator.PassFailed`). Pruning needs no store and is done all the same. The candidates stay in
the registry, those among them that have expired included, and are tried again by the next pass.
-/

namespace LeaseLock

/-- What becomes of a lease. -/
inductive Fate where
  /-- It has expired, and nobody renews it: it is forgotten. -/
  | expired
  /-- It is renewed. -/
  | renewed
  /-- It is not the live owner of its lock any more: it is forgotten. -/
  | dropped
  /-- It stays as it is. -/
  | spared
deriving DecidableEq, Repr

/-- What a pass at `now` makes of a lease when the store is `s`. -/
def Lease.fate (l : Lease) (s : Store) (now window : Nat) : Fate :=
  if l.autoRenew then
    if l.remaining now < window then
      if s.owner? now l.lock = some l.id then .renewed else .dropped
    else .spared
  else if l.isExpired now then .expired else .spared

namespace Coordinator

variable {c : Coordinator} {s : Store} {now window : Nat} {l : Lease}

/-! ### The pass -/

/-- What a pass leaves of a lease. -/
def afterPass (c : Coordinator) (s : Store) (now window : Nat) (l : Lease) : Option Lease :=
  match l.fate s now window with
  | .expired | .dropped => none
  | .renewed => some (c.prolonged now l)
  | .spared => some l

/-- A pass over a store within reach has done its job. -/
structure PassDone (c : Coordinator) (s : Store) (now window : Nat) (report : UpkeepReport)
    (s' : Store) (c' : Coordinator) : Prop where
  /-- The settings and the waiting clients are the same. -/
  onlyLeases : c.OnlyLeases c'
  /-- The leases are those of before in the same order, each as its fate leaves it. -/
  leases : c'.leases = c.leases.filterMap (c.afterPass s now window)
  /-- The row of a lease that is renewed has the end of the lease. -/
  row_of_renewed : ∀ l ∈ c.leases, l.fate s now window = .renewed →
    s'.row? l.lock = some ⟨l.id, (c.prolonged now l).expiresAt⟩
  /-- Of the other rows those are left that are live. -/
  row_elsewhere : ∀ lock, (∀ l ∈ c.leases, l.fate s now window = .renewed → l.lock ≠ lock) →
    s'.row? lock = s.live? now lock
  /-- The leases that are forgotten because they have expired are counted. -/
  pruned : report.pruned.length = c.leases.countP (·.fate s now window = .expired)
  /-- The leases that are renewed are counted. -/
  renewed : report.count .renewed = c.leases.countP (·.fate s now window = .renewed)
  /-- The leases that are forgotten because they do not own their locks are counted. -/
  dropped : report.count .dropped = c.leases.countP (·.fate s now window = .dropped)
  /-- No renewal has failed. -/
  failed : report.count .failed = 0
  /-- The rows that have expired are counted. -/
  purged : report.purged = s.deadCount now

/-- A pass over a store out of reach has done what it can. -/
structure PassFailed (c : Coordinator) (s : Store) (now window : Nat) (report : UpkeepReport)
    (s' : Store) (c' : Coordinator) : Prop where
  /-- The settings and the waiting clients are the same. -/
  onlyLeases : c.OnlyLeases c'
  /-- Only the expired leases that nobody renews are forgotten, and the other ones are the same. -/
  leases : c'.leases = c.leases.filter (·.fate s now window ≠ .expired)
  /-- The store is the same. -/
  store : s' = s
  /-- The leases that are forgotten are counted. -/
  pruned : report.pruned.length = c.leases.countP (·.fate s now window = .expired)
  /-- No lease is renewed. -/
  renewed : report.count .renewed = 0
  /-- No lease is dropped. -/
  dropped : report.count .dropped = 0
  /-- The renewal of every candidate has failed. -/
  failed : report.count .failed = (c.dueForRenewal now window).length
  /-- No row is deleted. -/
  purged : report.purged = 0

theorem mem_dueForRenewal_iff : l ∈ c.dueForRenewal now window ↔
    l ∈ c.leases ∧ l.autoRenew = true ∧ l.remaining now < window := by
  rw [dueForRenewal, List.mem_filter, Bool.and_eq_true, decide_eq_true_iff]

theorem fate_of_due (s : Store) (h : l.autoRenew = true ∧ l.remaining now < window) :
    l.fate s now window = if s.owner? now l.lock = some l.id then .renewed else .dropped := by
  rw [Lease.fate, if_pos h.1, if_pos h.2]

theorem fate_of_not_due (s : Store) (h : ¬ (l.autoRenew = true ∧ l.remaining now < window)) :
    l.fate s now window = if !l.autoRenew && l.isExpired now then .expired else .spared := by
  rw [Lease.fate]
  by_cases hauto : l.autoRenew = true
  · rw [if_pos hauto, if_neg fun hlt ↦ h ⟨hauto, hlt⟩, hauto]
    rfl
  · rw [if_neg hauto, Bool.eq_false_iff.2 hauto]
    rfl

theorem fate_eq_expired_iff : l.fate s now window = .expired ↔
    l.autoRenew = false ∧ l.isExpired now = true := by
  by_cases hdue : l.autoRenew = true ∧ l.remaining now < window
  · rw [fate_of_due s hdue, hdue.1]
    split <;> simp
  · rw [fate_of_not_due s hdue]
    split <;> simp_all

theorem fate_eq_renewed_iff : l.fate s now window = .renewed ↔
    (l.autoRenew = true ∧ l.remaining now < window) ∧ s.owner? now l.lock = some l.id := by
  by_cases hdue : l.autoRenew = true ∧ l.remaining now < window
  · rw [fate_of_due s hdue, and_iff_right hdue]
    split <;> simp_all
  · rw [fate_of_not_due s hdue]
    split <;> simp [hdue]

theorem fate_eq_dropped_iff : l.fate s now window = .dropped ↔
    (l.autoRenew = true ∧ l.remaining now < window) ∧ s.owner? now l.lock ≠ some l.id := by
  by_cases hdue : l.autoRenew = true ∧ l.remaining now < window
  · rw [fate_of_due s hdue, and_iff_right hdue]
    split <;> simp_all
  · rw [fate_of_not_due s hdue]
    split <;> simp [hdue]

/-- Pruning takes no candidate. -/
theorem dueForRenewal_prune (hsound : c.registry.Sound) (now window : Nat) :
    dueForRenewal { c with registry := (c.registry.prune now).1 } now window =
      c.dueForRenewal now window := by
  rw [dueForRenewal, leases, Registry.leases_prune hsound.keyed hsound.toNumbered,
    List.filter_filter, dueForRenewal, leases]
  refine List.filter_congr fun l _ ↦ ?_
  cases l.autoRenew <;> simp

/-- What is pruned is what has the fate to expire. -/
theorem length_pruned (c : Coordinator) (s : Store) (now window : Nat) :
    (c.registry.prune now).2.length = c.leases.countP (·.fate s now window = .expired) := by
  rw [(c.registry.perm_prune now).length_eq, ← List.countP_eq_length_filter, leases]
  refine List.countP_congr fun l _ ↦ ?_
  rw [decide_eq_true_iff, fate_eq_expired_iff, Bool.and_eq_true, Bool.not_eq_true']

/-- A store within reach renews a candidate or gives the verdict that it is to be dropped. -/
theorem ofRenewal_answered (c : Coordinator) (s : Store) (now : Nat) (l : Lease) :
    Verdict.ofRenewal (c.answered s now l) =
      if s.owner? now l.lock = some l.id then .renewed else .dropped := by
  rw [answered]
  split <;> rfl

/-- The renewals with a verdict are counted over the leases of the registry. -/
theorem count_answered (c : Coordinator) (s : Store) (now window : Nat) (v : Verdict)
    {report : UpkeepReport} (h : report.renewals =
      (c.dueForRenewal now window).map fun l ↦ (l, c.answered s now l)) :
    report.count v = c.leases.countP fun l ↦
      Verdict.ofRenewal (c.answered s now l) = v ∧ l.autoRenew = true ∧
        l.remaining now < window := by
  rw [UpkeepReport.count, h, List.countP_map, dueForRenewal, List.countP_filter]
  refine List.countP_congr fun l _ ↦ ?_
  simp

/-- The state in which a pass takes its candidates. -/
def pruned (c : Coordinator) (s : Store) (now : Nat) : Outcome UpkeepReport :=
  ⟨{ pruned := (c.registry.prune now).2 }, s, { c with registry := (c.registry.prune now).1 }⟩

/-- A pass with a window that is a number of milliseconds. -/
theorem upkeep_eq (hsound : c.registry.Sound) (s : Store) (now : Nat) {interval : Duration}
    (hwindow : 2 * interval.nanos / 1000000 < wordBound) :
    c.upkeep s now interval =
      let o := purgeAfter now <|
        (c.dueForRenewal now (2 * interval.nanos / 1000000)).foldl (renewDue now 0) (c.pruned s now)
      ⟨.ok o.answer, o.store, o.coordinator⟩ := by
  have hdouble : interval.double? = some ⟨2 * interval.nanos⟩ := by
    rw [Duration.double?, if_pos]
    show 2 * interval.nanos ≤ Duration.longest.nanos
    simp only [Duration.longest, Duration.ofParts, wordBound] at hwindow ⊢
    omega
  have hmillis : (⟨2 * interval.nanos⟩ : Duration).wholeMillis = 2 * interval.nanos / 1000000 :=
    Nat.mod_eq_of_lt hwindow
  rw [upkeep]
  simp only [hdouble, hmillis, dueForRenewal_prune hsound, renewAll_still]
  rfl

/-- What the pruning and the turns of the candidates leave of a lease. -/
theorem afterPass_eq (hsound : c.registry.Sound) (s : Store) (hl : l ∈ c.leases) :
    c.afterPass s now window l =
      if !(!l.autoRenew && l.isExpired now) then
        if l.id ∈ (c.dueForRenewal now window).map (·.id) then c.turned s now l else some l
      else none := by
  have hmem : l.id ∈ (c.dueForRenewal now window).map (·.id) ↔
      l.autoRenew = true ∧ l.remaining now < window := by
    constructor
    · intro hid
      obtain ⟨l', hl', hid⟩ := List.mem_map.1 hid
      obtain ⟨hl', hdue⟩ := mem_dueForRenewal_iff.1 hl'
      obtain rfl := eq_of_known hsound (hsound.keyed.mem_leases_iff.1 hl) hl' hid
      exact hdue
    · exact fun hdue ↦ List.mem_map_of_mem (mem_dueForRenewal_iff.2 ⟨hl, hdue⟩)
  by_cases hdue : l.autoRenew = true ∧ l.remaining now < window
  · rw [afterPass, fate_of_due s hdue, if_pos (hmem.2 hdue), turned, hdue.1]
    by_cases howner : s.owner? now l.lock = some l.id <;> simp [howner]
  · rw [afterPass, fate_of_not_due s hdue, if_neg (hmem.not.2 hdue)]
    cases !l.autoRenew && l.isExpired now <;> rfl

/-- The candidates of a pass have their turns behind the pruning. -/
theorem turned_pruned (hsound : c.registry.Sound) (hdefault : 0 < c.config.defaultTimeout)
    (hping : s.ping = .ok ()) (hnow : now + c.config.defaultTimeout * 1000 < s.numberBound)
    (hfits : ∀ l ∈ c.dueForRenewal now window, l.expiresAt + 1 < s.numberBound) :
    Turned now (c.dueForRenewal now window) (c.pruned s now)
      ((c.dueForRenewal now window).foldl (renewDue now 0) (c.pruned s now)) := by
  have hprune : (c.registry.prune now).1.Sound := hsound.apply (.prune now)
  have hdue : dueForRenewal (c.pruned s now).coordinator now window = c.dueForRenewal now window :=
    dueForRenewal_prune hsound now window
  refine turned_foldl hprune (fun l hl ↦ ?_)
    (hdue ▸ nodup_dueForRenewal hprune.keyed now window) hping hdefault hnow hfits
  exact hprune.keyed.mem_leases_iff.1 (mem_dueForRenewal_iff.1 (hdue ▸ hl)).1

/-- **A pass over a store within reach.** -/
theorem passDone_upkeep (hsound : c.registry.Sound) (hdefault : 0 < c.config.defaultTimeout)
    (hfull : s.isFull = true) (hping : s.ping = .ok ())
    (hnow : now + c.config.defaultTimeout * 1000 < s.numberBound)
    (hfits : ∀ l ∈ c.dueForRenewal now window, l.expiresAt + 1 < s.numberBound)
    {o : Outcome UpkeepReport}
    (ho : o = purgeAfter now
      ((c.dueForRenewal now window).foldl (renewDue now 0) (c.pruned s now))) :
    c.PassDone s now window o.answer o.store o.coordinator := by
  have hturned := turned_pruned hsound hdefault hping hnow hfits
  generalize (c.dueForRenewal now window).foldl (renewDue now 0) (c.pruned s now) = o₁ at hturned ho
  obtain ⟨s', hpurge, hrows⟩ : ∃ s', o₁.store.purge now = .ok (o₁.store.deadCount now, s') ∧
      ∀ k, s'.row? k = o₁.store.live? now k := by
    refine Store.purge_eq ?_ ?_ ?_
    · rw [Store.isFull_congr hturned.emptied]
      exact hfull
    · rw [Store.ping_congr hturned.emptied]
      exact hping
    · rw [Store.numberBound_congr hturned.emptied]
      exact Nat.lt_of_le_of_lt (Nat.le_add_right now _) hnow
  rw [hturned.deadCount_eq hdefault] at hpurge
  simp only [purgeAfter, hpurge] at ho
  subst ho
  have hrenewals : o₁.answer.renewals =
      (c.dueForRenewal now window).map fun l ↦ (l, c.answered s now l) := by
    rw [hturned.answer]
    exact List.nil_append _
  constructor
  case onlyLeases =>
    exact ⟨hturned.onlyLeases.config, hturned.onlyLeases.timing,
      hturned.onlyLeases.waiting.trans Registry.waiting_prune⟩
  case leases =>
    have hleases := hturned.leases
    rw [show (c.pruned s now).coordinator.leases = (c.registry.prune now).1.leases from rfl,
      Registry.leases_prune hsound.keyed hsound.toNumbered, List.filterMap_filter] at hleases
    rw [hleases]
    refine List.filterMap_congr fun l hl ↦ ?_
    exact (afterPass_eq hsound s hl).symm
  case row_of_renewed =>
    intro l hl hfate
    obtain ⟨hcandidate, howner⟩ := fate_eq_renewed_iff.1 hfate
    have hrow := hturned.row_of_owner l (mem_dueForRenewal_iff.2 ⟨hl, hcandidate⟩) howner
    rw [hrows]
    refine Store.live?_eq_some_iff.2 ⟨hrow, ?_⟩
    simp only [prolonged]
    omega
  case row_elsewhere =>
    intro k hk
    have hrow : o₁.store.row? k = s.row? k := by
      refine hturned.row_elsewhere k fun l hl howner ↦ ?_
      obtain ⟨hl, hcandidate⟩ := mem_dueForRenewal_iff.1 hl
      exact hk l hl (fate_eq_renewed_iff.2 ⟨hcandidate, howner⟩)
    rw [hrows, Store.live?, hrow, Store.live?]
  case pruned =>
    dsimp only
    rw [hturned.answer]
    exact c.length_pruned s now window
  case renewed =>
    refine (count_answered c s now window .renewed hrenewals).trans ?_
    refine List.countP_congr fun l _ ↦ ?_
    rw [decide_eq_true_iff, decide_eq_true_iff, fate_eq_renewed_iff, ofRenewal_answered]
    split <;> simp_all
  case dropped =>
    refine (count_answered c s now window .dropped hrenewals).trans ?_
    refine List.countP_congr fun l _ ↦ ?_
    rw [decide_eq_true_iff, decide_eq_true_iff, fate_eq_dropped_iff, ofRenewal_answered]
    split <;> simp_all
  case failed =>
    refine (count_answered c s now window .failed hrenewals).trans ?_
    rw [List.countP_eq_zero]
    intro l _
    rw [decide_eq_true_iff, ofRenewal_answered]
    split <;> simp
  case purged => rfl

/-- **A pass over a store out of reach.** -/
theorem passFailed_upkeep (hsound : c.registry.Sound) (hfull : s.isFull = true)
    {fault : StoreFault} (hping : s.ping = .error fault) {o : Outcome UpkeepReport}
    (ho : o = purgeAfter now
      ((c.dueForRenewal now window).foldl (renewDue now 0) (c.pruned s now))) :
    c.PassFailed s now window o.answer o.store o.coordinator := by
  rw [foldl_renewDue_of_outage (o := c.pruned s now) hping] at ho
  simp only [purgeAfter, pruned, Store.purge_of_outage hfull hping] at ho
  subst ho
  have hcount (v : Verdict) : UpkeepReport.count
      { pruned := (c.registry.prune now).2
        renewals := [] ++
          (c.dueForRenewal now window).map fun l ↦ (l, .error (.storeUnavailable fault)) } v =
      (c.dueForRenewal now window).countP fun _ ↦ Verdict.failed = v := by
    rw [UpkeepReport.count, List.nil_append, List.countP_map]
    rfl
  constructor
  case onlyLeases => exact ⟨rfl, rfl, Registry.waiting_prune⟩
  case leases =>
    show (c.registry.prune now).1.leases = _
    rw [Registry.leases_prune hsound.keyed hsound.toNumbered, leases]
    refine List.filter_congr fun l _ ↦ ?_
    rw [Bool.eq_iff_iff, decide_eq_true_iff, ne_eq, fate_eq_expired_iff]
    cases l.autoRenew <;> simp
  case store => rfl
  case pruned => exact c.length_pruned s now window
  case renewed =>
    rw [hcount]
    simp
  case dropped =>
    rw [hcount]
    simp
  case failed =>
    rw [hcount]
    simp
  case purged => rfl

/-- **A pass of upkeep does its job.** In whatever way the registry has come about, and whatever is
in the store: if the store is within reach, every lease meets its fate in the registry and in the
store, the expired rows are deleted, and all of it is counted; if it is out of reach, the expired
leases are forgotten and nothing else happens. -/
theorem upkeep_settles {updates : List Registry.Update} {interval : Duration}
    (hreach : c.registry = .after updates) (hdefault : 0 < c.config.defaultTimeout)
    (hfull : s.isFull = true) (hwindow : 2 * interval.nanos / 1000000 < wordBound)
    (hnow : now + c.config.defaultTimeout * 1000 < s.numberBound)
    (hfits : ∀ l ∈ c.dueForRenewal now (2 * interval.nanos / 1000000),
      l.expiresAt + 1 < s.numberBound) :
    ∃ report s' c', c.upkeep s now interval = ⟨.ok report, s', c'⟩ ∧
      (s.ping = .ok () → c.PassDone s now (2 * interval.nanos / 1000000) report s' c') ∧
      ∀ fault, s.ping = .error fault →
        c.PassFailed s now (2 * interval.nanos / 1000000) report s' c' := by
  have hsound : c.registry.Sound := hreach ▸ Registry.sound_after updates
  exact ⟨_, _, _, upkeep_eq hsound s now hwindow,
    fun hping ↦ passDone_upkeep hsound hdefault hfull hping hnow hfits rfl,
    fun _ hping ↦ passFailed_upkeep hsound hfull hping rfl⟩

/-- A coordinator with a lease for each fate, of which two are to be kept alive. -/
def mixed : Coordinator where
  config := {}
  registry := .after
    [.insert (.grant "K" "1" "a" (.ofMillis 2000) true ∅ 0),
      .insert (.grant "L" "2" "b" (.ofMillis 3000) true ∅ 0),
      .insert (.grant "M" "3" "c" (.ofMillis 500) false ∅ 0),
      .insert (.grant "N" "4" "d" (.ofSecs 60) true ∅ 0)]

/-- The first lease owns its lock, and that of the second one has gone to another owner. -/
def mixedStore : Store :=
  .memory { rows := .ofList [("K", ⟨"1", 2000⟩), ("L", ⟨"5", 4000⟩), ("M", ⟨"3", 500⟩)] }

/-- A second later the first lease is renewed, the second one is dropped, the third one has expired
and the last one has more than two intervals left. -/
theorem upkeep_settles_mixed :
    mixed.leases.map (·.fate mixedStore 1000 10000) = [.renewed, .dropped, .expired, .spared] ∧
    ∃ report s' c', mixed.upkeep mixedStore 1000 (.ofSecs 5) = ⟨.ok report, s', c'⟩ ∧
      mixed.PassDone mixedStore 1000 10000 report s' c' := by
  obtain ⟨report, s', c', hupkeep, hdone, -⟩ :=
    @upkeep_settles mixed mixedStore 1000 _ (.ofSecs 5) rfl (by decide) rfl (by decide)
      (by decide) (by decide)
  exact ⟨by decide, report, s', c', hupkeep, hdone rfl⟩

end Coordinator

end LeaseLock
