import Mathlib.Data.List.Induction
import LeaseLock.Proofs.Coordinator.Pass

/-!
# What a renewal does

A renewal that succeeds extends the key of the lease in the store, and notes the end of the renewal
in the registry if the lease is known there (`Coordinator.Renews`). The length for which the store
keeps the key reaches from the time at which the renewal began to its end. The store counts it from
its own reading of the clock, so the key outlasts the end by as much as the clock has moved on in
between.

A pass of upkeep does the same for each candidate that it renews, at some time in the course of the
pass. What it does before and after that spares the candidate, unless the pass takes so long that
the lease has expired again when the store is purged at its end (`Coordinator.renews_upkeep`).

## Three instants of a renewal

A renewal begins, reaches the store, and ends the lease. The first two are readings of the clock,
and the third is computed from the first and from what is known of the lease. The coordinator hands
the store the length from the first to the third, so the row ends as much later than the lease as
the second is later than the first (`Coordinator.extendedTo`).

What a renewal does is said with the row that it has written, and not with the instant at which the
next operation finds it. So the statement holds however late the caller hears of it.
-/

namespace LeaseLock

namespace Coordinator

variable {c c' : Coordinator} {s s' : Store} {now lag : Nat} {extension : Option Duration}
  {lock : LockName} {id : LeaseId} {l : Lease} {renewal : Renewal}

/-! ### What a renewal does -/

/-- When a key expires that is extended by a renewal that began at `now` and reaches the store `lag`
later. The store counts the length of the renewal, which is a millisecond at least. -/
def extendedTo (c : Coordinator) (now lag : Nat) (id : LeaseId) (extension : Option Duration) :
    Nat :=
  now + lag + (Duration.ofMillis (c.renewalEnd now id extension - now)).keyMillis

/-- A renewal of the lease `id` that began at `now` and reached the store `lag` later has turned the
coordinator `c` and the store `s` into `c'` and `s'`. -/
structure Renews (c : Coordinator) (s : Store) (now lag : Nat) (extension : Option Duration)
    (lock : LockName) (id : LeaseId) (c' : Coordinator) (s' : Store) : Prop where
  /-- The store can be used. -/
  reach : s.ping = .ok ()
  /-- The lease owned its lock. -/
  before : ∃ e, s.live? (now + lag) lock = some ⟨id, e⟩
  /-- The key is extended. -/
  after : s'.row? lock = some ⟨id, c.extendedTo now lag id extension⟩
  /-- If the lease was known, its new end is. -/
  known : c'.registry.lease? id =
    (c.registry.lease? id).map (Registry.renewed · (c.renewalEnd now id extension))

/-- The end of a renewal depends on the settings and on what is known of the lease. -/
theorem renewalEnd_congr (now : Nat) (extension : Option Duration)
    (hconfig : c'.config = c.config) (hknown : c'.registry.lease? id = c.registry.lease? id) :
    c'.renewalEnd now id extension = c.renewalEnd now id extension := by
  rw [renewalEnd, hconfig, hknown, renewalEnd]

/-- A renewal that succeeds. -/
theorem renews_renew (h : (c.renew s now lock id extension lag).answer = .ok renewal) :
    c.Renews s now lag extension lock id (c.renew s now lock id extension lag).coordinator
        (c.renew s now lock id extension lag).store ∧
      renewal.expiresAt = c.renewalEnd now id extension := by
  obtain ⟨fault, ho⟩ | ⟨s', hextend, ho⟩ := c.renew_cases s now lock id extension lag
  · rw [ho] at h
    cases h
  · rw [ho] at h ⊢
    cases h
    obtain ⟨hbefore, hsets⟩ := Store.extend_spec hextend
    refine ⟨⟨Store.ping_of_extend hextend, hbefore, hsets.at_lock, ?_⟩, expiresAt_noteRenewal⟩
    show ((c.noteRenewal id _).2.registry).lease? id = _
    rw [registry_noteRenewal, Registry.lease?_noteRenewal, if_pos rfl]

/-- A candidate of a pass that has been renewed had its turn. -/
theorem exists_turn {w : Watch} {o : Outcome UpkeepReport} (hnone : o.answer.renewals = [])
    (ls : List Lease) (hmem : (l, .ok renewal) ∈ (renewAll w o ls).2.answer.renewals) :
    ∃ past later w₁ o₁, ls = past ++ l :: later ∧ renewAll w o past = (w₁, o₁) ∧
      (o₁.coordinator.renew o₁.store w₁.start l.lock l.id none w₁.lag).answer = .ok renewal := by
  induction ls using List.reverseRecOn with
  | nil =>
    rw [renewAll, hnone] at hmem
    cases hmem
  | append_singleton ls l' ih =>
    rw [renewAll_append] at hmem
    rcases List.mem_append.1 hmem with hmem | hmem
    · obtain ⟨past, later, w₁, o₁, rfl, hpast, hturn⟩ := ih hmem
      exact ⟨past, later ++ [l'], w₁, o₁, by simp, hpast, hturn⟩
    · obtain ⟨rfl, hanswer⟩ := Prod.mk.inj (List.mem_singleton.1 hmem)
      exact ⟨ls, [], _, _, rfl, rfl, hanswer.symm⟩

/-- What comes before and after a renewal spares the lease. -/
theorem Renews.spared {o o₁ o₂ o₃ : Outcome UpkeepReport}
    (h : o₁.coordinator.Renews o₁.store now lag extension lock id o₂.coordinator o₂.store)
    (hconfig : o₁.coordinator.config = o.coordinator.config) (hping : o₁.store.ping = o.store.ping)
    (h₁ : Spares id o o₁) (h₂ : Spares id o₂ o₃) :
    o.coordinator.Renews o.store now lag extension lock id o₃.coordinator o₃.store := by
  have hend := renewalEnd_congr now extension hconfig h₁.known
  constructor
  · exact hping ▸ h.reach
  · obtain ⟨e, he⟩ := h.before
    obtain ⟨hrow, hlt⟩ := Store.live?_eq_some_iff.1 he
    exact ⟨e, Store.live?_eq_some_iff.2 ⟨(h₁.row lock e).1 hrow, hlt⟩⟩
  · rw [h₂.row, h.after, extendedTo, hend, ← extendedTo]
  · rw [h₂.known, h.known, hend, h₁.known]

/-- The renewal of one of several candidates in turn. -/
theorem renews_renewAll {w : Watch} {o : Outcome UpkeepReport} (hnone : o.answer.renewals = [])
    {ls : List Lease} (hnodup : (ls.map (·.id)).Nodup)
    (hmem : (l, .ok renewal) ∈ (renewAll w o ls).2.answer.renewals) :
    l ∈ ls ∧ ∃ w₁, w.Precedes w₁ ∧ w₁.next.Precedes (renewAll w o ls).1 ∧
      o.coordinator.Renews o.store w₁.start w₁.lag none l.lock l.id
        (renewAll w o ls).2.coordinator (renewAll w o ls).2.store ∧
      renewal.expiresAt = o.coordinator.renewalEnd w₁.start l.id none := by
  obtain ⟨past, later, w₁, o₁, rfl, hpasteq, hturn⟩ := exists_turn hnone ls hmem
  -- Each id is listed once, so the other candidates are other leases.
  rw [List.map_append, List.map_cons, List.nodup_append, List.nodup_cons] at hnodup
  obtain ⟨-, ⟨hlater, -⟩, hdisjoint⟩ := hnodup
  have hpast : l.id ∉ past.map (·.id) := fun hin ↦ hdisjoint _ hin _ List.mem_cons_self rfl
  have hbefore := spares_renewAll w o hpast
  have hconfig := (onlyLeases_renewAll w past o).config
  have hping := ping_renewAll w past o
  have hprecedes := precedes_renewAll w past o
  rw [renewAll_append]
  rw [hpasteq] at hbefore hconfig hping hprecedes ⊢
  obtain ⟨hrenews, hend⟩ := renews_renew hturn
  have hturned : (renewDue w₁.start w₁.lag o₁ l).coordinator =
      (o₁.coordinator.renew o₁.store w₁.start l.lock l.id none w₁.lag).coordinator := by
    rw [renewDue]
    simp only [hturn, Verdict.ofRenewal, reduceCtorEq, if_false]
  have hdue : o₁.coordinator.Renews o₁.store w₁.start w₁.lag none l.lock l.id
      (renewDue w₁.start w₁.lag o₁ l).coordinator (renewDue w₁.start w₁.lag o₁ l).store := by
    rw [hturned]
    exact hrenews
  exact ⟨List.mem_append_right past List.mem_cons_self, w₁, hprecedes,
    precedes_renewAll w₁.next later _,
    hdue.spared hconfig hping hbefore (spares_renewAll w₁.next _ hlater),
    hend.trans (renewalEnd_congr _ none hconfig hbefore.known)⟩

/-- The purge at the end of a pass deletes rows that have expired. -/
theorem purgedBy_purgeAfter {t last : Nat} (hlast : t ≤ last) (o : Outcome UpkeepReport) :
    o.store.PurgedBy (purgeAfter t o).store last := by
  rw [purgeAfter]
  split
  · next hpurge => exact Store.purgedBy_purge hpurge hlast
  · exact .refl _ _

/-- The renewal of a candidate by a pass. It is made at some time in the course of the pass, and the
rows that it leaves are purged in the end. -/
theorem renews_upkeep (hkeyed : c.registry.Keyed) {interval : Duration} {lags : List (Nat × Nat)}
    {report : UpkeepReport} (hreport : (c.upkeep s now interval lags).answer = .ok report)
    (hmem : (l, .ok renewal) ∈ report.renewals) :
    ∃ w s₁, (⟨now, lags⟩ : Watch).Precedes w ∧
      c.Renews s w.start w.lag none l.lock l.id (c.upkeep s now interval lags).coordinator s₁ ∧
      s₁.PurgedBy (c.upkeep s now interval lags).store w.last ∧
      renewal.expiresAt = c.renewalEnd w.start l.id none := by
  let c₁ : Coordinator := { c with registry := (c.registry.prune now).1 }
  let o : Outcome UpkeepReport := ⟨{ pruned := (c.registry.prune now).2 }, s, c₁⟩
  have hkeyed₁ : c₁.registry.Keyed := hkeyed.prune
  rw [upkeep] at hreport ⊢
  cases hwindow : interval.double? with
  | none =>
    simp only [hwindow] at hreport
    cases hreport
  | some window =>
    simp only [hwindow] at hreport ⊢
    let ls := c₁.dueForRenewal now window.wholeMillis
    let r := renewAll ⟨now, lags⟩ o ls
    have hrenewals : (purgeAfter r.1.start r.2).answer.renewals = r.2.answer.renewals := by
      rw [purgeAfter]
      split <;> rfl
    rw [← Except.ok.inj hreport, hrenewals] at hmem
    have hnodup : (ls.map (·.id)).Nodup := nodup_dueForRenewal hkeyed₁ now _
    obtain ⟨hdue, w, hbefore, hafter, hrenews, hend⟩ := renews_renewAll rfl hnodup hmem
    -- A candidate is a lease that the prune has spared.
    have hknown₁ : c₁.registry.lease? l.id = some l :=
      hkeyed₁.mem_leases_iff.1 (List.mem_filter.1 hdue).1
    have hknown : c₁.registry.lease? l.id = c.registry.lease? l.id := by
      rw [hkeyed.lease?_prune, Option.filter_eq_some_iff] at hknown₁
      rw [hknown₁.1]
      exact hkeyed₁.mem_leases_iff.1 (List.mem_filter.1 hdue).1
    have hpruned : Spares l.id ⟨{}, s, c⟩ o := ⟨hknown, fun _ _ ↦ Iff.rfl⟩
    have hlast : r.1.start ≤ w.last := by
      rw [← w.precedes_next.last_eq, ← hafter.last_eq]
      exact Nat.le_trans (Nat.le_add_right _ _) r.1.start_add_lag_le_last
    refine ⟨w, r.2.store, hbefore, ?_, purgedBy_purgeAfter hlast r.2,
      hend.trans (renewalEnd_congr _ none rfl hknown)⟩
    show c.Renews s w.start w.lag none l.lock l.id (purgeAfter r.1.start r.2).coordinator r.2.store
    rw [coordinator_purgeAfter]
    exact Renews.spared (o := ⟨{}, s, c⟩) hrenews rfl rfl hpruned (.refl _ _)

end Coordinator

end LeaseLock
