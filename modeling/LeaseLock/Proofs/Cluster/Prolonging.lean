import LeaseLock.Proofs.Cluster.Known
import LeaseLock.Proofs.Cluster.Serve
import LeaseLock.Proofs.Coordinator.Renewals

/-!
# When a renewal prolongs a lease

A renewal of a lease that its coordinator knows is meant to end later than the lease does. It is
computed from the end in the registry, and the store has the last word: if another coordinator has
renewed the lease in the meantime, the registry is behind the store, and the renewal may bring the
end of the key closer (`Cluster.not_later_detour`).

## The exact condition

**A renewal prolongs a lease if the registry is not behind.** The key lasts longer behind a renewal
than before it if and only if it did not outlast the lease as the registry has it, or does not
outlast what was asked for (`Cluster.later_iff_not_behind`). The store counts what it is asked to
add from its own reading of the clock, so all this is to be understood up to the time that passes
between the beginning of the renewal and the one at which it reaches the store.

## When the registry is not behind

As long as a lease is renewed through one coordinator only, by callers and by passes of upkeep, the
registry there is behind by no more than the time that passes within these renewals, and every
renewal within which as much time passes prolongs the lease. In particular every renewal does if
none takes any time.

That the registry is not behind (`Coordinator.Current`) is kept by everything that happens except
for renewals through other coordinators (`Cluster.Move.current`), and a renewal through the same
coordinator keeps it too, whether a caller or a pass made it (`Coordinator.Renews.current`).

## Passes that take their time

A pass that renews a lease may go on for so long that the key has expired again when it purges the
store. The key has been extended none the less, and what it was extended to is what the comparison
is about (`Cluster.Extends`).
-/

namespace LeaseLock

namespace Coordinator

variable {c c' : Coordinator} {s s' : Store} {now lag d : Nat} {extension : Option Duration}
  {lock : LockName} {id : LeaseId} {l : Lease}

/-- The registry is behind the store by no more than `d`: no key of the lease `id` outlasts the
lease as it is known by more than that. -/
def Current (c : Coordinator) (s : Store) (id : LeaseId) (d : Nat) : Prop :=
  ∀ l lock e, c.registry.lease? id = some l → s.row? lock = some ⟨id, e⟩ → e ≤ l.expiresAt + d

/-- A renewal extends the key beyond the time at which it reaches the store. -/
theorem lt_extendedTo (c : Coordinator) (now lag : Nat) (id : LeaseId)
    (extension : Option Duration) : now + lag < c.extendedTo now lag id extension :=
  Nat.lt_add_of_pos_right (Duration.keyMillis_pos _)

/-- The key of a lease that is known lasts longer behind a renewal if and only if it did not outlast
the lease, or does not outlast what was asked for. -/
theorem Renews.later_iff (h : c.Renews s now lag extension lock id c' s')
    (hl : c.registry.lease? id = some l) (hfits : c.renewalEnd now id extension < wordBound) :
    ∃ e, s.row? lock = some ⟨id, e⟩ ∧ now + lag < e ∧
      (e < c.extendedTo now lag id extension ↔
        e ≤ l.expiresAt + lag ∨ e < now + lag + (c.config.ttlFor extension).wholeMillis) := by
  obtain ⟨e, he⟩ := h.before
  obtain ⟨hrow, hlive⟩ := Store.live?_eq_some_iff.1 he
  have hlive : now + lag < e := hlive
  have hend : c.renewalEnd now id extension =
      max (now + (c.config.ttlFor extension).wholeMillis) (l.expiresAt + 1) := by
    simp only [renewalEnd, hl]
  have hmillis : (Duration.ofMillis (c.renewalEnd now id extension - now)).keyMillis =
      max (c.renewalEnd now id extension - now) 1 := by
    rw [Duration.keyMillis, Duration.wholeMillis_ofMillis (by omega)]
  refine ⟨e, hrow, hlive, ?_⟩
  rw [extendedTo, hmillis, hend]
  omega

/-- A renewal keeps a registry that is not behind so, unless it takes too long. -/
theorem Renews.current (h : c.Renews s now lag extension lock id c' s')
    (hcurrent : c.Current s id d) (hlag : lag ≤ d) (hl : c'.registry.lease? id = some l) :
    c.extendedTo now lag id extension ≤ l.expiresAt + d := by
  rw [h.known] at hl
  obtain ⟨l, hknown, rfl⟩ := Option.map_eq_some_iff.1 hl
  obtain ⟨e, he⟩ := h.before
  obtain ⟨hrow, hlive⟩ := Store.live?_eq_some_iff.1 he
  have hlive : now + lag < e := hlive
  have hle : e ≤ l.expiresAt + d := hcurrent l lock e hknown hrow
  have hlater : l.expiresAt < c.renewalEnd now id extension := lt_renewalEnd hknown
  have hend : (Registry.renewed l (c.renewalEnd now id extension)).expiresAt =
      c.renewalEnd now id extension := Nat.max_eq_left hlater
  have hlength : (Duration.ofMillis (c.renewalEnd now id extension - now)).keyMillis ≤
      max (c.renewalEnd now id extension - now) 1 := by
    rw [Duration.keyMillis, Duration.wholeMillis, Duration.millis_ofMillis]
    exact Nat.max_le.2 ⟨Nat.le_trans (Nat.mod_le _ _) (Nat.le_max_left _ _), Nat.le_max_right _ _⟩
  rw [hend, extendedTo]
  -- If the end is not ahead, the key was live for as long as the registry is behind.
  omega

end Coordinator

/-- Who renews leases by a call, and the length that is asked for. -/
def Call.renewer? {ι : Type} : Call ι → Option (ι × Option Duration)
  | .renew i _ _ extension _ => some (i, extension)
  | .upkeep i _ _ => some (i, none)
  | _ => none

namespace Cluster

variable {ι : Type} [DecidableEq ι] {b : Lags} {f f' : Cluster ι} {h n : List Notice} {i : ι}
  {lock : LockName} {id : LeaseId} {l : Lease} {renewal : Renewal} {c : Call ι} {d : Nat}
  {extension : Option Duration}

/-! ### Renewals by calls -/

omit [DecidableEq ι] in
theorem outage_of_ping (hping : f.reach.ping = .ok ()) : f.outage = false := by
  cases ho : f.outage with
  | false => rfl
  | true =>
    have hout : f.reach.ping = .error MemoryStore.outage := by
      rw [reach, if_pos ho]
      cases f.store <;> rfl
    rw [hout] at hping
    cases hping

/-- In the course of a call that leads from `f` to `f'`, the member `i` has renewed the lease `id`:
the renewal began at `start` and reached the store `lag` later. If the call did more, then it has
purged the store that the renewal left as `s`. -/
structure Renewing (f f' : Cluster ι) (i : ι) (extension : Option Duration) (lock : LockName)
    (id : LeaseId) (start lag : Nat) (s : Store) : Prop where
  /-- It began in the course of the call. -/
  began : f.now ≤ start
  /-- It was over in the course of the call. -/
  ended : start + lag ≤ f'.now
  /-- What it has done. -/
  renews : (f.member i).Renews f.store start lag extension lock id (f'.member i) s
  /-- What came of the store. -/
  purged : s.PurgedBy f'.store f'.now

/-- An operation in whose course a lease was renewed. -/
theorem renewing_put {α : Type} {o : Outcome α} {start lag took : Nat} {s : Store}
    (hrenews : (f.member i).Renews f.reach start lag extension lock id o.coordinator s)
    (hpurged : s.PurgedBy o.store (f.now + took)) (hbegan : f.now ≤ start)
    (hover : start + lag ≤ f.now + took) :
    f.Renewing ((f.put i o).pass took took) i extension lock id start lag s := by
  have ho := outage_of_ping hrenews.reach
  refine ⟨hbegan, hover, ?_, ?_⟩
  · show (f.member i).Renews f.store start lag extension lock id ((f.put i o).member i) s
    rw [put_of_outage ho]
    show (f.member i).Renews f.store start lag extension lock id
      ((f.enter i o.coordinator).member i) s
    rw [member_enter_self, ← reach_of_outage ho]
    exact hrenews
  · show s.PurgedBy (f.put i o).store _
    rw [put_of_outage ho]
    exact hpurged

theorem renewed_of_ofRenewal {answer : Except LockFault Renewal} {lock' : LockName}
    {id' : LeaseId} (heq : Notice.ofRenewal lock' id' answer = .renewed lock id renewal) :
    lock' = lock ∧ id' = id ∧ answer = .ok renewal := by
  cases answer with
  | error fault => cases heq
  | ok renewal' =>
    cases heq
    exact ⟨rfl, rfl, rfl⟩

theorem renewed_not_mem_notices (a : Acquisition) : .renewed lock id renewal ∉ a.notices := by
  cases a with
  | ended result => cases result <;> simp [Acquisition.notices]
  | waiting p wake => simp [Acquisition.notices]

/-- Renewals are made by callers and by passes of upkeep. -/
theorem renewer?_of_renewed (hmem : .renewed lock id renewal ∈ (f.serve c).1) :
    ∃ i extension, c.renewer? = some (i, extension) := by
  cases c with
  | renew i lock' id' extension lag => exact ⟨i, extension, rfl⟩
  | upkeep i interval lags => exact ⟨i, none, rfl⟩
  | acquire i id' request lag =>
    rw [serve] at hmem
    split at hmem
    · cases hmem
    · exact absurd hmem (renewed_not_mem_notices _)
  | poll id' lag =>
    rw [serve] at hmem
    split at hmem
    · cases hmem
    · exact absurd hmem (renewed_not_mem_notices _)
  | cancel id' | purge =>
    rw [serve] at hmem
    split at hmem <;> cases hmem
  | release i lock' client id' =>
    have hn := List.mem_singleton.1 hmem
    generalize ((f.member i).release f.reach f.now lock' client id').answer = answer at hn
    cases answer <;> cases hn
  | clear i => cases List.mem_singleton.1 hmem
  | status | detect | outage | elapse => cases hmem

/-- What the call has done. -/
theorem renewing_serve (hf : f.WellFormed) (hc : c.renewer? = some (i, extension))
    (hmem : .renewed lock id renewal ∈ (f.serve c).1) :
    ∃ start lag s, f.Renewing (f.serve c).2 i extension lock id start lag s ∧
      (∀ d, c.RenewsWithin d → lag ≤ d) ∧
      renewal.expiresAt = (f.member i).renewalEnd start id extension := by
  cases c with
  | renew j lock' id' extension' lag =>
    cases hc
    obtain ⟨rfl, rfl, hanswer⟩ := renewed_of_ofRenewal (List.mem_singleton.1 hmem).symm
    obtain ⟨hrenews, hend⟩ := Coordinator.renews_renew hanswer
    exact ⟨f.now, lag, _, renewing_put (i := i) hrenews (.refl _ _) (Nat.le_refl _) (Nat.le_refl _),
      fun _ hd ↦ hd, hend⟩
  | upkeep j interval lags =>
    cases hc
    rw [upkeep_serve]
    rw [serve] at hmem
    cases hanswer : ((f.member i).upkeep f.reach f.now interval lags).answer with
    | error fault =>
      simp only [hanswer] at hmem
      cases hmem
    | ok report =>
      simp only [hanswer] at hmem
      obtain ⟨⟨l, result⟩, hattempt, heq⟩ := List.mem_map.1 hmem
      obtain ⟨rfl, rfl, rfl⟩ := renewed_of_ofRenewal heq
      obtain ⟨w, s, hbefore, hrenews, hpurged, hend⟩ :=
        Coordinator.renews_upkeep (hf.registry i) hanswer hattempt
      rw [hbefore.last_eq] at hpurged
      refine ⟨w.start, w.lag, s, renewing_put hrenews hpurged ?_ ?_, fun d hd ↦ ?_, hend⟩
      · exact Nat.le_trans hbefore.now_le w.now_le_start
      · exact Nat.le_trans w.start_add_lag_le_last (Nat.le_of_eq hbefore.last_eq)
      · exact Watch.lag_le fun p hp ↦ hd p (hbefore.lags hp)
  | acquire | poll | cancel | release | purge | status | detect | clear | outage
  | elapse => cases hc

/-! ### Other moves -/

/-- A lease that is granted has waited until then. -/
theorem Move.pending_of_granted (hmove : Move b f n f') (hmem : .granted l ∈ n) :
    f.pending l.id ≠ none := by
  cases hmove with
  | award i p s lag hlag hp hs =>
    cases List.mem_singleton.1 hmem
    exact fun hnone ↦ Option.some_ne_none _ (hp.symm.trans hnone)
  | refuse | free | extend | clear => cases List.mem_singleton.1 hmem
  | quiet | outage | elapse | begin | leave | purge | prune | drop => cases hmem

/-- A row that is there behind a move was there before, or its lease has just been granted, or
renewed. -/
theorem Move.row_cases {e : Nat} (hmove : Move b f n f')
    (he : f'.store.row? lock = some ⟨id, e⟩) :
    f.store.row? lock = some ⟨id, e⟩ ∨ (∃ l, n = [.granted l] ∧ l.id = id ∧ e ≤ l.expiresAt) ∨
      ∃ renewal, .renewed lock id renewal ∈ n := by
  cases hmove with
  | quiet | outage | elapse | refuse | begin | leave | prune | drop | clear => exact .inl he
  | award i p s lag hlag hp hs =>
    replace he : s.row? lock = some ⟨id, e⟩ := he
    rw [hs.2 lock] at he
    split at he
    · cases he
      refine .inr (.inl ⟨_, rfl, rfl, ?_⟩)
      exact Nat.add_le_add_right (Nat.le_add_right f.now lag) _
    · exact .inl he
  | free i lock' client id' s hs =>
    replace he : s.row? lock = some ⟨id, e⟩ := he
    rw [hs.2 lock] at he
    split at he
    · cases he
    · exact .inl he
  | extend i lock' id' start target extension s hstart hlag htarget hs =>
    replace he : s.row? lock = some ⟨id, e⟩ := he
    rw [hs.2 lock] at he
    split at he
    · next hlock =>
      subst hlock
      cases he
      exact .inr (.inr ⟨_, List.mem_cons_self⟩)
    · exact .inl he
  | purge s m hs => exact .inl (Store.row?_of_row?_purge hs he)

/-- A move that does not renew the lease keeps a registry that is not behind so. -/
theorem Move.current (hmove : Move b f n f') (hw : f.WellFormed) (hg : f.GrantedOnce h)
    (ha : f.Attributed h) (hn : ∀ lock renewal, .renewed lock id renewal ∉ n)
    (hcurrent : (f.member i).Current f.store id d) : (f'.member i).Current f'.store id d := by
  -- A lease that was granted before is not granted now.
  have hfresh {lock : LockName} (hgranted : Granted h lock id) (l : Lease) (hid : l.id = id) :
      .granted l ∉ n := fun hmem ↦
    hmove.pending_of_granted hmem (hid ▸ (hg.settled lock id hgranted).2)
  intro l lock e hl he
  rcases hmove.lease_cases hw hl with hl | ⟨hmem, hid⟩ | ⟨_, _, _, _, _, -, -, hmem, -⟩
  · rcases hmove.row_cases he with he | ⟨l', rfl, hid, -⟩ | ⟨_, hmem⟩
    · exact hcurrent l lock e hl he
    · exact absurd List.mem_cons_self (hfresh (ha.granted_lock hl) l' hid)
    · exact absurd hmem (hn _ _)
  · rcases hmove.row_cases he with he | ⟨l', rfl, -, hle⟩ | ⟨_, hmem⟩
    · exact absurd hmem (hfresh (hg.row lock id e he) l hid)
    · cases List.mem_singleton.1 hmem
      exact Nat.le_trans hle (Nat.le_add_right _ d)
    · exact absurd hmem (hn _ _)
  · exact absurd hmem (hn _ _)

theorem Moves.current (hmoves : Moves b f n f') (hw : f.WellFormed) (hg : f.GrantedOnce h)
    (ha : f.Attributed h) (hn : ∀ lock renewal, .renewed lock id renewal ∉ n)
    (hcurrent : (f.member i).Current f.store id d) : (f'.member i).Current f'.store id d := by
  induction hmoves generalizing h with
  | refl f => exact hcurrent
  | @head f f₁ f' n n' hmove _ ih =>
    have hstep := hmove.current hw hg ha
      (fun lock renewal hmem ↦ hn lock renewal (List.mem_append_left n' hmem)) hcurrent
    exact ih (hmove.wellFormed hw) (hmove.grantedOnce hw hg) (hmove.attributed hw hg ha)
      (fun lock renewal hmem ↦ hn lock renewal (List.mem_append_right n hmem)) hstep

/-- A call that renews the lease through `i` and in time, if it renews it, keeps a registry of `i`
that is not behind so. -/
theorem current_serve (hw : f.WellFormed) (hg : f.GrantedOnce h) (ha : f.Attributed h)
    (halone : ∀ lock renewal, .renewed lock id renewal ∈ (f.serve c).1 →
      ∃ extension, c.renewer? = some (i, extension) ∧ c.RenewsWithin d)
    (hcurrent : (f.member i).Current f.store id d) :
    ((f.serve c).2.member i).Current (f.serve c).2.store id d := by
  obtain ⟨b, hmoves⟩ := exists_moves_serve hw c
  by_cases hrenewed : ∃ lock renewal, .renewed lock id renewal ∈ (f.serve c).1
  · obtain ⟨lock, renewal, hmem⟩ := hrenewed
    obtain ⟨extension, hc, hwithin⟩ := halone lock renewal hmem
    obtain ⟨start, lag, s, hrenewing, hlag, -⟩ := renewing_serve hw hc hmem
    obtain ⟨-, hg'⟩ := hmoves.invariant (fun _ _ _ _ hw hg hmove ↦ hmove.grantedOnce hw hg) hw hg
    obtain ⟨e, he⟩ := hrenewing.renews.before
    intro l lock' e' hl he'
    -- The id belongs to one lock, so the row is the one that was extended.
    obtain rfl : lock' = lock := hg'.unique _ _ _ (hg'.row _ _ _ he')
      ((hg.row _ _ _ (Store.live?_eq_some_iff.1 he).1).append _)
    have hafter := hrenewing.purged.row?_of_row? _ _ he'
    rw [hrenewing.renews.after] at hafter
    cases hafter
    exact hrenewing.renews.current hcurrent (hlag d hwithin) hl
  · refine hmoves.current hw hg ha (fun lock renewal hmem ↦ ?_) hcurrent
    exact hrenewed ⟨lock, renewal, hmem⟩

/-! ### Runs -/

/-- As long as a lease is renewed through `i` only, and in time, `i` is not behind. -/
theorem current_runCalls (hstart : f.IsStart) (calls : List (Call ι))
    (halone : ∀ past c later lock renewal, calls = past ++ c :: later →
      .renewed lock id renewal ∈ ((f.runCalls past).2.serve c).1 →
      ∃ extension, c.renewer? = some (i, extension) ∧ c.RenewsWithin d) :
    ((f.runCalls calls).2.member i).Current (f.runCalls calls).2.store id d := by
  induction calls using List.reverseRecOn with
  | nil =>
    intro l lock e _ he
    rw [show (f.runCalls []).2.store = f.store from rfl, hstart.row? lock] at he
    cases he
  | append_singleton calls c ih =>
    obtain ⟨hg, ha⟩ := attributed_runCalls hstart calls
    rw [runCalls_concat]
    refine current_serve (wellFormed_runCalls hstart.wellFormed calls) hg ha
      (fun lock renewal hmem ↦ halone calls c [] lock renewal rfl hmem) ?_
    exact ih fun past c' later lock renewal heq ↦
      halone past c' (later ++ [c]) lock renewal (by simp [heq])

/-- In the course of a call that leads from `f` to `f'`, a renewal that began at `start` reached the
store `lag` later and extended the key of the lease `id` of `lock`, which was kept until `e`, to
`e'`. -/
structure Extends (f f' : Cluster ι) (lock : LockName) (id : LeaseId) (start lag e e' : Nat) :
    Prop where
  /-- The renewal began in the course of the call. -/
  began : f.now ≤ start
  /-- It was over in the course of the call. -/
  ended : start + lag ≤ f'.now
  /-- The key was there. -/
  before : f.store.row? lock = some ⟨id, e⟩
  /-- It was live. -/
  live : start + lag < e
  /-- It is extended to an instant that is still to come. -/
  ahead : start + lag < e'
  /-- It is there, unless it has expired before the call was over. -/
  after : f'.store.row? lock = some ⟨id, e'⟩ ∨ f'.store.row? lock = none ∧ e' ≤ f'.now

omit [DecidableEq ι] in
/-- A key that has been extended is there, or it has expired and was purged. -/
theorem Renewing.after {start lag : Nat} {s : Store}
    (h : f.Renewing f' i extension lock id start lag s) :
    f'.store.row? lock = some ⟨id, (f.member i).extendedTo start lag id extension⟩ ∨
      f'.store.row? lock = none ∧ (f.member i).extendedTo start lag id extension ≤ f'.now := by
  by_cases hlive : f'.now < (f.member i).extendedTo start lag id extension
  · exact .inl (h.purged.stays _ _ h.renews.after hlive)
  · cases hrow : f'.store.row? lock with
    | none => exact .inr ⟨rfl, Nat.le_of_not_lt hlive⟩
    | some row => exact .inl ((h.purged.row?_of_row? _ _ hrow).symm.trans h.renews.after)

/-- **A renewal prolongs a lease if the registry is not behind.** In every run in which no expiry
overflows, when a lease is renewed by a call through `i`, and `i` knows the lease, its key lasts
longer than before if and only if it did not outlast the lease as it was known, or does not outlast
what was asked for, counting from when the renewal reached the store. It lasts longer if the lease
has been renewed through `i` only, and no renewal took longer than this one to reach the store. -/
theorem later_iff_not_behind (f : Cluster ι) (hstart : f.IsStart) (calls : List (Call ι))
    (c : Call ι) (hfits : ∀ n ∈ (f.runCalls (calls ++ [c])).1, n.Fits)
    (hc : c.renewer? = some (i, extension))
    (hrenewed : .renewed lock id renewal ∈ ((f.runCalls calls).2.serve c).1)
    (hl : ((f.runCalls calls).2.member i).registry.lease? id = some l) :
    ∃ start lag e e', (f.runCalls calls).2.Extends (f.runCalls (calls ++ [c])).2 lock id start lag
        e e' ∧ (∀ d, c.RenewsWithin d → lag ≤ d) ∧
      (e < e' ↔ e ≤ l.expiresAt + lag ∨
        e < start + lag + ((f.member i).config.ttlFor extension).wholeMillis) ∧
      ((∀ past c' later lock' renewal', calls = past ++ c' :: later →
          .renewed lock' id renewal' ∈ ((f.runCalls past).2.serve c').1 →
          ∃ extension', c'.renewer? = some (i, extension') ∧ c'.RenewsWithin lag) →
        e < e') := by
  have hw := wellFormed_runCalls hstart.wellFormed calls
  rw [runCalls_concat] at hfits ⊢
  obtain ⟨start, lag, s, hrenewing, hlag, hend⟩ := renewing_serve hw hc hrenewed
  have hfit := hfits _ (List.mem_append_right _ hrenewed)
  rw [Notice.Fits, hend] at hfit
  obtain ⟨e, hrow, hlive, hiff⟩ := hrenewing.renews.later_iff hl hfit
  rw [config_runCalls] at hiff
  refine ⟨start, lag, e, _, ⟨hrenewing.began, hrenewing.ended, hrow, hlive,
    Coordinator.lt_extendedTo .., hrenewing.after⟩, hlag, hiff, fun halone ↦ hiff.2 (.inl ?_)⟩
  exact current_runCalls hstart calls halone l lock e hl hrow

/-- A lease is renewed by callers and by a pass, through one coordinator. -/
def sameWay : List (Call Bool) :=
  [.acquire true "a" { lock := "L", client := "x", ttl := some (.ofSecs 10), autoRenew := true },
   .elapse 4000 4000, .renew true "L" "a" (some (.ofSecs 60)), .release false "L" "y" "b",
   .upkeep true (.ofSecs 40)]

theorem later_iff_not_behind_sameWay :
    pair.IsStart ∧
      (∀ n ∈ (pair.runCalls (sameWay ++ [.renew true "L" "a" (some (.ofSecs 1))])).1, n.Fits) ∧
      ∃ e e', (pair.runCalls sameWay).2.store.row? "L" = some ⟨"a", e⟩ ∧
        (pair.runCalls (sameWay ++ [.renew true "L" "a" (some (.ofSecs 1))])).2.store.row? "L" =
          some ⟨"a", e'⟩ ∧ e < e' := by
  have hfits : ∀ n ∈ (pair.runCalls (sameWay ++ [.renew true "L" "a" (some (.ofSecs 1))])).1,
      n.Fits := by
    decide
  obtain ⟨renewal, hrenewed⟩ : ∃ renewal, .renewed "L" "a" renewal ∈
      ((pair.runCalls sameWay).2.serve (.renew true "L" "a" (some (.ofSecs 1)))).1 := by
    have htold : ((pair.runCalls sameWay).2.serve
        (.renew true "L" "a" (some (.ofSecs 1)))).1.map (·.expiry? "L" "a") = [some 64002] := by
      decide
    rw [serve] at htold ⊢
    generalize (Coordinator.renew _ _ _ _ _ _ _).answer = answer at htold ⊢
    cases answer with
    | error fault => cases htold
    | ok renewal => exact ⟨renewal, List.mem_cons_self⟩
  obtain ⟨l, hl⟩ : ∃ l, ((pair.runCalls sameWay).2.member true).registry.lease? "a" = some l :=
    ⟨_, rfl⟩
  obtain ⟨start, lag, e, e', hextends, -, -, hlater⟩ := later_iff_not_behind pair isStart_pair
    sameWay (.renew true "L" "a" (some (.ofSecs 1))) hfits rfl hrenewed hl
  have hrow' : (pair.runCalls (sameWay ++ [.renew true "L" "a" (some (.ofSecs 1))])).2.store.row?
      "L" = some ⟨"a", e'⟩ := by
    -- The call takes no time, so the key has not expired before it is over.
    refine hextends.after.resolve_right fun hgone ↦ ?_
    have hbegan : 4000 ≤ start := hextends.began
    have hover : e' ≤ 4000 := hgone.2
    have hahead := hextends.ahead
    omega
  refine ⟨isStart_pair, hfits, e, e', hextends.before, hrow', hlater ?_⟩
  intro past c later lock renewal heq hmem
  have hthrough : ∀ c ∈ sameWay, (∀ r, c.renewer? = some r → r.1 = true) ∧
      c.RenewsWithin lag := by
    simp [sameWay, Call.renewer?, Call.RenewsWithin]
  obtain ⟨htrue, hwithin⟩ := hthrough c (heq ▸ List.mem_append_right past List.mem_cons_self)
  obtain ⟨i, extension, hc⟩ := renewer?_of_renewed hmem
  have hi : i = true := htrue _ hc
  exact ⟨extension, hi ▸ hc, hwithin⟩

/-- A lease is renewed for a long time through a coordinator that does not know it. -/
def detour : List (Call Bool) :=
  [.acquire true "a" { lock := "L", client := "x", ttl := some (.ofSecs 60) },
   .renew false "L" "a" (some (.ofSecs 300))]

/-- The coordinator that knows the lease brings its end closer. -/
theorem not_later_detour :
    ¬ ∀ (calls : List (Call Bool)) (c : Call Bool) (i : Bool) (extension : Option Duration)
      (lock : LockName) (id : LeaseId) (renewal : Renewal) (l : Lease) (e e' : Nat),
      (∀ n ∈ (pair.runCalls (calls ++ [c])).1, n.Fits) → c.renewer? = some (i, extension) →
      .renewed lock id renewal ∈ ((pair.runCalls calls).2.serve c).1 →
      ((pair.runCalls calls).2.member i).registry.lease? id = some l →
      (pair.runCalls calls).2.store.row? lock = some ⟨id, e⟩ →
      (pair.runCalls (calls ++ [c])).2.store.row? lock = some ⟨id, e'⟩ → e < e' := by
  intro hlater
  have hlt : 300000 < 60001 := hlater detour (.renew true "L" "a" (some (.ofSecs 1))) true
    (some (.ofSecs 1)) "L" "a" ⟨60001, 1⟩ _ 300000 60001 (by decide) rfl List.mem_cons_self rfl rfl
    rfl
  exact absurd hlt (by decide)

end Cluster

end LeaseLock
