import LeaseLock.Proofs.Cluster.Holding
import LeaseLock.Proofs.Cluster.Requests
import LeaseLock.Proofs.Cluster.Tended

/-!
# When upkeep keeps leases alive

The tasks of a coordinator run in the background, and the store is there. Is a lease for which
renewal was asked, and no length, live from its grant until it is released, whatever else is asked
for? Exactly when the default length of a lease is longer than the period of upkeep
(`Config.keepsAlive_iff`).

## The invariant

What the tasks do keeps to a timetable (`Tended.Keeps.run`). What is kept by every call on the
timetable is that such a lease is held, and that both the lease and its row last beyond the instant
at which the next pass is due (`Cluster.Alive`).

A grant gives the row the default length, which is longer than the time to the next pass, and gives
the lease a little more, by the time that the call takes. Renewals by clients only push the ends
away. A pass renews the lease if it has less than two periods left; then it lasts for the default
length, and otherwise for two periods by its own account, and its row for more than one, because the
lease is ahead of its row by less than a period. So both last beyond the next pass in either case.

## The converse

With a default length of one period or less, a lease that is granted when the tasks start has ended
when the first pass is made.
-/

namespace LeaseLock

/-! ### The invariant -/

namespace Cluster

variable {f : Cluster Unit} {h : List Notice} {t : Timetable} {lock : LockName} {id : LeaseId}
  {period length : Nat}

/-- Upkeep keeps the lease `id` of `lock` alive, where `h` is what has been answered since it
started. -/
structure Alive (f : Cluster Unit) (h : List Notice) (period : Nat) (t : Timetable)
    (lock : LockName) (id : LeaseId) : Prop where
  /-- The timetable has the time. -/
  now : f.now = t.now
  /-- The store is within reach. -/
  outage : f.outage = false
  /-- The next pass is still to be made. -/
  le_due : t.now ≤ t.due
  /-- It is made in one period at the latest. -/
  due_le : t.due ≤ t.now + period
  /-- The lease, once it is granted and until it is released, is held beyond the next pass, and
  ahead of its row by less than a period. -/
  held : Granted h lock id → .released lock id ∉ h →
    ∃ l x, Held f.registry f.store id l x ∧ l.lock = lock ∧ t.due < x ∧ t.due < l.expiresAt ∧
      l.expiresAt < x + period

/-- A lease that is held beyond the next pass owns its lock. -/
theorem Alive.owner? (halive : f.Alive h period t lock id) (hgranted : Granted h lock id)
    (hreleased : .released lock id ∉ h) : f.store.owner? f.now lock = some id := by
  obtain ⟨l, x, hheld, rfl, hlater, -⟩ := halive.held hgranted hreleased
  have hlive : f.now < x := halive.now ▸ Nat.lt_of_le_of_lt halive.le_due hlater
  exact Store.owner?_eq_some_iff.2 ⟨x, hheld.row, hlive⟩

/-- Time passes, no further than to the next pass. -/
theorem Alive.elapse {interval : Duration} {millis ticks : Nat}
    (halive : f.Alive h period t lock id) (hallows : t.Allows interval (.elapse millis ticks)) :
    (f.serve (.elapse millis ticks)).2.Alive (h ++ (f.serve (.elapse millis ticks)).1) period
      (t.next period (.elapse millis ticks)) lock id where
  now := congrArg (· + millis) halive.now
  outage := halive.outage
  le_due := hallows.2
  due_le := Nat.le_trans halive.due_le (Nat.add_le_add_right (Nat.le_add_right _ _) _)
  held := by
    show Granted (h ++ []) lock id → .released lock id ∉ h ++ [] → _
    rw [List.append_nil]
    exact halive.held

/-- A pass leaves the lease with the default length or with two periods, and the next one is in one
period. -/
theorem Alive.upkeep (halive : f.Alive h period t lock id) (hw : f.WellFormed)
    (hping : f.store.ping = .ok ()) (hnow : f.now < 2 ^ 62)
    (hends : ∀ l, f.registry.lease? id = some l → l.expiresAt < 2 ^ 62)
    (hlength : (f.member ()).config.defaultTtl.wholeMillis = length) (hshort : length < 2 ^ 60)
    (hpositive : 0 < period) (hlonger : period < length) {interval window : Duration}
    (hwindow : interval.double? = some window) (htwice : window.wholeMillis = 2 * period)
    (hdue : t.now = t.due) :
    (f.serve (.upkeep () interval)).2.Alive (h ++ (f.serve (.upkeep () interval)).1) period
      (t.next period (.upkeep () interval)) lock id := by
  have hbehind : (f.serve (.upkeep () interval)).2 =
      (f.enter () ((f.member ()).upkeep f.store f.now interval).coordinator).withStore
        ((f.member ()).upkeep f.store f.now interval).store := by
    rw [upkeep_serve, reach_of_outage halive.outage, put_of_outage halive.outage]
    rfl
  refine ⟨?_, ?_, hdue ▸ Nat.le_add_right _ _, Nat.le_of_eq (congrArg (· + period) hdue.symm), ?_⟩
  · rw [hbehind]
    exact halive.now
  · rw [hbehind]
    exact halive.outage
  rintro ⟨l, hmem, hlock, hid⟩ hreleased
  obtain ⟨l, x, hheld, rfl, hrow, hlater, hahead⟩ :
      ∃ l x, Held f.registry f.store id l x ∧ l.lock = lock ∧ t.due < x ∧ t.due < l.expiresAt ∧
        l.expiresAt < x + period := by
    refine halive.held ⟨l, ?_, hlock, hid⟩ fun hmem ↦ hreleased (List.mem_append_left _ hmem)
    exact (List.mem_append.1 hmem).resolve_right granted_not_mem_upkeep
  rw [← hdue, ← halive.now] at hlater hrow
  have hend := hends l hheld.known
  have hkept : ((f.member ()).kept f.now l).expiresAt =
      max (f.now + length) (l.expiresAt + 1) := by
    rw [Coordinator.expiresAt_kept, hlength]
  have hfits : ((f.member ()).kept f.now l).expiresAt < signedBound := by
    have hroom : ((f.member ()).kept f.now l).expiresAt < 2 ^ 63 := by
      rw [hkept]
      omega
    exact Nat.lt_of_lt_of_le hroom (by decide)
  have hkeeps := Coordinator.held_upkeep (hw.registry ()) hheld hrow hlater hping hfits hwindow
  have hnext : (t.next period (.upkeep () interval)).due = f.now + period := by
    rw [halive.now, hdue]
    rfl
  rw [hbehind, registry_withStore, registry_enter, hnext]
  refine ⟨_, _, hkeeps, ?_, ?_⟩
  · split
    · exact Coordinator.lock_kept
    · rfl
  · split
    · rw [hkept]
      omega
    · next hlong =>
      rw [htwice, Lease.remaining] at hlong
      omega

/-- No other call brings the ends closer, and a lease that is granted lasts beyond the next pass. -/
theorem Alive.call (halive : f.Alive h period t lock id) {hist : List Notice} {c : Call Unit}
    (hw : f.WellFormed) (hg : f.GrantedOnce hist) (hpositive : 0 < period)
    (hlonger : period < length) (houtage : ∀ on, c ≠ .outage on) (hclear : ∀ i, c ≠ .clear i)
    (hover : c.took = 0 ∨ t.now + c.took < t.due) (hfits : ∀ n ∈ (f.serve c).1, n.Fits)
    (hfresh : ∀ l, .granted l ∈ (f.serve c).1 → l.lock = lock → l.id = id →
      Held (f.serve c).2.registry (f.serve c).2.store id l (f.now + length) ∧
        l.expiresAt = f.now + c.took + length) :
    (f.serve c).2.Alive (h ++ (f.serve c).1) period ⟨t.now + c.took, t.due⟩ lock id := by
  have hnow : (f.serve c).2.now = f.now + c.took := f.now_serve c
  have htime := halive.now
  have hbefore := halive.le_due
  have hdue := halive.due_le
  refine ⟨hnow.trans (congrArg (· + c.took) htime), (outage_serve houtage).trans halive.outage,
    by show t.now + c.took ≤ t.due; omega, by show t.due ≤ t.now + c.took + period; omega, ?_⟩
  rintro ⟨l, hmem, hlock, hid⟩ hreleased
  rcases List.mem_append.1 hmem with hmem | hmem
  · obtain ⟨l₁, x₁, hheld, rfl, hrow, hlast, hahead⟩ :=
      halive.held ⟨l, hmem, hlock, hid⟩ fun hmem ↦ hreleased (List.mem_append_left _ hmem)
    obtain ⟨b, hmoves⟩ := exists_moves_serve hw c
    obtain ⟨l₂, x₂, hheld₂, hmoved⟩ := hmoves.held hw hg hfits hheld (by omega) (by omega)
      (cleared_not_mem_serve hclear) fun hmem ↦ hreleased (List.mem_append_right _ hmem)
    refine ⟨l₂, x₂, hheld₂, hmoved.lock, ?_⟩
    show t.due < x₂ ∧ t.due < l₂.expiresAt ∧ l₂.expiresAt < x₂ + period
    rcases hmoved.moved with ⟨hsame, rfl⟩ | ⟨hlater, hfollows, -⟩
    · exact ⟨hrow, hsame ▸ hlast, hsame ▸ hahead⟩
    · omega
  · obtain ⟨hheld, hend⟩ := hfresh l hmem hlock hid
    refine ⟨l, f.now + length, hheld, hlock, ?_⟩
    show t.due < f.now + length ∧ t.due < l.expiresAt ∧ l.expiresAt < f.now + length + period
    omega

/-- A call on the timetable keeps the lease alive. -/
theorem Alive.serve {c : Config} {call : Call Unit} {hist : List Notice}
    (halive : f.Alive h c.upkeepPeriod.wholeMillis t lock id) (hw : f.WellFormed)
    (hg : f.GrantedOnce hist) (hping : f.store.ping = .ok ())
    (hconfig : (f.member ()).config = c) (hcheck : c.check = .ok ())
    (hshort : c.ShorterThan (2 ^ 60)) (hlonger : c.renewalInterval < c.defaultTimeout)
    (hallows : t.Allows c.upkeepPeriod call) (hnow : f.now < 2 ^ 62)
    (hends : ∀ l, f.registry.lease? id = some l → l.expiresAt < 2 ^ 62)
    (hfits : ∀ n ∈ (f.serve call).1, n.Fits)
    (hfresh : ∀ l, .granted l ∈ (f.serve call).1 → l.lock = lock → l.id = id →
      Held (f.serve call).2.registry (f.serve call).2.store id l
          (f.now + c.defaultTtl.wholeMillis) ∧
        l.expiresAt = f.now + call.took + c.defaultTtl.wholeMillis) :
    (f.serve call).2.Alive (h ++ (f.serve call).1) c.upkeepPeriod.wholeMillis
      (t.next c.upkeepPeriod.wholeMillis call) lock id := by
  have hpositive : 0 < c.upkeepPeriod.wholeMillis := by
    rw [hshort.wholeMillis_upkeepPeriod]
    exact Nat.mul_pos (Config.check_eq_ok_iff.1 hcheck).2.2.1 (by decide)
  have hmore : c.upkeepPeriod.wholeMillis < c.defaultTtl.wholeMillis := by
    rw [hshort.wholeMillis_upkeepPeriod, hshort.wholeMillis_defaultTtl]
    exact Nat.mul_lt_mul_of_pos_right hlonger (by decide)
  cases call with
  | elapse millis ticks => exact halive.elapse hallows
  | upkeep i interval lags =>
    obtain ⟨rfl, rfl, hdue⟩ := hallows
    obtain ⟨window, hwindow, htwice⟩ := hshort.double?_upkeepPeriod
    have hlength : c.defaultTtl.wholeMillis < 2 ^ 60 :=
      Nat.lt_of_le_of_lt (Nat.mod_le _ _) hshort.defaultTtl
    exact halive.upkeep hw hping hnow hends (hconfig ▸ rfl) hlength hpositive hmore hwindow htwice
      hdue
  | outage on => exact hallows.elim
  | clear i => exact hallows.elim
  | acquire | poll | cancel | release | renew | purge | status | detect =>
    exact halive.call hw hg hpositive hmore (fun _ h ↦ by cases h) (fun _ h ↦ by cases h) hallows
      hfits hfresh

/-- A lease that is granted to a request for renewal, but for no length, is held for the default
length, which its row counts from the beginning of the call and the lease from its end. -/
theorem held_of_granted (hstart : f.IsStart) (calls : List (Call Unit)) (call : Call Unit)
    {l : Lease} (hmem : .granted l ∈ ((f.runCalls calls).2.serve call).1)
    (hasked : ∀ i request, f.Asked (calls ++ [call]) i l.id request →
      request.autoRenew = true ∧ request.ttl = none) :
    Held (f.runCalls (calls ++ [call])).2.registry (f.runCalls (calls ++ [call])).2.store l.id l
        ((f.runCalls calls).2.now + (f.member ()).config.defaultTtl.keyMillis) ∧
      l.expiresAt =
        (f.runCalls calls).2.now + call.took + (f.member ()).config.defaultTtl.keyMillis := by
  obtain ⟨i, request, ttl, hrequest, rfl, hlease, hknown, hrow⟩ :=
    granted_asked hstart calls call hmem
  obtain ⟨hrenew, httl⟩ := hasked i request hrequest
  have hautoRenew : l.autoRenew = true := by
    rw [hlease]
    exact hrenew
  rw [httl] at hlease hrow
  rw [runCalls_concat, now_serve] at hlease
  exact ⟨⟨hknown, hautoRenew, hrow⟩, congrArg Lease.expiresAt hlease⟩

/-- In every run on the timetable, upkeep keeps a lease alive that was asked for with renewal and
without a length, if the default length is longer than the period. -/
theorem alive_runCalls {c : Config} (hstart : f.IsStart) (hping : f.store.ping = .ok ())
    (hconfig : (f.member ()).config = c) (hcheck : c.check = .ok ())
    (hshort : c.ShorterThan (2 ^ 60)) (hlonger : c.renewalInterval < c.defaultTimeout)
    {past calls : List (Call Unit)} (houtage : (f.runCalls past).2.outage = false)
    (hallows : (Timetable.start c.upkeepPeriod.wholeMillis (f.runCalls past).2.now).AllowsAll
      c.upkeepPeriod calls)
    (hnow : (f.runCalls (past ++ calls)).2.now < 2 ^ 62)
    (hbelow : ∀ n ∈ (f.runCalls (past ++ calls)).1, n.Below (2 ^ 62))
    (hasked : ∀ i request, f.Asked (past ++ calls) i id request →
      request.autoRenew = true ∧ request.ttl = none) :
    (f.runCalls (past ++ calls)).2.Alive ((f.runCalls past).2.runCalls calls).1
      c.upkeepPeriod.wholeMillis
      (calls.foldl (Timetable.next c.upkeepPeriod.wholeMillis)
        (.start c.upkeepPeriod.wholeMillis (f.runCalls past).2.now)) lock id := by
  induction calls using List.reverseRecOn with
  | nil =>
    rw [List.append_nil]
    refine ⟨rfl, houtage, Nat.le_add_right _ _, Nat.le_refl _, ?_⟩
    rintro ⟨l, hmem, -⟩
    cases hmem
  | append_singleton calls call ih =>
    obtain ⟨hpast, hcall⟩ := Timetable.allowsAll_concat.1 hallows
    rw [← List.append_assoc] at hnow hbelow hasked ⊢
    have hstep := f.runCalls_concat (past ++ calls) call
    have hsame : ((f.runCalls past).2.runCalls calls).2 = (f.runCalls (past ++ calls)).2 := by
      rw [runCalls_append]
    have hw : (f.runCalls (past ++ calls)).2.WellFormed := wellFormed_runCalls hstart.wellFormed _
    obtain ⟨hg, ha⟩ := attributed_runCalls hstart (past ++ calls)
    -- The run up to the call satisfies what is supposed of the whole run.
    rw [hstep] at hnow hbelow
    have hearlier : (f.runCalls (past ++ calls)).2.now < 2 ^ 62 :=
      Nat.lt_of_le_of_lt (now_le_serve _ call) hnow
    have hbefore (n : Notice) (hn : n ∈ (f.runCalls (past ++ calls)).1) : n.Below (2 ^ 62) :=
      hbelow n (List.mem_append_left _ hn)
    have halive := ih hpast hearlier hbefore fun i request h ↦ hasked i request (h.append [call])
    have hends (l : Lease) (hl : (f.runCalls (past ++ calls)).2.registry.lease? id = some l) :
        l.expiresAt < 2 ^ 62 := by
      obtain ⟨n, hn, htold⟩ := ha.told () id l hl
      exact (hbefore n hn).expiry_lt htold
    rw [hstep, runCalls_concat, List.foldl_append, hsame]
    refine halive.serve hw hg ?_ ?_ hcheck hshort hlonger hcall hearlier hends ?_ ?_
    · rw [ping_runCalls, hping]
    · rw [config_runCalls, hconfig]
    · exact fun n hn ↦ (hbelow n (List.mem_append_right _ hn)).fits (by decide)
    · rintro l hmem - rfl
      obtain ⟨hheld, hend⟩ := held_of_granted hstart (past ++ calls) call hmem hasked
      rw [hstep] at hheld
      rw [hconfig, hshort.keyMillis_defaultTtl hcheck] at hheld hend
      exact ⟨hheld, hend⟩

/-- A lease that nobody renews owns its lock no longer when its length has passed. -/
theorem runCalls_lapse {i : Unit} {r : LockRequest} {s : Store}
    (hfresh : id ∉ f.issued) (ho : f.outage = false) (hlock : r.lock ≠ "") (hclient : r.client ≠ "")
    (htake : f.store.take f.now r.lock id ((f.member i).config.ttlFor r.ttl) = .ok (true, s))
    (hlength : ((f.member i).config.ttlFor r.ttl).keyMillis = length) :
    (f.runCalls [.acquire i id r, .elapse length length]).1 =
        [.granted (r.lease id ((f.member i).config.ttlFor r.ttl) f.now)] ∧
      (f.runCalls [.acquire i id r, .elapse length length]).2.now = f.now + length ∧
      (f.runCalls [.acquire i id r, .elapse length length]).2.store.owner? (f.now + length) r.lock ≠
        some id := by
  obtain ⟨hanswer, hstore⟩ := acquire_serve 0 hfresh ho hlock hclient htake
  have hnow : (f.serve (.acquire i id r)).2.now = f.now := f.now_serve _
  have hrow : (f.runCalls [.acquire i id r, .elapse length length]).2.store.row? r.lock =
      some ⟨id, f.now + length⟩ := by
    rw [← hlength]
    exact (congrArg (Store.row? r.lock) hstore).trans (Store.take_spec htake).2.at_lock
  refine ⟨congrArg (· ++ []) hanswer, congrArg (· + length) hnow, fun howner ↦ ?_⟩
  obtain ⟨e, he, hlt⟩ := Store.owner?_eq_some_iff.1 howner
  rw [hrow] at he
  cases he
  exact Nat.lt_irrefl _ hlt

end Cluster

/-! ### Keeping alive -/

/-- With the settings `c` over the store `s`, upkeep keeps leases alive. In every run of the only
coordinator that has its tasks in the background from some instant on, whose timer sleeps for a
period when it is asked to, and in which nobody sleeps past that timer, a lease that was asked for
with renewal and without a length, and that has been granted since then, owns its lock until it is
released. Times and expiries are below `2 ^ 62`. -/
def Config.KeepsAlive (c : Config) (s : Store) : Prop :=
  ∀ (f : Cluster Unit) (past : List (Call Unit)) (steps : List Tended.Step)
    (calls : List (Call Unit)) (g : Tended) (id : LeaseId) (request : LockRequest),
    f.IsStart → f.store = s → (f.member ()).config = c →
    (f.member ()).timing.sleepTicks c.upkeepPeriod = c.upkeepPeriod.wholeMillis →
    (f.runCalls past).2.outage = false →
    (Tended.start (f.runCalls past).2).AllowsAll steps →
    (Tended.start (f.runCalls past).2).run steps = (calls, g) →
    g.cluster.now < 2 ^ 62 →
    (∀ n ∈ (f.runCalls (past ++ calls)).1, n.Below (2 ^ 62)) →
    f.Asked (past ++ calls) () id request → request.autoRenew = true → request.ttl = none →
    Granted ((f.runCalls past).2.runCalls calls).1 request.lock id →
    .released request.lock id ∉ ((f.runCalls past).2.runCalls calls).1 →
      g.cluster.store.owner? g.cluster.now request.lock = some id

/-- Every sleep takes as long as it says, and the clock reaches any distance. -/
def Timing.ideal : Timing where
  sleepTicks d := max d.ticks 1
  sleepTicks_pos _ := Nat.le_max_right _ _
  reaches _ := true

namespace Config

variable {c : Config} {s : Store}

theorem upkeepPeriod_pos (hcheck : c.check = .ok ()) : c.upkeepPeriod.isZero = false := by
  have hpositive : 0 < c.renewalInterval := (check_eq_ok_iff.1 hcheck).2.2.1
  simp only [upkeepPeriod, Duration.isZero, Duration.ofSecs, beq_eq_false_iff_ne]
  omega

theorem sleepTicks_ideal (hcheck : c.check = .ok ()) (hshort : c.ShorterThan (2 ^ 60)) :
    Timing.ideal.sleepTicks c.upkeepPeriod = c.upkeepPeriod.wholeMillis := by
  have hpositive : 0 < c.renewalInterval := (check_eq_ok_iff.1 hcheck).2.2.1
  rw [hshort.wholeMillis_upkeepPeriod]
  simp only [Timing.ideal, upkeepPeriod, Duration.ticks, Duration.ofSecs]
  omega

/-- With a default length of one period or less, a lease that is granted when the tasks start has
ended when the first pass is due. -/
theorem not_keepsAlive (hcheck : c.check = .ok ()) (hshort : c.ShorterThan (2 ^ 60))
    (hping : s.ping = .ok ()) (hempty : ∀ lock, s.row? lock = none)
    (hle : c.defaultTimeout ≤ c.renewalInterval) : ¬ c.KeepsAlive s := by
  intro hkeeps
  obtain ⟨length, hlength⟩ : ∃ length, c.defaultTtl.keyMillis = length := ⟨_, rfl⟩
  have hlow : length < 2 ^ 60 := by
    rw [← hlength, hshort.keyMillis_defaultTtl hcheck]
    exact Nat.lt_of_le_of_lt (Nat.mod_le _ _) hshort.defaultTtl
  have hperiod : length ≤ c.upkeepPeriod.wholeMillis := by
    rw [← hlength, hshort.keyMillis_defaultTtl hcheck, hshort.wholeMillis_defaultTtl,
      hshort.wholeMillis_upkeepPeriod]
    exact Nat.mul_le_mul_right _ hle
  have hfree : s.live? 0 "L" = none := by
    rw [Store.live?, hempty, Option.filter_none]
  have hfits : 0 + c.defaultTtl.keyMillis < signedBound := by
    rw [hlength, Nat.zero_add]
    exact Nat.lt_trans hlow (by decide)
  obtain ⟨s', htake⟩ : ∃ s', s.take 0 "L" "a" c.defaultTtl = .ok (true, s') :=
    Store.exists_take hping hfits hfree
  -- One lease is granted at once, and then its length passes.
  let f : Cluster Unit := { store := s, member := fun _ ↦ { config := c, timing := .ideal } }
  let request : LockRequest := { lock := "L", client := "x", autoRenew := true }
  let calls : List (Call Unit) := [.acquire () "a" request, .elapse length length]
  have hstart : f.IsStart := ⟨hempty, fun _ ↦ rfl, fun _ ↦ rfl, rfl⟩
  obtain ⟨hnotices, hnow, hlost⟩ := f.runCalls_lapse (i := ()) (r := request) List.not_mem_nil rfl
    (by decide) (by decide) htake hlength
  -- The timer shows one period, so nobody has slept past it.
  obtain ⟨-, -, left, htimer, hdue⟩ := Tended.keeps_start (f := f) (c := c) rfl
    (upkeepPeriod_pos hcheck) (sleepTicks_ideal hcheck hshort)
  have hallows : (Tended.start f).AllowsAll
      [.call (.acquire () "a" request), .call (.elapse length length)] := by
    refine ⟨.inl rfl, ⟨rfl, fun timer hmem ↦ ?_⟩, trivial⟩
    replace hmem : (Tended.start f).tasks.upkeep = some timer := hmem
    rw [htimer] at hmem
    rw [← Option.some.inj hmem]
    show (f.serve (.acquire () "a" request)).2.tick + length ≤ f.tick + left
    rw [f.tick_serve fun _ _ h ↦ by cases h]
    have hleft : f.now + c.upkeepPeriod.wholeMillis = f.now + left := hdue
    exact Nat.add_le_add_left (Nat.add_left_cancel hleft ▸ hperiod) _
  have hcluster : ((Tended.start f).run
      [.call (.acquire () "a" request), .call (.elapse length length)]).2.cluster =
        (f.runCalls calls).2 := Tended.cluster_run ..
  refine hlost ?_
  rw [← hnow, ← hcluster]
  refine hkeeps f [] _ calls _ "a" request hstart rfl rfl (sleepTicks_ideal hcheck hshort) rfl
    hallows rfl ?_ ?_ ⟨[], [.elapse length length], 0, rfl, List.not_mem_nil⟩ rfl rfl ?_ ?_
  · rw [hcluster, hnow, Nat.zero_add]
    exact Nat.lt_trans hlow (by decide)
  · intro n hn
    rw [List.nil_append, hnotices, List.mem_singleton] at hn
    rw [hn, Notice.Below, LockRequest.expiresAt_lease]
    refine lt_of_eq_of_lt (congrArg (0 + ·) hlength) ?_
    rw [Nat.zero_add]
    exact Nat.lt_trans hlow (by decide)
  · have hmem : .granted (request.lease "a" c.defaultTtl 0) ∈ (f.runCalls calls).1 := by
      rw [hnotices]
      exact List.mem_singleton_self _
    exact ⟨_, hmem, rfl, rfl⟩
  · show .released _ _ ∉ (f.runCalls calls).1
    rw [hnotices, List.mem_singleton]
    rintro ⟨⟩

/-- **Keeping alive.** Upkeep keeps leases alive exactly if their default length is longer than its
period. -/
theorem keepsAlive_iff (c : Config) (hcheck : c.check = .ok ()) (hshort : c.ShorterThan (2 ^ 60))
    (s : Store) (hping : s.ping = .ok ()) (hempty : ∀ lock, s.row? lock = none) :
    c.KeepsAlive s ↔ c.renewalInterval < c.defaultTimeout := by
  constructor
  · intro hkeeps
    by_contra hle
    exact not_keepsAlive hcheck hshort hping hempty (Nat.le_of_not_lt hle) hkeeps
  · rintro hlonger f past steps calls g id request hstart rfl hconfig hsleep houtage hallows hrun
      hnow hbelow hasked hrenew httl hgranted hreleased
    obtain ⟨hsame, hsleeps⟩ := f.settings_runCalls past ()
    obtain ⟨window, hwindow, -⟩ := hshort.double?_upkeepPeriod
    -- What the tasks do comes down to calls on the timetable.
    have htimetable := (Tended.keeps_start (hsame.trans hconfig) (upkeepPeriod_pos hcheck)
      (hsleeps ▸ hsleep)).run hwindow hallows
    have hcluster : g.cluster = (f.runCalls (past ++ calls)).2 := by
      have hbehind := (Tended.start (f.runCalls past).2).cluster_run steps
      rw [hrun] at hbehind
      rw [Cluster.runCalls_append]
      exact hbehind
    rw [hrun] at htimetable
    rw [hcluster] at hnow ⊢
    have hunique (i : Unit) (request' : LockRequest)
        (h : f.Asked (past ++ calls) i id request') :
        request'.autoRenew = true ∧ request'.ttl = none := by
      obtain ⟨-, rfl⟩ := hasked.unique h
      exact ⟨hrenew, httl⟩
    exact (Cluster.alive_runCalls hstart hping hconfig hcheck hshort hlonger houtage htimetable hnow
      hbelow hunique).owner? hgranted hreleased

/-- With the usual settings, over memory. -/
theorem keepsAlive_iff_usual :
    ({} : Config).check = .ok () ∧ ({} : Config).ShorterThan (2 ^ 60) ∧
      (Store.memory {}).ping = .ok () ∧ (∀ lock, (Store.memory {}).row? lock = none) ∧
        ({} : Config).KeepsAlive (.memory {}) := by
  have hcheck : ({} : Config).check = .ok () := rfl
  have hshort : ({} : Config).ShorterThan (2 ^ 60) :=
    ⟨by decide, by decide, by decide, by decide, by decide⟩
  have hlonger : ({} : Config).renewalInterval < ({} : Config).defaultTimeout := by decide
  exact ⟨hcheck, hshort, rfl, fun _ ↦ rfl,
    (keepsAlive_iff {} hcheck hshort (.memory {}) rfl fun _ ↦ rfl).2 hlonger⟩

end Config

end LeaseLock
