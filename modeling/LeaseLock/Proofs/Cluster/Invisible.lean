import LeaseLock.Proofs.Cluster.Answers
import LeaseLock.Proofs.Coordinator.Unseen

/-!
# Failed operations are invisible

**What fails leaves no trace.** Take the log of any run and delete from it the releases and the
renewals that ended in an error, and everything about the acquisitions that ended in an error or
were given up: how they were asked for, how often they tried again, and their end. Then the calls
that remain, made without the others, have the same answers at the same times, and behind them the
store and the leases of every coordinator are the same (`Cluster.log_remaining`).

Only the clock notices what is deleted. If a deleted call took time, that time passes without it.

The two runs are compared step by step. They differ in who waits and in the ids of the acquisitions
that come to nothing (`Cluster.Alike`). A call that is left out changes nothing else
(`Cluster.turn_of_isRefusal`, `Cluster.Alike.skip_lost`); a call that remains reads nothing of that
(`Cluster.Alike.keep`), unless it looks for deadlocks, which are made of waiting clients.

## What failing leaves behind

A refusal changes nothing at all. An acquisition in vain has changed something in between: its id
has been issued, and its client has been listed as waiting. The first is not seen by anybody who
does not come with the same id, and the second is over when the acquisition is. While it lasts it is
seen by those who look for deadlocks, which is why such calls are left out of the statement.

An acquisition that is still waiting at the end of the run has not failed yet, and remains.
-/

namespace LeaseLock

/-- Whether an entry remains when the failed releases and renewals and the acquisitions in `lost`
are deleted. -/
def Entry.remains {ι : Type} (lost : List LeaseId) (e : Entry ι) : Bool :=
  !e.answer.isRefusal && e.query.acquisition?.all fun id ↦ !lost.contains id

/-- An entry remains unless it was refused or belongs to an acquisition that came to nothing. -/
theorem Entry.remains_iff {ι : Type} {lost : List LeaseId} {e : Entry ι} :
    e.remains lost = true ↔
      e.answer.isRefusal = false ∧ ∀ id, e.query.acquisition? = some id → id ∉ lost := by
  rw [remains, Bool.and_eq_true, Bool.not_eq_true', Option.all_eq_true]
  simp

/-- The entries in `log` that remain, with what is left of the others. -/
def Entry.without {ι : Type} (lost : List LeaseId) (log : List (Entry ι)) : List (Entry ι) :=
  log.filterMap fun e ↦ if e.remains lost then some e else e.idle?

/-- The log without what failed. -/
def remaining {ι : Type} (log : List (Entry ι)) : List (Entry ι) :=
  Entry.without (log.filterMap Entry.lost?) log

/-- The first entry remains or leaves behind the time it took. -/
theorem Entry.without_cons {ι : Type} (lost : List LeaseId) (e : Entry ι) (log : List (Entry ι)) :
    Entry.without lost (e :: log) =
      (if e.remains lost then [e] else e.idle?.toList) ++ Entry.without lost log := by
  rw [without, List.filterMap_cons]
  split
  · next h =>
    split at h
    · cases h
    · next hlost =>
      rw [if_neg hlost, h]
      rfl
  · next e' h =>
    split at h
    · next hremains =>
      rw [if_pos hremains, Option.some.inj h]
      rfl
    · next hlost =>
      rw [if_neg hlost, h]
      rfl

/-- The query of the time that an entry leaves is what its own query leaves. -/
theorem Entry.map_query_idle? {ι : Type} (e : Entry ι) :
    e.idle?.toList.map (·.query) = e.query.idle?.toList := by
  rw [idle?]
  cases e.query.idle? <;> rfl

namespace Cluster

variable {ι : Type} [DecidableEq ι] {f g : Cluster ι} {q : Query ι} {lost : List LeaseId}
  {id : LeaseId} {i : ι}

/-! ### Two runs side by side -/

/-- Clusters that differ at most in who waits and in the acquisitions in `lost`. -/
structure Alike (lost : List LeaseId) (f g : Cluster ι) : Prop where
  /-- The stores are the same. -/
  store : g.store = f.store
  /-- The coordinators are the same but for who waits. -/
  member : ∀ i, ∃ w, g.member i = (f.member i).withWaiting w
  /-- The same other acquisitions wait. -/
  pending : ∀ id, id ∉ lost → g.pending id = f.pending id
  /-- The same other ids have been issued. -/
  issued : ∀ id, id ∉ lost → (id ∈ g.issued ↔ id ∈ f.issued)
  /-- The store is out of reach in both, or in neither. -/
  outage : g.outage = f.outage
  /-- The times are the same. -/
  now : g.now = f.now
  /-- The ticks are the same. -/
  tick : g.tick = f.tick

omit [DecidableEq ι] in
theorem Alike.refl (lost : List LeaseId) (f : Cluster ι) : Alike lost f f :=
  ⟨rfl, fun i ↦ ⟨(f.member i).registry.waiting, rfl⟩, fun _ _ ↦ rfl, fun _ _ ↦ Iff.rfl, rfl, rfl,
    rfl⟩

omit [DecidableEq ι] in
theorem Alike.reach (h : Alike lost f g) : g.reach = f.reach := by
  rw [Cluster.reach, h.outage, h.store, Cluster.reach]

omit [DecidableEq ι] in
theorem Alike.pass (h : Alike lost f g) (millis ticks : Nat) :
    Alike lost (f.pass millis ticks) (g.pass millis ticks) :=
  { h with
    now := congrArg (· + millis) h.now
    tick := congrArg (· + ticks) h.tick }

/-! ### Deleted calls -/

/-- One of them may remember other registrations. -/
theorem Alike.enter_left (h : Alike lost f g) (w : Dict Names) :
    Alike lost (f.enter i ((f.member i).withWaiting w)) g :=
  { h with
    member := by
      intro j
      obtain ⟨w', hw'⟩ := h.member j
      refine ⟨w', ?_⟩
      rw [member_enter]
      split
      · next hj =>
        subst hj
        exact hw'
      · exact hw' }

omit [DecidableEq ι] in
/-- One of them may wait with an acquisition that comes to nothing. -/
theorem Alike.await_left (h : Alike lost f g) (hid : id ∈ lost) (p : Option (ι × Pending)) :
    Alike lost (f.await id p) g :=
  { h with
    pending := by
      intro k hk
      rw [pending_await, if_neg (ne_of_mem_of_not_mem hid hk).symm]
      exact h.pending k hk }

omit [DecidableEq ι] in
/-- One of them may have issued the id of an acquisition that comes to nothing. -/
theorem Alike.issue_left (h : Alike lost f g) (hid : id ∈ lost) : Alike lost (f.issue id) g :=
  { h with
    issued := by
      intro k hk
      rw [h.issued k hk, issue, List.mem_cons, or_iff_right (ne_of_mem_of_not_mem hid hk).symm] }

/-- A step of a lost acquisition that gets no lease. -/
theorem Alike.answered_left (h : Alike lost f g) (hid : id ∈ lost) {o : Outcome Acquisition}
    (ho : ∃ a w, o = ⟨a, f.reach, (f.member i).withWaiting w⟩) :
    Alike lost (f.answered i id o) g := by
  obtain ⟨a, w, rfl⟩ := ho
  rw [answered, put_reach]
  exact (h.enter_left w).await_left hid _

/-- A lost acquisition leaves no trace. -/
theorem Alike.skip_lost (h : Alike lost f g) (hid : id ∈ lost) (hq : q.acquisition? = some id)
    (hwin : (f.answer q).isWin = false) :
    Alike lost (f.turn q) (g.pass q.took q.took) := by
  have hended {a : Acquisition} (ha : (Answer.acquisition a).isWin = false) (l : Lease) :
      a ≠ .ended (.ok l) := by
    rintro rfl
    cases ha
  rcases Query.acquisition?_cases hq with ⟨i, request, lag, rfl⟩ | ⟨lag, rfl⟩ | rfl
  · rw [answer] at hwin
    rw [turn, serve]
    by_cases hissued : id ∈ f.issued
    · rw [if_pos hissued]
      exact h.pass lag lag
    · rw [if_neg hissued] at hwin ⊢
      exact ((h.issue_left hid).answered_left hid
        (Coordinator.acquire_in_vain (hended hwin))).pass lag lag
  · rw [answer] at hwin
    rw [turn, serve]
    cases hp : f.pending id with
    | none => exact h.pass lag lag
    | some r =>
      obtain ⟨i, p⟩ := r
      rw [hp] at hwin
      exact (h.answered_left hid (Coordinator.poll_in_vain (hended hwin))).pass lag lag
  · rw [turn, serve]
    cases f.pending id with
    | none => exact h
    | some r => exact (h.enter_left _).await_left hid none

/-- A release or a renewal that fails leaves no trace. -/
theorem turn_of_isRefusal (h : (f.answer q).isRefusal = true) :
    f.turn q = f.pass q.took q.took := by
  cases q with
  | list i => rfl
  | call c =>
    cases c with
    | release i lock client id =>
      cases hanswer : ((f.member i).release f.reach f.now lock client id).answer with
      | ok u => simp only [answer, hanswer, Answer.isRefusal, Bool.false_eq_true] at h
      | error fault =>
        show f.put i _ = f
        rw [Coordinator.release_of_error hanswer, put_reach, enter_member]
    | renew i lock id extension lag =>
      cases hanswer : ((f.member i).renew f.reach f.now lock id extension lag).answer with
      | ok renewal => simp only [answer, hanswer, Answer.isRefusal, Bool.false_eq_true] at h
      | error fault =>
        show (f.put i _).pass lag lag = f.pass lag lag
        rw [Coordinator.renew_of_error hanswer, put_reach, enter_member]
    | acquire i id request lag =>
      rw [answer] at h
      split at h <;> cases h
    | poll id lag | cancel id =>
      rw [answer] at h
      split at h <;> cases h
    | upkeep | purge | status | detect | clear | outage | elapse => cases h

/-! ### Remaining calls -/

/-- Coordinators that differ in their registrations may be entered in both. -/
theorem Alike.enter (h : Alike lost f g) {c : Coordinator} (w : Dict Names) :
    Alike lost (f.enter i c) (g.enter i (c.withWaiting w)) :=
  { h with
    member := by
      intro j
      rw [member_enter, member_enter]
      split
      · exact ⟨w, rfl⟩
      · exact h.member j }

/-- An operation with the same outcome, but for who waits. -/
theorem Alike.put {α : Type} (h : Alike lost f g) (o : Outcome α) (w : Dict Names) :
    Alike lost (f.put i o) (g.put i (o.withWaiting w)) :=
  { h.enter w with
    store := by
      show (if g.outage then g.store else o.store) = if f.outage then f.store else o.store
      rw [h.outage, h.store] }

omit [DecidableEq ι] in
/-- Both may come to wait, or cease to, with the same acquisition. -/
theorem Alike.await (h : Alike lost f g) (id : LeaseId) (p : Option (ι × Pending)) :
    Alike lost (f.await id p) (g.await id p) :=
  { h with
    pending := by
      intro k hk
      rw [pending_await, pending_await, h.pending k hk] }

omit [DecidableEq ι] in
theorem Alike.issue (h : Alike lost f g) (id : LeaseId) : Alike lost (f.issue id) (g.issue id) :=
  { h with
    issued := by
      intro k hk
      rw [Cluster.issue, Cluster.issue, List.mem_cons, List.mem_cons, h.issued k hk] }

/-- A call that remains has the same answer. -/
theorem Alike.keep (h : Alike lost f g) (hq : ∀ id, q.acquisition? = some id → id ∉ lost)
    (hdetect : ∀ i, q ≠ .call (.detect i)) :
    g.answer q = f.answer q ∧ Alike lost (f.turn q) (g.turn q) := by
  cases q with
  | list i =>
    obtain ⟨w, hw⟩ := h.member i
    refine ⟨?_, h⟩
    rw [answer, hw, answer]
    rfl
  | call c =>
    cases c with
    | acquire i id request lag =>
      obtain ⟨w, hw⟩ := h.member i
      obtain ⟨w', ho⟩ := (f.member i).acquire_withWaiting w f.reach f.now f.tick id request lag
      have hissued := h.issued id (hq id rfl)
      rw [turn, turn, serve, serve, answer, answer, hw, h.reach, h.now, h.tick, ho]
      by_cases hid : id ∈ f.issued
      · rw [if_pos hid, if_pos hid, if_pos (hissued.2 hid), if_pos (hissued.2 hid)]
        exact ⟨rfl, h.pass lag lag⟩
      · have hid' : id ∉ g.issued := fun hmem ↦ hid (hissued.1 hmem)
        rw [if_neg hid, if_neg hid, if_neg hid', if_neg hid']
        exact ⟨rfl, (((h.issue id).put _ w').await id _).pass lag lag⟩
    | poll id lag =>
      rw [turn, turn, serve, serve, answer, answer, h.pending id (hq id rfl)]
      cases f.pending id with
      | none => exact ⟨rfl, h.pass lag lag⟩
      | some r =>
        obtain ⟨i, p⟩ := r
        obtain ⟨w, hw⟩ := h.member i
        obtain ⟨w', ho⟩ := (f.member i).poll_withWaiting w f.reach f.now f.tick p lag
        dsimp only
        rw [hw, h.reach, h.now, h.tick, ho]
        exact ⟨rfl, ((h.put _ w').await id _).pass lag lag⟩
    | cancel id =>
      rw [turn, turn, serve, serve, answer, answer, h.pending id (hq id rfl)]
      cases f.pending id with
      | none => exact ⟨rfl, h⟩
      | some r =>
        obtain ⟨i, p⟩ := r
        obtain ⟨w, hw⟩ := h.member i
        obtain ⟨w', hc⟩ := (f.member i).cancel_withWaiting w p
        dsimp only
        rw [hw, hc]
        exact ⟨rfl, (h.enter w').await id none⟩
    | release i lock client id =>
      obtain ⟨w, hw⟩ := h.member i
      have ho := (f.member i).release_withWaiting w f.reach f.now lock client id
      rw [turn, turn, serve, serve, answer, answer, hw, h.reach, h.now, ho]
      exact ⟨rfl, h.put _ w⟩
    | renew i lock id extension lag =>
      obtain ⟨w, hw⟩ := h.member i
      have ho := (f.member i).renew_withWaiting w f.reach f.now lock id extension lag
      rw [turn, turn, serve, serve, answer, answer, hw, h.reach, h.now, ho]
      exact ⟨rfl, (h.put _ w).pass lag lag⟩
    | upkeep i interval lags =>
      obtain ⟨w, hw⟩ := h.member i
      have ho := (f.member i).upkeep_withWaiting w f.reach f.now interval lags
      rw [turn, turn, upkeep_serve, upkeep_serve, answer, answer, hw, h.reach, h.now, ho]
      exact ⟨rfl, (h.put _ w).pass ..⟩
    | purge =>
      rw [turn, turn, serve, serve, answer, answer, h.reach, h.now]
      refine ⟨rfl, ?_⟩
      cases f.reach.purge f.now with
      | error fault => exact h
      | ok r =>
        dsimp only
        rw [h.outage]
        split
        · exact h
        · exact { h with store := rfl }
    | status i lock lag =>
      obtain ⟨w, hw⟩ := h.member i
      refine ⟨?_, h.pass lag lag⟩
      rw [answer, answer, hw, h.reach, h.now]
      rfl
    | detect i => exact absurd rfl (hdetect i)
    | clear i =>
      obtain ⟨w, hw⟩ := h.member i
      refine ⟨rfl, ?_⟩
      rw [turn, turn, serve, serve, hw]
      exact h.enter (f.member i).clear.registry.waiting
    | outage on => exact ⟨rfl, { h with outage := rfl }⟩
    | elapse millis ticks => exact ⟨rfl, h.pass millis ticks⟩

/-! ### Runs -/

/-- A run and what remains of it when `lost` and the failed releases and renewals are deleted. -/
theorem Alike.log (h : Alike lost f g) {qs : List (Query ι)}
    (hdetect : ∀ q ∈ qs, ∀ i, q ≠ .call (.detect i))
    (hwin : ∀ e ∈ f.log qs, ∀ id ∈ lost, e.query.acquisition? = some id →
      e.answer.isWin = false) :
    g.log ((Entry.without lost (f.log qs)).map (·.query)) = Entry.without lost (f.log qs) ∧
      Alike lost (f.turns qs) (g.turns ((Entry.without lost (f.log qs)).map (·.query))) := by
  induction qs generalizing f g with
  | nil => exact ⟨rfl, h⟩
  | cons q qs ih =>
    have hdetect' : ∀ q ∈ qs, ∀ i, q ≠ .call (.detect i) :=
      fun q' hq' ↦ hdetect q' (List.mem_cons_of_mem q hq')
    have hwin' : ∀ e ∈ (f.turn q).log qs, ∀ id ∈ lost, e.query.acquisition? = some id →
        e.answer.isWin = false := fun e he ↦ hwin e (List.mem_cons_of_mem _ he)
    rw [Cluster.log, Entry.without_cons]
    by_cases hremains : (f.entry q).remains lost = true
    · rw [if_pos hremains, List.singleton_append, List.map_cons]
      have hkept : ∀ id, q.acquisition? = some id → id ∉ lost := (Entry.remains_iff.1 hremains).2
      obtain ⟨hanswer, hnext⟩ := h.keep hkept (hdetect q List.mem_cons_self)
      obtain ⟨hlog, hend⟩ := ih hnext hdetect' hwin'
      refine ⟨?_, hend⟩
      have hentry : g.entry q = f.entry q := by
        rw [entry, entry, hanswer, h.now, h.tick]
      show g.entry q :: (g.turn q).log _ = _
      rw [hentry, hlog]
    · rw [if_neg hremains, List.map_append, Entry.map_query_idle?]
      have hskip : Alike lost (f.turn q) (g.pass q.took q.took) := by
        by_cases hrefused : (f.answer q).isRefusal = true
        · rw [turn_of_isRefusal hrefused]
          exact h.pass _ _
        · -- The query is about a lost acquisition.
          obtain ⟨id, hq, hid⟩ : ∃ id, q.acquisition? = some id ∧ id ∈ lost := by
            by_contra hnone
            exact hremains (Entry.remains_iff.2 ⟨Bool.eq_false_iff.2 hrefused,
              fun id hq hid ↦ hnone ⟨id, hq, hid⟩⟩)
          exact h.skip_lost hid hq (hwin _ List.mem_cons_self id hid hq)
      obtain ⟨hlog, hend⟩ := ih hskip hdetect' hwin'
      rw [log_append, turns_append, show (f.entry q).query = q from rfl, turns_idle?, hlog,
        log_idle? h.now h.tick]
      exact ⟨rfl, hend⟩

/-- **What fails leaves no trace.** Delete from the log of a run that does not look for deadlocks
the releases and renewals that ended in an error, and everything about the acquisitions that ended
in an error or were given up. The calls that remain have the same answers at the same times without
the others, and behind them the store and the leases of all coordinators are the same. The time that
a deleted call took passes all the same. -/
theorem log_remaining (f : Cluster ι) (hf : f.WellFormed) (qs : List (Query ι))
    (hdetect : ∀ q ∈ qs, ∀ i, q ≠ .call (.detect i)) :
    f.log ((remaining (f.log qs)).map (·.query)) = remaining (f.log qs) ∧
      (f.turns ((remaining (f.log qs)).map (·.query))).store = (f.turns qs).store ∧
      ∀ i, ((f.turns ((remaining (f.log qs)).map (·.query))).member i).leases =
        ((f.turns qs).member i).leases := by
  obtain ⟨hlog, hend⟩ := (Alike.refl ((f.log qs).filterMap Entry.lost?) f).log hdetect (by
    intro e he id hid hq
    obtain ⟨e₀, he₀, hlost⟩ := List.mem_filterMap.1 hid
    exact not_win_of_lost hf he₀ hlost he hq)
  refine ⟨hlog, hend.store, fun i ↦ ?_⟩
  obtain ⟨w, hw⟩ := hend.member i
  show ((f.turns ((remaining (f.log qs)).map (·.query))).member i).leases = _
  rw [remaining, hw]
  rfl

/-- Between a grant and the next one, acquisitions end in vain in every way, one of them three
milliseconds late, and releases and renewals are refused. -/
def inVain : List (Query Bool) :=
  [.call (.acquire true "a" { lock := "L", client := "x" }),
   .call (.acquire false "b" { lock := "L", client := "y" } 3),
   .call (.acquire false "c" { lock := "L", client := "y", wait := .ofMillis 150 }),
   .call (.acquire true "d" { lock := "L", client := "z", wait := .ofSecs 60 }),
   .call (.acquire false "e" { lock := "L", client := "v", wait := .ofSecs 60 }),
   .call (.release false "L" "y" "b"), .call (.elapse 100 100), .call (.poll "c"),
   .call (.poll "e"), .call (.renew false "L" "c" none), .call (.elapse 50 50), .call (.poll "c"),
   .call (.cancel "d"), .call (.outage true), .call (.release true "L" "x" "a"),
   .call (.acquire true "g" { lock := "M", client := "x" }), .call (.outage false),
   .call (.release true "L" "x" "a"), .call (.elapse 50 50), .call (.poll "e"), .list false]

/-- The run loses four acquisitions and the calls that are refused. What remains is answered as
before. -/
theorem log_remaining_inVain :
    pair.WellFormed ∧ (∀ q ∈ inVain, ∀ i, q ≠ .call (.detect i)) ∧
      ((pair.log inVain).filterMap Entry.lost? = ["b", "c", "d", "g"]) ∧
      (remaining (pair.log inVain)).length = 12 ∧
      pair.log ((remaining (pair.log inVain)).map (·.query)) = remaining (pair.log inVain) := by
  have hdetect : ∀ q ∈ inVain, ∀ i, q ≠ .call (.detect i) := by simp [inVain]
  exact ⟨isStart_pair.wellFormed, hdetect, by decide, by decide,
    (log_remaining pair isStart_pair.wellFormed inVain hdetect).1⟩

end Cluster

end LeaseLock
