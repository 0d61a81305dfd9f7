import LeaseLock.Proofs.Cluster.Grants

/-!
# Fencing tokens do not come back

The id of a lease is its fencing token. Once the lease has been granted, the token dies with the
first release that is answered, or with the first release or renewal that is turned away because the
lease does not own its lock. From then on every release and every renewal with it is turned away, by
every coordinator, whatever else happens.

A dead token owns no live key, and it never will: extending a key needs a live one, and taking one
needs an id whose acquisition has not ended (`Cluster.Fenced.lost`). An expired row of the token may
stay in the store for long, but every operation on it compares its expiry first.

The statement is about all events, registries that interrupted operations leave behind included, so
no order of the steps of concurrent calls brings a token back either.

## Dead and lost

That a token is dead is a matter of what was told (`Spent`), and that it is lost is a matter of the
store (`Cluster.Lost`). The invariant says that dead tokens are lost (`Cluster.Fenced`), and a lost
one is turned away by whatever is asked with it. It rests on the other invariant of grants: the
acquisition of a dead token has ended, so nobody is going to write a row for it.

A token whose lease has run out is lost, too, as soon as its row has expired. It need not be dead:
if nobody has been told so, the statement says nothing of it.
-/

namespace LeaseLock

namespace Notice

/-- The notice says that the lease `id` of `lock` has come to its end. -/
def Ends (lock : LockName) (id : LeaseId) (n : Notice) : Prop :=
  n = .released lock id ∨ n = .refused lock id (.notOwner lock)

/-- If the notice is about a release or a renewal of the lease `id` of `lock`, the call was turned
away, because the lease does not own its lock or because the store failed. -/
structure TurnsAway (lock : LockName) (id : LeaseId) (n : Notice) : Prop where
  /-- No release is answered. -/
  not_released : n ≠ .released lock id
  /-- No renewal is answered. -/
  not_renewed : ∀ renewal, n ≠ .renewed lock id renewal
  /-- The reasons for turning a call away. -/
  fault : ∀ fault, n = .refused lock id fault →
    fault = .notOwner lock ∨ ∃ e, fault = .storeUnavailable e

/-- A grant answers neither a release nor a renewal. -/
theorem turnsAway_granted (lock : LockName) (id : LeaseId) (l : Lease) :
    (granted l).TurnsAway lock id :=
  ⟨by simp, by simp, by simp⟩

/-- Nor does the end of what a coordinator remembers. -/
theorem turnsAway_cleared (lock : LockName) (id : LeaseId) : cleared.TurnsAway lock id :=
  ⟨by simp, by simp, by simp⟩

end Notice

/-- The token `id` of `lock` is dead: it was granted, and later its lease came to its end. -/
def Spent (h : List Notice) (lock : LockName) (id : LeaseId) : Prop :=
  ∃ past n later, h = past ++ n :: later ∧ Granted past lock id ∧ n.Ends lock id

variable {h : List Notice} {n : Notice} {lock : LockName} {id : LeaseId}

/-- A dead token stays dead. -/
theorem Spent.append (hs : Spent h lock id) (later : List Notice) : Spent (h ++ later) lock id := by
  obtain ⟨past, n, rest, rfl, hgranted, hends⟩ := hs
  exact ⟨past, n, rest ++ later, by simp, hgranted, hends⟩

/-- A dead token was granted. -/
theorem Spent.granted (hs : Spent h lock id) : Granted h lock id := by
  obtain ⟨past, n, rest, rfl, ⟨l, hl, hlock⟩, -⟩ := hs
  exact ⟨l, List.mem_append_left _ hl, hlock⟩

/-- A token that is dead now was dead before, or it has just died. -/
theorem Spent.of_append_singleton (hs : Spent (h ++ [n]) lock id) :
    Spent h lock id ∨ Granted h lock id ∧ n.Ends lock id := by
  obtain ⟨past, m, rest, heq, hgranted, hends⟩ := hs
  rcases List.eq_nil_or_concat rest with rfl | ⟨rest, x, rfl⟩
  · obtain ⟨rfl, hx⟩ := List.append_inj' heq rfl
    obtain rfl : n = m := by simpa using hx
    exact .inr ⟨hgranted, hends⟩
  · rw [List.concat_eq_append, ← List.cons_append, ← List.append_assoc] at heq
    obtain ⟨rfl, -⟩ := List.append_inj' heq rfl
    exact .inl ⟨past, m, rest, rfl, hgranted, hends⟩

namespace Cluster

variable {ι : Type} [DecidableEq ι] {b : Lags} {f f' : Cluster ι}

/-- The lease `id` of `lock` owns no live key. -/
def Lost (f : Cluster ι) (lock : LockName) (id : LeaseId) : Prop :=
  ∀ row, f.store.live? f.now lock = some row → row.lease ≠ id

/-- What is kept about dead tokens. -/
structure Fenced (f : Cluster ι) (h : List Notice) : Prop where
  /-- Dead tokens have no live key. -/
  lost : ∀ lock id, Spent h lock id → f.Lost lock id
  /-- Dead tokens are turned away. -/
  away : ∀ past later, h = past ++ later → ∀ lock id, Spent past lock id →
    ∀ n ∈ later, n.TurnsAway lock id

omit [DecidableEq ι] in
/-- A lease that owns no live key owns none as long as live keys only go away. -/
theorem Lost.mono (hl : f.Lost lock id)
    (hlive : ∀ row, f'.store.live? f'.now lock = some row →
      f.store.live? f.now lock = some row) : f'.Lost lock id :=
  fun row hrow ↦ hl row (hlive row hrow)

omit [DecidableEq ι] in
/-- A lease that owns no live key gets none when a key is set for another one. -/
theorem Lost.sets (hl : f.Lost lock id) (hnow : f.now ≤ f'.now) {lock' : LockName}
    {row : Option Row} (hsets : f.store.Sets f'.store lock' row)
    (hrow : lock = lock' → ∀ r, row = some r → r.lease ≠ id) : f'.Lost lock id := by
  intro r hr
  obtain ⟨hr, hlt⟩ := Store.live?_eq_some_iff.1 hr
  have hlt := Nat.lt_of_le_of_lt hnow hlt
  by_cases hlock : lock = lock'
  · subst hlock
    rw [hsets.at_lock] at hr
    exact hrow rfl r hr
  · rw [hsets.elsewhere hlock] at hr
    exact hl r (Store.live?_eq_some_iff.2 ⟨hr, hlt⟩)

omit [DecidableEq ι] in
/-- Whoever changes a key owns a live one. -/
theorem Lost.ne_of_changed {s : Store} {lock' : LockName} {id' : LeaseId} {row : Option Row}
    (hl : f.Lost lock id) (hs : f.store.Changed s f.now lock' id' row true) :
    ¬ (lock = lock' ∧ id = id') := by
  rintro ⟨rfl, rfl⟩
  obtain ⟨⟨e, he⟩, -⟩ := hs
  exact hl _ he rfl

omit [DecidableEq ι] in
/-- A step with a notice: the notice turns dead tokens away, and those that it kills have lost their
locks. -/
theorem Fenced.append (hf : f.Fenced h)
    (hlost : ∀ lock id, Spent h lock id → f'.Lost lock id)
    (hends : ∀ lock id, n.Ends lock id → f'.Lost lock id)
    (haway : ∀ lock id, Spent h lock id → n.TurnsAway lock id) : f'.Fenced (h ++ [n]) where
  lost lock id hs := by
    rcases hs.of_append_singleton with hs | ⟨-, hn⟩
    · exact hlost lock id hs
    · exact hends lock id hn
  away past later heq lock id hs m hm := by
    rcases List.eq_nil_or_concat later with rfl | ⟨later, x, rfl⟩
    · cases hm
    · rw [List.concat_eq_append, ← List.append_assoc] at heq
      obtain ⟨rfl, hx⟩ := List.append_inj' heq rfl
      obtain rfl : n = x := by simpa using hx
      rw [List.concat_eq_append, List.mem_append, List.mem_singleton] at hm
      rcases hm with hm | rfl
      · exact hf.away past later rfl lock id hs m hm
      · exact haway lock id (hs.append later)

/-- Every move keeps dead tokens lost. -/
theorem Move.fenced {n : List Notice} (hmove : Move b f n f') (hg : f.GrantedOnce h)
    (hf : f.Fenced h) : f'.Fenced (h ++ n) := by
  -- Live rows come back to nobody by time, by a purge or by what registries forget.
  have hquiet (hlive : ∀ k row, f'.store.live? f'.now k = some row →
      f.store.live? f.now k = some row) : f'.Fenced (h ++ []) := by
    rw [List.append_nil]
    exact ⟨fun lock id hs ↦ (hf.lost lock id hs).mono (hlive lock), hf.away⟩
  cases hmove with
  | quiet i c hleases => exact hquiet fun _ _ hrow ↦ hrow
  | outage on => exact hquiet fun _ _ hrow ↦ hrow
  | elapse millis ticks =>
    refine hquiet fun k row hrow ↦ ?_
    obtain ⟨hrow, hlt⟩ := Store.live?_eq_some_iff.1 hrow
    exact Store.live?_eq_some_iff.2 ⟨hrow, Nat.lt_of_le_of_lt (Nat.le_add_right _ _) hlt⟩
  | refuse lock id fault hfault =>
    refine hf.append hf.lost ?_ fun _ _ _ ↦ ⟨by simp, by simp, ?_⟩
    · rintro lock' id' (heq | heq)
      · cases heq
      · cases heq
        rcases hfault with ⟨-, hlost⟩ | ⟨e, he⟩
        · exact hlost
        · cases he
    · intro fault' heq
      cases heq
      exact hfault.imp_left And.left
  | begin i p hfresh => exact hquiet fun _ _ hrow ↦ hrow
  | leave id => exact hquiet fun _ _ hrow ↦ hrow
  | award i p s lag hlag hp hs =>
    refine hf.append ?_ ?_ fun lock id _ ↦ Notice.turnsAway_granted lock id _
    · intro lock id hspent
      refine (hf.lost lock id hspent).sets (Nat.le_add_right _ lag) hs.2
        fun _ r hr ↦ ?_
      cases hr
      -- A dead token was granted, so its acquisition has ended and takes no key.
      rintro rfl
      rw [(hg.settled lock p.id hspent.granted).2] at hp
      cases hp
    · rintro lock id (heq | heq) <;> cases heq
  | free i lock client id s hs =>
    refine hf.append ?_ ?_ ?_
    · intro lock' id' hspent
      exact (hf.lost lock' id' hspent).sets (Nat.le_refl _) hs.2 fun _ r hr ↦ by cases hr
    · rintro lock' id' (heq | heq)
      · cases heq
        intro row hrow
        have hgone := hs.2.at_lock.symm.trans (Store.live?_eq_some_iff.1 hrow).1
        cases hgone
      · cases heq
    · intro lock' id' hspent
      have hne := (hf.lost lock' id' hspent).ne_of_changed hs
      refine ⟨?_, by simp, by simp⟩
      intro heq
      cases heq
      exact hne ⟨rfl, rfl⟩
  | extend i lock id start target extension s hstart hlag htarget hs =>
    refine hf.append ?_ ?_ ?_
    · intro lock' id' hspent
      have hne := (hf.lost lock' id' hspent).ne_of_changed hs
      refine (hf.lost lock' id' hspent).sets (Nat.le_refl _) hs.2 fun hlock r hr ↦ ?_
      cases hr
      exact fun hid ↦ hne ⟨hlock, hid.symm⟩
    · rintro lock' id' (heq | heq) <;> cases heq
    · intro lock' id' hspent
      have hne := (hf.lost lock' id' hspent).ne_of_changed hs
      refine ⟨by simp, ?_, by simp⟩
      intro renewal heq
      cases heq
      exact hne ⟨rfl, rfl⟩
  | purge s m hs =>
    refine hquiet fun k row hrow ↦ ?_
    obtain ⟨hrow, hlt⟩ := Store.live?_eq_some_iff.1 hrow
    exact Store.live?_eq_some_iff.2 ⟨Store.row?_of_row?_purge hs hrow, hlt⟩
  | prune i => exact hquiet fun _ _ hrow ↦ hrow
  | drop i l hknown hlost => exact hquiet fun _ _ hrow ↦ hrow
  | clear i =>
    refine hf.append hf.lost ?_ fun lock id _ ↦ Notice.turnsAway_cleared lock id
    rintro lock' id' (heq | heq) <;> cases heq

/-- **Fencing.** In every run, as soon as a token is dead, every release and every renewal with it
is turned away. -/
theorem turnsAway_of_spent (f : Cluster ι) (hstart : f.IsStart) (es : List (Event ι))
    (past later : List Notice) (hrun : (f.run es).1 = past ++ later)
    (lock : LockName) (id : LeaseId) (hspent : Spent past lock id) :
    ∀ n ∈ later, n.TurnsAway lock id := by
  have hfenced : f.Fenced [] := by
    constructor
    · rintro lock id ⟨past, n, later, heq, -⟩
      simp at heq
    · intro past later heq lock id _ n hn
      rw [(List.append_eq_nil_iff.1 heq.symm).2] at hn
      cases hn
  obtain ⟨-, hend⟩ := run_invariant (P := fun f h ↦ f.GrantedOnce h ∧ f.Fenced h) (h := []) es
    (fun f h n f' hw hP hmove ↦ ⟨hmove.grantedOnce hw hP.1, hmove.fenced hP.1 hP.2⟩)
    (fun i r _ _ f h hP ↦ ⟨⟨hP.1.settled, hP.1.unique, hP.1.row⟩, ⟨hP.2.lost, hP.2.away⟩⟩)
    hstart.wellFormed ⟨hstart.grantedOnce, hfenced⟩
  exact hend.away past later hrun lock id hspent

/-- A lease expires and its lock is granted anew; its holder notices, and tries again while the
store is out of reach and later through the other coordinator. -/
def comeBack : List (Event Bool) :=
  [.call (.acquire true "a" { lock := "L", client := "x", ttl := some (.ofSecs 1) }),
   .call (.elapse 2000 2000), .call (.acquire false "b" { lock := "L", client := "y" }),
   .call (.release true "L" "x" "a"), .call (.clear true), .call (.outage true),
   .call (.renew true "L" "a" none), .call (.outage false), .call (.renew false "L" "a" none)]

/-- A release tells the holder that the lease is lost. Whatever is tried with the token afterwards,
through either coordinator and during an outage, is turned away. -/
theorem turnsAway_comeBack :
    Spent ((pair.run comeBack).1.take 3) "L" "a" ∧
      ∀ n ∈ (pair.run comeBack).1.drop 3, n.TurnsAway "L" "a" := by
  have hspent : Spent ((pair.run comeBack).1.take 3) "L" "a" :=
    ⟨(pair.run comeBack).1.take 2, .refused "L" "a" (.notOwner "L"), [], rfl,
      ⟨_, List.mem_cons_self, rfl, rfl⟩, .inr rfl⟩
  exact ⟨hspent, turnsAway_of_spent pair isStart_pair comeBack _ _
    (List.take_append_drop 3 _).symm "L" "a" hspent⟩

end Cluster

end LeaseLock
