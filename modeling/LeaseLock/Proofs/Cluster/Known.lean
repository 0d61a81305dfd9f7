import LeaseLock.Proofs.Cluster.Exclusion
import LeaseLock.Proofs.Cluster.Grants

/-!
# The leases that coordinators know

A lease gets into a registry by a grant and changes there by renewals; every other move leaves it as
it is or forgets it (`Move.lease_cases`).

So what a registry says about a lease can be traced to notices (`Attributed`): the lease was granted
under its id, on its lock and to its holder, and its expiry is one that was told.

## What registries are not asked

Nothing is said of what a registry does not know. Leases are forgotten when they are pruned, when
their locks are granted anew through the same coordinator, when the registry is cleared, and when
upkeep is turned away; a registry may therefore know any part of what was granted through it. That
it knows all of a kind is said where it is true, for a coordinator that is alone with its store.

Interrupted operations are no part of this. What they leave in a registry need not have been told to
anyone, so the theorem about runs is one about calls.
-/

namespace LeaseLock

namespace Coordinator

/-- What is told of the renewal of a known lease is what is noted. -/
theorem expiresAt_noteRenewal_of_known {c : Coordinator} {id : LeaseId} {l : Lease}
    (h : c.registry.lease? id = some l) (target : Nat) :
    (c.noteRenewal id target).1.expiresAt = (Registry.renewed l target).expiresAt := by
  have hsnd : (c.registry.noteRenewal id target).2 = some (Registry.renewed l target) := by
    rw [Registry.noteRenewal_snd, h, Option.map_some]
  rw [noteRenewal]
  split
  · next l' hnote =>
    rw [hnote] at hsnd
    rw [Option.some.inj hsnd]
  · next hnote =>
    rw [hnote] at hsnd
    cases hsnd

/-- The renewals of a lease that is not known are counted as none. -/
theorem renewals_noteRenewal_of_unknown {c : Coordinator} {id : LeaseId}
    (h : c.registry.lease? id = none) (target : Nat) :
    (c.noteRenewal id target).1.renewals = 0 := by
  have hsnd : (c.registry.noteRenewal id target).2 = none := by
    rw [Registry.noteRenewal_snd, h, Option.map_none]
  rw [noteRenewal]
  split
  · next l hnote =>
    rw [hnote] at hsnd
    cases hsnd
  · rfl

end Coordinator

namespace Cluster

variable {ι : Type} [DecidableEq ι] {b : Lags} {f f' : Cluster ι} {h n : List Notice} {i : ι}
  {k : LeaseId} {l : Lease}

/-- Only the registry of one member changes, and forgets leases at most. -/
theorem lease?_of_forget {c : Coordinator} {j : ι}
    (hforget : ∀ l, c.registry.lease? k = some l → (f.member i).registry.lease? k = some l)
    (hl : ((f.enter i c).member j).registry.lease? k = some l) :
    (f.member j).registry.lease? k = some l := by
  rw [member_enter] at hl
  split at hl
  · next hj => exact hj ▸ hforget l hl
  · exact hl

/-- A lease that is known behind a move was known before, or it has just been granted, or it has
just been renewed, which its key survived and which was told. -/
theorem Move.lease_cases (hmove : Move b f n f') (hw : f.WellFormed)
    (hl : (f'.member i).registry.lease? k = some l) :
    (f.member i).registry.lease? k = some l ∨ (.granted l ∈ n ∧ l.id = k) ∨
      ∃ l₀ target lock renewal e, (f.member i).registry.lease? k = some l₀ ∧
        l = Registry.renewed l₀ target ∧ .renewed lock k renewal ∈ n ∧
        renewal.expiresAt = l.expiresAt ∧ f.store.row? lock = some ⟨k, e⟩ := by
  cases hmove with
  | quiet j c hleases =>
    exact .inl (lease?_of_forget (fun l hl ↦ (Registry.lease?_congr hleases).symm.trans hl) hl)
  | outage | elapse | refuse | begin | leave | purge => exact .inl hl
  | award j p s lag hlag hp hs =>
    replace hl : ((f.enter j ((f.member j).grant (f.now + lag) p.request p.id p.ttl).2).member
      i).registry.lease? k = some l := hl
    rw [member_enter] at hl
    split at hl
    · next hj =>
      subst hj
      replace hl := ((hw.registry i).lease?_insert _).symm.trans hl
      split at hl
      · next hk =>
        cases hl
        exact .inr (.inl ⟨List.mem_cons_self, hk.symm⟩)
      · exact .inl (Option.filter_eq_some_iff.1 hl).1
    · exact .inl hl
  | free j lock client id s hs =>
    exact .inl (lease?_of_forget (fun l hl ↦ Registry.lease?_of_remove hl) hl)
  | extend j lock id start target extension s hstart hlag htarget hs =>
    replace hl : ((f.enter j ((f.member j).noteRenewal id target).2).member
      i).registry.lease? k = some l := hl
    rw [member_enter] at hl
    split at hl
    · next hj =>
      subst hj
      rw [Coordinator.registry_noteRenewal, Registry.lease?_noteRenewal] at hl
      split at hl
      · next hk =>
        subst hk
        obtain ⟨l₀, hl₀, rfl⟩ := Option.map_eq_some_iff.1 hl
        obtain ⟨⟨e, he⟩, -⟩ := hs
        exact .inr (.inr ⟨l₀, target, lock, _, e, hl₀, rfl, List.mem_cons_self,
          Coordinator.expiresAt_noteRenewal_of_known hl₀ target,
          (Store.live?_eq_some_iff.1 he).1⟩)
      · exact .inl hl
    · exact .inl hl
  | prune j =>
    refine .inl (lease?_of_forget (fun l hl ↦ ?_) hl)
    rw [(hw.registry j).lease?_prune] at hl
    exact (Option.filter_eq_some_iff.1 hl).1
  | drop j l' hknown hlost =>
    exact .inl (lease?_of_forget (fun l hl ↦ Registry.lease?_of_remove hl) hl)
  | clear j => exact .inl (lease?_of_forget (fun l hl ↦ by cases hl) hl)

/-- What the registries say about leases was said in notices. -/
structure Attributed (f : Cluster ι) (h : List Notice) : Prop where
  /-- A lease was granted under its id, on its lock and to its holder. -/
  granted : ∀ i k l, (f.member i).registry.lease? k = some l →
    ∃ l₀, .granted l₀ ∈ h ∧ l₀.id = k ∧ l₀.lock = l.lock ∧ l₀.holder = l.holder
  /-- The expiry of a lease was told. -/
  told : ∀ i k l, (f.member i).registry.lease? k = some l →
    ∃ n ∈ h, n.expiry? l.lock k = some l.expiresAt

omit [DecidableEq ι] in
theorem Attributed.granted_lock (ha : f.Attributed h)
    (hl : (f.member i).registry.lease? k = some l) : Granted h l.lock k := by
  obtain ⟨l₀, hmem, hid, hlock, -⟩ := ha.granted i k l hl
  exact ⟨l₀, hmem, hlock, hid⟩

omit [DecidableEq ι] in
/-- If what was told fits, so does what is known. -/
theorem Attributed.lt_wordBound (ha : f.Attributed h) (hfits : ∀ n ∈ h, n.Fits)
    (hl : (f.member i).registry.lease? k = some l) : l.expiresAt < wordBound := by
  obtain ⟨n, hn, htold⟩ := ha.told i k l hl
  exact Notice.lt_of_expiry? (hfits n hn) htold

theorem Move.attributed (hmove : Move b f n f') (hw : f.WellFormed) (hg : f.GrantedOnce h)
    (ha : f.Attributed h) : f'.Attributed (h ++ n) where
  granted i k l hl := by
    have hold (l' : Lease) (hl' : (f.member i).registry.lease? k = some l') :
        ∃ l₀, .granted l₀ ∈ h ++ n ∧ l₀.id = k ∧ l₀.lock = l'.lock ∧ l₀.holder = l'.holder := by
      obtain ⟨l₀, hmem, hsame⟩ := ha.granted i k l' hl'
      exact ⟨l₀, List.mem_append_left n hmem, hsame⟩
    rcases hmove.lease_cases hw hl with hl | ⟨hmem, hid⟩ | ⟨l₀, -, -, -, -, hl₀, rfl, -⟩
    · exact hold l hl
    · exact ⟨l, List.mem_append_right h hmem, hid, rfl, rfl⟩
    · -- A renewal changes neither the lock nor the holder.
      exact hold l₀ hl₀
  told i k l hl := by
    rcases hmove.lease_cases hw hl with
      hl | ⟨hmem, rfl⟩ | ⟨l₀, target, lock, renewal, e, hl₀, rfl, hmem, hexpiry, hrow⟩
    · obtain ⟨m, hm, htold⟩ := ha.told i k l hl
      exact ⟨m, List.mem_append_left n hm, htold⟩
    · exact ⟨_, List.mem_append_right h hmem, Notice.expiry?_granted_self l⟩
    · refine ⟨_, List.mem_append_right h hmem, ?_⟩
      -- The id belongs to one lock, so the lease is known under the lock that was renewed.
      obtain ⟨l₁, hl₁, hid, hlock, -⟩ := ha.granted i k l₀ hl₀
      have hsame : lock = l₀.lock :=
        hg.unique _ _ _ (hg.row _ _ _ hrow) ⟨l₁, hl₁, hlock, hid⟩
      rw [← hexpiry, hsame]
      exact Notice.expiry?_renewed_self l₀.lock k renewal

omit [DecidableEq ι] in
theorem IsStart.attributed (hstart : f.IsStart) : f.Attributed [] := by
  have hempty : ∀ i k l, (f.member i).registry.lease? k ≠ some l := by
    intro i k l hl
    rw [hstart.registry i] at hl
    cases hl
  exact ⟨fun i k l hl ↦ absurd hl (hempty i k l), fun i k l hl ↦ absurd hl (hempty i k l)⟩

/-- In every run, ids are granted once and what the registries say was said in notices. -/
theorem attributed_runCalls (hstart : f.IsStart) (calls : List (Call ι)) :
    (f.runCalls calls).2.GrantedOnce (f.runCalls calls).1 ∧
      (f.runCalls calls).2.Attributed (f.runCalls calls).1 := by
  refine run_invariant (P := fun f h ↦ f.GrantedOnce h ∧ f.Attributed h) (h := [])
    (calls.map .call) ?_ ?_ hstart.wellFormed ⟨hstart.grantedOnce, hstart.attributed⟩
  · exact fun f h n f' hw hP hmove ↦ ⟨hmove.grantedOnce hw hP.1, hmove.attributed hw hP.1 hP.2⟩
  · intro i r keyed hmem
    simp at hmem

end Cluster

end LeaseLock
