import LeaseLock.Proofs.Store.Answers

/-!
# Stores that cannot be told apart

Two stores that hold the same rows answer every call in the same way, whatever their kinds, as long
as they fail alike and have full interfaces (`Store.AgreeOn.serve`). This is used twice.

**Memory and a table are interchangeable.** Started empty, they give the same answers to every
sequence of calls, at times that go back and forth as they like, as long as every number fits the
table (`Store.answers_memory_eq_answers_table`). The rows agree throughout, dead ones among them, so
that a later purge counts the same.

**A dead row is no row.** Contents of one store that differ only in rows that have expired give the
same answers from then on, the counts of purges apart (`Store.answers_of_live?`). So a purge
changes no later answer. The rows agree among those that are live; each call compares the expiry of
a row with the time in the same way, and a key that is taken over is overwritten as a whole.

Both are one argument for the rows with some property `p` that all live rows have
(`Store.AgreeOn`): all rows in the first case, the rows that are live in the second.

## Counts of purges

A purge answers how many rows it has deleted, and that is the one answer in which a row that has
expired can be seen. Answers are therefore compared without such counts where the stores may differ
in dead rows (`StoreAnswer.uncounted`), and with them where they do not.

Times may go back in the first statement and not in the second. A row that is dead at one time is
alive at an earlier one, so stores that agree in live rows now need not have agreed before.
-/

namespace LeaseLock

/-- The answer without the count of a purge. -/
def StoreAnswer.uncounted : StoreAnswer → StoreAnswer
  | .purged _ => .purged 0
  | a => a

namespace Store

variable {s s' t t' : Store} {p q : Row → Bool} {now : Nat} {lock : LockName} {id : LeaseId}
  {ttl : Duration} {b b' : Bool} {row : Option Row} {c : StoreCall} {a a' : StoreAnswer}

/-- The stores hold the same rows among those with `p`. -/
def AgreeOn (p : Row → Bool) (s t : Store) : Prop := ∀ k, (s.row? k).filter p = (t.row? k).filter p

/-- Stores that agree on all rows hold the same rows. -/
theorem agreeOn_true : AgreeOn (fun _ ↦ true) s t ↔ ∀ k, s.row? k = t.row? k := by
  have hfilter (o : Option Row) : o.filter (fun _ ↦ true) = o := by
    cases o <;> rfl
  simp only [AgreeOn, hfilter]

/-- Stores that agree on more rows agree on fewer. -/
theorem AgreeOn.mono (h : AgreeOn p s t) (hqp : ∀ row, q row = true → p row = true) :
    AgreeOn q s t := by
  have hfilter (o : Option Row) : o.filter q = (o.filter p).filter q := by
    cases o with
    | none => rfl
    | some row =>
      cases hp : p row with
      | true => rw [Option.filter_some_pos hp]
      | false =>
        have hq : q row = false := Bool.eq_false_iff.2 fun hq ↦ by simp [hqp row hq] at hp
        rw [Option.filter_some_neg hq, Option.filter_some_neg hp, Option.filter_none]
  intro k
  rw [hfilter, h k, ← hfilter]

/-- A key that is set in both stores alike. -/
theorem AgreeOn.sets (h : AgreeOn p s t) (hs : s.Sets s' lock row) (ht : t.Sets t' lock row) :
    AgreeOn p s' t' := by
  intro k
  rw [hs k, ht k]
  split
  · rfl
  · exact h k

theorem AgreeOn.taken (h : AgreeOn p s t) (hlive : s.live? now lock = t.live? now lock)
    (hs : s.Taken s' now lock id ttl b) (ht : t.Taken t' now lock id ttl b') :
    b = b' ∧ AgreeOn p s' t' := by
  cases b with
  | false =>
    obtain ⟨rfl, row, hrow⟩ := hs
    cases b' with
    | false =>
      obtain ⟨rfl, -⟩ := ht
      exact ⟨rfl, h⟩
    | true =>
      rw [hlive, ht.1] at hrow
      cases hrow
  | true =>
    obtain ⟨hnone, hs⟩ := hs
    cases b' with
    | false =>
      obtain ⟨-, row, hrow⟩ := ht
      rw [← hlive, hnone] at hrow
      cases hrow
    | true => exact ⟨rfl, h.sets hs ht.2⟩

theorem AgreeOn.changed (h : AgreeOn p s t) (hlive : s.live? now lock = t.live? now lock)
    (hs : s.Changed s' now lock id row b) (ht : t.Changed t' now lock id row b') :
    b = b' ∧ AgreeOn p s' t' := by
  cases b with
  | false =>
    obtain ⟨rfl, hnot⟩ := hs
    cases b' with
    | false =>
      obtain ⟨rfl, -⟩ := ht
      exact ⟨rfl, h⟩
    | true =>
      obtain ⟨⟨e, he⟩, -⟩ := ht
      exact absurd rfl (hnot _ (hlive.trans he))
  | true =>
    obtain ⟨⟨e, he⟩, hs⟩ := hs
    cases b' with
    | false => exact absurd rfl (ht.2 _ (hlive.symm.trans he))
    | true => exact ⟨rfl, h.sets hs ht.2⟩

/-- Calls that are done on stores that agree on rows among which are all live ones have the same
answer, up to the count of a purge, and the stores agree afterwards. -/
theorem Done.agree (hp : ∀ row : Row, row.isLive now = true → p row = true) (h : AgreeOn p s t)
    (hfull : s.isFull = t.isFull) (hs : s.Done now c a s') (ht : t.Done now c a' t') :
    a.uncounted = a'.uncounted ∧ AgreeOn p s' t' := by
  have hlive : ∀ k, s.live? now k = t.live? now k := h.mono hp
  cases hs with
  | take htaken =>
    cases ht with
    | take htaken' =>
      obtain ⟨rfl, h⟩ := h.taken (hlive _) htaken htaken'
      exact ⟨rfl, h⟩
  | free hchanged =>
    cases ht with
    | free hchanged' =>
      obtain ⟨rfl, h⟩ := h.changed (hlive _) hchanged hchanged'
      exact ⟨rfl, h⟩
  | extend hchanged =>
    cases ht with
    | extend hchanged' =>
      obtain ⟨rfl, h⟩ := h.changed (hlive _) hchanged hchanged'
      exact ⟨rfl, h⟩
  | peek =>
    cases ht
    rw [glimpse, glimpse, hlive, hfull]
    exact ⟨rfl, h⟩
  | ping =>
    cases ht
    exact ⟨rfl, h⟩
  | purge hsfull hrows =>
    cases ht with
    | purge _ hrows' =>
      refine ⟨rfl, fun k ↦ ?_⟩
      rw [hrows, hrows', hlive]
    | keep ht =>
      rw [hfull, ht] at hsfull
      cases hsfull
  | keep hsfull =>
    cases ht with
    | purge ht _ =>
      rw [← hfull, hsfull] at ht
      cases ht
    | keep _ => exact ⟨rfl, h⟩

/-- Stores that agree on rows among which are all live ones, and that fail alike, give the same
answer up to the count of a purge, and agree afterwards. -/
theorem AgreeOn.serve (h : AgreeOn p s t) (hp : ∀ row : Row, row.isLive now = true → p row = true)
    (hfull : s.isFull = t.isFull) (hfault : s.fault? now c = t.fault? now c) :
    (s.serve now c).1.uncounted = (t.serve now c).1.uncounted ∧
      AgreeOn p (s.serve now c).2 (t.serve now c).2 := by
  rcases s.served now c with ⟨fault, hs, hserve⟩ | ⟨hs, hdone⟩
  · rcases t.served now c with ⟨fault', ht, hserve'⟩ | ⟨ht, -⟩
    · obtain rfl := Option.some.inj (hs.symm.trans (hfault.trans ht))
      rw [hserve, hserve']
      exact ⟨rfl, h⟩
    · rw [hfault, ht] at hs
      cases hs
  · rcases t.served now c with ⟨fault', ht, -⟩ | ⟨ht, hdone'⟩
    · rw [hfault, ht] at hs
      cases hs
    · exact Done.agree hp h hfull hdone hdone'

/-! ### Memory and a table -/

/-- Answers that differ at most in the count of a purge are equal if the counts are. -/
theorem eq_of_uncounted (h : a.uncounted = a'.uncounted)
    (hcount : ∀ n n', a = .purged n → a' = .purged n' → n = n') : a = a' := by
  cases a with
  | purged n =>
    cases a' with
    | purged n' => rw [hcount n n' rfl rfl]
    | decided _ | seen _ | reached | failed _ => cases h
  | decided _ | seen _ | reached | failed _ =>
    cases a' with
    | purged n' => cases h
    | decided _ | seen _ | reached | failed _ => exact h

/-- A purge counts the rows that have expired, where there is something to purge by. -/
theorem count_of_serve {n : Nat} (h : (s.serve now c).1 = .purged n) :
    n = if s.isFull then s.deadCount now else 0 := by
  rcases s.served now c with ⟨fault, -, hserve⟩ | ⟨-, hdone⟩
  · rw [hserve] at h
    cases h
  · rw [h] at hdone
    generalize (s.serve now c).2 = s' at hdone
    cases hdone with
    | purge hfull => rw [if_pos hfull]
    | keep hfull => rw [hfull, if_neg Bool.false_ne_true]

/-- Stores with the same rows that fail alike give the same answer and have the same rows
afterwards. -/
theorem serve_congr (h : ∀ k, s.row? k = t.row? k) (hfull : s.isFull = t.isFull)
    (hfault : s.fault? now c = t.fault? now c) :
    (s.serve now c).1 = (t.serve now c).1 ∧
      ∀ k, (s.serve now c).2.row? k = (t.serve now c).2.row? k := by
  obtain ⟨huncounted, hrows⟩ := (agreeOn_true.2 h).serve (fun _ _ ↦ rfl) hfull hfault
  refine ⟨eq_of_uncounted huncounted fun n n' hn hn' ↦ ?_, agreeOn_true.1 hrows⟩
  rw [count_of_serve hn, count_of_serve hn', hfull, deadCount_congr h]

/-- Memory within reach and a table, with the same rows, give the same answers. -/
theorem answers_eq_of_rows {calls : List (Nat × StoreCall)} (hs : s.emptied = memory {})
    (ht : t.emptied = table {}) (h : ∀ k, s.row? k = t.row? k)
    (hfits : ∀ call ∈ calls, call.2.largest call.1 < signedBound) :
    s.answers calls = t.answers calls := by
  induction calls generalizing s t with
  | nil => rfl
  | cons call calls ih =>
    obtain ⟨now, c⟩ := call
    have hfull : s.isFull = t.isFull := by
      rw [← isFull_emptied s, hs, ← isFull_emptied t, ht]
      rfl
    have hfault : s.fault? now c = t.fault? now c := by
      rw [← fault?_emptied s, hs, ← fault?_emptied t, ht,
        fault?_table {} (hfits _ List.mem_cons_self)]
      rfl
    obtain ⟨hanswer, hrows⟩ := serve_congr h hfull hfault
    rw [answers, answers, hanswer]
    exact congrArg _ (ih ((emptied_serve s now c).trans hs) ((emptied_serve t now c).trans ht) hrows
      fun call hcall ↦ hfits call (List.mem_cons_of_mem _ hcall))

/-- **Memory and a table are interchangeable.** Whatever is called at whatever times, also at times
that go back, memory and a table that start empty give the same answers, as long as every time and
every expiry that is asked for is at most `2 ^ 63 - 1`. -/
theorem answers_memory_eq_answers_table (calls : List (Nat × StoreCall))
    (hfits : ∀ call ∈ calls, call.2.largest call.1 < signedBound) :
    (memory {}).answers calls = (table {}).answers calls :=
  answers_eq_of_rows rfl rfl (fun _ ↦ rfl) hfits

/-- An expired row is taken over for less than a millisecond, then the clock goes back. -/
def overtaking : List (Nat × StoreCall) :=
  [(1000, .take "L" "a" (.ofMillis 500)), (1499, .take "L" "b" (.ofSecs 1)),
   (1500, .take "L" "b" ⟨1⟩), (1200, .peek "L"), (1501, .free "L" "b"), (1501, .ping),
   (1501, .purge), (1400, .extend "L" "b" (.ofSecs 1))]

theorem answers_memory_eq_answers_table_overtaking :
    (∀ call ∈ overtaking, call.2.largest call.1 < signedBound) ∧
      (memory {}).answers overtaking = (table {}).answers overtaking ∧
      (memory {}).answers overtaking =
        [.decided true, .decided false, .decided true, .seen ⟨some "b", some (.ofMillis 301)⟩,
         .decided false, .reached, .purged 1, .decided false] :=
  have hfits : ∀ call ∈ overtaking, call.2.largest call.1 < signedBound := by decide
  ⟨hfits, answers_memory_eq_answers_table overtaking hfits, rfl⟩

/-! ### Rows that have expired -/

/-- What is live was live before. -/
theorem isLive_of_le {start : Nat} {row : Row} (hle : start ≤ now) (h : row.isLive now = true) :
    row.isLive start = true := by
  rw [Row.isLive, decide_eq_true_iff] at h ⊢
  exact Nat.lt_of_le_of_lt hle h

/-- Stores of one kind with the same live rows at `start` give the same answers from then on, the
counts of purges apart. -/
theorem map_uncounted_answers {start : Nat} {calls : List (Nat × StoreCall)}
    (hstart : (start :: calls.map (·.1)).Pairwise (· ≤ ·)) (hs : s.emptied = t.emptied)
    (h : ∀ k, s.live? start k = t.live? start k) :
    (s.answers calls).map (·.uncounted) = (t.answers calls).map (·.uncounted) := by
  induction calls generalizing start s t with
  | nil => rfl
  | cons call calls ih =>
    obtain ⟨now, c⟩ := call
    obtain ⟨hall, hcalls⟩ := List.pairwise_cons.1 hstart
    -- What is live at the time of the call was live at the start.
    have hnow : AgreeOn (·.isLive now) s t := AgreeOn.mono h fun row hrow ↦
      isLive_of_le (hall now List.mem_cons_self) hrow
    obtain ⟨hanswer, hagree⟩ := hnow.serve (fun _ hrow ↦ hrow) (isFull_congr hs) (fault?_congr hs)
    rw [answers, answers, List.map_cons, List.map_cons, hanswer]
    exact congrArg _ (ih hcalls
      ((emptied_serve s now c).trans (hs.trans (emptied_serve t now c).symm)) hagree)

/-- A purge leaves the live rows. -/
theorem live?_serve_purge (s : Store) (now : Nat) (k : LockName) :
    (s.serve now .purge).2.live? now k = s.live? now k := by
  rcases s.served now .purge with ⟨fault, -, hserve⟩ | ⟨-, hdone⟩
  · rw [hserve]
  · generalize (s.serve now .purge).1 = a, (s.serve now .purge).2 = s' at hdone ⊢
    cases hdone with
    | keep _ => rfl
    | purge _ hrows =>
      rw [live?, hrows, live?, Option.filter_filter]
      simp only [Bool.and_self]

/-- A purge in the midst of other calls changes none of their answers, the counts of later purges
apart. -/
theorem map_uncounted_answers_purge {u : Nat} {past later : List (Nat × StoreCall)}
    (hlater : (u :: later.map (·.1)).Pairwise (· ≤ ·)) :
    ((s.answers (past ++ (u, .purge) :: later)).eraseIdx past.length).map (·.uncounted) =
      (s.answers (past ++ later)).map (·.uncounted) := by
  have hdrop : (s.answers (past ++ (u, .purge) :: later)).eraseIdx past.length =
      s.answers past ++ ((s.after past).serve u .purge).2.answers later := by
    rw [answers_append, answers, ← length_answers s past,
      List.eraseIdx_append_of_length_le (Nat.le_refl _), Nat.sub_self, List.eraseIdx_cons_zero]
  have hrest := map_uncounted_answers hlater (emptied_serve (s.after past) u .purge)
    (live?_serve_purge (s.after past) u)
  rw [hdrop, answers_append, List.map_append, List.map_append, hrest]

/-- **A dead row is no row.** Whatever is called from `start` on, at times that do not go back,
stores of one kind that hold the same rows that are live at `start` give the same answers, however
they differ in the rows that have expired and with the counts of purges apart. In particular a purge
that is put anywhere among the calls changes no other answer. -/
theorem answers_of_live? (s : Store) {start : Nat} {calls : List (Nat × StoreCall)}
    (hstart : (start :: calls.map (·.1)).Pairwise (· ≤ ·)) :
    (∀ t : Store, t.emptied = s.emptied → (∀ lock, t.live? start lock = s.live? start lock) →
      (t.answers calls).map (·.uncounted) = (s.answers calls).map (·.uncounted)) ∧
    ∀ past u later, calls = past ++ (u, .purge) :: later →
      ((s.answers calls).eraseIdx past.length).map (·.uncounted) =
        (s.answers (past ++ later)).map (·.uncounted) := by
  refine ⟨fun t hkind hlive ↦ map_uncounted_answers hstart hkind hlive, ?_⟩
  rintro past u later rfl
  refine map_uncounted_answers_purge (hstart.sublist ?_)
  rw [List.map_append, List.map_cons]
  exact (List.sublist_append_right _ _).cons _

/-- A table in which the row of one lock has expired and that of another one has not. -/
def leftover : LeaseTable where
  rows := [⟨"L", "a", 500⟩, ⟨"M", "m", 9000⟩]
  keyed := by decide

/-- The table without the row that has expired. -/
def tidied : LeaseTable where
  rows := [⟨"M", "m", 9000⟩]
  keyed := by decide

/-- Calls in whose midst there is a purge. -/
def purging : List (Nat × StoreCall) :=
  [(1000, .extend "L" "a" (.ofSecs 1)), (1000, .take "L" "b" (.ofSecs 1)), (2000, .purge),
   (2000, .peek "M"), (2000, .take "L" "c" (.ofSecs 1)), (2500, .free "L" "b")]

theorem answers_of_live?_leftover :
    (1000 :: purging.map (·.1)).Pairwise (· ≤ ·) ∧
      ((table leftover).answers purging).map (·.uncounted) =
        ((table tidied).answers purging).map (·.uncounted) ∧
      (((table tidied).answers purging).eraseIdx 2).map (·.uncounted) =
        [.decided false, .decided true, .seen ⟨some "m", some (.ofSecs 7)⟩, .decided true,
         .decided false] := by
  have hstart : (1000 :: purging.map (·.1)).Pairwise (· ≤ ·) := by decide
  have hlive (lock : LockName) :
      (table leftover).live? 1000 lock = (table tidied).live? 1000 lock := by
    simp [← select_live, LeaseTable.select, leftover, tidied]
  obtain ⟨hcontents, hpurge⟩ := answers_of_live? (table tidied) hstart
  refine ⟨hstart, hcontents _ rfl hlive, ?_⟩
  rw [show 2 = (purging.take 2).length from rfl,
    hpurge (purging.take 2) 2000 (purging.drop 3) rfl]
  rfl

end Store

end LeaseLock
