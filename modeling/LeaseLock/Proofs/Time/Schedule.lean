import Mathlib.Algebra.Order.Floor.Div
import LeaseLock.Time.Wait

/-!
# The schedule of a wait

A wait of `W` ticks with a try every `P` ticks tries after `P`, `2 * P`, … ticks, and once more when
its time is up, if that is not one of these instants anyway (`Wait.instants`). Between the try
number `k` and the next one it sleeps; it gives up behind the last one, and at once if there is none
(`Wait.resume_tryAt`).

The loop makes the tries of its schedule one after another and leaves the rest out when one of them
succeeds or the store fails (`Wait.Keeps`, `Wait.keeps_of_run`). The store answers as it likes.

## When a wait is exact

A schedule in ticks is what a wait keeps if it sleeps as long as it was told and if its deadline can
be computed (`Wait.Exact`). Whether it does is a matter of the timer and of the clock, which are
parameters of a wait. For durations in whole milliseconds that are short enough the usual timer is
exact (`Wait.exact_of_le_horizon`).

The try at the deadline is made even if a multiple of the period comes just before it, and it is
made once if it is one of them. With no time to wait there is no try at all: the one that was made
before the wait has to do.
-/

namespace LeaseLock

namespace Wait

variable {timing : Timing} {answer : Nat → Except StoreFault Bool} {w : Wait}
  {T W P k tick wake : Nat} {how : WaitEnd}

/-! ### One round of the loop -/

/-- A loop that stops makes no try. -/
theorem run_of_stop (h : w.resume tick = .stop how) : w.run answer tick = ([], how) := by
  rw [run]
  split
  · next how' h' =>
    rw [h] at h'
    cases h'
    rfl
  · next wake h' =>
    rw [h] at h'
    cases h'

/-- A loop that sleeps tries when it wakes, and goes on by the answer. -/
theorem run_of_sleep (h : w.resume tick = .sleep wake) :
    w.run answer tick = match answer wake with
      | .error fault => ([wake], .failed fault)
      | .ok true => ([wake], .acquired)
      | .ok false => (wake :: (w.run answer wake).1, (w.run answer wake).2) := by
  rw [run]
  split
  · next how h' =>
    rw [h] at h'
    cases h'
  · next wake' h' =>
    rw [h] at h'
    cases h'
    rfl

/-- The loop ends with a try behind which the client does not sleep any more. -/
theorem run_of_proceed_eq_stop (h : w.resume tick = .sleep wake)
    (hstep : w.proceed wake (answer wake) = .stop how) :
    w.run answer tick = ([wake], how) := by
  rw [run_of_sleep h]
  cases hanswer : answer wake with
  | error fault =>
    rw [hanswer] at hstep
    cases hstep
    rfl
  | ok taken =>
    rw [hanswer] at hstep
    cases taken with
    | true =>
      cases hstep
      rfl
    | false =>
      dsimp only
      rw [run_of_stop hstep]

/-- A loop that goes back to sleep goes on as if it had begun there. -/
theorem run_of_proceed_eq_sleep (answer : Nat → Except StoreFault Bool)
    (h : w.resume tick = .sleep wake) {next : Nat}
    (hstep : w.proceed wake (answer wake) = .sleep next) :
    w.resume wake = .sleep next ∧
      w.run answer tick = (wake :: (w.run answer wake).1, (w.run answer wake).2) := by
  rw [run_of_sleep h]
  cases hanswer : answer wake with
  | error fault =>
    rw [hanswer] at hstep
    cases hstep
  | ok taken =>
    rw [hanswer] at hstep
    cases taken with
    | true => cases hstep
    | false => exact ⟨hstep, rfl⟩

/-! ### The instants of the tries -/

/-- The instant of the try number `k`. The last one is made when the time is up. -/
def tryAt (T W P k : Nat) : Nat := T + min (k * P) W

/-- The instants of the tries of a wait of `W` ticks that begins at `T` and tries every `P`. -/
def instants (T W P : Nat) : List Nat := (List.range' 1 (W ⌈/⌉ P)).map (tryAt T W P)

example : instants 10 250 100 = [110, 210, 260] := by decide

/-- A wait of `W` milliseconds with a try every `P` is timed exactly. -/
structure Exact (timing : Timing) (W P : Nat) : Prop where
  /-- There is time between two tries. -/
  poll_pos : 0 < P
  /-- The end of the wait is within the range of the clock. -/
  fits : timing.reaches (.ofMillis W) = true
  /-- A sleep for which the wait may ask lasts exactly as long as it says. -/
  sleeps : ∀ d, 0 < d → d ≤ P → d ≤ W → timing.sleepTicks (.ofMillis d) = d

theorem tryAt_zero : tryAt T W P 0 = T := by
  rw [tryAt, Nat.zero_mul, Nat.zero_min, Nat.add_zero]

/-- The tries that come before the deadline are numbered by the periods that fit. -/
theorem lt_ceilDiv_iff (hP : 0 < P) : k < W ⌈/⌉ P ↔ k * P < W := by
  rw [← Nat.not_le, ceilDiv_le_iff_le_mul hP, Nat.not_le, Nat.mul_comm]

/-- The last try is made when the time is up. -/
theorem tryAt_ceilDiv (hP : 0 < P) : tryAt T W P (W ⌈/⌉ P) = T + W := by
  have hlast := (lt_ceilDiv_iff hP).not.1 (Nat.lt_irrefl (W ⌈/⌉ P))
  rw [tryAt, Nat.min_eq_right (Nat.not_lt.1 hlast)]

/-- With the usual timing a wait that the clock can count is timed exactly if it never sleeps beyond
the horizon. -/
theorem exact_of_le_horizon (hP : 0 < P) (hfits : Timing.usual.reaches (.ofMillis W) = true)
    (hshort : min P W ≤ horizon.ticks) : Exact .usual W P where
  poll_pos := hP
  fits := hfits
  sleeps d hpos hd hd' := by
    show max (min (Duration.ofMillis d).ticks horizon.ticks) 1 = d
    rw [Duration.ticks_ofMillis, Nat.min_eq_left (by omega), Nat.max_eq_left hpos]

/-- A client goes to sleep until the next try, unless it has made its last one. -/
theorem resume_tryAt (h : Exact timing W P) (T k : Nat) :
    (Wait.begin timing T (.ofMillis W) (.ofMillis P)).resume (tryAt T W P k) =
      if k < W ⌈/⌉ P then .sleep (tryAt T W P (k + 1)) else .stop (.timedOut (.ofMillis W)) := by
  have hdeadline : ticksOf timing (.ofMillis W) = W := by
    rw [ticksOf, if_pos h.fits, Duration.ticks_ofMillis]
  simp only [resume, Wait.begin, hdeadline, lt_ceilDiv_iff h.poll_pos, tryAt]
  by_cases hk : k * P < W
  · have hP := h.poll_pos
    have hleft : T + W - (T + min (k * P) W) = W - k * P := by omega
    have hsleep := h.sleeps (min P (W - k * P)) (by omega) (by omega) (by omega)
    rw [if_neg (by omega), if_pos hk, hleft, Duration.shorter_ofMillis, hsleep, Nat.add_mul,
      Nat.one_mul, WaitStep.sleep.injEq]
    omega
  · have hwaited : T + min (k * P) W - T = W := by omega
    rw [if_pos (by omega), if_neg hk, hwaited]

/-! ### What becomes of the tries -/

/-- How a wait goes whose tries are due at the instants of `due` and that gives up at `deadline`, if
the store answers a try at `t` with `answer t`: the tries that it makes, when it ends, and how. -/
inductive Keeps (answer : Nat → Except StoreFault Bool) (deadline : Nat) (waited : Duration)
    (due : List Nat) : List Nat → Nat → WaitEnd → Prop
  /-- A try succeeds, and no other one is made. -/
  | acquired {before after : List Nat} {t : Nat} (split : due = before ++ t :: after)
      (held : ∀ s ∈ before, answer s = .ok false) (free : answer t = .ok true) :
      Keeps answer deadline waited due (before ++ [t]) t .acquired
  /-- The store fails, and no other try is made. -/
  | failed {before after : List Nat} {t : Nat} {fault : StoreFault}
      (split : due = before ++ t :: after) (held : ∀ s ∈ before, answer s = .ok false)
      (outage : answer t = .error fault) :
      Keeps answer deadline waited due (before ++ [t]) t (.failed fault)
  /-- All tries are made in vain. -/
  | timedOut (held : ∀ t ∈ due, answer t = .ok false) :
      Keeps answer deadline waited due due deadline (.timedOut waited)

/-- A try in vain stands before the ones that follow. -/
theorem Keeps.cons {deadline : Nat} {waited : Duration} {due tries : List Nat} {t : Nat}
    (ht : answer t = .ok false) (h : Keeps answer deadline waited due tries tick how) :
    Keeps answer deadline waited (t :: due) (t :: tries) tick how := by
  cases h with
  | acquired split held free =>
    exact .acquired (congrArg (t :: ·) split) (List.forall_mem_cons.2 ⟨ht, held⟩) free
  | failed split held outage =>
    exact .failed (congrArg (t :: ·) split) (List.forall_mem_cons.2 ⟨ht, held⟩) outage
  | timedOut held => exact .timedOut (List.forall_mem_cons.2 ⟨ht, held⟩)

/-- The loop behind the try number `k`, with `n` tries to come. -/
theorem keeps_of_run_tryAt (h : Exact timing W P) {n : Nat} {tries : List Nat}
    (hn : k + n = W ⌈/⌉ P)
    (hrun : (Wait.begin timing T (.ofMillis W) (.ofMillis P)).run answer (tryAt T W P k) =
      (tries, how)) :
    Keeps answer (T + W) (.ofMillis W) ((List.range' (k + 1) n).map (tryAt T W P)) tries
      (tries.getLastD (tryAt T W P k)) how := by
  have hresume := resume_tryAt h T k
  induction n generalizing k tries with
  | zero =>
    rw [Nat.add_zero] at hn
    rw [if_neg hn.not_lt] at hresume
    rw [run_of_stop hresume] at hrun
    cases hrun
    rw [hn, tryAt_ceilDiv h.poll_pos]
    exact .timedOut (List.forall_mem_nil _)
  | succ n ih =>
    rw [if_pos (by omega)] at hresume
    rw [run_of_sleep hresume] at hrun
    rw [List.range'_succ, List.map_cons]
    cases hanswer : answer (tryAt T W P (k + 1)) with
    | error fault =>
      rw [hanswer] at hrun
      cases hrun
      exact .failed (List.nil_append _).symm (List.forall_mem_nil _) hanswer
    | ok taken =>
      rw [hanswer] at hrun
      cases taken with
      | true =>
        cases hrun
        exact .acquired (List.nil_append _).symm (List.forall_mem_nil _) hanswer
      | false =>
        cases hrun
        rw [List.getLastD_cons]
        exact (ih (by omega) Prod.mk.eta.symm (resume_tryAt h T (k + 1))).cons hanswer

/-- The loop keeps to its schedule, whatever the store answers. -/
theorem keeps_of_run (h : Exact timing W P) {tries : List Nat}
    (hrun : (Wait.begin timing T (.ofMillis W) (.ofMillis P)).run answer T = (tries, how)) :
    Keeps answer (T + W) (.ofMillis W) (instants T W P) tries (tries.getLastD T) how := by
  have hstart : (Wait.begin timing T (.ofMillis W) (.ofMillis P)).run answer (tryAt T W P 0) =
      (tries, how) := by rwa [tryAt_zero]
  have hkeeps := keeps_of_run_tryAt h (Nat.zero_add _) hstart
  rwa [tryAt_zero] at hkeeps

end Wait

end LeaseLock
