import LeaseLock.Number.Word

/-!
# Durations

A `Duration` is a length of time counted in nanoseconds. Seconds are kept below `2 ^ 64` by whoever
reads them, so the longest duration is `Duration.longest`; doubling one may leave that range, which
`Duration.double?` makes visible.

Leases and stores count in milliseconds of a 64-bit word. `Duration.wholeMillis` is the one place
where a duration becomes such a word: the nanoseconds below a millisecond are dropped and the rest
is taken modulo `2 ^ 64`. `Duration.keyMillis` is the same with the floor of one millisecond that
keeps a granted lease from being born expired.
-/

namespace LeaseLock

/-- A length of time. -/
structure Duration where
  /-- Its nanoseconds. -/
  nanos : Nat
deriving DecidableEq, Repr

namespace Duration

/-- `s` seconds. -/
def ofSecs (s : Nat) : Duration := ⟨s * 1000000000⟩

/-- `ms` milliseconds. -/
def ofMillis (ms : Nat) : Duration := ⟨ms * 1000000⟩

/-- `s` seconds and `n` nanoseconds. -/
def ofParts (s n : Nat) : Duration := ⟨s * 1000000000 + n⟩

/-- The empty duration. -/
def zero : Duration := ⟨0⟩

instance : Inhabited Duration := ⟨zero⟩

instance : LE Duration := ⟨fun a b ↦ a.nanos ≤ b.nanos⟩

instance (a b : Duration) : Decidable (a ≤ b) := inferInstanceAs (Decidable (a.nanos ≤ b.nanos))

/-- The longest duration whose seconds are a 64-bit word. -/
def longest : Duration := ofParts (wordBound - 1) 999999999

/-- The whole seconds. -/
def secs (d : Duration) : Nat := d.nanos / 1000000000

/-- The nanoseconds beyond the whole seconds. -/
def subsecNanos (d : Duration) : Nat := d.nanos % 1000000000

/-- Whether the duration is empty. -/
def isZero (d : Duration) : Bool := d.nanos == 0

/-- The shorter of two durations. -/
def shorter (a b : Duration) : Duration := if a ≤ b then a else b

/-- Twice the duration, unless that is longer than the longest one. -/
def double? (d : Duration) : Option Duration :=
  let twice : Duration := ⟨2 * d.nanos⟩
  if twice ≤ longest then some twice else none

/-- The whole milliseconds as an unbounded number. -/
def millis (d : Duration) : Nat := d.nanos / 1000000

/-- The whole milliseconds as a 64-bit word. -/
def wholeMillis (d : Duration) : Nat := d.millis % wordBound

/-- The milliseconds for which a key is kept: the whole ones, but at least one. -/
def keyMillis (d : Duration) : Nat := max d.wholeMillis 1

/-- The milliseconds that a sleep of this length takes on a clock that ticks once a millisecond:
a started millisecond is slept to its end. -/
def ticks (d : Duration) : Nat := (d.nanos + 999999) / 1000000

theorem wholeMillis_lt (d : Duration) : d.wholeMillis < wordBound :=
  Nat.mod_lt _ (by decide)

theorem keyMillis_pos (d : Duration) : 0 < d.keyMillis :=
  Nat.lt_of_lt_of_le Nat.zero_lt_one (Nat.le_max_right _ _)

@[simp] theorem millis_ofMillis (ms : Nat) : (ofMillis ms).millis = ms :=
  Nat.mul_div_cancel _ (by decide)

theorem millis_shorter_le (a b : Duration) : (a.shorter b).millis ≤ b.millis := by
  rw [shorter]
  split
  · next h => exact Nat.div_le_div_right h
  · exact Nat.le_refl _

theorem shorter_ofMillis (a b : Nat) : (ofMillis a).shorter (ofMillis b) = ofMillis (min a b) := by
  have hle : ofMillis a ≤ ofMillis b ↔ a ≤ b := Nat.mul_le_mul_right_iff (by decide)
  rw [shorter]
  by_cases h : a ≤ b
  · rw [if_pos (hle.2 h), Nat.min_eq_left h]
  · rw [if_neg fun h' ↦ h (hle.1 h'), Nat.min_eq_right (Nat.le_of_not_le h)]

theorem wholeMillis_of_lt {d : Duration} (h : d.millis < wordBound) : d.wholeMillis = d.millis :=
  Nat.mod_eq_of_lt h

theorem wholeMillis_ofMillis {ms : Nat} (h : ms < wordBound) : (ofMillis ms).wholeMillis = ms := by
  rw [wholeMillis, millis_ofMillis, Nat.mod_eq_of_lt h]

@[simp] theorem millis_ofSecs (s : Nat) : (ofSecs s).millis = s * 1000 := by
  simp only [millis, ofSecs]
  omega

theorem double?_ofSecs {s : Nat} (h : 2 * s < wordBound) :
    (ofSecs s).double? = some (ofSecs (2 * s)) := by
  have htwice : (⟨2 * (ofSecs s).nanos⟩ : Duration) = ofSecs (2 * s) := by
    rw [ofSecs, ofSecs, Nat.mul_assoc]
  have hle : ofSecs (2 * s) ≤ ofParts (wordBound - 1) 999999999 :=
    Nat.le_trans (Nat.mul_le_mul_right 1000000000 (Nat.le_sub_one_of_lt h)) (Nat.le_add_right _ _)
  rw [double?, htwice]
  exact if_pos hle

theorem millis_of_double?_ofSecs {s : Nat} {twice : Duration}
    (h : (ofSecs s).double? = some twice) : twice.millis = 2 * (ofSecs s).millis := by
  rw [double?] at h
  split at h
  · cases h
    simp only [millis, ofSecs]
    omega
  · cases h

@[simp] theorem ticks_ofMillis (ms : Nat) : (ofMillis ms).ticks = ms := by
  simp only [ticks, ofMillis]
  omega

end Duration

end LeaseLock
