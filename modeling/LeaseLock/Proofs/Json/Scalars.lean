import Mathlib.Data.String.Basic
import Mathlib.Tactic.SplitIfs
import LeaseLock.Json.Record

/-!
# Reading back scalars

Literals, numbers and texts are read back as they were printed, whatever stands behind them in the
text of a value (`Json.Reads`). For a number that is all that matters: behind its digits there must
be no byte that could go on with it, and what stands behind a value is a comma, a closing bracket or
nothing (`Json.Behind`).

A text is printed byte by byte, so it is read back byte by byte: each byte of its UTF-8 is one
round of the loop of the reader, escaped or not (`Json.Reader.quotedWith_escapeByte`).

## Fuel

The loop that reads a text counts down from a number that is at least the length of the input. A
round takes at least one byte, so the number suffices. The theorems count the bytes before escaping,
and escaping makes no text shorter (`Json.Reader.length_le_length_flatMap`).

Only texts that were printed are read here. What the reader does with spaces between the parts of a
value, or with escapes that the printer does not use, is its own business.
-/

namespace LeaseLock

/-- The number is whole and fits 64 bits, with a sign or without. -/
def Numeral.IsWord : Numeral → Prop
  | whole i => -(signedBound : Int) ≤ i ∧ i < wordBound
  | double _ => False

instance : DecidablePred Numeral.IsWord
  | .whole i => inferInstanceAs (Decidable (-(signedBound : Int) ≤ i ∧ i < wordBound))
  | .double _ => inferInstanceAs (Decidable False)

namespace Json

open Text

variable {α β : Type} {bytes rest : List UInt8} {b : UInt8}

/-! ### What stands behind a value -/

/-- What can stand behind a value in a text: nothing, a comma or a closing bracket. -/
inductive Behind : List UInt8 → Prop where
  /-- The end of the text. -/
  | nil : Behind []
  /-- The comma in front of the next item or member. -/
  | comma (rest : List UInt8) : Behind (code ',' :: rest)
  /-- The end of a list. -/
  | bracket (rest : List UInt8) : Behind (code ']' :: rest)
  /-- The end of an object. -/
  | brace (rest : List UInt8) : Behind (code '\x7d' :: rest)

/-- The reader takes the bytes for `a` and stops in front of whatever stands behind a value. -/
def Reads (r : Reader α) (bytes : List UInt8) (a : α) : Prop :=
  ∀ rest, Behind rest → r (bytes ++ rest) = .ok (a, rest)

namespace Behind

/-- A byte with which a number could go on. -/
def GoesOn (b : UInt8) : Prop :=
  isDigit b = true ∨ b = code '.' ∨ b = code 'e' ∨ b = code 'E'

/-- No number goes on behind a value. -/
theorem not_goesOn (h : Behind (b :: rest)) : ¬GoesOn b := by
  rcases h with _ | _ | _ | _ <;> unfold GoesOn <;> decide

/-- No digit stands behind a value. -/
theorem takeWhile_isDigit (h : Behind rest) : rest.takeWhile isDigit = [] := by
  cases rest with
  | nil => rfl
  | cons b rest => exact List.takeWhile_cons_of_neg fun hb ↦ h.not_goesOn (.inl hb)

/-- So nothing of it is taken for one. -/
theorem dropWhile_isDigit (h : Behind rest) : rest.dropWhile isDigit = rest := by
  cases rest with
  | nil => rfl
  | cons b rest => exact List.dropWhile_cons_of_neg fun hb ↦ h.not_goesOn (.inl hb)

end Behind

/-! ### Decimal digits -/

/-- The digits of `n` in decimal, without a leading zero. -/
structure IsDecimal (digits : List UInt8) (n : Nat) : Prop where
  /-- There is one. -/
  ne_nil : digits ≠ []
  /-- They are digits. -/
  isDigit : ∀ b ∈ digits, isDigit b = true
  /-- They stand for the number. -/
  value : valueOfDigits digits = n
  /-- A zero in front is the only digit. -/
  leading : ∀ bs, digits = 48 :: bs → bs = []

theorem isDigit_ofNat {d : Nat} (h : d < 10) : isDigit (UInt8.ofNat (48 + d)) = true := by
  revert d
  decide

theorem digitValue_ofNat {d : Nat} (h : d < 10) : digitValue (UInt8.ofNat (48 + d)) = d := by
  revert d
  decide

/-- A digit behind a number counts once, and what is before it ten times. -/
theorem valueOfDigits_concat (digits : List UInt8) (b : UInt8) :
    valueOfDigits (digits ++ [b]) = 10 * valueOfDigits digits + digitValue b := by
  rw [valueOfDigits, List.foldl_append, List.foldl_cons, List.foldl_nil, valueOfDigits]

/-- The digits of a number are its digits in decimal. -/
theorem isDecimal_decimalDigits {fuel n : Nat} (h : n < fuel) :
    IsDecimal (decimalDigits fuel n) n := by
  induction fuel generalizing n with
  | zero => exact absurd h (Nat.not_lt_zero n)
  | succ fuel ih =>
    rw [decimalDigits]
    split
    · next hn =>
      refine ⟨List.cons_ne_nil _ _, List.forall_mem_singleton.2 (isDigit_ofNat hn), ?_,
        fun bs hbs ↦ (List.cons.inj hbs).2.symm⟩
      rw [← List.nil_append [_], valueOfDigits_concat, digitValue_ofNat hn]
      exact Nat.zero_add n
    · next hn =>
      have hrest : IsDecimal (decimalDigits fuel (n / 10)) (n / 10) := ih (by omega)
      have hlast : n % 10 < 10 := Nat.mod_lt n (by decide)
      constructor
      case ne_nil => exact List.append_ne_nil_of_left_ne_nil hrest.ne_nil _
      case isDigit =>
        exact List.forall_mem_append.2
          ⟨hrest.isDigit, List.forall_mem_singleton.2 (isDigit_ofNat hlast)⟩
      case value =>
        rw [valueOfDigits_concat, hrest.value, digitValue_ofNat hlast, Nat.div_add_mod]
      case leading =>
        -- A zero in front would be the only digit of what is at least one.
        intro bs hbs
        obtain ⟨b, digits, hdigits⟩ := List.exists_cons_of_ne_nil hrest.ne_nil
        rw [hdigits, List.cons_append] at hbs
        obtain ⟨rfl, -⟩ := List.cons.inj hbs
        have hzero := hrest.value
        rw [hdigits, hrest.leading digits hdigits] at hzero
        have : valueOfDigits [48] = 0 := rfl
        omega

/-- A number is printed in decimal digits. -/
theorem isDecimal_printNat (n : Nat) : IsDecimal (printNat n) n :=
  isDecimal_decimalDigits (Nat.lt_succ_self n)

/-- It has a first digit. -/
theorem exists_printNat (n : Nat) : ∃ b bs, printNat n = b :: bs ∧ isDigit b = true := by
  have hdigits := isDecimal_printNat n
  obtain ⟨b, bs, hb⟩ := List.exists_cons_of_ne_nil hdigits.ne_nil
  exact ⟨b, bs, hb, hdigits.isDigit b (hb ▸ List.mem_cons_self)⟩

/-! ### Numbers -/

namespace Reader

theorem ok_bind (a : α) (f : α → Except Failure β) : (Except.ok a >>= f) = f a := rfl

variable {digits : List UInt8} {n : Nat} {i : Int}

/-- The digits of a number are taken to the last one. -/
theorem someDigits_append (purpose : Purpose) (h : IsDecimal digits n) (hrest : Behind rest) :
    someDigits purpose (digits ++ rest) = .ok (digits, rest) := by
  have htake : (digits ++ rest).takeWhile Text.isDigit = digits := by
    rw [List.takeWhile_append_of_pos h.isDigit, hrest.takeWhile_isDigit, List.append_nil]
  have hdrop : (digits ++ rest).dropWhile Text.isDigit = rest := by
    rw [List.dropWhile_append_of_pos h.isDigit, hrest.dropWhile_isDigit]
  rw [someDigits, htake, hdrop]
  obtain ⟨b, bs, rfl⟩ := List.exists_cons_of_ne_nil h.ne_nil
  rfl

/-- They are a whole number, as they do not begin with a zero that is not alone. -/
theorem wholeDigits_append (purpose : Purpose) (h : IsDecimal digits n) (hrest : Behind rest) :
    wholeDigits purpose (digits ++ rest) = .ok (digits, rest) := by
  rw [wholeDigits, someDigits_append purpose h hrest]
  obtain ⟨b, bs, rfl⟩ := List.exists_cons_of_ne_nil h.ne_nil
  cases bs with
  | nil => rfl
  | cons b' bs =>
    refine if_neg ?_
    rintro rfl
    exact List.cons_ne_nil b' bs (h.leading _ rfl)

/-- Behind a value there is no fraction. -/
theorem fraction_of_behind (purpose : Purpose) (hrest : Behind rest) :
    fraction purpose rest = .ok (none, rest) := by
  cases rest with
  | nil => rfl
  | cons b rest => exact if_neg fun hb ↦ hrest.not_goesOn (.inr (.inl hb))

/-- Nor is there an exponent. -/
theorem power_of_behind (purpose : Purpose) (hrest : Behind rest) :
    power purpose rest = .ok (none, rest) := by
  cases rest with
  | nil => rfl
  | cons b rest => exact if_neg fun hb ↦ hrest.not_goesOn (.inr (.inr hb))

/-- The parts of a whole number behind its sign. -/
theorem parts_printNat (purpose : Purpose) (negative : Bool) (n : Nat) (hrest : Behind rest) :
    (do
      let (whole, rest) ← wholeDigits purpose (printNat n ++ rest)
      let (fraction, rest) ← fraction purpose rest
      let (power, rest) ← power purpose rest
      return ((⟨negative, whole, fraction, power⟩ : Written), rest)) =
      Except.ok (⟨negative, printNat n, none, none⟩, rest) := by
  rw [wholeDigits_append purpose (isDecimal_printNat n) hrest, ok_bind]
  dsimp only
  rw [fraction_of_behind purpose hrest, ok_bind]
  dsimp only
  rw [power_of_behind purpose hrest]
  rfl

/-- A whole number as it is written. -/
theorem written_printInt (purpose : Purpose) (i : Int) (hrest : Behind rest) :
    written purpose (printInt i ++ rest) =
      .ok (⟨decide (i < 0), printNat i.natAbs, none, none⟩, rest) := by
  rw [printInt]
  split
  · next hi =>
    rw [decide_eq_true hi]
    exact parts_printNat purpose true i.natAbs hrest
  · next hi =>
    have hparts := parts_printNat purpose false i.natAbs hrest
    obtain ⟨b, bs, hb, hdigit⟩ := exists_printNat i.natAbs
    have hne : b ≠ code '-' := by
      rintro rfl
      exact absurd hdigit (by decide)
    rw [decide_eq_false hi]
    rw [hb] at hparts ⊢
    unfold written
    simp only [List.cons_append, if_neg hne]
    exact hparts

/-- A number of 64 bits is the number that is written. -/
theorem numeral?_of_isWord (h : (Numeral.whole i).IsWord) :
    Written.numeral? ⟨decide (i < 0), printNat i.natAbs, none, none⟩ = some (.whole i) := by
  obtain ⟨hlow, hhigh⟩ := h
  have hvalue := (isDecimal_printNat i.natAbs).value
  rw [Written.numeral?]
  simp only [hvalue, Option.isNone_none, Bool.and_self, true_and, decide_eq_true_eq]
  by_cases hi : i < 0
  · rw [if_pos ⟨hi, by omega, by omega⟩]
    congr 2
    omega
  · rw [if_neg fun hneg ↦ hi hneg.1, if_pos ⟨hi, by omega⟩]
    congr 2
    omega

/-- A number of 64 bits is read back. -/
theorem reads_numeral (h : (Numeral.whole i).IsWord) : Reads numeral (printInt i) (.whole i) := by
  intro rest hrest
  rw [numeral, written_printInt .read i hrest, ok_bind]
  dsimp only
  rw [numeral?_of_isWord h]
  rfl

/-- The first byte of a number is its sign or a digit. -/
theorem exists_printInt (i : Int) :
    ∃ b bs, printInt i = b :: bs ∧ (b = code '-' ∨ Text.isDigit b = true) := by
  rw [printInt]
  split
  · exact ⟨_, _, rfl, .inl rfl⟩
  · obtain ⟨b, bs, hb, hdigit⟩ := exists_printNat i.natAbs
    exact ⟨b, bs, hb, .inr hdigit⟩

/-! ### Texts -/

theorem hexValue_hexDigit {d : Nat} (h : d < 16) : hexValue (hexDigit d) = some d := by
  revert d
  decide

/-- No byte vanishes when it is escaped. -/
theorem length_escapeByte_pos (b : UInt8) : 0 < (escapeByte b).length := by
  unfold escapeByte
  split_ifs <;> exact Nat.succ_pos _

/-- A control character that has no letter is read back from its number. -/
theorem escape_numbered (h : b < 32) (rest : List UInt8) :
    escape (code 'u' :: code '0' :: code '0' :: hexDigit (b.toNat / 16) ::
      hexDigit (b.toNat % 16) :: rest) = .ok ([b], rest) := by
  have hb : b.toNat < 32 := h
  have hfour : fourHex (code '0' :: code '0' :: hexDigit (b.toNat / 16) ::
      hexDigit (b.toNat % 16) :: rest) = .ok (b.toNat, rest) := by
    have hzero : hexValue (code '0') = some 0 := rfl
    simp only [fourHex, hzero, hexValue_hexDigit (show b.toNat / 16 < 16 by omega),
      hexValue_hexDigit (Nat.mod_lt b.toNat (show 0 < 16 by decide))]
    congr 2
    omega
  have hchar : String.utf8EncodeChar (Char.ofNat b.toNat) = [b] := by
    have hvalid : b.toNat.isValidChar := .inl (by omega)
    have hval : (Char.ofNat b.toNat).val.toNat = b.toNat := by
      rw [Char.ofNat, dif_pos hvalid]
      rfl
    simp only [String.utf8EncodeChar, hval]
    rw [if_pos (by omega), UInt8.ofNat_toNat]
  have hnumber : numberedChar (code '0' :: code '0' :: hexDigit (b.toNat / 16) ::
      hexDigit (b.toNat % 16) :: rest) = .ok ([b], rest) := by
    rw [numberedChar, hfour, ok_bind]
    dsimp only
    rw [if_neg (by omega), if_pos (.inl (by omega)), hchar]
    rfl
  exact hnumber

/-- An escape that stands for one byte is read in one round. -/
theorem quotedWith_backslash {input : List UInt8} (fuel : Nat)
    (h : escape input = .ok ([b], rest)) :
    quotedWith escape (fuel + 1) (code '\\' :: input) = do
      let (more, rest) ← quotedWith escape fuel rest
      return (b :: more, rest) := by
  rw [quotedWith, if_neg (by decide), if_pos rfl, h]
  rfl

/-- What a byte is printed as is read back in one round. -/
theorem quotedWith_escapeByte (fuel : Nat) (b : UInt8) (rest : List UInt8) :
    quotedWith escape (fuel + 1) (escapeByte b ++ rest) = do
      let (more, rest) ← quotedWith escape fuel rest
      return (b :: more, rest) := by
  unfold escapeByte
  split_ifs with hquote hback hb ht hn hf hr hcontrol
  case pos | pos | pos | pos | pos | pos | pos =>
    subst b
    exact quotedWith_backslash fuel rfl
  case pos => exact quotedWith_backslash fuel (escape_numbered hcontrol rest)
  case neg =>
    rw [List.singleton_append, quotedWith, if_neg hquote, if_neg hback, if_neg hcontrol]

/-- The bytes of a text are read back up to its closing quote. -/
theorem quotedWith_flatMap {fuel : Nat} {bytes : List UInt8} (h : bytes.length < fuel)
    (rest : List UInt8) :
    quotedWith escape fuel (bytes.flatMap escapeByte ++ code '"' :: rest) = .ok (bytes, rest) := by
  induction bytes generalizing fuel with
  | nil =>
    obtain ⟨fuel, rfl⟩ := Nat.exists_eq_succ_of_ne_zero (Nat.ne_of_gt h)
    rfl
  | cons b bytes ih =>
    obtain ⟨fuel, rfl⟩ := Nat.exists_eq_succ_of_ne_zero (Nat.ne_of_gt (Nat.zero_lt_of_lt h))
    rw [List.flatMap_cons, List.append_assoc, quotedWith_escapeByte,
      ih (Nat.lt_of_succ_lt_succ h)]
    rfl

/-- The bytes of a text are those of that text only. -/
theorem fromUTF8?_utf8 (s : String) : String.fromUTF8? ⟨(utf8 s).toArray⟩ = some s := by
  rw [utf8, Array.toArray_toList]
  exact dif_pos s.isValidUTF8

/-- What is printed for each of several things is at least as long as their number. -/
theorem length_le_length_flatMap {g : α → List UInt8} (h : ∀ x, 0 < (g x).length) (xs : List α) :
    xs.length ≤ (xs.flatMap g).length := by
  induction xs with
  | nil => exact Nat.le_refl 0
  | cons x xs ih =>
    rw [List.flatMap_cons, List.length_append, List.length_cons, Nat.add_comm]
    exact Nat.add_le_add (h x) ih

/-- A text is read back behind its opening quote. -/
theorem quoted_utf8 (s : String) (rest : List UInt8) :
    quoted ((utf8 s).flatMap escapeByte ++ code '"' :: rest) = .ok (s, rest) := by
  have hfuel : (utf8 s).length < ((utf8 s).flatMap escapeByte ++ code '"' :: rest).length := by
    rw [List.length_append, List.length_cons]
    have := length_le_length_flatMap length_escapeByte_pos (utf8 s)
    omega
  rw [quoted, quotedWith_flatMap hfuel, ok_bind]
  dsimp only
  rw [fromUTF8?_utf8]
  rfl

end Reader

end Json

end LeaseLock
