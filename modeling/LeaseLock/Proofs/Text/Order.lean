import Mathlib.Data.List.Lex
import Mathlib.Data.String.Basic
import Mathlib.Tactic.SplitIfs
import LeaseLock.Text.Bytes

/-!
# The order of texts

Texts are ordered by their characters, from the first one on, and characters by their code points.
That is the order of their bytes in UTF-8, read as numbers from the first one on
(`Text.utf8_le_utf8_iff`): of two characters the one with the larger code point has the larger byte
where their bytes first differ, and neither is the beginning of the other.

## Why characters and bytes agree

A code point is written in one to four bytes, and the first of them says how many follow. Longer
forms are those of larger code points and have larger first bytes; within one length the bits of the
code point are written from the highest one on. So the first byte in which two characters differ
decides as their code points do (`Text.utf8EncodeChar_append_lt`).

This is what a reader in another language compares, and it is why the order does not have to be
named wherever texts are sorted.
-/

namespace LeaseLock.Text

variable {c d : Char} {cs ds : List Char} {s t : String}

/-- The order of two rows of bytes, byte by byte. -/
theorem ofNat_cons_lt_iff {m n : Nat} {bs bs' : List UInt8} (hm : m < 256) (hn : n < 256) :
    UInt8.ofNat m :: bs < UInt8.ofNat n :: bs' ↔ m < n ∨ m = n ∧ bs < bs' := by
  rw [List.cons_lt_cons_iff, UInt8.lt_iff_toNat_lt, ← UInt8.toNat_inj, UInt8.toNat_ofNat',
    UInt8.toNat_ofNat', Nat.mod_eq_of_lt hm, Nat.mod_eq_of_lt hn]

/-- Characters differ in their bytes as they do in their code points, whatever follows. -/
theorem utf8EncodeChar_append_lt (h : c < d) (bs bs' : List UInt8) :
    String.utf8EncodeChar c ++ bs < String.utf8EncodeChar d ++ bs' := by
  have hlt : c.val.toNat < d.val.toNat := h
  have hmax : d.val.toNat < 0x110000 := by
    have hvalid := d.valid
    simp only [UInt32.isValidChar, Nat.isValidChar] at hvalid
    omega
  have hdiv (k : Nat) : k / 4096 = k / 64 / 64 := by rw [Nat.div_div_eq_div_mul]
  have hdiv' (k : Nat) : k / 262144 = k / 64 / 64 / 64 := by
    rw [Nat.div_div_eq_div_mul, Nat.div_div_eq_div_mul]
  simp only [String.utf8EncodeChar]
  generalize c.val.toNat = m, d.val.toNat = n at hlt hmax
  -- By the number of bytes: more bytes have a larger first one, as many are compared one by one.
  split_ifs <;> simp (disch := omega) only [List.cons_append, ofNat_cons_lt_iff, hdiv, hdiv'] <;>
    omega

/-- The bytes of characters are in the order of the characters. -/
theorem flatMap_utf8EncodeChar_lt (h : cs < ds) :
    cs.flatMap String.utf8EncodeChar < ds.flatMap String.utf8EncodeChar := by
  induction h with
  | @nil d ds =>
    rw [List.flatMap_nil, List.flatMap_cons]
    cases henc : String.utf8EncodeChar d with
    | nil => exact absurd henc String.utf8EncodeChar_ne_nil
    | cons b bs => exact List.nil_lt_cons _ _
  | rel hlt => exact utf8EncodeChar_append_lt hlt _ _
  | cons _ ih => exact List.append_left_lt ih

theorem utf8_eq_flatMap (s : String) : utf8 s = s.toList.flatMap String.utf8EncodeChar := by
  rw [utf8, String.toUTF8, ← String.utf8Encode_toList, List.utf8Encode]
  simp

/-- The order of texts is that of their bytes. -/
theorem utf8_lt_utf8_iff : utf8 s < utf8 t ↔ s < t := by
  have hlt {s t : String} (h : s < t) : utf8 s < utf8 t := by
    rw [utf8_eq_flatMap, utf8_eq_flatMap]
    exact flatMap_utf8EncodeChar_lt (String.lt_iff_toList_lt.1 h)
  refine ⟨fun h ↦ ?_, hlt⟩
  rcases lt_trichotomy s t with hst | rfl | hts
  · exact hst
  · exact absurd h (List.lt_irrefl _)
  · exact absurd h (List.lt_asymm (hlt hts))

theorem utf8_le_utf8_iff : utf8 s ≤ utf8 t ↔ s ≤ t := not_congr utf8_lt_utf8_iff

end LeaseLock.Text
