import Mathlib.Data.List.Nodup
import LeaseLock.Proofs.Json.Values

/-!
# Reading back records

A record is written as an object with a member for each field that has a written form. It is read
back if each field restores its value (`Json.Field.Restores`): what is written is read back, and
what is not written is what stands in for a missing member. The names of the fields have to be
different, because a member goes to the first field of its name (`Json.Record.decode_encode`).

Each kind of field has one lemma, and so have the two ways to make another field of it. An unset
value is not confused with a value that is read as unset, since no field but an optional one writes
`null` (`Json.Field.Carries`).

## Drafts

A record is read into a draft, which has a place for each field that is filled when its member
comes. Reading the members of a record fills the places of the fields that were written and leaves
the other ones open (`Json.Fields.taken_members`), and finishing the draft puts in what stands in
for those (`Json.Fields.finish_written`). Both go by recursion on the fields, one field in front of
the others, which is how the fields of a record are given.

Members may come in any order and others may stand between them. Here they come in the order in
which they were written, as this is about records that were written by the same fields.
-/

namespace LeaseLock.Json

open Text Reader

/-! ### Values of one kind -/

section Kinds

variable {α : Type} {r : Reader α} {a : α} {bytes : List UInt8}

theorem reads_text (s : String) : Reads Reader.text (Json.text s).print s := by
  intro rest _
  have htext : Reader.text (printText s ++ rest) =
      quoted ((utf8 s).flatMap escapeByte ++ code '"' :: rest) := by
    rw [printText_append]
    rfl
  rw [print, htext, quoted_utf8]

/-- A number is read back as what is made of it. -/
theorem reads_numeralWith {f : Numeral → Option α} {i : Int} (hi : (Numeral.whole i).IsWord)
    (hf : f (.whole i) = some a) : Reads (numeralWith f) (printInt i) a := by
  intro rest hrest
  have hread := reads_numeral hi rest hrest
  obtain ⟨b, bs, hb, hnumeric⟩ := exists_printInt i
  rw [hb, List.cons_append] at hread ⊢
  rw [numeralWith, skipBlanks_cons (opening_of_numeric hnumeric (.whole 0)).not_blank]
  dsimp only
  rw [if_pos hnumeric, hread, ok_bind]
  dsimp only
  rw [hf]
  rfl

theorem isWord_natCast {n : Nat} (h : n < wordBound) : (Numeral.whole n).IsWord :=
  ⟨by omega, by omega⟩

theorem reads_word {n : Nat} (h : n < wordBound) : Reads word (Json.nat n).print n :=
  reads_numeralWith (isWord_natCast h) (if_pos (Int.natCast_nonneg n))

theorem reads_truth (b : Bool) : Reads truth (Json.bool b).print b := by
  intro rest _
  cases b <;> rfl

/-- A list begins with its bracket, and its items are collected backwards. -/
theorem list_bracket (r : Reader α) (input : List UInt8) :
    list r (code '[' :: input) = do
      let (items, rest) ← foldItems (pushing r) (input.length + 1) true [] input
      return (items.reverse, rest) :=
  rfl

/-- A list is read back if its items are. -/
theorem reads_list {f : α → Json} {xs : List α} (hr : ∀ x ∈ xs, Reads r (f x).print x)
    (hplain : ∀ x ∈ xs, (f x).Plain) : Reads (list r) (Json.array (xs.map f)).print xs := by
  intro rest _
  rw [print, List.append_assoc, List.cons_append, List.singleton_append, list_bracket,
    foldItems_printItems hr hplain, ok_bind]
  dsimp only
  rw [List.reverse_reverse]
  rfl

/-- Metadata are read back if their values are. -/
theorem reads_metadata {depth : Nat} {m : Metadata}
    (h : ∀ e ∈ m.entries, Reads (value depth) e.2.print e.2) :
    Reads (Reader.metadata depth) (Json.object m.entries).print m := by
  intro rest _
  have htaken := taken_putting Dict.insert h (∅ : Metadata)
  rw [show m.entries.foldl (fun d e ↦ d.insert e.1 e.2) ∅ = Dict.ofList m.entries from rfl,
    Dict.ofList_entries] at htaken
  rw [print, List.append_assoc, List.cons_append, List.singleton_append]
  exact foldMembers_printMembers htaken rest

/-- A value that does not start like `null` is read as one that is set. -/
theorem reads_optional {j : Json} (hr : Reads r j.print a) (hplain : j.Plain) (hnull : j ≠ .null) :
    Reads (Reader.optional r) j.print (some a) := by
  intro rest hrest
  have hread := hr rest hrest
  obtain ⟨b, bs, hb, hopening⟩ := hplain.exists_print
  rw [hb, List.cons_append] at hread ⊢
  rw [Reader.optional, skipBlanks_cons hopening.not_blank]
  dsimp only
  rw [if_neg fun hn ↦ hnull (hopening.null hn), hread]
  rfl

end Kinds

/-! ### Fields -/

namespace Field

variable {α : Type} {f : Field α} {v : α} {j : Json}

/-- The field writes the value `v` as `j`, which is a plain value but not `null`, and reads it
back. -/
structure Carries (f : Field α) (v : α) (j : Json) : Prop where
  /-- The value has a written form. -/
  write : f.write v = some j
  /-- It is plain. -/
  plain : j.Plain
  /-- It is not `null`. -/
  ne_null : j ≠ .null
  /-- It is read back. -/
  read : Reads f.read j.print v

/-- The field writes the value `v` and reads it back, or it leaves it out and has it stand in for a
missing member. -/
inductive Restores (f : Field α) (v : α) : Prop where
  /-- The value is written and read back. -/
  | carried {j : Json} (h : f.Carries v j)
  /-- The value is left out and stands in for a missing member. -/
  | omitted (hwrite : f.write v = none) (habsent : f.absent = some v)

theorem carries_text (name s : String) : (text name).Carries s (.text s) :=
  ⟨rfl, .text s, Json.noConfusion, reads_text s⟩

theorem carries_word (name : String) {n : Nat} (h : n < wordBound) :
    (word name).Carries n (Json.nat n) :=
  ⟨rfl, .number (isWord_natCast h), Json.noConfusion, reads_word h⟩

theorem carries_truth (name : String) (b : Bool) : (truth name).Carries b (.bool b) :=
  ⟨rfl, .bool b, Json.noConfusion, reads_truth b⟩

theorem carries_texts (name : String) (l : List String) :
    (texts name).Carries l (.array (l.map .text)) where
  write := rfl
  plain := .array <| List.forall_mem_map.2 fun s _ ↦ .text s
  ne_null := Json.noConfusion
  read := reads_list (fun s _ ↦ reads_text s) fun s _ ↦ .text s

/-- Metadata are carried if their values are plain and nest as deep as is left of the bound inside a
record. -/
theorem carries_metadata (name : String) {m : Metadata} (hplain : ∀ e ∈ m.entries, e.2.Plain)
    (hcanonical : ∀ e ∈ m.entries, e.2.Canonical)
    (hdepth : (Json.object m.entries).nesting < maxNesting) :
    (metadata name).Carries m (.object m.entries) where
  write := rfl
  plain := .object hplain
  ne_null := Json.noConfusion
  read := reads_metadata fun e he ↦ reads_value (hplain e he) (hcanonical e he)
    (Nat.le_trans (nesting_le_of_mem_members he)
      (Nat.le_sub_of_add_le (Nat.succ_le_of_lt hdepth)))

/-- A field that always writes restores what it has written. -/
theorem Carries.restores (h : f.Carries v j) : f.Restores v := .carried h

/-- A stand-in changes nothing for what is written. -/
theorem Carries.orElse (h : f.Carries v j) (a : α) : (f.orElse a).Restores v :=
  .carried ⟨h.write, h.plain, h.ne_null, h.read⟩

/-- An optional field restores the unset value and every value that the field carries. -/
theorem restores_optional {v : Option α} (h : ∀ a, v = some a → ∃ j, f.Carries a j) :
    f.optional.Restores v := by
  cases v with
  | none => exact .omitted rfl rfl
  | some a =>
    obtain ⟨j, hj⟩ := h a rfl
    exact .carried ⟨hj.write, hj.plain, hj.ne_null, reads_optional hj.read hj.plain hj.ne_null⟩

end Field

/-! ### Records -/

namespace Fields

/-- The names of the fields. -/
def names : {ts : List Type} → Fields ts → List String
  | _, .nil => []
  | _, .cons f fs => f.name :: fs.names

/-- Every field restores its value. -/
def Restores : {ts : List Type} → Fields ts → Values ts → Prop
  | _, .nil, () => True
  | _, .cons f fs, (v, vs) => f.Restores v ∧ fs.Restores vs

theorem Restores.nil : Fields.nil.Restores () := trivial

theorem Restores.cons {α : Type} {ts : List Type} {f : Field α} {fs : Fields ts} {v : α}
    {vs : Values ts} (hv : f.Restores v) (hvs : fs.Restores vs) :
    (Fields.cons f fs).Restores (v, vs) :=
  ⟨hv, hvs⟩

/-- What is read of the values when those that have a written form are read. -/
def written : {ts : List Type} → Fields ts → Values ts → Draft ts
  | _, .nil, () => ()
  | _, .cons f fs, (v, vs) => ((f.write v).map fun _ ↦ v, fs.written vs)

/-- A member that is written has the name of a field. -/
theorem name_mem_names {ts : List Type} {fs : Fields ts} {vs : Values ts} {m : String × Json}
    (h : m ∈ fs.members vs) : m.1 ∈ fs.names := by
  induction fs with
  | nil => cases h
  | cons f fs ih =>
    obtain ⟨v, vs⟩ := vs
    rw [members] at h
    rw [names]
    split at h
    · rcases List.mem_cons.1 h with rfl | h
      · exact List.mem_cons_self
      · exact List.mem_cons_of_mem _ (ih h)
    · exact List.mem_cons_of_mem _ (ih h)

/-- What the first field writes is among the members. -/
theorem mem_members_of_write {α : Type} {ts : List Type} {f : Field α} {v : α} {j : Json}
    (h : f.write v = some j) (fs : Fields ts) (vs : Values ts) :
    (f.name, j) ∈ (Fields.cons f fs).members (v, vs) := by
  rw [members, h]
  exact List.mem_cons_self

/-- So is what the others write. -/
theorem mem_members_of_mem {α : Type} {ts : List Type} {fs : Fields ts} {vs : Values ts}
    {m : String × Json} (h : m ∈ fs.members vs) (f : Field α) (v : α) :
    m ∈ (Fields.cons f fs).members (v, vs) := by
  rw [members]
  split
  · exact List.mem_cons_of_mem _ h
  · exact h

section Take

variable {α : Type} {ts : List Type} {f : Field α} {fs : Fields ts} {v : Option α} {d : Draft ts}
  {name : String}

/-- A member of another name goes to the other fields. -/
theorem take_of_ne (h : name ≠ f.name) (input : List UInt8) :
    (Fields.cons f fs).take (v, d) name input = do
      let (d, rest) ← fs.take d name input
      return ((v, d), rest) :=
  if_neg h

/-- A member of its name goes to the first field. -/
theorem take_self (f : Field α) (fs : Fields ts) (d : Draft ts) (input : List UInt8) :
    (Fields.cons f fs).take (none, d) f.name input = do
      let ((), rest) ← colon input
      let (v, rest) ← f.read rest
      return ((some v, d), rest) :=
  if_pos rfl

end Take

/-- Members that do not have the name of the first field are taken by the other fields. -/
theorem taken_of_ne {α : Type} {ts : List Type} {f : Field α} {fs : Fields ts} {d d' : Draft ts}
    {members : List (String × Json)} (h : Taken fs.take d members d')
    (hne : ∀ m ∈ members, m.1 ≠ f.name) (v : Option α) :
    Taken (Fields.cons f fs).take (v, d) members (v, d') := by
  induction h with
  | nil d => exact .nil _
  | @cons d d' d'' name value members hstep h ih =>
    rw [List.forall_mem_cons] at hne
    refine .cons (fun rest hrest ↦ ?_) (ih hne.2)
    rw [take_of_ne hne.1, hstep rest hrest]
    rfl

/-- The members that are written are taken, each by its own field. -/
theorem taken_members {ts : List Type} {fs : Fields ts} (hnames : fs.names.Nodup) {vs : Values ts}
    (h : fs.Restores vs) : Taken fs.take fs.start (fs.members vs) (fs.written vs) := by
  induction fs with
  | nil => exact .nil _
  | cons f fs ih =>
    obtain ⟨v, vs⟩ := vs
    rw [names, List.nodup_cons] at hnames
    obtain ⟨hv, hvs⟩ := h
    -- No member of the other fields has the name of the first one, so they all pass it by.
    have hne : ∀ m ∈ fs.members vs, m.1 ≠ f.name := fun m hm heq ↦
      hnames.1 (heq ▸ name_mem_names hm)
    have hrest := taken_of_ne (f := f) (ih hnames.2 hvs) hne
    rw [start, members, written]
    cases hv with
    | @carried j hcarries =>
      rw [hcarries.write]
      refine .cons (fun rest hbehind ↦ ?_) (hrest (some v))
      rw [List.cons_append, take_self, colon_cons, ok_bind]
      dsimp only
      rw [hcarries.read rest hbehind]
      rfl
    | omitted hwrite habsent =>
      rw [hwrite]
      exact hrest none

/-- What has been read is completed by the stand-ins to all values. -/
theorem finish_written {ts : List Type} {fs : Fields ts} {vs : Values ts} (h : fs.Restores vs) :
    fs.finish (fs.written vs) = some vs := by
  induction fs with
  | nil => rfl
  | cons f fs ih =>
    obtain ⟨v, vs⟩ := vs
    obtain ⟨hv, hvs⟩ := h
    rw [written, finish, ih hvs]
    cases hv with
    | carried hcarries =>
      rw [hcarries.write]
      rfl
    | omitted hwrite habsent =>
      rw [hwrite, habsent]
      rfl

end Fields

namespace Record

variable {α : Type} {r : Record α} {a : α}

/-- A member nests less deep than its record. -/
theorem nesting_lt_of_mem_members {m : String × Json} (h : m ∈ r.fields.members (r.parts a)) :
    m.2.nesting < (r.write a).nesting :=
  Nat.lt_succ_of_le (Json.nesting_le_of_mem_members h)

/-- **A record is read back.** -/
theorem decode_encode (hbuild : r.build (r.parts a) = a) (hnames : r.fields.names.Nodup)
    (h : r.fields.Restores (r.parts a)) : r.decode (r.encode a) = .ok a := by
  have htaken := Fields.taken_members hnames h
  have hobject : r.read (code '\x7b' :: (printMembers (r.fields.members (r.parts a)) ++
      code '\x7d' :: [])) = .ok (a, []) := by
    rw [read, skipBlanks_cons (by decide)]
    dsimp only
    rw [if_pos rfl, foldMembers_printMembers htaken, ok_bind]
    dsimp only
    rw [Fields.finish_written h]
    dsimp only
    rw [hbuild]
    rfl
  rw [decode, encode, write, print, List.cons_append, whole, hobject]
  rfl

end Record

end LeaseLock.Json
