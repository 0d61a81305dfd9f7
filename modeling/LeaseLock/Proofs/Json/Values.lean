import LeaseLock.Proofs.Json.Scalars

/-!
# Reading back values

A value is read back as it was printed if its numbers are whole and fit 64 bits (`Json.Plain`), the
members of its objects are in order (`Json.Canonical`) and it does not nest deeper than the reader
goes (`Json.nesting`). The induction is over the value (`Json.reads_value`).

Lists and objects are read by loops, and what a loop reads back depends on what it does with an item
or a member. For lists that is always the same. For objects it is not: values, metadata and records
each have a step of their own. So the loop over the members is described for any step
(`Json.Taken`), and each kind of object has to say only what its step makes of one member.

## The first byte decides

The reader tells by the first byte what kind of value it has before it. So a printed value is
described by its first byte (`Json.Opening`), which is not a blank and does not close a list, and
with it each kind of value goes to its own branch (`Json.valueWith_text` and its companions).

## Depth

A reader of a depth is made of the reader of the depth below, with which it reads items and members.
The induction takes a value apart in the same way, so it is over the depth at the same time, and
the condition that a value does not nest too deeply passes on to its parts. Only lists and objects
count, so the innermost reader still reads numbers and texts (`Json.exists_value_eq`).
-/

namespace LeaseLock.Json

open Text Reader

variable {α σ : Type} {j : Json} {b : UInt8} {bytes rest : List UInt8}

/-! ### Values that are read back -/

/-- Every number in the value, at any depth, is whole and fits 64 bits. -/
inductive Plain : Json → Prop where
  /-- The value `null`. -/
  | null : Plain .null
  /-- A truth value. -/
  | bool (b : Bool) : Plain (.bool b)
  /-- A whole number. -/
  | number {n : Numeral} (h : n.IsWord) : Plain (.number n)
  /-- A text. -/
  | text (s : String) : Plain (.text s)
  /-- A list of such values. -/
  | array {items : List Json} (h : ∀ item ∈ items, Plain item) : Plain (.array items)
  /-- An object of such values. -/
  | object {members : List (String × Json)} (h : ∀ m ∈ members, Plain m.2) :
    Plain (.object members)

mutual

/-- How many lists and objects enclose one another in a value. -/
def nesting : Json → Nat
  | .array items => nestingItems items + 1
  | .object members => nestingMembers members + 1
  | _ => 0

/-- How many enclose one another in an item. -/
def nestingItems : List Json → Nat
  | [] => 0
  | item :: items => max item.nesting (nestingItems items)

/-- How many enclose one another in the value of a member. -/
def nestingMembers : List (String × Json) → Nat
  | [] => 0
  | (_, value) :: members => max value.nesting (nestingMembers members)

end

theorem nesting_le_of_mem_items {items : List Json} (h : j ∈ items) :
    j.nesting ≤ nestingItems items := by
  induction items with
  | nil => cases h
  | cons item items ih =>
    rw [nestingItems]
    rcases List.mem_cons.1 h with rfl | h
    · exact Nat.le_max_left _ _
    · exact Nat.le_trans (ih h) (Nat.le_max_right _ _)

theorem nesting_le_of_mem_members {m : String × Json} {members : List (String × Json)}
    (h : m ∈ members) : m.2.nesting ≤ nestingMembers members := by
  induction members with
  | nil => cases h
  | cons m' members ih =>
    rw [nestingMembers]
    rcases List.mem_cons.1 h with rfl | h
    · exact Nat.le_max_left _ _
    · exact Nat.le_trans (ih h) (Nat.le_max_right _ _)

theorem canonicalItems_iff {items : List Json} :
    CanonicalItems items ↔ ∀ item ∈ items, item.Canonical := by
  induction items with
  | nil => simp [CanonicalItems]
  | cons item items ih => rw [CanonicalItems, ih, List.forall_mem_cons]

theorem canonicalMembers_iff {members : List (String × Json)} :
    CanonicalMembers members ↔ ∀ m ∈ members, m.2.Canonical := by
  induction members with
  | nil => simp [CanonicalMembers]
  | cons m members ih => rw [CanonicalMembers, ih, List.forall_mem_cons]

/-! ### First bytes -/

/-- There is nothing to skip before a byte that is not blank. -/
theorem skipBlanks_cons (h : isBlank b = false) (rest : List UInt8) :
    skipBlanks (b :: rest) = b :: rest :=
  List.dropWhile_cons_of_neg (Bool.eq_false_iff.1 h)

/-- The first byte of a value is no blank and no closing bracket, and it is the letter of `null` for
`null` alone. -/
structure Opening (j : Json) (b : UInt8) : Prop where
  /-- It is no blank. -/
  not_blank : isBlank b = false
  /-- It does not end a list. -/
  ne_bracket : b ≠ code ']'
  /-- It is that of `null` for `null` alone. -/
  null : b = code 'n' → j = .null

/-- A sign or a digit is none of the bytes with which another value starts. -/
theorem opening_of_numeric (h : b = code '-' ∨ isDigit b = true) (n : Numeral) :
    Opening (.number n) b := by
  have hne (c : UInt8) (hc : ¬(c = code '-' ∨ isDigit c = true)) : b ≠ c := fun heq ↦ hc (heq ▸ h)
  refine ⟨?_, hne _ (by decide), fun hb ↦ absurd hb (hne _ (by decide))⟩
  simp only [isBlank, Bool.or_eq_false_iff, beq_eq_false_iff_ne]
  exact ⟨⟨⟨hne _ (by decide), hne _ (by decide)⟩, hne _ (by decide)⟩, hne _ (by decide)⟩

/-- A plain value is printed with such a byte in front. -/
theorem Plain.exists_print (h : j.Plain) : ∃ b bs, j.print = b :: bs ∧ Opening j b := by
  cases h with
  | null => exact ⟨_, _, rfl, by decide, by decide, fun _ ↦ rfl⟩
  | bool b =>
    cases b
    all_goals exact ⟨_, _, rfl, by decide, by decide, fun hb ↦ absurd hb (by decide)⟩
  | @number n h =>
    cases n with
    | whole i =>
      obtain ⟨b, bs, hb, hnumeric⟩ := exists_printInt i
      exact ⟨b, bs, hb, opening_of_numeric hnumeric _⟩
    | double x => exact h.elim
  | text s => exact ⟨_, _, rfl, by decide, by decide, fun hb ↦ absurd hb (by decide)⟩
  | array h => exact ⟨_, _, rfl, by decide, by decide, fun hb ↦ absurd hb (by decide)⟩
  | object h => exact ⟨_, _, rfl, by decide, by decide, fun hb ↦ absurd hb (by decide)⟩

/-! ### Lists -/

/-- The items of a list, one after the other in front of those that have been read. -/
def pushing (r : Reader α) : List α → Reader (List α) := fun items input ↦ do
  let (item, rest) ← r input
  return (item :: items, rest)

/-- Behind its first item a list goes on with a comma in front of each of the others. -/
theorem printItems_cons (item : Json) (items : List Json) :
    printItems (item :: items) = item.print ++ items.flatMap fun j ↦ code ',' :: j.print := by
  induction items generalizing item with
  | nil => rw [printItems, List.flatMap_nil, List.append_nil]
  | cons item' items ih =>
    rw [printItems, ih, List.flatMap_cons, List.cons_append]
    exact List.cons_ne_nil _ _

/-- What stands behind an item or a member is a comma, or what stands behind the last one. -/
theorem Behind.flatMap {β : Type} (h : Behind rest) (xs : List β) (g : β → List UInt8) :
    Behind (xs.flatMap (fun x ↦ code ',' :: g x) ++ rest) := by
  cases xs with
  | nil => exact h
  | cons x xs => exact .comma _

/-- The first item follows the bracket. -/
theorem nextItem_first (h : j.Plain) (rest : List UInt8) :
    nextItem true (j.print ++ rest) = .ok (some (j.print ++ rest)) := by
  obtain ⟨b, bs, hb, hopening⟩ := h.exists_print
  rw [hb, List.cons_append, nextItem, skipBlanks_cons hopening.not_blank]
  dsimp only
  rw [if_neg hopening.ne_bracket, if_pos rfl]

/-- Every other item follows a comma. -/
theorem nextItem_comma (h : j.Plain) (rest : List UInt8) :
    nextItem false (code ',' :: (j.print ++ rest)) = .ok (some (j.print ++ rest)) := by
  obtain ⟨b, bs, hb, hopening⟩ := h.exists_print
  rw [hb, List.cons_append, nextItem, skipBlanks_cons (by decide)]
  dsimp only
  rw [if_neg (by decide), if_neg Bool.false_ne_true, if_pos rfl,
    skipBlanks_cons hopening.not_blank]
  dsimp only
  rw [if_neg hopening.ne_bracket]

/-- One round of the loop over the items. -/
theorem foldItems_of_some {step : σ → Reader σ} {isFirst : Bool} {s s' : σ}
    {input input' : List UInt8} (fuel : Nat) (hnext : nextItem isFirst input = .ok (some input'))
    (hstep : step s input' = .ok (s', rest)) :
    foldItems step (fuel + 1) isFirst s input = foldItems step fuel false s' rest := by
  rw [foldItems, hnext, ok_bind]
  dsimp only
  rw [hstep]
  rfl

section Items

variable {r : Reader α} {f : α → Json} {xs : List α}

/-- An item is read back and put in front of those that have been read. -/
theorem pushing_append {x : α} (h : Reads r bytes x) (acc : List α) (hrest : Behind rest) :
    pushing r acc (bytes ++ rest) = .ok (x :: acc, rest) := by
  rw [pushing, h rest hrest]
  rfl

/-- The items behind the first one are read back up to the closing bracket. -/
theorem foldItems_flatMap (hr : ∀ x ∈ xs, Reads r (f x).print x) (hplain : ∀ x ∈ xs, (f x).Plain)
    {fuel : Nat} (hfuel : xs.length < fuel) (acc : List α) (rest : List UInt8) :
    foldItems (pushing r) fuel false acc
        (xs.flatMap (fun x ↦ code ',' :: (f x).print) ++ code ']' :: rest) =
      .ok (xs.reverse ++ acc, rest) := by
  induction xs generalizing fuel acc with
  | nil =>
    obtain ⟨fuel, rfl⟩ := Nat.exists_eq_succ_of_ne_zero (Nat.ne_of_gt hfuel)
    rfl
  | cons x xs ih =>
    obtain ⟨fuel, rfl⟩ := Nat.exists_eq_succ_of_ne_zero (Nat.ne_of_gt (Nat.zero_lt_of_lt hfuel))
    rw [List.forall_mem_cons] at hr hplain
    have hrest := (Behind.bracket rest).flatMap xs fun x ↦ (f x).print
    rw [List.flatMap_cons, List.append_assoc, List.cons_append,
      foldItems_of_some fuel (nextItem_comma hplain.1 _) (pushing_append hr.1 acc hrest),
      ih hr.2 hplain.2 (Nat.lt_of_succ_lt_succ hfuel), List.reverse_cons, List.append_assoc,
      List.singleton_append]

/-- The items of a list are read back up to the closing bracket, the last one in front. -/
theorem foldItems_printItems (hr : ∀ x ∈ xs, Reads r (f x).print x)
    (hplain : ∀ x ∈ xs, (f x).Plain) (rest : List UInt8) :
    foldItems (pushing r) ((printItems (xs.map f) ++ code ']' :: rest).length + 1) true []
        (printItems (xs.map f) ++ code ']' :: rest) = .ok (xs.reverse, rest) := by
  cases xs with
  | nil => rfl
  | cons x xs =>
    rw [List.forall_mem_cons] at hr hplain
    have hrest := (Behind.bracket rest).flatMap xs fun x ↦ (f x).print
    have hfuel : xs.length < ((f x).print ++
        (xs.flatMap (fun x ↦ code ',' :: (f x).print) ++ code ']' :: rest)).length := by
      have := length_le_length_flatMap (g := fun x ↦ code ',' :: (f x).print)
        (fun _ ↦ Nat.succ_pos _) xs
      rw [List.length_append, List.length_append, List.length_cons]
      omega
    rw [List.map_cons, printItems_cons, List.flatMap_map, List.append_assoc,
      foldItems_of_some _ (nextItem_first hplain.1 _) (pushing_append hr.1 [] hrest),
      foldItems_flatMap hr.2 hplain.2 hfuel, List.reverse_cons]

end Items

/-! ### Objects -/

/-- Behind its first member an object goes on with a comma in front of each of the others. -/
theorem printMembers_cons (m : String × Json) (members : List (String × Json)) :
    printMembers (m :: members) = printText m.1 ++ code ':' :: m.2.print ++
      members.flatMap fun m ↦ code ',' :: (printText m.1 ++ code ':' :: m.2.print) := by
  induction members generalizing m with
  | nil =>
    rw [printMembers, List.flatMap_nil, List.append_nil]
  | cons m' members ih =>
    rw [printMembers, ih, List.flatMap_cons, List.cons_append]
    exact List.cons_ne_nil _ _

/-- The steps of a loop over members, one for each of them, take `s` to `s'`. -/
inductive Taken (step : σ → String → Reader σ) : σ → List (String × Json) → σ → Prop where
  /-- There are no members. -/
  | nil (s : σ) : Taken step s [] s
  /-- One step, and those for the other members. -/
  | cons {s s' s'' : σ} {name : String} {value : Json} {members : List (String × Json)}
    (h : Reads (step s name) (code ':' :: value.print) s') (h' : Taken step s' members s'') :
    Taken step s ((name, value) :: members) s''

/-- A name up to its closing quote, and what stands behind it. -/
theorem printText_append (s : String) (rest : List UInt8) :
    printText s ++ rest =
      code '"' :: ((utf8 s).flatMap escapeByte ++ code '"' :: rest) := by
  rw [printText, List.append_assoc, List.cons_append, List.singleton_append]

/-- The first member follows the brace. -/
theorem nextMember_first (name : String) (rest : List UInt8) :
    nextMember true (printText name ++ rest) =
      .ok (some ((utf8 name).flatMap escapeByte ++ code '"' :: rest)) := by
  rw [printText_append, nextMember, skipBlanks_cons (by decide)]
  rfl

/-- Every other member follows a comma. -/
theorem nextMember_comma (name : String) (rest : List UInt8) :
    nextMember false (code ',' :: (printText name ++ rest)) =
      .ok (some ((utf8 name).flatMap escapeByte ++ code '"' :: rest)) := by
  rw [printText_append, nextMember, skipBlanks_cons (by decide)]
  dsimp only
  rw [if_neg (by decide), if_neg Bool.false_ne_true, if_pos rfl, skipBlanks_cons (by decide)]
  rfl

section Members

variable {step : σ → String → Reader σ} {s s' : σ} {name : String} {value : Json}
  {members : List (String × Json)}

/-- One round of the loop over the members. -/
theorem foldMembers_of_some {isFirst : Bool} {input : List UInt8} (fuel : Nat)
    (hnext : nextMember isFirst input = .ok (some ((utf8 name).flatMap escapeByte ++
      code '"' :: (code ':' :: value.print ++ rest))))
    (hstep : Reads (step s name) (code ':' :: value.print) s') (hrest : Behind rest) :
    foldMembers quoted step (fuel + 1) isFirst s input =
      foldMembers quoted step fuel false s' rest := by
  rw [foldMembers, hnext, ok_bind]
  dsimp only
  rw [quoted_utf8, ok_bind]
  dsimp only
  rw [hstep rest hrest]
  rfl

/-- The members behind the first one are taken up to the closing brace. -/
theorem foldMembers_flatMap (h : Taken step s members s') {fuel : Nat}
    (hfuel : members.length < fuel) (rest : List UInt8) :
    foldMembers quoted step fuel false s
        (members.flatMap (fun m ↦ code ',' :: (printText m.1 ++ code ':' :: m.2.print)) ++
          code '\x7d' :: rest) = .ok (s', rest) := by
  induction h generalizing fuel with
  | nil s =>
    obtain ⟨fuel, rfl⟩ := Nat.exists_eq_succ_of_ne_zero (Nat.ne_of_gt hfuel)
    rfl
  | @cons s s' s'' name value members hstep h ih =>
    obtain ⟨fuel, rfl⟩ := Nat.exists_eq_succ_of_ne_zero (Nat.ne_of_gt (Nat.zero_lt_of_lt hfuel))
    have hrest := (Behind.brace rest).flatMap members fun m ↦
      printText m.1 ++ code ':' :: m.2.print
    rw [List.flatMap_cons, List.append_assoc, List.cons_append, List.append_assoc,
      foldMembers_of_some fuel (nextMember_comma name _) hstep hrest,
      ih (Nat.lt_of_succ_lt_succ hfuel)]

/-- The members of an object are taken up to the closing brace. -/
theorem foldMembers_printMembers (h : Taken step s members s') (rest : List UInt8) :
    foldMembers quoted step ((printMembers members ++ code '\x7d' :: rest).length + 1) true s
      (printMembers members ++ code '\x7d' :: rest) = .ok (s', rest) := by
  cases h with
  | nil s => rfl
  | @cons s s' s'' name value members hstep h =>
    have hrest := (Behind.brace rest).flatMap members fun m ↦
      printText m.1 ++ code ':' :: m.2.print
    have hfuel : members.length < (printMembers ((name, value) :: members) ++
        code '\x7d' :: rest).length := by
      have := length_le_length_flatMap
        (g := fun m : String × Json ↦ code ',' :: (printText m.1 ++ code ':' :: m.2.print))
        (fun _ ↦ Nat.succ_pos _) members
      rw [printMembers_cons, List.length_append, List.length_append, List.length_cons]
      omega
    rw [printMembers_cons] at hfuel ⊢
    rw [List.append_assoc, List.append_assoc] at hfuel ⊢
    rw [foldMembers_of_some _ (nextMember_first name _) hstep hrest, foldMembers_flatMap h hfuel]

end Members

/-! ### Members that are kept -/

theorem colon_cons (rest : List UInt8) : colon (code ':' :: rest) = .ok ((), rest) := rfl

/-- A step that reads the value of a member and puts it into what has been read. -/
def putting (put : σ → String → Json → σ) (inner : Reader Json) : σ → String → Reader σ :=
  fun s name input ↦ do
    let ((), rest) ← colon input
    let (value, rest) ← inner rest
    return (put s name value, rest)

/-- Such steps put one member after the other. -/
theorem taken_putting (put : σ → String → Json → σ) {inner : Reader Json}
    {members : List (String × Json)} (h : ∀ m ∈ members, Reads inner m.2.print m.2) (s : σ) :
    Taken (putting put inner) s members (members.foldl (fun s m ↦ put s m.1 m.2) s) := by
  induction members generalizing s with
  | nil => exact .nil s
  | cons m members ih =>
    rw [List.forall_mem_cons] at h
    refine .cons (fun rest hrest ↦ ?_) (ih h.2 _)
    rw [List.cons_append, putting, colon_cons, ok_bind]
    dsimp only
    rw [h.1 rest hrest]
    rfl

/-! ### Values -/

variable {inner : Option (Reader Json)}

/-- A sign or a digit begins a number. -/
theorem valueWith_number (h : b = code '-' ∨ isDigit b = true) (bs : List UInt8) :
    valueWith inner (b :: bs) = do
      let (n, rest) ← numeral (b :: bs)
      return (.number n, rest) := by
  have hne (c : UInt8) (hc : ¬(c = code '-' ∨ isDigit c = true)) : b ≠ c := fun heq ↦ hc (heq ▸ h)
  rw [valueWith, skipBlanks_cons (opening_of_numeric h (.whole 0)).not_blank]
  dsimp only
  rw [if_neg (hne _ (by decide)), if_neg (hne _ (by decide)), if_neg (hne _ (by decide)), if_pos h]

/-- A quotation mark begins a text. -/
theorem valueWith_text (s : String) (rest : List UInt8) :
    valueWith inner (printText s ++ rest) = do
      let (s, rest) ← quoted ((utf8 s).flatMap escapeByte ++ code '"' :: rest)
      return (.text s, rest) := by
  rw [printText_append]
  rfl

/-- A bracket begins a list. -/
theorem valueWith_bracket (inner : Reader Json) (input : List UInt8) :
    valueWith (some inner) (code '[' :: input) = do
      let (items, rest) ← foldItems (pushing inner) (input.length + 1) true [] input
      return (.array items.reverse, rest) :=
  rfl

/-- A brace begins an object. -/
theorem valueWith_brace (inner : Reader Json) (input : List UInt8) :
    valueWith (some inner) (code '\x7b' :: input) = do
      let (members, rest) ← foldMembers quoted
        (putting (fun members name value ↦ Dict.place name value members) inner)
        (input.length + 1) true [] input
      return (.object members, rest) :=
  rfl

/-- Numbers are read back at every depth. -/
theorem reads_valueWith_number {n : Numeral} (h : n.IsWord) :
    Reads (valueWith inner) (Json.number n).print (.number n) := by
  intro rest hrest
  cases n with
  | double x => exact h.elim
  | whole i =>
    have hread := reads_numeral h rest hrest
    obtain ⟨b, bs, hb, hnumeric⟩ := exists_printInt i
    rw [hb, List.cons_append] at hread
    rw [print, printNumeral, hb, List.cons_append, valueWith_number hnumeric, hread]
    rfl

/-- So are texts. -/
theorem reads_valueWith_text (s : String) :
    Reads (valueWith inner) (Json.text s).print (.text s) := by
  intro rest _
  rw [print, valueWith_text, quoted_utf8]
  rfl

/-- A list is read back if its items are. -/
theorem reads_valueWith_array {inner : Reader Json} {items : List Json}
    (hread : ∀ item ∈ items, Reads inner item.print item) (hplain : ∀ item ∈ items, item.Plain) :
    Reads (valueWith (some inner)) (Json.array items).print (.array items) := by
  intro rest _
  have hitems := foldItems_printItems (f := id) hread hplain rest
  rw [List.map_id] at hitems
  rw [print, List.append_assoc, List.cons_append, List.singleton_append, valueWith_bracket, hitems,
    ok_bind]
  dsimp only
  rw [List.reverse_reverse]
  rfl

/-- An object whose members are in order is read back if their values are. -/
theorem reads_valueWith_object {inner : Reader Json} {members : List (String × Json)}
    (hread : ∀ m ∈ members, Reads inner m.2.print m.2)
    (hordered : members.Pairwise fun a b ↦ a.1 < b.1) :
    Reads (valueWith (some inner)) (Json.object members).print (.object members) := by
  intro rest _
  -- Each member is larger than those before it, so it is placed behind them.
  have htaken := taken_putting (fun members name value ↦ Dict.place name value members) hread []
  rw [Dict.foldl_place hordered, List.nil_append] at htaken
  rw [print, List.append_assoc, List.cons_append, List.singleton_append, valueWith_brace,
    foldMembers_printMembers htaken]
  rfl

/-- At every depth values are read in one way, with something for the inner ones. -/
theorem exists_value_eq (depth : Nat) : ∃ inner, value depth = valueWith inner := by
  cases depth with
  | zero => exact ⟨none, rfl⟩
  | succ depth => exact ⟨some (value depth), rfl⟩

/-- **A value is read back.** -/
theorem reads_value (hplain : j.Plain) (hcanonical : j.Canonical) {depth : Nat}
    (hdepth : j.nesting ≤ depth) : Reads (value depth) j.print j := by
  obtain ⟨inner, hinner⟩ := exists_value_eq depth
  induction hplain generalizing depth inner with
  | null =>
    rw [hinner]
    exact fun rest _ ↦ rfl
  | bool b =>
    rw [hinner]
    cases b with
    | false => exact fun rest _ ↦ rfl
    | true => exact fun rest _ ↦ rfl
  | number h =>
    rw [hinner]
    exact reads_valueWith_number h
  | text s =>
    rw [hinner]
    exact reads_valueWith_text s
  | @array items h ih =>
    -- A list takes one level, and the rest is left for its items.
    rw [Canonical, canonicalItems_iff] at hcanonical
    obtain ⟨depth, rfl⟩ := Nat.exists_eq_succ_of_ne_zero (Nat.ne_of_gt (Nat.zero_lt_of_lt hdepth))
    obtain ⟨inner, hinner⟩ := exists_value_eq depth
    refine reads_valueWith_array (fun item hitem ↦ ?_) h
    exact ih item hitem (hcanonical item hitem)
      (Nat.le_trans (nesting_le_of_mem_items hitem) (Nat.le_of_succ_le_succ hdepth)) inner hinner
  | @object members h ih =>
    obtain ⟨hordered, hvalues⟩ := hcanonical
    rw [canonicalMembers_iff] at hvalues
    obtain ⟨depth, rfl⟩ := Nat.exists_eq_succ_of_ne_zero (Nat.ne_of_gt (Nat.zero_lt_of_lt hdepth))
    obtain ⟨inner, hinner⟩ := exists_value_eq depth
    refine reads_valueWith_object (fun m hm ↦ ?_) hordered
    exact ih m hm (hvalues m hm)
      (Nat.le_trans (nesting_le_of_mem_members hm) (Nat.le_of_succ_le_succ hdepth)) inner hinner

/-- A value is read back from its whole text. -/
theorem parse_print (hplain : j.Plain) (hcanonical : j.Canonical)
    (hdepth : j.nesting ≤ maxNesting) : parse j.print = .ok j := by
  have hread := reads_value hplain hcanonical hdepth [] .nil
  rw [List.append_nil] at hread
  rw [parse, whole, hread]
  rfl

end LeaseLock.Json
