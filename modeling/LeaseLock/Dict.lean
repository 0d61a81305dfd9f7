/-!
# Finite maps keyed by text

A `Dict` is a finite map from text to values, kept as a list of entries in strictly increasing key
order. The order is that of code points, which is also the byte order of UTF-8, so listing a `Dict`
lists it in the order in which every answer of this library names locks and clients.

The order is part of the type. A `Dict` is therefore determined by its look-ups (`Dict.ext_get?`),
and each operation is described by what it does to them: `get?_insert`, `get?_erase`, `get?_filter`.

`Names` is a finite set of names, a `Dict` without values.
-/

namespace LeaseLock

/-- A finite map from text to `β`, its entries in strictly increasing key order. -/
structure Dict (β : Type) where
  /-- The entries, smallest key first. -/
  entries : List (String × β)
  /-- Keys increase strictly, so no key occurs twice. -/
  ordered : entries.Pairwise fun a b ↦ a.1 < b.1

namespace Dict

variable {β : Type}

instance [DecidableEq β] : DecidableEq (Dict β) := fun a b ↦
  decidable_of_iff (a.entries = b.entries)
    ⟨fun h ↦ by cases a; cases b; cases h; rfl, fun h ↦ h ▸ rfl⟩

/-! ### Operations on entry lists -/

/-- The value at `k` in a list of entries. -/
def lookup (k : String) : List (String × β) → Option β
  | [] => none
  | (k', v) :: rest => if k = k' then some v else lookup k rest

/-- Put `v` at `k`, before the first larger key, in place of an equal one. -/
def place (k : String) (v : β) : List (String × β) → List (String × β)
  | [] => [(k, v)]
  | (k', v') :: rest =>
    if k = k' then (k, v) :: rest
    else if k < k' then (k, v) :: (k', v') :: rest
    else (k', v') :: place k v rest

theorem mem_place {k : String} {v : β} {e : String × β} {es : List (String × β)}
    (h : e ∈ place k v es) : e = (k, v) ∨ e ∈ es := by
  induction es with
  | nil => simpa [place] using h
  | cons e' es ih =>
    obtain ⟨k', v'⟩ := e'
    simp only [place] at h
    split at h
    · simp only [List.mem_cons] at h ⊢
      exact h.imp_right Or.inr
    · split at h
      · simp only [List.mem_cons] at h ⊢
        exact h
      · simp only [List.mem_cons] at h ⊢
        rcases h with h | h
        · exact Or.inr (Or.inl h)
        · exact (ih h).imp_right Or.inr

theorem ordered_place {k : String} {v : β} {es : List (String × β)}
    (h : es.Pairwise fun a b ↦ a.1 < b.1) :
    (place k v es).Pairwise fun a b ↦ a.1 < b.1 := by
  induction es with
  | nil => simp [place]
  | cons e es ih =>
    obtain ⟨k', v'⟩ := e
    rw [List.pairwise_cons] at h
    simp only [place]
    split
    · next heq =>
      subst heq
      exact List.pairwise_cons.2 h
    · next hne =>
      split
      · next hlt =>
        refine List.pairwise_cons.2 ⟨?_, List.pairwise_cons.2 h⟩
        intro a ha
        rcases List.mem_cons.1 ha with rfl | ha
        · exact hlt
        · exact String.lt_trans hlt (h.1 a ha)
      · next hnlt =>
        refine List.pairwise_cons.2 ⟨?_, ih h.2⟩
        intro a ha
        rcases mem_place ha with rfl | ha
        · exact Decidable.byContradiction fun hnot ↦
            hne (String.le_antisymm (String.not_lt.1 hnot) (String.not_lt.1 hnlt))
        · exact h.1 a ha

theorem lookup_place (k j : String) (v : β) (es : List (String × β)) :
    lookup j (place k v es) = if j = k then some v else lookup j es := by
  induction es with
  | nil => simp [place, lookup]
  | cons e es ih =>
    obtain ⟨k', v'⟩ := e
    simp only [place]
    split
    · next heq =>
      subst heq
      by_cases hj : j = k <;> simp [lookup, hj]
    · next hne =>
      split
      · simp [lookup]
      · by_cases hj : j = k'
        · subst hj
          have : j ≠ k := fun h ↦ hne h.symm
          simp [lookup, this]
        · simp [lookup, hj, ih]

/-- A key larger than the others is placed at the end. -/
theorem place_of_forall_lt {k : String} {v : β} {es : List (String × β)} (h : ∀ e ∈ es, e.1 < k) :
    place k v es = es ++ [(k, v)] := by
  induction es with
  | nil => rfl
  | cons e es ih =>
    obtain ⟨k', v'⟩ := e
    have hlt : k' < k := h _ List.mem_cons_self
    rw [place, if_neg, if_neg (String.lt_asymm hlt),
      ih fun e he ↦ h e (List.mem_cons_of_mem _ he), List.cons_append]
    rintro rfl
    exact String.lt_irrefl k hlt

/-- Entries that are in order are placed one behind the other. -/
theorem foldl_place {as es : List (String × β)} (h : (as ++ es).Pairwise fun a b ↦ a.1 < b.1) :
    es.foldl (fun es e ↦ place e.1 e.2 es) as = as ++ es := by
  induction es generalizing as with
  | nil => exact (List.append_nil as).symm
  | cons e es ih =>
    have hlast : ∀ a ∈ as, a.1 < e.1 := fun a ha ↦
      (List.pairwise_append.1 h).2.2 a ha e List.mem_cons_self
    rw [List.foldl_cons, place_of_forall_lt hlast, ih, List.append_assoc, List.singleton_append]
    rwa [List.append_assoc, List.singleton_append]

theorem lookup_filter_ne (k j : String) (es : List (String × β)) :
    lookup j (es.filter fun e ↦ e.1 ≠ k) = if j = k then none else lookup j es := by
  induction es with
  | nil => simp [lookup]
  | cons e es ih =>
    obtain ⟨k', v'⟩ := e
    by_cases hk : k' = k
    · subst hk
      by_cases hj : j = k'
      · simpa [lookup, hj] using ih
      · simpa [lookup, hj] using ih
    · by_cases hj : j = k'
      · subst hj
        simp [lookup, hk]
      · simpa [lookup, hk, hj] using ih

theorem mem_of_lookup {k : String} {v : β} {es : List (String × β)}
    (h : lookup k es = some v) : (k, v) ∈ es := by
  induction es with
  | nil => simp [lookup] at h
  | cons e es ih =>
    obtain ⟨k', v'⟩ := e
    simp only [lookup] at h
    split at h
    · next heq => simp_all
    · exact List.mem_cons_of_mem _ (ih h)

theorem lookup_of_mem {k : String} {v : β} {es : List (String × β)}
    (ho : es.Pairwise fun a b ↦ a.1 < b.1) (h : (k, v) ∈ es) : lookup k es = some v := by
  induction es with
  | nil => simp at h
  | cons e es ih =>
    obtain ⟨k', v'⟩ := e
    rw [List.pairwise_cons] at ho
    rcases List.mem_cons.1 h with heq | hmem
    · cases heq
      simp [lookup]
    · have hlt : k' < k := ho.1 _ hmem
      have hne : k ≠ k' := fun heq ↦ String.lt_irrefl k (heq ▸ hlt)
      simp [lookup, hne, ih ho.2 hmem]

/-! ### Maps -/

/-- The map with no entries. -/
def empty : Dict β := ⟨[], List.Pairwise.nil⟩

instance : EmptyCollection (Dict β) := ⟨empty⟩

instance : Inhabited (Dict β) := ⟨empty⟩

/-- The value at `k`, if there is one. -/
def get? (d : Dict β) (k : String) : Option β := lookup k d.entries

/-- Whether `k` has a value. -/
def contains (d : Dict β) (k : String) : Bool := (d.get? k).isSome

/-- Set the value at `k` to `v`. -/
def insert (d : Dict β) (k : String) (v : β) : Dict β :=
  ⟨place k v d.entries, ordered_place d.ordered⟩

/-- Drop the value at `k`. -/
def erase (d : Dict β) (k : String) : Dict β :=
  ⟨d.entries.filter fun e ↦ e.1 ≠ k, d.ordered.filter _⟩

/-- Keep the entries that satisfy `p`. -/
def filter (d : Dict β) (p : String → β → Bool) : Dict β :=
  ⟨d.entries.filter fun e ↦ p e.1 e.2, d.ordered.filter _⟩

/-- Replace the value at `k`, if there is one, by its image under `f`. -/
def modify (d : Dict β) (k : String) (f : β → β) : Dict β :=
  match d.get? k with
  | none => d
  | some v => d.insert k (f v)

/-- The keys in increasing order. -/
def keys (d : Dict β) : List String := d.entries.map (·.1)

/-- The values in the order of their keys. -/
def values (d : Dict β) : List β := d.entries.map (·.2)

/-- How many keys have a value. -/
def size (d : Dict β) : Nat := d.entries.length

/-- Whether no key has a value. -/
def isEmpty (d : Dict β) : Bool := d.entries.isEmpty

/-- The map with the given entries; of two entries with one key the later one counts. -/
def ofList (es : List (String × β)) : Dict β := es.foldl (fun d e ↦ d.insert e.1 e.2) ∅

theorem entries_foldl_insert (d : Dict β) (es : List (String × β)) :
    (es.foldl (fun d e ↦ d.insert e.1 e.2) d).entries =
      es.foldl (fun es e ↦ place e.1 e.2 es) d.entries := by
  induction es generalizing d with
  | nil => rfl
  | cons e es ih => exact ih (d.insert e.1 e.2)

/-- A map is the map of its entries. -/
theorem ofList_entries (d : Dict β) : ofList d.entries = d := by
  have hentries : (ofList d.entries).entries = d.entries := by
    rw [ofList, entries_foldl_insert]
    exact foldl_place d.ordered
  obtain ⟨es, ho⟩ := d
  generalize ofList es = d' at hentries ⊢
  obtain ⟨es', ho'⟩ := d'
  cases hentries
  rfl

@[simp] theorem get?_empty (k : String) : (∅ : Dict β).get? k = none := rfl

theorem get?_insert (d : Dict β) (k j : String) (v : β) :
    (d.insert k v).get? j = if j = k then some v else d.get? j :=
  lookup_place k j v d.entries

theorem get?_erase (d : Dict β) (k j : String) :
    (d.erase k).get? j = if j = k then none else d.get? j :=
  lookup_filter_ne k j d.entries

theorem get?_eq_some_iff {d : Dict β} {k : String} {v : β} :
    d.get? k = some v ↔ (k, v) ∈ d.entries :=
  ⟨mem_of_lookup, lookup_of_mem d.ordered⟩

theorem get?_filter (d : Dict β) (p : String → β → Bool) (k : String) :
    (d.filter p).get? k = (d.get? k).filter (p k) := by
  apply Option.ext
  intro v
  rw [get?_eq_some_iff, Option.filter_eq_some_iff, get?_eq_some_iff]
  simp [filter]

/-- Two maps with the same look-ups are equal. -/
theorem ext_get? {a b : Dict β} (h : ∀ k, a.get? k = b.get? k) : a = b := by
  obtain ⟨as, ha⟩ := a
  obtain ⟨bs, hb⟩ := b
  have hmem : ∀ e, e ∈ as ↔ e ∈ bs := by
    intro ⟨k, v⟩
    have hk : lookup k as = lookup k bs := h k
    constructor
    · intro he
      exact mem_of_lookup (hk ▸ lookup_of_mem ha he)
    · intro he
      exact mem_of_lookup (hk.symm ▸ lookup_of_mem hb he)
  have heq : as = bs := by
    clear h
    induction as generalizing bs with
    | nil =>
      cases bs with
      | nil => rfl
      | cons e bs => exact absurd ((hmem e).2 List.mem_cons_self) List.not_mem_nil
    | cons a as ih =>
      cases bs with
      | nil => exact absurd ((hmem a).1 List.mem_cons_self) List.not_mem_nil
      | cons b bs =>
        rw [List.pairwise_cons] at ha hb
        have hab : a = b := by
          rcases List.mem_cons.1 ((hmem a).1 List.mem_cons_self) with h1 | h1
          · exact h1
          rcases List.mem_cons.1 ((hmem b).2 List.mem_cons_self) with h2 | h2
          · exact h2.symm
          exact absurd (hb.1 a h1) (String.lt_asymm (ha.1 b h2))
        subst hab
        congr 1
        refine ih ha.2 bs hb.2 fun e ↦ ⟨fun he ↦ ?_, fun he ↦ ?_⟩
        · rcases List.mem_cons.1 ((hmem e).1 (List.mem_cons_of_mem _ he)) with h1 | h1
          · exact absurd (h1 ▸ ha.1 e he) (String.lt_irrefl _)
          · exact h1
        · rcases List.mem_cons.1 ((hmem e).2 (List.mem_cons_of_mem _ he)) with h1 | h1
          · exact absurd (h1 ▸ hb.1 e he) (String.lt_irrefl _)
          · exact h1
  subst heq
  rfl

end Dict

/-! ### Sets of names -/

/-- A finite set of names. -/
abbrev Names := Dict Unit

namespace Names

/-- Add `x` to the set. -/
def add (s : Names) (x : String) : Names := s.insert x ()

/-- The members in increasing order. -/
def toList (s : Names) : List String := s.keys

instance : Membership String Names := ⟨fun s x ↦ s.contains x = true⟩

instance (x : String) (s : Names) : Decidable (x ∈ s) :=
  inferInstanceAs (Decidable (s.contains x = true))

theorem mem_toList {s : Names} {x : String} : x ∈ s.toList ↔ x ∈ s := by
  change x ∈ s.entries.map (·.1) ↔ (s.get? x).isSome = true
  rw [List.mem_map, Option.isSome_iff_exists]
  constructor
  · rintro ⟨⟨a, u⟩, hmem, rfl⟩
    exact ⟨u, Dict.get?_eq_some_iff.2 hmem⟩
  · rintro ⟨u, hu⟩
    exact ⟨(x, u), Dict.get?_eq_some_iff.1 hu, rfl⟩

theorem not_mem_empty {x : String} : ¬ x ∈ (∅ : Names) := by
  change ¬ ((∅ : Names).get? x).isSome = true
  simp

theorem mem_add {s : Names} {x y : String} : y ∈ s.add x ↔ y = x ∨ y ∈ s := by
  change ((s.insert x ()).get? y).isSome = true ↔ y = x ∨ (s.get? y).isSome = true
  rw [Dict.get?_insert]
  by_cases h : y = x <;> simp [h]

theorem mem_erase {s : Names} {x y : String} : y ∈ (s.erase x : Names) ↔ y ≠ x ∧ y ∈ s := by
  change ((Dict.erase s x).get? y).isSome = true ↔ y ≠ x ∧ (s.get? y).isSome = true
  rw [Dict.get?_erase]
  by_cases h : y = x <;> simp [h]

end Names

end LeaseLock
