import LeaseLock.Config
import LeaseLock.Lease
import LeaseLock.Proofs.Json.Records

/-!
# Reading back what is stored and answered

Leases, the status of a lock, the outcome of a renewal, reports of deadlocks and configurations are
read back from their own texts (`Json.decode_encode_records`). What that takes is what their types
do not say: numbers are words, and metadata hold no doubles, keep their objects in order and do not
nest deeper than a text may.

All optional members of a status may be set or not, in every combination, and metadata that are
empty are not confused with metadata that are unset.

## Why each condition is there

A number of a record is a natural number here and a word where it is kept, so a number past the
words has a text that nobody reads. A text holds a double only to some digits. An object is read
into a map, which is sorted by its keys and has each of them once. And a reader gives up on a text
that nests too deeply, before it can run out of stack.

A record is read back when the parts of its fields are (`Fields.Restores`), so for each type there
is one theorem that goes through its fields in the order in which they are declared.
-/

namespace LeaseLock

open Json

/-! ### Values with a text -/

/-- The values of the metadata are plain, and their objects are in order. -/
def Metadata.Encodable (m : Metadata) : Prop :=
  ∀ e ∈ m.entries, e.2.Plain ∧ e.2.Canonical

/-- The numbers of the lease are words, and its metadata can be encoded. -/
structure Lease.Encodable (l : Lease) : Prop where
  /-- When it was granted. -/
  acquiredAt : l.acquiredAt < wordBound
  /-- When it ends. -/
  expiresAt : l.expiresAt < wordBound
  /-- How often it has been renewed. -/
  renewals : l.renewals < wordBound
  /-- What the client attached. -/
  metadata : Metadata.Encodable l.metadata
  /-- The text does not nest too deep. -/
  nesting : (record.write l).nesting ≤ maxNesting

/-- The numbers of the status that are set are words, and its metadata can be encoded. -/
structure LockStatus.Encodable (s : LockStatus) : Prop where
  /-- When the lease ends. -/
  expiresAt : ∀ n, s.expiresAt = some n → n < wordBound
  /-- The milliseconds left. -/
  ttl : ∀ n, s.ttl = some n → n < wordBound
  /-- When the lock was granted. -/
  acquiredAt : ∀ n, s.acquiredAt = some n → n < wordBound
  /-- How often the lease has been renewed. -/
  renewals : ∀ n, s.renewals = some n → n < wordBound
  /-- What the client attached. -/
  metadata : ∀ m, s.metadata = some m → m.Encodable
  /-- The text does not nest too deep. -/
  nesting : (record.write s).nesting ≤ maxNesting

/-- The numbers of the outcome are words. -/
structure Renewal.Encodable (r : Renewal) : Prop where
  /-- When the lease ends. -/
  expiresAt : r.expiresAt < wordBound
  /-- How often it has been renewed. -/
  renewals : r.renewals < wordBound

/-- The numbers of the configuration are words. -/
structure Config.Encodable (c : Config) : Prop where
  /-- The default length of a lease. -/
  defaultTimeout : c.defaultTimeout < wordBound
  /-- The longest lease. -/
  maxTimeout : c.maxTimeout < wordBound
  /-- The period of upkeep. -/
  renewalInterval : c.renewalInterval < wordBound
  /-- The period of the deadlock detector. -/
  detectionInterval : c.detectionInterval < wordBound
  /-- The sleep between two tries. -/
  pollInterval : c.pollInterval < wordBound

/-! ### Reading them back -/

/-- Metadata inside a record that does not nest too deep are carried. -/
theorem Metadata.Encodable.carries {m : Metadata} (h : m.Encodable)
    (hdepth : (Json.object m.entries).nesting < maxNesting) :
    (Field.metadata "metadata").Carries m (.object m.entries) :=
  Field.carries_metadata "metadata" (fun e he ↦ (h e he).1) (fun e he ↦ (h e he).2) hdepth

/-- A lease is read back field by field. -/
theorem Lease.Encodable.restores {l : Lease} (h : l.Encodable) :
    record.fields.Restores (record.parts l) := by
  have hmember :
      ("metadata", .object l.metadata.entries) ∈ record.fields.members (record.parts l) := by
    iterate 7 refine Fields.mem_members_of_mem ?_ _ _
    exact Fields.mem_members_of_write rfl _ _
  have hdepth : (Json.object l.metadata.entries).nesting < maxNesting :=
    Nat.lt_of_lt_of_le (Record.nesting_lt_of_mem_members hmember) h.nesting
  exact .cons (Field.carries_text _ _).restores <|
    .cons (Field.carries_text _ _).restores <|
    .cons (Field.carries_text _ _).restores <|
    .cons (Field.carries_word _ h.acquiredAt).restores <|
    .cons (Field.carries_word _ h.expiresAt).restores <|
    .cons (Field.carries_truth _ _).restores <|
    .cons (Field.carries_word _ h.renewals).restores <|
    .cons ((h.metadata.carries hdepth).orElse ∅) .nil

/-- The status of a lock is read back, whichever of its members are set. -/
theorem LockStatus.Encodable.restores {s : LockStatus} (h : s.Encodable) :
    record.fields.Restores (record.parts s) := by
  have hdepth (m : Metadata) (hm : s.metadata = some m) :
      (Json.object m.entries).nesting < maxNesting := by
    have hmember : ("metadata", .object m.entries) ∈ record.fields.members (record.parts s) := by
      iterate 9 refine Fields.mem_members_of_mem ?_ _ _
      exact Fields.mem_members_of_write (by rw [hm]; rfl) _ _
    exact Nat.lt_of_lt_of_le (Record.nesting_lt_of_mem_members hmember) h.nesting
  exact .cons (Field.carries_text _ _).restores <|
    .cons (Field.carries_truth _ _).restores <|
    .cons (Field.restores_optional fun a _ ↦ ⟨_, Field.carries_text _ a⟩) <|
    .cons (Field.restores_optional fun a _ ↦ ⟨_, Field.carries_text _ a⟩) <|
    .cons (Field.restores_optional fun n hn ↦ ⟨_, Field.carries_word _ (h.expiresAt n hn)⟩) <|
    .cons (Field.restores_optional fun n hn ↦ ⟨_, Field.carries_word _ (h.ttl n hn)⟩) <|
    .cons (Field.restores_optional fun n hn ↦ ⟨_, Field.carries_word _ (h.acquiredAt n hn)⟩) <|
    .cons (Field.restores_optional fun b _ ↦ ⟨_, Field.carries_truth _ b⟩) <|
    .cons (Field.restores_optional fun n hn ↦ ⟨_, Field.carries_word _ (h.renewals n hn)⟩) <|
    .cons (Field.restores_optional fun m hm ↦ ⟨_, (h.metadata m hm).carries (hdepth m hm)⟩) .nil

/-- The outcome of a renewal is read back. -/
theorem Renewal.Encodable.restores {r : Renewal} (h : r.Encodable) :
    record.fields.Restores (record.parts r) :=
  .cons (Field.carries_word _ h.expiresAt).restores <|
  .cons (Field.carries_word _ h.renewals).restores .nil

/-- A report is read back whatever its cycles are, since those are made of texts. -/
theorem DeadlockReport.restores {r : DeadlockReport} (h : r.detectedAt < wordBound) :
    record.fields.Restores (record.parts r) :=
  .cons (Field.carries_texts _ _).restores <|
  .cons (Field.carries_texts _ _).restores <|
  .cons (Field.carries_word _ h).restores .nil

/-- A configuration is read back, durations and all. -/
theorem Config.Encodable.restores {c : Config} (h : c.Encodable) :
    record.fields.Restores (record.parts c) :=
  .cons ((Field.carries_word _ h.defaultTimeout).orElse 30) <|
  .cons ((Field.carries_word _ h.maxTimeout).orElse 300) <|
  .cons ((Field.carries_word _ h.renewalInterval).orElse 5) <|
  .cons ((Field.carries_word _ h.detectionInterval).orElse 10) <|
  .cons ((Field.carries_word _ h.pollInterval).orElse 100) <|
  .cons ((Field.carries_truth _ _).orElse true) .nil

/-- **What is stored and answered is read back from its text.** -/
theorem Json.decode_encode_records :
    (∀ l : Lease, l.Encodable → Lease.record.decode (Lease.record.encode l) = .ok l) ∧
      (∀ s : LockStatus, s.Encodable →
        LockStatus.record.decode (LockStatus.record.encode s) = .ok s) ∧
      (∀ r : Renewal, r.Encodable → Renewal.record.decode (Renewal.record.encode r) = .ok r) ∧
      (∀ r : DeadlockReport, r.detectedAt < wordBound →
        DeadlockReport.record.decode (DeadlockReport.record.encode r) = .ok r) ∧
      ∀ c : Config, c.Encodable → Config.record.decode (Config.record.encode c) = .ok c :=
  ⟨fun _ h ↦ Record.decode_encode rfl (by decide) h.restores,
    fun _ h ↦ Record.decode_encode rfl (by decide) h.restores,
    fun _ h ↦ Record.decode_encode rfl (by decide) h.restores,
    fun _ h ↦ Record.decode_encode rfl (by decide) (DeadlockReport.restores h),
    fun _ h ↦ Record.decode_encode rfl (by decide) h.restores⟩

/-- Metadata with the least and the greatest number, an empty object in an object, and texts that
need escapes. -/
def Metadata.sampled : Metadata where
  entries :=
    [("", .array [.null, .bool true, .number (.whole (-9223372036854775808)),
      .number (.whole 18446744073709551615)]),
     ("\u0001\"\\é😀", .object [("a", .object []), ("b", .text "\t\u0007/")])]
  ordered := by decide

/-- The sample meets what is asked of metadata. -/
theorem Metadata.encodable_sampled : sampled.Encodable := by
  refine List.forall_mem_cons.2 ⟨⟨.array ?_, ?_⟩, List.forall_mem_singleton.2 ⟨.object ?_, ?_⟩⟩
  · simp only [List.forall_mem_cons]
    exact ⟨.null, .bool true, .number (by decide), .number (by decide), List.forall_mem_nil _⟩
  · exact canonicalItems_iff.2 (by simp [Canonical])
  · simp only [List.forall_mem_cons]
    exact ⟨.object (List.forall_mem_nil _), .text _, List.forall_mem_nil _⟩
  · exact ⟨by decide, canonicalMembers_iff.2 (by simp [Canonical, CanonicalMembers])⟩

/-- A lease with metadata, a status with empty metadata and most members unset, and the other
values with the greatest number. -/
theorem Json.decode_encode_records_sampled :
    let lease : Lease := ⟨"L", "a", "c", 0, 18446744073709551615, true, 7, .sampled⟩
    let status : LockStatus := { lock := "L", held := true, lease := some "a", metadata := some ∅ }
    let renewal : Renewal := ⟨18446744073709551615, 1⟩
    let report : DeadlockReport := ⟨["a", "b"], ["L", "K"], 18446744073709551615⟩
    let config : Config := { maxTimeout := 18446744073709551615 }
    (lease.Encodable ∧ Lease.record.decode (Lease.record.encode lease) = .ok lease) ∧
      (status.Encodable ∧ LockStatus.record.decode (LockStatus.record.encode status) = .ok status) ∧
      (renewal.Encodable ∧ Renewal.record.decode (Renewal.record.encode renewal) = .ok renewal) ∧
      (report.detectedAt < wordBound ∧
        DeadlockReport.record.decode (DeadlockReport.record.encode report) = .ok report) ∧
      config.Encodable ∧ Config.record.decode (Config.record.encode config) = .ok config := by
  intro lease status renewal report config
  obtain ⟨hlease, hstatus, hrenewal, hreport, hconfig⟩ := decode_encode_records
  have hl : lease.Encodable :=
    ⟨by decide, by decide, by decide, Metadata.encodable_sampled, by decide⟩
  have hs : status.Encodable := by
    refine ⟨nofun, nofun, nofun, nofun, fun m hm ↦ ?_, by decide⟩
    cases hm
    exact List.forall_mem_nil _
  have hr : renewal.Encodable := ⟨by decide, by decide⟩
  have hd : report.detectedAt < wordBound := by decide
  have hc : config.Encodable := ⟨by decide, by decide, by decide, by decide, by decide⟩
  exact ⟨⟨hl, hlease _ hl⟩, ⟨hs, hstatus _ hs⟩, ⟨hr, hrenewal _ hr⟩, ⟨hd, hreport _ hd⟩,
    hc, hconfig _ hc⟩

end LeaseLock
