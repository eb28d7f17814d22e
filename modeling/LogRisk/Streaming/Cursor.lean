import LogRisk.Library.Json
import Mathlib.Data.Finmap
import Mathlib.Data.Prod.Lex
import Mathlib.Data.Finset.Sort

/-!
# Source cursors

A cursor is a kind together with a value.  A file cursor holds a byte offset and
the next line number; a Kafka cursor holds the next offset of every partition it
has seen and the end offsets locked when reading began.  Older Kafka cursors name
a single partition and its offset.
-/

namespace LogRisk.Streaming

open LogRisk.Library

/-- Offsets under the texts of their partition numbers. -/
abbrev OffsetMap := Finmap fun _ : String => ℤ

namespace OffsetMap

/-- `values[key]`, for a key that is present. -/
def offset (m : OffsetMap) (key : String) : ℤ := (m.lookup key).getD 0

/-- Every key of `current` is in `incoming`, with an offset at least as high. -/
def Covers (incoming current : OffsetMap) : Prop :=
  ∀ key ∈ current.keys, key ∈ incoming ∧ current.offset key ≤ incoming.offset key

instance (incoming current : OffsetMap) : Decidable (Covers incoming current) :=
  inferInstanceAs (Decidable (∀ key ∈ current.keys, _))

theorem Covers.refl (m : OffsetMap) : m.Covers m := fun _ hkey =>
  ⟨Finmap.mem_keys.mp hkey, le_refl _⟩

theorem Covers.trans {a b c : OffsetMap} (hab : a.Covers b) (hbc : b.Covers c) : a.Covers c := by
  intro key hkey
  obtain ⟨hb, hle⟩ := hbc key hkey
  obtain ⟨ha, hle'⟩ := hab key (Finmap.mem_keys.mpr hb)
  exact ⟨ha, hle.trans hle'⟩

def toJson (m : OffsetMap) : Json :=
  .obj ((m.keys.sort (· ≤ ·)).map fun key => (key, .num (m.offset key)))

end OffsetMap

structure CursorValue where
  offset : Option ℤ := none
  line : Option ℤ := none
  partition : Option String := none
  partitions : Option OffsetMap := none
  highWater : Option OffsetMap := none
  bootstrapFingerprint : Option String := none
deriving DecidableEq

structure SourceCursor where
  kind : String
  value : CursorValue
deriving DecidableEq

namespace SourceCursor

def empty : SourceCursor := ⟨"", {}⟩

/-- `int(value.get("offset") or 0)`. -/
def offset (c : SourceCursor) : ℤ := c.value.offset.getD 0

/-- `int(value.get("line") or 0)`. -/
def line (c : SourceCursor) : ℤ := c.value.line.getD 0

def toJson (c : SourceCursor) : Json :=
  .obj [("kind", .str c.kind), ("value", .obj (
    (c.value.offset.map fun n => ("offset", Json.num n)).toList ++
    (c.value.line.map fun n => ("line", Json.num n)).toList ++
    (c.value.partition.map fun s => ("partition", Json.str s)).toList ++
    (c.value.partitions.map fun m => ("partitions", m.toJson)).toList ++
    (c.value.highWater.map fun m => ("high_water", m.toJson)).toList ++
    (c.value.bootstrapFingerprint.map fun s => ("bootstrap_fingerprint", Json.str s)).toList))]

end SourceCursor

/-- The cursor of a file source. -/
def fileCursor (offset line : ℤ) : SourceCursor where
  kind := "file"
  value := { offset := some offset, line := some line }

/-- The next offset of every partition the cursor knows. -/
def cursorOffsets (cursor : SourceCursor) : OffsetMap :=
  match cursor.value.partitions with
  | some offsets => offsets
  | none =>
      match cursor.value.partition, cursor.value.offset with
      | some partition, some offset => Finmap.singleton partition offset
      | _, _ => ∅

/-- The comparison the store makes before a commit: the stored cursor is
`current`, the one of the new batch is `incoming`. -/
def cursorIsAtLeast (incoming current : SourceCursor) : Bool :=
  if current.kind = "" ∨ incoming.kind ≠ current.kind then decide (current.kind = "")
  else if incoming.kind = "file" then
    decide (toLex (current.offset, current.line) ≤ toLex (incoming.offset, incoming.line))
  else if incoming.kind = "kafka" then
    match incoming.value.highWater, current.value.highWater with
    | some incomingValues, some currentValues => decide (incomingValues.Covers currentValues)
    | _, _ =>
        match incoming.value.partition, current.value.partition with
        | some p, some q =>
            if p = q then decide (current.offset ≤ incoming.offset)
            else decide (incoming = current)
        | _, _ => decide (incoming = current)
  else decide (incoming = current)

/-- Looking up a partition that the candidate does not have. -/
inductive CursorError where
  | missingPartition
deriving DecidableEq

/-- `true` when the candidate falls behind on one of the offset maps.  Where one
partition is missing and another one is behind, the source stops at whichever it
meets first; here the one behind is met first. -/
def mapFallsBehind (candidate current : OffsetMap) : Except CursorError Bool :=
  if candidate.keys ⊂ current.keys then .ok true
  else if ∃ key ∈ current.keys, key ∈ candidate ∧ candidate.offset key < current.offset key then
    .ok true
  else if current.keys ⊆ candidate.keys then .ok false
  else .error .missingPartition

/-- One round of the loop over the `partitions` and `high_water` fields. -/
def fieldFallsBehind (candidate current : Option OffsetMap) : Except CursorError Bool :=
  match current with
  | none => .ok false
  | some currentMap =>
      match candidate with
      | none => .ok true
      | some candidateMap => mapFallsBehind candidateMap currentMap

/-- The check on cursors that name a single partition. -/
def offsetFallsBehind (candidate current : SourceCursor) : Bool :=
  current.value.offset.isSome && candidate.value.offset.isSome &&
    (decide (candidate.value.partition ≠ current.value.partition) ||
      decide (candidate.offset < current.offset))

def kafkaFallsBehind (candidate current : SourceCursor) : Except CursorError Bool := do
  let behind ← fieldFallsBehind candidate.value.partitions current.value.partitions
  if behind then .ok true
  else
    let behind ← fieldFallsBehind candidate.value.highWater current.value.highWater
    .ok (behind || offsetFallsBehind candidate current)

/-- The comparison the pipeline makes: keep the candidate, or the current cursor
where the candidate would move it backwards. -/
def cursorAtLeast (candidate current : SourceCursor) : Except CursorError SourceCursor :=
  if current.kind = "" then .ok candidate
  else if candidate.kind ≠ current.kind then .ok current
  else if candidate.kind = "file" then
    .ok (if toLex (current.offset, current.line) ≤ toLex (candidate.offset, candidate.line)
      then candidate else current)
  else if candidate.kind = "kafka" then do
    let behind ← kafkaFallsBehind candidate current
    .ok (if behind then current else candidate)
  else .ok candidate

end LogRisk.Streaming
