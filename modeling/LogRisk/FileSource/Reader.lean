import LogRisk.Library.Lines
import LogRisk.Library.Text
import LogRisk.Library.Utf8
import LogRisk.Streaming.Cursor

/-!
# Reading a log file from a cursor

The reader seeks to a byte offset, cuts what follows into lines, drops blank ones
and makes a record of every other one: the text of the line, or the JSON value it
holds.  A record carries the line number it has, or takes it from its position;
the cursor behind it holds the byte offset of the next line and the number after
its own.
-/

namespace LogRisk.FileSource

open LogRisk.Library LogRisk.Streaming

/-! ## Records -/

/-- A value of a record: an integer or a text the reader put there, or a value of
the JSON text. -/
inductive Field (ν : Type) where
  | int (n : ℤ)
  | str (s : String)
  | value (v : ν)
deriving DecidableEq

/-- What `json.loads` returns, as far as the reader looks into it. -/
inductive Loaded (ν : Type) where
  | dict (fields : List (String × ν))
  | str (s : String)
  | other (v : ν)

/-- The JSON module and the built-ins that are applied to its values. -/
structure JsonModule (ν : Type) where
  /-- `none` stands for a `JSONDecodeError`. -/
  loads : String → Option (Loaded ν)
  dumps : ν → String
  truthy : ν → Bool
  /-- `int(value)`; `none` where it raises. -/
  toInt : ν → Option ℤ

abbrev LogRecord (ν : Type) := List (String × Field ν)

variable {ν : Type}

/-- `record.get(key)`. -/
def getField (key : String) : LogRecord ν → Option (Field ν)
  | [] => none
  | (k, v) :: rest => if k = key then some v else getField key rest

inductive Format where
  | plain
  | jsonl
deriving DecidableEq

structure FileOptions (ν : Type) where
  json : JsonModule ν
  format : Format
  maxLineBytes : Option ℕ := none
  maxDecompressedBytes : Option ℕ := none

inductive FileError where
  | source (message : String)
  | lineTooLarge (limit actual lineNo : ℕ)
  | decompressedSizeExceeded (limit actual lineNo : ℕ)
  /-- `int()` of a line number the record carries. -/
  | lineNumber
deriving DecidableEq

/-! ## Lines -/

def isNewline (b : UInt8) : Bool := b == 10

def splitLines (content : List UInt8) : List (List UInt8) := Lines.split isNewline content

/-- The decoded line without its terminator. -/
def lineText (raw : List UInt8) : List Char := (Utf8.decode raw).rdropWhile fun c => c == '\n'

/-- `_coerce_record`. -/
def coerceRecord (json : JsonModule ν) (item : Loaded ν) (lineNo : ℕ) : LogRecord ν :=
  match item with
  | .dict fields =>
      let record := fields.map fun f => (f.1, Field.value f.2)
      if "_line_no" ∈ record.map Prod.fst then record
      else record ++ [("_line_no", .int lineNo)]
  | .str s => [("message", .str s), ("_line_no", .int lineNo)]
  | .other v => [("message", .str (json.dumps v)), ("_line_no", .int lineNo)]

/-- The record of a line, `none` where the line is blank. -/
def lineRecord (options : FileOptions ν) (lineNo : ℕ) (raw : List UInt8) : Option (LogRecord ν) :=
  let line := lineText raw
  if Text.stripChars line = [] then none
  else
    let message := String.ofList line
    match options.format with
    | .plain => some [("message", .str message), ("_line_no", .int lineNo)]
    | .jsonl =>
        match options.json.loads message with
        | some item => some (coerceRecord options.json item lineNo)
        | none =>
            some [("message", .str message), ("_line_no", .int lineNo),
              ("_parse_error", .str "jsonl_decode_failed")]

/-! ## The source -/

structure SourceRecord (ν : Type) where
  record : LogRecord ν
  nextCursor : SourceCursor
  /-- The position under which ingestion accounts for the record. -/
  lineNo : ℤ

/-- Payload and line number. -/
def SourceRecord.content (r : SourceRecord ν) : LogRecord ν × ℤ := (r.record, r.lineNo)

/-- `record.pop("_byte_offset_end")`: the reader's offset has overwritten a field
of this name. -/
def popOffset (record : LogRecord ν) : LogRecord ν :=
  record.filter fun f => decide (f.1 ≠ "_byte_offset_end")

/-- `int(record.get("_line_no") or line)`; `line` is where this read started. -/
def recordLine (json : JsonModule ν) (line : ℕ) (record : LogRecord ν) : Except FileError ℤ :=
  match getField "_line_no" record with
  | some (.int n) => .ok (if n = 0 then line else n)
  | some (.value v) =>
      if json.truthy v then
        match json.toInt v with
        | some n => .ok n
        | none => .error .lineNumber
      else .ok line
  | some (.str _) => .error .lineNumber
  | none => .ok line

/-- The records a generator yields, and the error it ends with, if any. -/
structure Stream (ν : Type) where
  records : List (SourceRecord ν)
  error : Option FileError

def Stream.fail (e : FileError) : Stream ν := ⟨[], some e⟩

def Stream.cons (r : SourceRecord ν) (s : Stream ν) : Stream ν := ⟨r :: s.records, s.error⟩

/-- The limits checked before a line is decoded. -/
def checkLimits (options : FileOptions ν) (lineNo bytesRead : ℕ) (raw : List UInt8) :
    Except FileError Unit :=
  match options.maxLineBytes, options.maxDecompressedBytes with
  | lineLimit, totalLimit =>
      if ∃ limit ∈ lineLimit, limit < raw.length then
        .error (.lineTooLarge (lineLimit.getD 0) raw.length lineNo)
      else if ∃ limit ∈ totalLimit, limit < bytesRead + raw.length then
        .error (.decompressedSizeExceeded (totalLimit.getD 0) (bytesRead + raw.length) lineNo)
      else .ok ()

/-- What the source makes of a line: nothing, or a payload with its line number. -/
def lineOutput (options : FileOptions ν) (line lineNo : ℕ) (raw : List UInt8) :
    Except FileError (Option (LogRecord ν × ℤ)) :=
  match lineRecord options lineNo raw with
  | none => .ok none
  | some record => do
      let number ← recordLine options.json line (popOffset record)
      .ok (some (popOffset record, number))

/-- The loop over the lines, from line `lineNo` at byte `offset` on. -/
def readLines (options : FileOptions ν) (line : ℕ) :
    (lineNo bytesRead offset : ℕ) → List (List UInt8) → Stream ν
  | _, _, _, [] => ⟨[], none⟩
  | lineNo, bytesRead, offset, raw :: rest =>
      match checkLimits options lineNo bytesRead raw with
      | .error e => .fail e
      | .ok () =>
          let next := readLines options line (lineNo + 1) (bytesRead + raw.length)
            (offset + raw.length) rest
          match lineOutput options line lineNo raw with
          | .error e => .fail e
          | .ok none => next
          | .ok (some (record, number)) =>
              next.cons ⟨record, fileCursor (offset + raw.length : ℕ) (number + 1), number⟩

/-- `int(cursor.value.get("line") or 1)`. -/
def startLine (cursor : SourceCursor) : ℤ := if cursor.line = 0 then 1 else cursor.line

/-- `FileIncrementalSource.read` on a file with this content. -/
def read (options : FileOptions ν) (content : List UInt8) (cursor : SourceCursor) : Stream ν :=
  if cursor.kind ≠ "" ∧ cursor.kind ≠ "file" then
    .fail (.source "文件来源不能使用其他来源的 Checkpoint")
  else if cursor.offset < 0 then .fail (.source "起始字节 Offset 不能小于 0")
  else if startLine cursor < 1 then .fail (.source "起始行号必须大于 0")
  else
    readLines options (startLine cursor).toNat (startLine cursor).toNat 0 cursor.offset.toNat
      (splitLines (content.drop cursor.offset.toNat))

end LogRisk.FileSource
