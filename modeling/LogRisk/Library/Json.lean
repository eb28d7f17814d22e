import Mathlib.Data.List.Sort
import Mathlib.Data.String.Basic

/-!
# JSON values and their compact text

Values without floating-point numbers, written with the separators `,` and `:`
and no blanks.  `canonical` writes the members of every object in the order of
their keys, so that two objects with the same members have one text.
-/

namespace LogRisk.Library

inductive Json where
  | null
  | bool (b : Bool)
  | num (n : ℤ)
  | str (s : String)
  | arr (items : List Json)
  | obj (fields : List (String × Json))
deriving Inhabited

namespace Json

/-! ## Text -/

def hexDigit (n : ℕ) : Char :=
  if n < 10 then Char.ofNat (48 + n) else Char.ofNat (87 + n)

/-- One character of a string: quotes, backslashes and control characters are
escaped, everything else stands for itself. -/
def escapeChar (c : Char) : List Char :=
  if c = '"' then ['\\', '"']
  else if c = '\\' then ['\\', '\\']
  else if c = '\n' then ['\\', 'n']
  else if c = '\r' then ['\\', 'r']
  else if c = '\t' then ['\\', 't']
  else if c.toNat = 8 then ['\\', 'b']
  else if c.toNat = 12 then ['\\', 'f']
  else if c.toNat < 32 then
    ['\\', 'u', '0', '0', hexDigit (c.toNat / 16), hexDigit (c.toNat % 16)]
  else [c]

def escapeChars (cs : List Char) : List Char := cs.flatMap escapeChar

def strChars (s : String) : List Char := '"' :: escapeChars s.toList ++ ['"']

mutual

def chars : Json → List Char
  | null => "null".toList
  | bool true => "true".toList
  | bool false => "false".toList
  | num n => (toString n).toList
  | str s => strChars s
  | arr items => '[' :: itemsChars items ++ [']']
  | obj fields => '\x7b' :: fieldsChars fields ++ ['\x7d']

def itemsChars : List Json → List Char
  | [] => []
  | [item] => chars item
  | item :: next :: rest => chars item ++ ',' :: itemsChars (next :: rest)

def fieldsChars : List (String × Json) → List Char
  | [] => []
  | [(key, value)] => strChars key ++ ':' :: chars value
  | (key, value) :: next :: rest =>
      strChars key ++ ':' :: chars value ++ ',' :: fieldsChars (next :: rest)

end

/-- `json.dumps(value, ensure_ascii=False, separators=(",", ":"))`. -/
def dumps (j : Json) : String := String.ofList (chars j)

/-! ## Sorted members -/

/-- Put a member into members sorted by key. -/
def insertField (f : String × Json) : List (String × Json) → List (String × Json)
  | [] => [f]
  | g :: rest => if f.1 ≤ g.1 then f :: g :: rest else g :: insertField f rest

mutual

/-- The value with the members of every object in the order of their keys. -/
def sorted : Json → Json
  | null => null
  | bool b => bool b
  | num n => num n
  | str s => str s
  | arr items => arr (sortedItems items)
  | obj fields => obj (sortedFields fields)

def sortedItems : List Json → List Json
  | [] => []
  | item :: rest => sorted item :: sortedItems rest

def sortedFields : List (String × Json) → List (String × Json)
  | [] => []
  | (key, value) :: rest => insertField (key, sorted value) (sortedFields rest)

end

def canonicalChars (j : Json) : List Char := chars (sorted j)

/-- `json.dumps(value, ensure_ascii=False, separators=(",", ":"), sort_keys=True)`. -/
def canonical (j : Json) : String := String.ofList (canonicalChars j)

/-! ## Text of a list, item by item -/

/-- The text of a list as a writer puts it out: a comma before every item but
the first. -/
def streamChars (first : Bool) : List Json → List Char
  | [] => []
  | item :: rest =>
      (if first then [] else [',']) ++ canonicalChars item ++ streamChars false rest

theorem itemsChars_sortedItems (items : List Json) :
    itemsChars (sortedItems items) = streamChars true items := by
  induction items with
  | nil => rfl
  | cons item rest ih =>
      cases rest with
      | nil => simp [sortedItems, itemsChars, streamChars, canonicalChars]
      | cons next rest =>
          rw [sortedItems, sortedItems, itemsChars, ← sortedItems, ih]
          simp [streamChars, canonicalChars]

/-- The canonical text of a list is its streamed text in brackets. -/
theorem canonicalChars_arr (items : List Json) :
    canonicalChars (arr items) = '[' :: streamChars true items ++ [']'] := by
  rw [canonicalChars, sorted, chars, itemsChars_sortedItems]

/-! ## Reading -/

/-- The value of a key, `null` where the key is missing. -/
def field (key : String) : List (String × Json) → Json
  | [] => null
  | (k, v) :: rest => if k = key then v else field key rest

/-- `isinstance(value, int) and not isinstance(value, bool) and value >= 0`. -/
def nonnegativeInt? : Json → Option ℕ
  | num n => if 0 ≤ n then some n.toNat else none
  | _ => none

def isBool : Json → Bool
  | bool _ => true
  | _ => false

/-- `bool(value)`. -/
def truthy : Json → Bool
  | null => false
  | bool b => b
  | num n => n ≠ 0
  | str s => s ≠ ""
  | arr items => !items.isEmpty
  | obj fields => !fields.isEmpty

end Json

end LogRisk.Library
