import AppSuite.Data.ExceptFold
import AppSuite.Data.SortedMap
import AppSuite.ClawCode.Permissions

/-!
This module contains the JSON of the session files: its values, how they are printed, and the
parser.
-/

namespace ClawCode

inductive JsonValue where
  | null
  | bool (value : Bool)
  | number (value : Int64)
  | string (value : Str)
  | array (values : List JsonValue)
  | object (entries : List (Str × JsonValue))

abbrev JsonObject := List (Str × JsonValue)

-- The loops of the parser have bounds; that one of them is reached is an error of its own.
inductive JsonError where
  | new (message : Str)
  | exhausted
  deriving DecidableEq, Repr

namespace JsonValue

variable (value : JsonValue)

def asObject : Option JsonObject :=
  match value with
  | .object entries => some entries
  | _ => none

def asArray : Option (List JsonValue) :=
  match value with
  | .array values => some values
  | _ => none

def asStr : Option Str :=
  match value with
  | .string value => some value
  | _ => none

def asBool : Option Bool :=
  match value with
  | .bool value => some value
  | _ => none

def asI64 : Option Int64 :=
  match value with
  | .number value => some value
  | _ => none

@[simp]
theorem asObject_object (entries : JsonObject) : (object entries).asObject = some entries := rfl

@[simp]
theorem asArray_array (values : List JsonValue) : (array values).asArray = some values := rfl

@[simp]
theorem asStr_string (value : Str) : (string value).asStr = some value := rfl

@[simp]
theorem asBool_bool (value : Bool) : (bool value).asBool = some value := rfl

@[simp]
theorem asI64_number (value : Int64) : (number value).asI64 = some value := rfl

end JsonValue

section Render

def isControl (c : Char) : Bool := c.toNat < 0x20 || (0x7f ≤ c.toNat && c.toNat < 0xa0)

def pushUnicodeEscape (control : Char) : Str :=
  ['\\', 'u'] ++ [12, 8, 4, 0].map fun shift => Nat.digitChar (control.toNat >>> shift &&& 0xf)

def renderChar (ch : Char) : Str :=
  if ch = '"' then ['\\', '"']
  else if ch = '\\' then ['\\', '\\']
  else if ch = '\n' then ['\\', 'n']
  else if ch = '\r' then ['\\', 'r']
  else if ch = '\t' then ['\\', 't']
  else if ch = '\x08' then ['\\', 'b']
  else if ch = '\x0c' then ['\\', 'f']
  else if isControl ch then pushUnicodeEscape ch
  else [ch]

def renderString (value : Str) : Str := '"' :: value.flatMap renderChar ++ ['"']

def renderNumber (value : Int64) : Str :=
  (if value.toInt < 0 then ['-'] else []) ++ Nat.toDigits 10 value.toInt.natAbs

mutual

def JsonValue.render (value : JsonValue) : Str :=
  match value with
  | .null => "null".toList
  | .bool true => "true".toList
  | .bool false => "false".toList
  | .number value => renderNumber value
  | .string value => renderString value
  | .array values => '[' :: [','].intercalate (renderValues values) ++ [']']
  | .object entries => '\x7b' :: [','].intercalate (renderEntries entries) ++ ['\x7d']

def renderValues (values : List JsonValue) : List Str :=
  match values with
  | [] => []
  | value :: rest => value.render :: renderValues rest

def renderEntries (entries : List (Str × JsonValue)) : List Str :=
  match entries with
  | [] => []
  | (key, value) :: rest => (renderString key ++ ':' :: value.render) :: renderEntries rest

end

end Render

section Parse

def isJsonWhitespace (c : Char) : Bool := c = ' ' || c = '\n' || c = '\r' || c = '\t'

def skipWhitespace (chars : Str) : Str := chars.dropWhile isJsonWhitespace

def expect (expected : Char) (chars : Str) : Except JsonError Str :=
  match chars with
  | actual :: rest =>
    if actual = expected then
      .ok rest
    else
      .error (.new ("expected '".toList ++ [expected] ++ "', found '".toList ++ [actual] ++ ['\'']))
  | [] => .error (.new ("expected '".toList ++ [expected] ++ "', found end of input".toList))

def tryConsume (expected : Char) (chars : Str) : Option Str :=
  match chars with
  | c :: rest => if c = expected then some rest else none
  | [] => none

def parseLiteral (expected : Str) (value : JsonValue) (chars : Str) : Except JsonError (JsonValue × Str) :=
  if expected <+: chars then
    .ok (value, chars.drop expected.length)
  else
    .error (.new ("invalid literal: expected ".toList ++ expected))

-- `to_digit(16)`
def hexDigit? (c : Char) : Option Nat :=
  if '0' ≤ c ∧ c ≤ '9' then some (c.toNat - '0'.toNat)
  else if 'a' ≤ c ∧ c ≤ 'f' then some (c.toNat - 'a'.toNat + 10)
  else if 'A' ≤ c ∧ c ≤ 'F' then some (c.toNat - 'A'.toNat + 10)
  else none

def parseHexDigits (count value : Nat) (chars : Str) : Except JsonError (Nat × Str) :=
  match count with
  | 0 => .ok (value, chars)
  | count + 1 =>
    match chars with
    | [] => .error (.new "unexpected end of input in unicode escape".toList)
    | ch :: rest =>
      match hexDigit? ch with
      | some digit => parseHexDigits count (value <<< 4 ||| digit) rest
      | none => .error (.new "invalid unicode escape".toList)

def parseUnicodeEscape (chars : Str) : Except JsonError (Char × Str) := do
  let (value, rest) ← parseHexDigits 4 0 chars
  if value.isValidChar then
    .ok (Char.ofNat value, rest)
  else
    .error (.new "invalid unicode scalar value".toList)

def parseEscape (chars : Str) : Except JsonError (Char × Str) :=
  match chars with
  | '"' :: rest => .ok ('"', rest)
  | '\\' :: rest => .ok ('\\', rest)
  | '/' :: rest => .ok ('/', rest)
  | 'b' :: rest => .ok ('\x08', rest)
  | 'f' :: rest => .ok ('\x0c', rest)
  | 'n' :: rest => .ok ('\n', rest)
  | 'r' :: rest => .ok ('\r', rest)
  | 't' :: rest => .ok ('\t', rest)
  | 'u' :: rest => parseUnicodeEscape rest
  | other :: _ => .error (.new ("invalid escape sequence: ".toList ++ [other]))
  | [] => .error (.new "unexpected end of input in escape sequence".toList)

def parseStringTail (fuel : Nat) (chars value : Str) : Except JsonError (Str × Str) :=
  match fuel with
  | 0 => .error .exhausted
  | fuel + 1 =>
    match chars with
    | '"' :: rest => .ok (value, rest)
    | '\\' :: rest => do
      let (ch, rest) ← parseEscape rest
      parseStringTail fuel rest (value ++ [ch])
    | plain :: rest => parseStringTail fuel rest (value ++ [plain])
    | [] => .error (.new "unterminated string".toList)

def parseString (chars : Str) : Except JsonError (Str × Str) := do
  let chars ← expect '"' chars
  parseStringTail (chars.length + 1) chars []

def i64? (value : Int) : Option Int64 :=
  if Int64.minValue.toInt ≤ value ∧ value ≤ Int64.maxValue.toInt then some (.ofInt value) else none

theorem i64?_toInt (value : Int64) : i64? value.toInt = some value := by
  rw [i64?, if_pos ⟨value.minValue_le_toInt, value.toInt_le⟩, Int64.ofInt_toInt]

def parseNumber (chars : Str) : Except JsonError (Int64 × Str) :=
  let unsigned := (tryConsume '-' chars).getD chars
  let digits := unsigned.takeWhile (·.isDigit)
  let rest := unsigned.dropWhile (·.isDigit)
  let magnitude : Int := Nat.ofDigitChars 10 digits 0
  let value := if (tryConsume '-' chars).isSome then -magnitude else magnitude
  if digits = [] then
    .error (.new "invalid number".toList)
  else
    match i64? value with
    | some value => .ok (value, rest)
    | none => .error (.new "number out of range".toList)

def parseItems {α : Type} (close : Char) (parseItem : Str → Except JsonError (α × Str)) (fuel : Nat)
    (chars : Str) (items : List α) : Except JsonError (List α × Str) :=
  match fuel with
  | 0 => .error .exhausted
  | fuel + 1 =>
    let chars := skipWhitespace chars
    match tryConsume close chars with
    | some rest => .ok (items, rest)
    | none => do
      let (item, chars) ← parseItem chars
      let chars := skipWhitespace chars
      match tryConsume close chars with
      | some rest => .ok (items ++ [item], rest)
      | none =>
        let chars ← expect ',' chars
        parseItems close parseItem fuel chars (items ++ [item])

variable (parseValue : Str → Except JsonError (JsonValue × Str))

def parseArray (chars : Str) : Except JsonError (JsonValue × Str) := do
  let chars ← expect '[' chars
  let (values, rest) ← parseItems ']' parseValue (chars.length + 1) chars []
  .ok (.array values, rest)

def parseEntry (chars : Str) : Except JsonError ((Str × JsonValue) × Str) := do
  let (key, chars) ← parseString chars
  let chars ← expect ':' (skipWhitespace chars)
  let (value, chars) ← parseValue chars
  .ok ((key, value), chars)

def parseObject (chars : Str) : Except JsonError (JsonValue × Str) := do
  let chars ← expect '\x7b' chars
  let (entries, rest) ← parseItems '\x7d' (parseEntry parseValue) (chars.length + 1) chars []
  .ok (.object (SortedMap.ofList entries), rest)

end Parse

def parseValue (depth : Nat) (chars : Str) : Except JsonError (JsonValue × Str) :=
  match depth with
  | 0 => .error .exhausted
  | depth + 1 =>
    let chars := skipWhitespace chars
    match chars with
    | 'n' :: _ => parseLiteral "null".toList .null chars
    | 't' :: _ => parseLiteral "true".toList (.bool true) chars
    | 'f' :: _ => parseLiteral "false".toList (.bool false) chars
    | '"' :: _ => (parseString chars).map fun (value, rest) => (.string value, rest)
    | '[' :: _ => parseArray (parseValue depth) chars
    | '\x7b' :: _ => parseObject (parseValue depth) chars
    | other :: _ =>
      if other = '-' || other.isDigit then
        (parseNumber chars).map fun (value, rest) => (.number value, rest)
      else
        .error (.new ("unexpected character: ".toList ++ [other]))
    | [] => .error (.new "unexpected end of input".toList)

def JsonValue.parse (source : Str) : Except JsonError JsonValue := do
  let (value, rest) ← parseValue (source.length + 1) source
  if skipWhitespace rest = [] then
    .ok value
  else
    .error (.new "unexpected trailing content".toList)

end ClawCode
