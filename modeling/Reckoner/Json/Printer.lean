import Reckoner.Json.Number

/-!
# Writing JSON

Values are written on one line, or on many with two blanks of indentation for each level.
-/

namespace Reckoner.Json

/-- A hexadecimal digit. -/
def hexDigit (n : Nat) : Char :=
  Nat.digitChar (n % 16)

/-- A character inside quotes. -/
def escapedChar (c : Char) : List Char :=
  match c with
  | '"' => ['\\', '"']
  | '\\' => ['\\', '\\']
  | '\x08' => ['\\', 'b']
  | '\x0c' => ['\\', 'f']
  | '\n' => ['\\', 'n']
  | '\r' => ['\\', 'r']
  | '\t' => ['\\', 't']
  | _ =>
      if c.toNat < 0x20 then
        ['\\', 'u', '0', '0', hexDigit (c.toNat / 16), hexDigit c.toNat]
      else [c]

/-- A text in quotes. -/
def quotedText (text : String) : String :=
  "\"" ++ String.ofList (text.toList.flatMap escapedChar) ++ "\""

/-- A line break with the indentation of a level. -/
def lineBreak (level : Nat) : String :=
  String.ofList ('\n' :: List.replicate (2 * level) ' ')

mutual

/-- Writes a value on one line. -/
def compact : Json → String
  | .null => "null"
  | .bool value => if value then "true" else "false"
  | .number value => value.text
  | .string value => quotedText value
  | .array items => "[" ++ String.intercalate "," (compactItems items) ++ "]"
  | .object fields => "\x7b" ++ String.intercalate "," (compactFields fields) ++ "\x7d"
  | .unusable => "null"

/-- Writes the items of an array. -/
def compactItems : List Json → List String
  | [] => []
  | first :: others => compact first :: compactItems others

/-- Writes the fields of an object. -/
def compactFields : List (String × Json) → List String
  | [] => []
  | (key, value) :: others =>
      (quotedText key ++ ":" ++ compact value) :: compactFields others

end

/-- Encloses parts in brackets, each on a line of its own. Without parts the brackets meet. -/
def bracketed (opening closing : String) (level : Nat) (parts : List String) : String :=
  match parts with
  | [] => opening ++ closing
  | parts =>
      opening ++ lineBreak (level + 1) ++
        String.intercalate ("," ++ lineBreak (level + 1)) parts ++ lineBreak level ++ closing

mutual

/-- Writes a value on many lines, inside so many levels. -/
def indented (level : Nat) : Json → String
  | .null => "null"
  | .bool value => if value then "true" else "false"
  | .number value => value.text
  | .string value => quotedText value
  | .array items => bracketed "[" "]" level (indentedItems (level + 1) items)
  | .object fields => bracketed "\x7b" "\x7d" level (indentedFields (level + 1) fields)
  | .unusable => "null"

/-- Writes the items of an array. -/
def indentedItems (level : Nat) : List Json → List String
  | [] => []
  | first :: others => indented level first :: indentedItems level others

/-- Writes the fields of an object. -/
def indentedFields (level : Nat) : List (String × Json) → List String
  | [] => []
  | (key, value) :: others =>
      (quotedText key ++ ": " ++ indented level value) :: indentedFields level others

end

/-- Writes a value on many lines. -/
def pretty (json : Json) : String :=
  indented 0 json

end Reckoner.Json
