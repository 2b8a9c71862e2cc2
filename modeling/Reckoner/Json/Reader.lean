import Reckoner.Json.Number

/-!
# Reading JSON

A whole text becomes one value, or none when it is not well written. What was written wrongly is not
told.
-/

namespace Reckoner.Json

/-- The blanks of the format. -/
def isSpace (c : Char) : Bool :=
  c == ' ' || c == '\n' || c == '\t' || c == '\r'

/-- Drops the blanks in front. -/
def skipSpace (text : List Char) : List Char :=
  text.dropWhile isSpace

/-! ## Texts -/

/-- A piece of a quoted text: a character, or a code unit written by its number. -/
inductive TextUnit where
  | char (c : Char)
  | code (unit : Nat)

/-- The value of a hexadecimal digit. -/
def hexValue? (c : Char) : Option Nat :=
  if '0' ≤ c ∧ c ≤ '9' then some (c.toNat - '0'.toNat)
  else if 'a' ≤ c ∧ c ≤ 'f' then some (c.toNat - 'a'.toNat + 10)
  else if 'A' ≤ c ∧ c ≤ 'F' then some (c.toNat - 'A'.toNat + 10)
  else none

/-- The code unit of four hexadecimal digits. -/
def codeUnit? (a b c d : Char) : Option Nat := do
  return 4096 * (← hexValue? a) + 256 * (← hexValue? b) + 16 * (← hexValue? c) + (← hexValue? d)

/-- The character that a letter after a backslash stands for. -/
def escaped? : Char → Option Char
  | '"' => some '"'
  | '\\' => some '\\'
  | '/' => some '/'
  | 'b' => some '\x08'
  | 'f' => some '\x0c'
  | 'n' => some '\n'
  | 'r' => some '\r'
  | 't' => some '\t'
  | _ => none

/-- Reads a quoted text after its opening quote, collecting its pieces backwards. -/
def textUnits (found : List TextUnit) : List Char → Option (List TextUnit × List Char)
  | [] => none
  | '"' :: rest => some (found.reverse, rest)
  | '\\' :: 'u' :: a :: b :: c :: d :: rest =>
      match codeUnit? a b c d with
      | some unit => textUnits (.code unit :: found) rest
      | none => none
  | '\\' :: c :: rest =>
      match escaped? c with
      | some c => textUnits (.char c :: found) rest
      | none => none
  | c :: rest => if c.toNat < 0x20 then none else textUnits (.char c :: found) rest

/-- Joins the pieces of a text. Two code units may spell one character between them; one of such a
pair alone spells none. -/
def spell (spelt : List Char) : List TextUnit → Option (List Char)
  | [] => some spelt.reverse
  | .char c :: rest => spell (c :: spelt) rest
  | .code high :: rest =>
      if high < 0xD800 ∨ 0xDFFF < high then spell (Char.ofNat high :: spelt) rest
      else
        match rest with
        | .code low :: rest =>
            if high ≤ 0xDBFF ∧ 0xDC00 ≤ low ∧ low ≤ 0xDFFF then
              spell (Char.ofNat (0x10000 + 1024 * (high - 0xD800) + (low - 0xDC00)) :: spelt) rest
            else none
        | _ => none

/-- Reads a quoted text after its opening quote. The text is missing when its pieces spell none. -/
def quoted (text : List Char) : Option (Option String × List Char) :=
  match textUnits [] text with
  | some (units, rest) => some ((spell [] units).map String.ofList, rest)
  | none => none

/-! ## Numerals -/

/-- Cuts the digits off the front. -/
def splitDigits (text : List Char) : List Char × List Char :=
  (text.takeWhile Char.isDigit, text.dropWhile Char.isDigit)

/-- Cuts a run of digits off the front; there must be one. -/
def someDigits (text : List Char) : Option (List Char × List Char) :=
  match splitDigits text with
  | ([], _) => none
  | split => some split

/-- Reads the digits before the point: more than one only without a zero in front. -/
def wholeDigits (text : List Char) : Option (List Char × List Char) :=
  match someDigits text with
  | some ('0' :: _ :: _, _) => none
  | split => split

/-- Reads the point and the digits after it, if there is a point. -/
def fractionDigits : List Char → Option (Option (List Char) × List Char)
  | '.' :: rest => (someDigits rest).map fun (digits, rest) => (some digits, rest)
  | text => some (none, text)

/-- Reads the exponent, if there is one. -/
def exponentPart : List Char → Option (Option Int × List Char)
  | e :: rest =>
      if e == 'e' || e == 'E' then
        let (isNegative, rest) :=
          match rest with
          | '+' :: rest => (false, rest)
          | '-' :: rest => (true, rest)
          | _ => (false, rest)
        (someDigits rest).map fun (digits, rest) =>
          let power : Int := Decimal.ofDigits digits
          (some (if isNegative then -power else power), rest)
      else some (none, e :: rest)
  | [] => some (none, [])

/-- Reads a numeral after its sign. -/
def numeral (isNegative : Bool) (text : List Char) : Option (JsonNumber.Numeral × List Char) := do
  let (whole, rest) ← wholeDigits text
  let (fraction, rest) ← fractionDigits rest
  let (exponent, rest) ← exponentPart rest
  return (⟨isNegative, whole, fraction, exponent⟩, rest)

/-- Reads a number after its sign. -/
def signedNumber (isNegative : Bool) (text : List Char) : Option (Json × List Char) :=
  (numeral isNegative text).map fun (n, rest) =>
    match JsonNumber.ofNumeral? n with
    | some value => (.number value, rest)
    | none => (.unusable, rest)

/-! ## Values -/

/-- The object with the given fields; one with an unusable key is unusable. -/
def objectOf (fields : List (Option String × Json)) : Json :=
  match fields.mapM fun (key, value) => key.map fun key => (key, value) with
  | some fields => .object fields
  | none => .unusable

mutual

/-- Reads a value. The first number bounds the steps, of which every character takes at most two. -/
def value : Nat → List Char → Option (Json × List Char)
  | 0, _ => none
  | steps + 1, text =>
      match skipSpace text with
      | '{' :: rest =>
          match skipSpace rest with
          | '}' :: rest => some (.object [], rest)
          | rest => members steps [] rest
      | '[' :: rest =>
          match skipSpace rest with
          | ']' :: rest => some (.array [], rest)
          | rest => elements steps [] rest
      | '"' :: rest =>
          (quoted rest).map fun (text, rest) =>
            match text with
            | some text => (.string text, rest)
            | none => (.unusable, rest)
      | 'n' :: 'u' :: 'l' :: 'l' :: rest => some (.null, rest)
      | 't' :: 'r' :: 'u' :: 'e' :: rest => some (.bool true, rest)
      | 'f' :: 'a' :: 'l' :: 's' :: 'e' :: rest => some (.bool false, rest)
      | '-' :: rest => signedNumber true rest
      | rest => signedNumber false rest

/-- Reads the items of an array after the first ones. -/
def elements : Nat → List Json → List Char → Option (Json × List Char)
  | 0, _, _ => none
  | steps + 1, found, text =>
      match value steps text with
      | none => none
      | some (item, rest) =>
          match skipSpace rest with
          | ',' :: rest => elements steps (item :: found) rest
          | ']' :: rest => some (.array (item :: found).reverse, rest)
          | _ => none

/-- Reads the fields of an object after the first ones. -/
def members : Nat → List (Option String × Json) → List Char → Option (Json × List Char)
  | 0, _, _ => none
  | steps + 1, found, text =>
      match skipSpace text with
      | '"' :: rest =>
          match quoted rest with
          | none => none
          | some (key, rest) =>
              match skipSpace rest with
              | ':' :: rest =>
                  match value steps rest with
                  | none => none
                  | some (item, rest) =>
                      match skipSpace rest with
                      | ',' :: rest => members steps ((key, item) :: found) rest
                      | '}' :: rest => some (objectOf ((key, item) :: found).reverse, rest)
                      | _ => none
              | _ => none
      | _ => none

end

/-- Reads a whole text as one value. -/
def parse? (text : String) : Option Json :=
  let text := text.toList
  match value (2 * text.length + 2) text with
  | some (json, rest) => if (skipSpace rest).isEmpty then some json else none
  | none => none

end Reckoner.Json
