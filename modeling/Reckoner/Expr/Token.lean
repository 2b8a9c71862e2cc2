import Reckoner.Decimal.Literal
import Reckoner.Text.Blank
import Reckoner.Text.Letters
import Reckoner.Text.Numerals

/-!
# Tokens of an expression

Names, the keyword `to` and number literals, each cut off the front of a text by
longest match. What is cut off and what is left always make up the text.
-/

namespace Reckoner

namespace Token

/-- A character that can begin a name: a letter, an underscore or a currency sign. -/
def isNameStart (c : Char) : Bool :=
  c == '_' || Text.isLetter c || c == '€' || c == '$' || c == '£' || c == '¥'

/-- A character that can go on a name: a letter, an underscore or a numeral. -/
def isNamePart (c : Char) : Bool :=
  c == '_' || Text.isLetter c || Text.isNumeral c

/-- The length of the name in front: its first character may be of either kind, all
others are parts of a name. -/
def nameLength : List Char → Nat
  | [] => 0
  | c :: rest =>
      if isNameStart c || isNamePart c then 1 + (rest.takeWhile isNamePart).length else 0

/-- Cuts the name off the front. The name is empty when the text does not begin with one. -/
def splitName (text : List Char) : List Char × List Char :=
  text.splitAt (nameLength text)

/-- The text after the keyword `to`, if it stands in front as a word of its own. -/
def afterTo? : List Char → Option (List Char)
  | 't' :: 'o' :: rest =>
      match rest with
      | [] => some []
      | c :: _ => if isNamePart c then none else some rest
  | _ => none

/-- A number literal: digits before and after the point, and the exponent of ten if
one is written. -/
structure NumberLiteral where
  whole : List Char
  hasPoint : Bool
  fraction : List Char
  /-- the letter that marks the exponent, with its sign if there is one, and the digits -/
  exponent : Option (List Char × List Char)
deriving DecidableEq

/-- The written form of a literal. -/
def NumberLiteral.text (n : NumberLiteral) : List Char :=
  n.whole ++ (if n.hasPoint then '.' :: n.fraction else []) ++
    match n.exponent with
    | none => []
    | some (mark, digits) => mark ++ digits

/-- Whether the literal has a digit outside its exponent. -/
def NumberLiteral.hasDigits (n : NumberLiteral) : Bool :=
  !n.whole.isEmpty || !n.fraction.isEmpty

/-- The decimal that a literal denotes. -/
def NumberLiteral.decimal (n : NumberLiteral) : Decimal :=
  Decimal.ofParts n.whole n.fraction <|
    match n.exponent with
    | none => 0
    | some (mark, digits) =>
        if mark.contains '-' then -(Decimal.ofDigits digits : Int) else Decimal.ofDigits digits

/-- Cuts the digits off the front. -/
def splitDigits (text : List Char) : List Char × List Char :=
  (text.takeWhile Char.isDigit, text.dropWhile Char.isDigit)

/-- Cuts an exponent off the front. The letter `e` counts as one only when digits follow, after
at most one sign; otherwise it is left to be read as a name. -/
def splitExponent (text : List Char) : Option (List Char × List Char) × List Char :=
  let withMark (mark rest : List Char) :=
    match splitDigits rest with
    | ([], _) => (none, text)
    | (digits, rest) => (some (mark, digits), rest)
  match text with
  | e :: rest =>
      if e == 'e' || e == 'E' then
        match rest with
        | sign :: digits =>
            if sign == '+' || sign == '-' then withMark [e, sign] digits else withMark [e] rest
        | [] => (none, text)
      else (none, text)
  | [] => (none, text)

/-- Cuts a number literal off the front. -/
def splitNumber (text : List Char) : NumberLiteral × List Char :=
  let (whole, rest) := splitDigits text
  let (hasPoint, fraction, rest) :=
    match rest with
    | '.' :: rest => let (fraction, rest) := splitDigits rest; (true, fraction, rest)
    | _ => (false, [], rest)
  let (exponent, rest) := splitExponent rest
  (⟨whole, hasPoint, fraction, exponent⟩, rest)

end Token

end Reckoner
