import Reckoner.Expr
import Reckoner.Expr.Token

/-!
# Reading an expression

A parser takes the text still unread and gives a tree with the text left over. How deep an
expression may nest is part of the reading: one level is charged for every signed
operand, and one for every operator of a chain until the chain ends. `Level` holds the
parsers that may still charge a given count of levels, built from those that may charge
one less, so that the allowance is what bounds the recursion.
-/

namespace Reckoner

/-- What is wrong with a text that is no expression. -/
inductive SyntaxFault where
  | emptyExpression
  | unexpected (c : Char)
  | unexpectedEnd
  | identifierExpected
  | numberExpected
  | badNumber (literal : String)
  | expected (c : Char)
deriving DecidableEq

/-- Why a text was not read. -/
inductive ParseError where
  | invalid (fault : SyntaxFault)
  | tooDeep
deriving DecidableEq

/-- The levels an expression may nest. -/
def maxDepth : Nat := 200

namespace SyntaxFault

/-- The description of a fault, without its frame. -/
def description : SyntaxFault → String
  | emptyExpression => "empty expression"
  | unexpected c => "unexpected '" ++ c.toString ++ "'"
  | unexpectedEnd => "unexpected end of expression"
  | identifierExpected => "identifier expected"
  | numberExpected => "number expected"
  | badNumber literal => "bad number '" ++ literal ++ "'"
  | expected c => "expected '" ++ c.toString ++ "'"

/-- The message that reports a fault. -/
def message (fault : SyntaxFault) : String :=
  "Syntax error: " ++ fault.description ++ "."

end SyntaxFault

namespace Expr

/-- A parser: from the unread text to a result and the text left over. -/
abbrev Parser (α : Type) := List Char → Except ParseError (α × List Char)

namespace Parser

open Text Token

/-- Stops because the levels are used up. -/
def tooDeep {α : Type} : Parser α :=
  fun _ => .error .tooDeep

/-- Stops at a fault. -/
def fault {α : Type} (f : SyntaxFault) : Except ParseError α :=
  .error (.invalid f)

/-- Reads one given character. -/
def expect (wanted : Char) : List Char → Except ParseError (List Char)
  | c :: rest => if c = wanted then .ok rest else fault (.expected wanted)
  | [] => fault (.expected wanted)

/-- Reads the name of a unit. -/
def name : Parser String := fun text =>
  match splitName text with
  | ([], _) => fault .identifierExpected
  | (name, rest) => .ok (String.ofList name, rest)

/-- Reads a number literal. A point alone is none, and a point followed by nothing but an
exponent is a bad one. -/
def number : Parser Expr := fun text =>
  let (literal, rest) := splitNumber text
  if literal.hasDigits then .ok (.number literal.decimal.toFloat, rest)
  else
    match literal.exponent with
    | none => fault .numberExpected
    | some _ => fault (.badNumber (String.ofList literal.text))

/-- Whether an operand follows that multiplies the one before it. -/
def startsOperand : List Char → Bool
  | [] => false
  | c :: rest => c == '(' || (isNameStart c && (afterTo? (c :: rest)).isNone)

/-- The operator of a chain of factors in front of the text, and the text of its operand. A
parenthesis or a name that directly follows multiplies. -/
def factorOperator? : List Char → Option (Operator × List Char)
  | '*' :: rest => some (.mul, rest)
  | '/' :: rest => some (.div, rest)
  | text => if startsOperand text then some (.juxtapose, text) else none

/-- The operator of a chain of summands in front of the text. -/
def sumOperator? : List Char → Option (Operator × List Char)
  | '+' :: rest => some (.add, rest)
  | '-' :: rest => some (.sub, rest)
  | _ => none

/-- Goes on with a chain whose left part is read: if an operator follows, `operand` reads its
right side and `more` goes on with the two joined. -/
def chain (operator? : List Char → Option (Operator × List Char)) (operand : Parser Expr)
    (more : Expr → Parser Expr) (left : Expr) : Parser Expr := fun text =>
  match operator? (skipBlanks text) with
  | none => .ok (left, skipBlanks text)
  | some (op, rest) => do
    let (right, rest) ← operand rest
    more (.binary op left right) rest

/-- Reads items parted by commas, fewer than the given count. Every item takes a character of
the text, so a count above the length of the text is never used up. -/
def commaSeparated (item : Parser Expr) : Nat → Parser (List Expr)
  | 0, _ => fault .unexpectedEnd
  | count + 1, text => do
    let (first, rest) ← item text
    match skipBlanks rest with
    | ',' :: rest =>
      let (others, rest) ← commaSeparated item count rest
      .ok (first :: others, rest)
    | rest => .ok ([first], rest)

/-- The parsers that may still charge some count of levels. -/
structure Level where
  /-- an operand with its signs -/
  signed : Parser Expr
  /-- the rest of a chain of factors, after its left part -/
  moreFactors : Expr → Parser Expr
  /-- the rest of a chain of summands, after its left part -/
  moreSummands : Expr → Parser Expr

namespace Level

/-- Reads a chain of factors. -/
def term (level : Level) : Parser Expr := fun text => do
  let (left, rest) ← level.signed text
  level.moreFactors left rest

/-- Reads a chain of summands. -/
def sum (level : Level) : Parser Expr := fun text => do
  let (left, rest) ← level.term text
  level.moreSummands left rest

/-- Reads a sum and the conversion that may follow it. -/
def conversion (level : Level) : Parser Expr := fun text => do
  let (value, rest) ← level.sum text
  match afterTo? (skipBlanks rest) with
  | none => .ok (value, skipBlanks rest)
  | some rest =>
    let (unit, rest) ← name (skipBlanks rest)
    .ok (.convert value unit, rest)

/-- Reads the arguments of a call up to the closing parenthesis. -/
def arguments (level : Level) : Parser (List Expr) := fun text =>
  match skipBlanks text with
  | ')' :: rest => .ok ([], ')' :: rest)
  | text => commaSeparated level.conversion (text.length + 1) text

/-- Reads a number, a name, a call or an expression in parentheses. -/
def primary (level : Level) : Parser Expr := fun text =>
  match skipBlanks text with
  | [] => fault .unexpectedEnd
  | c :: rest =>
    if c = '(' then do
      let (inner, rest) ← level.conversion rest
      let rest ← expect ')' (skipBlanks rest)
      .ok (inner, rest)
    else if c.isDigit || c == '.' then number (c :: rest)
    else if isNameStart c then do
      let (name, rest) ← name (c :: rest)
      match skipBlanks rest with
      | '(' :: rest =>
        let (arguments, rest) ← level.arguments rest
        let rest ← expect ')' rest
        .ok (.call name arguments, rest)
      | rest => .ok (.name name, rest)
    else fault (.unexpected c)

/-- Reads a primary and the power it may be raised to. -/
def power (level : Level) : Parser Expr := fun text => do
  let (base, rest) ← level.primary text
  match skipBlanks rest with
  | '^' :: rest =>
    let (exponent, rest) ← level.signed rest
    .ok (.binary .pow base exponent, rest)
  | rest => .ok (base, rest)

/-- Reads an operand with the signs before it, each of which takes a level of its own. -/
def operand (level : Level) : Parser Expr := fun text =>
  match skipBlanks text with
  | '-' :: rest => do
    let (inner, rest) ← level.signed rest
    .ok (.neg inner, rest)
  | '+' :: rest => level.signed rest
  | text => level.power text

/-- The level that may charge one more. -/
def above (below : Level) : Level where
  signed := below.operand
  moreFactors := chain factorOperator? below.signed below.moreFactors
  moreSummands := chain sumOperator? below.term below.moreSummands

/-- The level that may charge none: an operand is too deep, and so is an operator. -/
def bottom : Level where
  signed := tooDeep
  moreFactors := chain factorOperator? tooDeep fun _ => tooDeep
  moreSummands := chain sumOperator? tooDeep fun _ => tooDeep

/-- The parsers that may charge `allowance` levels. -/
def withAllowance : Nat → Level
  | 0 => bottom
  | allowance + 1 => (withAllowance allowance).above

end Level

end Parser

open Text Reckoner.Expr.Parser in
/-- Reads a whole text as an expression. -/
def parse (text : String) : Except ParseError Expr :=
  match skipBlanks text.toList with
  | [] => fault .emptyExpression
  | start => do
    let (expression, rest) ← (Level.withAllowance maxDepth).conversion start
    match skipBlanks rest with
    | [] => .ok expression
    | c :: _ => fault (.unexpected c)

end Expr

end Reckoner
