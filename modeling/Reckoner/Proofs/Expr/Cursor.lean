import Reckoner.Proofs.Expr.Grammar
import Reckoner.Proofs.Expr.Literal

/-!
# Reading by a cursor

The parsers take the unread text from hand to hand and are built level by level. The same reading
can be done in place: a cursor goes over the bytes of the text, and levels are counted up when they
are charged and down when they are given back. Such a reading can go wrong in ways of its own: the
cursor can get inside of a character, or behind the text, where the text cannot be cut, and more
levels can be given back than were charged. Both count here as breaking down.

The rules call one another as the grammar has it, and loops go on by calling themselves. Nothing in
them says that they ever come to an end, so they are told how many calls may be nested and have no
outcome where these do not suffice. A reading ends if it has an outcome, always the same, with all
counts of calls from some one on.
-/

namespace Reckoner.Expr

open Reckoner.Text Reckoner.Token

/-- Where a reading stands: the byte of the text that comes next, and the levels charged so far. -/
structure Cursor where
  position : String.Pos.Raw
  depth : Nat
deriving DecidableEq

/-- The cursor of a reading, and all cursors that it had before, the latest first. -/
structure Trail where
  cursor : Cursor
  earlier : List Cursor

/-- All cursors on a trail. -/
def Trail.cursors (trail : Trail) : List Cursor :=
  trail.cursor :: trail.earlier

/-- Why a reading stops without a result. -/
inductive Stop where
  /-- the text is refused -/
  | refused (error : ParseError)
  /-- the text was to be cut where no character begins, or more levels were to be given back than
  were charged -/
  | breakdown
deriving DecidableEq

/-- A reading moves its cursor and leaves a trail, until it has a result or stops. It has no outcome
as long as it is not done. -/
abbrev Scan := ExceptT Stop (StateT Trail Option)

/-- What is left of a text from a byte on. There is nothing to be had from inside of a character or
from behind the text. -/
def unread? (text : String) (position : String.Pos.Raw) : Option (List Char) :=
  if h : position.IsValid text then some (text.sliceFrom (text.pos position h)).copy.toList
  else none

/-- The part of a text between two bytes. -/
def between? (text : String) (start stop : String.Pos.Raw) : Option (List Char) :=
  match unread? text start, unread? text stop with
  | some fromStart, some fromStop =>
      if start ≤ stop then some (fromStart.take (fromStart.length - fromStop.length)) else none
  | _, _ => none

/-- What is left from a byte on is what comes after the characters that take up the bytes before. -/
theorem unread?_eq_some_iff {text : String} {position : String.Pos.Raw} {rest : List Char} :
    unread? text position = some rest ↔
      ∃ front, text = String.ofList (front ++ rest) ∧
        position = (String.ofList front).rawEndPos := by
  unfold unread?
  constructor
  · intro hrest
    split at hrest
    · next hvalid =>
      obtain ⟨htext, hposition⟩ := (text.pos position hvalid).splits
      obtain rfl := Option.some.inj hrest
      refine ⟨(text.sliceTo (text.pos position hvalid)).copy.toList, ?_, ?_⟩
      · rw [String.ofList_append, String.ofList_toList, String.ofList_toList]
        exact htext
      · rw [String.ofList_toList]
        exact hposition
    · cases hrest
  · rintro ⟨front, rfl, rfl⟩
    have hvalid : (String.ofList front).rawEndPos.IsValid (String.ofList (front ++ rest)) := by
      rw [String.ofList_append]
      exact String.Pos.Raw.isValid_rawEndPos.append_right _
    rw [dif_pos hvalid]
    have hsplits : (String.pos _ _ hvalid).Splits (String.ofList front) (String.ofList rest) :=
      ⟨String.ofList_append, rfl⟩
    rw [(String.Pos.splits _).eq_right hsplits, String.toList_ofList]

/-- Something is left from wherever a character begins or the text ends. -/
theorem exists_unread?_iff {text : String} {position : String.Pos.Raw} :
    (∃ rest, unread? text position = some rest) ↔ position.IsValid text := by
  unfold unread?
  split
  · next hvalid => simp [hvalid]
  · next hvalid => simp [hvalid]

/-- The characters behind others take up the bytes after those. -/
theorem rawEndPos_append (before front : List Char) :
    (String.ofList (before ++ front)).rawEndPos =
      (String.ofList before).rawEndPos.increaseBy (String.ofList front).utf8ByteSize := by
  rw [String.Pos.Raw.ext_iff, String.Pos.Raw.byteIdx_increaseBy, String.byteIdx_rawEndPos,
    String.byteIdx_rawEndPos, String.ofList_append, String.utf8ByteSize_append]

/-- Only no characters at all take up no bytes. -/
theorem utf8ByteSize_ofList_eq_zero {chars : List Char} :
    (String.ofList chars).utf8ByteSize = 0 ↔ chars = [] := by
  rw [String.utf8ByteSize_eq_zero_iff, ← String.toList_eq_nil_iff, String.toList_ofList]

section cutting

variable {text : String} {position other : String.Pos.Raw} {front rest : List Char}

/-- Behind some characters the rest is left. -/
theorem unread?_increaseBy (hunread : unread? text position = some (front ++ rest)) :
    unread? text (position.increaseBy (String.ofList front).utf8ByteSize) = some rest := by
  obtain ⟨before, rfl, rfl⟩ := unread?_eq_some_iff.mp hunread
  refine unread?_eq_some_iff.mpr ⟨before ++ front, by rw [List.append_assoc], ?_⟩
  rw [rawEndPos_append]

/-- Only one place has the rest left. -/
theorem eq_increaseBy_of_unread? (hunread : unread? text position = some (front ++ rest))
    (hrest : unread? text other = some rest) :
    other = position.increaseBy (String.ofList front).utf8ByteSize := by
  obtain ⟨before, htext, rfl⟩ := unread?_eq_some_iff.mp hunread
  obtain ⟨before', htext', rfl⟩ := unread?_eq_some_iff.mp hrest
  have hchars := congrArg String.toList (htext.symm.trans htext')
  rw [String.toList_ofList, String.toList_ofList, ← List.append_assoc] at hchars
  obtain rfl := List.append_cancel_right hchars
  exact rawEndPos_append before front

/-- The places before and behind some characters are the same only if there are none. -/
theorem position_eq_iff (hunread : unread? text position = some (front ++ rest))
    (hrest : unread? text other = some rest) : other = position ↔ front = [] := by
  rw [← utf8ByteSize_ofList_eq_zero, eq_increaseBy_of_unread? hunread hrest,
    String.Pos.Raw.ext_iff, String.Pos.Raw.byteIdx_increaseBy]
  omega

/-- What stands between two places of a text. -/
theorem between?_eq_some (hunread : unread? text position = some (front ++ rest))
    (hrest : unread? text other = some rest) : between? text position other = some front := by
  have hle : position ≤ other := by
    rw [eq_increaseBy_of_unread? hunread hrest]
    exact Nat.le_add_right _ _
  simp only [between?, hunread, hrest, if_pos hle, List.length_append, Nat.add_sub_cancel,
    List.take_left]

/-- Nothing is left at the end of a text alone. -/
theorem utf8ByteSize_le_iff (hrest : unread? text position = some rest) :
    text.utf8ByteSize ≤ position.byteIdx ↔ rest = [] := by
  obtain ⟨before, rfl, rfl⟩ := unread?_eq_some_iff.mp hrest
  rw [← utf8ByteSize_ofList_eq_zero, String.ofList_append, String.utf8ByteSize_append,
    String.byteIdx_rawEndPos]
  omega

end cutting

namespace Scan

/-- Where the reading stands. -/
def cursor : Scan Cursor :=
  return (← get).cursor

/-- Goes to a cursor, which stays on the trail from then on. -/
def moveTo (next : Cursor) : Scan Unit :=
  modify fun trail => ⟨next, trail.cursors⟩

/-- Refuses the text. -/
def refuse {α : Type} (error : ParseError) : Scan α :=
  throw (.refused error)

/-- Refuses the text for a fault. -/
def fault {α : Type} (f : SyntaxFault) : Scan α :=
  refuse (.invalid f)

/-- A reading for which more calls would have to be nested than may be. -/
def unfinished {α : Type} : Scan α :=
  monadLift (none : Option α)

/-- Goes on with what must be there. -/
def need {α : Type} : Option α → Scan α
  | some a => pure a
  | none => throw .breakdown

/-- Moves the cursor by some bytes. -/
def advance (bytes : Nat) : Scan Unit := do
  let here ← cursor
  moveTo { here with position := here.position.increaseBy bytes }

/-- Charges a level. -/
def descend : Scan Unit := do
  let here ← cursor
  moveTo { here with depth := here.depth + 1 }
  if maxDepth < here.depth + 1 then refuse .tooDeep else pure ()

/-- Gives levels back. -/
def ascend (levels : Nat) : Scan Unit := do
  let here ← cursor
  if levels ≤ here.depth then moveTo { here with depth := here.depth - levels }
  else throw .breakdown

section text

variable (text : String)

/-- The text from some bytes behind the cursor on. -/
def unreadAfter (bytes : Nat) : Scan (List Char) := do
  let here ← cursor
  need (unread? text (here.position.increaseBy bytes))

/-- The character at the cursor. -/
def peek : Scan (Option Char) := do
  let rest ← unreadAfter text 0
  return rest.head?

/-- Moves over one given character if it stands at the cursor. -/
def consume (c : Char) : Scan Bool := do
  if (← peek text) = some c then
    advance c.utf8Size
    return true
  else return false

/-- Moves over one given character, which must stand at the cursor. -/
def expect (c : Char) : Scan Unit := do
  if ← consume text c then pure () else fault (.expected c)

/-- Moves over characters as long as they pass a test, by so many bytes for each. -/
def skipWhile (test : Char → Bool) (width : Char → Nat) : Nat → Scan Unit
  | 0 => unfinished
  | calls + 1 => do
    match ← peek text with
    | none => pure ()
    | some c =>
      if test c then
        advance (width c)
        skipWhile test width calls
      else pure ()

/-- Moves over blanks. -/
def skipBlanks : Nat → Scan Unit :=
  skipWhile text isBlank Char.utf8Size

/-- Moves over digits, which take a byte each. -/
def skipDigits : Nat → Scan Unit :=
  skipWhile text Char.isDigit fun _ => 1

/-- Whether a word stands at the cursor with which no name goes on. -/
def peekKeyword (word : String) : Scan Bool := do
  let rest ← unreadAfter text 0
  if word.toList.isPrefixOf rest then
    let after ← unreadAfter text word.utf8ByteSize
    return !after.head?.any isNamePart
  else return false

/-- Moves over a word with which no name goes on, if it stands at the cursor. -/
def consumeKeyword (word : String) : Scan Bool := do
  if ← peekKeyword text word then
    advance word.utf8ByteSize
    return true
  else return false

/-- Whether an operand stands at the cursor that multiplies the one before it. -/
def startsOperand : Scan Bool := do
  match ← peek text with
  | none => return false
  | some c =>
    if c = '(' then return true
    else if isNameStart c then return !(← peekKeyword text "to")
    else return false

/-- Moves over a character that begins a name. -/
def skipNameStart : Scan Unit := do
  match ← peek text with
  | none => pure ()
  | some c => if isNameStart c then advance c.utf8Size else pure ()

/-- Moves over a name. -/
def skipName (calls : Nat) : Scan Unit := do
  skipNameStart text
  skipWhile text isNamePart Char.utf8Size calls

/-- Reads the name of a unit. -/
def name (calls : Nat) : Scan String := do
  let start ← cursor
  skipName text calls
  let stop ← cursor
  if stop.position = start.position then fault .identifierExpected
  else return String.ofList (← need (between? text start.position stop.position))

/-- Moves over a point and the digits that follow it. -/
def skipFraction (calls : Nat) : Scan Unit := do
  if ← consume text '.' then skipDigits text calls else pure ()

/-- Moves over the exponent of a number, if digits follow after at most one sign. -/
def skipExponent (calls : Nat) : Scan Unit := do
  match ← peek text with
  | none => pure ()
  | some c =>
    if c = 'e' ∨ c = 'E' then
      let after ← unreadAfter text 1
      let sign := if after.head? = some '+' ∨ after.head? = some '-' then 1 else 0
      let digits ← unreadAfter text (1 + sign)
      if digits.head?.any Char.isDigit then
        advance (1 + sign)
        skipDigits text calls
      else pure ()
    else pure ()

/-- Moves over a number literal. -/
def skipNumber (calls : Nat) : Scan Unit := do
  skipDigits text calls
  skipFraction text calls
  skipExponent text calls

/-- Reads a number literal. -/
def number (calls : Nat) : Scan Expr := do
  let start ← cursor
  skipNumber text calls
  let stop ← cursor
  let literal ← need (between? text start.position stop.position)
  if literal = [] ∨ literal = ['.'] then fault .numberExpected
  else
    match floatOf? literal with
    | some value => return .number value
    | none => fault (.badNumber (String.ofList literal))

/-- Moves over the operator of a chain, if one stands at the cursor. -/
def operator : Chain → Scan (Option Operator)
  | .summands => do
    if ← consume text '+' then return some .add
    else
      if ← consume text '-' then return some .sub
      else return none
  | .factors => do
    if ← consume text '*' then return some .mul
    else
      if ← consume text '/' then return some .div
      else
        if ← startsOperand text then return some .juxtapose
        else return none

mutual

/-- Reads a sum and the conversion that may follow it. -/
def conversion : Nat → Scan Expr
  | 0 => unfinished
  | calls + 1 => do
    let value ← chain .summands calls
    skipBlanks text calls
    if ← consumeKeyword text "to" then
      skipBlanks text calls
      return .convert value (← name text calls)
    else return value

/-- Reads a chain of operands. -/
def chain (kind : Chain) : Nat → Scan Expr
  | 0 => unfinished
  | calls + 1 => do
    let left ← operand kind calls
    more kind left 0 calls

/-- Reads an operand of a chain. -/
def operand (kind : Chain) : Nat → Scan Expr
  | 0 => unfinished
  | calls + 1 =>
    match kind with
    | .factors => signed calls
    | .summands => chain .factors calls

/-- Goes on with a chain whose left part is read and which was charged some levels. Each operator
takes one more, and all of them are given back at the end. -/
def more (kind : Chain) (left : Expr) (charged : Nat) : Nat → Scan Expr
  | 0 => unfinished
  | calls + 1 => do
    skipBlanks text calls
    match ← operator text kind with
    | none =>
      ascend charged
      return left
    | some op =>
      descend
      let right ← operand kind calls
      more kind (.binary op left right) (charged + 1) calls

/-- Reads an operand with its signs. -/
def signed : Nat → Scan Expr
  | 0 => unfinished
  | calls + 1 => do
    skipBlanks text calls
    descend
    let e ← signs calls
    ascend 1
    return e

/-- Reads an operand with its signs, the first of which is charged already. -/
def signs : Nat → Scan Expr
  | 0 => unfinished
  | calls + 1 => do
    if ← consume text '-' then return .neg (← signed calls)
    else
      if ← consume text '+' then signed calls
      else power calls

/-- Reads a primary and the power it may be raised to. -/
def power : Nat → Scan Expr
  | 0 => unfinished
  | calls + 1 => do
    let base ← primary calls
    skipBlanks text calls
    if ← consume text '^' then return .binary .pow base (← signed calls)
    else return base

/-- Reads a number, a name, a call or an expression in parentheses. -/
def primary : Nat → Scan Expr
  | 0 => unfinished
  | calls + 1 => do
    skipBlanks text calls
    match ← peek text with
    | none => fault .unexpectedEnd
    | some c =>
      if c = '(' then
        advance 1
        let inner ← conversion calls
        skipBlanks text calls
        expect text ')'
        return inner
      else if c.isDigit || c == '.' then number text calls
      else if isNameStart c then
        let label ← name text calls
        skipBlanks text calls
        if ← consume text '(' then
          let items ← arguments calls
          expect text ')'
          return .call label items
        else return .name label
      else fault (.unexpected c)

/-- Reads the arguments of a call. -/
def arguments : Nat → Scan (List Expr)
  | 0 => unfinished
  | calls + 1 => do
    skipBlanks text calls
    if (← peek text) = some ')' then return []
    else items calls

/-- Reads expressions as long as commas follow. -/
def items : Nat → Scan (List Expr)
  | 0 => unfinished
  | calls + 1 => do
    let first ← conversion calls
    skipBlanks text calls
    if ← consume text ',' then return first :: (← items calls)
    else return [first]

end

/-- Whether the cursor is at the end of the text. -/
def atEnd : Scan Bool := do
  let here ← cursor
  return text.utf8ByteSize ≤ here.position.byteIdx

/-- Reads a whole text as an expression. -/
def whole (calls : Nat) : Scan Expr := do
  skipBlanks text calls
  if ← atEnd text then fault .emptyExpression
  else
    let e ← conversion text calls
    skipBlanks text calls
    if ← atEnd text then return e
    else fault (.unexpected ((← peek text).getD '\x00'))

end text

end Scan

end Reckoner.Expr
