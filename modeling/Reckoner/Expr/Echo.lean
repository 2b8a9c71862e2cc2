import Reckoner.Expr
import Reckoner.Decimal.Plain

/-!
# Writing an expression

The canonical text of a tree: single blanks around signs, parentheses only where
the tree needs them, and numbers in full. With Unicode signs the minus and the multiplication
sign are typographic.
-/

namespace Reckoner

/-- An operator with the blanks around it. -/
def Operator.symbol (unicode : Bool) : Operator → List Char
  | .add => " + ".toList
  | .sub => if unicode then " − ".toList else " - ".toList
  | .mul => if unicode then " × ".toList else " * ".toList
  | .div => "/".toList
  | .pow => "^".toList
  | .juxtapose => " ".toList

namespace Expr

/-- Encloses a text in parentheses where they are needed. -/
def enclosed (needed : Bool) (text : List Char) : List Char :=
  if needed then '(' :: text ++ [')'] else text

/-- Whether an operand of an operator of the given precedence needs parentheses. On a strict
side, so does an operand that binds just as tightly. -/
def needsParens (precedence : Nat) (strict : Bool) : Expr → Bool
  | .binary op _ _ => op.precedence < precedence || (strict && op.precedence == precedence)
  | .convert _ _ => true
  | .neg _ => precedence == Operator.pow.precedence
  | _ => false

/-- Whether the operand of a sign needs parentheses. -/
def needsParensAfterSign : Expr → Bool
  | .binary op _ _ => op.precedence < Operator.pow.precedence
  | _ => false

/-- The strict side of a power is its base; that of an operator whose operands cannot trade
places is the right one. -/
def strictLeft (op : Operator) : Bool :=
  op == .pow

@[inherit_doc strictLeft]
def strictRight (op : Operator) : Bool :=
  op != .pow && !op.isCommutative

mutual

/-- The characters of the canonical text. -/
def echoChars (unicode : Bool) : Expr → List Char
  | .number value => Decimal.plain value
  | .name identifier => identifier.toList
  | .neg operand =>
      (if unicode then '−' else '-') ::
        enclosed operand.needsParensAfterSign (operand.echoChars unicode)
  | .binary op left right =>
      enclosed (left.needsParens op.precedence (strictLeft op)) (left.echoChars unicode) ++
        op.symbol unicode ++
        enclosed (right.needsParens op.precedence (strictRight op)) (right.echoChars unicode)
  | .call function arguments =>
      function.toList ++ '(' :: echoArguments unicode arguments ++ [')']
  | .convert operand unit => operand.echoChars unicode ++ " to ".toList ++ unit.toList

/-- The texts of the arguments of a call, parted by commas. -/
def echoArguments (unicode : Bool) : List Expr → List Char
  | [] => []
  | [last] => last.echoChars unicode
  | first :: next :: others =>
      first.echoChars unicode ++ ", ".toList ++ echoArguments unicode (next :: others)

end

/-- The canonical text of an expression. -/
def echo (unicode : Bool) (e : Expr) : String :=
  String.ofList (e.echoChars unicode)

end Expr

end Reckoner
