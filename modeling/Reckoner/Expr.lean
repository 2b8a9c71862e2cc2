/-!
# Expressions

The tree of an expression: numbers, names, signs, operators, calls and a conversion to
another unit.
-/

namespace Reckoner

/-- An operator between two operands. -/
inductive Operator where
  | add
  | sub
  | mul
  | div
  | pow
  /-- multiplication without a sign, as in `10 USD` -/
  | juxtapose
deriving DecidableEq, Inhabited

/-- How tightly an operator binds. -/
def Operator.precedence : Operator → Nat
  | .add | .sub => 1
  | .mul | .div | .juxtapose => 2
  | .pow => 3

/-- Whether the operands may trade places. -/
def Operator.isCommutative : Operator → Bool
  | .add | .mul | .juxtapose => true
  | .sub | .div | .pow => false

/-- An expression. -/
inductive Expr where
  | number (value : Float)
  | name (name : String)
  | neg (operand : Expr)
  | binary (op : Operator) (left right : Expr)
  | call (function : String) (arguments : List Expr)
  /-- the operand, shown in the unit of the given name -/
  | convert (operand : Expr) (unit : String)
deriving Inhabited

end Reckoner
