import Reckoner.Settings

/-!
# Functions

The numeric functions that expressions can call, by name. Angles go in or come out in the
unit that the settings name.
-/

namespace Reckoner

/-- A function of numbers. -/
structure NumericFunction where
  name : String
  minArity : Nat
  maxArity : Nat
  /-- The value at some arguments, angles being in the given unit. -/
  call : AngleUnit → List Float → Float

namespace NumericFunction

/-- The argument at a place; a missing one is undefined. -/
def argument (arguments : List Float) (i : Nat) : Float :=
  arguments.getD i (0.0 / 0.0)

/-- The value of a function at a number. It is undefined where the number is. -/
def strictly (f : Float → Float) (x : Float) : Float :=
  if x.isNaN then x else f x

/-- A function of one number that has nothing to do with angles. -/
def plain (name : String) (f : Float → Float) : NumericFunction :=
  ⟨name, 1, 1, fun _ arguments => strictly f (argument arguments 0)⟩

/-- A function of an angle. -/
def ofAngle (name : String) (f : Float → Float) : NumericFunction :=
  ⟨name, 1, 1, fun unit arguments => strictly f (argument arguments 0 * unit.toRadians)⟩

/-- A function whose value is an angle. -/
def toAngle (name : String) (f : Float → Float) : NumericFunction :=
  ⟨name, 1, 1, fun unit arguments => strictly f (argument arguments 0) / unit.toRadians⟩

/-- The logarithm, to base ten or to a base given second. -/
def logarithm : NumericFunction :=
  ⟨"log", 1, 2, fun _ arguments =>
    match arguments with
    | x :: base :: _ => strictly Float.log x / strictly Float.log base
    | _ => strictly Float.log10 (argument arguments 0)⟩

/-- Whether a count of arguments is one the function takes. -/
def accepts (f : NumericFunction) (count : Nat) : Bool :=
  f.minArity ≤ count && count ≤ f.maxArity

end NumericFunction

/-- The functions that can be called, at most one of each name. -/
structure FunctionTable where
  functions : List NumericFunction := []

namespace FunctionTable

/-- A table without functions. -/
def empty : FunctionTable := {}

instance : Inhabited FunctionTable := ⟨empty⟩

/-- Adds a function in place of one of the same name. -/
def register (table : FunctionTable) (f : NumericFunction) : FunctionTable :=
  ⟨f :: table.functions.filter (·.name != f.name)⟩

/-- The function of that name. -/
def get? (table : FunctionTable) (name : String) : Option NumericFunction :=
  table.functions.find? (·.name == name)

open NumericFunction in
/-- The functions that every engine starts with. -/
def builtin : FunctionTable :=
  [plain "sqrt" Float.sqrt, plain "abs" Float.abs, plain "exp" Float.exp, plain "ln" Float.log,
    ofAngle "sin" Float.sin, ofAngle "cos" Float.cos, ofAngle "tan" Float.tan,
    toAngle "asin" Float.asin, toAngle "acos" Float.acos, toAngle "atan" Float.atan,
    logarithm].foldl register empty

end FunctionTable

end Reckoner
