import Reckoner.Decimal.Shortest

/-!
# Plain number text

The text of a double where expressions, plots and stored rates show it: the
shortest digits that read back, in positional notation at every magnitude. Of two equally
near texts the larger is taken.
-/

namespace Reckoner.Decimal

/-- The text of a double, without an exponent and without a fraction of zero. -/
def plain (x : Float) : List Char :=
  match Binary64.ofFloat x with
  | .nan => "NaN".toList
  | .infinite negative => signed negative "inf".toList
  | .finite negative mantissa exponent =>
      signed negative
        (if mantissa = 0 then ['0'] else (shortest .up mantissa exponent).positional)

/-- `plain` as a string. -/
def plainText (x : Float) : String :=
  String.ofList (plain x)

end Reckoner.Decimal
