/-!
# JSON values

The values of the interchange format. Objects keep the order and the repetitions in which their
fields were written. A value that is well written but stands for nothing is kept as
`unusable`, because it does no harm in a place where nobody looks.
-/

namespace Reckoner

/-- A number, in the three kinds that readers tell apart. -/
inductive JsonNumber where
  /-- a natural number below `2 ^ 64` -/
  | natural (n : Nat)
  /-- the negative of a positive number of at most `2 ^ 63` -/
  | negative (n : Nat)
  | float (x : Float)
deriving DecidableEq

/-- A value. -/
inductive Json where
  | null
  | bool (value : Bool)
  | number (value : JsonNumber)
  | string (value : String)
  | array (items : List Json)
  | object (fields : List (String × Json))
  /-- a number beyond the largest double, or a text or key whose escapes spell no character -/
  | unusable
deriving Inhabited

namespace Json

/-- A natural number. -/
def nat (n : Nat) : Json :=
  .number (.natural n)

/-- An integer. -/
def int (n : Int) : Json :=
  .number (if n < 0 then .negative n.natAbs else .natural n.natAbs)

/-- A list of texts. -/
def strings (texts : List String) : Json :=
  .array (texts.map .string)

/-- The value of the first field of that name in an object. -/
def field? (json : Json) (name : String) : Option Json :=
  match json with
  | .object fields => fields.lookup name
  | _ => none

/-! ## Taking values apart -/

/-- The text that a value is. -/
def string? : Json → Option String
  | .string value => some value
  | _ => none

/-- The truth value that a value is. -/
def bool? : Json → Option Bool
  | .bool value => some value
  | _ => none

/-- A natural number below a bound. -/
def natBelow? (bound : Nat) : Json → Option Nat
  | .number (.natural n) => if n < bound then some n else none
  | _ => none

/-- The items of a value that is an array. -/
def array? : Json → Option (List Json)
  | .array items => some items
  | _ => none

/-- A list whose items can all be read. -/
def list? {α : Type} (item? : Json → Option α) (json : Json) : Option (List α) := do
  (← json.array?).mapM item?

/-- The name of a case, as a text or as an object with that one field and nothing in it. -/
def case? : Json → Option String
  | .string name => some name
  | .object [(name, .null)] => some name
  | _ => none

/-- The only field with one of the given names, if there is one. Two such fields are refused. -/
def onlyField? (fields : List (String × Json)) (names : List String) : Option (Option Json) :=
  match fields.filter fun (name, _) => names.contains name with
  | [] => some none
  | [(_, value)] => some (some value)
  | _ => none

/-- The fields of a record, each given with the names it goes by: from an object without
repeated fields, in which other fields are passed over, or from an array with the fields in
order, of which the last may be missing. -/
def record? (fields : List (List String)) : Json → Option (List (Option Json))
  | .object written => fields.mapM (onlyField? written)
  | .array items =>
      if items.length ≤ fields.length then
        some (items.map some ++ List.replicate (fields.length - items.length) none)
      else none
  | _ => none

end Json

end Reckoner
