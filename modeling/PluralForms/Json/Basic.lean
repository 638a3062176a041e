import PluralForms.Json.Number
import PluralForms.Table

/-!
# JSON values

The values of JSON texts. The members of an object are kept as they come; what an object means is
the table of its members, in which a repeated name has its last value (`members?`).
-/

namespace PluralForms

/-- A JSON value. -/
inductive Json where
  | null
  | bool (value : Bool)
  | number (value : JsonNumber)
  | string (value : String)
  | array (elements : List Json)
  | object (members : List (String × Json))
deriving Inhabited

namespace Json

/-- The number `n`. -/
def nat (n : Nat) : Json :=
  .number (.ofNat n)

/-- The text of a string. -/
def string? : Json → Option String
  | .string s => some s
  | _ => none

/-- The members of an object, by name. -/
def members? : Json → Option (Table String Json)
  | .object ms => some (.ofList ms)
  | _ => none

/-- The member of an object with the given name. -/
def get? (value : Json) (name : String) : Option Json :=
  value.members?.bind (·.get? name)

end Json

end PluralForms
