/-!
# `Json.Basic` — JSON values

Members of an object keep their order. Whole numbers are numbers; a number written with a fraction or an exponent is
kept as it was written, since nothing here computes with one.
-/

namespace Bindery

/-- A JSON value. -/
inductive Json where
  | null
  | boolean (value : Bool)
  | integer (value : Int)
  | fraction (spelling : String)
  | string (value : String)
  | array (items : List Json)
  | object (members : List (String × Json))

/-- The value of an object's member. -/
def Json.member? (members : List (String × Json)) (name : String) : Option Json :=
  (members.find? fun entry => entry.1 == name).map (·.2)

end Bindery
