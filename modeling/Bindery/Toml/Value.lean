/-!
# `Toml.Value` — what a TOML text can say

A table remembers how it came about, because that decides what may still be added to it: a table written inline is
finished, one that a header opened takes no dotted keys from outside, and one that only lies on the way to another
may still be opened.

## Contents
- `Origin`, `Value`, `Entries`.
- `Problem`: why a text is refused.
-/

namespace Bindery
namespace Toml

/-- How a table came about. -/
inductive Origin where
  /-- Written in braces. -/
  | inline
  /-- Opened by a header of its own. -/
  | header
  /-- Passed through by a dotted key. -/
  | dotted
  /-- Passed through by the header of another table. -/
  | implied
deriving DecidableEq, Repr

/-- A value. Floats and moments in time are kept as they are written. -/
inductive Value where
  | text (value : String)
  | integer (value : Int)
  | float (written : String)
  | boolean (value : Bool)
  | moment (written : String)
  | array (items : List Value)
  | table (origin : Origin) (entries : List (String × Value))
  /-- Tables opened one after the other by headers in double brackets. -/
  | tables (items : List (List (String × Value)))

/-- The entries of a table, in the order in which their keys first appear. -/
abbrev Entries := List (String × Value)

/-- The value of a key. -/
def Entries.get? (entries : Entries) (key : String) : Option Value :=
  (entries.find? fun entry => entry.1 == key).map (·.2)

/-- Why a text is refused. -/
inductive Problem where
  | malformed
  | taken (key : String)
  | wrongType (key : String)
deriving DecidableEq, Repr

/-- A problem in words. -/
def Problem.message : Problem → String
  | .malformed => "invalid TOML"
  | .taken key => "key '" ++ key ++ "' cannot be used again"
  | .wrongType key => "invalid value for key '" ++ key ++ "'"

end Toml
end Bindery
