import Bindery.Fault
import Bindery.Text.Blank

/-!
# `Page.Style` — how a table of contents lists its entries
-/

namespace Bindery

/-- How a table of contents lists its entries. -/
inductive BulletStyle where
  | noTable
  | unlabeled
  | labeled
  | numbered
  | numberedLabeled
  | bulleted
  | bulletedLabeled
deriving DecidableEq, Repr

namespace BulletStyle

/-- Every style. -/
def all : List BulletStyle :=
  [.noTable, .unlabeled, .labeled, .numbered, .numberedLabeled, .bulleted, .bulletedLabeled]

/-- The name a style is asked for by. -/
def name : BulletStyle → String
  | .noTable => "no-table"
  | .unlabeled => "unlabeled"
  | .labeled => "labeled"
  | .numbered => "numbered"
  | .numberedLabeled => "numbered-labeled"
  | .bulleted => "bulleted"
  | .bulletedLabeled => "bulleted-labeled"

/-- Whether an entry shows its label before its title. -/
def isLabeled : BulletStyle → Bool
  | .labeled | .numberedLabeled | .bulletedLabeled => true
  | _ => false

/-- The style with the given name, blanks around it aside. -/
def ofText? (text : String) : Option BulletStyle := all.find? (·.name == Text.trimmed text)

/-- The style asked for at a location. -/
def ask (text : String) (location : Location) : Except Fault BulletStyle :=
  match ofText? text with
  | some style => .ok style
  | none => .error ⟨.styleUnknown (Text.trimmed text) (all.map name), location⟩

end BulletStyle
end Bindery
