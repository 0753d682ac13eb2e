import Bindery.Location
import Bindery.Path.DocumentPath

/-!
# `Fault` — what can be wrong with a document, and where

## Contents
- `Cause`: what is wrong; `Cause.message`: how that is said.
- `Fault`: a cause at a location; `Fault.toFailure`.
-/

namespace Bindery

/-- What is wrong at some place of a document. -/
inductive Cause where
  /-- A code fence without its closing backticks. -/
  | fenceOpen
  /-- A code span without its closing backtick on the same line. -/
  | spanOpen
  /-- A comment without its closing mark. -/
  | commentOpen
  /-- A directive block that its comment or the text ends before. -/
  | blockOpen
  /-- A parenthesis without its partner. -/
  | parenthesisOpen
  /-- A directive block inside another. -/
  | blockNested
  /-- Something outside of all parentheses in a file of directives. -/
  | outsideParentheses (path : String)
  /-- A remark among directives without its closing parenthesis. -/
  | remarkOpen
  /-- An opening parenthesis that no atom follows. -/
  | atomMissing
  /-- Parentheses with nothing between them. -/
  | parenthesesEmpty
  /-- Prose before the end of a form. -/
  | proseInForm (atom : String)
  /-- A parameter outside of all forms. -/
  | parameterOutside
  /-- A parameter behind a sub-form. -/
  | parameterLate (atom : String)
  /-- A second parameter. -/
  | parameterRepeated (atom : String)
  /-- A closing parenthesis without its partner. -/
  | closeUnmatched
  /-- A form without its closing parenthesis. -/
  | formOpen (atom : String)
  /-- A form without the parameter it needs. -/
  | parameterRequired (atom : String)
  /-- A form with a parameter it cannot have. -/
  | parameterRefused (atom : String)
  /-- A form with sub-forms it cannot have. -/
  | childrenRefused (atom : String)
  /-- A form that its parent does not know. -/
  | formUnknown (atom parent : String)
  /-- A second form of a kind that its parent takes once. -/
  | formRepeated (rule parent : String)
  /-- A parent without a form that it needs. -/
  | formRequired (rule parent : String)
  /-- Prose where only forms may stand. -/
  | proseRefused (grammar : String)
  /-- A text that is not an id. -/
  | idInvalid (id : String)
  /-- An id that already stands for something else. -/
  | idTaken (id target : String)
  /-- An id that stands for nothing. -/
  | idUnknown (id : String)
  /-- A table of contents whose style is given twice. -/
  | styleTwice
  /-- A text that is not a style, beside all that are. -/
  | styleUnknown (text : String) (known : List String)
  /-- An include below the deepest level allowed. -/
  | includeTooDeep (limit : Nat) (path : DocumentPath)
  /-- A chain of includes that comes back to one of its documents. -/
  | includeCycle (chain : List DocumentPath)
deriving DecidableEq, Repr

/-- What a fault says is wrong. -/
def Cause.message : Cause → String
  | .fenceOpen => "Multiline code block not closed"
  | .spanOpen => "Inline code block not closed"
  | .commentOpen => "HTML comment not closed"
  | .blockOpen => "Doculisp block not closed"
  | .parenthesisOpen => "Parenthesis not closed"
  | .blockNested => "Doculisp blocks cannot be nested"
  | .outsideParentheses path => "'" ++ path ++ "' has something not contained in parenthesis"
  | .remarkOpen => "Comment block not closed"
  | .atomMissing => "Expected an atom after '('"
  | .parenthesesEmpty => "Empty parenthesis"
  | .proseInForm atom => "`" ++ atom ++ "` not closed before text"
  | .parameterOutside => "Parameter found outside of a form"
  | .parameterLate atom => "The parameter of `" ++ atom ++ "` must come before its sub-forms"
  | .parameterRepeated atom => "`" ++ atom ++ "` takes at most one parameter"
  | .closeUnmatched => "Unmatched closing parenthesis"
  | .formOpen atom => "`" ++ atom ++ "` not closed"
  | .parameterRequired atom => "`" ++ atom ++ "` requires a parameter"
  | .parameterRefused atom => "`" ++ atom ++ "` does not take a parameter"
  | .childrenRefused atom => "`" ++ atom ++ "` cannot contain sub-forms"
  | .formUnknown atom parent => "`" ++ atom ++ "` is not valid inside " ++ parent
  | .formRepeated rule parent => parent ++ " may only contain one `" ++ rule ++ "`"
  | .formRequired rule parent => parent ++ " requires `" ++ rule ++ "`"
  | .proseRefused grammar => "Text is not allowed in " ++ grammar
  | .idInvalid id => "Invalid id `" ++ id ++ "`: ids must be lower-kebab-case"
  | .idTaken id target => "Duplicate id `" ++ id ++ "`: already refers to " ++ target
  | .idUnknown id => "Unknown id `" ++ id ++ "`"
  | .styleTwice => "`toc` takes either a style parameter or a `style` sub-form, not both"
  | .styleUnknown text known =>
    "Unrecognized table of contents style '" ++ text ++ "'; expected one of: "
      ++ ", ".intercalate known
  | .includeTooDeep limit path =>
    "Include depth limit of " ++ toString limit ++ " exceeded by " ++ path.text
  | .includeCycle chain =>
    "Include cycle detected: " ++ " -> ".intercalate (chain.map DocumentPath.text)

/-- A cause and the place it was found at. -/
structure Fault where
  cause : Cause
  location : Location
deriving DecidableEq, Repr

/-- A fault as a failure of the compilation. -/
def Fault.toFailure (fault : Fault) : Failure :=
  .code fault.cause.message fault.location.document.path fault.location.position.line
    fault.location.position.column

end Bindery
