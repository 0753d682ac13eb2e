import Bindery.Settings
import Bindery.Storage.FileM
import Bindery.Toml.Reader

/-!
# `Settings.File` — settings kept in a file

## Contents
- `Settings.ofToml`: the settings that a TOML text gives; `Settings.ofText`: those of them that will do.
- `Settings.load`, `Settings.discover`: from a given file, or from the file of the usual name if there is one.
-/

namespace Bindery
namespace Settings

/-- The settings that a table gives. Keys that are not settings do not matter. -/
def ofEntries (entries : Toml.Entries) : Except Toml.Problem Settings := do
  let checkIncludeCycles ←
    match entries.get? "check_include_cycles" with
    | none => .ok true
    | some (.boolean value) => .ok value
    | some _ => .error (.wrongType "check_include_cycles")
  let maxIncludeDepth ←
    match entries.get? "max_include_depth" with
    | none => .ok 64
    | some (.integer (.ofNat value)) => .ok value
    | some _ => .error (.wrongType "max_include_depth")
  return ⟨checkIncludeCycles, maxIncludeDepth⟩

/-- The settings that a TOML text gives, or what is wrong with it. -/
def ofToml (text : String) : Except String Settings :=
  (Toml.read text >>= ofEntries).mapError Toml.Problem.message

/-- Why a text gives no settings. -/
inductive Refused where
  | toml (problem : String)
  | zeroDepth
deriving DecidableEq, Repr

/-- Why a text gives no settings, in words. -/
def Refused.message : Refused → String
  | .toml problem => "Toml deserialization error: " ++ problem
  | .zeroDepth => "max_include_depth must be at least 1"

section

/-! How settings are written is not fixed here: `reading` gives those of a text, or says what is wrong with it. -/

variable (reading : String → Except String Settings)

/-- The settings that a text gives; the depth is at least one. -/
def ofText (text : String) : Except Refused Settings :=
  match reading text with
  | .error problem => .error (.toml problem)
  | .ok settings => if settings.maxIncludeDepth = 0 then .error .zeroDepth else .ok settings

/-- The settings that were read from the file at `path`. -/
def ofAnswer (path : String) : Except Refusal String → Except Failure Settings
  | .error refusal => .error (.general ("Unable to read config: " ++ refusal.text) (some path))
  | .ok text => (ofText reading text).mapError fun refused => .general refused.message (some path)

/-- The settings in the file at `path`. -/
def load (path : String) : FileM (Except Failure Settings) :=
  .read path [] fun answer => .done (ofAnswer reading path answer)

/-- The name of the file that settings are looked for in. -/
def fileName : String := "doculisp.toml"

/-- The settings in the usual file of a directory. If nothing is there, for whatever reason, the usual settings. -/
def discover (directory : String) : FileM (Except Failure Settings) :=
  .read (Path.join directory fileName) [] fun answer => .done <|
    match answer with
    | .error refusal =>
      if refusal.isThere then ofAnswer reading (Path.join directory fileName) answer else .ok {}
    | .ok _ => ofAnswer reading (Path.join directory fileName) answer

end

end Settings
end Bindery
