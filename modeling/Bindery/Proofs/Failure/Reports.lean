import Bindery.Failure.Report
import Bindery.Proofs.Json.Reading

/-!
# `Proofs.Failure.Reports` — failures survive their report

A failure is reported as JSON, and whoever reads the report has to find the failure in it that was reported: a
project's failure with the failures of its documents, and every message and path character by character. Nothing is
said here about how JSON is written and read beyond what can be relied on of any library for it, and of what makes a
failure from a JSON value only that it knows the three kinds of failures. One thing is lost on the way: readers give up
on JSON that is nested too deep, and a project in a project adds three levels. So failures come back exactly if they
are not nested deeper than that.

## Contents
- `Fits`: lines and columns of 64 bits.
- `nesting`: how deep the JSON value of a failure is nested, told by the failure.
- `Decodes`: what makes a failure from the JSON value of a failure.
- `plain_toJson`, `nesting_toJson`, `Decodes.decode_toJson`: the way into JSON values and out of them.
- `decodes_ofJson?`, `ofReport?_report`: the functions of this library.
- `survives_report_iff`: a failure is read back from its report exactly if it is not nested too deep.
-/

namespace Bindery
namespace Failure

mutual

/-- Every line and every column in a failure fits in 64 bits. -/
def Fits : Failure → Prop
  | .code _ _ line column => line < UInt64.size ∧ column < UInt64.size
  | .general _ _ => True
  | .project _ failures => AllFit failures

/-- Every line and every column in some failures fits in 64 bits. -/
def AllFit : List Failure → Prop
  | [] => True
  | failure :: others => failure.Fits ∧ AllFit others

end

mutual

/-- How deep the report of a failure is nested: an object for the kind of the failure and one for its parts, and in that
of a project the list of its outputs, which are objects, and the list of its failures. -/
def nesting : Failure → Nat
  | .code _ _ _ _ => 2
  | .general _ _ => 2
  | .project compiled failures => max (if compiled = [] then 0 else 1) (nestingAll failures) + 3

/-- How deep the deepest report of some failures is nested. -/
def nestingAll : List Failure → Nat
  | [] => 0
  | failure :: others => max failure.nesting (nestingAll others)

end

/-- An object with one member, named for the kind of a failure, that holds its parts by name. -/
def tagged (kind : String) (parts : List (String × Json)) : Json := .object [(kind, .object parts)]

/-- What makes a failure from the JSON value of one: it knows each kind by its name and by the names of its parts, and
takes a path that is null for none. -/
structure Decodes (decode : Json → Option Failure) : Prop where
  code : ∀ (message path : String) (line column : Nat), line < UInt64.size → column < UInt64.size →
    decode (tagged "Code" [("message", .string message), ("path", .string path), ("line", .integer line),
      ("char", .integer column)]) = some (.code message path line column)
  general : ∀ message : String,
    decode (tagged "General" [("message", .string message), ("path", .null)]) = some (.general message none)
  generalAt : ∀ message path : String,
    decode (tagged "General" [("message", .string message), ("path", .string path)]) =
      some (.general message (some path))
  project : ∀ (compiled : List Output) (items : List Json) (failures : List Failure),
    items.mapM decode = some failures →
    decode (tagged "Project" [("compiled", .array (compiled.map Output.toJson)), ("failures", .array items)]) =
      some (.project compiled failures)

/-! ## The JSON value of a failure -/

theorem plain_outputs (compiled : List Output) : Json.PlainItems (compiled.map Output.toJson) := by
  induction compiled with
  | nil => trivial
  | cons output others ih =>
    refine ⟨?_, ih⟩
    simp [Output.toJson, Json.Plain, Json.PlainMembers]

/-- The outputs of a project take one level, if there are any. -/
theorem nesting_outputs (compiled : List Output) :
    Json.nestingItems (compiled.map Output.toJson) = if compiled = [] then 0 else 1 := by
  induction compiled with
  | nil => rfl
  | cons output others ih =>
    rw [List.map_cons, Json.nestingItems, ih, if_neg (List.cons_ne_nil output others)]
    split <;> rfl

mutual

/-- The JSON value of a failure that fits is plain. -/
theorem plain_toJson : (failure : Failure) → failure.Fits → failure.toJson.Plain
  | .code _ _ line column, hfits => by
    have hline : (Json.integer line).Plain := ⟨line, hfits.1, rfl⟩
    have hcolumn : (Json.integer column).Plain := ⟨column, hfits.2, rfl⟩
    rw [toJson]
    exact ⟨by simp, ⟨by simp, trivial, by simp, trivial, by simp, hline, by simp, hcolumn, trivial⟩, trivial⟩
  | .general _ none, _ => by simp [toJson, Json.Plain, Json.PlainMembers]
  | .general _ (some _), _ => by simp [toJson, Json.Plain, Json.PlainMembers]
  | .project compiled failures, hfits => by
    have hcompiled := plain_outputs compiled
    have hfailures := plain_toJsonAll failures hfits
    simp [toJson, Json.Plain, Json.PlainMembers, hcompiled, hfailures]

/-- The JSON values of failures that fit are plain. -/
theorem plain_toJsonAll : (failures : List Failure) → AllFit failures →
    Json.PlainItems (toJsonAll failures)
  | [], _ => by rw [toJsonAll]; trivial
  | failure :: others, hfits => by
    rw [toJsonAll]
    exact ⟨plain_toJson failure hfits.1, plain_toJsonAll others hfits.2⟩

end

mutual

/-- The JSON value of a failure is nested as deep as the failure tells. -/
theorem nesting_toJson : (failure : Failure) → failure.toJson.nesting = failure.nesting
  | .code _ _ _ _ => by simp [toJson, nesting, Json.nesting, Json.nestingMembers]
  | .general _ none => by simp [toJson, nesting, Json.nesting, Json.nestingMembers]
  | .general _ (some _) => by simp [toJson, nesting, Json.nesting, Json.nestingMembers]
  | .project compiled failures => by
    have hcompiled := nesting_outputs compiled
    have hfailures := nesting_toJsonAll failures
    simp only [toJson, nesting, Json.nesting, Json.nestingMembers, hcompiled, hfailures]
    omega

theorem nesting_toJsonAll : (failures : List Failure) →
    Json.nestingItems (toJsonAll failures) = nestingAll failures
  | [] => by rw [toJsonAll, Json.nestingItems, nestingAll]
  | failure :: others => by
    rw [toJsonAll, Json.nestingItems, nestingAll, nesting_toJson failure, nesting_toJsonAll others]

end

section

variable {decode : Json → Option Failure}

mutual

/-- A failure that fits is made from its JSON value. -/
theorem Decodes.decode_toJson (hdecode : Decodes decode) : (failure : Failure) → failure.Fits →
    decode failure.toJson = some failure
  | .code message path line column, hfits => by
    rw [toJson]
    exact hdecode.code message path line column hfits.1 hfits.2
  | .general message none, _ => by
    rw [toJson]
    exact hdecode.general message
  | .general message (some path), _ => by
    rw [toJson]
    exact hdecode.generalAt message path
  | .project compiled failures, hfits => by
    rw [toJson]
    exact hdecode.project compiled _ failures (hdecode.decode_toJsonAll failures hfits)

theorem Decodes.decode_toJsonAll (hdecode : Decodes decode) : (failures : List Failure) →
    AllFit failures → (toJsonAll failures).mapM decode = some failures
  | [], _ => by
    rw [toJsonAll]
    rfl
  | failure :: others, hfits => by
    have hfailure := hdecode.decode_toJson failure hfits.1
    have hothers := hdecode.decode_toJsonAll others hfits.2
    rw [toJsonAll, List.mapM_cons, hfailure, hothers]
    rfl

end

end

/-! ## What this library makes of JSON values -/

theorem countOf?_integer {n : Nat} (h : n < UInt64.size) : countOf? (.integer n) = some n :=
  if_pos (Nat.lt_succ_iff.1 h)

/-- The outputs of a project are found in their JSON values. -/
theorem outputsOf?_outputs (compiled : List Output) :
    outputsOf? (.array (compiled.map Output.toJson)) = some compiled := by
  rw [outputsOf?]
  induction compiled with
  | nil => rfl
  | cons output others ih =>
    have houtput : outputOf? output.toJson = some output := by
      simp [outputOf?, Output.toJson, Json.member?, textOf?]
    rw [List.map_cons, List.mapM_cons, houtput, ih]
    rfl

theorem ofJsonAll?_eq_mapM (items : List Json) : ofJsonAll? items = items.mapM ofJson? := by
  induction items with
  | nil => rw [ofJsonAll?, List.mapM_nil]; rfl
  | cons item others ih => rw [ofJsonAll?, List.mapM_cons, ih]

/-- `ofJson?` makes failures from their JSON values. -/
theorem decodes_ofJson? : Decodes ofJson? where
  code message path line column hline hcolumn := by
    simp [tagged, ofJson?, Json.member?, textOf?, countOf?_integer hline, countOf?_integer hcolumn]
  general message := by simp [tagged, ofJson?, Json.member?, textOf?, pathOf?]
  generalAt message path := by simp [tagged, ofJson?, Json.member?, textOf?, pathOf?]
  project compiled items failures hitems := by
    have hcompiled := outputsOf?_outputs compiled
    rw [← ofJsonAll?_eq_mapM] at hitems
    simp [tagged, ofJson?, Json.member?, hcompiled, failuresIn?, hitems]

/-! ## There and back -/

/-- What comes back from the report of a failure. -/
theorem read_back {codec : Json.Codec} (hcodec : codec.Conforms) {decode : Json → Option Failure}
    (hdecode : Decodes decode) {failure : Failure} (hfits : failure.Fits) :
    (codec.read (codec.write failure.toJson)).bind decode =
      if failure.nesting < Json.nestingLimit then some failure else none := by
  have hplain := plain_toJson failure hfits
  have hwritten := hcodec.write_mem _ hplain
  rw [hcodec.read_eq _ _ hplain hwritten, nesting_toJson]
  split
  · rw [Option.bind_some, hdecode.decode_toJson failure hfits]
  · rfl

/-- What this library finds in its own reports. -/
theorem ofReport?_report {failure : Failure} (hfits : failure.Fits) :
    ofReport? failure.report = if failure.nesting < Json.nestingLimit then some failure else none :=
  read_back Json.conforms_usual decodes_ofJson? hfits

/-- **A failure survives its report** exactly if it is not nested too deep, whatever it says, whichever library writes
and reads the JSON, and whatever makes failures from JSON values. -/
theorem survives_report_iff {codec : Json.Codec} (hcodec : codec.Conforms) {decode : Json → Option Failure}
    (hdecode : Decodes decode) {failure : Failure} (hfits : failure.Fits) :
    (codec.read (codec.write failure.toJson)).bind decode = some failure ↔
      failure.nesting < Json.nestingLimit := by
  rw [read_back hcodec hdecode hfits]
  by_cases hdeep : failure.nesting < Json.nestingLimit
  · rw [if_pos hdeep]
    exact iff_of_true rfl hdeep
  · rw [if_neg hdeep]
    exact iff_of_false (Option.some_ne_none failure).symm hdeep

/-- A project in a project, with texts that need every kind of escape, and a line as large as there is. -/
def nestedFailure : Failure :=
  .project [⟨"/a \"b\".md", "C:\\out"⟩]
    [.code "A tab\t, a bell\x07\x1f and\r\na line end" "/docs/😀.md" 18446744073709551615 0,
      .project [] [.general "" none, .general "\\u0041" (some "")], .project [] []]

theorem survives_report_nested :
    nestedFailure.Fits ∧ nestedFailure.nesting = 8 ∧ ofReport? nestedFailure.report = some nestedFailure := by
  have hfits : nestedFailure.Fits := by
    simp [nestedFailure, Fits, AllFit, UInt64.size]
  have hnesting : nestedFailure.nesting = 8 := by
    simp [nestedFailure, nesting, nestingAll]
  have hdeep : nestedFailure.nesting < Json.nestingLimit := by
    rw [hnesting]
    decide
  exact ⟨hfits, hnesting, (survives_report_iff Json.conforms_usual decodes_ofJson? hfits).2 hdeep⟩

/-- A failure in projects in projects. -/
def within : Nat → Failure → Failure
  | 0, failure => failure
  | levels + 1, failure => .project [] [within levels failure]

theorem fits_within (levels : Nat) {failure : Failure} (h : failure.Fits) : (within levels failure).Fits := by
  induction levels with
  | zero => exact h
  | succ levels ih => exact ⟨ih, trivial⟩

/-- Each project adds three levels. -/
theorem nesting_within (levels : Nat) (failure : Failure) :
    (within levels failure).nesting = 3 * levels + failure.nesting := by
  induction levels with
  | zero => simp [within]
  | succ levels ih =>
    simp only [within, nesting, nestingAll, ih, if_pos]
    omega

/-- With 42 projects around it a failure does not come back. -/
theorem not_survives_report_within :
    (within 42 (.general "m" none)).Fits ∧ ofReport? (within 42 (.general "m" none)).report = none := by
  have hfits : (within 42 (.general "m" none)).Fits := fits_within 42 trivial
  have hdeep : ¬ (within 42 (.general "m" none)).nesting < Json.nestingLimit := by
    rw [nesting_within, nesting]
    decide
  rw [ofReport?_report hfits, if_neg hdeep]
  exact ⟨hfits, rfl⟩

end Failure
end Bindery
