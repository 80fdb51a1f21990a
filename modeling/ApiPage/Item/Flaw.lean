import ApiPage.Item.Location
import ApiPage.Ty.Reading

/-!
# Why a document describes no item

A refusal is a place in the document and a flaw there. `ModelError.message` is its wording. Where a number
that the wording, a place or an item would show has too many digits to be written, there is no refusal
either.
-/

namespace ApiPage

/-- What is wrong at a place of a document. -/
inductive Flaw
  /-- The item's kind is none of the four. -/
  | unknownKind (found : Value)
  | notAMapping
  | notAList
  | notText
  | emptyOrNotText
  | notTypeText
  | badType (cause : Ty.ReadError)
  /-- The parameter's kind is none of the five. -/
  | unknownParamKind (found : Value)
  /-- A type may hold functions and properties only. -/
  | notForTypes
  | duplicateParam (name : Str)
  /-- The file is no text of its format, for the reason that the format's reader gives. -/
  | notJson (reason : String)
  | notYaml (reason : String)
  /-- The file holds data, but no mapping. -/
  | rootNotAMapping

/-- The wording of a flaw. -/
def Flaw.message : Flaw → String
  | .unknownKind found =>
    "kind must be one of module, type, function, property; got " ++ found.literal
  | .notAMapping => "expected a mapping"
  | .notAList => "expected a list"
  | .notText => "expected a string"
  | .emptyOrNotText => "expected a non-empty string"
  | .notTypeText => "expected type text"
  | .badType cause => cause.message
  | .unknownParamKind found =>
    "expected one of positional, positional_or_keyword, keyword, args, kwargs; got " ++ found.literal
  | .notForTypes => "type members must be functions or properties"
  | .duplicateParam name => "duplicate parameter " ++ Text.quoted name
  | .notJson reason => "invalid JSON: " ++ reason
  | .notYaml reason => "invalid YAML: " ++ reason
  | .rootNotAMapping => "document root must be a mapping"

/-- A document that describes no item: the place and the flaw. -/
structure ModelError where
  location : Location
  flaw : Flaw

/-- The wording of a refusal, its place first. -/
def ModelError.message (e : ModelError) : Str :=
  e.location.text ++ ": " ++ e.flaw.message

/-- Why a document gives no item: it is refused, or a number that has to be written has too many digits. -/
inductive ItemFault
  | refused (e : ModelError)
  | unwritable

end ApiPage
