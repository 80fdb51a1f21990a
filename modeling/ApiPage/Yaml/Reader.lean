import ApiPage.ScalarFault
import ApiPage.Text.Blank
import ApiPage.Value

/-!
# Readers of YAML text

Documents and settings are read by whatever reader of YAML there is. All that is asked of it is that it
finds no collection in a text of blanks.
-/

namespace ApiPage.Yaml

/-- Why a reader has no data for a text: the text is no YAML, for the reason given, or a scalar in it stands
for nothing. -/
inductive Refusal
  | malformed (reason : String)
  | scalar (fault : ScalarFault)
  deriving DecidableEq, Repr

/-- A reader of YAML text. -/
structure Reader where
  read : String → Except Refusal Value
  /-- A text of blanks is empty, or one scalar. -/
  scalar_of_blank : ∀ {text : String} {v}, Text.allBlank text = true → read text = .ok v →
    ∃ s, v = .scalar s

end ApiPage.Yaml
