import ApiPage.ScalarFault

/-!
# Why a text is no YAML data

Either the text is no YAML, or a scalar in it has the form of a kind and stands for none of it.
-/

namespace ApiPage.Yaml

/-- Why a text holds no data. -/
inductive Fault
  | notYaml
  | scalar (fault : ScalarFault)
  deriving DecidableEq, Repr

/-- A part of a text that has to be there for the text to be YAML. -/
def expected {α : Type} : Option α → Except Fault α
  | some a => .ok a
  | none => .error .notYaml

@[simp] theorem expected_some {α : Type} (a : α) : expected (some a) = .ok a := rfl

end ApiPage.Yaml
