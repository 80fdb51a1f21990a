import ApiPage.Yaml.Node

/-!
# YAML text

`Yaml.read` reads a text that is one YAML document; the empty text is null.
-/

namespace ApiPage.Yaml

/-- The data of a text, or the fault for which it has none. -/
def read (s : String) : Except Fault Value := do
  let ts ← tokens s.toList
  let n ← expected (Node.ofTokens? ts)
  n.read

end ApiPage.Yaml
