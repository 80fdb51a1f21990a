import ApiPage.Text.Str

/-!
# Page style

The settings that a page's layout depends on, with the values they have when nobody sets them.
-/

namespace ApiPage

/-- Layout settings of a page. -/
structure Style where
  /-- A prototype with more documented parameters is laid out in lines. -/
  maxDocumentedParams : Int := 3
  /-- A prototype whose one line is longer is laid out in lines. -/
  maxLineLength : Int := 80
  /-- The language tag of code blocks. -/
  codeLanguage : Str := "python"
  /-- What stands before a parameter on a line of its own. -/
  paramIndent : Str := "    "
  deriving DecidableEq, Repr

end ApiPage
