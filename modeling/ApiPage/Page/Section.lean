import ApiPage.Page.Code
import ApiPage.Page.ParamList

/-!
# Sections

The block of a page that documents one function or property: its heading, its code block and its
prose, the parts a blank line apart.
-/

namespace ApiPage

/-- A heading of the second rank. -/
def sectionHeading (name : Str) : Str :=
  "## " ++ escapeName name

/-- Parts with a blank line between neighbours. -/
def joinParts (parts : List Str) : Str :=
  Text.joinWith "\n\n" parts

/-- A part under a heading of its own, if there is one. -/
def headed (heading : Str) : Option Str → List Str
  | none => []
  | some text => [heading, text]

/-- The summary of prose, if there is any. -/
def summaryPart (d : Option Docs) : Option Str :=
  d.map (·.summary)

/-- The details of prose, if there are any. -/
def detailsPart (d : Option Docs) : Option Str :=
  d.bind (·.details)

/-- The prose of a function in parts: its summary, its parameters, what it gives back and its
details, which need a heading only where something stands between them and the summary. -/
def Function.prose (f : Function) : List Str :=
  let parameters := ParamList.ofFunction? f
  let returned := f.returns.docs.map Docs.combined
  let details := detailsPart f.docs
  (summaryPart f.docs).toList ++ headed "#### Parameters" parameters ++
    headed "#### Returns" returned ++
      if parameters.isSome || returned.isSome then headed "#### Details" details
      else details.toList

/-- The body of a function's section. -/
def Function.body (style : Style) (name : Str) (f : Function) : List Str :=
  codeBlock style.codeLanguage (f.prototype style name) :: f.prose

/-- The section of a function. -/
def Function.section (style : Style) (name : Str) (f : Function) : Str :=
  joinParts (sectionHeading name :: f.body style name)

/-- The section of a function without its heading. -/
def Function.bareSection (style : Style) (name : Str) (f : Function) : Str :=
  joinParts (f.body style name)

/-- The section of a property. -/
def Property.section (style : Style) (name : Str) (p : Property) : Str :=
  joinParts (sectionHeading name ::
    codeBlock style.codeLanguage (name ++ ": " ++ Ty.text p.ty) ::
      ((summaryPart p.docs).toList ++ (detailsPart p.docs).toList))

/-- The section of a member. -/
def Member.section (style : Style) (name : Str) : Member → Str
  | .function f => f.section style name
  | .property p => p.section style name

end ApiPage
