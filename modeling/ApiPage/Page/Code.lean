import ApiPage.Item.Params
import ApiPage.Page.Style

/-!
# Names and code on a page

`escapeName` keeps an underscore from being read as emphasis, `codeBlock` fences code, and `prototype`
is the declaration of a function, on one line or with a line for each parameter.
-/

namespace ApiPage

/-- A character of a name outside code: an underscore gets a backslash. -/
def escapeChar (c : CodePoint) : List CodePoint :=
  if c = '_' then ['\\', '_'] else [c]

/-- A name as it stands outside code. -/
def escapeName (name : Str) : Str :=
  Str.ofList (name.toList.flatMap escapeChar)

theorem toList_escapeName (name : Str) :
    (escapeName name).toList = name.toList.flatMap escapeChar := by
  simp [escapeName]

/-- Code between fences, with a language tag. -/
def codeBlock (language contents : Str) : Str :=
  "```" ++ language ++ "\n" ++ contents ++ "\n```"

namespace Function

/-- The return type of a declaration. -/
def returnSuffix (f : Function) : Str :=
  Param.typeSuffix " -> " f.returns.ty

/-- A declaration on one line. -/
def inlinePrototype (name : Str) (f : Function) : Str :=
  "def " ++ name ++ "(" ++ Params.inlineText f.params ++ ")" ++ f.returnSuffix

/-- A declaration with every parameter on a line of its own. -/
def linesPrototype (indent name : Str) (f : Function) : Str :=
  "def " ++ name ++ "(\n" ++ Params.linesText indent f.params ++ ")" ++ f.returnSuffix

/-- Does the declaration exceed one of the limits of the style? -/
def needsLines (style : Style) (name : Str) (f : Function) : Bool :=
  style.maxDocumentedParams < (Params.documented f.params).length ||
    style.maxLineLength < (f.inlinePrototype name).length

/-- The declaration of a function. -/
def prototype (style : Style) (name : Str) (f : Function) : Str :=
  if f.needsLines style name then f.linesPrototype style.paramIndent name
  else f.inlinePrototype name

end Function

end ApiPage
