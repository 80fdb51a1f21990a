import ApiPage.Files.Basic
import ApiPage.Page.Style
import ApiPage.Text.Blank
import ApiPage.Text.Numeral
import ApiPage.Yaml.Reader

/-!
# Settings files

A style is read from a settings file. Each setting is taken from its own entry alone; an entry that
is absent, of another kind or out of range leaves the setting as it is by default. Only a number for
which no text can be made, as an indent or as a language, is a fault. The reader of YAML and the home
directories that a path may name are those of whoever reads.
-/

namespace ApiPage

namespace Settings

/-- The name of a settings file in its directory. -/
def fileName : String := ".docrender.yml"

/-! ### Entries -/

/-- A section: a mapping, or nothing. -/
def sectionOf : Value → Entries
  | .map entries => entries
  | _ => []

/-- The value of an entry of a section, null where there is none. -/
def entry (entries : Entries) (part key : String) : Value :=
  (sectionOf (entries.field part)).field key

/-- The most characters that a text may have. -/
def lengthLimit : Nat := 9223372036854775807

section

variable (form : Text.NumeralForm)

/-- A whole number, or a text that spells one. A truth value is no number. -/
def int? : Value → Option Int
  | .scalar (.int i) => some i
  | .scalar (.text (.whole s)) => form.read? s
  | _ => none

/-- A text, or a number as text. -/
def text? : Value → Except ScalarFault (Option Str)
  | .scalar (.text s) => .ok (some s)
  | .scalar (.int i) =>
    match form.write? i with
    | some s => .ok (some s)
    | none => .error .unwritable
  | .scalar (.float x) => .ok (some (Scalar.plain (.float x)))
  | _ => .ok none

/-- So many spaces. -/
def spaces (n : Nat) : Str :=
  String.ofList (List.replicate n ' ')

/-- An indent: a positive number of spaces, or a blank text. -/
def indent? (v : Value) : Except ScalarFault (Option Str) :=
  match int? form v with
  | some n =>
    if n ≤ 0 then .ok none
    else if n ≤ lengthLimit then .ok (some (spaces n.toNat))
    else .error .uncountable
  | none =>
    match v with
    | .scalar (.text s) => .ok (if s ≠ "" ∧ Text.allBlank s then some s else none)
    | _ => .ok none

/-- A number in a range, or nothing. -/
def intFrom? (least : Int) (v : Value) : Option Int :=
  (int? form v).filter (least ≤ ·)

/-- The style that the entries of a settings file set. -/
def style (entries : Entries) : Except ScalarFault Style := do
  let d : Style := {}
  let indent ← indent? form (entry entries "prototype" "indent")
  let language ← text? form (entry entries "code_block" "language")
  .ok
    { maxDocumentedParams :=
        (intFrom? form 0 (entry entries "prototype" "max_documented_params")).getD
          d.maxDocumentedParams
      maxLineLength :=
        (intFrom? form 1 (entry entries "prototype" "max_line_length")).getD d.maxLineLength
      codeLanguage := language.getD d.codeLanguage
      paramIndent := indent.getD d.paramIndent }

end

/-! ### Files -/

/-- Why a settings file sets no style. -/
inductive Fault
  /-- The path names a home directory that is not known. -/
  | noHome
  | text (fault : Files.TextFault)
  /-- A scalar in the file stands for nothing, or a number has no text. -/
  | scalar (fault : ScalarFault)
  /-- The file, of the name given, is no YAML, for the reason that the reader gives. -/
  | notYaml (name reason : String)
  | rootNotAMapping
  deriving DecidableEq, Repr

/-- The entries of a settings file's text; vacant data counts as none. -/
def entries (yaml : Yaml.Reader) (name text : String) : Except Fault Entries :=
  if Text.allBlank text then .ok []
  else match yaml.read text with
    | .error (.malformed reason) => .error (.notYaml name reason)
    | .error (.scalar fault) => .error (.scalar fault)
    | .ok v =>
      if v.isVacant then .ok []
      else match v with
        | .map es => .ok es
        | _ => .error .rootNotAMapping

/-- What a path leads to, if it leads to anything. -/
def look (fs : Files) (p : Path) : Except Fault (Option FileNode) :=
  (fs.look p).mapError fun fault => .text (.file fault)

/-- The settings file that a path names: the path itself, or the settings file in its directory. -/
def path (home : Home) (fs : Files) (p : Path) : Except Fault Path :=
  match p.expandUser home with
  | none => .error .noHome
  | some p => do
    let node ← look fs p
    .ok (.ofPlace ((if node = some .directory then p.child fileName else p).resolve fs.cwd))

/-- The style that the text of a settings file sets. -/
def ofText (form : Text.NumeralForm) (yaml : Yaml.Reader) (name text : String) : Except Fault Style := do
  let es ← entries yaml name text
  (style form es).mapError .scalar

/-- The style that a settings file sets; without the file, nothing is set. -/
def readIn (form : Text.NumeralForm) (yaml : Yaml.Reader) (home : Home) (fs : Files) (p : Path) :
    Except Fault Style := do
  let file ← path home fs p
  match ← look fs file with
  | none => .ok {}
  | some _ =>
    match fs.readText file with
    | .error fault => .error (.text fault)
    | .ok text => ofText form yaml file.name text

/-- The style that a settings file sets, its numbers in the usual form. -/
def read (yaml : Yaml.Reader) (home : Home) (fs : Files) (p : Path) : Except Fault Style :=
  readIn .usual yaml home fs p

end Settings

end ApiPage
