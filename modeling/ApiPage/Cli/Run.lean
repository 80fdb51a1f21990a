import ApiPage.Cli.Help
import ApiPage.Item.File
import ApiPage.Item.Select
import ApiPage.Journal
import ApiPage.Page.Basic
import ApiPage.Page.Settings

/-!
# Running a command line

`run` is the whole program as a function of the files and the command line: how it ends, what it
prints, and the file that it writes. The settings are read before the model, and nothing is written
before everything is read and laid out. A file is emptied before it is written to, also if the text then has
no bytes. What the program finds around it, besides the files, is the `Host`.
-/

namespace ApiPage.Cli

/-- What the program finds around it. -/
structure Host where
  yaml : Yaml.Reader
  home : Home
  /-- The width of the terminal. -/
  columns : Nat
  /-- Why the terminal cannot be given a text, if it cannot. -/
  unshowable? : Str → Option String

/-- Why a terminal that takes bytes in UTF-8 cannot be given a text. -/
def Host.unshowableUtf8? (text : Str) : Option String :=
  match Text.encode text with
  | .ok _ => none
  | .error reason => some reason

/-- A host of which nothing is known but its reader of YAML. -/
def Host.bare (yaml : Yaml.Reader) : Host where
  yaml := yaml
  home _ := none
  columns := 80
  unshowable? := unshowableUtf8?

/-- A fault that ends the program before it can report. -/
inductive Crash
  | page (fault : PageFault)
  | file (fault : FileFault)
  /-- A scalar in a document stands for nothing. -/
  | scalar (fault : ScalarFault)
  /-- The path to a member is a blank value. -/
  | blankPath
  /-- A path names a home directory that is not known. -/
  | noHome
  /-- The text to give has no bytes, for the reason given. -/
  | encoding (reason : String)
  deriving DecidableEq, Repr

/-- The wording of a fault. -/
def Crash.message : Crash → String
  | .page fault => fault.message
  | .file fault => fault.reason
  | .scalar fault => fault.message
  | .blankPath => "'list' object has no attribute 'split'"
  | .noHome => "Could not determine home directory."
  | .encoding reason => reason

/-- How the program ends. -/
inductive Ending
  | exit (code : Nat)
  | crash (c : Crash)
  deriving DecidableEq, Repr

/-- What a run does. -/
structure Outcome where
  ending : Ending
  stdout : Str := ""
  stderr : String := ""
  /-- The file written, at its place. -/
  written : Option (Place × List UInt8) := none

/-- The files after a run. -/
def Outcome.after (o : Outcome) (fs : Files) : Files :=
  match o.written with
  | none => fs
  | some (place, bytes) => fs.put place (.file bytes)

/-! ### What the program tells -/

/-- A style as the journal shows it. -/
def styleText (s : Style) : String :=
  "RenderConfig(max_documented_params=" ++ toString s.maxDocumentedParams ++ ", max_line_length=" ++
    toString s.maxLineLength ++ ", code_language=" ++ Text.quoted s.codeLanguage ++
      ", param_indent=" ++ Text.quoted s.paramIndent ++ ")"

/-- The sort of an item as the journal shows it. -/
def sortText : Item → String
  | .module _ _ => "DocModule"
  | .type _ _ _ _ => "DocType"
  | .function _ => "DocFunction"
  | .property _ => "DocProperty"

/-- A record of a part of the program. -/
def record (level : Level) (part message : String) : Record :=
  ⟨level, Record.sourceOf part, message⟩

/-- The settings are known. -/
def styleRecord (s : Style) : Record :=
  record .debug "cli" ("Using render config " ++ styleText s)

/-- The model is read. -/
def modelRecord (name : Str) (item : Item) (path : Path) : Record :=
  record .debug "loader" ("Loaded " ++ sortText item ++ " " ++ Text.shown name ++ " from " ++ path.text)

/-- A page is laid out: the item, and the modules that have no place on it. -/
def pageRecords (name : Str) (item : Item) : List Record :=
  record .debug "markdown" ("Rendering " ++ sortText item ++ " " ++ Text.shown name) ::
    match item with
    | .module _ members =>
      (members.filter fun m => m.2.asMember.isNone).map fun m =>
        record .debug "markdown" ("Skipping nested module " ++ Text.shown (name ++ "." ++ m.1.plain))
    | _ => []

/-- A parameter has nothing to show. -/
def paramRecords (p : Param) (text : Str) : List Record :=
  if text = "" then
    [record .warning "cli" ("Parameter " ++ Text.shown p.starredName ++ " has no documentation")]
  else []

/-- The page is written to a file. -/
def writtenRecord (cwd : Place) (p : Path) : Record :=
  record .info "cli" ("Markdown written to " ++ Path.relativeText cwd p)

/-! ### Failures -/

/-- Why a run fails while it reads. -/
inductive ReadFault
  | settings (fault : Settings.Fault)
  | model (fault : ModelFile.Fault)

/-- The fault that ends a run before it can report, if it is one. -/
def ReadFault.crash? : ReadFault → Option Crash
  | .settings .noHome => some .noHome
  | .settings (.scalar fault) => some (.scalar fault)
  | .model (.scalar fault) => some (.scalar fault)
  | _ => none

/-- The report of a text that cannot be had. Whatever the file, the model is named. -/
def textReport (command : String) (path : Path) : Files.TextFault → String
  | .file .notFound =>
    "[Errno 2] " ++ FileFault.notFound.reason ++ ": " ++ Text.quoted path.text ++ "\n"
  | .file fault =>
    command ++ " failed: cannot read " ++ path.text ++ ": " ++ fault.reason ++ "\n"
  | .encoding fault =>
    command ++ " failed: " ++ path.text ++ " is not UTF-8 text (" ++ fault.reason ++ ")\n"

/-- The report of a failure while reading; a fault that ends the run before is not reported. -/
def ReadFault.report (command : String) (path : Path) : ReadFault → String
  | .settings (.text fault) => textReport command path fault
  | .settings (.notYaml name reason) =>
    command ++ " failed: Failed to parse " ++ name ++ ": " ++ reason ++ "\n"
  | .settings .rootNotAMapping =>
    command ++ " failed: " ++ Settings.fileName ++ " must contain a mapping at the root\n"
  | .model (.text fault) => textReport command path fault
  | .model (.model e) => command ++ " failed: " ++ Text.shown e.message ++ "\n"
  | _ => ""

/-- How a failure while reading ends the program, and what it reports. -/
def ReadFault.ending (command : String) (path : Path) (fault : ReadFault) : Ending × String :=
  match fault.crash? with
  | some crash => (.crash crash, "")
  | none => (.exit 1, fault.report command path)

/-! ### Reading -/

/-- The path under which settings are looked for: the one given, or the directory of the model. -/
def settingsPath (r : Request) : Path :=
  match r.config with
  | some s => if s = "" then (Path.ofString r.path).parent else Path.ofString s
  | none => (Path.ofString r.path).parent

/-- The paths that a request may read or write. -/
def consulted (home : Home) (cwd : Place) (r : Request) : List Path :=
  let files := match (settingsPath r).expandUser home with
    | some settings => [settings, settings.child Settings.fileName]
    | none => []
  let output := match r.action with
    | .render _ (some s) => [Path.ofString s]
    | _ => []
  Path.ofString r.path :: (files ++ files.map fun p => Path.ofPlace (p.resolve cwd)) ++ output

/-- What a run reads. -/
structure Input where
  style : Style
  name : Str
  item : Item

/-- Reads the settings and then the model; the records tell how far it came. -/
def readInput (host : Host) (fs : Files) (r : Request) : List Record × Except ReadFault Input :=
  let path := Path.ofString r.path
  match Settings.read host.yaml host.home fs (settingsPath r) with
  | .error fault => ([], .error (.settings fault))
  | .ok style =>
    match ModelFile.read host.yaml fs path with
    | .error fault => ([styleRecord style], .error (.model fault))
    | .ok (name, item) =>
      ([styleRecord style, modelRecord name item path], .ok ⟨style, name, item⟩)

/-! ### Laying out -/

/-- Why a run has nothing to show. -/
inductive ShowFault
  | select (fault : SelectFault)
  | page (fault : PageFault)
  | blankPath
  deriving DecidableEq, Repr

/-- The text that a request asks for, and what there is to tell about it. -/
def show? (input : Input) : Action → List Record × Except ShowFault Str
  | .render none _ =>
    (pageRecords input.name input.item,
      match itemPage input.style input.name input.item with
      | .error fault => .error (.page fault)
      | .ok text => .ok text)
  | .render (some .blank) _ => ([], .error .blankPath)
  | .render (some (.text path)) _ =>
    ([], match input.item.select input.name path with
      | .error fault => .error (.select fault)
      | .ok (name, m) => .ok (m.section input.style name))
  | .param .blank _ => ([], .error .blankPath)
  | .param (.text path) .blank =>
    match input.item.selectFunction input.name path with
    | .error fault => ([], .error (.select fault))
    | .ok _ => ([], .error (.select (.noParam path Operand.blank.shown)))
  | .param (.text path) (.text param) =>
    match input.item.selectParam input.name path param with
    | .error fault => ([], .error (.select fault))
    | .ok p =>
      let text := ParamList.entryText p.starredName p
      (paramRecords p text, .ok text)

/-- A text that ends its last line, as a page may and an entry does. -/
def endLine (text : Str) : Str :=
  if text.toList.getLast? = some (.char '\n') then text else text ++ "\n"

/-- The file that a request names for its output. -/
def outputPath? : Action → Option Path
  | .render _ (some s) => if s = "" then none else some (Path.ofString s)
  | _ => none

/-! ### The program -/

/-- The command of an action. -/
def commandOf : Action → Command
  | .render _ _ => .render
  | .param _ _ => .param

/-- The journal of a request, on the console. -/
def told (r : Request) (rs : List Record) : String :=
  (Journal.initial.setUp r.verbose r.quiet none).consoleTexts rs

/-- The end of a run that has a text to give, and has told `rs`. -/
def give (host : Host) (fs : Files) (r : Request) (rs : List Record) (text : Str) : Outcome :=
  match outputPath? r.action with
  | none =>
    match host.unshowable? text with
    | some reason => { ending := .crash (.encoding reason), stderr := told r rs }
    | none => { ending := .exit 0, stdout := text, stderr := told r rs }
  | some p =>
    match fs.target p with
    | .error fault => { ending := .crash (.file fault), stderr := told r rs }
    | .ok place =>
      match Text.encode text with
      | .error reason =>
        { ending := .crash (.encoding reason), stderr := told r rs, written := some (place, []) }
      | .ok bytes =>
        { ending := .exit 0
          stderr := told r (rs ++ [writtenRecord fs.cwd p])
          written := some (place, bytes) }

/-- The run of a request. -/
def runRequest (host : Host) (fs : Files) (r : Request) : Outcome :=
  match readInput host fs r with
  | (rs, .error fault) =>
    let (ending, report) := fault.ending (commandOf r.action).title (Path.ofString r.path)
    { ending := ending, stderr := told r rs ++ report }
  | (rs, .ok input) =>
    match show? input r.action with
    | (more, .error (.select fault)) =>
      { ending := .exit 1, stderr := told r (rs ++ more) ++ Text.shown fault.message ++ "\n" }
    | (more, .error (.page fault)) =>
      { ending := .crash (.page fault), stderr := told r (rs ++ more) }
    | (more, .error .blankPath) => { ending := .crash .blankPath, stderr := told r (rs ++ more) }
    | (more, .ok text) => give host fs r (rs ++ more) (endLine text)

/-- The run of a command line. -/
def run (host : Host) (fs : Files) (args : List String) : Outcome :=
  match Request.parse args with
  | .error (.help program) =>
    { ending := .exit 0, stdout := (Refusal.help program).report host.columns }
  | .error refusal => { ending := .exit 2, stderr := refusal.report host.columns }
  | .ok r => runRequest host fs r

end ApiPage.Cli
