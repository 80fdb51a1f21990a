import ApiPage.Cli.Options
import ApiPage.Text.Pieces

/-!
# How the program is used

The usage line and the help page of the program and of each of its commands, laid out for a terminal of so
many columns.
-/

namespace ApiPage.Cli

namespace Layout

/-- So many blanks. -/
def blanks (n : Nat) : String :=
  String.ofList (List.replicate n ' ')

/-- A word cut into pieces of `n + 1` characters. -/
def chop (n : Nat) (word : List Char) : List (List Char) :=
  if word.length ≤ n + 1 then [word] else word.take (n + 1) :: chop n (word.drop (n + 1))
termination_by word.length

/-- Lines of at most `n + 1` characters, the first of them begun. A word longer than a line is cut, and fills
the line that it finds. -/
def wrapFrom (n : Nat) : List Char → List (List Char) → List (List Char)
  | line, [] => [line]
  | line, word :: words =>
    let begin (word : List Char) : List (List Char) :=
      (chop n word).dropLast ++ wrapFrom n ((chop n word).getLastD []) words
    if line = [] then begin word
    else if line.length + 1 + word.length ≤ n + 1 then wrapFrom n (line ++ ' ' :: word) words
    else if word.length ≤ n + 1 ∨ n + 1 ≤ line.length then line :: begin word
    else
      let left := n - line.length
      (line ++ ' ' :: word.take left) :: begin (word.drop left)

/-- A text in lines; no line is made narrower than eleven characters. -/
def wrap (width : Nat) (text : String) : List String :=
  (wrapFrom (max width 11 - 1) [] (text.toList.splitOn ' ')).map String.ofList

/-- Parts in lines behind an indent, as many in each as there is room for; the first line holds some already,
and the next part would stand at column `next`. -/
def fillFrom (columns indent : Nat) : Nat → List String → List String → List String
  | _, line, [] => if line = [] then [] else [blanks indent ++ " ".intercalate line]
  | next, line, part :: parts =>
    if next + part.length + 2 > columns ∧ line ≠ [] then
      (blanks indent ++ " ".intercalate line) :: fillFrom columns indent (indent + part.length + 1) [part] parts
    else fillFrom columns indent (next + part.length + 1) (line ++ [part]) parts

/-- Parts in lines behind an indent. -/
def fill (columns indent : Nat) (parts : List String) : List String :=
  fillFrom columns indent indent [] parts

end Layout

/-- An entry of a help page, with the entries below it. -/
structure Manual.Entry where
  name : String
  help : String := ""
  below : List (String × String) := []

/-- What there is to know about the program or a command of it. -/
structure Manual where
  title : String
  description : String := ""
  switches : List Switch
  /-- The places as the usage line shows them. -/
  places : List String
  entries : List Manual.Entry

/-! ### What is said of options and places -/

/-- What is said of an option. -/
def Switch.summary : Switch → String
  | .help => "show this help message and exit"
  | .verbose => "Increase log verbosity for troubleshooting."
  | .quiet => "Only log warnings and errors."
  | .config => "Path to .docrender.yml or its directory (defaults to the model's directory)."
  | .member => "Render only this member of a module or type."
  | .output => "Write Markdown to this file instead of stdout."

/-- What stands for the value of an option, behind a blank. -/
def Switch.valueMark : Switch → String
  | .config => " CONFIG"
  | .member => " MEMBER"
  | .output => " OUTPUT"
  | _ => ""

/-- An option in a usage line. -/
def Switch.usage (s : Switch) : String :=
  "[" ++ s.names.headD "" ++ s.valueMark ++ "]"

/-- An option as an entry of a help page. -/
def Switch.entry (s : Switch) : Manual.Entry :=
  { name := ", ".intercalate (s.names.map (· ++ s.valueMark)), help := s.summary }

namespace Command

/-- What is said of a command. -/
def help : Command → String
  | .render => "Render a module, type, function or property."
  | .param => "Render hover text for a single function parameter."

/-- What is said of a place. -/
def placeHelp : String → String
  | "path" => "YAML or JSON file describing the documented item."
  | "function" => "Function name, dotted for methods (Point.scale); '.' for the item itself."
  | "param" => "Parameter name, with or without * markers."
  | _ => ""

def manual (c : Command) : Manual where
  title := c.title
  switches := c.switches
  places := c.places
  entries := c.places.map fun place => { name := place, help := placeHelp place }

end Command

namespace Manual

/-- The whole program. -/
def program : Manual where
  title := Command.program
  description := "Render documentation models to Markdown."
  switches := outerSwitches
  places := ["\x7brender,param\x7d", "..."]
  entries := [{ name := "\x7brender,param\x7d", below := [Command.render, .param].map fun c => (c.word, c.help) }]

/-- The manual of the program with a title. -/
def titled (title : String) : Manual :=
  match [Command.render, .param].find? fun c => c.title = title with
  | some c => c.manual
  | none => program

/-! ### Layout -/

/-- The usage line, which is broken where it is too long. -/
def usage (columns : Nat) (m : Manual) : String :=
  let front := "usage: " ++ m.title
  let switches := m.switches.map Switch.usage
  let whole := " ".intercalate (front :: switches ++ m.places)
  if whole.length + 2 ≤ columns then whole
  else if 4 * front.length + 6 ≤ 3 * columns then
    -- the options follow the title, and the places begin a line below the first option
    let indent := front.length + 1
    let lines := Layout.fill columns indent switches ++ Layout.fill columns indent m.places
    "\n".intercalate ((front ++ " " ++ (lines.headD "").drop indent) :: lines.drop 1)
  else
    let fill := Layout.fill columns 7
    let lines := fill (switches ++ m.places)
    "\n".intercalate (front :: if lines.length ≤ 1 then lines else fill switches ++ fill m.places)

/-- The column at which help begins, for names of so many characters. -/
def helpColumn (columns longest : Nat) : Nat :=
  min (longest + 4) (min 24 (max (columns - 22) 4))

/-- The lines of a name and the help on it; a name that leaves no room has a line of its own. -/
def helpLines (columns helpAt indent : Nat) (name help : String) : List String :=
  if help = "" then [Layout.blanks indent ++ name]
  else
    let lines := Layout.wrap (columns - 2 - helpAt) help
    if name.length + indent + 2 ≤ helpAt then
      (Layout.blanks indent ++ name ++ Layout.blanks (helpAt - indent - name.length) ++ lines.headD "") ::
        (lines.drop 1).map (Layout.blanks helpAt ++ ·)
    else (Layout.blanks indent ++ name) :: lines.map (Layout.blanks helpAt ++ ·)

/-- The lines of an entry and those below it. -/
def Entry.lines (columns helpAt : Nat) (e : Entry) : List String :=
  helpLines columns helpAt 2 e.name e.help ++
    e.below.flatMap fun (name, help) => helpLines columns helpAt 4 name help

/-- The help page: the usage line, the description, and the entries of places and of options. -/
def page (columns : Nat) (m : Manual) : String :=
  let options := m.switches.map Switch.entry
  let names := (m.entries ++ options).flatMap fun e => e.name :: e.below.map fun (name, _) => "  " ++ name
  let helpAt := helpColumn columns ((names.map String.length).foldl max 0)
  let block (heading : String) (es : List Entry) : String :=
    "\n".intercalate ((heading ++ ":") :: es.flatMap (Entry.lines columns helpAt))
  let description :=
    if m.description = "" then [] else ["\n".intercalate (Layout.wrap (columns - 2) m.description)]
  "\n\n".intercalate
      (usage columns m :: description ++
        [block "positional arguments" m.entries, block "options" options]) ++
    "\n"

end Manual

/-- What the program tells where there is nothing that can be done: the help page, or the usage line and what
is wrong. -/
def Refusal.report (columns : Nat) : Refusal → String
  | .help program => (Manual.titled program).page columns
  | .usage program fault =>
    (Manual.titled program).usage columns ++ "\n" ++ program ++ ": error: " ++ fault.message ++ "\n"

end ApiPage.Cli
