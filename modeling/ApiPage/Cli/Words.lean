import ApiPage.Text.Numeral
import ApiPage.Text.Quoted

/-!
# Words of a command line

A command line is cut into words: arguments, and options with what is joined to them. An option may
be written by any beginning that fits one option only; the word `--` makes all words after it
arguments, and so does the look of a negative number or a space within it.
-/

namespace ApiPage.Cli

/-- An option of the program. -/
inductive Switch
  | help
  | verbose
  | quiet
  | config
  | member
  | output
  deriving DecidableEq, Repr

namespace Switch

/-- The ways to write an option. -/
def names : Switch → List String
  | .help => ["-h", "--help"]
  | .verbose => ["-v", "--verbose"]
  | .quiet => ["-q", "--quiet"]
  | .config => ["--config"]
  | .member => ["--member"]
  | .output => ["-o", "--output"]

/-- Does an option take a value? -/
def takesValue : Switch → Bool
  | .config => true
  | .member => true
  | .output => true
  | _ => false

/-- An option as a refusal shows it. -/
def title (s : Switch) : String :=
  "/".intercalate s.names

end Switch

/-- An option as it is written: its name, and what is joined to it. -/
structure Written where
  switch : Switch
  name : String
  joined : Option (List Char)
  deriving DecidableEq, Repr

/-- A word of a command line. -/
inductive Word
  | argument (s : String)
  /-- The word after which all words are arguments. -/
  | terminator
  /-- An option, unless the options at hand have none of that name. -/
  | option (s : String) (written : Option Written)
  deriving DecidableEq, Repr

/-- A word as it was given. -/
def Word.text : Word → String
  | .argument s => s
  | .terminator => "--"
  | .option s _ => s

/-- Is a word an option? -/
def Word.isOption : Word → Bool
  | .option _ _ => true
  | _ => false

/-- Why a command line is refused. -/
inductive UsageFault
  | ambiguous (word : String) (names : List String)
  | expectedArgument (switch : Switch)
  | ignoredValue (switch : Switch) (value : String)
  | invalidCommand (word : String)
  | missing (names : List String)
  | unrecognized (words : List String)
  deriving DecidableEq, Repr

/-- The wording of a refusal. -/
def UsageFault.message : UsageFault → String
  | .ambiguous word names =>
    "ambiguous option: " ++ word ++ " could match " ++ ", ".intercalate names
  | .expectedArgument s => "argument " ++ s.title ++ ": expected one argument"
  | .ignoredValue s value =>
    "argument " ++ s.title ++ ": ignored explicit argument " ++ Text.quoted value
  | .invalidCommand word =>
    "argument command: invalid choice: " ++ Text.quoted word ++ " (choose from 'render', 'param')"
  | .missing names => "the following arguments are required: " ++ ", ".intercalate names
  | .unrecognized words => "unrecognized arguments: " ++ " ".intercalate words

/-! ### Classification -/

/-- The names of options, each with its option. -/
def namesOf (switches : List Switch) : List (String × Switch) :=
  switches.flatMap fun s => s.names.map fun n => (n, s)

/-- The option of a name. -/
def switchNamed? (switches : List Switch) (name : String) : Option Switch :=
  (namesOf switches).lookup name

/-- A word cut at its first equals sign, if it has one. -/
def cutAtEquals (cs : List Char) : List Char × Option (List Char) :=
  match cs.dropWhile (· != '=') with
  | [] => (cs, none)
  | _ :: rest => (cs.takeWhile (· != '='), some rest)

/-- A text without the newline at its end, if it has one. -/
def dropNewline (cs : List Char) : List Char :=
  if cs.getLast? = some '\n' then cs.dropLast else cs

/-- The digits of a negative number, with at most one point and a digit at the end; one newline may
follow. -/
def isNumberTail (tail : List Char) : Bool :=
  let isDigit (c : Char) : Bool := (Text.digitValue? c).isSome
  let cs := dropNewline tail
  match cs.dropWhile isDigit with
  | [] => !cs.isEmpty
  | c :: more => c == '.' && !more.isEmpty && more.all isDigit

/-- The options that a word may mean by a beginning of their names, or by its first letter. -/
def candidates (switches : List Switch) (cs : List Char) : List Written :=
  match cs with
  | '-' :: '-' :: _ =>
    let (name, value) := cutAtEquals cs
    (namesOf switches).filterMap fun (n, s) =>
      if name.isPrefixOf n.toList then some ⟨s, n, value⟩ else none
  | '-' :: c :: rest =>
    let name := String.ofList ['-', c]
    (namesOf switches).filterMap fun (n, s) =>
      if n = name then some ⟨s, n, some rest⟩ else none
  | _ => []

/-- The option that a word spells with its full name, alone or before an equals sign. -/
def spelled? (switches : List Switch) (cs : List Char) : Option Written :=
  match switchNamed? switches (String.ofList cs) with
  | some s => some ⟨s, String.ofList cs, none⟩
  | none =>
    match cutAtEquals cs with
    | (name, some value) =>
      (switchNamed? switches (String.ofList name)).map fun s =>
        ⟨s, String.ofList name, some value⟩
    | (_, none) => none

/-- What a word before the terminator is. -/
def classify (switches : List Switch) (s : String) : Except UsageFault Word :=
  let cs := s.toList
  match cs with
  | '-' :: tail =>
    if tail.isEmpty then .ok (.argument s)
    else match spelled? switches cs with
      | some w => .ok (.option s (some w))
      | none =>
        match candidates switches cs with
        | [w] => .ok (.option s (some w))
        | w :: w' :: ws => .error (.ambiguous s ((w :: w' :: ws).map (·.name)))
        | [] =>
          if isNumberTail tail || cs.contains ' ' then .ok (.argument s) else .ok (.option s none)
  | _ => .ok (.argument s)

/-- The words of a command line. -/
def words (switches : List Switch) : List String → Except UsageFault (List Word)
  | [] => .ok []
  | s :: rest =>
    if s = "--" then .ok (.terminator :: rest.map .argument)
    else do
      let w ← classify switches s
      let ws ← words switches rest
      .ok (w :: ws)

end ApiPage.Cli
