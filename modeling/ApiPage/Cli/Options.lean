import ApiPage.Cli.Words

/-!
# Command lines

A command line names a command and gives its places and options; options may stand anywhere, the last
value of an option wins, and the options on verbosity may also stand before the command.
`Request.parse` reads it or refuses it with the program or command at fault.
-/

namespace ApiPage.Cli

/-- A value as it is given. The word `--` where a value is due leaves the value blank. -/
inductive Operand (α : Type)
  | blank
  | text (s : α)
  deriving DecidableEq, Repr

namespace Operand

/-- The value that a word gives. -/
def ofWord (s : String) : Operand String :=
  if s = "--" then .blank else .text s

/-- The text of a value that has one. -/
def text? : Operand String → Option String
  | .blank => none
  | .text s => some s

/-- A value as a message shows it. -/
def shown : Operand String → String
  | .blank => "[]"
  | .text s => s

/-- A value as the name of something in a document. -/
def named : Operand String → Operand Str
  | .blank => .blank
  | .text s => .text s

end Operand

/-- What is to be shown. -/
inductive Action
  /-- The page of the item, or the section of a member of it, into a file or not. -/
  | render (member : Option (Operand Str)) (output : Option String)
  /-- The entry of a parameter of a function. -/
  | param (function param : Operand Str)
  deriving DecidableEq, Repr

/-- A command line that was understood. -/
structure Request where
  verbose : Bool
  quiet : Bool
  path : String
  config : Option String
  action : Action
  deriving DecidableEq, Repr

/-- A command line that asks for nothing that can be done. -/
inductive Refusal
  /-- It asks how the program, or a command of it, is used. -/
  | help (program : String)
  /-- It is refused by the program or a command of it. -/
  | usage (program : String) (fault : UsageFault)
  deriving DecidableEq, Repr

/-- What has been read of a command line: the options set, last first, the values of the places and
the words that fit nowhere. -/
structure Gathered where
  settings : List (Switch × Operand String) := []
  values : List (Operand String) := []
  extras : List String := []
  deriving DecidableEq, Repr

namespace Gathered

/-- Sets an option. -/
def set (g : Gathered) (s : Switch) (value : Operand String) : Gathered :=
  { g with settings := (s, value) :: g.settings }

/-- Fills places. -/
def fill (g : Gathered) (values : List (Operand String)) : Gathered :=
  { g with values := g.values ++ values }

/-- Notes words that fit nowhere. -/
def leave (g : Gathered) (words : List String) : Gathered :=
  { g with extras := g.extras ++ words }

/-- Was an option set? -/
def has (g : Gathered) (s : Switch) : Bool :=
  g.settings.any (·.1 = s)

/-- The last value of an option. -/
def value? (g : Gathered) (s : Switch) : Option (Operand String) :=
  g.settings.lookup s

/-- The text of the last value of an option. -/
def text? (g : Gathered) (s : Switch) : Option String :=
  (g.value? s).bind Operand.text?

end Gathered

/-! ### Options -/

/-- Why reading stops: help is asked for, or the command line is at fault. -/
abbrev Stop := Option UsageFault

/-- Sets an option that takes no value; asking for help stops. -/
def setFlag (g : Gathered) (s : Switch) : Except Stop Gathered :=
  if s = .help then .error none else .ok (g.set s .blank)

/-- Sets flags in order. -/
def setFlags (g : Gathered) : List Switch → Except Stop Gathered
  | [] => .ok g
  | s :: ss => do
    let g ← setFlag g s
    setFlags g ss

/-- What an option comes to with what is joined to it: flags in order, and then an option with its
value or one that still needs its value. -/
inductive Joined
  | flags (ss : List Switch)
  | valued (ss : List Switch) (s : Switch) (value : String)
  | needsValue (ss : List Switch) (s : Switch)
  deriving DecidableEq, Repr

/-- Reads the letters joined to an option of one letter, the flags before it being known: each letter
behind a flag is an option, and all letters behind an option that takes a value are the value. -/
def readLetters (switches : List Switch) :
    List Switch → Switch → List Char → Except UsageFault Joined
  | ss, s, [] => .ok (if s.takesValue then .needsValue ss s else .flags (ss ++ [s]))
  | ss, s, c :: rest =>
    if s.takesValue then .ok (.valued ss s (String.ofList (c :: rest)))
    else match switchNamed? switches (String.ofList ['-', c]) with
      | none => .error (.ignoredValue s (String.ofList (c :: rest)))
      | some t => readLetters switches (ss ++ [s]) t rest

/-- Reads an option and what is joined to it. -/
def readJoined (switches : List Switch) (w : Written) : Except UsageFault Joined :=
  match w.joined with
  | none => readLetters switches [] w.switch []
  | some value =>
    if w.switch.takesValue then .ok (.valued [] w.switch (String.ofList value))
    else if value.isEmpty || w.name.length ≠ 2 then
      .error (.ignoredValue w.switch (String.ofList value))
    else readLetters switches [] w.switch value

/-- Reads an option, and its value from the words after it if none is joined to it. -/
def readOption (switches : List Switch) (g : Gathered) (w : Written) (rest : List Word) :
    Except Stop (Gathered × List Word) := do
  match readJoined switches w with
  | .error fault => .error (some fault)
  | .ok (.flags ss) => .ok (← setFlags g ss, rest)
  | .ok (.valued ss s value) => .ok ((← setFlags g ss).set s (.ofWord value), rest)
  | .ok (.needsValue ss s) =>
    match rest with
    | .argument value :: rest => .ok ((← setFlags g ss).set s (.ofWord value), rest)
    | _ => .error (some (.expectedArgument s))

/-! ### Places -/

/-- The words without terminators at their front. -/
def dropTerminators (ws : List Word) : List Word :=
  ws.dropWhile (· = .terminator)

/-- Fills up to `n` places from the words at the front. A word right behind the terminator is taken as
it stands. -/
def takePlaces : Nat → List Word → List (Operand String) × List Word
  | 0, ws => ([], ws)
  | n + 1, ws =>
    match dropTerminators ws with
    | .argument s :: rest =>
      let value := if ws.head? = some .terminator then Operand.text s else .ofWord s
      let (values, after) := takePlaces n (dropTerminators rest)
      (value :: values, after)
    | _ => ([], ws)

/-- Reads the words of a command with the places named. -/
def gather (switches : List Switch) (places : List String) :
    Nat → Gathered → List Word → Except Stop Gathered
  | 0, g, _ => .ok g
  | fuel + 1, g, ws =>
    match ws with
    | [] => .ok g
    | .option s written :: rest =>
      match written with
      | none => gather switches places fuel (g.leave [s]) rest
      | some w => do
        let (g, rest) ← readOption switches g w rest
        gather switches places fuel g rest
    | _ =>
      match takePlaces (places.length - g.values.length) ws with
      | ([], _) =>
        let (lost, rest) := (ws.takeWhile (!·.isOption), ws.dropWhile (!·.isOption))
        gather switches places fuel (g.leave (lost.map (·.text))) rest
      | (values, rest) => gather switches places fuel (g.fill values) rest

/-! ### Commands -/

/-- A command of the program. -/
inductive Command
  | render
  | param
  deriving DecidableEq, Repr

namespace Command

/-- The name of the whole program. -/
def program : String := "docrender"

/-- The word for a command. -/
def word : Command → String
  | .render => "render"
  | .param => "param"

/-- The command that a word names. -/
def ofWord? (s : String) : Option Command :=
  [Command.render, .param].find? fun c => c.word = s

/-- The program with a command. -/
def title (c : Command) : String :=
  program ++ " " ++ c.word

/-- The options of a command. -/
def switches : Command → List Switch
  | .render => [.help, .verbose, .quiet, .config, .member, .output]
  | .param => [.help, .verbose, .quiet, .config]

/-- The places of a command. -/
def places : Command → List String
  | .render => ["path"]
  | .param => ["path", "function", "param"]

end Command

/-- The options before a command. -/
def outerSwitches : List Switch := [.help, .verbose, .quiet]

/-- A stop as a refusal by a program. -/
def refuse {α : Type} (program : String) : Stop → Except Refusal α
  | none => .error (.help program)
  | some fault => .error (.usage program fault)

/-- Reads the words after a command; every place has to be filled. -/
def readCommand (c : Command) (args : List String) : Except Refusal Gathered :=
  match words c.switches args with
  | .error fault => .error (.usage c.title fault)
  | .ok ws =>
    match gather c.switches c.places (2 * ws.length + 1) {} ws with
    | .error stop => refuse c.title stop
    | .ok g =>
      match c.places.drop g.values.length with
      | [] => .ok g
      | missing => .error (.usage c.title (.missing missing))

/-- The request that options and values make. -/
def request (c : Command) (outer inner : Gathered) : Request :=
  let value (i : Nat) : Operand String := inner.values.getD i .blank
  { verbose := outer.has .verbose || inner.has .verbose
    quiet := outer.has .quiet || inner.has .quiet
    path := (value 0).shown
    config := inner.text? .config
    action := match c with
      | .render => .render ((inner.value? .member).map .named) (inner.text? .output)
      | .param => .param (value 1).named (value 2).named }

/-- Reads the words before a command, the command and what follows it. -/
def readOuter (args : List String) : Nat → Gathered → List Word → Except Refusal Request
  | 0, _, _ => refuse Command.program (some (.missing ["command"]))
  | fuel + 1, g, ws =>
    match ws with
    | .option s written :: rest =>
      match written with
      | none => readOuter args fuel (g.leave [s]) rest
      | some w =>
        match readOption outerSwitches g w rest with
        | .error stop => refuse Command.program stop
        | .ok (g, rest) => readOuter args fuel g rest
    | .argument s :: rest =>
      match Command.ofWord? s with
      | none => refuse Command.program (some (.invalidCommand s))
      | some c =>
        match readCommand c (args.drop (args.length - rest.length)) with
        | .error r => .error r
        | .ok inner =>
          match g.extras ++ inner.extras with
          | [] => .ok (request c g inner)
          | extras => refuse Command.program (some (.unrecognized extras))
    | .terminator :: _ :: _ => refuse Command.program (some (.invalidCommand "--"))
    | _ => refuse Command.program (some (.missing ["command"]))

/-- Reads a command line. -/
def Request.parse (args : List String) : Except Refusal Request :=
  match words outerSwitches args with
  | .error fault => .error (.usage Command.program fault)
  | .ok ws => readOuter args (ws.length + 1) {} ws

end ApiPage.Cli
