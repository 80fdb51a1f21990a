import ApiPage.Cli.Run
import ApiPage.Proofs.Yaml.Blank

/-!
# The command line program

Looks at the places that a command line is about, runs it on what is there, and carries out what the
run came to.
-/

namespace ApiPage

/-! ### The host -/

/-- The home directories that a table of users lists. -/
def homesOf (table : String) : List (String × String) :=
  (table.splitOn "\n").filterMap fun line =>
    match line.splitOn ":" with
    | [name, _, _, _, _, dir, _] => some (name, dir)
    | _ => none

/-- What the program finds around it. -/
def host : IO Cli.Host := do
  let own ← IO.getEnv "HOME"
  let table ← try IO.FS.readFile "/etc/passwd" catch _ => pure ""
  let columns := ((← IO.getEnv "COLUMNS").bind String.toNat?).getD 80
  return {
    yaml := Yaml.reader
    home := fun name => if name = "" then own else (homesOf table).lookup name
    columns := if columns = 0 then 80 else columns
    unshowable? := Cli.Host.unshowableUtf8? }

/-! ### The files -/

/-- The reason that the system gives, without what it is about. -/
def reasonOf (e : IO.Error) : String :=
  match e with
  | .permissionDenied _ _ reason => reason
  | .invalidArgument _ _ reason => reason
  | .resourceExhausted _ _ reason => reason
  | _ => toString e

/-- A file, or why it cannot be opened. -/
def openFile (place : Place) : IO FileNode := do
  try
    return .file (← IO.FS.readBinFile (Path.ofPlace place).text).toList
  catch e => return .closed (reasonOf e)

/-- What is at a place of the file system. -/
def look (place : Place) : IO (Option FileNode) := do
  let path := (← IO.currentDir) / (Path.ofPlace place).text
  try
    match (← path.metadata).type with
    | .dir => return some .directory
    | _ => return some (← openFile place)
  catch e =>
    match e with
    | .noFileOrDirectory .. => return none
    | .inappropriateType .. => return none
    | _ => return some (.hidden (reasonOf e))

/-- The files at places. -/
def lookAll (cwd : Place) (places : List Place) : IO Files := do
  let mut fs : Files := { cwd, nodes := [] }
  for place in places do
    match ← look place with
    | none => pure ()
    | some node => fs := fs.put place node
  return fs

/-- The files that a command line is about. -/
def filesFor (home : Home) (args : List String) : IO Files := do
  let cwd := (Path.ofString (← IO.currentDir).toString).parts
  match Cli.Request.parse args with
  | .error _ => return { cwd, nodes := [] }
  | .ok r => lookAll cwd (((Cli.consulted home cwd r).flatMap (Path.visited cwd)).eraseDups)

/-- Carries out what a run came to; the number is the program's exit code. -/
def carryOut (o : Cli.Outcome) : IO UInt32 := do
  match o.written with
  | none => pure ()
  | some (place, bytes) =>
    IO.FS.writeBinFile ((← IO.currentDir) / (Path.ofPlace place).text) ⟨bytes.toArray⟩
  IO.print (Text.shown o.stdout)
  IO.eprint o.stderr
  match o.ending with
  | .exit code => return code.toUInt32
  | .crash c =>
    IO.eprintln c.message
    return 1

end ApiPage

/-- Runs the command line. -/
def main (args : List String) : IO UInt32 := do
  let host ← ApiPage.host
  ApiPage.carryOut (ApiPage.Cli.run host (← ApiPage.filesFor host.home args) args)
