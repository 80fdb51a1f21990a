import ApiPage.Files.Basic

/-!
# The journal

What the program tells about its own work. Every part of the program has a channel; a record starts in
the channel of its part and goes up through the channels around it as far as the program's own, which
passes nothing on. Only the program's channel sets a least level and has sinks: the console, which takes
records that are grave enough, and perhaps a log file, which takes every record from debugging on.
Setting the journal up anew takes away all sinks that were there before; what log files hold stays.
-/

namespace ApiPage

/-- How grave a record is. The ranks between the named ones are levels too. -/
structure Level where
  rank : Int
  deriving DecidableEq, Repr

namespace Level

def unset : Level := ⟨0⟩
def debug : Level := ⟨10⟩
def info : Level := ⟨20⟩
def warning : Level := ⟨30⟩
def error : Level := ⟨40⟩
def critical : Level := ⟨50⟩

instance : LE Level := ⟨fun l m => l.rank ≤ m.rank⟩

instance (l m : Level) : Decidable (l ≤ m) := inferInstanceAs (Decidable (l.rank ≤ m.rank))

/-- The levels that have a name. -/
def named : List (Level × String) :=
  [(unset, "NOTSET"), (debug, "DEBUG"), (info, "INFO"), (warning, "WARNING"), (error, "ERROR"),
    (critical, "CRITICAL")]

/-- A level as it is written. -/
def word (l : Level) : String :=
  (named.lookup l).getD ("Level " ++ toString l.rank)

end Level

/-- A record: how grave it is, the part of the program that tells it, and what it tells. -/
structure Record where
  level : Level
  source : String
  message : String
  deriving DecidableEq, Repr

namespace Record

/-- The name of the whole program in the journal. -/
def program : String := "docrender"

/-- The source of a record for a part of the program; the part without a name is the whole. -/
def sourceOf (part : String) : String :=
  if part = "" then program else program ++ "." ++ part

/-- The names that a source is made of, from the outermost inward. -/
def namesOf (source : String) : List String :=
  (source.toList.splitOn '.').map String.ofList

/-- A record as a line on the console. -/
def consoleLine (r : Record) : String :=
  "[" ++ program ++ "] " ++ r.level.word ++ " " ++ r.message ++ "\n"

/-- A record as a line of a log file, with the time at which it was told in front. -/
def fileLine (time : String) (r : Record) : String :=
  time ++ " " ++ r.level.word ++ " " ++ r.source ++ ": " ++ r.message ++ "\n"

end Record

/-- Where records go. -/
inductive Sink
  | console (least : Level)
  | file (place : Place)
  deriving DecidableEq, Repr

namespace Sink

/-- The least level that a sink takes. -/
def least : Sink → Level
  | .console l => l
  | .file _ => .debug

/-- Does a sink take records of a level? -/
def takes (s : Sink) (l : Level) : Bool :=
  s.least ≤ l

end Sink

/-- A channel: the least level that it looks at, if it sets one, its sinks, and whether it passes
records on to the channel around it. -/
structure Channel where
  least : Option Level
  sinks : List Sink
  passesOn : Bool
  deriving DecidableEq, Repr

namespace Channel

/-- The channel of a part of the program, as nobody sets it up. -/
def ofPart : Channel := ⟨none, [], true⟩

/-- The channel around all programs. -/
def outermost : Channel := ⟨some .warning, [], true⟩

/-- The least level that is looked at, from the innermost of some channels outward: the first that is
set counts. -/
def leastOf : List Channel → Level
  | [] => .unset
  | c :: around => c.least.getD (leastOf around)

/-- The sinks that a record comes to on its way outward. -/
def sinksOf : List Channel → List Sink
  | [] => []
  | c :: around => c.sinks ++ if c.passesOn then sinksOf around else []

end Channel

/-- What is set up of the program's own channel: its least level and its sinks. -/
structure Journal where
  least : Level
  sinks : List Sink
  deriving DecidableEq, Repr

namespace Journal

/-- The journal before it is set up. -/
def initial : Journal := ⟨.warning, []⟩

/-! ### Setting up -/

/-- The level of the console; being quiet wins over being verbose. -/
def consoleLevel (verbose quiet : Bool) : Level :=
  if quiet then .warning else if verbose then .debug else .info

/-- A journal with a sink more. -/
def add (j : Journal) (s : Sink) : Journal :=
  { j with sinks := j.sinks ++ [s] }

/-- A journal without a sink. -/
def remove (j : Journal) (s : Sink) : Journal :=
  { j with sinks := j.sinks.erase s }

/-- A journal from which the sinks that it has are removed, one after another. -/
def reset (j : Journal) : Journal :=
  j.sinks.foldl remove j

/-- The journal set up anew. With a log file every record from debugging on is looked at, whatever the
level of the console. -/
def setUp (j : Journal) (verbose quiet : Bool) (logFile : Option Place) : Journal :=
  let level := consoleLevel verbose quiet
  let console := ({ j with least := level }.reset).add (.console level)
  match logFile with
  | none => console
  | some place => { console.add (.file place) with least := .debug }

/-- The program's own channel. -/
def channel (j : Journal) : Channel := ⟨some j.least, j.sinks, false⟩

/-- The channels of a source from the innermost outward; the source is given by its names, the innermost
first. -/
def channelsOf (j : Journal) : List String → List Channel
  | [] => [.outermost]
  | name :: around =>
    (if name :: around = [Record.program] then j.channel else .ofPart) :: j.channelsOf around

/-- The channels that a record goes through. -/
def channelsFor (j : Journal) (r : Record) : List Channel :=
  j.channelsOf (Record.namesOf r.source).reverse

/-- The sinks that take a record. -/
def takers (j : Journal) (r : Record) : List Sink :=
  if Channel.leastOf (j.channelsFor r) ≤ r.level then
    (Channel.sinksOf (j.channelsFor r)).filter (·.takes r.level)
  else []

/-- What a record adds to the console. -/
def consoleText (j : Journal) (r : Record) : String :=
  String.join ((j.takers r).map fun
    | .console _ => r.consoleLine
    | .file _ => "")

/-- What records add to the console, in order. -/
def consoleTexts (j : Journal) (rs : List Record) : String :=
  String.join (rs.map j.consoleText)

end Journal

/-- The journal and the files, its log files among them. -/
structure Logs where
  journal : Journal
  files : Files
  deriving DecidableEq, Repr

namespace Logs

/-- The place of a log file, if there is to be one. The path of a log file is followed by its letters
alone. -/
def placeOf (files : Files) : Option Path → Except FileFault (Option Place)
  | none => .ok none
  | some p => some <$> files.target (Path.ofPlace (p.resolve files.cwd))

/-- Files in which a log file is there. -/
def opened (files : Files) : Option Place → Files
  | none => files
  | some place => files.append place []

/-- Sets the journal up and makes its log file if it is not there. -/
def setUp (logs : Logs) (verbose quiet : Bool) (logFile : Option Path) : Except FileFault Logs := do
  let place ← placeOf logs.files logFile
  .ok ⟨logs.journal.setUp verbose quiet place, opened logs.files place⟩

/-- Files after a sink has taken a record. -/
def noteIn (time : String) (r : Record) (files : Files) : Sink → Files
  | .console _ => files
  | .file place => files.append place (Text.encodeUtf8 (r.fileLine time))

/-- Records something at a time. -/
def note (logs : Logs) (time : String) (r : Record) : Logs :=
  { logs with files := (logs.journal.takers r).foldl (noteIn time r) logs.files }

end Logs

end ApiPage
