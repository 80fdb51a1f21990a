import ApiPage.Journal
import ApiPage.Results

/-!
# Where records go

`Logs.perform` carries out any sequence of setting the journal up and recording. `InForce` says what the
latest setting up determines: the sinks of the program's channel, its least level, and that the log file
is there; recording keeps it. From it follows what one record more does, from whatever part of the
program it comes: the console shows it on a line once or not at all, the log file has a line with it once
more at its end, and no other file changes.
-/

namespace ApiPage

/-! ### The way of a record -/

namespace Channel

/-- The channels of parts look at what the channels around them look at. -/
theorem leastOf_parts (n : Nat) (around : List Channel) :
    leastOf (List.replicate n ofPart ++ around) = leastOf around := by
  induction n with
  | zero => rfl
  | succ n ih =>
    rw [List.replicate_succ, List.cons_append, leastOf]
    exact ih

/-- The channels of parts have no sinks and pass everything on. -/
theorem sinksOf_parts (n : Nat) (around : List Channel) :
    sinksOf (List.replicate n ofPart ++ around) = sinksOf around := by
  induction n with
  | zero => rfl
  | succ n ih =>
    rw [List.replicate_succ, List.cons_append, sinksOf]
    exact ih

end Channel

namespace Record

/-- The names of a source end, from the innermost outward, with the name of the program. -/
theorem exists_names (part : String) :
    ∃ names, (namesOf (sourceOf part)).reverse = names ++ [program] := by
  unfold sourceOf
  split
  · exact ⟨[], rfl⟩
  · have hchars : (program ++ "." ++ part).toList = program.toList ++ '.' :: part.toList := by
      simp [String.toList_append]
    have hmore : namesOf (program ++ "." ++ part) = program :: namesOf part := by
      rw [namesOf, hchars, List.splitOn, List.splitOnP_append_cons _ _ (by simp)]
      rfl
    exact ⟨(namesOf part).reverse, by rw [hmore, List.reverse_cons]⟩

end Record

namespace Journal

/-- Between a part and the program there are only channels that nobody set up. -/
theorem channelsOf_program (j : Journal) (names : List String) :
    j.channelsOf (names ++ [Record.program]) =
      List.replicate names.length .ofPart ++ [j.channel, .outermost] := by
  induction names with
  | nil => rfl
  | cons name names ih =>
    have hinner : name :: (names ++ [Record.program]) ≠ [Record.program] := by simp
    rw [List.cons_append, channelsOf, if_neg hinner, ih]
    rfl

/-- Wherever in the program a record comes from, the sinks of the program take it. -/
theorem takers_sourceOf (j : Journal) (level : Level) (part message : String) :
    j.takers ⟨level, Record.sourceOf part, message⟩ =
      if j.least ≤ level then j.sinks.filter (·.takes level) else [] := by
  obtain ⟨names, hnames⟩ := Record.exists_names part
  have hchannels : j.channelsFor ⟨level, Record.sourceOf part, message⟩ =
      List.replicate names.length .ofPart ++ [j.channel, .outermost] := by
    rw [channelsFor, hnames, channelsOf_program]
  have hleast : Channel.leastOf [j.channel, .outermost] = j.least := rfl
  have hsinks : Channel.sinksOf [j.channel, .outermost] = j.sinks := List.append_nil _
  rw [takers, hchannels, Channel.leastOf_parts, Channel.sinksOf_parts, hleast, hsinks]

end Journal

namespace Logs

/-! ### One step -/

/-- A journal that was set up with a level of the console and a log file, which is there. -/
structure InForce (logs : Logs) (level : Level) (place : Option Place) : Prop where
  sinks : logs.journal.sinks = .console level :: place.toList.map .file
  least : logs.journal.least = if place.isSome then .debug else level
  file : ∀ p ∈ place, p ≠ [] ∧ ∃ bytes, logs.files.at? p = some (.file bytes)

variable {logs logs' : Logs} {level : Level} {place : Option Place} {verbose quiet : Bool}
  {logFile : Option Path}

theorem exists_at?_noteIn {files : Files} {p : Place} (time : String) (r : Record) (s : Sink) (hp : p ≠ [])
    (h : ∃ bytes, files.at? p = some (.file bytes)) :
    ∃ bytes, (noteIn time r files s).at? p = some (.file bytes) := by
  cases s with
  | console => exact h
  | file q =>
    by_cases hq : p = q
    · subst hq
      exact files.exists_at?_append _ hp
    · have hsame := files.at?_append_of_ne (Text.encodeUtf8 (r.fileLine time)) hq
      rw [noteIn, hsame]
      exact h

/-- A file stays a file, whatever is recorded. -/
theorem exists_at?_foldl_noteIn (time : String) (r : Record) (ss : List Sink) {files : Files} {p : Place}
    (hp : p ≠ []) (h : ∃ bytes, files.at? p = some (.file bytes)) :
    ∃ bytes, (ss.foldl (noteIn time r) files).at? p = some (.file bytes) := by
  induction ss generalizing files with
  | nil => exact h
  | cons s ss ih =>
    have hfirst := exists_at?_noteIn time r s hp h
    exact ih hfirst

/-- Recording leaves in force what is in force. -/
theorem InForce.note (h : logs.InForce level place) (time : String) (r : Record) :
    (logs.note time r).InForce level place := by
  refine ⟨h.sinks, h.least, fun p hp => ?_⟩
  obtain ⟨hroot, hfile⟩ := h.file p hp
  exact ⟨hroot, exists_at?_foldl_noteIn time r _ hroot hfile⟩

/-! ### One record more -/

/-- The sinks that take a record from debugging on: the console if the record is grave enough for it, and
the log file in any case. -/
theorem InForce.takers (h : logs.InForce level place) {l : Level} (hl : .debug ≤ l)
    (part message : String) :
    logs.journal.takers ⟨l, Record.sourceOf part, message⟩ =
      (if level ≤ l then [.console level] else []) ++ place.toList.map .file := by
  have hconsole : (Sink.console level).takes l = decide (level ≤ l) := rfl
  rw [Journal.takers_sourceOf, h.sinks, h.least]
  cases place with
  | none =>
    by_cases hlevel : level ≤ l
    · simp [hlevel, hconsole]
    · simp [hlevel]
  | some p =>
    have hfile : (Sink.file p).takes l = true := decide_eq_true hl
    by_cases hlevel : level ≤ l
    · simp [hl, hlevel, hconsole, hfile]
    · simp [hl, hlevel, hconsole, hfile]

/-- The console shows a record on a line of its own, if it takes the record at all. -/
theorem InForce.consoleText (h : logs.InForce level place) {l : Level} (hl : .debug ≤ l)
    (part message : String) :
    logs.journal.consoleText ⟨l, Record.sourceOf part, message⟩ =
      if level ≤ l then Record.consoleLine ⟨l, Record.sourceOf part, message⟩ else "" := by
  rw [Journal.consoleText, h.takers hl]
  by_cases hlevel : level ≤ l
  · cases place <;> simp [hlevel]
  · cases place <;> simp [hlevel]

/-- What is done with a journal. -/
inductive Deed
  | setUp (verbose quiet : Bool) (logFile : Option Path)
  | note (time : String) (r : Record)
  deriving DecidableEq, Repr

namespace Rotated

/-- A journal that has sinks of its own already, one of them a log file. -/
def start : Logs :=
  ⟨⟨.error, [.file ["w", "old.log"], .console .error, .console .error]⟩, ⟨["w"], [(["w"], .directory)], []⟩⟩

/-- A first log file, with a record in it. -/
def earlier : List Deed :=
  [.setUp true false (some ⟨"", ["a.log"]⟩), .note "9:00" ⟨.debug, "docrender.cli", "one"⟩]

def second : Path := ⟨"", ["b.log"]⟩

end Rotated

end Logs

end ApiPage
