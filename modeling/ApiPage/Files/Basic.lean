import ApiPage.Files.Path
import ApiPage.Text.Utf8

/-!
# Files

A set of files and directories, each at its place, and the working directory. A path is followed part
by part: every part but the last has to be a directory, also before double dots. What is at a place may be
closed to whoever asks, and even whether anything is there may be hidden.
-/

namespace ApiPage

/-- Why a file cannot be used. -/
inductive FileFault
  | notFound
  | notADirectory
  | isADirectory
  /-- The system refuses to look or to open, for the reason given. -/
  | refused (reason : String)
  deriving DecidableEq, Repr

/-- The wording of a fault. -/
def FileFault.reason : FileFault → String
  | .notFound => "No such file or directory"
  | .notADirectory => "Not a directory"
  | .isADirectory => "Is a directory"
  | .refused reason => reason

/-- Is nothing there, as far as the fault tells? -/
def FileFault.isAbsence : FileFault → Bool
  | .notFound => true
  | .notADirectory => true
  | _ => false

/-- What is at a place. -/
inductive FileNode
  | file (bytes : List UInt8)
  | directory
  /-- Something that is no directory and that cannot be opened. -/
  | closed (reason : String)
  /-- What cannot be looked at. -/
  | hidden (reason : String)
  deriving DecidableEq, Repr

/-- Is it kept from whoever looks? -/
def FileNode.isHidden : FileNode → Bool
  | .hidden _ => true
  | _ => false

/-- The bytes of what is at a place, if it is a file that can be opened. -/
def FileNode.contents : FileNode → Except FileFault (List UInt8)
  | .file bytes => .ok bytes
  | .directory => .error .isADirectory
  | .closed reason => .error (.refused reason)
  | .hidden reason => .error (.refused reason)

/-- Files and directories at their places, the places at which nothing may be written, each with the reason,
and the working directory. The root is always there. -/
structure Files where
  cwd : Place
  nodes : List (Place × FileNode)
  barred : List (Place × String) := []
  deriving DecidableEq, Repr

namespace Files

/-- What is at a place, if anything is. -/
def at? (fs : Files) (place : Place) : Option FileNode :=
  if place = [] then some .directory else fs.nodes.lookup place

/-- The place that parts lead to from a place, and what is there. -/
def walk (fs : Files) : Place → List String → Except FileFault (Place × FileNode)
  | place, [] =>
    match fs.at? place with
    | none => .error .notFound
    | some (.hidden reason) => .error (.refused reason)
    | some node => .ok (place, node)
  | place, part :: parts =>
    match fs.at? place with
    | none => .error .notFound
    | some (.hidden reason) => .error (.refused reason)
    | some .directory => fs.walk (Path.stepFrom place part) parts
    | some _ => .error .notADirectory

/-- What a path leads to. -/
def find (fs : Files) (p : Path) : Except FileFault (Place × FileNode) :=
  fs.walk (p.origin fs.cwd) p.parts

/-- What a path leads to, if it leads to anything; that the system refuses to look is no answer. -/
def look (fs : Files) (p : Path) : Except FileFault (Option FileNode) :=
  match fs.find p with
  | .ok (_, node) => .ok (some node)
  | .error fault => if fault.isAbsence then .ok none else .error fault

/-- Does a path lead to a directory? -/
def hasDirectory (fs : Files) (p : Path) : Bool :=
  match fs.find p with
  | .ok (_, .directory) => true
  | _ => false

/-- The bytes of the file that a path leads to. -/
def read (fs : Files) (p : Path) : Except FileFault (List UInt8) :=
  match fs.find p with
  | .error fault => .error fault
  | .ok (_, node) => node.contents

/-- Files with one of them set. -/
def put (fs : Files) (place : Place) (node : FileNode) : Files :=
  { fs with nodes := (place, node) :: fs.nodes.filter (·.1 != place) }

@[simp] theorem cwd_put (fs : Files) (place : Place) (node : FileNode) :
    (fs.put place node).cwd = fs.cwd := rfl

theorem lookup_filter_ne {α β : Type} [BEq α] [LawfulBEq α] (a b : α) (h : b ≠ a)
    (l : List (α × β)) : (l.filter (·.1 != a)).lookup b = l.lookup b := by
  induction l with
  | nil => rfl
  | cons e l ih =>
    obtain ⟨c, v⟩ := e
    by_cases hc : c = a
    · subst hc
      have hb : (b == c) = false := beq_false_of_ne h
      simp [List.lookup_cons, hb, ih]
    · by_cases hb : b = c
      · simp [hb, hc]
      · have hb' : (b == c) = false := beq_false_of_ne hb
        simp [List.lookup_cons, hc, hb', ih]

/-- A file that is set is there. -/
theorem at?_put_self (fs : Files) {place : Place} (node : FileNode) (h : place ≠ []) :
    (fs.put place node).at? place = some node := by
  simp [at?, put, h]

/-- Setting a file changes no other place. -/
theorem at?_put_of_ne (fs : Files) {place other : Place} (node : FileNode) (h : other ≠ place) :
    (fs.put place node).at? other = fs.at? other := by
  have hb : (other == place) = false := beq_false_of_ne h
  simp [at?, put, List.lookup_cons, hb, lookup_filter_ne place other h]

/-- Why no file can be opened for writing at a place, if none can. -/
def bar? (fs : Files) (place : Place) : Option FileFault :=
  match fs.at? place with
  | some .directory => some .isADirectory
  | some (.closed reason) => some (.refused reason)
  | some (.hidden reason) => some (.refused reason)
  | _ => (fs.barred.lookup place).map .refused

theorem at?_ne_directory_of_bar? {fs : Files} {place : Place} (h : fs.bar? place = none) :
    fs.at? place ≠ some .directory := by
  intro hdir
  rw [bar?, hdir] at h
  cases h

/-- The place at which a file may be written. -/
def target (fs : Files) (p : Path) : Except FileFault Place :=
  match p.parts.getLast? with
  | none => .error .isADirectory
  | some name =>
    match fs.walk (p.origin fs.cwd) p.parts.dropLast with
    | .error fault => .error fault
    | .ok (dir, .directory) =>
      match fs.bar? (Path.stepFrom dir name) with
      | some fault => .error fault
      | none => .ok (Path.stepFrom dir name)
    | .ok _ => .error .notADirectory

/-- No file is written in the place of a directory, and so none at the root. -/
theorem ne_root_of_target {fs : Files} {p : Path} {place : Place} (h : fs.target p = .ok place) :
    place ≠ [] := by
  unfold target at h
  split at h
  · cases h
  · split at h
    · cases h
    · split at h
      · cases h
      · next hbar =>
        rintro rfl
        rw [Except.ok.inj h] at hbar
        exact at?_ne_directory_of_bar? hbar rfl
    · cases h

/-- Files with bytes put at the end of a file, which is made if it is not there. -/
def append (fs : Files) (place : Place) (bytes : List UInt8) : Files :=
  match fs.at? place with
  | some (.file old) => fs.put place (.file (old ++ bytes))
  | _ => fs.put place (.file bytes)

theorem at?_append_of_ne (fs : Files) {place other : Place} (bytes : List UInt8) (h : other ≠ place) :
    (fs.append place bytes).at? other = fs.at? other := by
  unfold append
  split
  · exact fs.at?_put_of_ne _ h
  · exact fs.at?_put_of_ne _ h

/-- Where bytes were put there is a file. -/
theorem exists_at?_append (fs : Files) {place : Place} (bytes : List UInt8) (hp : place ≠ []) :
    ∃ all, (fs.append place bytes).at? place = some (.file all) := by
  unfold append
  split
  · exact ⟨_, fs.at?_put_self _ hp⟩
  · exact ⟨_, fs.at?_put_self _ hp⟩

/-- Why the text of a file cannot be had. -/
inductive TextFault
  | file (fault : FileFault)
  | encoding (fault : Text.Utf8Fault)
  deriving DecidableEq, Repr

/-- The text of the file that a path leads to, its line endings made newlines. -/
def readText (fs : Files) (p : Path) : Except TextFault String :=
  match fs.read p with
  | .error fault => .error (.file fault)
  | .ok bytes =>
    match Text.decodeUtf8 bytes with
    | .error fault => .error (.encoding fault)
    | .ok cs => .ok (String.ofList (Text.unifyNewlines cs))

end Files

end ApiPage
