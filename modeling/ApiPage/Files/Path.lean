import ApiPage.Text.Pieces

/-!
# Paths

A path as a user writes it: its root, if it begins at one, and its parts. Empty parts and single dots
are dropped when it is read; double dots stay. A place is a full list of names from the root of the
file system, without any dots. A first part that begins with a tilde may stand for a home directory.
-/

namespace ApiPage

/-- A path; `root` is empty for a path from the working directory. -/
structure Path where
  root : String
  parts : List String
  deriving DecidableEq, Repr

/-- The names from the root of the file system down. -/
abbrev Place := List String

/-- The home directory of a user, as text, if it is known; the user without a name is the one who asks. -/
abbrev Home := String → Option String

namespace Path

/-- The root of a path: none, one slash, or two where exactly two stand in front. -/
def rootOf : List Char → String
  | '/' :: '/' :: '/' :: _ => "/"
  | '/' :: '/' :: _ => "//"
  | '/' :: _ => "/"
  | _ => ""

/-- The path that a text spells. -/
def ofString (s : String) : Path :=
  ⟨rootOf s.toList, ((s.toList.splitOn '/').map String.ofList).filter fun p => p != "" && p != "."⟩

/-- A path as it is shown. -/
def text (p : Path) : String :=
  if p.root = "" ∧ p.parts = [] then "." else p.root ++ "/".intercalate p.parts

/-- The path without its last part. -/
def parent (p : Path) : Path :=
  { p with parts := p.parts.dropLast }

/-- A path below a path. -/
def child (p : Path) (name : String) : Path :=
  { p with parts := p.parts ++ [name] }

/-- The last part of a path, empty if there is none. -/
def name (p : Path) : String :=
  p.parts.getLastD ""

/-- A name cut at its last dot, the dot with the second half; a dot at either end does not count. -/
def cutName (name : List Char) : List Char × List Char :=
  let tail := (name.reverse.takeWhile (· != '.')).reverse
  let head := name.take (name.length - tail.length - 1)
  if tail.isEmpty || head.isEmpty || tail.length = name.length then (name, [])
  else (head, '.' :: tail)

/-- The name of a path without its ending. -/
def stem (p : Path) : String :=
  String.ofList (cutName p.name.toList).1

/-- The ending of a path's name with its dot, empty if there is none. -/
def suffix (p : Path) : String :=
  String.ofList (cutName p.name.toList).2

/-! ### Home directories -/

/-- What stands for a first part that begins with a tilde: the home directory of the user named behind it,
without slashes at its end. -/
def homeText? (home : Home) (part : String) : Option String :=
  (home (String.ofList (part.toList.drop 1))).map fun dir =>
    let front := (dir.toList.reverse.dropWhile (· = '/')).reverse
    if front = [] then "/" else String.ofList front

/-- A path with a tilde at its front spelled out, if it has one; a home directory that is not known, or that
begins with a tilde itself, leaves no path. -/
def expandUser (home : Home) (p : Path) : Option Path :=
  match p.root, p.parts with
  | "", part :: parts =>
    if part.toList.head? = some '~' then
      match homeText? home part with
      | none => none
      | some dir =>
        if dir.toList.head? = some '~' then none
        else
          let base := Path.ofString dir
          some { base with parts := base.parts ++ parts }
    else some p
  | _, _ => some p

/-! ### Places -/

/-- One part followed: double dots lead back up. -/
def stepFrom (place : Place) (part : String) : Place :=
  if part = ".." then place.dropLast else place ++ [part]

/-- Where a path begins. -/
def origin (cwd : Place) (p : Path) : Place :=
  if p.root = "" then cwd else []

/-- The place of a path by its letters alone, whether or not anything is there. -/
def resolve (cwd : Place) (p : Path) : Place :=
  p.parts.foldl stepFrom (p.origin cwd)

/-- The places that following a path passes, its end among them. -/
def visited (cwd : Place) (p : Path) : List Place :=
  let rec go (place : Place) : List String → List Place
    | [] => [place]
    | part :: parts => place :: go (stepFrom place part) parts
  go (p.origin cwd) p.parts

/-- A place as a path from the root. -/
def ofPlace (place : Place) : Path :=
  ⟨"/", place⟩

/-- What remains of a place below a directory, if it lies there. -/
def below? : Place → Place → Option (List String)
  | [], place => some place
  | d :: ds, p :: ps => if d = p then below? ds ps else none
  | _ :: _, [] => none

/-- A path as seen from the working directory if it leads there, and as written otherwise. -/
def relativeText (cwd : Place) (p : Path) : String :=
  match below? cwd (p.resolve cwd) with
  | some parts => Path.text ⟨"", parts⟩
  | none => p.text

end Path

end ApiPage
