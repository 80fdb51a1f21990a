import ApiPage.Calendar
import ApiPage.Number.Shortest
import ApiPage.Text.Numeral
import ApiPage.Text.Pieces
import ApiPage.Text.Quoted

/-!
# Document data

What a document holds once its text is read: scalars, lists and mappings. A mapping is a list of
entries in document order whose keys are scalars; `insertEntry` keeps the place of a repeated key
and takes its last value. `literal` writes data as one line of source text, and `plain` is the same
but for texts, days and moments, which are written as people do. Data in which a whole number has more
digits than may be written has no text; `writable` says whether it has one.
-/

namespace ApiPage

/-- Data without parts. Only a scalar may be a key. -/
inductive Scalar
  | null
  | bool (b : Bool)
  | int (i : Int)
  | float (x : Binary64)
  | text (s : Str)
  | bytes (bs : List UInt8)
  | date (d : Day)
  | moment (m : Moment)
  deriving DecidableEq, Repr

/-- Data of a kind of its own, as a set or a pair: whether it has no members, and its source text, if it has
one. -/
structure Foreign where
  empty : Bool
  literal? : Option String
  deriving DecidableEq, Repr

/-- Data of a document. -/
inductive Value
  | scalar (s : Scalar)
  | list (items : List Value)
  | map (entries : List (Scalar × Value))
  | foreign (f : Foreign)

/-- The entries of a mapping, in document order. -/
abbrev Entries := List (Scalar × Value)

namespace Scalar

/-- The whole number that a number or a truth value equals. -/
def toInt? : Scalar → Option Int
  | .bool b => some (if b then 1 else 0)
  | .int i => some i
  | .float x => x.toInt?
  | _ => none

/-- Equality of keys: numbers and truth values are compared by value, moments as moments, all else by
kind and content. -/
def sameKey : Scalar → Scalar → Bool
  | .float x, .float y => x.sameValue y
  | .moment m, .moment n => m.same n
  | k, l =>
    match k.toInt?, l.toInt? with
    | some i, some j => i == j
    | _, _ => decide (k = l)

@[simp] theorem sameKey_text (s t : Str) : sameKey (.text s) (.text t) = decide (s = t) := by
  simp [sameKey, toInt?]

/-- A scalar as source text. -/
def literal : Scalar → String
  | .null => "None"
  | .bool b => if b then "True" else "False"
  | .int i => toString i
  | .float x => x.text
  | .text s => Text.quoted s
  | .bytes bs => Text.quotedBytes bs
  | .date d => d.literal
  | .moment m => m.literal

/-- A scalar as a name: a text stands for itself, a day and a moment are written as people do. -/
def plain : Scalar → Str
  | .text s => s
  | .date d => d.text
  | .moment m => m.text
  | s => s.literal

@[simp] theorem plain_text (s : Str) : plain (.text s) = s := rfl

/-- Has a scalar a text? A whole number of too many digits has none. -/
def writable : Scalar → Bool
  | .int i => (Text.NumeralForm.usual.write? i).isSome
  | _ => true

@[simp] theorem writable_text (s : Str) : writable (.text s) = true := rfl

end Scalar

namespace Value

/-- The value of a scalar kind that says nothing. -/
abbrev null : Value := .scalar .null

/-- A text as data. -/
abbrev text (s : Str) : Value := .scalar (.text s)

mutual

/-- Data as source text on one line. -/
def literal : Value → String
  | .scalar s => s.literal
  | .list items => "[" ++ ", ".intercalate (literals items) ++ "]"
  | .map entries => "\x7b" ++ ", ".intercalate (entryLiterals entries) ++ "\x7d"
  | .foreign f => f.literal?.getD ""

/-- The members of a list as source text. -/
def literals : List Value → List String
  | [] => []
  | v :: rest => v.literal :: literals rest

/-- The entries of a mapping as source text. -/
def entryLiterals : List (Scalar × Value) → List String
  | [] => []
  | (k, v) :: rest => (k.literal ++ ": " ++ v.literal) :: entryLiterals rest

end

/-- Data as source text, but a scalar as a name. -/
def plain : Value → Str
  | .scalar s => s.plain
  | v => v.literal

mutual

/-- Has data a text? It has if all that is in it has one. -/
def writable : Value → Bool
  | .scalar s => s.writable
  | .list items => allWritable items
  | .map entries => entriesWritable entries
  | .foreign f => f.literal?.isSome

/-- Have the members of a list texts? -/
def allWritable : List Value → Bool
  | [] => true
  | v :: rest => v.writable && allWritable rest

/-- Have the entries of a mapping texts? -/
def entriesWritable : List (Scalar × Value) → Bool
  | [] => true
  | (k, v) :: rest => k.writable && v.writable && entriesWritable rest

end

@[simp] theorem writable_scalar (s : Scalar) : writable (.scalar s) = s.writable := by
  rw [writable]

/-- The values that count as nothing: null, false, the zeros and whatever is empty. -/
def isVacant : Value → Bool
  | .scalar .null => true
  | .scalar (.bool b) => !b
  | .scalar (.int i) => i == 0
  | .scalar (.float x) => x.isZero
  | .scalar (.text s) => s.isEmpty
  | .scalar (.bytes bs) => bs.isEmpty
  | .scalar (.date _) => false
  | .scalar (.moment _) => false
  | .list items => items.isEmpty
  | .map entries => entries.isEmpty
  | .foreign f => f.empty

end Value

namespace Entries

/-- The value under a key that is a text. -/
def field? (entries : Entries) (key : Str) : Option Value :=
  (entries.find? fun e => e.1.sameKey (.text key)).map (·.2)

/-- The value under a key, null where there is none. -/
def field (entries : Entries) (key : Str) : Value :=
  (entries.field? key).getD .null

end Entries

/-- An entry list with one entry more: a key that is there already keeps its place and its spelling
and takes the new value. -/
def insertEntry {α : Type} (key : Scalar) (value : α) : List (Scalar × α) → List (Scalar × α)
  | [] => [(key, value)]
  | (k, v) :: rest =>
    if k.sameKey key then (k, value) :: rest else (k, v) :: insertEntry key value rest

/-- The entry list of a sequence of entries, repeated keys merged. -/
def mergeEntries {α : Type} (pairs : List (Scalar × α)) : List (Scalar × α) :=
  pairs.foldl (fun entries e => insertEntry e.1 e.2 entries) []

end ApiPage
