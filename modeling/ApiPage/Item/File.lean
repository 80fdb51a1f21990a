import ApiPage.Files.Basic
import ApiPage.Item.Reading
import ApiPage.Json
import ApiPage.Yaml.Reader

/-!
# Model files

A model file holds one item and its name; without a name of its own the item is named after the file.
Files whose name ends in `.json` are read as JSON, all others by a reader of YAML.
-/

namespace ApiPage

namespace ModelFile

/-- Why a file gives no item. -/
inductive Fault
  | text (fault : Files.TextFault)
  | scalar (fault : ScalarFault)
  | model (error : ModelError)

/-- Does the name of a path end as that of a JSON file, in any case? -/
def isJson (p : Path) : Bool :=
  p.suffix.toList.map Char.toLower == ".json".toList

/-- A file that gives no item for a flaw of its own. -/
def refuse {α : Type} (p : Path) (flaw : Flaw) : Except Fault α :=
  .error (.model ⟨{ root := p.name }, flaw⟩)

/-- A fault in reading a document, as one of its file. -/
def Fault.ofItem : ItemFault → Fault
  | .refused e => .model e
  | .unwritable => .scalar .unwritable

/-- The data of a file's text. -/
def data (yaml : Yaml.Reader) (p : Path) (text : String) : Except Fault Value :=
  if isJson p then
    match Json.read text with
    | .ok v => .ok v
    | .error (.notJson e) => refuse p (.notJson (e.message text))
    | .error (.scalar fault) => .error (.scalar fault)
  else
    match yaml.read text with
    | .ok v => .ok v
    | .error (.malformed reason) => refuse p (.notYaml reason)
    | .error (.scalar fault) => .error (.scalar fault)

/-- The name of an item: its own, or else that of its file. -/
def itemName (p : Path) (entries : Entries) : Reading Str :=
  Reading.name { root := "name" } ((entries.field? "name").getD (.text p.stem))

/-- The name and the item that the data of a file describe. -/
def ofEntries (p : Path) (entries : Entries) : Reading (Str × Item) := do
  let name ← itemName p entries
  let item ← readItem {} entries
  .ok (name, item)

/-- The name and the item that a file's text describes. -/
def ofText (yaml : Yaml.Reader) (p : Path) (text : String) : Except Fault (Str × Item) := do
  match ← data yaml p text with
  | .map entries => (ofEntries p entries).mapError .ofItem
  | _ => refuse p .rootNotAMapping

/-- The name and the item of the file that a path leads to. -/
def read (yaml : Yaml.Reader) (fs : Files) (p : Path) : Except Fault (Str × Item) :=
  match fs.readText p with
  | .error fault => .error (.text fault)
  | .ok text => ofText yaml p text

end ModelFile

end ApiPage
