import ApiPage.Yaml.Resolve
import ApiPage.Yaml.Token

/-!
# The tree of YAML text

`Node.ofTokens?` builds the tree that tokens spell, and `Node.read` the data that a tree stands for. A
node that is left out is the empty plain scalar. A mapping whose key is `<<` takes over the entries of
its value, its own entries winning. Of several faults in a tree the one nearest to its root counts, and
of those the first.
-/

namespace ApiPage.Yaml

/-- A node: a scalar as it is written, or a collection of nodes. -/
inductive Node
  | scalar (plain : Bool) (text : Str)
  | sequence (items : List Node)
  | mapping (pairs : List (Node × Node))

namespace Node

/-- The node that is left out. -/
def empty : Node := .scalar true ""

/-! ### From tokens -/

/-- Do the tokens begin with one of some? -/
def beginsWith (marks : List Token) : List Token → Bool
  | [] => false
  | t :: _ => marks.contains t

mutual

/-- A node. Only outside brackets may it be a block, and only where `dashes` holds may it be a
sequence at the indentation of its mapping. -/
def parseNode : Nat → Bool → Bool → List Token → Option (Node × List Token)
  | 0, _, _, _ => none
  | fuel + 1, block, dashes, ts =>
    match ts with
    | .scalar plain text :: rest => some (.scalar plain text, rest)
    | .bracketOpen :: rest =>
      (flowItems fuel true rest).map fun (items, after) => (.sequence items, after)
    | .braceOpen :: rest =>
      (flowPairs fuel true rest).map fun (pairs, after) => (.mapping pairs, after)
    | .sequenceOpen :: rest =>
      if block then (blockItems fuel rest).map fun (items, after) => (.sequence items, after) else none
    | .mappingOpen :: rest =>
      if block then (blockPairs fuel rest).map fun (pairs, after) => (.mapping pairs, after) else none
    | .dash :: _ =>
      if dashes then (dashItems fuel ts).map fun (items, after) => (.sequence items, after) else none
    | _ => none

/-- A node, or nothing before one of some marks. -/
def optionalNode : Nat → Bool → Bool → List Token → List Token → Option (Node × List Token)
  | 0, _, _, _, _ => none
  | fuel + 1, block, dashes, marks, ts =>
    if beginsWith marks ts then some (empty, ts) else parseNode fuel block dashes ts

/-- The members of a block sequence up to its end. -/
def blockItems : Nat → List Token → Option (List Node × List Token)
  | 0, _ => none
  | fuel + 1, ts =>
    match ts with
    | .blockClose :: rest => some ([], rest)
    | .dash :: rest =>
      match optionalNode fuel true false [.dash, .blockClose] rest with
      | none => none
      | some (n, rest) => (blockItems fuel rest).map fun (ns, after) => (n :: ns, after)
    | _ => none

/-- The members of a sequence at the indentation of its mapping. -/
def dashItems : Nat → List Token → Option (List Node × List Token)
  | 0, _ => none
  | fuel + 1, ts =>
    match ts with
    | .dash :: rest =>
      match optionalNode fuel true false [.dash, .key, .value, .blockClose] rest with
      | none => none
      | some (n, rest) => (dashItems fuel rest).map fun (ns, after) => (n :: ns, after)
    | _ => some ([], ts)

/-- What follows a key: its value, or nothing. -/
def valueAfter : Nat → Bool → List Token → List Token → Option (Node × List Token)
  | 0, _, _, _ => none
  | fuel + 1, block, marks, ts =>
    match ts with
    | .value :: rest => optionalNode fuel block block marks rest
    | _ => some (empty, ts)

/-- The pairs of a block mapping up to its end. -/
def blockPairs : Nat → List Token → Option (List (Node × Node) × List Token)
  | 0, _ => none
  | fuel + 1, ts =>
    match ts with
    | .blockClose :: rest => some ([], rest)
    | .key :: rest =>
      match optionalNode fuel true true [.key, .value, .blockClose] rest with
      | none => none
      | some (k, rest) =>
        match valueAfter fuel true [.key, .value, .blockClose] rest with
        | none => none
        | some (v, rest) => (blockPairs fuel rest).map fun (ps, after) => ((k, v) :: ps, after)
    | _ => none

/-- The members of a sequence in brackets; `first` tells that no comma is due. -/
def flowItems : Nat → Bool → List Token → Option (List Node × List Token)
  | 0, _, _ => none
  | fuel + 1, first, ts =>
    match first, ts with
    | _, .bracketClose :: rest => some ([], rest)
    | false, .comma :: .bracketClose :: rest => some ([], rest)
    | false, .comma :: rest => flowItem fuel rest
    | false, _ => none
    | true, _ => flowItem fuel ts

/-- One member of a sequence in brackets, which may be a single pair, and those after it. -/
def flowItem : Nat → List Token → Option (List Node × List Token)
  | 0, _ => none
  | fuel + 1, ts =>
    match ts with
    | .key :: rest =>
      match optionalNode fuel false false [.value, .comma, .bracketClose] rest with
      | none => none
      | some (k, rest) =>
        match valueAfter fuel false [.comma, .bracketClose] rest with
        | none => none
        | some (v, rest) =>
          (flowItems fuel false rest).map fun (ns, after) => (.mapping [(k, v)] :: ns, after)
    | _ =>
      match parseNode fuel false false ts with
      | none => none
      | some (n, rest) => (flowItems fuel false rest).map fun (ns, after) => (n :: ns, after)

/-- The pairs of a mapping in braces; `first` tells that no comma is due. -/
def flowPairs : Nat → Bool → List Token → Option (List (Node × Node) × List Token)
  | 0, _, _ => none
  | fuel + 1, first, ts =>
    match first, ts with
    | _, .braceClose :: rest => some ([], rest)
    | false, .comma :: .braceClose :: rest => some ([], rest)
    | false, .comma :: rest => flowPair fuel rest
    | false, _ => none
    | true, _ => flowPair fuel ts

/-- One pair of a mapping in braces, which may be a key alone, and those after it. -/
def flowPair : Nat → List Token → Option (List (Node × Node) × List Token)
  | 0, _ => none
  | fuel + 1, ts =>
    match ts with
    | .key :: rest =>
      match optionalNode fuel false false [.value, .comma, .braceClose] rest with
      | none => none
      | some (k, rest) =>
        match valueAfter fuel false [.comma, .braceClose] rest with
        | none => none
        | some (v, rest) => (flowPairs fuel false rest).map fun (ps, after) => ((k, v) :: ps, after)
    | _ =>
      match parseNode fuel false false ts with
      | none => none
      | some (k, rest) => (flowPairs fuel false rest).map fun (ps, after) => ((k, empty) :: ps, after)

end

/-- The node of a document after its mark, if it has one. -/
def content (fuel : Nat) (ts : List Token) : Option (Node × List Token) :=
  match ts with
  | [] => some (empty, [])
  | .documentStart :: rest =>
    if rest.isEmpty || beginsWith [.documentStart, .documentEnd] rest then some (empty, rest)
    else parseNode fuel true false rest
  | _ => parseNode fuel true false ts

/-- The tree that tokens spell: one document, with nothing after its end. -/
def ofTokens? (ts : List Token) : Option Node :=
  match content (4 * ts.length + 4) ts with
  | none => none
  | some (n, rest) => if (rest.dropWhile (· == .documentEnd)).isEmpty then some n else none

/-! ### Data -/

/-- Is a node the key that takes over the entries of its value? -/
def isMergeKey : Node → Bool
  | .scalar plain text => plain && text == "<<"
  | _ => false

/-- The scalar that a scalar node stands for as a key. -/
def keyScalar (plain : Bool) (text : Str) : Except Fault Scalar :=
  if plain && text ≠ "=" then (resolve text).mapError .scalar else .ok (.text text)

/-- The scalar that a node stands for as a key. -/
def key? : Node → Option Scalar
  | .scalar plain text => (keyScalar plain text).toOption
  | _ => none

/-- The scalar that a scalar node stands for as a value; the marks of a default value and of a merge
stand for none. -/
def valueScalar (plain : Bool) (text : Str) : Except Fault Scalar :=
  if plain then
    if text = "=" ∨ text = "<<" then .error .notYaml else (resolve text).mapError .scalar
  else .ok (.text text)

mutual

/-- The data that a node stands for. -/
def value? : Node → Option Value
  | .scalar plain text => (valueScalar plain text).toOption.map .scalar
  | .sequence items => (values? items).map .list
  | .mapping pairs => (entries? pairs).map fun es => .map (mergeEntries (es.1 ++ es.2))

/-- The data that nodes stand for. -/
def values? : List Node → Option (List Value)
  | [] => some []
  | n :: ns =>
    match value? n, values? ns with
    | some v, some vs => some (v :: vs)
    | _, _ => none

/-- The entries that pairs take over and those that they are. -/
def entries? : List (Node × Node) → Option (Entries × Entries)
  | [] => some ([], [])
  | (k, v) :: rest =>
    match entries? rest with
    | none => none
    | some (taken, own) =>
      if isMergeKey k then (taken? v).map fun es => (es ++ taken, own)
      else
        match key? k, value? v with
        | some key, some value => some (taken, (key, value) :: own)
        | _, _ => none

/-- The entries that a node hands over: those of a mapping, or of a sequence of mappings. -/
def taken? : Node → Option Entries
  | .mapping pairs => (entries? pairs).map fun es => es.1 ++ es.2
  | .sequence items => takenAll? items
  | .scalar _ _ => none

/-- The entries that mappings hand over, those of the last one first. -/
def takenAll? : List Node → Option Entries
  | [] => some []
  | .mapping pairs :: rest =>
    match entries? pairs, takenAll? rest with
    | some es, some more => some (more ++ (es.1 ++ es.2))
    | _, _ => none
  | _ :: _ => none

end

/-! ### Faults -/

/-- Faults by their distance from a node. -/
abbrev Levels := List (List Fault)

/-- The faults of two parts of a tree, those of the first before those of the second at every
distance. -/
def Levels.join : Levels → Levels → Levels
  | [], l => l
  | l, [] => l
  | fs :: l, gs :: k => (fs ++ gs) :: Levels.join l k

/-- The fault of a scalar, if it has one. -/
def scalarFaults (s : Except Fault Scalar) : Levels :=
  match s with
  | .ok _ => []
  | .error f => [[f]]

/-- The faults of a key; a collection is none. -/
def keyFaults : Node → Levels
  | .scalar plain text => scalarFaults (keyScalar plain text)
  | _ => [[.notYaml]]

mutual

/-- The faults of a tree. -/
def faults : Node → Levels
  | .scalar plain text => scalarFaults (valueScalar plain text)
  | .sequence items => [] :: itemFaults items
  | .mapping pairs =>
    let (mergers, taken, own) := pairFaults pairs
    [] :: Levels.join [mergers] (Levels.join taken own)

/-- The faults of the members of a sequence. -/
def itemFaults : List Node → Levels
  | [] => []
  | n :: ns => Levels.join (faults n) (itemFaults ns)

/-- The faults of pairs: of those that take over entries, of the entries taken over, and of those that
the pairs are. -/
def pairFaults : List (Node × Node) → List Fault × Levels × Levels
  | [] => ([], [], [])
  | (k, v) :: rest =>
    let (mergers, taken, own) := pairFaults rest
    if isMergeKey k then
      let (more, es) := takenFaults v
      (more ++ mergers, Levels.join es taken, own)
    else (mergers, taken, Levels.join (Levels.join (keyFaults k) (faults v)) own)

/-- The faults of a node that hands over its entries, and those of its entries. -/
def takenFaults : Node → List Fault × Levels
  | .mapping pairs =>
    let (mergers, taken, own) := pairFaults pairs
    (mergers, Levels.join taken own)
  | .sequence items => takenAllFaults items
  | .scalar _ _ => ([.notYaml], [])

/-- The faults of mappings that hand over their entries, and those of their entries, the last mapping
first. -/
def takenAllFaults : List Node → List Fault × Levels
  | [] => ([], [])
  | .mapping pairs :: rest =>
    let (mergers, taken, own) := pairFaults pairs
    let (more, es) := takenAllFaults rest
    (mergers ++ more, Levels.join es (Levels.join taken own))
  | _ :: _ => ([.notYaml], [])

end

/-- The data that a tree stands for, or the fault for which it stands for none. -/
def read (n : Node) : Except Fault Value :=
  match n.value? with
  | some v => .ok v
  | none => .error (n.faults.flatten.headD .notYaml)

end Node

end ApiPage.Yaml
