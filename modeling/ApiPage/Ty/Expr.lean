import ApiPage.Ty.Basic
import ApiPage.Ty.Token

/-!
# The grammar of type text

The syntax trees of type text, the tokens that spell each of them and the type that each denotes.
A union is a list of alternatives between bars; an alternative is a word, a word with arguments in
brackets, or one of the two tuple forms that hold no list of types.
-/

namespace ApiPage.Ty

/-- One alternative of type text; arguments are unions. -/
inductive Expr
  | word (s : Str)
  | generic (head : Str) (args : List (List Expr))
  /-- The tuple without members. -/
  | emptyTuple
  /-- The tuple of any number of members of one type. -/
  | manyTuple (item : List Expr)
  deriving Repr

/-- A union of alternatives. -/
abbrev UnionExpr := List Expr

/-- The words that name the type without values. -/
def isNeverWord (s : Str) : Bool :=
  s == "Never" || s == "typing.Never"

/-- The words that name the type that says nothing. -/
def isAnyWord (s : Str) : Bool :=
  s == "Any" || s == "typing.Any"

/-! ### Spelling -/

mutual

/-- The tokens of an alternative. -/
def Expr.tokens : Expr → List Token
  | .word s => [.word s]
  | .generic head args => .word head :: .opening :: (argTokens args ++ [.closing])
  | .emptyTuple => [.word "tuple", .opening, .unit, .closing]
  | .manyTuple item =>
    .word "tuple" :: .opening :: (unionTokens item ++ [.comma, .ellipsis, .closing])

/-- The tokens of a union: a bar before every alternative but the first. -/
def unionTokens : List Expr → List Token
  | [] => []
  | e :: es => e.tokens ++ barTokens es

/-- The tokens of further alternatives, a bar before each. -/
def barTokens : List Expr → List Token
  | [] => []
  | e :: es => .bar :: (e.tokens ++ barTokens es)

/-- The tokens of arguments: a comma before every one but the first. -/
def argTokens : List (List Expr) → List Token
  | [] => []
  | u :: us => unionTokens u ++ commaTokens us

/-- The tokens of further arguments, a comma before each. -/
def commaTokens : List (List Expr) → List Token
  | [] => []
  | u :: us => .comma :: (unionTokens u ++ commaTokens us)

end

/-! ### Meaning -/

/-- A generic of no known shape is a name: its head with its arguments in canonical text. -/
def writtenGeneric (head : Str) (args : List Ty) : Variant :=
  .name (head ++ "[" ++ Text.joinWith ", " (args.map Ty.text) ++ "]")

/-- The variant that a head with arguments denotes. -/
def genericVariant (head : Str) (args : List Ty) : Variant :=
  if head = "tuple" then .tuple args false
  else if isAnyWord head then .any
  else match args with
    | [item] => if head = "list" then .list item else writtenGeneric head args
    | [key, value] => if head = "dict" then .dict key value else writtenGeneric head args
    | _ => writtenGeneric head args

/-- The type that a word denotes. -/
def wordTy (s : Str) : Ty :=
  if isNeverWord s then never
  else if isAnyWord s then any
  else named s

mutual

/-- The type that an alternative denotes. -/
def Expr.ty : Expr → Ty
  | .word s => wordTy s
  | .generic head args => [genericVariant head (argTys args)]
  | .emptyTuple => [.tuple [] false]
  | .manyTuple item => [.tuple [unions (altTys item)] true]

/-- The types that the alternatives of a union denote. -/
def altTys : List Expr → List Ty
  | [] => []
  | e :: es => e.ty :: altTys es

/-- The types that arguments denote. -/
def argTys : List (List Expr) → List Ty
  | [] => []
  | u :: us => unions (altTys u) :: argTys us

end

/-- The type that a union denotes. -/
def UnionExpr.ty (u : UnionExpr) : Ty :=
  unions (altTys u)

end ApiPage.Ty
