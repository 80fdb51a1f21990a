import ApiPage.Ty.Basic

/-!
# The types inside variadic parameters

What one member of a parameter's collection is: `unpackArgs` for the positional rest of a call and
`unpackKwargs` for the named rest. A variant of another shape gives `Any` instead of a failure.
-/

namespace ApiPage

/-- What a variant of sequence shape holds. -/
def Variant.itemTy : Variant → Ty
  | .list item => item
  | .tuple elems _ => Ty.unions elems
  | _ => Ty.any

/-- What a variant of mapping shape holds under its keys. -/
def Variant.valueTy : Variant → Ty
  | .dict _ value => value
  | _ => Ty.any

namespace Ty

/-- The type of one member of a collection of positional arguments. -/
def unpackArgs (t : Ty) : Ty :=
  unions (t.map Variant.itemTy)

/-- The type of one value of a collection of named arguments. -/
def unpackKwargs (t : Ty) : Ty :=
  unions (t.map Variant.valueTy)

end Ty

end ApiPage
