import ScopedStyle.CapitalForm

/-! Issuing class names. A name is made of a base, twice, and a number that its source never gives
out again. -/
namespace ScopedStyle

/-- A source of class names: the number that the next name gets. -/
structure NameSource where
  next : Int
deriving DecidableEq

/-- The class name of a base and a number: the base with a capital, the base, the number. -/
def issuedName (base : String) (number : Int) : String :=
  capitalizeFirst base ++ "_" ++ base ++ number.repr

namespace NameSource

/-- The source that names are issued from unless another is chosen. -/
def fresh : NameSource := ⟨1⟩

/-- A new class name, and the source to use from then on. -/
def issue (source : NameSource) (base : String) : String × NameSource :=
  (issuedName base source.next, ⟨source.next + 1⟩)

end NameSource

end ScopedStyle
