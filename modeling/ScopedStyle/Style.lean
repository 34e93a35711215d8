import ScopedStyle.RuleTree
import ScopedStyle.Spec
import ScopedStyle.ValueEquality

/-! Compiled styles: the rules of a style sheet, and the class attribute of an element on which some
variants are active. -/
namespace ScopedStyle

/-- The path of a variant with its class name. -/
abbrev Modifiers := List (List String × String)

/-- Flags under names, as they are given. -/
abbrev Flags := List (Value × Value)

/-- Whether the flag of a segment counts as true. -/
def Flags.isSet (flags : Flags) (segment : String) : Bool :=
  match flags.lookup (.text segment) with
  | some flag => flag.isTrue
  | none => false

/-- The class attribute of an element: the root class, and in the order of the table the class of
every variant whose path has only segments with a set flag. -/
def activeClasses (root : String) (table : Modifiers) (flags : Flags) : String :=
  let active := table.filter fun variant => variant.1.all flags.isSet
  String.intercalate " " (root :: active.map (·.2))

/-- Flags given together, and flags given by name that overrule them. -/
def Flags.overruledBy (flags named : Flags) : Flags :=
  assignAll flags named

/-- The result of compiling a spec. -/
structure Style where
  /-- The root class, issued for this style alone. -/
  name : String
  baseName : String
  spec : Spec Key
  root : RuleTree

namespace Style

/-- The rules as they are written, the root's first. -/
def rules (style : Style) : List String :=
  style.root.preorder.map (·.rule.css)

/-- The class names of the scopes below the root. -/
def modifiers (style : Style) : Modifiers :=
  (style.root.preorder.filter fun scope => !scope.path.isEmpty).map fun scope =>
    (scope.path, scope.className)

/-- The paths of the variants. -/
def variants (style : Style) : List (List String) :=
  style.modifiers.map (·.1)

/-- The whole style sheet. -/
def sheet (style : Style) : String :=
  String.intercalate "\n" style.rules

/-- The class attribute of an element with the given flags. -/
def classAttribute (style : Style) (flags : Flags) : String :=
  activeClasses style.name style.modifiers flags

/-- Whether two styles are the same in their names, rules and specs. In a spec, and only there,
order does not count. -/
def same (style other : Style) : Bool :=
  style.name == other.name && style.baseName == other.baseName
    && style.spec.toValue == other.spec.toValue && style.root.preorder == other.root.preorder

end Style

end ScopedStyle
