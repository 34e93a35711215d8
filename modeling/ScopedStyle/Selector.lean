import ScopedStyle.PseudoClasses

/-! The class names and selectors of a variant. Its class is the root's, followed by a separator and
a name for each segment of its path. Where the last segments are pseudo-classes, the variant is also
selected by an enclosing class with their native selectors. -/
namespace ScopedStyle

/-- Whether some characters occur next to each other and in order in a text. -/
def occursIn (pattern : List Char) : List Char → Bool
  | [] => pattern.isEmpty
  | c :: rest => pattern.isPrefixOf (c :: rest) || occursIn pattern rest

/-- The class name of the variant with a path below a root class. -/
def modifierClass (separator root : String) (path : List String) : String :=
  root ++ String.join (path.map (separator ++ ·))

@[simp] theorem modifierClass_nil (separator root : String) :
    modifierClass separator root [] = root := by
  simp [modifierClass]

/-- The first segment of a path may as well be part of the root class. -/
theorem modifierClass_cons (separator root segment : String) (path : List String) :
    modifierClass separator root (segment :: path) =
      modifierClass separator (root ++ separator ++ segment) path := by
  simp [modifierClass, String.append_assoc]

/-- The class of a variant is made from that of an enclosing one as that is made from the root. -/
theorem modifierClass_append (separator root : String) (path others : List String) :
    modifierClass separator root (path ++ others) =
      modifierClass separator (modifierClass separator root path) others := by
  induction path generalizing root with
  | nil => simp
  | cons segment path ih => rw [List.cons_append, modifierClass_cons, ih, modifierClass_cons]

namespace PseudoClasses

/-- The native selectors of some segments, all of which have to be recognized. -/
def nativeSuffix? (table : PseudoClasses) : List String → Option String
  | [] => some ""
  | segment :: rest => do
    let selector ← table.selector? segment
    let others ← table.nativeSuffix? rest
    some (selector ++ others)

/-- The selectors in which a class stands for some segments, and the native selectors of all the
segments after them follow. The fewest segments in the class come first, and a class with all of
them is not among these. -/
def splitSelectors (table : PseudoClasses) (separator base : String) : List String → List String
  | [] => []
  | segment :: rest =>
    let further := table.splitSelectors separator (base ++ separator ++ segment) rest
    match table.nativeSuffix? (segment :: rest) with
    | some natives => ("." ++ base ++ natives) :: further
    | none => further

/-- Every selector of a variant, the one with its own class first. What is written alike is one
selector. -/
def variantSelectors (table : PseudoClasses) (separator root : String) (path : List String) :
    List String :=
  (("." ++ modifierClass separator root path) :: table.splitSelectors separator root path).eraseDups

end PseudoClasses

end ScopedStyle
