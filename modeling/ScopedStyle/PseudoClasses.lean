import ScopedStyle.Assignment
import ScopedStyle.Fault
import ScopedStyle.ValueEquality

/-! The names of variants that are also known to the style sheet language as pseudo-classes, each
with its native selector. A table is never changed; extending it makes a new one. -/
namespace ScopedStyle

/-- Recognized names with their native selectors, each name once. -/
structure PseudoClasses where
  entries : List (String × String)
deriving DecidableEq

namespace PseudoClasses

/-- The table of some entries, of which the last for a name holds. -/
def ofEntries (entries : List (String × String)) : PseudoClasses :=
  ⟨assignAll [] entries⟩

/-- The pseudo-classes recognized in every style. -/
def standard : PseudoClasses where
  entries := [
    -- what the user does
    ("hover", ":hover"),
    ("active", ":active"),
    ("focus", ":focus"),
    ("focusWithin", ":focus-within"),
    ("focusVisible", ":focus-visible"),
    ("visited", ":visited"),
    ("link", ":link"),
    ("target", ":target"),
    -- the state of an input
    ("checked", ":checked"),
    ("disabled", ":disabled"),
    ("enabled", ":enabled"),
    ("indeterminate", ":indeterminate"),
    ("invalid", ":invalid"),
    ("valid", ":valid"),
    ("required", ":required"),
    ("optional", ":optional"),
    ("readOnly", ":read-only"),
    ("readWrite", ":read-write"),
    ("placeholderShown", ":placeholder-shown"),
    -- the place in the document
    ("root", ":root"),
    ("empty", ":empty"),
    ("firstChild", ":first-child"),
    ("lastChild", ":last-child"),
    ("onlyChild", ":only-child"),
    ("firstOfType", ":first-of-type"),
    ("lastOfType", ":last-of-type"),
    ("onlyOfType", ":only-of-type")]

/-- The native selector of a name. -/
def selector? (table : PseudoClasses) (name : String) : Option String :=
  table.entries.lookup name

/-- The table with entries added or replaced. -/
def extend (table : PseudoClasses) (extra : List (String × String)) : PseudoClasses :=
  ⟨assignAll table.entries extra⟩

/-- The number of recognized names. -/
def size (table : PseudoClasses) : Nat :=
  table.entries.length

/-- A short description of a table. -/
def description (table : PseudoClasses) : String :=
  "PseudoClassTable(" ++ table.size.repr ++ " entries)"

/-- The native selector of any value, which has one if it is a recognized name. A value that cannot
be a key cannot be looked up either. -/
def lookup (table : PseudoClasses) (name : Value) : Except Fault (Option String) :=
  match name.unhashable? with
  | some kind => .error (.unhashable kind)
  | none => .ok (name.text?.bind table.selector?)

/-- Whether a value is a recognized name. -/
def recognizes (table : PseudoClasses) (name : Value) : Except Fault Bool := do
  let found ← table.lookup name
  .ok found.isSome

/-- The native selector of a recognized name. -/
def nativeSelector (table : PseudoClasses) (name : Value) : Except Fault String := do
  match ← table.lookup name with
  | some selector => .ok selector
  | none => .error (.unknownPseudoClass name)

end PseudoClasses

end ScopedStyle
