import ScopedStyle.Spec

/-! Checked specs. A spec is checked once, before anything is compiled: every key has to be a text.
What comes out holds no array that could still be changed, and its keys are the ones given. -/
namespace ScopedStyle

/-- A leaf as it is kept: an array that can grow becomes one that cannot. -/
def Value.settled (value : Value) : Value :=
  match value.content with
  | .list items => .tuple items
  | _ => value

/-- A value as a key, in a scope with the given path. -/
def checkedKey (path : List Key) (value : Value) : Except Fault Key :=
  match value.key? with
  | some key => .ok key
  | none => .error (.spec (.badKey value) path)

/-- The checked form of a spec that stands at a path. The first key that is no text is reported,
with the path of the scope that holds it. -/
def Spec.snapshot (path : List Key) : Spec Value → Except Fault (Spec Key)
  | .nil => .ok .nil
  | .leaf given value rest => do
    let key ← checkedKey path given
    let rest ← rest.snapshot path
    .ok (.leaf key value.settled rest)
  | .scope given _ inner rest => do
    let key ← checkedKey path given
    let inner ← inner.snapshot (path ++ [key])
    let rest ← rest.snapshot path
    .ok (.scope key none inner rest)

/-- The checked form of a value, which has to be a mapping. -/
def Value.snapshot (path : List Key) (value : Value) : Except Fault (Spec Key) :=
  match value.entries? with
  | none => .error (.spec (.notMapping value.kindName) path)
  | some entries => (Spec.ofEntries entries).snapshot path

end ScopedStyle
