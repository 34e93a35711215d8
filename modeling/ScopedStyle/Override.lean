import ScopedStyle.Compilation
import ScopedStyle.SpecMerge

/-! Overriding: a patch is merged onto a spec, or onto the spec of a compiled style, and the result
compiled into a new style. The merge comes before any check of what is compiled. -/
namespace ScopedStyle

/-- What is overridden: a compiled style, or a value that should be a spec. -/
inductive OverrideBase where
  | style (style : Style)
  | spec (value : Value)

namespace OverrideBase

/-- The spec to be overridden, which has to be a mapping if it is no compiled style's. -/
def spec? (base : OverrideBase) : Except Fault (Spec Value) :=
  match base with
  | .style compiled => .ok (compiled.spec.mapKeys Key.toValue)
  | .spec value =>
    match value.entries? with
    | some entries => .ok (.ofEntries entries)
    | none => .error (.merge (.notOverridable value.kindName) [])

/-- The base name of the new style: a style lends its own where none is given, and for a plain spec
one has to be given. -/
def chosenName (base : OverrideBase) (baseName : Value) : Except Fault Value :=
  match base, baseName with
  | .style compiled, name => .ok (if name.isTrue then name else .text compiled.baseName)
  | .spec _, .null => .error (.spec .noBaseName [])
  | .spec _, name => .ok name

/-- The merged spec of an override and its base name. -/
def merged (base : OverrideBase) (patch baseName : Value) : Except Fault (Spec Value × Value) := do
  let spec ← base.spec?
  let name ← base.chosenName baseName
  let merged ← mergedOnto [] spec patch
  .ok (merged, name)

end OverrideBase

/-- Compiling a style or a spec with a patch merged onto it. -/
def Conventions.override (conventions : Conventions) (source : NameSource) (base : OverrideBase)
    (patch baseName : Value) : Except Fault Style × NameSource :=
  match base.merged patch baseName with
  | .error fault => (.error fault, source)
  | .ok (spec, name) => conventions.compileSpec source spec name

/-- Overriding what has a spec and a base name is compiling what the merge comes to. -/
theorem Conventions.override_eq {conventions : Conventions} {source : NameSource}
    {base : OverrideBase} {spec : Spec Value} {patch baseName name : Value}
    (held : base.spec? = .ok spec) (named : base.chosenName baseName = .ok name) :
    conventions.override source base patch baseName =
      match mergedOnto [] spec patch with
      | .ok merged => conventions.compileSpec source merged name
      | .error fault => (.error fault, source) := by
  cases ran : mergedOnto [] spec patch <;>
    simp [override, OverrideBase.merged, held, named, ran, bind, Except.bind]

end ScopedStyle
