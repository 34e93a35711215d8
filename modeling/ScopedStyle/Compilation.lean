import ScopedStyle.NameSource
import ScopedStyle.Selector
import ScopedStyle.SpecSnapshot
import ScopedStyle.Style

/-! Compiling specs into styles. The base name and the spec are checked first; then a root class is
issued, and only then are values rendered and the names of variants checked, in the order in which
they stand in the spec. -/
namespace ScopedStyle

/-- What a compiler can be set to. -/
structure Conventions where
  /-- Follows every number. -/
  unit : String := "px"
  /-- Pseudo-classes beside the standard ones. -/
  addedPseudoClasses : List (String × String) := []
  /-- Stands before every segment in a class name. -/
  separator : String := "--"

/-- The pseudo-classes that a compiler recognizes. -/
def Conventions.pseudoClasses (conventions : Conventions) : PseudoClasses :=
  PseudoClasses.standard.extend conventions.addedPseudoClasses

/-- The first declaration of every root rule. -/
def boxSizing : Declaration := ⟨"box-sizing", "border-box"⟩

/-- The last declaration of every root rule. -/
def mozBoxSizing : Declaration := ⟨"-moz-box-sizing", "border-box"⟩

/-- What a compiler makes of the entries of a scope. -/
structure CompiledEntries where
  declarations : List Declaration
  children : List RuleTree

namespace Conventions

/-- The node of a variant. -/
def variantNode (conventions : Conventions) (root : String) (path : List String)
    (entries : CompiledEntries) : RuleTree where
  scope := {
    path := path
    className := modifierClass conventions.separator root path
    rule := {
      selectors := conventions.pseudoClasses.variantSelectors conventions.separator root path
      declarations := entries.declarations } }
  children := entries.children

/-- The node of the root. -/
def rootNode (root : String) (entries : CompiledEntries) : RuleTree where
  scope := {
    path := []
    className := root
    rule := {
      selectors := ["." ++ root]
      declarations := boxSizing :: entries.declarations ++ [mozBoxSizing] } }
  children := entries.children

/-- The name of a variant in the scope with a path, which must not hold the separator. -/
def checkVariantName (conventions : Conventions) (path : List Key) (name : Key) :
    Except Fault Unit :=
  if occursIn conventions.separator.toList name.text.toList then
    .error (.spec (.separatorInName name.text conventions.separator) (path ++ [name]))
  else .ok ()

/-- The entries of the scope with a path, compiled in their order. -/
def compileEntries (conventions : Conventions) (root : String) (path : List Key) :
    Spec Key → Except Fault CompiledEntries
  | .nil => .ok ⟨[], []⟩
  | .leaf key value rest => do
    let declarations ← value.declarations conventions.unit key.text
    let others ← conventions.compileEntries root path rest
    .ok ⟨declarations ++ others.declarations, others.children⟩
  | .scope key _ inner rest => do
    conventions.checkVariantName path key
    let entries ← conventions.compileEntries root (path ++ [key]) inner
    let others ← conventions.compileEntries root path rest
    let variant := conventions.variantNode root ((path ++ [key]).map (·.text)) entries
    .ok ⟨others.declarations, variant :: others.children⟩

/-- The style of a checked spec below a root class. -/
def compileSnapshot (conventions : Conventions) (root baseName : String) (spec : Spec Key) :
    Except Fault Style := do
  let entries ← conventions.compileEntries root [] spec
  .ok { name := root, baseName := baseName, spec := spec, root := rootNode root entries }

end Conventions

/-- A base name, which has to be a text and not the empty one. -/
def checkedBaseName (name : Value) : Except Fault String :=
  match name.text? with
  | some text => if text == "" then .error (.spec (.badBaseName name) []) else .ok text
  | none => .error (.spec (.badBaseName name) [])

/-- A base name and a checked spec; of two faults that of the name counts. -/
def checkedInput (baseName : Value) (snapshot : Except Fault (Spec Key)) :
    Except Fault (String × Spec Key) := do
  let name ← checkedBaseName baseName
  let spec ← snapshot
  .ok (name, spec)

namespace Conventions

/-- Compiling checked input: a root class is issued even if the compilation then fails, and none is
where the input is refused. -/
def compileChecked (conventions : Conventions) (source : NameSource) :
    Except Fault (String × Spec Key) → Except Fault Style × NameSource
  | .error fault => (.error fault, source)
  | .ok (baseName, spec) =>
    let (root, source) := source.issue baseName
    (conventions.compileSnapshot root baseName spec, source)

/-- Compiling a value, which has to be a spec, under a base name. -/
def compile (conventions : Conventions) (source : NameSource) (spec baseName : Value) :
    Except Fault Style × NameSource :=
  conventions.compileChecked source (checkedInput baseName (spec.snapshot []))

/-- Compiling a spec under a base name. -/
def compileSpec (conventions : Conventions) (source : NameSource) (spec : Spec Value)
    (baseName : Value) : Except Fault Style × NameSource :=
  conventions.compileChecked source (checkedInput baseName (spec.snapshot []))

/-- A checked spec has a style if its entries can be compiled, and that holds all it is made from. -/
theorem compileSnapshot_eq_ok {conventions : Conventions} {root baseName : String}
    {spec : Spec Key} {style : Style} :
    conventions.compileSnapshot root baseName spec = .ok style ↔
      ∃ entries, conventions.compileEntries root [] spec = .ok entries ∧
        ⟨root, baseName, spec, rootNode root entries⟩ = style := by
  simp only [compileSnapshot, bind_eq_ok, Except.ok.injEq]

/-- Checked input has a style if the base name and the spec pass their checks and the checked spec has
a style below the class that is issued for it. -/
theorem compileChecked_eq_ok {conventions : Conventions} {source : NameSource} {baseName : Value}
    {snapshot : Except Fault (Spec Key)} {style : Style} :
    (conventions.compileChecked source (checkedInput baseName snapshot)).1 = .ok style ↔
      ∃ name checked, checkedBaseName baseName = .ok name ∧ snapshot = .ok checked ∧
        conventions.compileSnapshot (issuedName name source.next) name checked = .ok style := by
  cases named : checkedBaseName baseName with
  | error fault => simp [compileChecked, checkedInput, named, bind, Except.bind]
  | ok name =>
    cases snapshot with
    | error fault => simp [compileChecked, checkedInput, named, bind, Except.bind]
    | ok checked =>
      simp [compileChecked, checkedInput, named, NameSource.issue, bind, Except.bind]

/-- A style holds the text of the base name and the checked spec that it is made from. -/
theorem input_of_compileChecked {conventions : Conventions} {source : NameSource}
    {baseName : Value} {snapshot : Except Fault (Spec Key)} {style : Style}
    (ran : (conventions.compileChecked source (checkedInput baseName snapshot)).1 = .ok style) :
    checkedBaseName baseName = .ok style.baseName ∧ snapshot = .ok style.spec := by
  obtain ⟨name, checked, named, passed, made⟩ := compileChecked_eq_ok.mp ran
  obtain ⟨_, _, rfl⟩ := compileSnapshot_eq_ok.mp made
  exact ⟨named, passed⟩

/-- Compiling gives a style if the base name and the spec pass their checks and the checked spec has
a style below the class that is issued for it. -/
theorem compile_eq_ok {conventions : Conventions} {source : NameSource} {spec baseName : Value}
    {style : Style} :
    (conventions.compile source spec baseName).1 = .ok style ↔
      ∃ name checked, checkedBaseName baseName = .ok name ∧ spec.snapshot [] = .ok checked ∧
        conventions.compileSnapshot (issuedName name source.next) name checked = .ok style :=
  compileChecked_eq_ok

end Conventions

end ScopedStyle
