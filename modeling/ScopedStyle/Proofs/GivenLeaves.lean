import ScopedStyle.Proofs.CompiledOutline

/-! How far the leaves of a spec are rendered as they were given. A leaf is settled before it is
rendered, and settling an array drops whatever an author's kind adds to it. So a list that knows how
to convert itself is rendered as the array it holds, although everywhere else a conversion takes
precedence over every other shape; all other leaves are rendered as they were given. -/
namespace ScopedStyle

namespace Value

/-- Whether settling a value drops its conversion: it is a list of an author's kind, and converts. -/
def losesConversion (value : Value) : Bool :=
  match value.content with
  | .list _ => value.converts
  | _ => false

/-- The declaration of a value that converts: what the conversion answers with, rendered. -/
def conversionDeclared (unit property : String) (value : Value) :
    Except Fault (List Declaration) := do
  let result ← value.converted property
  let text ← result.rendered unit
  .ok [⟨hyphenated property, text⟩]

/-- A leaf that settling leaves with the shape and the declarations it was given with; and if it
converts, then what is declared is its conversion. -/
structure KeptAsGiven (unit property : String) (value : Value) : Prop where
  shape : value.settled.shape property = value.shape property
  declarations : value.settled.declarations unit property = value.declarations unit property
  conversion : value.converts = true →
    value.settled.declarations unit property = value.conversionDeclared unit property

/-! ## Single leaves -/

theorem shape_of_converts {value : Value} (offers : value.converts = true) (property : String) :
    value.shape property = match value.conversion with
      | .attribute _ => .error (.value .notCallable property value)
      | _ => .ok .convertible := by
  simp only [converts] at offers
  cases value with
  | object bare =>
    unfold shape
    cases known : (Value.object bare).conversion <;> simp_all
  | derived traits content =>
    unfold shape
    cases known : (Value.derived traits content).conversion <;> simp_all
  | _ => cases offers

/-- A conversion takes precedence over every other shape, in what it answers as in how it fails. -/
theorem declarations_of_converts {value : Value} (offers : value.converts = true)
    (unit property : String) :
    value.declarations unit property = value.conversionDeclared unit property := by
  have known := shape_of_converts offers property
  cases way : value.conversion with
  | absent =>
    simp only [converts, way] at offers
    cases offers
  | «attribute» stored =>
    rw [way] at known
    simp only [declarations, conversionDeclared, converted, known, way]
    rfl
  | returns result =>
    rw [way] at known
    simp only [declarations, conversionDeclared, declared, scalar, known, bind, Except.bind]
    cases value.converted property with
    | error fault => rfl
    | ok answer =>
      dsimp only
      cases answer.rendered unit <;> rfl
  | raises kind message =>
    rw [way] at known
    simp only [declarations, conversionDeclared, declared, scalar, converted, known, way, bind,
      Except.bind]

private theorem settled_of_not_list {value : Value}
    (single : ∀ items, value.content ≠ .list items) : value.settled = value := by
  unfold settled
  split
  · next items held => exact absurd held (single items)
  · rfl

private theorem shape_of_list {value : Value} {items : List Value}
    (held : value.content = .list items) (plain : value.converts = false) (property : String) :
    value.shape property = .ok .array := by
  have array : value.plainShape? = some .array := by simp only [plainShape?, held]
  exact shape_eq_ok.mpr (.inl ⟨converts_eq_false.mp plain, array⟩)

theorem shape_settled {value : Value} (keeps : value.losesConversion = false) (property : String) :
    value.settled.shape property = value.shape property := by
  cases held : value.content with
  | list items =>
    have plain : value.converts = false := by simpa only [losesConversion, held] using keeps
    have array : value.settled = .tuple items := by simp only [settled, held]
    rw [shape_of_list held plain, array]
    rfl
  | _ => rw [settled_of_not_list (by simp [held])]

theorem declarations_settled {value : Value} (keeps : value.losesConversion = false)
    (unit property : String) :
    value.settled.declarations unit property = value.declarations unit property := by
  cases held : value.content with
  | list items =>
    have plain : value.converts = false := by simpa only [losesConversion, held] using keeps
    have array : value.settled = .tuple items := by simp only [settled, held]
    have same : value.settled.items = value.items := by
      rw [array]
      simp only [Value.items, held]
      rfl
    unfold declarations
    rw [shape_settled keeps, same, shape_of_list held plain]
    rfl
  | _ => rw [settled_of_not_list (by simp [held])]

/-- A list that converts has the shape of its conversion, and once it is settled that of an array. -/
theorem shape_ne_of_losesConversion {value : Value} (loses : value.losesConversion = true)
    (property : String) : value.settled.shape property ≠ value.shape property := by
  cases held : value.content with
  | list items =>
    have offers : value.converts = true := by simpa only [losesConversion, held] using loses
    have array : value.settled = .tuple items := by simp only [settled, held]
    have settledShape : value.settled.shape property = .ok .array := by
      rw [array]
      rfl
    rw [settledShape, shape_of_converts offers]
    split <;> simp
  | _ => simp [losesConversion, held] at loses

/-- A leaf is kept as it was given exactly if settling it does not drop its conversion. -/
theorem keptAsGiven_iff {unit property : String} {value : Value} :
    value.KeptAsGiven unit property ↔ value.losesConversion = false := by
  constructor
  · intro kept
    by_contra loses
    exact shape_ne_of_losesConversion (Bool.not_eq_false _ ▸ loses) property kept.shape
  · intro keeps
    have same := declarations_settled keeps unit property
    exact ⟨shape_settled keeps property, same,
      fun converts => same.trans (declarations_of_converts converts unit property)⟩

end Value

/-! ## Specs -/

namespace Spec

theorem declarations_settled {unit : String} {spec : Spec Key}
    (keeps : ∀ held ∈ spec.leaves, held.2.losesConversion = false) :
    spec.settled.declarations unit = spec.declarations unit := by
  induction spec with
  | nil => rfl
  | leaf key value rest ih =>
    obtain ⟨here, others⟩ := List.forall_mem_cons.mp keeps
    rw [settled, declarations_leaf, declarations_leaf, Value.declarations_settled here, ih others]
  | scope key traits inner rest _ ih => exact ih keeps

end Spec

namespace Conventions

variable {conventions : Conventions} {source : NameSource} {given baseName : Value} {name : String}
  {spec : Spec Key}

private theorem passes_settled (read : given.spec? = some (spec.mapKeys Key.toValue)) :
    given.snapshot [] = .ok spec.settled := by
  rw [Value.snapshot_of_spec? read, Spec.snapshot_mapKeys]

/-- Where settling changes no declarations, a spec compiles if its leaves as given have some. -/
private theorem compiles_as_given (read : given.spec? = some (spec.mapKeys Key.toValue))
    (named : checkedBaseName baseName = .ok name)
    (avoid : ∀ key ∈ spec.variantNames,
      occursIn conventions.separator.toList key.text.toList = false)
    (unchanged : ∀ scope ∈ spec.scopes,
      scope.2.settled.declarations conventions.unit = scope.2.declarations conventions.unit) :
    (∃ style, (conventions.compile source given baseName).1 = .ok style) ↔
      ∀ scope ∈ spec.scopes, ∀ held ∈ scope.2.leaves,
        ∃ declared, held.2.declarations conventions.unit held.1.text = .ok declared := by
  rw [compile_isOk named (passes_settled read), Spec.variantNames_settled, Spec.scopes_settled]
  simp only [List.forall_mem_map, ← Spec.declarations_isOk]
  constructor
  · rintro ⟨_, declared⟩ scope member
    rw [← unchanged scope member]
    exact declared scope member
  · intro declared
    refine ⟨avoid, fun scope member => ?_⟩
    rw [unchanged scope member]
    exact declared scope member

private theorem declares_as_given (read : given.spec? = some (spec.mapKeys Key.toValue))
    (unchanged : ∀ scope ∈ spec.scopes,
      scope.2.settled.declarations conventions.unit = scope.2.declarations conventions.unit)
    {style : Style} (compiled : (conventions.compile source given baseName).1 = .ok style) :
    List.Forall₂ (fun scope node => node.path = scope.1 ∧
        ∃ declared, scope.2.declarations conventions.unit = .ok declared ∧
          node.rule.declarations = enclosed scope.1 declared)
      spec.scopes style.root.preorder := by
  obtain ⟨checked, outline⟩ := outline_of_compiled compiled
  have settled : style.spec = spec.settled :=
    Except.ok.inj (checked.symm.trans (passes_settled read))
  rw [settled, Spec.scopes_settled, List.forall₂_map_left_iff] at outline
  have both := (List.forall₂_and_left _ _).mpr ⟨unchanged, outline⟩
  refine both.imp ?_
  rintro scope node ⟨same, outlines⟩
  refine ⟨outlines.path, ?_⟩
  rw [← same]
  exact outlines.declarations

/-- **Leaves are rendered as they were given, but for lists that convert.** Take a spec with texts for
keys in which no name of a variant holds the separator. No leaf of it is a list of an author's kind
with a conversion if and only if every leaf keeps its shape and its declarations, with a conversion
taking precedence; the spec compiles if and only if every leaf as given has declarations; and each
rule of a compiled style declares what the leaves given in its scope do. -/
theorem renders_given_leaves_iff (conventions : Conventions) (source : NameSource)
    {given baseName : Value} {name : String} {spec : Spec Key}
    (read : given.spec? = some (spec.mapKeys Key.toValue))
    (named : checkedBaseName baseName = .ok name)
    (avoid : ∀ key ∈ spec.variantNames,
      occursIn conventions.separator.toList key.text.toList = false) :
    (∀ scope ∈ spec.scopes, ∀ held ∈ scope.2.leaves, held.2.losesConversion = false) ↔
      (∀ scope ∈ spec.scopes, ∀ held ∈ scope.2.leaves,
        held.2.KeptAsGiven conventions.unit held.1.text) ∧
      ((∃ style, (conventions.compile source given baseName).1 = .ok style) ↔
        ∀ scope ∈ spec.scopes, ∀ held ∈ scope.2.leaves,
          ∃ declared, held.2.declarations conventions.unit held.1.text = .ok declared) ∧
      ∀ style, (conventions.compile source given baseName).1 = .ok style →
        List.Forall₂ (fun scope node => node.path = scope.1 ∧
            ∃ declared, scope.2.declarations conventions.unit = .ok declared ∧
              node.rule.declarations = enclosed scope.1 declared)
          spec.scopes style.root.preorder := by
  constructor
  · intro keeps
    have unchanged : ∀ scope ∈ spec.scopes,
        scope.2.settled.declarations conventions.unit = scope.2.declarations conventions.unit :=
      fun scope member => Spec.declarations_settled (keeps scope member)
    refine ⟨fun scope member held leaf => ?_, compiles_as_given read named avoid unchanged,
      fun style compiled => declares_as_given read unchanged compiled⟩
    exact Value.keptAsGiven_iff.mpr (keeps scope member held leaf)
  · intro ⟨kept, _⟩ scope member held leaf
    exact Value.keptAsGiven_iff.mp (kept scope member held leaf)

/-- A leaf that converts, built on an array, beside a scope with a plain array. -/
private def pairSpec (array : List Value → Value) : Spec Key :=
  .leaf (.ofText "color") (.derived ⟨0, "Pair", .returns (.text "blue")⟩ (array [.text "red"]))
    (.scope (.ofText "on") none (.leaf (.ofText "margin") (.list [.int 1, .int 2]) .nil) .nil)

/-- A tuple that converts is rendered as its conversion; a list that converts is not. -/
theorem renders_given_leaves_iff_of_pair :
    (∃ style,
      (Conventions.compile {} .fresh ((pairSpec .tuple).toValue) (.text "box")).1 = .ok style ∧
      List.Forall₂ (fun scope node => node.path = scope.1 ∧
          ∃ declared, scope.2.declarations "px" = .ok declared ∧
            node.rule.declarations = enclosed scope.1 declared)
        (pairSpec .tuple).scopes style.root.preorder) ∧
      ¬ ∀ scope ∈ (pairSpec .list).scopes, ∀ held ∈ scope.2.leaves,
        held.2.KeptAsGiven "px" held.1.text := by
  have runs : (Conventions.compile {} .fresh ((pairSpec .tuple).toValue) (.text "box")).1.isOk =
      true := by decide +kernel
  constructor
  · have read : (pairSpec .tuple).toValue.spec? = some ((pairSpec .tuple).mapKeys Key.toValue) := rfl
    have named : checkedBaseName (.text "box") = .ok "box" := rfl
    obtain ⟨_, _, declares⟩ :=
      (renders_given_leaves_iff {} .fresh read named (by decide)).mp (by decide)
    obtain ⟨style, made⟩ := exists_of_isOk runs
    exact ⟨style, made, declares style made⟩
  · intro kept
    have keeps : ∀ scope ∈ (pairSpec .list).scopes, ∀ held ∈ scope.2.leaves,
        held.2.losesConversion = false :=
      fun scope member held leaf => Value.keptAsGiven_iff.mp (kept scope member held leaf)
    exact absurd keeps (by decide)

end Conventions

end ScopedStyle
