import ScopedStyle.LeafShape

/-! Declarations of properties, and how a leaf of a spec becomes some: its name is hyphenated, and
each scalar in it is rendered with the unit that numbers take. -/
namespace ScopedStyle

/-- A property with its value. -/
structure Declaration where
  property : String
  value : String
deriving DecidableEq

/-- A declaration in a style sheet. -/
def Declaration.css (declaration : Declaration) : String :=
  declaration.property ++ ":" ++ declaration.value

/-- A letter of a property's name: a capital begins a new word. -/
def hyphenatedCharacter (c : Char) : List Char :=
  if c.isUpper then ['-', c.toLower] else [c]

/-- The style sheet's name of a property: each capital from A to Z as a hyphen and the small
letter. -/
def hyphenated (name : String) : String :=
  String.ofList (name.toList.flatMap hyphenatedCharacter)

namespace Value

/-- The rendering of a scalar: a text as it is, a number in full followed by the unit. A number that
is an integer is written as one, however it is held. -/
def rendered (unit : String) (value : Value) : Except Fault String :=
  match value.content with
  | .text characters => .ok characters
  | .int number => .ok (number.repr ++ unit)
  | .float number =>
    if !number.isFinite then .error (.value .notFinite "" value)
    else
      match number.integer? with
      | some whole => .ok (whole.repr ++ unit)
      | none => .ok (number.decimalText ++ unit)
  | .bool truth => .ok (spelledTruth truth ++ unit)
  | other => .ok (other.literal ++ unit)

/-- What the conversion of a value answers with, which has to be a scalar. It is not converted
again, even if it could be. -/
def converted (property : String) (value : Value) : Except Fault Value :=
  match value.conversion with
  | .returns result =>
    if result.isScalar then .ok result
    else .error (.value (.badConversion result.kindName) property value)
  | .raises kind message => .error (.raised kind message)
  | .absent | .attribute _ => .error (.value .notCallable property value)

theorem converted_eq_ok {property : String} {value result : Value} :
    value.converted property = .ok result ↔
      result.isScalar = true ∧ value.conversion = .returns result := by
  unfold converted
  split
  · next answer way =>
    simp only [way, Conversion.returns.injEq]
    constructor
    · intro ran
      split at ran
      · next proper =>
        cases ran
        exact ⟨proper, rfl⟩
      · cases ran
    · rintro ⟨proper, rfl⟩
      rw [if_pos proper]
  · next way => simp [way]
  · next way => simp [way]
  · next way => simp [way]

/-- The scalar that a single value stands for. -/
def scalar (property : String) (value : Value) : Except Fault Value := do
  match ← value.shape property with
  | .scalar => .ok value
  | .convertible => value.converted property
  | shape => .error (.value (.nestedInside shape.name) property value)

/-- What a single value stands for is itself if it is a scalar, and the answer of its conversion if it
has one. -/
theorem scalar_eq_ok {property : String} {value result : Value} :
    value.scalar property = .ok result ↔ result.isScalar = true ∧
      ((value.conversion = .absent ∧ value = result) ∨ value.conversion = .returns result) := by
  unfold scalar
  rw [bind_eq_ok]
  constructor
  · rintro ⟨shape, known, ran⟩
    cases shape with
    | scalar =>
      cases ran
      obtain ⟨way, plain⟩ | ⟨other, _⟩ := shape_eq_ok.mp known
      · exact ⟨by simp [isScalar, plain], .inl ⟨way, rfl⟩⟩
      · cases other
    | convertible =>
      obtain ⟨proper, way⟩ := converted_eq_ok.mp ran
      exact ⟨proper, .inr way⟩
    | array | nested => cases ran
  · rintro ⟨proper, ⟨way, rfl⟩ | way⟩
    · have plain : value.plainShape? = some .scalar := by simpa [isScalar] using proper
      exact ⟨.scalar, shape_eq_ok.mpr (.inl ⟨way, plain⟩), rfl⟩
    · exact ⟨.convertible, shape_eq_ok.mpr (.inr ⟨rfl, .inl ⟨result, way⟩⟩),
        converted_eq_ok.mpr ⟨proper, way⟩⟩

/-- The declaration of a single value. -/
def declared (unit property : String) (value : Value) : Except Fault Declaration := do
  let scalar ← value.scalar property
  let text ← scalar.rendered unit
  .ok ⟨hyphenated property, text⟩

/-- The declarations of a leaf, one for each item of an array and a single one otherwise. An empty
array gives one with an empty value. -/
def declarations (unit property : String) (value : Value) : Except Fault (List Declaration) := do
  match ← value.shape property with
  | .nested => .error (.value .variant property value)
  | .array =>
    match value.items with
    | [] => .ok [⟨hyphenated property, ""⟩]
    | items => items.mapM (declared unit property)
  | .scalar | .convertible => return [← value.declared unit property]

end Value

end ScopedStyle
