import ScopedStyle.Fault

/-! The shapes a value can have as the leaf of a spec. A value that converts is convertible whatever
else it is; apart from those a mapping is a scope of its own, and an array holds several scalars. -/
namespace ScopedStyle

/-- The shape of a value. -/
inductive Shape where
  | scalar
  | convertible
  | array
  | nested
deriving DecidableEq

/-- The name of a shape. -/
def Shape.name : Shape → String
  | .scalar => "scalar"
  | .convertible => "convertible"
  | .array => "array"
  | .nested => "nested"

namespace Value

/-- The shape of a value that does not convert. -/
def plainShape? (value : Value) : Option Shape :=
  match value.content with
  | .text _ | .int _ | .float _ => some .scalar
  | .map _ => some .nested
  | .list _ | .tuple _ => some .array
  | _ => none

/-- The shape of a value given for a property. Truth values and kinds are refused first, then what
only seems to convert, and last what has no shape. -/
def shape (property : String) (value : Value) : Except Fault Shape :=
  match value with
  | .bool _ => .error (.value .boolean property value)
  | .type name _ => .error (.value (.bareType name) property value)
  | _ =>
    match value.conversion with
    | .attribute _ => .error (.value .notCallable property value)
    | .returns _ | .raises _ _ => .ok .convertible
    | .absent =>
      match value.plainShape? with
      | some shape => .ok shape
      | none => .error (.value .unsupported property value)

/-- The shape of a value is that of its conversion, if it has one that can be called, and otherwise
its own. -/
theorem shape_eq_ok {value : Value} {property : String} {shape : Shape} :
    value.shape property = .ok shape ↔
      (value.conversion = .absent ∧ value.plainShape? = some shape) ∨
      (shape = .convertible ∧ ((∃ result, value.conversion = .returns result) ∨
        ∃ kind message, value.conversion = .raises kind message)) := by
  unfold Value.shape
  split
  · simp [plainShape?, conversion, content, traits?]
  · simp [plainShape?, conversion, content, traits?]
  · cases way : value.conversion with
    | absent => cases known : value.plainShape? <;> simp
    | returns result => simp [eq_comm]
    | raises kind message => simp [eq_comm]
    | «attribute» stored => simp

/-- Whether a value is a scope of its own: a mapping that does not convert. -/
def isScope (value : Value) : Bool :=
  value.entries?.isSome && !value.converts

/-- Whether a value is a text or a number. -/
def isScalar (value : Value) : Bool :=
  value.plainShape? == some .scalar

/-- The items of an array. -/
def items (value : Value) : List Value :=
  match value.content with
  | .list items | .tuple items => items
  | _ => []

end Value

end ScopedStyle
