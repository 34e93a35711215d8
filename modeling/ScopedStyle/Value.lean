import ScopedStyle.Binary64

/-! The values a style spec is written in: texts, numbers, arrays and mappings, and objects of the
author's own kinds, which may know how to convert themselves to a scalar. Kinds that the compiler
can make nothing of are values too, since it has to name them when it refuses them.

Two things about writing values out are set aside. An integer is written with all its digits, however
many these are, while an interpreter may refuse to write out thousands of them. And an object that is
built on a text or a number is written as that is, while its kind may have a way of its own. -/
namespace ScopedStyle

/-- What asking an object to convert itself leads to. -/
inductive Conversion (α : Type) where
  /-- The object offers no conversion. -/
  | absent
  /-- The conversion answers with a value. -/
  | returns (result : α)
  /-- The conversion fails with an error of its own kind. -/
  | raises (kind message : String)
  /-- What stands in the place of a conversion cannot be called. -/
  | attribute (value : α)

/-- What an object of an author's kind has beside its content: an identity of its own, the name of
its kind, and its conversion. -/
structure Traits (α : Type) where
  mark : Nat
  kind : String
  conversion : Conversion α

/-- An object of an author's kind without content. Whether it counts as true is up to its kind. -/
structure Bare (α : Type) extends Traits α where
  isTrue : Bool

instance (α : Type) : Coe (Traits α) (Bare α) where
  coe traits := ⟨traits, true⟩

/-- An object that the compiler can make nothing of: its kind, a mark that it shares with the objects
of the kind that are the same as it, and whether it counts as true. -/
structure ForeignObject where
  kind : String
  mark : Nat
  isTrue : Bool

/-- The name of a kind stands for one object of the kind. -/
instance : Coe String ForeignObject where
  coe kind := ⟨kind, 0, true⟩

/-- An object goes by the name of its kind. -/
instance : Coe ForeignObject String where
  coe object := object.kind

/-- A value of a style spec. -/
inductive Value where
  | text (characters : String)
  | int (number : Int)
  | float (number : Binary64)
  | bool (truth : Bool)
  | null
  | list (items : List Value)
  | tuple (items : List Value)
  /-- A mapping in the order of its entries. That no two of its keys are the same is known of what
  can be given, `GivenValue`. -/
  | map (entries : List (Value × Value))
  /-- A kind of objects itself, not an object of the kind. -/
  | type (name : String) (converts : Bool)
  /-- An object of a kind that is neither scalar, array nor mapping and does not convert. -/
  | foreign (thing : ForeignObject)
  /-- An object of an author's kind without content. -/
  | object (bare : Bare Value)
  /-- An object of an author's kind built on a text, a number, an array or a mapping. -/
  | derived (traits : Traits Value) (content : Value)

namespace Value

/-- The value without what an author's kind adds to it. -/
def content : Value → Value
  | .derived _ content => content
  | value => value

/-- What an author's kind adds to a value. -/
def traits? : Value → Option (Traits Value)
  | .object bare => some bare.toTraits
  | .derived traits _ => some traits
  | _ => none

/-- The name of a value's kind, as messages give it. -/
def kindName : Value → String
  | .text _ => "str"
  | .int _ => "int"
  | .float _ => "float"
  | .bool _ => "bool"
  | .null => "NoneType"
  | .list _ => "list"
  | .tuple _ => "tuple"
  | .map _ => "dict"
  | .type _ _ => "type"
  | .foreign thing => thing.kind
  | .object bare => bare.kind
  | .derived traits _ => traits.kind

/-- The entries of a mapping. -/
def entries? (value : Value) : Option (List (Value × Value)) :=
  match value.content with
  | .map entries => some entries
  | _ => none

/-- The characters of a text. -/
def text? (value : Value) : Option String :=
  match value.content with
  | .text characters => some characters
  | _ => none

/-- Whether a value counts as true: zeros, nothing, and whatever is empty do not, and some objects do
not of their own accord. -/
def isTrue (value : Value) : Bool :=
  match value.content with
  | .text characters => characters != ""
  | .int number => number != 0
  | .float number => !number.isZero
  | .bool truth => truth
  | .null => false
  | .list items | .tuple items => !items.isEmpty
  | .map entries => !entries.isEmpty
  | .foreign thing => thing.isTrue
  | .object bare => bare.isTrue
  | .type _ _ | .derived _ _ => true

end Value

/-- The conversion of a value, if it has one. An attribute holding nothing counts as none. -/
def Value.conversion (value : Value) : Conversion Value :=
  match value.traits? with
  | some ⟨_, _, .attribute .null⟩ => .absent
  | some traits => traits.conversion
  | none => .absent

/-- Whether a value has a conversion, be it one that can be called or not. -/
def Value.converts (value : Value) : Bool :=
  match value.conversion with
  | .absent => false
  | _ => true

theorem Value.converts_eq_false {value : Value} :
    value.converts = false ↔ value.conversion = .absent := by
  cases way : value.conversion <;> simp [converts, way]

end ScopedStyle
