import ScopedStyle.Value

/-! Keys of checked specs: texts, and objects of an author's kind that are built on a text. Such an
object is kept for whoever reads the spec back, but only its text has a part in what is compiled. -/
namespace ScopedStyle

/-- A key of a checked spec. -/
structure Key where
  text : String
  /-- What an author's kind adds to the text, where the key is an object of one. -/
  traits : Option (Traits Value)

namespace Key

/-- The key that is a text and no more. -/
def ofText (text : String) : Key := ⟨text, none⟩

/-- The key as a value. -/
def toValue (key : Key) : Value :=
  match key.traits with
  | some traits => .derived traits (.text key.text)
  | none => .text key.text

end Key

/-- The key that a value is, if it is a text. -/
def Value.key? : Value → Option Key
  | .text characters => some (.ofText characters)
  | .derived traits (.text characters) => some ⟨characters, some traits⟩
  | _ => none

/-- A key is read back from its value as it was. -/
@[simp] theorem Key.key?_toValue (key : Key) : key.toValue.key? = some key := by
  obtain ⟨text, traits⟩ := key
  cases traits <;> rfl

/-- The value of a key is the one that it was read from. -/
theorem Key.toValue_of_key? {value : Value} {key : Key} (read : value.key? = some key) :
    key.toValue = value := by
  unfold Value.key? at read
  split at read <;> cases read <;> rfl

/-- The values that are keys are those that are texts, and a key has the text of its value. -/
theorem Value.map_text_key? (value : Value) : value.key?.map (·.text) = value.text? := by
  unfold Value.key?
  split
  · rfl
  · rfl
  · next plain derived =>
    simp only [Option.map_none]
    cases value with
    | derived traits content =>
      cases content with
      | text characters => exact (derived traits characters rfl).elim
      | _ => rfl
    | text characters => exact (plain characters rfl).elim
    | _ => rfl

end ScopedStyle
