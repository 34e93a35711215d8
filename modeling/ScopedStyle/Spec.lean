import ScopedStyle.Key
import ScopedStyle.LeafShape

/-! Style specs as trees. A spec is a sequence of entries, each under a key; an entry is a leaf,
which holds a value, or a scope, which is a spec of its own. In a spec as it is given values of any
kind can be keys. -/
namespace ScopedStyle

/-- A spec: its first entry, if it has one, and the entries after it. -/
inductive Spec (κ : Type) where
  | nil
  | leaf (key : κ) (value : Value) (rest : Spec κ)
  /-- A scope may be held by an object of an author's kind. -/
  | scope (key : κ) (traits : Option (Traits Value)) (inner : Spec κ) (rest : Spec κ)

/-- What stands under a key. -/
inductive Entry (κ : Type) where
  | leaf (value : Value)
  | scope (inner : Spec κ)

namespace Spec

variable {κ μ : Type}

mutual

/-- The spec that the entries of a mapping make up. -/
def ofEntries : List (Value × Value) → Spec Value
  | [] => .nil
  | (key, value) :: rest => ofEntry key value (ofEntries rest)

/-- An entry before the rest of a spec: a scope if the value is nested, and otherwise a leaf. -/
def ofEntry (key : Value) : Value → Spec Value → Spec Value
  | .map entries, rest => .scope key none (ofEntries entries) rest
  | .derived traits (.map entries), rest =>
    if (Value.derived traits (.map entries)).converts then
      .leaf key (.derived traits (.map entries)) rest
    else .scope key (some traits) (ofEntries entries) rest
  | value, rest => .leaf key value rest

end

/-- A mapping held by an object of an author's kind, if there is one. -/
def held (traits : Option (Traits Value)) (entries : List (Value × Value)) : Value :=
  match traits with
  | some traits => .derived traits (.map entries)
  | none => .map entries

/-- The entries of a mapping that make up a spec. -/
def toEntries (name : κ → Value) : Spec κ → List (Value × Value)
  | .nil => []
  | .leaf key value rest => (name key, value) :: rest.toEntries name
  | .scope key traits inner rest =>
    (name key, held traits (inner.toEntries name)) :: rest.toEntries name

/-- The spec with other keys. -/
def mapKeys (name : κ → μ) : Spec κ → Spec μ
  | .nil => .nil
  | .leaf key value rest => .leaf (name key) value (rest.mapKeys name)
  | .scope key traits inner rest =>
    .scope (name key) traits (inner.mapKeys name) (rest.mapKeys name)

/-- The entries of one spec and after them those of another. -/
def append : Spec κ → Spec κ → Spec κ
  | .nil, last => last
  | .leaf key value rest, last => .leaf key value (rest.append last)
  | .scope key traits inner rest, last => .scope key traits inner (rest.append last)

@[simp] theorem append_nil (spec : Spec κ) : spec.append .nil = spec := by
  induction spec with
  | nil => rfl
  | leaf key value rest ih => simp [append, ih]
  | scope key traits inner rest _ ih => simp [append, ih]

theorem append_assoc (first second third : Spec κ) :
    (first.append second).append third = first.append (second.append third) := by
  induction first with
  | nil => rfl
  | leaf key value rest ih => simp [append, ih]
  | scope key traits inner rest _ ih => simp [append, ih]

/-- What stands under a key. -/
def find? [BEq κ] (key : κ) : Spec κ → Option (Entry κ)
  | .nil => none
  | .leaf first value rest => if first == key then some (.leaf value) else rest.find? key
  | .scope first _ inner rest => if first == key then some (.scope inner) else rest.find? key

/-- What stands under a key of two specs is what the first has there, and otherwise the second. -/
theorem find?_append [BEq κ] (spec last : Spec κ) (key : κ) :
    (spec.append last).find? key = (spec.find? key).or (last.find? key) := by
  induction spec with
  | nil => simp [append, find?]
  | leaf first value rest ih => by_cases met : first == key <;> simp [append, find?, met, ih]
  | scope first traits inner rest _ ih =>
    by_cases met : first == key <;> simp [append, find?, met, ih]

end Spec

/-- The spec that a value is, if it is a mapping. -/
def Value.spec? (value : Value) : Option (Spec Value) :=
  value.entries?.map .ofEntries

/-- A checked spec as a mapping. -/
def Spec.toValue (spec : Spec Key) : Value :=
  .map (spec.toEntries Key.toValue)

end ScopedStyle
