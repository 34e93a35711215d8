import ScopedStyle.Spec
import ScopedStyle.ValueEquality

/-! Mappings that have no key twice. The entries of a mapping are a list, which does not exclude that
two of its keys are the same; what is read, assigned or merged never has such keys. Specs and values
of which this is known are structures of their own, so that it need not be shown again. -/
namespace ScopedStyle

/-- Whether no scope of a spec has a key twice, which is so for whatever a mapping holds. -/
def Spec.hasDistinctKeys {κ : Type} [BEq κ] : Spec κ → Bool
  | .nil => true
  | .leaf key _ rest => (rest.find? key).isNone && rest.hasDistinctKeys
  | .scope key _ inner rest =>
    (rest.find? key).isNone && inner.hasDistinctKeys && rest.hasDistinctKeys

/-- Whether the spec that a value is has no key twice in a scope. -/
def Value.hasDistinctKeys (value : Value) : Bool :=
  match value.spec? with
  | some spec => spec.hasDistinctKeys
  | none => true

/-- A spec as mappings hold it. -/
structure Mapping (κ : Type) [BEq κ] where
  spec : Spec κ
  distinct : spec.hasDistinctKeys = true

/-- A value as it can be given: it need not be a mapping, but if it is, then one without double
keys. -/
structure GivenValue where
  value : Value
  distinct : value.hasDistinctKeys = true

instance (κ : Type) [BEq κ] : Coe (Mapping κ) (Spec κ) where
  coe mapping := mapping.spec

instance : Coe GivenValue Value where
  coe given := given.value

end ScopedStyle
