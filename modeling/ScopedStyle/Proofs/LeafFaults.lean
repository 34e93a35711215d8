import ScopedStyle.Declaration

/-! What a leaf is refused for. The fault is about the leaf, an item of it, or what one of these
converts to, unless a conversion fails with an error of its own; and only a scope is refused as one. -/
namespace ScopedStyle

/-- A leaf, an item of it, or what one of these converts to. -/
def Value.HasPart (value part : Value) : Prop :=
  ∃ single ∈ value :: value.items, part = single ∨ single.conversion = .returns part

/-- Whether the conversion of a value fails with an error of its own. -/
def Value.raises (value : Value) : Bool :=
  match value.conversion with
  | .raises _ _ => true
  | _ => false

/-- A fault that refuses one of some values, but none as a scope of its own. -/
def Fault.RefusesPart (IsPart : Value → Prop) (fault : Fault) : Prop :=
  ∃ reason property part, fault = .value reason property part ∧ reason ≠ .variant ∧ IsPart part

/-- A fault of a conversion of one of some values. -/
def Fault.RaisedBy (singles : List Value) (fault : Fault) : Prop :=
  ∃ single ∈ singles, ∃ kind message,
    single.conversion = .raises kind message ∧ fault = .raised kind message

namespace Value

variable {unit property : String} {value : Value} {fault : Fault}

/-- A value whose shape is refused is refused itself, and not as a scope. -/
theorem fault_of_shape (failed : value.shape property = .error fault) :
    ∃ reason, fault = .value reason property value ∧ reason ≠ .variant := by
  unfold shape at failed
  split at failed
  · cases failed
    exact ⟨_, rfl, nofun⟩
  · cases failed
    exact ⟨_, rfl, nofun⟩
  · split at failed
    · cases failed
      exact ⟨_, rfl, nofun⟩
    · cases failed
    · cases failed
    · split at failed
      · cases failed
      · cases failed
        exact ⟨_, rfl, nofun⟩

/-- What has the shape of a scope is one. -/
theorem isScope_of_shape (nested : value.shape property = .ok .nested) : value.isScope = true := by
  obtain ⟨way, known⟩ | ⟨other, _⟩ := shape_eq_ok.mp nested
  · have plain : value.converts = false := converts_eq_false.mpr way
    cases held : value.content <;> simp_all [plainShape?, isScope, entries?]
  · cases other

theorem fault_of_converted (failed : value.converted property = .error fault) :
    (∃ reason, fault = .value reason property value ∧ reason ≠ .variant) ∨
      fault.RaisedBy [value] := by
  unfold converted at failed
  split at failed
  · split at failed
    · cases failed
    · cases failed
      exact .inl ⟨_, rfl, nofun⟩
  · next kind message raised =>
    cases failed
    exact .inr ⟨value, List.mem_singleton_self value, kind, message, raised, rfl⟩
  · cases failed
    exact .inl ⟨_, rfl, nofun⟩
  · cases failed
    exact .inl ⟨_, rfl, nofun⟩

/-- Only a number that is not finite has no rendering. -/
theorem fault_of_rendered (failed : value.rendered unit = .error fault) :
    fault = .value .notFinite "" value := by
  unfold rendered at failed
  split at failed
  · cases failed
  · cases failed
  · split at failed
    · cases failed
      rfl
    · split at failed <;> cases failed
  · cases failed
  · cases failed

theorem fault_of_scalar (failed : value.scalar property = .error fault) :
    (∃ reason, fault = .value reason property value ∧ reason ≠ .variant) ∨
      fault.RaisedBy [value] := by
  obtain refused | ⟨shape, _, failed⟩ := bind_eq_error.mp failed
  · exact .inl (fault_of_shape refused)
  · cases shape with
    | scalar => cases failed
    | convertible => exact fault_of_converted failed
    | array | nested =>
      cases failed
      exact .inl ⟨_, rfl, nofun⟩

/-- A single value is refused itself or for its conversion. -/
theorem fault_of_declared (failed : value.declared unit property = .error fault) :
    fault.RefusesPart (fun part => part = value ∨ value.conversion = .returns part) ∨
      fault.RaisedBy [value] := by
  obtain refused | ⟨result, ran, failed⟩ := bind_eq_error.mp failed
  · obtain ⟨reason, rfl, proper⟩ | raised := fault_of_scalar refused
    · exact .inl ⟨reason, property, value, rfl, proper, .inl rfl⟩
    · exact .inr raised
  · obtain refused | ⟨text, _, failed⟩ := bind_eq_error.mp failed
    · obtain ⟨_, own⟩ := scalar_eq_ok.mp ran
      exact .inl ⟨_, _, result, fault_of_rendered refused, nofun, own.imp_left fun plain => plain.2.symm⟩
    · cases failed

private theorem fault_of_single {single : Value} (among : single ∈ value :: value.items)
    (failed : single.declared unit property = .error fault) :
    fault.RefusesPart value.HasPart ∨ fault.RaisedBy (value :: value.items) := by
  obtain ⟨reason, name, part, rfl, proper, same⟩ | ⟨_, member, raised⟩ :=
    fault_of_declared failed
  · exact .inl ⟨reason, name, part, rfl, proper, single, among, same⟩
  · cases List.mem_singleton.mp member
    exact .inr ⟨single, among, raised⟩

/-- A leaf is refused as a scope, for a part of it, or because a conversion fails. -/
theorem fault_of_declarations (failed : value.declarations unit property = .error fault) :
    (value.isScope = true ∧ fault = .value .variant property value) ∨
      fault.RefusesPart value.HasPart ∨ fault.RaisedBy (value :: value.items) := by
  obtain refused | ⟨shape, known, failed⟩ := bind_eq_error.mp failed
  · obtain ⟨reason, rfl, proper⟩ := fault_of_shape refused
    exact .inr (.inl ⟨reason, property, value, rfl, proper, value, List.mem_cons_self, .inl rfl⟩)
  · cases shape with
    | nested =>
      cases failed
      exact .inl ⟨isScope_of_shape known, rfl⟩
    | array =>
      dsimp only at failed
      split at failed
      · cases failed
      · obtain ⟨before, item, after, split, _, refused⟩ := mapM_eq_error.mp failed
        have member : item ∈ value.items := split ▸ List.mem_append_cons_self
        exact .inr (fault_of_single (List.mem_cons_of_mem _ member) refused)
    | scalar | convertible =>
      obtain refused | ⟨_, _, failed⟩ := bind_eq_error.mp failed
      · exact .inr (fault_of_single List.mem_cons_self refused)
      · cases failed

end Value

end ScopedStyle
