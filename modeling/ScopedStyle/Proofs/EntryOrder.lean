import ScopedStyle.Proofs.Snapshots

/-! The entries of a spec in the order in which they are met: an entry comes before what is in it, and
that before the entries after it. Checking a spec goes by this order, and so does merging a patch: each
stops at the first entry that it cannot accept. -/
namespace ScopedStyle

/-- An entry of a spec in its place: the path of the scope that holds it, its key, and its value if it
is a leaf. -/
structure PlacedEntry (κ : Type) where
  path : List κ
  key : κ
  value? : Option Value

/-- The path of an entry, with its own key at the end. -/
def PlacedEntry.place {κ : Type} (entry : PlacedEntry κ) : List κ :=
  entry.path ++ [entry.key]

namespace Spec

variable {κ : Type}

/-- The entries of a spec, and of every scope in it, where the spec itself has the path given. -/
def placedEntries (path : List κ) : Spec κ → List (PlacedEntry κ)
  | .nil => []
  | .leaf key value rest => ⟨path, key, some value⟩ :: rest.placedEntries path
  | .scope key _ inner rest =>
    ⟨path, key, none⟩ :: (inner.placedEntries (path ++ [key]) ++ rest.placedEntries path)

/-! ## Keys -/

private theorem checkedKey_of_text {given : Value} {text : String}
    (isText : given.text? = some text) (path : List Key) :
    ∃ key, checkedKey path given = .ok key ∧ key.toValue = given := by
  obtain ⟨key, rfl, _⟩ := Value.exists_key_of_text? isText
  exact ⟨key, by simp [checkedKey], rfl⟩

private theorem checkedKey_of_not_text {given : Value} (noText : given.text? = none)
    (path : List Key) : checkedKey path given = .error (.spec (.badKey given) path) := by
  have noKey : given.key? = none := by
    rw [← Value.map_text_key?, Option.map_eq_none_iff] at noText
    exact noText
  simp only [checkedKey, noKey]

/-- A spec passes the check if all its entries have texts for keys, and otherwise it is refused for the
first key that is no text, with the path of the scope that holds it. -/
theorem snapshot_by_first_key (spec : Spec Value) (path : List Key) :
    ((∃ checked, spec.snapshot path = .ok checked) ∧
        (spec.placedEntries (path.map Key.toValue)).find? (·.key.text?.isNone) = none) ∨
      ∃ entry place,
        (spec.placedEntries (path.map Key.toValue)).find? (·.key.text?.isNone) = some entry ∧
          place.map Key.toValue = entry.path ∧
            spec.snapshot path = .error (.spec (.badKey entry.key) place) := by
  induction spec generalizing path with
  | nil => exact .inl ⟨⟨.nil, rfl⟩, rfl⟩
  | leaf given value rest ih =>
    simp only [placedEntries, List.find?_cons]
    cases isText : given.text? with
    | none =>
      refine .inr ⟨_, path, rfl, rfl, ?_⟩
      rw [snapshot, checkedKey_of_not_text isText]
      rfl
    | some text =>
      obtain ⟨key, read, rfl⟩ := checkedKey_of_text isText path
      have further : (Spec.leaf key.toValue value rest).snapshot path =
          (rest.snapshot path).map (.leaf key value.settled) := by
        simp only [snapshot, read]
        rfl
      rw [further]
      obtain ⟨⟨others, passed⟩, accepted⟩ | ⟨entry, place, first, placed, refused⟩ := ih path
      · exact .inl ⟨⟨_, by rw [passed]; rfl⟩, accepted⟩
      · exact .inr ⟨entry, place, first, placed, by rw [refused]; rfl⟩
  | scope given traits inner rest ihInner ih =>
    simp only [placedEntries, List.find?_cons, List.find?_append]
    cases isText : given.text? with
    | none =>
      refine .inr ⟨_, path, rfl, rfl, ?_⟩
      rw [snapshot, checkedKey_of_not_text isText]
      rfl
    | some text =>
      obtain ⟨key, read, rfl⟩ := checkedKey_of_text isText path
      have further : (Spec.scope key.toValue traits inner rest).snapshot path =
          (inner.snapshot (path ++ [key])).bind fun inside =>
            (rest.snapshot path).map (.scope key none inside) := by
        simp only [snapshot, read]
        rfl
      have deeper : path.map Key.toValue ++ [key.toValue] = (path ++ [key]).map Key.toValue := by
        rw [List.map_append, List.map_singleton]
      rw [further, deeper]
      obtain ⟨⟨inside, passed⟩, accepted⟩ | ⟨entry, place, first, placed, refused⟩ :=
        ihInner (path ++ [key])
      · rw [passed, accepted]
        obtain ⟨⟨others, passed⟩, accepted⟩ | ⟨entry, place, first, placed, refused⟩ := ih path
        · exact .inl ⟨⟨_, by rw [passed]; rfl⟩, accepted⟩
        · exact .inr ⟨entry, place, first, placed, by rw [refused]; rfl⟩
      · rw [refused, first]
        exact .inr ⟨entry, place, rfl, placed, rfl⟩

end Spec

end ScopedStyle
