import ScopedStyle.Proofs.EntryOrder
import ScopedStyle.SpecMerge

/-! Where a patch and a base are in conflict. An entry of the patch clashes with a base that has an
entry of the other shape in the same place, and merging fails for the first entry that clashes. The
fault names the place, provided that it can be written. -/
namespace ScopedStyle

/-- An entry seen from a scope above the one it was seen from. -/
def PlacedEntry.below {κ : Type} (above : List κ) (entry : PlacedEntry κ) : PlacedEntry κ :=
  { entry with path := above ++ entry.path }

/-- The conflict that an entry of a patch makes. -/
def PlacedEntry.conflict {κ : Type} (entry : PlacedEntry κ) : Conflict κ :=
  ⟨entry.place, entry.value?.isNone⟩

namespace Spec

variable {κ : Type}

theorem placedEntries_below (spec : Spec κ) (above path : List κ) :
    spec.placedEntries (above ++ path) = (spec.placedEntries path).map (·.below above) := by
  induction spec generalizing path with
  | nil => rfl
  | leaf key value rest ih => simp only [placedEntries, List.map_cons, ih, PlacedEntry.below]
  | scope key traits inner rest ihInner ih =>
    simp only [placedEntries, List.map_cons, List.map_append, List.append_assoc, ihInner, ih,
      PlacedEntry.below]

variable [BEq κ]

/-- What stands at a path that leads from scope to scope. -/
def entryAt? (spec : Spec κ) : List κ → Option (Entry κ)
  | [] => some (.scope spec)
  | key :: further =>
    match spec.find? key with
    | some (.scope inner) => inner.entryAt? further
    | some (.leaf value) => if further.isEmpty then some (.leaf value) else none
    | none => none

/-- Whether a base has an entry of the other shape in the place of an entry of a patch. -/
def clashes (base : Spec κ) (entry : PlacedEntry κ) : Bool :=
  match base.entryAt? entry.place, entry.value? with
  | some (.leaf _), none | some (.scope _), some _ => true
  | _, _ => false

/-- What is below a key clashes in the scope that the base has under the key. -/
private theorem clashes_below {base : Spec κ} {key : κ} (entry : PlacedEntry κ) :
    base.clashes (entry.below [key]) =
      match base.find? key with
      | some (.scope found) => found.clashes entry
      | _ => false := by
  have place : (entry.below [key]).place = key :: entry.place := rfl
  have further : entry.place.isEmpty = false := by simp [PlacedEntry.place]
  unfold clashes
  rw [place, entryAt?]
  cases base.find? key with
  | none => rfl
  | some held =>
    cases held with
    | leaf value => simp only [further, Bool.false_eq_true, ↓reduceIte]
    | scope found => rfl

/-- The first conflict is made by the first entry of the patch, in the order of its entries, that
clashes with the base. -/
theorem firstConflict?_eq (base patch : Spec κ) :
    base.firstConflict? patch =
      ((patch.placedEntries []).find? base.clashes).map (·.conflict) := by
  induction patch generalizing base with
  | nil => rfl
  | leaf key value rest ih =>
    simp only [firstConflict?, placedEntries, List.find?_cons, clashes, PlacedEntry.place,
      List.nil_append, entryAt?, ih]
    cases base.find? key with
    | none => rfl
    | some held => cases held <;> rfl
  | scope key traits inner rest ihInner ih =>
    have deeper := placedEntries_below inner [key] []
    rw [List.append_nil] at deeper
    have inside : (inner.placedEntries [key]).find? base.clashes =
        match base.find? key with
        | some (.scope found) =>
          ((inner.placedEntries []).find? found.clashes).map (·.below [key])
        | _ => none := by
      rw [deeper, List.find?_map]
      simp only [Function.comp_def, clashes_below]
      cases base.find? key with
      | none => simp
      | some held => cases held <;> simp
    simp only [firstConflict?, placedEntries, List.find?_cons, List.find?_append, List.nil_append,
      inside, ih, ihInner, clashes, PlacedEntry.place, entryAt?]
    cases base.find? key with
    | none => rfl
    | some held =>
      cases held with
      | leaf value => rfl
      | scope found =>
        simp only [Option.map_or, Option.map_map]
        rfl

end Spec

/-! ## Paths in faults -/

theorem pathKeys_toValue (counted : Nat) (keys : List Key) :
    pathKeys counted (keys.map Key.toValue) = .ok keys := by
  induction keys generalizing counted with
  | nil => rfl
  | cons key rest ih =>
    simp only [List.map_cons, pathKeys, Key.key?_toValue, ih]
    rfl

/-- A path is not written for its first segment that is no text. -/
theorem pathKeys_of_not_text {before after : List Value} {segment : Value}
    (texts : ∀ earlier ∈ before, ∃ text, earlier.text? = some text)
    (noText : segment.text? = none) (counted : Nat) :
    pathKeys counted (before ++ segment :: after) =
      .error (.unwritablePath (counted + before.length) segment.kindName) := by
  induction before generalizing counted with
  | nil =>
    rw [← Value.map_text_key?, Option.map_eq_none_iff] at noText
    simp [pathKeys, noText]
  | cons first rest ih =>
    obtain ⟨⟨text, isText⟩, others⟩ := List.forall_mem_cons.mp texts
    obtain ⟨key, rfl, _⟩ := Value.exists_key_of_text? isText
    simp only [List.cons_append, pathKeys, Key.key?_toValue, ih others, List.length_cons]
    rw [Nat.add_assoc, Nat.add_comm 1]
    rfl

end ScopedStyle
