import ScopedStyle.Proofs.SpecReading
import ScopedStyle.Proofs.TextKeys

/-! Specs in which no scope has a key twice, as it is with whatever is read from mappings. They are
told apart by what stands under their keys, and a merge of two of them is another. -/
namespace ScopedStyle.Spec

variable {κ : Type} [BEq κ]

/-- What holds of a spec whenever it holds of the scopes that are found in it holds of every spec. -/
@[elab_as_elim]
theorem scopeInduction {motive : Spec κ → Prop}
    (step : ∀ spec, (∀ key inner, spec.find? key = some (.scope inner) → motive inner) → motive spec)
    (spec : Spec κ) : motive spec := by
  refine step spec fun key inner held => ?_
  induction spec generalizing key inner with
  | nil => simp [find?] at held
  | leaf first value rest ih =>
    by_cases met : (first == key) = true
    · simp [find?, met] at held
    · exact ih key inner (by simpa [find?, met] using held)
  | scope first traits inside rest ihInner ih =>
    by_cases met : (first == key) = true
    · simp only [find?, met, ↓reduceIte, Option.some.injEq, Entry.scope.injEq] at held
      subst held
      exact step inside ihInner
    · exact ih key inner (by simpa [find?, met] using held)

theorem hasDistinctKeys_leaf {key : κ} {value : Value} {rest : Spec κ} :
    (leaf key value rest).hasDistinctKeys = true ↔
      rest.find? key = none ∧ rest.hasDistinctKeys = true := by
  simp [hasDistinctKeys]

theorem hasDistinctKeys_scope {key : κ} {traits : Option (Traits Value)} {inner rest : Spec κ} :
    (scope key traits inner rest).hasDistinctKeys = true ↔
      rest.find? key = none ∧ inner.hasDistinctKeys = true ∧ rest.hasDistinctKeys = true := by
  simp [hasDistinctKeys, and_assoc]

theorem hasDistinctKeys_of_find? {spec inner : Spec κ} {key : κ}
    (distinct : spec.hasDistinctKeys = true) (held : spec.find? key = some (.scope inner)) :
    inner.hasDistinctKeys = true := by
  induction spec with
  | nil => simp [find?] at held
  | leaf first value rest ih =>
    by_cases met : (first == key) = true
    · simp [find?, met] at held
    · exact ih (hasDistinctKeys_leaf.mp distinct).2 (by simpa [find?, met] using held)
  | scope first traits inside rest _ ih =>
    obtain ⟨_, below, others⟩ := hasDistinctKeys_scope.mp distinct
    by_cases met : (first == key) = true
    · simp only [find?, met, ↓reduceIte, Option.some.injEq, Entry.scope.injEq] at held
      exact held ▸ below
    · exact ih others (by simpa [find?, met] using held)

section Lookup

variable [EquivBEq κ]

/-- What is found behind an entry is not found under its key. -/
theorem not_met_of_find?_rest {first key : κ} {rest : Spec κ} {entry : Entry κ}
    (once : rest.find? first = none) (held : rest.find? key = some entry) :
    ¬ (first == key) = true := by
  intro met
  rw [← find?_congr met, once] at held
  cases held

/-! ## Merging -/

theorem hasDistinctKeys_append {first second : Spec κ} (distinct : first.hasDistinctKeys = true)
    (further : second.hasDistinctKeys = true)
    (apart : ∀ key, (first.find? key).isSome → second.find? key = none) :
    (first.append second).hasDistinctKeys = true := by
  induction first with
  | nil => exact further
  | leaf key value rest ih =>
    obtain ⟨once, others⟩ := hasDistinctKeys_leaf.mp distinct
    have behind : second.find? key = none := apart key (by simp [find?])
    refine hasDistinctKeys_leaf.mpr ⟨by simp [find?_append, once, behind], ih others ?_⟩
    intro other held
    refine apart other ?_
    obtain ⟨entry, found⟩ := Option.isSome_iff_exists.mp held
    simpa [find?, not_met_of_find?_rest once found] using held
  | scope key traits inner rest _ ih =>
    obtain ⟨once, inside, others⟩ := hasDistinctKeys_scope.mp distinct
    have behind : second.find? key = none := apart key (by simp [find?])
    refine hasDistinctKeys_scope.mpr ⟨by simp [find?_append, once, behind], inside, ih others ?_⟩
    intro other held
    refine apart other ?_
    obtain ⟨entry, found⟩ := Option.isSome_iff_exists.mp held
    simpa [find?, not_met_of_find?_rest once found] using held

theorem hasDistinctKeys_beyond (base : Spec κ) {patch : Spec κ}
    (distinct : patch.hasDistinctKeys = true) : (base.beyond patch).hasDistinctKeys = true := by
  induction patch with
  | nil => rfl
  | leaf key value rest ih =>
    obtain ⟨once, others⟩ := hasDistinctKeys_leaf.mp distinct
    simp only [beyond]
    split
    · exact ih others
    · exact hasDistinctKeys_leaf.mpr ⟨by simp [find?_beyond, once], ih others⟩
  | scope key traits inner rest _ ih =>
    obtain ⟨once, inside, others⟩ := hasDistinctKeys_scope.mp distinct
    simp only [beyond]
    split
    · exact ih others
    · exact hasDistinctKeys_scope.mpr ⟨by simp [find?_beyond, once], inside, ih others⟩

private theorem hasDistinctKeys_patched_of_overlaid {base patch : Spec κ}
    (kept : (base.overlaid patch).hasDistinctKeys = true)
    (distinct : patch.hasDistinctKeys = true) : (base.patched patch).hasDistinctKeys = true := by
  refine hasDistinctKeys_append kept (hasDistinctKeys_beyond base distinct) fun key held => ?_
  have inBase : (base.find? key).isSome := by simpa [find?_overlaid] using held
  simp [find?_beyond, inBase]

private theorem hasDistinctKeys_overlaid {base patch : Spec κ}
    (distinct : base.hasDistinctKeys = true) (further : patch.hasDistinctKeys = true) :
    (base.overlaid patch).hasDistinctKeys = true := by
  induction base generalizing patch with
  | nil => rfl
  | leaf key value rest ih =>
    obtain ⟨once, others⟩ := hasDistinctKeys_leaf.mp distinct
    have still : (rest.overlaid patch).find? key = none := by simp [find?_overlaid, once]
    simp only [overlaid]
    split <;> exact hasDistinctKeys_leaf.mpr ⟨still, ih others further⟩
  | scope key traits inner rest ihInner ih =>
    obtain ⟨once, inside, others⟩ := hasDistinctKeys_scope.mp distinct
    have still : (rest.overlaid patch).find? key = none := by simp [find?_overlaid, once]
    simp only [overlaid]
    split
    · next changes found =>
      have changed := hasDistinctKeys_of_find? further found
      have merged := hasDistinctKeys_patched_of_overlaid (ihInner inside changed) changed
      exact hasDistinctKeys_scope.mpr ⟨still, merged, ih others further⟩
    · exact hasDistinctKeys_scope.mpr ⟨still, inside, ih others further⟩

/-- A merge has a key twice in a scope only if one of the merged specs has. -/
theorem hasDistinctKeys_patched {base patch : Spec κ} (distinct : base.hasDistinctKeys = true)
    (further : patch.hasDistinctKeys = true) : (base.patched patch).hasDistinctKeys = true :=
  hasDistinctKeys_patched_of_overlaid (hasDistinctKeys_overlaid distinct further) further

end Lookup

end ScopedStyle.Spec

namespace ScopedStyle

/-! ## Assigning -/

namespace Spec

/-- An entry of a mapping is read as a leaf, or as the scope that its value is. -/
theorem ofEntry_cases (value : Value) :
    value.isScope = false ∧ (∀ key rest, ofEntry key value rest = .leaf key value rest) ∨
      value.isScope = true ∧ ∃ traits inner, value.spec? = some inner ∧
        ∀ key rest, ofEntry key value rest = .scope key traits inner rest := by
  cases single : value.isScope with
  | false => exact .inl ⟨rfl, ofEntry_of_not_scope single⟩
  | true =>
    refine .inr ⟨rfl, ?_⟩
    cases value with
    | map entries => exact ⟨none, _, rfl, fun _ _ => rfl⟩
    | derived traits content =>
      cases content with
      | map entries =>
        have converts : (Value.derived traits (.map entries)).converts = false := by
          simpa using (Bool.and_eq_true_iff.mp single).2
        have plain := (converts_held (some traits) entries).symm.trans converts
        exact ⟨some traits, _, rfl, fun key rest => ofEntry_held plain key entries rest⟩
      | _ => cases single
    | _ => cases single

theorem find?_ofEntry {first key value : Value} {rest : Spec Value} :
    (ofEntry first value rest).find? key = none ↔
      (first == key) = false ∧ rest.find? key = none := by
  obtain ⟨_, leaf⟩ | ⟨_, traits, inner, _, scope⟩ := ofEntry_cases value
  · cases met : first == key <;> simp [leaf, find?, met]
  · cases met : first == key <;> simp [scope, find?, met]

theorem hasDistinctKeys_ofEntry {key value : Value} {rest : Spec Value} :
    (ofEntry key value rest).hasDistinctKeys = true ↔
      rest.find? key = none ∧ (value.isScope = true → value.hasDistinctKeys = true) ∧
        rest.hasDistinctKeys = true := by
  obtain ⟨single, leaf⟩ | ⟨single, traits, inner, read, scope⟩ := ofEntry_cases value
  · simp [leaf, hasDistinctKeys_leaf, single]
  · simp [scope, hasDistinctKeys_scope, single, Value.hasDistinctKeys, read]

end Spec

namespace Value

variable {entries : List (Value × Value)} {key value : Value}

/-- A key that is not among some entries is not found after an assignment to another. -/
theorem find?_assign {query : Value} (other : (key == query) = false)
    (absent : (Spec.ofEntries entries).find? query = none) :
    (Spec.ofEntries (assign key value entries)).find? query = none := by
  induction entries with
  | nil => exact Spec.find?_ofEntry.mpr ⟨other, rfl⟩
  | cons entry rest ih =>
    obtain ⟨first, old⟩ := entry
    obtain ⟨apart, behind⟩ := Spec.find?_ofEntry.mp absent
    simp only [assign]
    split
    · exact Spec.find?_ofEntry.mpr ⟨apart, behind⟩
    · exact Spec.find?_ofEntry.mpr ⟨apart, ih behind⟩

/-- Assigning to a text, the way in which mappings are made, leaves no key twice. -/
theorem hasDistinctKeys_assign {text : String} (isText : key.text? = some text)
    (distinct : (Value.map entries).hasDistinctKeys = true) (given : value.hasDistinctKeys = true) :
    (Value.map (assign key value entries)).hasDistinctKeys = true := by
  induction entries with
  | nil => exact Spec.hasDistinctKeys_ofEntry.mpr ⟨rfl, fun _ => given, rfl⟩
  | cons entry rest ih =>
    obtain ⟨first, old⟩ := entry
    obtain ⟨once, own, others⟩ := Spec.hasDistinctKeys_ofEntry.mp distinct
    simp only [assign]
    split
    · exact Spec.hasDistinctKeys_ofEntry.mpr ⟨once, fun _ => given, others⟩
    · next apart =>
      have other : (key == first) = false := by
        rw [text_beq isText, ← beq_text isText]
        simpa using apart
      exact Spec.hasDistinctKeys_ofEntry.mpr ⟨find?_assign other once, own, ih others⟩

end Value

end ScopedStyle
