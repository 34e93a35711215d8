import ScopedStyle.Mapping
import ScopedStyle.Proofs.MergeAlgebra
import ScopedStyle.SpecSnapshot

/-! Specs whose keys are texts. Two such keys are the same if they are written alike, so a spec given
with values for keys is merged as the spec of its keys is. A patch that leaves only keys that are
texts behind has no others itself. -/
namespace ScopedStyle

/-! ## Keys and the values they are -/

/-- Keys are told apart by their texts. -/
instance : BEq Key where
  beq key other := key.text == other.text

theorem Key.beq_iff {key other : Key} : (key == other) = true ↔ key.text = other.text :=
  beq_iff_eq (α := String)

instance : EquivBEq Key where
  rfl := Key.beq_iff.mpr rfl
  symm same := Key.beq_iff.mpr (Key.beq_iff.mp same).symm
  trans same next := Key.beq_iff.mpr ((Key.beq_iff.mp same).trans (Key.beq_iff.mp next))

@[simp] theorem Key.text?_toValue (key : Key) : key.toValue.text? = some key.text := by
  obtain ⟨text, traits⟩ := key
  cases traits <;> rfl

namespace Value

theorem beq_def (value other : Value) : (value == other) = value.same other := rfl

/-- A value with a text is a key with that text. -/
theorem exists_key_of_text? {value : Value} {text : String} (isText : value.text? = some text) :
    ∃ key : Key, key.toValue = value ∧ key.text = text := by
  rw [← map_text_key?, Option.map_eq_some_iff] at isText
  obtain ⟨key, read, rfl⟩ := isText
  exact ⟨key, Key.toValue_of_key? read, rfl⟩

/-- A text is the same as whatever is a text written alike. -/
theorem text_beq {value : Value} {text : String} (isText : value.text? = some text)
    (other : Value) : (value == other) = (other.text? == some text) := by
  obtain ⟨⟨characters, traits⟩, rfl, rfl⟩ := exists_key_of_text? isText
  cases traits <;> simp [beq_def, Key.toValue, same]

/-- Nothing but a text is the same as a text. -/
theorem beq_text {value : Value} {text : String} (isText : value.text? = some text)
    (other : Value) : (other == value) = (other.text? == some text) := by
  cases known : other.text? with
  | some characters => rw [text_beq known, isText, BEq.comm]
  | none =>
    obtain ⟨⟨characters, traits⟩, rfl, rfl⟩ := exists_key_of_text? isText
    cases other with
    | text others => exact absurd known (by simp [text?, Value.content])
    | derived own content =>
      cases content with
      | text others => exact absurd known (by simp [text?, Value.content])
      | _ => simp [beq_def, same, isText]
    | object own => simp [beq_def, same, isText]
    | _ => cases traits <;> simp [beq_def, same, sameNumber, integer?, Key.toValue, Value.content]

end Value

theorem Key.toValue_beq_toValue (key other : Key) :
    (key.toValue == other.toValue) = (key == other) := by
  rw [Value.text_beq key.text?_toValue, Key.text?_toValue, BEq.comm]
  rfl

theorem Key.toValue_injective : Function.Injective Key.toValue := by
  intro key other same
  have read := key.key?_toValue
  rw [same, other.key?_toValue] at read
  exact (Option.some.inj read).symm

/-! ## Merging specs under other keys -/

variable {κ μ : Type}

/-- What stands under a key of a spec, with other keys below. -/
def Entry.mapKeys (name : κ → μ) : Entry κ → Entry μ
  | .leaf value => .leaf value
  | .scope inner => .scope (inner.mapKeys name)

/-- A conflict between specs with other keys. -/
def Conflict.mapKeys (name : κ → μ) (conflict : Conflict κ) : Conflict μ :=
  ⟨conflict.path.map name, conflict.patchIsScope⟩

namespace Spec

theorem mapKeys_append (name : κ → μ) (first second : Spec κ) :
    (first.append second).mapKeys name = (first.mapKeys name).append (second.mapKeys name) := by
  induction first with
  | nil => rfl
  | leaf key value rest ih => simp [append, mapKeys, ih]
  | scope key traits inner rest _ ih => simp [append, mapKeys, ih]

theorem mapKeys_injective {name : κ → μ} (injective : Function.Injective name) :
    Function.Injective (mapKeys name) := by
  intro spec other same
  induction spec generalizing other with
  | nil =>
    cases other with
    | nil => rfl
    | leaf => cases same
    | scope => cases same
  | leaf key value rest ih =>
    cases other with
    | leaf second held others =>
      obtain ⟨named, rfl, further⟩ := leaf.inj same
      rw [injective named, ih further]
    | nil => cases same
    | scope => cases same
  | scope key traits inner rest ihInner ih =>
    cases other with
    | scope second held inside others =>
      obtain ⟨named, rfl, below, further⟩ := scope.inj same
      rw [injective named, ihInner below, ih further]
    | nil => cases same
    | leaf => cases same

section Renamed

variable [BEq κ] [BEq μ] {name : κ → μ}
  (faithful : ∀ key other : κ, (name key == name other) = (key == other))

include faithful

theorem find?_mapKeys (spec : Spec κ) (key : κ) :
    (spec.mapKeys name).find? (name key) = (spec.find? key).map (·.mapKeys name) := by
  induction spec with
  | nil => rfl
  | leaf first value rest ih =>
    by_cases met : (first == key) = true <;>
      simp [mapKeys, find?, faithful, met, ih, Entry.mapKeys]
  | scope first traits inner rest _ ih =>
    by_cases met : (first == key) = true <;>
      simp [mapKeys, find?, faithful, met, ih, Entry.mapKeys]

theorem mapKeys_beyond (base patch : Spec κ) :
    (base.beyond patch).mapKeys name = (base.mapKeys name).beyond (patch.mapKeys name) := by
  induction patch with
  | nil => rfl
  | leaf key value rest ih =>
    simp only [beyond, mapKeys, find?_mapKeys faithful, Option.isSome_map]
    split <;> simp [mapKeys, ih]
  | scope key traits inner rest _ ih =>
    simp only [beyond, mapKeys, find?_mapKeys faithful, Option.isSome_map]
    split <;> simp [mapKeys, ih]

theorem mapKeys_overlaid (base patch : Spec κ) :
    (base.overlaid patch).mapKeys name = (base.mapKeys name).overlaid (patch.mapKeys name) := by
  induction base generalizing patch with
  | nil => rfl
  | leaf key value rest ih =>
    simp only [overlaid, mapKeys, find?_mapKeys faithful]
    cases patch.find? key with
    | none => simp [mapKeys, ih]
    | some entry => cases entry <;> simp [Entry.mapKeys, mapKeys, ih]
  | scope key traits inner rest ihInner ih =>
    simp only [overlaid, mapKeys, find?_mapKeys faithful]
    cases patch.find? key with
    | none => simp [mapKeys, ih]
    | some entry =>
      cases entry with
      | leaf value => simp [Entry.mapKeys, mapKeys, ih]
      | scope changes =>
        simp [Entry.mapKeys, mapKeys, ih, mapKeys_append, ihInner, mapKeys_beyond faithful]

theorem mapKeys_patched (base patch : Spec κ) :
    (base.patched patch).mapKeys name = (base.mapKeys name).patched (patch.mapKeys name) := by
  rw [patched, mapKeys_append, mapKeys_overlaid faithful, mapKeys_beyond faithful, patched]

theorem firstConflict?_mapKeys (base patch : Spec κ) :
    (base.mapKeys name).firstConflict? (patch.mapKeys name) =
      (base.firstConflict? patch).map (·.mapKeys name) := by
  induction patch generalizing base with
  | nil => rfl
  | leaf key value rest ih =>
    simp only [firstConflict?, mapKeys, find?_mapKeys faithful]
    cases base.find? key with
    | none => simp [ih]
    | some entry => cases entry <;> simp [Entry.mapKeys, Conflict.mapKeys, ih]
  | scope key traits inner rest ihInner ih =>
    simp only [firstConflict?, mapKeys, find?_mapKeys faithful]
    cases base.find? key with
    | none => simp [ih]
    | some entry =>
      cases entry with
      | leaf value => simp [Entry.mapKeys, Conflict.mapKeys]
      | scope found =>
        simp [Entry.mapKeys, ih, ihInner, Option.map_or, Function.comp_def, Conflict.below,
          Conflict.mapKeys]

/-- Specs are merged alike whatever their keys are called. -/
theorem merge_mapKeys (base patch : Spec κ) :
    (base.mapKeys name).merge (patch.mapKeys name) =
      ((base.merge patch).map (mapKeys name)).mapError (Conflict.mapKeys name) := by
  rw [merge, merge, firstConflict?_mapKeys faithful, ← mapKeys_patched faithful]
  cases base.firstConflict? patch <;> rfl

theorem merge_mapKeys_of_ok {base patch merged : Spec κ} (ran : base.merge patch = .ok merged) :
    (base.mapKeys name).merge (patch.mapKeys name) = .ok (merged.mapKeys name) := by
  rw [merge_mapKeys faithful, ran]
  rfl

end Renamed

/-! ## Specs with texts for keys -/

theorem hasDistinctKeys_mapKeys [BEq κ] [BEq μ] {name : κ → μ}
    (faithful : ∀ key other : κ, (name key == name other) = (key == other)) (spec : Spec κ) :
    (spec.mapKeys name).hasDistinctKeys = spec.hasDistinctKeys := by
  induction spec with
  | nil => rfl
  | leaf key value rest ih => simp [mapKeys, hasDistinctKeys, find?_mapKeys faithful, ih]
  | scope key traits inner rest ihInner ih =>
    simp [mapKeys, hasDistinctKeys, find?_mapKeys faithful, ihInner, ih]

/-- A spec in which every key is a text, at every depth. -/
def TextKeyed (spec : Spec Value) : Prop :=
  ∃ keyed : Spec Key, keyed.mapKeys Key.toValue = spec

theorem textKeyed_leaf {key value : Value} {rest : Spec Value} :
    (leaf key value rest).TextKeyed ↔ (∃ text, key.text? = some text) ∧ rest.TextKeyed := by
  constructor
  · rintro ⟨keyed, same⟩
    cases keyed with
    | nil => cases same
    | leaf first _ others =>
      cases same
      exact ⟨⟨first.text, first.text?_toValue⟩, others, rfl⟩
    | scope => cases same
  · rintro ⟨⟨text, isText⟩, others, rfl⟩
    obtain ⟨first, rfl, _⟩ := Value.exists_key_of_text? isText
    exact ⟨.leaf first value others, rfl⟩

theorem textKeyed_scope {key : Value} {traits : Option (Traits Value)} {inner rest : Spec Value} :
    (scope key traits inner rest).TextKeyed ↔
      (∃ text, key.text? = some text) ∧ inner.TextKeyed ∧ rest.TextKeyed := by
  constructor
  · rintro ⟨keyed, same⟩
    cases keyed with
    | nil => cases same
    | leaf => cases same
    | scope first _ inside others =>
      cases same
      exact ⟨⟨first.text, first.text?_toValue⟩, ⟨inside, rfl⟩, others, rfl⟩
  · rintro ⟨⟨text, isText⟩, ⟨inside, rfl⟩, others, rfl⟩
    obtain ⟨first, rfl, _⟩ := Value.exists_key_of_text? isText
    exact ⟨.scope first traits inside others, rfl⟩

theorem textKeyed_append {first second : Spec Value} :
    (first.append second).TextKeyed ↔ first.TextKeyed ∧ second.TextKeyed := by
  induction first with
  | nil => exact ⟨fun keyed => ⟨⟨.nil, rfl⟩, keyed⟩, And.right⟩
  | leaf key value rest ih => simp only [append, textKeyed_leaf, ih, and_assoc]
  | scope key traits inner rest _ ih => simp only [append, textKeyed_scope, ih, and_assoc]

/-- Under a key that a spec has stands what it has there, and scopes among it have text keys too. -/
theorem textKeyed_of_find? {spec inner : Spec Value} {key : Value} (keyed : spec.TextKeyed)
    (held : spec.find? key = some (.scope inner)) : inner.TextKeyed := by
  induction spec with
  | nil => simp [find?] at held
  | leaf first value rest ih =>
    obtain ⟨_, others⟩ := textKeyed_leaf.mp keyed
    by_cases met : (first == key) = true
    · simp [find?, met] at held
    · exact ih others (by simpa [find?, met] using held)
  | scope first traits inside rest _ ih =>
    obtain ⟨_, below, others⟩ := textKeyed_scope.mp keyed
    by_cases met : (first == key) = true
    · simp only [find?, met, ↓reduceIte, Option.some.injEq, Entry.scope.injEq] at held
      exact held ▸ below
    · exact ih others (by simpa [find?, met] using held)

/-- Whatever is found in a spec with text keys is found under a text. -/
theorem text_of_find? {spec : Spec Value} {key : Value} (keyed : spec.TextKeyed)
    (held : (spec.find? key).isSome) : ∃ text, key.text? = some text := by
  induction spec with
  | nil => simp [find?] at held
  | leaf first value rest ih =>
    obtain ⟨⟨text, isText⟩, others⟩ := textKeyed_leaf.mp keyed
    by_cases met : (first == key) = true
    · exact ⟨text, by simpa [Value.text_beq isText] using met⟩
    · exact ih others (by simpa [find?, met] using held)
  | scope first traits inside rest _ ih =>
    obtain ⟨⟨text, isText⟩, _, others⟩ := textKeyed_scope.mp keyed
    by_cases met : (first == key) = true
    · exact ⟨text, by simpa [Value.text_beq isText] using met⟩
    · exact ih others (by simpa [find?, met] using held)

/-- Texts written alike find the same. -/
theorem find?_congr_text {key other : Value} {text : String} (isText : key.text? = some text)
    (alike : other.text? = some text) (spec : Spec Value) : spec.find? key = spec.find? other :=
  find?_congr_of_indistinct
    (fun first => (Value.beq_text isText first).trans (Value.beq_text alike first).symm) spec

theorem find?_overlaid_of_text {key : Value} {text : String} (isText : key.text? = some text)
    (base patch : Spec Value) :
    (base.overlaid patch).find? key = (base.find? key).map (·.overlaid (patch.find? key)) := by
  refine find?_overlaid_of_indistinct (fun first met => ?_) base
  have alike : first.text? = some text := by simpa [Value.beq_text isText] using met
  exact find?_congr_text alike isText patch

/-- A key that is found further on is another than one that is not. -/
private theorem later_key_differs {first key : Value} {rest : Spec Value} {text : String}
    {entry : Entry Value} (isText : first.text? = some text) (once : rest.find? first = none)
    (held : rest.find? key = some entry) : ¬ (first == key) = true := by
  intro met
  have alike : key.text? = some text := by simpa [Value.text_beq isText] using met
  rw [find?_congr_text alike isText, once] at held
  cases held

/-- Wherever two specs have a scope under one text, these scopes come to one with text keys when they
are merged. -/
private def ScopesMergeKeyed (base patch : Spec Value) : Prop :=
  ∀ key text inner changes, key.text? = some text → base.find? key = some (.scope inner) →
    patch.find? key = some (.scope changes) → (inner.patched changes).TextKeyed

private theorem scopesMergeKeyed_of_overlaid {base patch : Spec Value}
    (keyed : (base.overlaid patch).TextKeyed) : ScopesMergeKeyed base patch := by
  intro key text inner changes isText inBase inPatch
  have merged := find?_overlaid_of_text isText base patch
  rw [inBase, inPatch] at merged
  exact textKeyed_of_find? keyed merged

private theorem scopesMergeKeyed_rest {base patch rest : Spec Value} {first : Value} {text : String}
    (merged : ScopesMergeKeyed base patch) (isText : first.text? = some text)
    (once : rest.find? first = none)
    (passes : ∀ key, ¬ (first == key) = true → patch.find? key = rest.find? key) :
    ScopesMergeKeyed base rest := by
  intro key keyText inner changes isKey inBase inRest
  have other := later_key_differs isText once inRest
  exact merged key keyText inner changes isKey inBase ((passes key other).trans inRest)

private theorem textKeyed_of_beyond_leaf {base rest : Spec Value} {first value : Value}
    (baseKeyed : base.TextKeyed) (added : (base.beyond (leaf first value rest)).TextKeyed) :
    (∃ text, first.text? = some text) ∧ (base.beyond rest).TextKeyed := by
  simp only [beyond] at added
  split at added
  · next held => exact ⟨text_of_find? baseKeyed held, added⟩
  · exact textKeyed_leaf.mp added

private theorem textKeyed_of_beyond_scope {base changes rest : Spec Value} {first : Value}
    {traits : Option (Traits Value)} (baseKeyed : base.TextKeyed)
    (added : (base.beyond (scope first traits changes rest)).TextKeyed) :
    (∃ text, first.text? = some text) ∧ (base.beyond rest).TextKeyed ∧
      (base.find? first = none → changes.TextKeyed) := by
  simp only [beyond] at added
  split at added
  · next held =>
    refine ⟨text_of_find? baseKeyed held, added, fun absent => ?_⟩
    simp [absent] at held
  · obtain ⟨isText, inner, others⟩ := textKeyed_scope.mp added
    exact ⟨isText, others, fun _ => inner⟩

/-- The keys of a patch are read off from what it leaves behind: what the base does not have stands
beyond it, and a scope that the base has too has been merged with the base's. -/
private theorem textKeyed_of_parts {base : Spec Value} (baseKeyed : base.TextKeyed)
    (patch : Spec Value) (free : base.firstConflict? patch = none)
    (distinct : patch.hasDistinctKeys = true) (added : (base.beyond patch).TextKeyed)
    (merged : ScopesMergeKeyed base patch) : patch.TextKeyed := by
  -- In a scope that both have, the base is the scope of the base.
  induction patch generalizing base with
  | nil => exact ⟨.nil, rfl⟩
  | leaf first value rest ih =>
    obtain ⟨_, further⟩ := no_conflict_leaf.mp free
    simp only [hasDistinctKeys, Bool.and_eq_true, Option.isNone_iff_eq_none] at distinct
    obtain ⟨⟨own, isText⟩, addedRest⟩ := textKeyed_of_beyond_leaf baseKeyed added
    have mergedRest := scopesMergeKeyed_rest merged isText distinct.1
      fun key other => by simp [find?, other]
    exact textKeyed_leaf.mpr
      ⟨⟨own, isText⟩, ih baseKeyed further distinct.2 addedRest mergedRest⟩
  | scope first traits changes rest ihInner ih =>
    obtain ⟨noLeaf, below, further⟩ := no_conflict_scope.mp free
    simp only [hasDistinctKeys, Bool.and_eq_true, Option.isNone_iff_eq_none] at distinct
    obtain ⟨⟨once, distinctInner⟩, distinctRest⟩ := distinct
    obtain ⟨⟨own, isText⟩, addedRest, addedInner⟩ := textKeyed_of_beyond_scope baseKeyed added
    have mergedRest := scopesMergeKeyed_rest merged isText once
      fun key other => by simp [find?, other]
    have innerKeyed : changes.TextKeyed := by
      cases held : base.find? first with
      | none => exact addedInner held
      | some entry =>
        cases entry with
        | leaf value => exact (noLeaf value held).elim
        | scope inner =>
          have given : (scope first traits changes rest).find? first = some (.scope changes) := by
            simp [find?, Value.text_beq isText, isText]
          have both := textKeyed_append.mp (merged first own inner changes isText held given)
          exact ihInner (textKeyed_of_find? baseKeyed held) (below inner held) distinctInner
            both.2 (scopesMergeKeyed_of_overlaid both.1)
    exact textKeyed_scope.mpr ⟨⟨own, isText⟩, innerKeyed,
      ih baseKeyed further distinctRest addedRest mergedRest⟩

/-- A patch that can be merged onto a spec with text keys, and leaves no other keys behind, has text
keys itself. -/
theorem textKeyed_of_patched {base patch : Spec Value} (baseKeyed : base.TextKeyed)
    (free : base.firstConflict? patch = none) (distinct : patch.hasDistinctKeys = true)
    (keyed : (base.patched patch).TextKeyed) : patch.TextKeyed := by
  obtain ⟨overlaidKeyed, added⟩ := textKeyed_append.mp keyed
  exact textKeyed_of_parts baseKeyed patch free distinct added
    (scopesMergeKeyed_of_overlaid overlaidKeyed)

theorem textKeyed_patched {base patch : Spec Value} (baseKeyed : base.TextKeyed)
    (patchKeyed : patch.TextKeyed) : (base.patched patch).TextKeyed := by
  obtain ⟨base, rfl⟩ := baseKeyed
  obtain ⟨patch, rfl⟩ := patchKeyed
  exact ⟨base.patched patch, mapKeys_patched Key.toValue_beq_toValue base patch⟩

/-- Specs with text keys are merged as the specs of these keys are: what merging two patches in turn
leads to, merging the patches first leads to. -/
theorem merge_patches_first_of_textKeyed {base first second middle last : Spec Value}
    (baseKeyed : base.TextKeyed) (firstKeyed : first.TextKeyed) (secondKeyed : second.TextKeyed)
    (step : base.merge first = .ok middle) (next : middle.merge second = .ok last) :
    ∃ patch, first.merge second = .ok patch ∧ base.merge patch = .ok last := by
  obtain ⟨base, rfl⟩ := baseKeyed
  obtain ⟨first, rfl⟩ := firstKeyed
  obtain ⟨second, rfl⟩ := secondKeyed
  obtain ⟨freeFirst, rfl⟩ := merge_eq_ok.mp step
  rw [firstConflict?_mapKeys Key.toValue_beq_toValue, Option.map_eq_none_iff] at freeFirst
  rw [← mapKeys_patched Key.toValue_beq_toValue] at next
  obtain ⟨free, rfl⟩ := merge_eq_ok.mp next
  rw [firstConflict?_mapKeys Key.toValue_beq_toValue, Option.map_eq_none_iff] at free
  obtain ⟨patch, together, atOnce⟩ := merge_patches_first (merge_eq_ok.mpr ⟨freeFirst, rfl⟩)
    (merge_eq_ok.mpr ⟨free, rfl⟩)
  refine ⟨patch.mapKeys Key.toValue, ?_, ?_⟩
  · exact merge_mapKeys_of_ok Key.toValue_beq_toValue together
  · rw [← mapKeys_patched Key.toValue_beq_toValue]
    exact merge_mapKeys_of_ok Key.toValue_beq_toValue atOnce

end Spec

end ScopedStyle
