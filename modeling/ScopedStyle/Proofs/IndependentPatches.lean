import ScopedStyle.Proofs.MergePlaces

/-! Patches that can change places. Whether two patches can be merged onto a base in turn does not depend
on which comes first. If at no path both have a leaf, then neither does what the merges come to, but for
the order of keys; and this is the same in every scope to which only one of the patches adds a key. -/
namespace ScopedStyle

namespace Value

/-- What stands at a path, if it is no scope. -/
def leafAt? (value : Value) (place : List String) : Option Value :=
  (value.at? place).filter fun found => !found.isScope

/-- Whether a scope stands at a path. -/
def hasScopeAt (value : Value) (place : List String) : Bool :=
  (value.at? place).any isScope

/-- The keys of what stands at a path, in their order. -/
def keysAt (value : Value) (place : List String) : List Value :=
  ((value.at? place).map keys).getD []

/-- The keys at a path that a patch has and a base lacks, in the order of the patch. -/
def addedKeysAt (base patch : Value) (place : List String) : List Value :=
  (patch.keysAt place).filter fun key => !(base.keysAt place).contains key

/-- Patches of which at no path both have a leaf. -/
def IndependentOf (first second : Value) : Prop :=
  ∀ place, place ≠ [] → first.leafAt? place = none ∨ second.leafAt? place = none

/-- Mappings that differ in nothing but the order of the keys in their scopes. -/
structure SameButOrder (one other : Value) : Prop where
  leaves : ∀ place, one.leafAt? place = other.leafAt? place
  scopes : ∀ place, one.hasScopeAt place = other.hasScopeAt place
  keys : ∀ place, one.hasScopeAt place = true →
    ((one.keysAt place).map text?).Perm ((other.keysAt place).map text?)

end Value

/-! ## Conflicts -/

namespace Spec

variable {κ : Type} [BEq κ] [EquivBEq κ]

/-- A patch is free of conflict with a base where the base, as a patch, is so with it. -/
theorem no_conflict_comm {base patch : Spec κ} (distinct : base.hasDistinctKeys = true)
    (free : base.firstConflict? patch = none) : patch.firstConflict? base = none := by
  induction base using scopeInduction generalizing patch with
  | step base ih =>
    apply (no_conflict_iff_compatible distinct).mpr
    intro key
    obtain absent | absent | ⟨old, new, inBase, inPatch⟩ | ⟨inner, changes, inBase, inPatch, below⟩ :=
      entries_without_conflict free key
    · rw [absent]
      exact Entry.compatible_none _
    · rw [absent]
      trivial
    · rw [inBase, inPatch]
      trivial
    · rw [inBase, inPatch]
      exact ih key inner inBase (hasDistinctKeys_of_find? distinct inBase) below

/-- Two patches can be merged onto a base in turn if there is no conflict between any two of the three. -/
theorem no_conflict_in_turn_iff {base first second : Spec κ}
    (distinct : second.hasDistinctKeys = true) :
    base.firstConflict? first = none ∧ (base.patched first).firstConflict? second = none ↔
      base.firstConflict? first = none ∧ base.firstConflict? second = none ∧
        first.firstConflict? second = none := by
  constructor
  · rintro ⟨free, further⟩
    exact ⟨free, no_conflict_of_patched further, no_conflict_of_patches free further⟩
  · rintro ⟨free, other, between⟩
    exact ⟨free, no_conflict_in_turn distinct between (no_conflict_with_patched free other)⟩

/-- Of two patches, either may be merged onto a base first. -/
theorem no_conflict_in_turn_comm {base first second : Spec κ}
    (distinct : first.hasDistinctKeys = true) (further : second.hasDistinctKeys = true) :
    base.firstConflict? first = none ∧ (base.patched first).firstConflict? second = none ↔
      base.firstConflict? second = none ∧ (base.patched second).firstConflict? first = none := by
  rw [no_conflict_in_turn_iff further, no_conflict_in_turn_iff distinct]
  constructor
  · rintro ⟨free, other, between⟩
    exact ⟨other, free, no_conflict_comm distinct between⟩
  · rintro ⟨other, free, between⟩
    exact ⟨free, other, no_conflict_comm further between⟩

/-! ## Leaves -/

/-- The paths to the leaves of a spec. -/
def leafPlaces : Spec Key → List (List String)
  | .nil => []
  | .leaf key _ rest => [key.text] :: rest.leafPlaces
  | .scope key _ inner rest => inner.leafPlaces.map (key.text :: ·) ++ rest.leafPlaces

theorem mem_leafPlaces_of_leaf {spec : Spec Key} {name : String} {value : Value}
    (found : spec.find? (.ofText name) = some (.leaf value)) : [name] ∈ spec.leafPlaces := by
  induction spec with
  | nil => cases found
  | leaf first held rest ih =>
    by_cases met : (first == Key.ofText name) = true
    · have same : first.text = name := Key.beq_iff.mp met
      simp [leafPlaces, same]
    · exact List.mem_cons_of_mem _ (ih (by simpa [find?, met] using found))
  | scope first traits inner rest _ ih =>
    by_cases met : (first == Key.ofText name) = true
    · simp [find?, met] at found
    · exact List.mem_append_right _ (ih (by simpa [find?, met] using found))

theorem mem_leafPlaces_of_scope {spec inner : Spec Key} {name : String} {further : List String}
    (found : spec.find? (.ofText name) = some (.scope inner)) (below : further ∈ inner.leafPlaces) :
    name :: further ∈ spec.leafPlaces := by
  induction spec with
  | nil => cases found
  | leaf first held rest ih =>
    by_cases met : (first == Key.ofText name) = true
    · simp [find?, met] at found
    · exact List.mem_cons_of_mem _ (ih (by simpa [find?, met] using found))
  | scope first traits inside rest _ ih =>
    by_cases met : (first == Key.ofText name) = true
    · have same : first.text = name := Key.beq_iff.mp met
      simp only [find?, met, ↓reduceIte, Option.some.injEq, Entry.scope.injEq] at found
      rw [← same]
      exact List.mem_append_left _ (List.mem_map_of_mem (found ▸ below))
    · exact List.mem_append_right _ (ih (by simpa [find?, met] using found))

end Spec

/-! ## Merged places -/

namespace MergedPlace

variable {old new result : Option Value}

theorem leaf (placed : MergedPlace old new result) :
    result.filter (fun found => !found.isScope) =
      (new.filter fun found => !found.isScope).or (old.filter fun found => !found.isScope) := by
  cases placed with
  | base => rfl
  | patch => simp
  | value was is => simp [Option.filter_some, is]
  | scope was is merged keys => simp [Option.filter_some, was, is, merged]

theorem isScope (placed : MergedPlace old new result) :
    result.any Value.isScope = (old.any Value.isScope || new.any Value.isScope) := by
  cases placed with
  | base => simp
  | patch => rfl
  | value was is => simp [was, is]
  | scope was is merged keys => simp [was, is, merged]

theorem keys (placed : MergedPlace old new result)
    (leafless : result.filter (fun found => !found.isScope) = none) :
    (result.map Value.keys).getD [] =
      (old.map Value.keys).getD [] ++ ((new.map Value.keys).getD []).filter fun key =>
        !((old.map Value.keys).getD []).contains key := by
  cases placed with
  | base => simp
  | patch => exact (List.filter_eq_self.mpr fun _ _ => rfl).symm
  | value was is => simp [Option.filter_some, is] at leafless
  | scope was is merged keys => simpa [Value.mergedKeys] using keys

end MergedPlace

namespace Value

variable {base first second patch merged value : Value} {spec changes : Spec Key}
  {place : List String}

/-- What a mapping has that comes of a merge: the leaves of the patch and otherwise those of the base, the
scopes of both, and in each scope the keys that the patch adds behind those of the base. -/
structure IsMergeOf (merged base patch : Value) : Prop where
  root : merged.isScope = true
  leaves : ∀ place, place ≠ [] → merged.leafAt? place = (patch.leafAt? place).or (base.leafAt? place)
  scopes : ∀ place, place ≠ [] →
    merged.hasScopeAt place = (base.hasScopeAt place || patch.hasScopeAt place)
  keys : ∀ place, merged.leafAt? place = none →
    merged.keysAt place = base.keysAt place ++ base.addedKeysAt patch place

theorem isMergeOf_patched (baseReads : base.Reads spec) (patchReads : patch.Reads changes)
    (free : spec.firstConflict? changes = none) :
    (spec.patched changes).toValue.IsMergeOf base patch where
  root := rfl
  leaves place proper := by
    cases place with
    | nil => exact absurd rfl proper
    | cons name further => exact (mergedPlace_of_reads baseReads patchReads free name further).leaf
  scopes place proper := by
    cases place with
    | nil => exact absurd rfl proper
    | cons name further => exact (mergedPlace_of_reads baseReads patchReads free name further).isScope
  keys place leafless := by
    cases place with
    | nil => exact Value.keys_patched baseReads patchReads
    | cons name further =>
      exact (mergedPlace_of_reads baseReads patchReads free name further).keys leafless

/-! ## Keys of a scope -/

theorem contains_iff_text {keys : List Value} {key : Value} {name : String}
    (isText : key.text? = some name) : keys.contains key = true ↔ some name ∈ keys.map text? := by
  rw [List.contains_iff_exists_mem_beq, List.mem_map]
  simp only [text_beq isText, beq_iff_eq]

/-- No two keys of a spec are written alike. -/
private theorem nodup_texts {spec : Spec Key} (distinct : spec.hasDistinctKeys = true) :
    (spec.keys.map (·.text)).Nodup := by
  have absent {key : Key} {rest : Spec Key} (once : rest.find? key = none) :
      key.text ∉ rest.keys.map (·.text) := by
    intro member
    obtain ⟨other, among, same⟩ := List.mem_map.mp member
    have held : (rest.keys.map Key.toValue).contains key.toValue = true :=
      (contains_iff_text key.text?_toValue).mpr
        (List.mem_map.mpr ⟨_, List.mem_map_of_mem among, by rw [Key.text?_toValue, same]⟩)
    rw [Spec.contains_keys, once] at held
    cases held
  induction spec with
  | nil => exact List.nodup_nil
  | leaf key held rest ih =>
    obtain ⟨once, others⟩ := Spec.hasDistinctKeys_leaf.mp distinct
    exact List.nodup_cons.mpr ⟨absent once, ih others⟩
  | scope key traits inner rest _ ih =>
    obtain ⟨once, _, others⟩ := Spec.hasDistinctKeys_scope.mp distinct
    exact List.nodup_cons.mpr ⟨absent once, ih others⟩

/-- A path to a scope goes on in a mapping without a key twice. -/
private theorem at?_of_scope {name : String} {further : List String} (isMap : value.IsTextMap)
    (scope : value.hasScopeAt (name :: further) = true) :
    ∃ found : Value, found.IsTextMap ∧ value.at? (name :: further) = found.at? further := by
  obtain ⟨spec, reads, distinct⟩ := isTextMap_iff.mp isMap
  have under : value.under? name = spec.under? (Key.ofText name).text := under?_of_reads reads name
  obtain ⟨_, here⟩ | ⟨held, _, here, single⟩ | ⟨inner, held, inSpec, here, isScope, below⟩ :=
    Spec.under?_cases (readable_of_reads reads) (.ofText name)
  · simp [hasScopeAt, at?, under, here] at scope
  · cases further <;> simp [hasScopeAt, at?, under, here, single] at scope
  · refine ⟨held, isTextMap_iff.mpr ⟨inner, below, Spec.hasDistinctKeys_of_find? distinct inSpec⟩, ?_⟩
    simp [at?, under, here, isScope]

/-- The keys in a scope of a mapping are texts, and no two of them are written alike. -/
theorem texts_of_keysAt (isMap : value.IsTextMap) (scope : value.hasScopeAt place = true) :
    ∃ texts : List String, (value.keysAt place).map text? = texts.map some ∧ texts.Nodup := by
  induction place generalizing value with
  | nil =>
    obtain ⟨spec, reads, distinct⟩ := isTextMap_iff.mp isMap
    have here : value.keysAt [] = spec.keys.map Key.toValue := keys_of_reads reads
    exact ⟨spec.keys.map (·.text), by simp [here], nodup_texts distinct⟩
  | cons name further ih =>
    obtain ⟨found, isInner, same⟩ := at?_of_scope isMap scope
    rw [hasScopeAt, same] at scope
    rw [keysAt, same]
    exact ih isInner scope

/-- A merge has the keys of both sides in a scope. -/
theorem IsMergeOf.mem_texts (isMerge : merged.IsMergeOf base patch)
    (leafless : merged.leafAt? place = none) (name : String) :
    some name ∈ (merged.keysAt place).map text? ↔
      some name ∈ (base.keysAt place).map text? ∨ some name ∈ (patch.keysAt place).map text? := by
  rw [isMerge.keys place leafless, List.map_append, List.mem_append]
  constructor
  · rintro (inBase | added)
    · exact .inl inBase
    · obtain ⟨key, member, isText⟩ := List.mem_map.mp added
      exact .inr (List.mem_map.mpr ⟨key, (List.mem_filter.mp member).1, isText⟩)
  · rintro (inBase | inPatch)
    · exact .inl inBase
    · obtain ⟨key, member, isText⟩ := List.mem_map.mp inPatch
      cases held : (base.keysAt place).contains key with
      | true => exact .inl ((contains_iff_text isText).mp held)
      | false =>
        exact .inr (List.mem_map.mpr ⟨key, List.mem_filter.mpr ⟨member, by simp [held]⟩, isText⟩)

/-! ## Merging in either order -/

/-- Where a merge has no leaf, there was none in what the patch was merged onto. -/
theorem IsMergeOf.base_leafless (isMerge : merged.IsMergeOf base patch) (root : base.isScope = true)
    (leafless : merged.leafAt? place = none) : base.leafAt? place = none := by
  cases place with
  | nil => simp [leafAt?, at?, Option.filter_some, root]
  | cons name further =>
    rw [isMerge.leaves _ (List.cons_ne_nil name further), Option.or_eq_none_iff] at leafless
    exact leafless.2

theorem IsMergeOf.no_leaf_at_root (isMerge : merged.IsMergeOf base patch) :
    merged.leafAt? [] = none := by
  simp [leafAt?, at?, Option.filter_some, isMerge.root]

/-- A patch that adds nothing to a base adds nothing to what another patch has made of it. -/
theorem IsMergeOf.adds_nothing (isMerge : merged.IsMergeOf base first)
    (leafless : merged.leafAt? place = none) (nothing : base.addedKeysAt second place = []) :
    merged.addedKeysAt second place = [] := by
  rw [addedKeysAt, List.filter_eq_nil_iff] at nothing ⊢
  intro key member
  have held : (base.keysAt place).contains key = true := by simpa using nothing key member
  simp [isMerge.keys place leafless, held]

/-- What stands at a path is told from its leaf where there is one. -/
theorem at?_of_leafAt? {leaf : Value} (found : value.leafAt? place = some leaf) :
    value.at? place = some leaf :=
  (Option.filter_eq_some_iff.mp found).1

/-- Where a scope stands there is no leaf. -/
theorem leafAt?_of_scope (scope : value.hasScopeAt place = true) : value.leafAt? place = none := by
  unfold hasScopeAt at scope
  unfold leafAt?
  cases here : value.at? place with
  | none => rfl
  | some found =>
    rw [here, Option.any_some] at scope
    simp [Option.filter_some, scope]

section EitherOrder

variable {early late one other : Value}
variable (isEarly : early.IsMergeOf base first) (isOne : one.IsMergeOf early second)
  (isLate : late.IsMergeOf base second) (isOther : other.IsMergeOf late first)

include isEarly isOne isLate isOther

/-- Independent patches leave the same leaves in either order. -/
theorem leafAt?_either_order (independent : first.IndependentOf second) (place : List String) :
    one.leafAt? place = other.leafAt? place := by
  cases place with
  | nil => rw [isOne.no_leaf_at_root, isOther.no_leaf_at_root]
  | cons name further =>
    have proper := List.cons_ne_nil name further
    rw [isOne.leaves _ proper, isEarly.leaves _ proper, isOther.leaves _ proper,
      isLate.leaves _ proper]
    rcases independent _ proper with absent | absent <;> simp [absent]

theorem hasScopeAt_either_order (place : List String) :
    one.hasScopeAt place = other.hasScopeAt place := by
  cases place with
  | nil => exact isOne.root.trans isOther.root.symm
  | cons name further =>
    have proper := List.cons_ne_nil name further
    rw [isOne.scopes _ proper, isEarly.scopes _ proper, isOther.scopes _ proper,
      isLate.scopes _ proper, Bool.or_right_comm]

/-- In either order a scope gets the same keys. -/
theorem mem_texts_either_order (oneLeafless : one.leafAt? place = none)
    (otherLeafless : other.leafAt? place = none) (name : String) :
    some name ∈ (one.keysAt place).map text? ↔ some name ∈ (other.keysAt place).map text? := by
  rw [isOne.mem_texts oneLeafless, isEarly.mem_texts (isOne.base_leafless isEarly.root oneLeafless),
    isOther.mem_texts otherLeafless,
    isLate.mem_texts (isOther.base_leafless isLate.root otherLeafless), or_right_comm]

/-- A patch that adds nothing to a scope may be merged first or last. -/
theorem keysAt_of_nothing_added (oneLeafless : one.leafAt? place = none)
    (otherLeafless : other.leafAt? place = none) (nothing : base.addedKeysAt second place = []) :
    one.keysAt place = other.keysAt place := by
  have earlyLeafless := isOne.base_leafless isEarly.root oneLeafless
  have lateLeafless := isOther.base_leafless isLate.root otherLeafless
  have kept : late.keysAt place = base.keysAt place := by
    rw [isLate.keys place lateLeafless, nothing, List.append_nil]
  calc one.keysAt place
    _ = early.keysAt place := by
      rw [isOne.keys place oneLeafless, isEarly.adds_nothing earlyLeafless nothing, List.append_nil]
    _ = base.keysAt place ++ base.addedKeysAt first place := isEarly.keys place earlyLeafless
    _ = late.keysAt place ++ late.addedKeysAt first place := by rw [addedKeysAt, addedKeysAt, kept]
    _ = other.keysAt place := (isOther.keys place otherLeafless).symm

end EitherOrder

/-! ## Leaves of a mapping -/

/-- The leaf at a path of a mapping stands at a path to a leaf of its spec. -/
theorem mem_leafPlaces (reads : value.Reads spec) (proper : place ≠ []) {leaf : Value}
    (found : value.leafAt? place = some leaf) : place ∈ spec.leafPlaces := by
  induction place generalizing value spec with
  | nil => exact absurd rfl proper
  | cons name further ih =>
    have under : value.under? name = spec.under? (Key.ofText name).text := under?_of_reads reads name
    obtain ⟨_, here⟩ | ⟨held, inSpec, here, single⟩ | ⟨inner, held, inSpec, here, isScope, below⟩ :=
      Spec.under?_cases (readable_of_reads reads) (.ofText name)
    · simp [leafAt?, at?, under, here] at found
    · cases further with
      | nil => exact Spec.mem_leafPlaces_of_leaf inSpec
      | cons second further => simp [leafAt?, at?, under, here, single] at found
    · have inside : held.leafAt? further = some leaf := by
        simpa [leafAt?, at?, under, here, isScope] using found
      have deeper : further ≠ [] := by
        rintro rfl
        simp [leafAt?, at?, Option.filter_some, isScope] at inside
      exact Spec.mem_leafPlaces_of_scope inSpec (ih below deeper inside)

/-- Patches are independent if no path leads to a leaf of both. -/
theorem independentOf_of_leafPlaces (firstReads : first.Reads spec) (secondReads : second.Reads changes)
    (apart : ∀ place ∈ spec.leafPlaces, place ∉ changes.leafPlaces) : first.IndependentOf second := by
  intro place proper
  cases inFirst : first.leafAt? place with
  | none => exact .inl rfl
  | some leaf =>
    cases inSecond : second.leafAt? place with
    | none => exact .inr rfl
    | some other =>
      exact absurd (mem_leafPlaces secondReads proper inSecond)
        (apart place (mem_leafPlaces firstReads proper inFirst))

/-! ## Merging mappings -/

theorem isMergeOf_of_merged (isBase : base.IsTextMap) (isPatch : patch.IsTextMap)
    (ran : base.merged patch = .ok merged) : merged.IsMergeOf base patch := by
  obtain ⟨spec, baseReads, _⟩ := isTextMap_iff.mp isBase
  obtain ⟨changes, patchReads, _⟩ := isTextMap_iff.mp isPatch
  obtain ⟨_, step, rfl⟩ := (merged_iff_merge baseReads patchReads).mp ran
  obtain ⟨free, rfl⟩ := Spec.merge_eq_ok.mp step
  rw [Spec.toEntries_mapKeys]
  exact isMergeOf_patched baseReads patchReads free

/-- Two mappings can be merged onto a third in turn where the specs that they are can be. -/
theorem merges_in_turn_iff {further : Spec Key} (baseReads : base.Reads spec)
    (firstReads : first.Reads changes) (secondReads : second.Reads further) :
    (∃ middle result, base.merged first = .ok middle ∧ middle.merged second = .ok result) ↔
      spec.firstConflict? changes = none ∧ (spec.patched changes).firstConflict? further = none := by
  constructor
  · rintro ⟨middle, result, step, next⟩
    obtain ⟨_, ⟨_, stepped, ran⟩, _⟩ :=
      (merged_in_turn_iff_merge baseReads firstReads secondReads).mp ⟨middle, step, next⟩
    obtain ⟨free, rfl⟩ := Spec.merge_eq_ok.mp stepped
    exact ⟨free, (Spec.merge_eq_ok.mp ran).1⟩
  · rintro ⟨free, also⟩
    obtain ⟨middle, step, next⟩ := (merged_in_turn_iff_merge baseReads firstReads secondReads).mpr
      ⟨_, ⟨_, Spec.merge_eq_ok.mpr ⟨free, rfl⟩, Spec.merge_eq_ok.mpr ⟨also, rfl⟩⟩, rfl⟩
    exact ⟨middle, _, step, next⟩

end Value

/-- **Independent patches can change places.** Let there be no path at which two patches both have a leaf.
Then they can be merged onto a base one after the other in either order, or in neither. The results have
the same leaves and the same scopes, with the same keys in each; and wherever no more than one of the
patches has keys that the base lacks, these keys stand in the same order, too. -/
theorem Value.independent_patches_change_places (base first second : TextMap)
    (independent : first.value.IndependentOf second) :
    ((∃ early one, base.value.merged first = .ok early ∧ early.merged second = .ok one) ↔
      ∃ late other, base.value.merged second = .ok late ∧ late.merged first = .ok other) ∧
    ∀ early one late other, base.value.merged first = .ok early → early.merged second = .ok one →
      base.value.merged second = .ok late → late.merged first = .ok other →
      one.SameButOrder other ∧
      ∀ place, base.value.addedKeysAt first place = [] ∨ base.value.addedKeysAt second place = [] →
        one.keysAt place = other.keysAt place := by
  have isBase := base.isTextMap
  have isFirst := first.isTextMap
  have isSecond := second.isTextMap
  constructor
  · obtain ⟨spec, baseReads, _⟩ := isTextMap_iff.mp isBase
    obtain ⟨changes, firstReads, distinct⟩ := isTextMap_iff.mp isFirst
    obtain ⟨further, secondReads, also⟩ := isTextMap_iff.mp isSecond
    rw [merges_in_turn_iff baseReads firstReads secondReads,
      merges_in_turn_iff baseReads secondReads firstReads, Spec.no_conflict_in_turn_comm distinct also]
  · intro early one late other firstRan oneRan secondRan otherRan
    have earlyMap := (TextMap.ofMerge firstRan).isTextMap
    have lateMap := (TextMap.ofMerge secondRan).isTextMap
    have isEarly := isMergeOf_of_merged isBase isFirst firstRan
    have isOne := isMergeOf_of_merged earlyMap isSecond oneRan
    have isLate := isMergeOf_of_merged isBase isSecond secondRan
    have isOther := isMergeOf_of_merged lateMap isFirst otherRan
    have leaves := leafAt?_either_order isEarly isOne isLate isOther independent
    have scopes := hasScopeAt_either_order isEarly isOne isLate isOther
    refine ⟨⟨leaves, scopes, fun place scope => ?_⟩, fun place nothing => ?_⟩
    · obtain ⟨texts, ofOne, once⟩ := texts_of_keysAt (isTextMap_merged earlyMap isSecond oneRan) scope
      obtain ⟨others, ofOther, also⟩ :=
        texts_of_keysAt (isTextMap_merged lateMap isFirst otherRan) ((scopes place).symm.trans scope)
      rw [ofOne, ofOther]
      have oneLeafless := leafAt?_of_scope scope
      have same := mem_texts_either_order isEarly isOne isLate isOther oneLeafless
        ((leaves place).symm.trans oneLeafless)
      simp only [ofOne, ofOther, List.mem_map, Option.some.injEq, exists_eq_right] at same
      exact ((List.perm_ext_iff_of_nodup once also).mpr same).map some
    · cases leaf : one.leafAt? place with
      | some value =>
        have here := at?_of_leafAt? leaf
        rw [leaves place] at leaf
        rw [keysAt, here, keysAt, at?_of_leafAt? leaf]
      | none =>
        have otherLeafless := (leaves place).symm.trans leaf
        rcases nothing with nothing | nothing
        · exact (keysAt_of_nothing_added isLate isOther isEarly isOne otherLeafless leaf nothing).symm
        · exact keysAt_of_nothing_added isEarly isOne isLate isOther leaf otherLeafless nothing

private def sheetSpec : Spec Key :=
  .leaf (.ofText "color") (.text "red")
    (.scope (.ofText "on") none (.leaf (.ofText "width") (.int 1) .nil) .nil)

private def sizePatch : Spec Key :=
  .scope (.ofText "off") none (.leaf (.ofText "width") (.int 0) .nil)
    (.scope (.ofText "on") none (.leaf (.ofText "height") (.int 2) .nil) .nil)

/-- A patch that adds the same scope, and no key to the one that is there. -/
private def widthPatch : Spec Key :=
  .scope (.ofText "on") none (.leaf (.ofText "width") (.int 3) .nil)
    (.scope (.ofText "off") none (.leaf (.ofText "height") (.int 0) .nil) .nil)

theorem Value.independent_patches_change_places_of_sheet :
    sheetSpec.toValue.IsTextMap ∧ sizePatch.toValue.IsTextMap ∧ widthPatch.toValue.IsTextMap ∧
    sizePatch.toValue.IndependentOf widthPatch.toValue ∧
    ∃ early one late other, sheetSpec.toValue.merged sizePatch.toValue = .ok early ∧
      early.merged widthPatch.toValue = .ok one ∧
      sheetSpec.toValue.merged widthPatch.toValue = .ok late ∧
      late.merged sizePatch.toValue = .ok other ∧
      one.SameButOrder other ∧ one.keysAt ["on"] = other.keysAt ["on"] := by
  have isBase : sheetSpec.toValue.IsTextMap := isTextMap_iff.mpr ⟨sheetSpec, rfl, rfl⟩
  have sizeReads : sizePatch.toValue.Reads sizePatch := rfl
  have widthReads : widthPatch.toValue.Reads widthPatch := rfl
  have isFirst := isTextMap_iff.mpr ⟨_, sizeReads, rfl⟩
  have isSecond := isTextMap_iff.mpr ⟨_, widthReads, rfl⟩
  have independent := independentOf_of_leafPlaces sizeReads widthReads (by decide)
  have runs : (sheetSpec.toValue.mergedInTurn [sizePatch.toValue, widthPatch.toValue]).isOk = true := by
    decide +kernel
  obtain ⟨one, ran⟩ := exists_of_isOk runs
  obtain ⟨early, step, ran⟩ := bind_eq_ok.mp ran
  obtain ⟨_, next, same⟩ := bind_eq_ok.mp ran
  cases same
  obtain ⟨eitherOrder, alike⟩ := independent_patches_change_places (.ofValue sheetSpec.toValue isBase)
    (.ofValue sizePatch.toValue isFirst) (.ofValue widthPatch.toValue isSecond) independent
  obtain ⟨late, other, lateStep, lateNext⟩ := eitherOrder.mp ⟨early, one, step, next⟩
  obtain ⟨sameSheet, sameOrder⟩ := alike early one late other step next lateStep lateNext
  exact ⟨isBase, isFirst, isSecond, independent, early, one, late, other, step, next,
    lateStep, lateNext, sameSheet, sameOrder ["on"] (.inr rfl)⟩

end ScopedStyle
